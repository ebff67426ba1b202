import Mathlib
import OsxVlm.World.MergeSafe

/-!
# The rounds of a merge

A round leaves what is needed of the entries still to come as it was, and never takes
more room in the new map than the entries it uses up leave.  The rounds end because
each one is done with an entry or copies one.
-/

namespace VM

variable {pageSizeQs room : Nat} {s s' : Merging} {f b : LoadMapEntry}
  {fs bs fs' bs' : List LoadMapEntry}

/-- No sum of address and count wraps, and a foreground entry that ends inside a
background entry of data ends on a page boundary. -/
structure PageAligned (pageSizeQs : Nat) (fs bs : List LoadMapEntry) : Prop where
  foreground_top : ∀ f ∈ fs, f.top ≠ 2 ^ 32
  background_top : ∀ b ∈ bs, b.top ≠ 2 ^ 32
  end_aligned : ∀ f ∈ fs, ∀ b ∈ bs, b.isData = true → b.address < f.top → f.top < b.top →
    f.top % pageSizeQs = 0

theorem IsLoadMap.sublist (h : IsLoadMap fs) (hfs : fs'.Sublist fs) : IsLoadMap fs' where
  sorted := h.sorted.sublist hfs
  top_le := fun e he => h.top_le e (hfs.subset he)
  count_lt := fun e he => h.count_lt e (hfs.subset he)

theorem PageAligned.sublist (h : PageAligned pageSizeQs fs bs) (hfs : fs'.Sublist fs)
    (hbs : bs'.Sublist bs) : PageAligned pageSizeQs fs' bs' where
  foreground_top := fun f hf => h.foreground_top f (hfs.subset hf)
  background_top := fun b hb => h.background_top b (hbs.subset hb)
  end_aligned := fun f hf b hb => h.end_aligned f (hfs.subset hf) b (hbs.subset hb)

theorem IsLoadMap.above (h : IsLoadMap (f :: fs)) : ∀ g ∈ fs, f.top ≤ g.address :=
  fun _ hg => List.rel_of_pairwise_cons h.sorted hg

/-- A background entry cut off at the end of a foreground entry. -/
theorem isLoadMap_cut {b' : LoadMapEntry} (h : IsLoadMap (b :: bs)) (htop : b'.top = b.top)
    (hcount : b'.count ≤ b.count) : IsLoadMap (b' :: bs) where
  sorted := by
    rw [List.pairwise_cons, htop]
    exact List.pairwise_cons.mp h.sorted
  top_le := by
    rw [List.forall_mem_cons, htop]
    exact List.forall_mem_cons.mp h.top_le
  count_lt := by
    have hall := List.forall_mem_cons.mp h.count_lt
    rw [List.forall_mem_cons]
    exact ⟨hcount.trans_lt hall.1, hall.2⟩

theorem PageAligned.cut {b' : LoadMapEntry} (h : PageAligned pageSizeQs fs (b :: bs))
    (hd : b'.isData = b.isData) (htop : b'.top = b.top) (haddress : b.address ≤ b'.address) :
    PageAligned pageSizeQs fs (b' :: bs) where
  foreground_top := h.foreground_top
  background_top := by
    rw [List.forall_mem_cons, htop]
    exact List.forall_mem_cons.mp h.background_top
  end_aligned := by
    intro f hf
    obtain ⟨hb, hbs⟩ := List.forall_mem_cons.mp (h.end_aligned f hf)
    rw [List.forall_mem_cons, hd, htop]
    exact ⟨fun hdata hlo => hb hdata (haddress.trans_lt hlo), hbs⟩

theorem LoadMapEntry.endAddress_eq (hle : f.top ≤ 2 ^ 32) (hne : f.top ≠ 2 ^ 32) :
    f.endAddress = f.top :=
  Nat.mod_eq_of_lt (by unfold LoadMapEntry.top at *; omega)

namespace Merging

/-! ### What falls below -/

theorem skipBelow_append (f : LoadMapEntry) (bs : List LoadMapEntry) :
    (skipBelow f bs).1 ++ (skipBelow f bs).2 = bs := by
  induction bs with
  | nil => rfl
  | cons b bs ih =>
      rw [skipBelow]
      by_cases h : b.below f = true
      · rw [if_pos h, List.cons_append, ih]
      · rw [if_neg h, List.nil_append]

theorem skipBelow_below (f : LoadMapEntry) (bs : List LoadMapEntry) :
    ∀ b ∈ (skipBelow f bs).1, b.below f = true := by
  induction bs with
  | nil => exact fun b hb => absurd hb List.not_mem_nil
  | cons b bs ih =>
      rw [skipBelow]
      by_cases h : b.below f = true
      · rw [if_pos h, List.forall_mem_cons]
        exact ⟨h, ih⟩
      · rw [if_neg h]
        exact fun b hb => absurd hb List.not_mem_nil

theorem skipBelow_head (f : LoadMapEntry) (bs : List LoadMapEntry) :
    ∀ b ∈ (skipBelow f bs).2.head?, b.below f = false := by
  induction bs with
  | nil => exact fun b hb => absurd hb (by simp [skipBelow])
  | cons b bs ih =>
      rw [skipBelow]
      by_cases h : b.below f = true
      · rw [if_pos h]
        exact ih
      · rw [if_neg h]
        intro b' hb'
        rw [List.head?_cons, Option.mem_some_iff] at hb'
        rw [← hb']
        exact Bool.eq_false_iff.mpr h

theorem skipBelow_sublist (f : LoadMapEntry) (bs : List LoadMapEntry) :
    (skipBelow f bs).2.Sublist bs := by
  conv => rhs; rw [← skipBelow_append f bs]
  exact List.sublist_append_right _ _

/-- An entry of data that the loop leaves ends at the foreground entry or above it. -/
theorem of_not_below (h : b.below f = false) (hle : b.top ≤ 2 ^ 32) (hne : b.top ≠ 2 ^ 32) :
    b.isData = true ∧ f.address ≤ b.top := by
  unfold LoadMapEntry.below at h
  rw [LoadMapEntry.endAddress_eq hle hne] at h
  simp only [Bool.or_eq_false_iff, Bool.not_eq_false', Bool.and_eq_false_iff,
    decide_eq_false_iff_not] at h
  refine ⟨h.1, ?_⟩
  unfold LoadMapEntry.top at *
  omega

theorem good_skipBelow {copied : Bool} (hfs : IsLoadMap (f :: fs)) (hbs : IsLoadMap bs)
    (hne : ∀ b ∈ bs, b.top ≠ 2 ^ 32) :
    Good copied (f :: fs) (skipBelow f bs).2 ↔ Good copied (f :: fs) bs := by
  induction bs with
  | nil => rfl
  | cons b bs ih =>
      rw [skipBelow]
      by_cases h : b.below f = true
      · rw [if_pos h, ih (hbs.sublist (List.sublist_cons_self _ _))
          fun e he => hne e (List.mem_cons_of_mem _ he)]
        symm
        apply good_skip
        intro hd before g after hsplit ha
        have hbelow : b.top < f.address := by
          unfold LoadMapEntry.below at h
          rw [hd, LoadMapEntry.endAddress_eq (hbs.top_le b List.mem_cons_self)
            (hne b List.mem_cons_self)] at h
          simpa using (by simpa using h : b.address < f.address ∧ b.top < f.address).2
        have hg : g ∈ f :: fs := by
          rw [hsplit]
          simp
        have hfg : f.address ≤ g.address := by
          rw [List.mem_cons] at hg
          obtain rfl | hg := hg
          · exact le_rfl
          · exact (Nat.le_add_right _ _).trans (hfs.above g hg)
        unfold Available at ha
        omega
      · rw [if_neg h]

/-! ### Between two rounds -/

/-- Entries written and still to come; a foreground entry may become two. -/
def spent (s : Merging) : Nat :=
  s.new.length + s.background.length + 2 * s.foreground.length

/-- What the rounds keep. -/
structure Ready (pageSizeQs room : Nat) (s : Merging) : Prop where
  foreground : IsLoadMap s.foreground
  background : IsLoadMap s.background
  aligned : PageAligned pageSizeQs s.foreground s.background
  wrapped : s.wrapped = false
  spent_le : s.spent ≤ room + s.copiedForeground.toNat
  copied : s.copiedForeground = true → s.foreground ≠ []

/-- What the merge needs of what is still to come. -/
def Supply (s : Merging) : Prop := Good s.copiedForeground s.foreground s.background

/-- What a round uses up. -/
def measure (s : Merging) : Nat :=
  2 * s.foreground.length + s.background.length + (!s.copiedForeground).toNat

theorem skip_ready (h : s.Ready pageSizeQs room) : (s.skip f).Ready pageSizeQs room where
  foreground := h.foreground
  background := h.background.sublist (skipBelow_sublist f s.background)
  aligned := h.aligned.sublist (List.Sublist.refl _) (skipBelow_sublist f s.background)
  wrapped := h.wrapped
  spent_le := by
    have hlength := congrArg List.length (skipBelow_append f s.background)
    have hspent := h.spent_le
    rw [List.length_append] at hlength
    simp only [spent, skip, List.length_append] at *
    omega
  copied := h.copied

theorem skip_measure (s : Merging) (f : LoadMapEntry) : (s.skip f).measure ≤ s.measure := by
  have hlength := (skipBelow_sublist f s.background).length_le
  simp only [measure, skip]
  omega

theorem skip_supply (h : s.Ready pageSizeQs room) (hs : s.foreground = f :: fs) :
    (s.skip f).Supply ↔ s.Supply := by
  have hfs := h.foreground
  rw [hs] at hfs
  unfold Supply
  simp only [skip, hs]
  exact good_skipBelow hfs h.background h.aligned.background_top

/-- The next foreground entry is taken up. -/
theorem advance_done (hs : s.foreground = f :: fs)
    (hbs : ∀ b ∈ s.background.head?, f.endAddress ≤ b.address) :
    s.advance f = { s with foreground := fs, copiedForeground := false } := by
  unfold advance
  cases hb : s.background with
  | nil => simp only [hs, List.tail_cons]
  | cons b bs =>
      have hle : f.endAddress ≤ b.address := hbs b (by rw [hb]; rfl)
      simp only [hs, List.tail_cons, if_pos hle]

theorem advance_stays (hb : s.background = b :: bs) (hlt : b.address < f.endAddress) :
    s.advance f = s := by
  unfold advance
  simp only [hb]
  rw [if_neg (Nat.not_le.mpr hlt)]

/-- The part above the foreground entry, where no sum wraps. -/
theorem upper_eq (hf : f.endAddress = f.top) (halign : f.top % pageSizeQs = 0)
    (hlo : b.address < f.top) (hhi : f.top < b.top) (hfit : f.top < 2 ^ 32)
    (hcount : b.count < 2 ^ 24) :
    ∃ b', b.upper pageSizeQs f = (some b', true) ∧ b'.isData = b.isData ∧
      b'.address = f.top ∧ b'.count = b.top - f.top := by
  have hoverlap : (f.top + 2 ^ 32 - b.address) % 2 ^ 32 = f.top - b.address := by omega
  have hsub : sub24 b.count (f.top - b.address) = b.top - f.top := by
    unfold sub24
    unfold LoadMapEntry.top at *
    omega
  have hle : f.top - b.address ≤ b.count := by
    unfold LoadMapEntry.top at *
    omega
  unfold LoadMapEntry.upper
  simp only [hf, halign, hoverlap, hsub, ne_eq, not_true_eq_false, if_false, false_and, hle,
    Nat.zero_le, and_self, decide_true]
  exact ⟨_, rfl, rfl, rfl, rfl⟩

/-- `s'` is `s` after the foreground entry, and what lies below it, has been copied. -/
structure Copies (room : Nat) (s s' : Merging) : Prop where
  foreground : s'.foreground = s.foreground
  background : s'.background = s.background
  wrapped : s'.wrapped = s.wrapped
  copied : s'.copiedForeground = true
  spent_le : s'.spent ≤ room + 2

theorem copyForeground_copies (h : s.spent ≤ room + 1 + s.copiedForeground.toNat) :
    Copies room s (s.copyForeground f) := by
  unfold copyForeground
  by_cases hc : s.copiedForeground = true
  · rw [if_pos hc]
    rw [hc] at h
    exact ⟨rfl, rfl, rfl, hc, h⟩
  · rw [if_neg hc]
    rw [Bool.not_eq_true] at hc
    rw [hc] at h
    refine ⟨rfl, rfl, rfl, rfl, ?_⟩
    simp only [spent, List.length_append, List.length_singleton, Bool.toNat_false] at *
    omega

/-- `overlay` on a background entry that was not skipped. -/
theorem overlay_copies (h : s.spent ≤ room + s.copiedForeground.toNat) :
    ∃ s₁, Copies room s s₁ ∧ s.overlay pageSizeQs f b bs =
      (if b.address < f.endAddress then
        if f.endAddress < b.endAddress then
          match b.upper pageSizeQs f with
          | (none, exact_) => ({ s₁ with wrapped := s₁.wrapped || !exact_ }, false)
          | (some b', exact_) =>
              ({ s₁ with background := b' :: bs, wrapped := s₁.wrapped || !exact_ }, true)
        else ({ s₁ with background := bs }, true)
      else (s₁, true)) := by
  refine ⟨_, ?_, rfl⟩
  by_cases hlt : b.address < f.address
  · rw [if_pos hlt]
    have hlower : Copies room { s with new := s.new ++ [b.lower f] }
        (copyForeground { s with new := s.new ++ [b.lower f] } f) := by
      apply copyForeground_copies
      simp only [spent, List.length_append, List.length_singleton] at *
      omega
    exact ⟨hlower.foreground, hlower.background, hlower.wrapped, hlower.copied, hlower.spent_le⟩
  · rw [if_neg hlt]
    apply copyForeground_copies
    omega

/-- Between two rounds, on to the next foreground entry. -/
theorem ready_done {s₁ : Merging} (h : s.Ready pageSizeQs room) (hs : s.foreground = f :: fs)
    (hc : Copies room s s₁) (hbs : IsLoadMap bs') (halign : PageAligned pageSizeQs fs bs')
    (hlength : bs'.length ≤ s.background.length) :
    Ready pageSizeQs room
      { s₁ with foreground := fs, background := bs', copiedForeground := false } where
  foreground := by
    have hfs := h.foreground
    rw [hs] at hfs
    exact hfs.sublist (List.sublist_cons_self f fs)
  background := hbs
  aligned := halign
  wrapped := hc.wrapped.trans h.wrapped
  spent_le := by
    have hspent := hc.spent_le
    simp only [spent, hc.foreground, hc.background, hs, List.length_cons, Bool.toNat_false] at *
    omega
  copied := fun hfalse => Bool.noConfusion hfalse

/-- Between two rounds, with the same foreground entry. -/
theorem ready_again {s₁ : Merging} (h : s.Ready pageSizeQs room) (hs : s.foreground = f :: fs)
    (hc : Copies room s s₁) (hb : s.background = b :: bs) :
    Ready pageSizeQs room { s₁ with background := bs } where
  foreground := by
    rw [hc.foreground]
    exact h.foreground
  background := by
    have hbs := h.background
    rw [hb] at hbs
    exact hbs.sublist (List.sublist_cons_self b bs)
  aligned := by
    have halign := h.aligned
    rw [hb] at halign
    rw [hc.foreground]
    exact halign.sublist (List.Sublist.refl _) (List.sublist_cons_self b bs)
  wrapped := hc.wrapped.trans h.wrapped
  spent_le := by
    have hspent := hc.spent_le
    simp only [spent, hc.background, hc.copied, hb, List.length_cons, Bool.toNat_true] at *
    omega
  copied := by
    intro _
    rw [hc.foreground, hs]
    exact List.cons_ne_nil f fs

/-! ### One round -/

/-- A round that goes on: from `s`, with the foreground entry copied, to `s'`. -/
structure GoesOn (pageSizeQs room : Nat) (s s' : Merging) : Prop where
  ready : s'.Ready pageSizeQs room
  measure_lt : s'.measure < s.measure
  supply : s'.Supply ↔ s.Supply

theorem available_nil (h : f.address ≤ b.top) : Available [] b f := by
  obtain hlt | heq := Nat.lt_or_eq_of_le h
  · exact Or.inl hlt
  · exact Or.inr ⟨heq, Or.inr fun g hg => absurd hg List.not_mem_nil⟩

/-- A list that begins above an address lies above it. -/
theorem above_of_head {a : Nat} (hbs : IsLoadMap bs) (hhead : ∀ b ∈ bs.head?, a ≤ b.address) :
    ∀ b ∈ bs, a ≤ b.address := by
  cases bs with
  | nil => exact fun b hb => absurd hb List.not_mem_nil
  | cons b bs =>
      have hle : a ≤ b.address := hhead b rfl
      rw [List.forall_mem_cons]
      exact ⟨hle, fun e he => hle.trans ((Nat.le_add_right _ _).trans (hbs.above e he))⟩

theorem done_goesOn {s₁ : Merging} (h : s.Ready pageSizeQs room) (hs : s.foreground = f :: fs)
    (hc : Copies room s s₁) (hbs : IsLoadMap bs') (halign : PageAligned pageSizeQs fs bs')
    (hlength : bs'.length ≤ s.background.length) (hsupply : Good false fs bs' ↔ s.Supply) :
    GoesOn pageSizeQs room s
      { s₁ with foreground := fs, background := bs', copiedForeground := false } where
  ready := ready_done h hs hc hbs halign hlength
  measure_lt := by
    simp only [measure, hs, List.length_cons, Bool.not_false, Bool.toNat_true]
    omega
  supply := hsupply

/-- A special foreground entry is only copied. -/
theorem special_goesOn (h : s.Ready pageSizeQs room) (hs : s.foreground = f :: fs)
    (hspecial : f.isData = false) (hcopied : s.copiedForeground = false)
    (hhead : ∀ b ∈ s.background.head?, b.isData = true ∧ f.address ≤ b.top) :
    GoesOn pageSizeQs room s ((s.copyForeground f).advance f) := by
  have hspent := h.spent_le
  have hc : Copies room s (s.copyForeground f) := copyForeground_copies (by omega)
  have halign := h.aligned
  have hfs := h.foreground
  rw [hs] at halign hfs
  have hf := LoadMapEntry.endAddress_eq (hfs.top_le f List.mem_cons_self)
    (halign.foreground_top f List.mem_cons_self)
  by_cases hdone : ∀ b ∈ s.background.head?, f.endAddress ≤ b.address
  · have hbs := above_of_head h.background (by rw [hf] at hdone; exact hdone)
    rw [advance_done (hc.foreground.trans hs) (by rw [hc.background]; exact hdone)]
    have hgood := done_goesOn h hs hc h.background
      (halign.sublist (List.sublist_cons_self f fs) (List.Sublist.refl _)) le_rfl
    rw [← hc.background] at hgood
    apply hgood
    unfold Supply
    rw [hs, hcopied, hc.background, good_done hbs]
    intro hd
    rw [hspecial] at hd
    obtain hd | hd := hd <;> cases hd
  · push Not at hdone
    obtain ⟨b, hmem, hlt⟩ := hdone
    obtain ⟨bs, hb⟩ := List.head?_eq_some_iff.mp hmem
    obtain ⟨hd, hle⟩ := hhead b hmem
    rw [advance_stays (hc.background.trans hb) hlt]
    have hnew : s.copyForeground f =
        { s with new := s.new ++ [f], copiedForeground := true } := by
      unfold copyForeground
      rw [hcopied]
      rfl
    rw [hnew]
    refine ⟨⟨h.foreground, h.background, h.aligned, h.wrapped, ?_, ?_⟩, ?_, ?_⟩
    · simp only [spent, hcopied, List.length_append, List.length_singleton, Bool.toNat_true,
        Bool.toNat_false] at *
      omega
    · intro _
      simp only [hs]
      exact List.cons_ne_nil f fs
    · simp only [measure, hcopied, Bool.not_false, Bool.not_true, Bool.toNat_true,
        Bool.toNat_false]
      omega
    · unfold Supply
      have hsupplied : Supplied [] f (b :: bs) :=
        ⟨b, List.mem_cons_self, hd, available_nil hle⟩
      simp only [hs, hcopied, hb, good_cons, hsupplied, implies_true, true_and]

/-- The background entry that overlaps the foreground entry, or lies above it. -/
theorem overlay_goesOn (h : s.Ready pageSizeQs room) (hs : s.foreground = f :: fs)
    (hb : s.background = b :: bs) (hd : b.isData = true) (hle : f.address ≤ b.top) :
    ∃ s₁, s.overlay pageSizeQs f b bs = (s₁, true) ∧
      GoesOn pageSizeQs room s (s₁.advance f) := by
  have hfs := h.foreground
  have hbs := h.background
  have halign := h.aligned
  rw [hs] at hfs halign
  rw [hb] at hbs halign
  have hfmem : f ∈ f :: fs := List.mem_cons_self
  have hbmem : b ∈ b :: bs := List.mem_cons_self
  have hf := LoadMapEntry.endAddress_eq (hfs.top_le f hfmem) (halign.foreground_top f hfmem)
  have hbtop := LoadMapEntry.endAddress_eq (hbs.top_le b hbmem) (halign.background_top b hbmem)
  obtain ⟨s₁, hc, hoverlay⟩ :=
    @overlay_copies pageSizeQs room s f b bs h.spent_le
  have hfg : s₁.foreground = f :: fs := hc.foreground.trans hs
  rw [hoverlay, hf, hbtop]
  have hsupply : s.Supply ↔ Good s.copiedForeground (f :: fs) (b :: bs) := by
    unfold Supply
    rw [hs, hb]
  have hrest : PageAligned pageSizeQs fs bs :=
    halign.sublist (List.sublist_cons_self f fs) (List.sublist_cons_self b bs)
  have hbs' : IsLoadMap bs := hbs.sublist (List.sublist_cons_self b bs)
  have hlength : bs.length + 1 ≤ s.background.length := by
    rw [hb, List.length_cons]
  by_cases hlo : b.address < f.top
  · rw [if_pos hlo]
    by_cases hhi : f.top < b.top
    · -- What is left of the background entry lies above the foreground entry.
      rw [if_pos hhi]
      have hfit : f.top < 2 ^ 32 := lt_of_le_of_ne (hfs.top_le f hfmem)
        (halign.foreground_top f hfmem)
      obtain ⟨b', hupper, hd', haddress, hcount⟩ := upper_eq hf
        (halign.end_aligned f hfmem b hbmem hd hlo hhi) hlo hhi hfit (hbs.count_lt b hbmem)
      have htop : b'.top = b.top := by
        unfold LoadMapEntry.top at *
        omega
      rw [hupper]
      refine ⟨_, rfl, ?_⟩
      have hwrapped : (s₁.wrapped || !true) = s₁.wrapped := by
        rw [Bool.not_true, Bool.or_false]
      have hdone := @advance_done { s₁ with background := b' :: bs } f fs hfg fun e he => by
        rw [List.head?_cons, Option.mem_some_iff] at he
        rw [← he, haddress, hf]
      rw [hwrapped, hdone]
      apply done_goesOn h hs hc
      · exact isLoadMap_cut hbs htop (by unfold LoadMapEntry.top at *; omega)
      · apply PageAligned.cut (halign.sublist (List.sublist_cons_self f fs) (List.Sublist.refl _))
          hd' htop
        rw [haddress]
        exact hlo.le
      · rw [List.length_cons]
        exact hlength
      · rw [hsupply]
        exact (good_cut hd (hd'.trans hd) htop haddress hlo hhi hle hbs.above).symm
    · rw [if_neg hhi]
      have hhi := Nat.not_lt.mp hhi
      refine ⟨_, rfl, ?_⟩
      by_cases hdone : ∀ e ∈ bs.head?, f.endAddress ≤ e.address
      · rw [@advance_done { s₁ with background := bs } f fs hfg hdone]
        have habove := above_of_head hbs' (by rw [hf] at hdone; exact hdone)
        apply done_goesOn h hs hc hbs' hrest (by omega)
        rw [hsupply]
        exact (good_used hd hlo hhi hle hfs.above habove).symm
      · push Not at hdone
        obtain ⟨r, hmem, hlt⟩ := hdone
        obtain ⟨rs, hr⟩ := List.head?_eq_some_iff.mp hmem
        rw [advance_stays hr hlt]
        refine ⟨ready_again h hs hc hb, ?_, ?_⟩
        · simp only [measure, hfg, hs, hb, hc.copied, List.length_cons, Bool.not_true,
            Bool.toNat_false]
          omega
        · rw [hsupply]
          unfold Supply
          rw [hf] at hlt
          rw [hr] at hbs
          simp only [hfg, hc.copied, hr]
          exact (good_again hd hlo hhi hle hfs.above hlt hbs.above).symm
  · rw [if_neg hlo]
    have hlo := Nat.not_lt.mp hlo
    refine ⟨_, rfl, ?_⟩
    rw [advance_done hfg fun e he => by
      rw [hc.background, hb, List.head?_cons, Option.mem_some_iff] at he
      rw [← he, hf]
      exact hlo]
    have hgood := done_goesOn h hs hc h.background
      (h.aligned.sublist (by rw [hs]; exact List.sublist_cons_self f fs) (List.Sublist.refl _))
      le_rfl
    rw [← hc.background] at hgood
    apply hgood
    have habove : ∀ e ∈ b :: bs, f.top ≤ e.address :=
      above_of_head hbs fun e he => by
        rw [List.head?_cons, Option.mem_some_iff] at he
        rw [← he]
        exact hlo
    rw [hc.background, hb, hsupply]
    symm
    apply good_done habove
    intro _
    exact ⟨b, hbmem, hd, available_nil hle⟩

theorem round_spec (h : s.Ready pageSizeQs room) (hs : s.foreground = f :: fs) :
    (∃ s', s.round pageSizeQs f = .inl s' ∧ GoesOn pageSizeQs room s s') ∨
      (∃ s', s.round pageSizeQs f = .inr (.outside, s')) ∧ ¬ s.Supply := by
  have hready := @skip_ready pageSizeQs room s f h
  have hskipped : (s.skip f).foreground = f :: fs := hs
  have hmeasure := skip_measure s f
  have hsupply := skip_supply h hs
  have hafter : ∀ {s'}, GoesOn pageSizeQs room (s.skip f) s' → GoesOn pageSizeQs room s s' := by
    intro s' hs'
    exact ⟨hs'.ready, hs'.measure_lt.trans_le hmeasure, hs'.supply.trans hsupply⟩
  have hhead : ∀ b ∈ (s.skip f).background.head?, b.isData = true ∧ f.address ≤ b.top := by
    intro b hb
    have hmem := List.mem_of_mem_head? hb
    exact of_not_below (skipBelow_head f s.background b hb) (hready.background.top_le b hmem)
      (hready.aligned.background_top b hmem)
  unfold round
  by_cases hspecial : (!f.isData && !(s.skip f).copiedForeground) = true
  · rw [if_pos hspecial]
    rw [Bool.and_eq_true, Bool.not_eq_true', Bool.not_eq_true'] at hspecial
    left
    exact ⟨_, rfl, hafter (special_goesOn hready hskipped hspecial.1 hspecial.2 hhead)⟩
  · rw [if_neg hspecial]
    cases hb : (s.skip f).background with
    | nil =>
        right
        refine ⟨⟨_, rfl⟩, ?_⟩
        rw [← hsupply]
        unfold Supply
        rw [hskipped, hb, good_cons]
        intro hgood
        have hneeded : f.isData = true ∨ (s.skip f).copiedForeground = true := by
          rw [Bool.and_eq_true, Bool.not_eq_true', Bool.not_eq_true', not_and_or,
            Bool.not_eq_false, Bool.not_eq_false] at hspecial
          exact hspecial
        obtain ⟨b, hmem, -⟩ := hgood.1 hneeded
        cases hmem
    | cons b bs =>
        obtain ⟨hd, hle⟩ := hhead b (by rw [hb]; rfl)
        obtain ⟨s₁, hoverlay, hgoes⟩ := overlay_goesOn hready hskipped hb hd hle
        left
        simp only [hoverlay, if_true]
        exact ⟨_, rfl, hafter hgoes⟩

/-- Enough rounds end the merge, inside the maps where what it needs is there. -/
theorem run_spec (fuel : Nat) : ∀ s : Merging, s.Ready pageSizeQs room → s.measure < fuel →
    (s.Supply ∧ ∃ s', run pageSizeQs fuel s = some (.merged, s') ∧ s'.wrapped = false ∧
        s'.new.length ≤ room) ∨
      ¬ s.Supply ∧ ∃ s', run pageSizeQs fuel s = some (.outside, s') := by
  induction fuel with
  | zero => exact fun s _ hlt => absurd hlt (Nat.not_lt_zero _)
  | succ fuel ih =>
      intro s h hlt
      unfold run
      cases hs : s.foreground with
      | nil =>
          left
          have hcopied : s.copiedForeground = false := by
            rw [← Bool.not_eq_true]
            exact fun hc => h.copied hc hs
          have hspent := h.spent_le
          refine ⟨?_, _, rfl, h.wrapped, ?_⟩
          · unfold Supply
            rw [hs]
            exact good_nil _ _
          · simp only [spent, hs, hcopied, List.length_append, List.length_nil,
              Bool.toNat_false] at *
            omega
      | cons f fs =>
          obtain ⟨s', hround, hgoes⟩ | ⟨⟨s', hround⟩, hno⟩ := round_spec h hs
          · simp only [hround, ← hgoes.supply]
            have hmeasure := hgoes.measure_lt
            exact ih s' hgoes.ready (by omega)
          · right
            simp only [hround]
            exact ⟨hno, s', rfl⟩

/-- More rounds than a merge takes do not change it. -/
theorem run_mono {fuel more : Nat} {r : MergeEnd × Merging} (hle : fuel ≤ more) :
    ∀ s, run pageSizeQs fuel s = some r → run pageSizeQs more s = some r := by
  induction fuel generalizing more with
  | zero => exact fun s h => by cases h
  | succ fuel ih =>
      obtain ⟨more, rfl⟩ : ∃ n, more = n + 1 := ⟨more - 1, by omega⟩
      intro s h
      unfold run at h ⊢
      cases hs : s.foreground with
      | nil =>
          rw [hs] at h
          exact h
      | cons f fs =>
          simp only [hs] at h ⊢
          cases hround : s.round pageSizeQs f with
          | inl s' =>
              simp only [hround] at h ⊢
              exact ih (by omega) s' h
          | inr r' =>
              simp only [hround] at h ⊢
              exact h

end Merging

/-- `MergeAMap` ends, and neither reads behind the background map nor writes behind the
new one nor makes a count negative. -/
def MergesInside (format : LoadFileFormat) (foreground background : List LoadMapEntry) : Prop :=
  ∃ fuel r s, Merging.run format.pageSizeQs fuel (mergeAMap foreground background) = some (r, s) ∧
    r ≠ .outside ∧ s.wrapped = false ∧
    s.new.length ≤ background.length + 2 * foreground.length

theorem not_mergesInside {format : LoadFileFormat} {fuel : Nat}
    (h : Merging.run format.pageSizeQs fuel (mergeAMap fs bs) = some (.outside, s)) :
    ¬ MergesInside format fs bs := by
  intro hinside
  obtain ⟨fuel', r, s', hrun, hr, -⟩ := hinside
  apply hr
  obtain hle | hle := Nat.le_total fuel fuel'
  · have heq := Merging.run_mono hle _ h
    rw [hrun, Option.some.injEq, Prod.mk.injEq] at heq
    exact heq.1
  · have heq := Merging.run_mono hle _ hrun
    rw [h, Option.some.injEq, Prod.mk.injEq] at heq
    exact heq.1.symm

/-- `count` words of data from `address` on. -/
def dataEntry (address count : Nat) : LoadMapEntry :=
  ⟨address, .dataPages, count, ⟨0, 0⟩, 0⟩

end VM
