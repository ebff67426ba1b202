import Mathlib
import OsxVlm.World.MergeMap

/-!
# When a merge stays inside the maps

The merge reads a background entry for every foreground entry of data, whether there
is one left or not.  What it needs of the two maps is kept from round to round, as a
condition on the entries still to come.
-/

namespace VM

variable {f g b : LoadMapEntry} {fs bs : List LoadMapEntry} {before : List LoadMapEntry}

/-- The address behind the entry. -/
def LoadMapEntry.top (e : LoadMapEntry) : Nat := e.address + e.count

/-- Sorted, without overlaps, and inside the address space. -/
structure IsLoadMap (es : List LoadMapEntry) : Prop where
  sorted : es.Pairwise fun e e' => e.top ≤ e'.address
  top_le : ∀ e ∈ es, e.top ≤ 2 ^ 32
  count_lt : ∀ e ∈ es, e.count < 2 ^ 24

/-! ### What the merge needs -/

/-- The background entry is not used up when the foreground entry, with `before` before
it, is reached. -/
def Available (before : List LoadMapEntry) (b f : LoadMapEntry) : Prop :=
  f.address < b.top ∨ f.address = b.top ∧ (b.count = 0 ∨ ∀ g ∈ before, g.top ≠ f.address)

/-- There is a background entry for the foreground entry. -/
def Supplied (before : List LoadMapEntry) (f : LoadMapEntry) (bs : List LoadMapEntry) : Prop :=
  ∃ b ∈ bs, b.isData = true ∧ Available before b f

/-- No special entry behind the last background entry of data begins below the end of
the foreground entry, if that meets this last one. -/
def Kept (before : List LoadMapEntry) (f : LoadMapEntry) (bs : List LoadMapEntry) : Prop :=
  ∀ pre b e post, bs = pre ++ b :: e :: post → b.isData = true →
    (∀ e' ∈ e :: post, e'.isData = false) → Available before b f → f.top ≤ e.address

/-- For all foreground entries; the first one is also supplied when it was `copied`. -/
def Good (copied : Bool) (fs bs : List LoadMapEntry) : Prop :=
  ∀ before f after, fs = before ++ f :: after →
    (f.isData = true ∨ copied = true ∧ before = [] → Supplied before f bs) ∧ Kept before f bs

/-- The same for the entries behind `f`. -/
def Later (f : LoadMapEntry) (fs bs : List LoadMapEntry) : Prop :=
  ∀ before g after, fs = before ++ g :: after →
    (g.isData = true → Supplied (f :: before) g bs) ∧ Kept (f :: before) g bs

theorem good_nil (copied : Bool) (bs : List LoadMapEntry) : Good copied [] bs := by
  intro before f after h
  cases before <;> cases h

theorem good_cons {copied : Bool} :
    Good copied (f :: fs) bs ↔
      (f.isData = true ∨ copied = true → Supplied [] f bs) ∧ Kept [] f bs ∧ Later f fs bs := by
  constructor
  · intro h
    obtain ⟨hsupplied, hkept⟩ := h [] f fs rfl
    refine ⟨fun hd => hsupplied (hd.imp_right fun hc => ⟨hc, rfl⟩), hkept, ?_⟩
    intro before g after hsplit
    obtain ⟨hsupplied', hkept'⟩ := h (f :: before) g after (by rw [hsplit, List.cons_append])
    exact ⟨fun hd => hsupplied' (Or.inl hd), hkept'⟩
  · intro h before g after hsplit
    obtain ⟨hsupplied, hkept, hlater⟩ := h
    cases before with
    | nil =>
        rw [List.nil_append, List.cons.injEq] at hsplit
        obtain ⟨rfl, rfl⟩ := hsplit
        exact ⟨fun hd => hsupplied (hd.imp_right fun hc => hc.1), hkept⟩
    | cons first before =>
        rw [List.cons_append, List.cons.injEq] at hsplit
        obtain ⟨rfl, hsplit⟩ := hsplit
        obtain ⟨hsupplied', hkept'⟩ := hlater before g after hsplit
        refine ⟨?_, hkept'⟩
        intro hd
        obtain hd | ⟨-, hnil⟩ := hd
        · exact hsupplied' hd
        · cases hnil

/-! ### Background entries that do not count -/

theorem supplied_congr {before before' : List LoadMapEntry}
    (h : ∀ b ∈ bs, Available before b f ↔ Available before' b f) :
    Supplied before f bs ↔ Supplied before' f bs := by
  unfold Supplied
  constructor
  · intro hs
    obtain ⟨b, hb, hd, ha⟩ := hs
    exact ⟨b, hb, hd, (h b hb).mp ha⟩
  · intro hs
    obtain ⟨b, hb, hd, ha⟩ := hs
    exact ⟨b, hb, hd, (h b hb).mpr ha⟩

theorem kept_congr {before before' : List LoadMapEntry}
    (h : ∀ b ∈ bs, Available before b f ↔ Available before' b f) :
    Kept before f bs ↔ Kept before' f bs := by
  have hmem : ∀ pre b e post, bs = pre ++ b :: e :: post → b ∈ bs := by
    intro pre b e post hbs
    rw [hbs]
    simp
  constructor
  · intro hk pre b e post hbs hd hspecial ha
    exact hk pre b e post hbs hd hspecial ((h b (hmem pre b e post hbs)).mpr ha)
  · intro hk pre b e post hbs hd hspecial ha
    exact hk pre b e post hbs hd hspecial ((h b (hmem pre b e post hbs)).mp ha)

theorem supplied_skip (h : b.isData = true → ¬ Available before b f) :
    Supplied before f (b :: bs) ↔ Supplied before f bs := by
  constructor
  · intro hs
    obtain ⟨b', hb', hd, ha⟩ := hs
    rw [List.mem_cons] at hb'
    obtain rfl | hb' := hb'
    · exact absurd ha (h hd)
    · exact ⟨b', hb', hd, ha⟩
  · intro hs
    obtain ⟨b', hb', hd, ha⟩ := hs
    exact ⟨b', List.mem_cons_of_mem _ hb', hd, ha⟩

theorem kept_skip (h : b.isData = true → ¬ Available before b f) :
    Kept before f (b :: bs) ↔ Kept before f bs := by
  constructor
  · intro hk pre b' e post hbs hd hspecial ha
    exact hk (b :: pre) b' e post (by rw [hbs, List.cons_append]) hd hspecial ha
  · intro hk pre b' e post hbs hd hspecial ha
    cases pre with
    | nil =>
        rw [List.nil_append, List.cons.injEq] at hbs
        obtain ⟨rfl, -⟩ := hbs
        exact absurd ha (h hd)
    | cons first pre =>
        rw [List.cons_append, List.cons.injEq] at hbs
        exact hk pre b' e post hbs.2 hd hspecial ha

theorem later_congr {bs' : List LoadMapEntry}
    (hs : ∀ before g after, fs = before ++ g :: after →
      (Supplied (f :: before) g bs ↔ Supplied (f :: before) g bs') ∧
        (Kept (f :: before) g bs ↔ Kept (f :: before) g bs')) :
    Later f fs bs ↔ Later f fs bs' := by
  unfold Later
  constructor
  · intro h before g after hsplit
    obtain ⟨hsupplied, hkept⟩ := h before g after hsplit
    obtain ⟨hs₁, hs₂⟩ := hs before g after hsplit
    exact ⟨fun hd => hs₁.mp (hsupplied hd), hs₂.mp hkept⟩
  · intro h before g after hsplit
    obtain ⟨hsupplied, hkept⟩ := h before g after hsplit
    obtain ⟨hs₁, hs₂⟩ := hs before g after hsplit
    exact ⟨fun hd => hs₁.mpr (hsupplied hd), hs₂.mpr hkept⟩

/-- `f` does not matter behind it when all that is left lies above it. -/
theorem later_iff_good (hbs : ∀ b ∈ bs, f.top ≤ b.address) :
    Later f fs bs ↔ Good false fs bs := by
  have havail : ∀ before g, ∀ b ∈ bs, Available (f :: before) b g ↔ Available before b g := by
    intro before g b hb
    have habove := hbs b hb
    unfold Available
    constructor
    · intro h
      obtain h | ⟨heq, h⟩ := h
      · exact Or.inl h
      · exact Or.inr ⟨heq, h.imp_right fun hall g' hg' => hall g' (List.mem_cons_of_mem _ hg')⟩
    · intro h
      obtain h | ⟨heq, h⟩ := h
      · exact Or.inl h
      · refine Or.inr ⟨heq, ?_⟩
        by_cases hcount : b.count = 0
        · exact Or.inl hcount
        · right
          rw [List.forall_mem_cons]
          refine ⟨?_, h.resolve_left hcount⟩
          unfold LoadMapEntry.top at *
          omega
  unfold Later Good
  constructor
  · intro h before g after hsplit
    obtain ⟨hsupplied, hkept⟩ := h before g after hsplit
    refine ⟨?_, (kept_congr (havail before g)).mp hkept⟩
    intro hd
    obtain hd | ⟨hfalse, -⟩ := hd
    · exact (supplied_congr (havail before g)).mp (hsupplied hd)
    · cases hfalse
  · intro h before g after hsplit
    obtain ⟨hsupplied, hkept⟩ := h before g after hsplit
    exact ⟨fun hd => (supplied_congr (havail before g)).mpr (hsupplied (Or.inl hd)),
      (kept_congr (havail before g)).mpr hkept⟩

/-- A background entry that is of no use to any foreground entry. -/
theorem good_skip {copied : Bool} (h : b.isData = true → ∀ before g after,
    fs = before ++ g :: after → ¬ Available before b g) :
    Good copied fs (b :: bs) ↔ Good copied fs bs := by
  unfold Good
  constructor
  · intro hgood before g after hsplit
    obtain ⟨hsupplied, hkept⟩ := hgood before g after hsplit
    have hno := fun hd => h hd before g after hsplit
    exact ⟨fun hd => (supplied_skip hno).mp (hsupplied hd), (kept_skip hno).mp hkept⟩
  · intro hgood before g after hsplit
    obtain ⟨hsupplied, hkept⟩ := hgood before g after hsplit
    have hno := fun hd => h hd before g after hsplit
    exact ⟨fun hd => (supplied_skip hno).mpr (hsupplied hd), (kept_skip hno).mpr hkept⟩

theorem later_skip (h : b.isData = true → ∀ before g after, fs = before ++ g :: after →
    ¬ Available (f :: before) b g) : Later f fs (b :: bs) ↔ Later f fs bs := by
  apply later_congr
  intro before g after hsplit
  have hno := fun hd => h hd before g after hsplit
  exact ⟨supplied_skip hno, kept_skip hno⟩

/-! ### One foreground entry -/

/-- Entries above the end of a foreground entry are none it meets. -/
theorem kept_above {before : List LoadMapEntry} (h : ∀ b ∈ bs.tail, f.top ≤ b.address) :
    Kept before f bs := by
  intro pre b e post hbs _ _ _
  apply h
  rw [hbs]
  cases pre with
  | nil => exact List.mem_cons_self
  | cons _ _ => simp

/-- The foreground entry is done with, and lies below all that is left. -/
theorem good_done {copied : Bool} (hbs : ∀ b ∈ bs, f.top ≤ b.address)
    (hsupplied : f.isData = true ∨ copied = true → Supplied [] f bs) :
    Good copied (f :: fs) bs ↔ Good false fs bs := by
  rw [good_cons, later_iff_good hbs]
  constructor
  · exact fun h => h.2.2
  · exact fun h => ⟨hsupplied, kept_above fun b hb => hbs b (List.mem_of_mem_tail hb), h⟩

variable {copied : Bool} {b' r : LoadMapEntry} {rs : List LoadMapEntry}

/-- The part of a background entry that is left above the foreground entry. -/
theorem good_cut (hd : b.isData = true) (hd' : b'.isData = true) (htop : b'.top = b.top)
    (haddress : b'.address = f.top) (hlo : b.address < f.top) (hhi : f.top < b.top)
    (hfb : f.address ≤ b.top) (hbs : ∀ e ∈ bs, b.top ≤ e.address) :
    Good copied (f :: fs) (b :: bs) ↔ Good false fs (b' :: bs) := by
  have hcount : b.count ≠ 0 ∧ b'.count ≠ 0 := by
    unfold LoadMapEntry.top at *
    omega
  have havail : ∀ before g, Available before b g ↔ Available before b' g := by
    intro before g
    unfold Available
    simp only [htop, hcount.1, hcount.2]
  have hlater : Later f fs (b :: bs) ↔ Later f fs (b' :: bs) := by
    apply later_congr
    intro before g after _
    constructor
    · unfold Supplied
      simp only [List.exists_mem_cons_iff, hd, hd', havail]
    · unfold Kept
      constructor
      · intro hk pre e e' post hsplit hde hspecial ha
        cases pre with
        | nil =>
            rw [List.nil_append, List.cons.injEq] at hsplit
            obtain ⟨rfl, rfl⟩ := hsplit
            exact hk [] b e' post rfl hd hspecial ((havail _ _).mpr ha)
        | cons first pre =>
            rw [List.cons_append, List.cons.injEq] at hsplit
            exact hk (b :: pre) e e' post (by rw [hsplit.2, List.cons_append]) hde hspecial ha
      · intro hk pre e e' post hsplit hde hspecial ha
        cases pre with
        | nil =>
            rw [List.nil_append, List.cons.injEq] at hsplit
            obtain ⟨rfl, rfl⟩ := hsplit
            exact hk [] b' e' post rfl hd' hspecial ((havail _ _).mp ha)
        | cons first pre =>
            rw [List.cons_append, List.cons.injEq] at hsplit
            exact hk (b' :: pre) e e' post (by rw [hsplit.2, List.cons_append]) hde hspecial ha
  have habove : ∀ e ∈ b' :: bs, f.top ≤ e.address := by
    rw [List.forall_mem_cons]
    exact ⟨haddress.ge, fun e he => hhi.le.trans (hbs e he)⟩
  rw [good_cons, hlater, later_iff_good habove]
  constructor
  · exact fun h => h.2.2
  · intro h
    refine ⟨fun _ => ⟨b, List.mem_cons_self, hd, ?_⟩, ?_, h⟩
    · unfold Available
      unfold LoadMapEntry.top at *
      omega
    · apply kept_above
      intro e he
      exact hhi.le.trans (hbs e he)

/-- A background entry that ends no later than the foreground entry is used up. -/
theorem later_used (hlo : b.address < f.top) (hhi : b.top ≤ f.top)
    (hfs : ∀ g ∈ fs, f.top ≤ g.address) : Later f fs (b :: bs) ↔ Later f fs bs := by
  apply later_skip
  intro _ before g after hsplit ha
  have hg := hfs g (by rw [hsplit]; simp)
  obtain hlt | ⟨heq, hcount | hall⟩ := ha
  · omega
  · unfold LoadMapEntry.top at *
    omega
  · exact hall f List.mem_cons_self (by omega)

/-- The next background entry lies above, or there is none. -/
theorem good_used (hd : b.isData = true) (hlo : b.address < f.top) (hhi : b.top ≤ f.top)
    (hfb : f.address ≤ b.top) (hfs : ∀ g ∈ fs, f.top ≤ g.address)
    (hbs : ∀ e ∈ bs, f.top ≤ e.address) :
    Good copied (f :: fs) (b :: bs) ↔ Good false fs bs := by
  rw [good_cons, later_used hlo hhi hfs, later_iff_good hbs]
  constructor
  · exact fun h => h.2.2
  · intro h
    refine ⟨fun _ => ⟨b, List.mem_cons_self, hd, ?_⟩, kept_above hbs, h⟩
    obtain hlt | heq := Nat.lt_or_eq_of_le hfb
    · exact Or.inl hlt
    · exact Or.inr ⟨heq, Or.inr fun g hg => absurd hg List.not_mem_nil⟩

/-- The next background entry is met by the same foreground entry. -/
theorem good_again (hd : b.isData = true) (hlo : b.address < f.top) (hhi : b.top ≤ f.top)
    (hfb : f.address ≤ b.top) (hfs : ∀ g ∈ fs, f.top ≤ g.address) (hr : r.address < f.top)
    (hbs : ∀ e ∈ r :: rs, b.top ≤ e.address) :
    Good copied (f :: fs) (b :: r :: rs) ↔ Good true (f :: fs) (r :: rs) := by
  have hnil : ∀ e, f.address ≤ e.top → Available [] e f := by
    intro e he
    obtain hlt | heq := Nat.lt_or_eq_of_le he
    · exact Or.inl hlt
    · exact Or.inr ⟨heq, Or.inr fun g hg => absurd hg List.not_mem_nil⟩
  rw [good_cons, good_cons, later_used hlo hhi hfs]
  constructor
  · intro h
    obtain ⟨-, hkept, hlater⟩ := h
    refine ⟨fun _ => ?_, ?_, hlater⟩
    · by_contra hno
      have hspecial : ∀ e ∈ r :: rs, e.isData = false := by
        intro e he
        rw [Bool.eq_false_iff]
        intro hde
        have habove := hbs e he
        exact hno ⟨e, he, hde, hnil e (by unfold LoadMapEntry.top at *; omega)⟩
      have := hkept [] b r rs rfl hd hspecial (hnil b hfb)
      omega
    · intro pre e e' post hsplit
      exact hkept (b :: pre) e e' post (by rw [hsplit, List.cons_append])
  · intro h
    obtain ⟨hsupplied, hkept, hlater⟩ := h
    refine ⟨fun _ => ⟨b, List.mem_cons_self, hd, hnil b hfb⟩, ?_, hlater⟩
    intro pre e e' post hsplit hde hspecial ha
    cases pre with
    | nil =>
        rw [List.nil_append, List.cons.injEq] at hsplit
        obtain ⟨rfl, hpost⟩ := hsplit
        obtain ⟨d, hdmem, hdata, -⟩ := hsupplied (Or.inr rfl)
        rw [hpost] at hdmem
        rw [hspecial d hdmem] at hdata
        cases hdata
    | cons first pre =>
        rw [List.cons_append, List.cons.injEq] at hsplit
        exact hkept pre e e' post hsplit.2 hde hspecial ha

end VM
