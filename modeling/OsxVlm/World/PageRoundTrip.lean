import Mathlib
import OsxVlm.World.IvoryPage

/-!
# Qs that were written are read back

While Qs are written, those of the finished pages are in the file and the others in
the buffer.  The file offset of a page is an `int`, so that there are 1677722 pages.
-/

namespace VM.World

variable {w w' : World} {qs : List LispObj} {q : LispObj}

/-- The pages whose offset an `int` holds. -/
def maximumPages : Nat := 1677722

theorem seekPage_some {page : Nat} (h : page < maximumPages) : seekPage page = some (1280 * page) := by
  unfold maximumPages at h
  have hoffset : toInt32 (page * 1280) = (1280 * page : Nat) := by
    unfold toInt32
    omega
  unfold seekPage lseek
  rw [hoffset, if_pos (by omega), Int.toNat_natCast]

theorem seekPage_none : seekPage maximumPages = none := by decide

/-- The Q with this number is in the file. -/
def InFile (f : WorldFile) (number : Nat) (q : LispObj) : Prop :=
  loadQ (fun i => f.bytes (1280 * (number / 256) + i)) (number % 256) = q

/-! ### Writing -/

/-- Where the Qs written so far are. -/
structure Written (qs : List LispObj) (w : World) (page : Nat) : Prop where
  currentPageNumber : w.currentPageNumber = page
  currentQNumber_le : w.currentQNumber ≤ 256
  length : qs.length = 256 * page + w.currentQNumber
  inFile : ∀ number q, number < 256 * page → qs[number]? = some q → InFile w.file number q
  size : 1280 * page ≤ w.file.size
  inPage : ∀ n q, n < w.currentQNumber → qs[256 * page + n]? = some q →
    loadQ w.ivoryDataPage n = q

theorem Written.start (w : World) : Written [] (w.prepareToWriteIvoryWorldFilePage 0) 0 := by
  constructor
  · rfl
  · exact Nat.zero_le _
  · rfl
  · intro number q hnumber
    omega
  · exact Nat.zero_le _
  · intro n q hn
    exact absurd hn (Nat.not_lt_zero n)

theorem Written.storeNextQ {page : Nat} (h : Written qs w page) (hlt : w.currentQNumber < 256)
    (q : LispObj) : Written (qs ++ [q]) (w.storeNextQ q) page := by
  have hlength := h.length
  constructor
  · exact h.currentPageNumber
  · exact hlt
  · rw [List.length_append, hlength]
    rfl
  · intro number q' hnumber hq'
    rw [List.getElem?_append_left (by omega)] at hq'
    exact h.inFile number q' hnumber hq'
  · exact h.size
  · intro n q' hn hq'
    by_cases hlast : n = w.currentQNumber
    · subst hlast
      rw [← hlength, List.getElem?_concat_length, Option.some_inj] at hq'
      subst hq'
      exact loadQ_storeQ_self _ _ _
    · have hn' : n < w.currentQNumber := by
        have : n < w.currentQNumber + 1 := hn
        omega
      rw [List.getElem?_append_left (by omega)] at hq'
      rw [← h.inPage n q' hn' hq']
      exact loadQ_storeQ_ne hlast

/-- The page of a buffer that was flushed is in the file. -/
theorem Written.flush {page : Nat} (h : Written qs w page) (hpos : 0 < w.currentQNumber)
    (hpage : page < maximumPages) :
    ∃ w', w.writeIvoryWorldFilePage = some w' ∧ w'.currentPageNumber = (page + 1 : Nat) ∧
      w'.currentQNumber = 0 ∧ 1280 * (page + 1) ≤ w'.file.size ∧
      ∀ number q, qs[number]? = some q → InFile w'.file number q := by
  unfold writeIvoryWorldFilePage
  rw [if_neg (by omega), h.currentPageNumber, seekPage_some hpage]
  refine ⟨_, rfl, by simp [prepareToWriteIvoryWorldFilePage], rfl, ?_, ?_⟩
  · simp only [prepareToWriteIvoryWorldFilePage]
    omega
  · intro number q hq
    have hlength := h.length
    have hle := h.currentQNumber_le
    have hnumber : number < qs.length := (List.getElem?_eq_some_iff.mp hq).1
    simp only [InFile, prepareToWriteIvoryWorldFilePage]
    by_cases hold : number < 256 * page
    · rw [← h.inFile number q hold hq]
      apply loadQ_congr
      intro i hi
      have := qBytes_lt (Nat.mod_lt number (by decide)) hi
      exact if_neg (by omega)
    · rw [← h.inPage (number - 256 * page) q (by omega) (by
        rw [Nat.add_sub_cancel' (by omega)]
        exact hq)]
      rw [show number % 256 = number - 256 * page by omega]
      apply loadQ_congr
      intro i hi
      have := qBytes_lt (show number - 256 * page < 256 by omega) hi
      rw [if_pos (by omega)]
      congr 1
      omega

/-- One more Q is written. -/
theorem Written.next {page : Nat} (h : Written qs w page)
    (hroom : w.currentQNumber < 256 ∨ page < maximumPages) (q : LispObj) :
    ∃ w' page', w.writeIvoryWorldFileNextQ q = some w' ∧ Written (qs ++ [q]) w' page' ∧
      0 < w'.currentQNumber := by
  unfold writeIvoryWorldFileNextQ
  split
  · next hfull =>
    obtain ⟨w', hw', hnumber, hempty, hsize, hfile⟩ :=
      h.flush (by omega) (by omega)
    have hle := h.currentQNumber_le
    have hlength := h.length
    rw [hw']
    refine ⟨w'.storeNextQ q, page + 1, rfl, ?_, Nat.succ_pos _⟩
    apply Written.storeNextQ
    · constructor
      · exact hnumber
      · omega
      · omega
      · intro number q' _ hq'
        exact hfile number q' hq'
      · exact hsize
      · intro n q' hn
        omega
    · omega
  · next hroom' =>
    exact ⟨w.storeNextQ q, page, rfl, h.storeNextQ (by omega) q, Nat.succ_pos _⟩

theorem writeQs_append (w : World) (qs qs' : List LispObj) :
    w.writeQs (qs ++ qs') = (w.writeQs qs).bind fun w => w.writeQs qs' := by
  induction qs generalizing w with
  | nil => rfl
  | cons q qs ih =>
      simp only [List.cons_append, writeQs, Option.bind_assoc]
      congr 1
      funext w
      exact ih w

/-- The Qs of up to `maximumPages` full pages and one more are taken. -/
theorem writeQs_written (w : World) (qs : List LispObj) (hfits : qs.length ≤ 256 * maximumPages + 256) :
    ∃ w' page, (w.prepareToWriteIvoryWorldFilePage 0).writeQs qs = some w' ∧ Written qs w' page ∧
      (qs ≠ [] → 0 < w'.currentQNumber) := by
  induction qs using List.reverseRecOn with
  | nil => exact ⟨_, 0, rfl, Written.start w, fun h => absurd rfl h⟩
  | append_singleton qs q ih =>
      rw [List.length_append, List.length_singleton] at hfits
      obtain ⟨w', page, hw', hwritten, -⟩ := ih (by omega)
      have hlength := hwritten.length
      obtain ⟨w'', page', hw'', hwritten', hpos⟩ := hwritten.next (by omega) q
      refine ⟨w'', page', ?_, hwritten', fun _ => hpos⟩
      rw [writeQs_append, hw', Option.bind_some, writeQs, hw'']
      rfl

/-- A page behind the last one is never written. -/
theorem writeQs_stuck (qs : List LispObj) (hpage : w.currentPageNumber = maximumPages)
    (hpos : 0 < w.currentQNumber) : (w.writeQs qs).bind writeIvoryWorldFilePage = none := by
  have hflush : ∀ w : World, w.currentPageNumber = maximumPages → 0 < w.currentQNumber →
      w.writeIvoryWorldFilePage = none := by
    intro w hpage hpos
    unfold writeIvoryWorldFilePage
    rw [if_neg (by omega), hpage, seekPage_none]
  induction qs generalizing w with
  | nil => exact hflush w hpage hpos
  | cons q qs ih =>
      rw [writeQs, writeIvoryWorldFileNextQ]
      split
      · rw [hflush w hpage hpos]
        rfl
      · exact ih hpage (Nat.succ_pos _)

theorem write_none (w : World) (hlong : 256 * maximumPages < qs.length) : w.write qs = none := by
  obtain ⟨w', page, hw', hwritten, hpos⟩ := writeQs_written w (qs.take (256 * maximumPages + 1)) (by
    rw [List.length_take]
    omega)
  have hlength := hwritten.length
  rw [List.length_take, min_eq_left (by omega)] at hlength
  have hpos' := hpos (by
    intro h
    rw [h] at hwritten
    have := hwritten.length
    rw [List.length_nil] at this
    omega)
  have hle := hwritten.currentQNumber_le
  obtain rfl : page = maximumPages := by omega
  unfold write
  rw [← List.take_append_drop (256 * maximumPages + 1) qs, writeQs_append, hw', Option.bind_some]
  exact writeQs_stuck _ hwritten.currentPageNumber hpos'

/-! ### Reading -/

/-- The file holds the Qs in whole pages. -/
structure Holds (f : WorldFile) (qs : List LispObj) : Prop where
  inFile : ∀ number q, qs[number]? = some q → InFile f number q
  size : 1280 * ((qs.length + 255) / 256) ≤ f.size
  fits : qs.length ≤ 256 * maximumPages

/-- `n` Qs were read. -/
structure Reading (w : World) (f : WorldFile) (page n : Nat) : Prop where
  file : w.file = f
  currentPageNumber : w.currentPageNumber = page
  currentQNumber_le : w.currentQNumber ≤ 256
  number : n = 256 * page + w.currentQNumber
  buffer : ∀ i, i < 1280 → w.ivoryDataPage i = f.bytes (1280 * page + i)

/-- A page that the file holds is read. -/
theorem readPage_some {f : WorldFile} (page : Nat) (hfile : w.file = f)
    (hne : w.currentPageNumber ≠ page) (hpage : page < maximumPages)
    (hsize : 1280 * page + 1280 ≤ f.size) :
    w.readIvoryWorldFilePage page =
      some
        { w with
          ivoryDataPage := fun i => f.bytes (1280 * page + i)
          currentPageNumber := page } := by
  unfold readIvoryWorldFilePage
  rw [if_neg hne, seekPage_some hpage]
  dsimp only
  rw [if_pos, hfile]
  rw [hfile, WorldFile.holds, decide_eq_true_eq]
  exact hsize

/-- The next Q of the file is read. -/
theorem Reading.next {f : WorldFile} {page n : Nat} (h : Reading w f page n) (hholds : Holds f qs)
    (hq : qs[n]? = some q) :
    ∃ w' page', w.readIvoryWorldFileNextQ = some (q, w') ∧ Reading w' f page' (n + 1) ∧
      0 < w'.currentQNumber := by
  have hn : n < qs.length := (List.getElem?_eq_some_iff.mp hq).1
  have hsize := hholds.size
  have hfits := hholds.fits
  have hnumber := h.number
  have hle := h.currentQNumber_le
  -- the page of the Q is in the buffer
  obtain ⟨v, page', hadvance, hreading, hlt⟩ : ∃ v page',
      advancePages (w.currentQNumber / 256) w = some v ∧ Reading v f page' n ∧
        v.currentQNumber < 256 := by
    by_cases hfull : w.currentQNumber = 256
    · have hread := readPage_some (page + 1) h.file (by
        rw [h.currentPageNumber]
        omega) (by omega) (by omega)
      rw [hfull]
      simp only [Nat.reduceDiv, advancePages]
      rw [h.currentPageNumber, show (page : Int) + 1 = (page + 1 : Nat) by omega, hread]
      refine ⟨_, page + 1, rfl, ?_, by simp [hfull]⟩
      constructor
      · exact h.file
      · rfl
      · simp [hfull]
      · simp only [hfull]
        omega
      · intro i _
        rfl
    · refine ⟨w, page, ?_, h, by omega⟩
      rw [Nat.div_eq_of_lt (by omega)]
      rfl
  have hnumber' := hreading.number
  have hload : loadQ v.ivoryDataPage v.currentQNumber = q := by
    have hin := hholds.inFile n q hq
    unfold InFile at hin
    rw [show n / 256 = page' by omega, show n % 256 = v.currentQNumber by omega] at hin
    rw [← hin]
    apply loadQ_congr
    intro i hi
    exact hreading.buffer i (qBytes_lt hlt hi)
  unfold readIvoryWorldFileNextQ readIvoryWorldFileQ
  rw [hadvance]
  dsimp only
  rw [if_neg (by omega), hload]
  refine ⟨_, page', rfl, ?_, Nat.succ_pos _⟩
  constructor
  · exact hreading.file
  · exact hreading.currentPageNumber
  · exact hlt
  · simp only
    omega
  · exact hreading.buffer

/-- A run of Qs of the file is read. -/
theorem Reading.readQs {f : WorldFile} {page n : Nat} (h : Reading w f page n)
    (hholds : Holds f qs) {k : Nat} (hk : n + k ≤ qs.length) :
    ∃ w' page', World.readQs k w = some ((qs.drop n).take k, w') ∧ Reading w' f page' (n + k) ∧
      (0 < k → 0 < w'.currentQNumber) := by
  induction k generalizing w page n with
  | zero => exact ⟨w, page, by rw [List.take_zero]; rfl, h, fun h => absurd h (lt_irrefl 0)⟩
  | succ k ih =>
      have hn : n < qs.length := by omega
      obtain ⟨w₁, page₁, hnext, hreading, hpos⟩ := h.next hholds (List.getElem?_eq_getElem hn)
      obtain ⟨w₂, page₂, hrest, hreading', hpos'⟩ := ih hreading (by omega)
      refine ⟨w₂, page₂, ?_, ?_, ?_⟩
      · rw [World.readQs, hnext]
        dsimp only
        rw [hrest, Option.map_some, List.drop_eq_getElem_cons hn, List.take_succ_cons]
      · rw [show n + (k + 1) = n + 1 + k by omega]
        exact hreading'
      · intro _
        rcases Nat.eq_zero_or_pos k with rfl | hk'
        · have hfirst := hrest
          rw [World.readQs] at hfirst
          cases hfirst
          exact hpos
        · exact hpos' hk'

/-- Reading begins on the first page. -/
theorem Holds.start {f : WorldFile} (hholds : Holds f qs) (hfile : w.file = f)
    (hpage : w.currentPageNumber ≠ 0) (hqs : qs ≠ []) :
    ∃ w', w.readIvoryWorldFilePage 0 = some w' ∧
      Reading { w' with currentQNumber := 0 } f 0 0 := by
  have hpos := List.length_pos_iff.mpr hqs
  have hsize := hholds.size
  refine ⟨_, readPage_some 0 hfile hpage (by decide) (by omega), ?_⟩
  constructor
  · exact hfile
  · rfl
  · exact Nat.zero_le _
  · rfl
  · intro i _
    rfl

theorem Holds.read {f : WorldFile} (hholds : Holds f qs) (hfile : w.file = f)
    (hpage : w.currentPageNumber ≠ 0) (hqs : qs ≠ []) {k : Nat} (hpos : 0 < k)
    (hk : k ≤ qs.length) :
    ∃ v, w.read k = some (qs.take k, v) ∧ v.currentPageNumber = ((k - 1) / 256 : Nat) := by
  obtain ⟨w', hw', hstart⟩ := hholds.start hfile hpage hqs
  obtain ⟨v, page, hv, hreading, hlast⟩ := hstart.readQs hholds (show 0 + k ≤ qs.length by omega)
  refine ⟨v, ?_, ?_⟩
  · rw [World.read, hw', Option.bind_some, hv, List.drop_zero]
  · have hnumber := hreading.number
    have hle := hreading.currentQNumber_le
    have := hlast hpos
    rw [hreading.currentPageNumber]
    congr 1
    omega

/-! ### Round trip -/

/-- All Qs are in the file behind the flush. -/
theorem write_holds (w : World) (hqs : qs ≠ []) (hfits : qs.length ≤ 256 * maximumPages) :
    ∃ w', w.write qs = some w' ∧ Holds w'.file qs ∧ w'.currentPageNumber ≠ 0 := by
  obtain ⟨v, page, hv, hwritten, hpos⟩ := writeQs_written w qs (hfits.trans (Nat.le_add_right _ _))
  have hlength := hwritten.length
  have hle := hwritten.currentQNumber_le
  have hpos := hpos hqs
  obtain ⟨w', hw', hnumber, -, hsize, hfile⟩ := hwritten.flush hpos (by omega)
  refine ⟨w', ?_, ⟨hfile, by omega, hfits⟩, by omega⟩
  rw [write, hv, Option.bind_some, hw']

/-- The Qs are read back from the world that wrote them, and from the file when it is
opened again; on both sides a page is taken for every 256 Qs. -/
def RoundTrips (w : World) (qs : List LispObj) : Prop :=
  ∃ w', w.write qs = some w' ∧
    (∃ v, w'.read qs.length = some (qs, v)) ∧
    (qs ≠ [] → ∃ v, w'.reopened.read qs.length = some (qs, v)) ∧
    ∀ k, 0 < k → k ≤ qs.length →
      (∃ v, (w.prepareToWriteIvoryWorldFilePage 0).writeQs (qs.take k) = some v ∧
        v.currentPageNumber = ((k - 1) / 256 : Nat)) ∧
      ∃ v, w'.read k = some (qs.take k, v) ∧ v.currentPageNumber = ((k - 1) / 256 : Nat)

theorem roundTrips_of_fits (w : World) (hfits : qs.length ≤ 256 * maximumPages) :
    RoundTrips w qs := by
  by_cases hqs : qs = []
  · subst hqs
    refine ⟨w.prepareToWriteIvoryWorldFilePage 0, rfl, ⟨_, rfl⟩, fun h => absurd rfl h, ?_⟩
    intro k hpos hk
    rw [List.length_nil] at hk
    omega
  · obtain ⟨w', hw', hholds, hpage⟩ := write_holds w hqs hfits
    have hlen := List.length_pos_iff.mpr hqs
    refine ⟨w', hw', ?_, ?_, ?_⟩
    · obtain ⟨v, hv, -⟩ := hholds.read rfl hpage hqs hlen le_rfl
      rw [List.take_length] at hv
      exact ⟨v, hv⟩
    · intro _
      have hfile : w'.reopened.file = w'.file := rfl
      have hreopened : w'.reopened.currentPageNumber = -1 := rfl
      obtain ⟨v, hv, -⟩ := hholds.read hfile (by omega) hqs hlen le_rfl
      rw [List.take_length] at hv
      exact ⟨v, hv⟩
    · intro k hpos hk
      refine ⟨?_, hholds.read rfl hpage hqs hpos hk⟩
      obtain ⟨v, page, hv, hwritten, hlast⟩ := writeQs_written w (qs.take k) (by
        rw [List.length_take]
        omega)
      have hlength := hwritten.length
      rw [List.length_take, min_eq_left hk] at hlength
      have hne : qs.take k ≠ [] := by
        rw [ne_eq, List.take_eq_nil_iff, not_or]
        exact ⟨by omega, hqs⟩
      have hq := hlast hne
      have hle := hwritten.currentQNumber_le
      refine ⟨v, hv, ?_⟩
      rw [hwritten.currentPageNumber]
      congr 1
      omega

/-- **The page codec.**  Every Q has five bytes of its page to itself.  The Qs are read
back as they were written if and only if there are no more of them than the pages hold
that an `int` can address. -/
theorem ivoryPages_roundTrip (w : World) (qs : List LispObj) :
    (∀ n, n < 256 → (∀ i ∈ qBytes n, i < 1280) ∧ (qBytes n).card = 5 ∧
      ∀ n', n' ≠ n → Disjoint (qBytes n') (qBytes n)) ∧
    (RoundTrips w qs ↔ qs.length ≤ 256 * 1677722) := by
  refine ⟨?_, ?_⟩
  · intro n hn
    refine ⟨fun i hi => qBytes_lt hn hi, ?_, fun n' hne => qBytes_disjoint hne⟩
    have hmem : tagOffset n ∉ Finset.Ico (4 * pointerOffset n) (4 * pointerOffset n + 4) := by
      rw [Finset.mem_Ico]
      unfold tagOffset pointerOffset
      omega
    rw [qBytes, Finset.card_insert_of_notMem hmem, Nat.card_Ico]
    omega
  · constructor
    · intro h
      obtain ⟨w', hw', -⟩ := h
      by_contra hlong
      rw [write_none w (by
        unfold maximumPages
        omega)] at hw'
      cases hw'
    · exact fun hfits => roundTrips_of_fits w hfits

/-- Tag 8 and data 0 for every Q; the page behind the last one punts. -/
theorem write_too_long : ¬ ∀ w,
    RoundTrips w (List.replicate (256 * 1677722 + 1) ⟨0x08, 0⟩) := by
  intro h
  obtain ⟨w', hw', -⟩ := h ⟨⟨fun _ => 0, 0⟩, fun _ => 0, 0, 0⟩
  rw [write_none _ (by
    rw [List.length_replicate]
    unfold maximumPages
    omega)] at hw'
  cases hw'

end VM.World
