import Mathlib
import OsxVlm.Memory.Attributes
import OsxVlm.Memory.VirtualMemory

/-!
# Loading a world

A round of `MapWorldLoad` reads one page, or maps a run of wads that have no page.
The two tests disagree about a wad that has pages but not its first: the page is
not read because it does not exist, and the run is empty because the wad does.
-/

namespace VM

variable {m : Memory} {f : WorldFile} {s s' : Load} {vma : Nat}

/-! ### Runs of wads -/

theorem setWadAttributes_wadCreated {attr : VMAttribute} (hattr : vmExists attr = true)
    {wad x : Nat} (h : wadCreated m x = true) :
    wadCreated (setWadAttributes m wad attr) x = true := by
  obtain ⟨p, hp, hex⟩ := wadCreated_iff.mp h
  apply wadCreated_iff.mpr
  refine ⟨p, hp, ?_⟩
  simp only [setWadAttributes]
  split
  · exact hattr
  · exact hex

section MarkWads

variable (vma) (attr : VMAttribute) (wads : Nat) (m : Memory) (words : Nat)

theorem markWads_words :
    words ≤ (markWads attr vma wads m words).2 ∧
      (markWads attr vma wads m words).2 ≤ words + 65536 * wads ∧
      (markWads attr vma wads m words).2 % 65536 = words % 65536 := by
  induction wads generalizing m words with
  | zero => exact ⟨le_rfl, le_rfl, rfl⟩
  | succ wads ih =>
      unfold markWads
      dsimp only
      split
      · omega
      · have := ih (setWadAttributes m ((vma + words) % 2 ^ 32) attr) (words + 65536)
        omega

/-- Only the attributes are touched. -/
theorem markWads_frame :
    (markWads attr vma wads m words).1 =
      { m with attributeTable := (markWads attr vma wads m words).1.attributeTable } := by
  induction wads generalizing m words with
  | zero => rfl
  | succ wads ih =>
      unfold markWads
      dsimp only
      split
      · rfl
      · rw [ih]
        rfl

variable {attr}

/-- No wad of the run had a page. -/
theorem markWads_uncreated (hattr : vmExists attr = true) {k : Nat} (hk : words ≤ k)
    (hk' : k < (markWads attr vma wads m words).2) (hmod : k % 65536 = words % 65536) :
    wadCreated m ((vma + k) % 2 ^ 32) = false := by
  induction wads generalizing m words with
  | zero =>
      simp only [markWads] at hk'
      omega
  | succ wads ih =>
      unfold markWads at hk'
      dsimp only at hk'
      split at hk'
      · dsimp only at hk'
        omega
      · next hwad =>
        by_cases heq : k = words
        · rw [heq]
          simpa using hwad
        · have hlater := ih _ (words + 65536) (by omega) hk' (by omega)
          by_contra hex
          rw [setWadAttributes_wadCreated hattr (by simpa using hex)] at hlater
          cases hlater

/-- A run that stays inside the address space marks its pages. -/
theorem markWads_attributeTable (hv : vma % 65536 = 0) (hw : words % 65536 = 0)
    (hend : vma + (markWads attr vma wads m words).2 ≤ 2 ^ 32) (p : Nat) :
    (markWads attr vma wads m words).1.attributeTable p =
      if vma + words ≤ 8192 * p ∧ 8192 * p < vma + (markWads attr vma wads m words).2 then attr
      else m.attributeTable p := by
  induction wads generalizing m words with
  | zero =>
      rw [if_neg]
      · rfl
      · simp only [markWads]
        omega
  | succ wads ih =>
      unfold markWads at hend ⊢
      dsimp only at hend ⊢
      split at hend
      · next hwad =>
        rw [if_pos hwad]
        rw [if_neg]
        dsimp only
        omega
      · next hwad =>
        have hwords := markWads_words vma attr wads
          (setWadAttributes m ((vma + words) % 2 ^ 32) attr) (words + 65536)
        have hwad' : (setWadAttributes m ((vma + words) % 2 ^ 32) attr).attributeTable p =
            if vma + words ≤ 8192 * p ∧ 8192 * p < vma + words + 65536 then attr
            else m.attributeTable p := by
          simp only [setWadAttributes, wadNumber]
          apply if_congr _ rfl rfl
          omega
        rw [if_neg hwad, ih _ _ (by omega) hend, hwad', ← ite_or]
        apply if_congr _ rfl rfl
        omega

end MarkWads

/-! ### Pages -/

theorem ensureVirtualAddress_attributeTable_ne {faultp : Bool} {p : Nat}
    (hp : p ≠ pageNumber vma) :
    (ensureVirtualAddress m vma faultp).1.attributeTable p = m.attributeTable p := by
  unfold ensureVirtualAddress
  dsimp only
  split
  · split
    · rfl
    · rw [adjustProtection_attributeTable, if_neg hp]
  · split
    · rw [setCreated, adjustProtection_attributeTable, if_neg hp]
    · exact if_neg hp

/-- A fresh wad replaces no page that exists. -/
theorem ensureVirtualAddress_kept {faultp : Bool} {a : Nat} (ha : created m a = true) :
    (ensureVirtualAddress m vma faultp).1.dataSpace a = m.dataSpace a ∧
      (ensureVirtualAddress m vma faultp).1.tagSpace a = m.tagSpace a := by
  unfold ensureVirtualAddress
  dsimp only
  split
  · split
    · exact ⟨rfl, rfl⟩
    · rw [adjustProtection_dataSpace, adjustProtection_tagSpace]
      exact ⟨rfl, rfl⟩
  · split
    · rw [setCreated, adjustProtection_dataSpace, adjustProtection_tagSpace]
      exact ⟨rfl, rfl⟩
    · next hwad =>
      have hne : wadNumber a ≠ wadNumber vma := by
        intro heq
        apply hwad
        obtain ⟨p, hp, hex⟩ := wadCreated_iff.mp (wadCreated_of_created ha)
        exact wadCreated_iff.mpr ⟨p, hp.trans heq, hex⟩
      simp only [Memory.setAttribute, Memory.mapWad]
      rw [if_neg hne, if_neg hne]
      exact ⟨rfl, rfl⟩

/-! ### Rounds -/

/-- What a round does with the next `words` words. -/
structure Round (f : WorldFile) (s s' : Load) (words : Nat) : Prop where
  words_pos : 0 < words
  words_le : words ≤ s.length
  vma : s'.vma = (s.vma + words) % 2 ^ 32
  length : s'.length = s.length - words
  dataoffset : s'.dataoffset = s.dataoffset + 4 * words
  tagoffset : s'.tagoffset = s.tagoffset + words
  loaded : ∀ i, i < words →
    s'.memory.dataSpace (s.vma + i) = f.dataWord (s.dataoffset + 4 * i) ∧
      s'.memory.tagSpace (s.vma + i) = f.bytes (s.tagoffset + i)
  kept : ∀ a, created s.memory a = true → a < s.vma ∨ s.vma + words ≤ a →
    s'.memory.dataSpace a = s.memory.dataSpace a ∧ s'.memory.tagSpace a = s.memory.tagSpace a
  creates : ∀ i, i < words → created s'.memory (s.vma + i) = true
  keeps : ∀ a, created s.memory a = true → created s'.memory a = true
  /-- Pages further on are not touched. -/
  ahead : ∀ p, s.vma + words ≤ 8192 * p →
    s'.memory.attributeTable p = s.memory.attributeTable p
  /-- A whole wad that was begun has its first page, or none. -/
  begun : ∀ w, s.vma ≤ 65536 * w → 65536 * w < s.vma + words →
    65536 * w + 65536 ≤ s.vma + s.length →
    wadCreated s.memory (65536 * w) = true → created s.memory (65536 * w) = true

/-- The words that `fill` puts into memory, and those it leaves. -/
theorem Load.fill_loaded {words i : Nat} (hi : i < words) :
    (s.fill f m words).dataSpace (s.vma + i) = f.dataWord (s.dataoffset + 4 * i) ∧
      (s.fill f m words).tagSpace (s.vma + i) = f.bytes (s.tagoffset + i) := by
  simp only [Load.fill, Memory.writeWords]
  rw [if_pos (by omega), if_pos (by omega), Nat.add_sub_cancel_left]
  exact ⟨rfl, rfl⟩

theorem Load.fill_kept {words a : Nat} (ha : a < s.vma ∨ s.vma + words ≤ a) :
    (s.fill f m words).dataSpace a = m.dataSpace a ∧
      (s.fill f m words).tagSpace a = m.tagSpace a := by
  simp only [Load.fill, Memory.writeWords]
  rw [if_neg (by omega), if_neg (by omega)]
  exact ⟨rfl, rfl⟩

/-- After the read the page exists, and the others are as they were. -/
theorem Load.read_created {words a : Nat} (h : pageNumber a = pageNumber s.vma) :
    created (setCreated (s.fill f m words) s.vma false true) a = true := by
  rw [created, h, setCreated, adjustProtection_attributeTable, if_pos rfl]
  exact vmExists_default _ _ _

theorem Load.read_attributeTable_ne {words p : Nat} (hp : p ≠ pageNumber s.vma) :
    (setCreated (s.fill f (ensureVirtualAddress s.memory s.vma false).1 words) s.vma false
      true).attributeTable p = s.memory.attributeTable p := by
  rw [setCreated, adjustProtection_attributeTable, if_neg hp]
  exact ensureVirtualAddress_attributeTable_ne hp

theorem Load.readPage_round (hlen : s.length ≠ 0)
    (htest : wadOffset s.vma ≠ 0 ∨ created s.memory s.vma = true ∨ s.length < 65536)
    (h : s.readPage f = some s') : ∃ words, Round f s s' words := by
  unfold Load.readPage at h
  dsimp only at h
  split at h
  · cases h
    have hin : ∀ {i words}, i < words → words = min (8192 - pageOffset s.vma) s.length →
        pageNumber (s.vma + i) = pageNumber s.vma := by
      intro i words hi hwords
      unfold pageNumber pageOffset at *
      omega
    refine ⟨min (8192 - pageOffset s.vma) s.length, ?_⟩
    generalize hwords : min (8192 - pageOffset s.vma) s.length = words
    constructor
    · unfold pageOffset at hwords
      omega
    · omega
    · rfl
    · rfl
    · rfl
    · rfl
    · intro i hi
      simp only [Load.advance, setCreated, adjustProtection_dataSpace, adjustProtection_tagSpace]
      exact Load.fill_loaded hi
    · intro a ha hout
      simp only [Load.advance, setCreated, adjustProtection_dataSpace, adjustProtection_tagSpace]
      rw [(Load.fill_kept hout).1, (Load.fill_kept hout).2]
      exact ensureVirtualAddress_kept ha
    · intro i hi
      exact Load.read_created (hin hi hwords.symm)
    · intro a ha
      by_cases heq : pageNumber a = pageNumber s.vma
      · exact Load.read_created heq
      · rw [created, Load.advance, Load.read_attributeTable_ne heq]
        exact ha
    · intro p hp
      apply Load.read_attributeTable_ne
      unfold pageNumber pageOffset at *
      omega
    · intro w hw hw' hwhole hwad
      have hstart : s.vma = 65536 * w := by
        unfold pageOffset at hwords
        omega
      obtain hoff | hex | hshort := htest
      · unfold wadOffset at hoff
        omega
      · rw [← hstart]
        exact hex
      · omega
  · cases h

/-- A run that is mapped: its wads had no page, and it is not empty. -/
theorem Load.mapWads_some (hoff : wadOffset s.vma = 0) (h : s.mapWads f = some s') :
    ∃ words table,
      0 < words ∧ words ≤ s.length ∧ words % 65536 = 0 ∧
      (∀ k, k < words → k % 65536 = 0 →
        wadCreated s.memory ((s.vma + k) % 2 ^ 32) = false) ∧
      (s.vma + words ≤ 2 ^ 32 → ∀ p,
        table p = if s.vma ≤ 8192 * p ∧ 8192 * p < s.vma + words then
          defaultAttributes s.memory.enableIDS false true
        else s.memory.attributeTable p) ∧
      s' = s.advance
        { s.fill f s.memory words with
          attributeTable := table
          mapped := fun w =>
            if s.vma / 65536 ≤ w ∧ w < (s.vma + words) / 65536 then true else s.memory.mapped w
          protection := fun p =>
            if s.vma / 8192 ≤ p ∧ p < (s.vma + words) / 8192 then
              computeProtection (defaultAttributes s.memory.enableIDS false true)
            else s.memory.protection p }
        words := by
  unfold Load.mapWads at h
  dsimp only at h
  have hattr := vmExists_default s.memory.enableIDS false true
  generalize defaultAttributes s.memory.enableIDS false true = attr at *
  generalize hwads : (s.length - wadOffset s.length) / 65536 = wads at *
  have hwords := markWads_words s.vma attr wads s.memory 0
  have hframe := markWads_frame s.vma attr wads s.memory 0
  refine ⟨(markWads attr s.vma wads s.memory 0).2,
    (markWads attr s.vma wads s.memory 0).1.attributeTable, ?_⟩
  split at h
  · next hcond =>
    cases h
    rw [Bool.and_eq_true, Bool.and_eq_true, decide_eq_true_eq] at hcond
    refine ⟨hcond.1.1, ?_, hwords.2.2, ?_, ?_, ?_⟩
    · unfold wadOffset at hwads
      omega
    · intro k hk hmod
      exact markWads_uncreated s.vma wads s.memory 0 hattr (Nat.zero_le k) hk hmod
    · intro hend p
      exact markWads_attributeTable s.vma wads s.memory 0 hoff rfl hend p
    · rw [hframe]
      rfl
  · cases h

theorem Load.mapWads_round (hend : s.vma + s.length ≤ 2 ^ 32) (hoff : wadOffset s.vma = 0)
    (h : s.mapWads f = some s') : ∃ words, Round f s s' words := by
  obtain ⟨words, table, hpos, hle, hmod, hnone, htable, rfl⟩ := Load.mapWads_some hoff h
  have htable := htable (by omega)
  unfold wadOffset at hoff
  have hex : ∀ p, s.vma ≤ 8192 * p ∧ 8192 * p < s.vma + words → vmExists (table p) = true := by
    intro p hp
    rw [htable, if_pos hp]
    exact vmExists_default _ _ _
  refine ⟨words, ?_⟩
  constructor
  · exact hpos
  · exact hle
  · rfl
  · rfl
  · rfl
  · rfl
  · intro i hi
    exact Load.fill_loaded hi
  · intro a ha hout
    exact Load.fill_kept hout
  · intro i hi
    apply hex
    unfold pageNumber
    omega
  · intro a ha
    simp only [created, Load.advance]
    rw [htable]
    split
    · exact vmExists_default _ _ _
    · exact ha
  · intro p hp
    simp only [Load.advance]
    rw [htable, if_neg (by omega)]
  · intro w hw hw' hwhole hwad
    have := hnone (65536 * w - s.vma) (by omega) (by omega)
    rw [Nat.add_sub_cancel' hw, Nat.mod_eq_of_lt (by omega), hwad] at this
    cases this

theorem Load.round_spec (hend : s.vma + s.length ≤ 2 ^ 32) (hlen : s.length ≠ 0)
    (h : s.round f = some s') : ∃ words, Round f s s' words := by
  unfold Load.round at h
  split at h
  · next htest => exact Load.readPage_round hlen htest h
  · next htest =>
    have hoff : wadOffset s.vma = 0 := by
      by_contra hoff
      exact htest (Or.inl hoff)
    exact Load.mapWads_round hend hoff h

/-! ### The whole extent -/

/-- A whole wad of the range that has pages has its first page. -/
def WholeWads (m : Memory) (vma length : Nat) : Prop :=
  ∀ w, vma ≤ 65536 * w → 65536 * w + 65536 ≤ vma + length →
    wadCreated m (65536 * w) = true → created m (65536 * w) = true

theorem Round.wholeWads_iff {words : Nat} (hr : Round f s s' words)
    (hend : s.vma + s.length ≤ 2 ^ 32) :
    WholeWads s.memory s.vma s.length ↔ WholeWads s'.memory s'.vma s'.length := by
  have hlen := hr.length
  have hvma := hr.vma
  have hle := hr.words_le
  have hpos := hr.words_pos
  have hsame : ∀ w, s.vma + words ≤ 65536 * w → 65536 * w < 2 ^ 32 →
      wadCreated s'.memory (65536 * w) = wadCreated s.memory (65536 * w) ∧
        created s'.memory (65536 * w) = created s.memory (65536 * w) := by
    intro w hw hlt
    constructor
    · rw [Bool.eq_iff_iff, wadCreated_iff, wadCreated_iff]
      apply exists_congr
      intro p
      apply and_congr_right
      intro hp
      rw [hr.ahead p]
      unfold wadNumber at hp
      omega
    · rw [created, created, hr.ahead]
      unfold pageNumber
      omega
  constructor
  · intro h w hw hw' hwad
    obtain ⟨hwads, hfirst⟩ := hsame w (by omega) (by omega)
    rw [hwads] at hwad
    rw [hfirst]
    exact h w (by omega) (by omega) hwad
  · intro h w hw hw' hwad
    by_cases hbegun : 65536 * w < s.vma + words
    · exact hr.begun w hw hbegun hw' hwad
    · obtain ⟨hwads, hfirst⟩ := hsame w (by omega) (by omega)
      rw [← hwads] at hwad
      rw [← hfirst]
      exact h w (by omega) (by omega) hwad

/-- The file holds what is left of the extent. -/
def Load.InFile (f : WorldFile) (s : Load) : Prop :=
  s.dataoffset + 4 * s.length ≤ f.size ∧ s.tagoffset + s.length ≤ f.size

theorem Round.inFile {words : Nat} (hr : Round f s s' words) (hfile : s.InFile f) :
    s'.InFile f := by
  have := hr.words_le
  unfold Load.InFile at *
  rw [hr.dataoffset, hr.tagoffset, hr.length]
  omega

/-- Every round gets on. -/
theorem Load.round_isSome (hend : s.vma + s.length ≤ 2 ^ 32)
    (hfile : s.InFile f) (hwhole : WholeWads s.memory s.vma s.length) :
    ∃ s', s.round f = some s' := by
  have hholds : ∀ words, words ≤ s.length →
      f.holds s.dataoffset (4 * words) = true ∧ f.holds s.tagoffset words = true := by
    intro words hwords
    unfold Load.InFile at hfile
    simp only [WorldFile.holds, decide_eq_true_eq]
    omega
  unfold Load.round
  split
  · unfold Load.readPage
    dsimp only
    obtain ⟨hdata, htag⟩ := hholds (min (8192 - pageOffset s.vma) s.length) (by omega)
    rw [hdata, htag]
    exact ⟨_, rfl⟩
  · next htest =>
    rw [not_or, not_or, not_not, not_lt] at htest
    obtain ⟨hoff, hfirst, hlong⟩ := htest
    unfold wadOffset at hoff
    -- the first wad has no page at all
    have hnone : ¬ wadCreated s.memory ((s.vma + 0) % 2 ^ 32) = true := by
      rw [Nat.add_zero, Nat.mod_eq_of_lt (by omega)]
      have hw : s.vma = 65536 * (s.vma / 65536) := by omega
      intro hwad
      apply hfirst
      rw [hw] at hwad ⊢
      exact hwhole _ (by omega) (by omega) hwad
    obtain ⟨wads, hwads⟩ : ∃ wads, (s.length - wadOffset s.length) / 65536 = wads + 1 := by
      refine ⟨(s.length - wadOffset s.length) / 65536 - 1, ?_⟩
      unfold wadOffset
      omega
    unfold Load.mapWads
    dsimp only
    rw [hwads]
    unfold markWads
    dsimp only
    rw [if_neg hnone]
    generalize hattr : defaultAttributes s.memory.enableIDS false true = attr
    have hwords := markWads_words s.vma attr wads
      (setWadAttributes s.memory ((s.vma + 0) % 2 ^ 32) attr) (0 + 65536)
    unfold wadOffset at hwads
    obtain ⟨hdata, htag⟩ := hholds (markWads attr s.vma wads
      (setWadAttributes s.memory ((s.vma + 0) % 2 ^ 32) attr) (0 + 65536)).2 (by omega)
    rw [hdata, htag, decide_eq_true (by omega)]
    exact ⟨_, rfl⟩

/-- The extent is in memory and nothing else was lost. -/
structure Loaded (f : WorldFile) (m m' : Memory) (vma length dataoffset tagoffset : Nat) :
    Prop where
  words : ∀ i, i < length →
    m'.dataSpace (vma + i) = f.dataWord (dataoffset + 4 * i) ∧
      m'.tagSpace (vma + i) = f.bytes (tagoffset + i)
  kept : ∀ a, created m a = true → a < vma ∨ vma + length ≤ a →
    m'.dataSpace a = m.dataSpace a ∧ m'.tagSpace a = m.tagSpace a
  creates : ∀ i, i < length → created m' (vma + i) = true

/-- One round, and the rest of the extent. -/
theorem Round.loaded_trans {words : Nat} {m' : Memory} (hr : Round f s s' words)
    (hend : s.vma + s.length ≤ 2 ^ 32)
    (h : Loaded f s'.memory m' s'.vma s'.length s'.dataoffset s'.tagoffset)
    (hkeeps : ∀ a, created s'.memory a = true → created m' a = true) :
    Loaded f s.memory m' s.vma s.length s.dataoffset s.tagoffset := by
  have hlen := hr.length
  have hvma := hr.vma
  have hle := hr.words_le
  have hpos := hr.words_pos
  constructor
  · intro i hi
    by_cases hnow : i < words
    · -- read in this round, and kept by the rest
      obtain ⟨hdata, htag⟩ := h.kept (s.vma + i) (hr.creates i hnow) (by omega)
      rw [hdata, htag]
      exact hr.loaded i hnow
    · have hlater := h.words (i - words) (by omega)
      rw [hr.vma, Nat.mod_eq_of_lt (by omega), hr.dataoffset, hr.tagoffset] at hlater
      rw [show s.vma + i = s.vma + words + (i - words) by omega,
        show s.dataoffset + 4 * i = s.dataoffset + 4 * words + 4 * (i - words) by omega,
        show s.tagoffset + i = s.tagoffset + words + (i - words) by omega]
      exact hlater
  · intro a ha hout
    obtain ⟨hdata, htag⟩ := h.kept a (hr.keeps a ha) (by omega)
    obtain ⟨hdata', htag'⟩ := hr.kept a ha (by omega)
    exact ⟨hdata.trans hdata', htag.trans htag'⟩
  · intro i hi
    by_cases hnow : i < words
    · exact hkeeps _ (hr.creates i hnow)
    · have hlater := h.creates (i - words) (by omega)
      rw [hr.vma, Nat.mod_eq_of_lt (by omega)] at hlater
      rw [show s.vma + i = s.vma + words + (i - words) by omega]
      exact hlater

theorem Load.loop_loaded {s'' : Load} (hv : s.vma < 2 ^ 32) (hend : s.vma + s.length ≤ 2 ^ 32)
    (h : Load.loop f s = some s'') :
    s''.vma = (s.vma + s.length) % 2 ^ 32 ∧
      Loaded f s.memory s''.memory s.vma s.length s.dataoffset s.tagoffset ∧
      ∀ a, created s.memory a = true → created s''.memory a = true := by
  induction hn : s.length using Nat.strong_induction_on generalizing s with
  | _ n ih =>
    subst hn
    unfold Load.loop at h
    split at h
    · next hlen =>
      cases h
      rw [hlen]
      refine ⟨(Nat.mod_eq_of_lt hv).symm, ⟨?_, fun _ _ _ => ⟨rfl, rfl⟩, ?_⟩, fun _ ha => ha⟩
      · intro i hi
        omega
      · intro i hi
        omega
    · next hlen =>
      split at h
      · cases h
      · next s' hround =>
        obtain ⟨words, hr⟩ := Load.round_spec hend hlen hround
        have hlen' := hr.length
        have hvma := hr.vma
        have hle := hr.words_le
        have hpos := hr.words_pos
        obtain ⟨hdone, hloaded, hkeeps⟩ := ih s'.length (by omega) (by omega) (by omega) h rfl
        refine ⟨?_, hr.loaded_trans hend hloaded hkeeps, fun a ha => hkeeps a (hr.keeps a ha)⟩
        rw [hdone, hvma, hlen', Nat.mod_add_mod]
        congr 1
        omega

theorem Load.loop_isSome_iff (hend : s.vma + s.length ≤ 2 ^ 32) (hfile : s.InFile f) :
    (∃ s', Load.loop f s = some s') ↔ WholeWads s.memory s.vma s.length := by
  induction hn : s.length using Nat.strong_induction_on generalizing s with
  | _ n ih =>
    subst hn
    unfold Load.loop
    by_cases hlen : s.length = 0
    · rw [dif_pos hlen]
      apply iff_of_true ⟨s, rfl⟩
      intro w hw hw'
      omega
    · rw [dif_neg hlen]
      cases hround : s.round f with
      | none =>
          apply iff_of_false
          · intro h
            obtain ⟨_, h⟩ := h
            cases h
          · intro hwhole
            obtain ⟨s', hs'⟩ := Load.round_isSome hend hfile hwhole
            rw [hs'] at hround
            cases hround
      | some s' =>
          obtain ⟨words, hr⟩ := Load.round_spec hend hlen hround
          have hlen' := hr.length
          have hvma := hr.vma
          have hle := hr.words_le
          have hpos := hr.words_pos
          rw [hr.wholeWads_iff hend]
          exact ih s'.length (by omega) (by omega) (hr.inFile hfile) rfl

/-- The extent is loaded, and the address after it returned, unless a whole wad of it
lacks its first page and has another. -/
theorem mapWorldLoad_iff (m : Memory) (f : WorldFile) {vma length dataoffset tagoffset : Nat}
    (hv : vma < 2 ^ 32) (hend : vma + length ≤ 2 ^ 32) (hdata : dataoffset + 4 * length ≤ f.size)
    (htag : tagoffset + length ≤ f.size) :
    (∃ m', mapWorldLoad m vma length f dataoffset tagoffset =
        some (m', (vma + length) % 2 ^ 32) ∧
      Loaded f m m' vma length dataoffset tagoffset) ↔ WholeWads m vma length := by
  have hiff := Load.loop_isSome_iff (f := f) (s := ⟨m, vma, length, dataoffset, tagoffset⟩) hend
    ⟨hdata, htag⟩
  rw [← hiff]
  unfold mapWorldLoad
  rw [Int.toNat_natCast]
  constructor
  · intro h
    obtain ⟨m', h, -⟩ := h
    obtain ⟨s', hs', -⟩ := Option.map_eq_some_iff.mp h
    exact ⟨s', hs'⟩
  · intro h
    obtain ⟨s', hs'⟩ := h
    obtain ⟨hvma, hloaded, -⟩ := Load.loop_loaded hv hend hs'
    refine ⟨s'.memory, ?_, hloaded⟩
    rw [hs', Option.map_some, hvma]

/-- Page 9, the second of wad 1, exists; so does page 8 if the wad is begun. -/
def sharedWad (begun : Bool) : Memory :=
  { Memory.empty false with
    attributeTable := fun p => if p = 9 ∨ (begun = true ∧ p = 8) then 0x70 else 0 }

def zeroFile (size : Nat) : WorldFile := ⟨fun _ => 0, size⟩

theorem mapWorldLoad_sample :
    ∃ m', mapWorldLoad (sharedWad true) 65536 (65546 : Nat) (zeroFile 400000) 0 300000 =
        some (m', (65536 + 65546) % 2 ^ 32) ∧
      Loaded (zeroFile 400000) (sharedWad true) m' 65536 65546 0 300000 := by
  apply (mapWorldLoad_iff (sharedWad true) (zeroFile 400000) (by decide) (by decide) (by decide)
    (by decide)).mpr
  intro w hw hw' _
  obtain rfl : w = 1 := by omega
  decide

/-- Page 8 does not exist, so wad 1 is to be mapped; page 9 does, so none of it is. -/
theorem partial_wad_not_loaded :
    ¬ ∃ m', mapWorldLoad (sharedWad false) 65536 (65536 : Nat) (zeroFile 400000) 0 300000 =
        some (m', (65536 + 65536) % 2 ^ 32) ∧
      Loaded (zeroFile 400000) (sharedWad false) m' 65536 65536 0 300000 := by
  intro h
  obtain ⟨m', h, -⟩ := h
  unfold mapWorldLoad at h
  obtain ⟨s', hs', -⟩ := Option.map_eq_some_iff.mp h
  have hwhole := (Load.loop_isSome_iff (by decide) ⟨by decide, by decide⟩).mp ⟨s', hs'⟩
  have hfirst := hwhole 1 (by decide) (by decide) (by decide)
  exact absurd hfirst (by decide)

end VM
