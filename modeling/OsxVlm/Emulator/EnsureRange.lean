import Mathlib
import OsxVlm.Memory.Attributes

/-!
# Creating pages

`EnsureVirtualAddress` creates the page of one address and `EnsureVirtualAddressRange` the
pages of a range: it goes over runs of pages that are missing, which one `mmap` of the data
and one of the tags create together, and over runs of pages that are there.  Addresses are
natural numbers below `2^32` and go around; `mmap` succeeds and gives zeros.
-/

namespace Ivory

open VM (VMAttribute pageNumber pageOffset vmExists)

/-- The tables of the created pages, what is mapped of them, and the words. -/
structure Pages where
  attributeTable : Nat → VMAttribute
  dataMapped : Nat → Bool
  tagMapped : Nat → Bool
  data : Nat → BitVec 32
  tag : Nat → BitVec 8

/-- `VMCreatedDefault`. -/
def vmCreatedDefault : VMAttribute :=
  VMAttribute.accessFault ||| VMAttribute.transportFault ||| VMAttribute.exists

namespace Pages

def created (m : Pages) (vma : Nat) : Bool := vmExists (m.attributeTable (pageNumber vma))

def setCreated (m : Pages) (vma : Nat) : Pages :=
  { m with attributeTable := Function.update m.attributeTable (pageNumber vma) vmCreatedDefault }

/-- The two `mmap`s of `n` pages from `aligned_vma` on. -/
def mmap (m : Pages) (alignedVma n : Nat) : Pages :=
  { m with
    dataMapped := fun q => pageNumber alignedVma ≤ q ∧ q < pageNumber alignedVma + n ∨ m.dataMapped q
    tagMapped := fun q => pageNumber alignedVma ≤ q ∧ q < pageNumber alignedVma + n ∨ m.tagMapped q
    data := fun vma => if alignedVma ≤ vma ∧ vma < alignedVma + n * 8192 then 0 else m.data vma
    tag := fun vma => if alignedVma ≤ vma ∧ vma < alignedVma + n * 8192 then 0 else m.tag vma }

def ensureVirtualAddress (m : Pages) (vma : Nat) : Pages :=
  if m.created vma then m
  else (m.mmap (vma - pageOffset vma) 1).setCreated vma

/-- The first inner loop: how many pages it found missing, and where it stands. -/
def createMissing : Nat → Pages → Nat → Nat × Pages × Nat
  | 0, m, vma => (0, m, vma)
  | pages + 1, m, vma =>
      if m.created vma then (0, m, vma)
      else
        let (n, m', vma') := createMissing pages (m.setCreated vma) ((vma + 8192) % 2 ^ 32)
        (n + 1, m', vma')

/-- The last inner loop: how many pages it found there. -/
def skipExisting (m : Pages) : Nat → Nat → Nat
  | 0, _ => 0
  | pages + 1, vma =>
      if m.created vma then skipExisting m pages ((vma + 8192) % 2 ^ 32) + 1 else 0

theorem createMissing_of_created {m : Pages} {vma : Nat} (h : m.created vma) (pages : Nat) :
    createMissing pages m vma = (0, m, vma) := by
  cases pages with
  | zero => rfl
  | succ pages => rw [createMissing, if_pos h]

/-- The variables of `EnsureVirtualAddressRange`. -/
structure EnsureState where
  pages : Nat
  memory : Pages
  vma : Nat
  alignedVma : Nat

/-- One turn of the outer loop. -/
def EnsureState.turn (s : EnsureState) : EnsureState :=
  let (n, m, vma) := createMissing s.pages s.memory s.vma
  let (m', alignedVma) :=
    if n = 0 then (m, s.alignedVma)
    else (m.mmap s.alignedVma n, (s.alignedVma + n * 8192) % 2 ^ 32)
  let skipped := skipExisting m' (s.pages - n) vma
  { pages := s.pages - n - skipped
    memory := m'
    vma := (vma + skipped * 8192) % 2 ^ 32
    alignedVma := (alignedVma + skipped * 8192) % 2 ^ 32 }

/-- One turn of the outer loop gets on. -/
theorem EnsureState.turn_pages_lt (s : EnsureState) (hpages : s.pages ≠ 0) :
    s.turn.pages < s.pages := by
  obtain ⟨pages, m, vma, alignedVma⟩ := s
  obtain ⟨k, rfl⟩ := Nat.exists_eq_add_one_of_ne_zero hpages
  by_cases h : m.created vma
  · simp only [turn, createMissing_of_created h, if_true, Nat.sub_zero, skipExisting, if_pos h]
    omega
  · simp only [turn, createMissing, h, Bool.false_eq_true, if_false]
    omega

/-- The outer loop. -/
def ensurePages (s : EnsureState) : EnsureState :=
  if hpages : s.pages = 0 then s
  else
    have := s.turn_pages_lt hpages
    ensurePages s.turn
termination_by s.pages

/-- `ceiling(count, MemoryPageSize)`. -/
def ceilingPages (count : Nat) : Nat := (count + 8191) / 8192

/-- `EnsureVirtualAddressRange`; `count` is an `int`, and there is no result where the
computation of `pages` overflows. -/
def ensureVirtualAddressRange (m : Pages) (vma count : Nat) : Option (Pages × Nat) :=
  if count + 8191 < 2 ^ 31 then
    let s := ensurePages ⟨ceilingPages count, m, vma, vma - pageOffset vma⟩
    some (s.memory, s.vma)
  else none

/-! ### What is created -/

/-- Page `q` is among the `n` pages from `p` on, and is missing. -/
def Missing (m : Pages) (p n q : Nat) : Prop :=
  p ≤ q ∧ q < p + n ∧ ¬ vmExists (m.attributeTable q) = true

instance (m : Pages) (p n q : Nat) : Decidable (m.Missing p n q) := by
  unfold Missing
  infer_instance

/-- The missing ones of `n` pages from `p` on are created, with zeros. -/
def ensured (m : Pages) (p n : Nat) : Pages where
  attributeTable q := if m.Missing p n q then vmCreatedDefault else m.attributeTable q
  dataMapped q := m.Missing p n q ∨ m.dataMapped q
  tagMapped q := m.Missing p n q ∨ m.tagMapped q
  data vma := if m.Missing p n (pageNumber vma) then 0 else m.data vma
  tag vma := if m.Missing p n (pageNumber vma) then 0 else m.tag vma

section Loops

variable {vma alignedVma p : Nat}

theorem ext_of {m m' : Pages} (hattr : ∀ q, m.attributeTable q = m'.attributeTable q)
    (hdataMapped : ∀ q, m.dataMapped q = m'.dataMapped q)
    (htagMapped : ∀ q, m.tagMapped q = m'.tagMapped q) (hdata : ∀ a, m.data a = m'.data a)
    (htag : ∀ a, m.tag a = m'.tag a) : m = m' := by
  obtain ⟨attr, dm, tm, d, t⟩ := m
  obtain ⟨attr', dm', tm', d', t'⟩ := m'
  obtain rfl : attr = attr' := funext hattr
  obtain rfl : dm = dm' := funext hdataMapped
  obtain rfl : tm = tm' := funext htagMapped
  obtain rfl : d = d' := funext hdata
  obtain rfl : t = t' := funext htag
  rfl

theorem missing_zero (m : Pages) (p q : Nat) : ¬ m.Missing p 0 q := by
  intro h
  have := h.1
  have := h.2.1
  omega

@[simp] theorem ensured_attributeTable (m : Pages) (p n q : Nat) :
    (m.ensured p n).attributeTable q =
      if m.Missing p n q then vmCreatedDefault else m.attributeTable q := rfl

@[simp] theorem ensured_dataMapped (m : Pages) (p n q : Nat) :
    (m.ensured p n).dataMapped q = decide (m.Missing p n q ∨ m.dataMapped q) := rfl

@[simp] theorem ensured_tagMapped (m : Pages) (p n q : Nat) :
    (m.ensured p n).tagMapped q = decide (m.Missing p n q ∨ m.tagMapped q) := rfl

@[simp] theorem ensured_data (m : Pages) (p n vma : Nat) :
    (m.ensured p n).data vma = if m.Missing p n (pageNumber vma) then 0 else m.data vma := rfl

@[simp] theorem ensured_tag (m : Pages) (p n vma : Nat) :
    (m.ensured p n).tag vma = if m.Missing p n (pageNumber vma) then 0 else m.tag vma := rfl

@[simp] theorem ensured_zero (m : Pages) (p : Nat) : m.ensured p 0 = m := by
  refine ext_of ?_ ?_ ?_ ?_ ?_ <;> intro x <;> simp [missing_zero]

theorem vmExists_created : vmExists vmCreatedDefault = true := by decide

/-- Creating some pages leaves the later ones as missing as they were. -/
theorem missing_ensured (m : Pages) (p j k q : Nat) :
    (m.ensured p j).Missing (p + j) k q ↔ m.Missing (p + j) k q := by
  refine and_congr_right fun hle => and_congr_right fun _ => ?_
  have hnot : ¬ m.Missing p j q := fun h => by
    have := h.2.1
    omega
  rw [ensured_attributeTable, if_neg hnot]

theorem missing_add (m : Pages) (p j k q : Nat) :
    m.Missing p (j + k) q ↔ m.Missing (p + j) k q ∨ m.Missing p j q := by
  unfold Missing
  by_cases h : vmExists (m.attributeTable q) = true
  · simp [h]
  · simp only [h, Bool.false_eq_true, not_false_eq_true, and_true]
    omega

theorem ensured_ensured (m : Pages) (p j k : Nat) :
    (m.ensured p j).ensured (p + j) k = m.ensured p (j + k) := by
  refine ext_of ?_ ?_ ?_ ?_ ?_ <;> intro x
  · simp only [ensured_attributeTable, missing_ensured, missing_add, ite_or]
  · simp [missing_ensured, missing_add, or_assoc]
  · simp [missing_ensured, missing_add, or_assoc]
  · simp only [ensured_data, missing_ensured, missing_add, ite_or]
  · simp only [ensured_tag, missing_ensured, missing_add, ite_or]

/-! ### The inner loops -/

/-- The table says that the `n` pages from `p` on are created. -/
def marked (m : Pages) (p n : Nat) : Pages :=
  { m with
    attributeTable := fun q => if p ≤ q ∧ q < p + n then vmCreatedDefault else m.attributeTable q }

@[simp] theorem marked_zero (m : Pages) (p : Nat) : m.marked p 0 = m := by
  refine ext_of (fun q => ?_) (fun _ => rfl) (fun _ => rfl) (fun _ => rfl) fun _ => rfl
  exact if_neg (by omega)

theorem marked_setCreated (m : Pages) (vma n : Nat) :
    (m.setCreated vma).marked (pageNumber vma + 1) n = m.marked (pageNumber vma) (n + 1) := by
  refine ext_of (fun q => ?_) (fun _ => rfl) (fun _ => rfl) (fun _ => rfl) fun _ => rfl
  simp only [marked, setCreated, Function.update_apply]
  by_cases hq : q = pageNumber vma
  · rw [if_neg (by omega), if_pos hq, if_pos (by omega)]
  · rw [if_neg hq]
    exact if_congr (by omega) rfl rfl

/-- Stepping to the next page, short of the end of the address space. -/
theorem pageNumber_next {pages : Nat} (hvma : pageNumber vma = p) (hend : p + (pages + 1) ≤ 2 ^ 19)
    (hpages : pages ≠ 0) : pageNumber ((vma + 8192) % 2 ^ 32) = p + 1 := by
  unfold pageNumber at *
  omega

theorem marked_stop (m : Pages) (p : Nat) (hlt : vma < 2 ^ 32) :
    (0, m, vma) = (0, m.marked p 0, (vma + 0 * 8192) % 2 ^ 32) := by
  rw [marked_zero, Nat.zero_mul, Nat.add_zero, Nat.mod_eq_of_lt hlt]

/-- The first inner loop marks a run of missing pages. -/
theorem createMissing_spec (pages : Nat) (m : Pages) (hvma : pages ≠ 0 → pageNumber vma = p)
    (hend : p + pages ≤ 2 ^ 19) (hlt : vma < 2 ^ 32) :
    ∃ n ≤ pages, createMissing pages m vma = (n, m.marked p n, (vma + n * 8192) % 2 ^ 32) ∧
      ∀ q, p ≤ q → q < p + n → ¬ vmExists (m.attributeTable q) = true := by
  induction pages generalizing m vma p with
  | zero => exact ⟨0, le_refl _, marked_stop m p hlt, fun q h₁ h₂ => by omega⟩
  | succ pages ih =>
      have hp : pageNumber vma = p := hvma (Nat.succ_ne_zero _)
      by_cases hc : m.created vma
      · rw [createMissing_of_created hc]
        exact ⟨0, Nat.zero_le _, marked_stop m p hlt, fun q h₁ h₂ => by omega⟩
      · have hlt' : (vma + 8192) % 2 ^ 32 < 2 ^ 32 := Nat.mod_lt _ (by decide)
        obtain ⟨n, hn, heq, hmissing⟩ :=
          ih (m.setCreated vma) (pageNumber_next hp hend) (by omega) hlt'
        refine ⟨n + 1, by omega, ?_, fun q h₁ h₂ => ?_⟩
        · rw [createMissing, if_neg hc, heq, ← hp, marked_setCreated]
          refine Prod.ext rfl (Prod.ext rfl ?_)
          show ((vma + 8192) % 2 ^ 32 + n * 8192) % 2 ^ 32 = (vma + (n + 1) * 8192) % 2 ^ 32
          omega
        · by_cases hq : q = pageNumber vma
          · rw [hq]
            exact hc
          · have := hmissing q (by omega) (by omega)
            simpa only [setCreated, Function.update_of_ne hq] using this

/-- The last inner loop passes pages that are there. -/
theorem skipExisting_spec (m : Pages) (pages : Nat) (hvma : pages ≠ 0 → pageNumber vma = p)
    (hend : p + pages ≤ 2 ^ 19) :
    skipExisting m pages vma ≤ pages ∧
    ∀ q, p ≤ q → q < p + skipExisting m pages vma → vmExists (m.attributeTable q) = true := by
  induction pages generalizing vma p with
  | zero => exact ⟨le_refl _, fun q h₁ h₂ => by simp only [skipExisting] at h₂; omega⟩
  | succ pages ih =>
      have hp : pageNumber vma = p := hvma (Nat.succ_ne_zero _)
      rw [skipExisting]
      by_cases hc : m.created vma
      · rw [if_pos hc]
        obtain ⟨hle, hthere⟩ := ih (pageNumber_next hp hend) (by omega)
        refine ⟨by omega, fun q h₁ h₂ => ?_⟩
        by_cases hq : q = pageNumber vma
        · rw [hq]
          exact hc
        · exact hthere q (by omega) (by omega)
      · rw [if_neg hc]
        exact ⟨by omega, fun q h₁ h₂ => by omega⟩

/-! ### The outer loop -/

variable (alignedVma) in
/-- The marked pages are mapped afterwards, and then the whole run is there. -/
theorem mmap_marked (m : Pages) {n : Nat} (halign : alignedVma = p * 8192)
    (hmissing : ∀ q, p ≤ q → q < p + n → ¬ vmExists (m.attributeTable q) = true) :
    (m.marked p n).mmap alignedVma n = m.ensured p n := by
  have hiff : ∀ q, m.Missing p n q ↔ p ≤ q ∧ q < p + n := fun q =>
    ⟨fun h => ⟨h.1, h.2.1⟩, fun h => ⟨h.1, h.2, hmissing q h.1 h.2⟩⟩
  have hpage : pageNumber alignedVma = p := by
    unfold pageNumber
    omega
  have haddr : ∀ a, (alignedVma ≤ a ∧ a < alignedVma + n * 8192) ↔
      p ≤ pageNumber a ∧ pageNumber a < p + n := fun a => by
    unfold pageNumber
    omega
  refine ext_of (fun q => ?_) (fun q => ?_) (fun q => ?_) (fun a => ?_) fun a => ?_
  · simp only [mmap, marked, ensured_attributeTable, hiff]
  · simp only [mmap, marked, ensured_dataMapped, hiff, hpage]
  · simp only [mmap, marked, ensured_tagMapped, hiff, hpage]
  · simp only [mmap, marked, ensured_data, hiff, haddr]
  · simp only [mmap, marked, ensured_tag, hiff, haddr]

/-- Pages that are there are passed over. -/
theorem ensured_of_existing (m : Pages) {k : Nat}
    (hthere : ∀ q, p ≤ q → q < p + k → vmExists (m.attributeTable q) = true) :
    m.ensured p k = m := by
  have hnot : ∀ q, ¬ m.Missing p k q := fun q h => h.2.2 (hthere q h.1 h.2.1)
  refine ext_of ?_ ?_ ?_ ?_ ?_ <;> intro x <;> simp [hnot]

theorem turn_spec {s : EnsureState} (hpages : s.pages ≠ 0) (hp : pageNumber s.vma = p)
    (hend : p + s.pages ≤ 2 ^ 19) (hlt : s.vma < 2 ^ 32) (halign : s.alignedVma = p * 8192) :
    ∃ j ≤ s.pages, s.turn = ⟨s.pages - j, s.memory.ensured p j, (s.vma + j * 8192) % 2 ^ 32,
      (p + j) * 8192 % 2 ^ 32⟩ := by
  obtain ⟨pages, m, vma, alignedVma⟩ := s
  simp only at hpages hp hend hlt halign
  obtain ⟨n, hn, heq, hmissing⟩ := createMissing_spec pages m (fun _ => hp) hend hlt
  -- the memory after the run, whether or not there was one
  have hrun : (if n = 0 then (m.marked p n, alignedVma)
      else ((m.marked p n).mmap alignedVma n, (alignedVma + n * 8192) % 2 ^ 32)) =
      (m.ensured p n, (p + n) * 8192 % 2 ^ 32) := by
    by_cases hzero : n = 0
    · subst hzero
      rw [if_pos rfl, marked_zero, ensured_zero, halign]
      refine Prod.ext rfl ?_
      simp only
      omega
    · rw [if_neg hzero, mmap_marked alignedVma m halign hmissing, halign, Nat.add_mul]
  have hnext : pages - n ≠ 0 → pageNumber ((vma + n * 8192) % 2 ^ 32) = p + n := fun h => by
    unfold pageNumber at *
    omega
  obtain ⟨hle, hthere⟩ := skipExisting_spec (m.ensured p n) (pages - n) hnext (by omega)
  refine ⟨n + skipExisting (m.ensured p n) (pages - n) ((vma + n * 8192) % 2 ^ 32),
    Nat.add_le_of_le_sub' hn hle, ?_⟩
  rw [← ensured_ensured, ensured_of_existing _ hthere]
  simp only [EnsureState.turn, heq, hrun]
  refine EnsureState.mk.injEq .. ▸ ⟨by omega, rfl, by omega, by omega⟩

/-- **The loops create the missing pages**, and nothing else. -/
theorem ensurePages_spec (s : EnsureState) (hp : s.pages ≠ 0 → pageNumber s.vma = p)
    (hend : p + s.pages ≤ 2 ^ 19) (hlt : s.vma < 2 ^ 32)
    (halign : s.pages ≠ 0 → s.alignedVma = p * 8192) :
    (ensurePages s).memory = s.memory.ensured p s.pages ∧
      (ensurePages s).vma = (s.vma + s.pages * 8192) % 2 ^ 32 := by
  induction hk : s.pages using Nat.strong_induction_on generalizing s p with
  | _ pages ih =>
      rw [ensurePages]
      by_cases hpages : s.pages = 0
      · rw [dif_pos hpages, ← hk, hpages, ensured_zero]
        exact ⟨rfl, by omega⟩
      · rw [dif_neg hpages]
        obtain ⟨j, hj, hturn⟩ := turn_spec hpages (hp hpages) hend hlt (halign hpages)
        have hfewer := s.turn_pages_lt hpages
        have hpages' : s.turn.pages = s.pages - j := by rw [hturn]
        have hvma' : s.turn.vma = (s.vma + j * 8192) % 2 ^ 32 := by rw [hturn]
        obtain ⟨hmem, hvma⟩ := ih s.turn.pages (hk ▸ hfewer) s.turn (p := p + j)
          (fun h => by
            have := hp hpages
            rw [hvma']
            unfold pageNumber at *
            omega)
          (by omega) (by rw [hvma']; exact Nat.mod_lt _ (by decide))
          (fun h => by
            rw [hturn]
            simp only
            omega)
          rfl
        rw [hmem, hvma, hvma', hpages', hturn, ensured_ensured, ← hk]
        exact ⟨by rw [Nat.add_sub_cancel' hj], by omega⟩

/-- The range of one address. -/
theorem ensureVirtualAddress_eq (m : Pages) (vma : Nat) :
    m.ensureVirtualAddress vma = m.ensured (pageNumber vma) 1 := by
  unfold ensureVirtualAddress
  by_cases hc : m.created vma
  · rw [if_pos hc, ensured_of_existing]
    intro q h₁ h₂
    obtain rfl : q = pageNumber vma := by omega
    exact hc
  · rw [if_neg hc, ← mmap_marked (vma - pageOffset vma) m]
    · refine ext_of (fun q => ?_) (fun _ => rfl) (fun _ => rfl) (fun _ => rfl) fun _ => rfl
      simp only [setCreated, mmap, marked, Function.update_apply]
      exact if_congr (by omega) rfl rfl
    · unfold pageOffset pageNumber
      omega
    · intro q h₁ h₂
      obtain rfl : q = pageNumber vma := by omega
      exact hc

theorem ensureVirtualAddressRange_eq (m : Pages) {count : Nat} (hcount : 1 ≤ count)
    (hend : vma + count ≤ 2 ^ 32) (hint : count + 8191 < 2 ^ 31) :
    ensureVirtualAddressRange m vma count =
      some (m.ensured (pageNumber vma) (ceilingPages count),
        (vma + ceilingPages count * 8192) % 2 ^ 32) := by
  have hspec := ensurePages_spec (p := pageNumber vma)
    ⟨ceilingPages count, m, vma, vma - pageOffset vma⟩ (fun _ => rfl)
    (by unfold pageNumber ceilingPages; simp only; omega) (by simp only; omega)
    (fun _ => by unfold pageNumber pageOffset; simp only; omega)
  simp only [ensureVirtualAddressRange, if_pos hint, hspec.1, hspec.2]

end Loops

/-! ### The range -/

/-- What is created is mapped. -/
def Consistent (m : Pages) : Prop :=
  ∀ q, vmExists (m.attributeTable q) = true → m.dataMapped q = true ∧ m.tagMapped q = true

theorem Consistent.ensured {m : Pages} (h : m.Consistent) (p n : Nat) :
    (m.ensured p n).Consistent := by
  intro q hq
  by_cases hmissing : m.Missing p n q
  · simp [hmissing]
  · rw [ensured_attributeTable, if_neg hmissing] at hq
    simp [h q hq]

/-- Page `q` is as it was: its attributes, its mappings and its words. -/
def SamePage (m m' : Pages) (q : Nat) : Prop :=
  m'.attributeTable q = m.attributeTable q ∧ m'.dataMapped q = m.dataMapped q ∧
    m'.tagMapped q = m.tagMapped q ∧
    ∀ vma, pageNumber vma = q → m'.data vma = m.data vma ∧ m'.tag vma = m.tag vma

theorem samePage_ensured {m : Pages} {p n q : Nat} (h : ¬ m.Missing p n q) :
    SamePage m (m.ensured p n) q := by
  refine ⟨by simp [h], by simp [h], by simp [h], fun vma hvma => ?_⟩
  subst hvma
  simp [h]

/-- What `m'` owes to a range of addresses after `m`. -/
structure Covers (m m' : Pages) (vma count : Nat) : Prop where
  covered : ∀ a, vma ≤ a → a < vma + count →
    m'.created a = true ∧ m'.dataMapped (pageNumber a) = true ∧ m'.tagMapped (pageNumber a) = true
  kept : ∀ q, vmExists (m.attributeTable q) = true → SamePage m m' q
  zeroed : ∀ q, ¬ vmExists (m.attributeTable q) = true → vmExists (m'.attributeTable q) = true →
    ∀ a, pageNumber a = q → m'.data a = 0 ∧ m'.tag a = 0
  outside : ∀ q, (∀ a, vma ≤ a → a < vma + count → pageNumber a ≠ q) → SamePage m m' q

/-- The pages that are counted reach as far as the range, or its last page is there. -/
def ReachesEnd (m : Pages) (vma count : Nat) : Prop :=
  pageOffset vma + count ≤ ceilingPages count * 8192 ∨ m.created (vma + count - 1) = true

theorem covers_iff {m : Pages} (hm : m.Consistent) {vma count : Nat} (hcount : 1 ≤ count) :
    Covers m (m.ensured (pageNumber vma) (ceilingPages count)) vma count ↔
      m.ReachesEnd vma count := by
  have hpages : (pageNumber vma + ceilingPages count) * 8192 < vma + count + 8192 := by
    unfold pageNumber ceilingPages
    omega
  constructor
  · intro h
    by_cases hmissing :
        m.Missing (pageNumber vma) (ceilingPages count) (pageNumber (vma + count - 1))
    · refine .inl ?_
      have := hmissing.2.1
      unfold pageNumber pageOffset at *
      omega
    · refine .inr ?_
      have hcreated := (h.covered (vma + count - 1) (by omega) (by omega)).1
      rwa [created, ensured_attributeTable, if_neg hmissing] at hcreated
  · intro hreach
    refine ⟨fun a h₁ h₂ => ?_, fun q hq => samePage_ensured fun h => h.2.2 hq,
      fun q hq hq' a ha => ?_, fun q hout => samePage_ensured fun h => ?_⟩
    · have hfirst : pageNumber vma ≤ pageNumber a := Nat.div_le_div_right h₁
      by_cases hc : vmExists (m.attributeTable (pageNumber a)) = true
      · have := hm _ hc
        have hnot : ¬ m.Missing (pageNumber vma) (ceilingPages count) (pageNumber a) :=
          fun h => h.2.2 hc
        simp [created, hnot, hc, this]
      · have hin : pageNumber a < pageNumber vma + ceilingPages count := by
          by_contra hout
          -- only the last page of the range is left out
          have hlast : pageNumber a = pageNumber (vma + count - 1) := by
            unfold pageNumber ceilingPages at *
            omega
          obtain hshort | hthere := hreach
          · unfold pageNumber pageOffset at *
            omega
          · rw [hlast] at hc
            exact hc hthere
        have hmissing : m.Missing (pageNumber vma) (ceilingPages count) (pageNumber a) :=
          ⟨hfirst, hin, hc⟩
        simp [created, hmissing, vmExists_created]
    · have hmissing : m.Missing (pageNumber vma) (ceilingPages count) q := by
        by_contra hnot
        rw [ensured_attributeTable, if_neg hnot] at hq'
        exact hq hq'
      subst ha
      simp [hmissing]
    · -- a page that is created holds an address of the range
      obtain ⟨h₁, h₂, -⟩ := h
      have hq : (q + 1) * 8192 ≤ (pageNumber vma + ceilingPages count) * 8192 :=
        Nat.mul_le_mul_right _ h₂
      refine hout (max vma (q * 8192)) (le_max_left _ _) (max_lt ?_ ?_) ?_
      · exact Nat.lt_add_of_pos_right hcount
      · rw [Nat.add_mul, Nat.one_mul] at hq
        exact Nat.lt_of_add_lt_add_right (hq.trans_lt hpages)
      · unfold pageNumber at *
        omega

/-- **When a range is covered.**  The number of pages is computed without the offset of the
first address in its page, so a range that needs one page more is covered only if that page
is there already. -/
theorem ensureVirtualAddressRange_covers_iff {m : Pages} (hm : m.Consistent) {vma count : Nat}
    (hcount : 1 ≤ count) (hend : vma + count ≤ 2 ^ 32) :
    (∃ m' vma', ensureVirtualAddressRange m vma count = some (m', vma') ∧ Covers m m' vma count) ↔
      count + 8191 < 2 ^ 31 ∧ m.ReachesEnd vma count := by
  constructor
  · intro h
    obtain ⟨m', vma', heq, hcovers⟩ := h
    have hint : count + 8191 < 2 ^ 31 := by
      by_contra hnot
      rw [ensureVirtualAddressRange, if_neg hnot] at heq
      cases heq
    rw [ensureVirtualAddressRange_eq m hcount hend hint] at heq
    obtain ⟨rfl, -⟩ := Prod.mk.inj (Option.some.inj heq)
    exact ⟨hint, (covers_iff hm hcount).mp hcovers⟩
  · intro h
    exact ⟨_, _, ensureVirtualAddressRange_eq m hcount hend h.1, (covers_iff hm hcount).mpr h.2⟩

/-- Nothing is created yet. -/
def empty : Pages := ⟨fun _ => 0, fun _ => false, fun _ => false, fun _ => 0, fun _ => 0⟩

theorem consistent_empty : empty.Consistent :=
  fun _ hq => absurd (show vmExists 0 = true from hq) (by decide)

theorem ensureVirtualAddressRange_covers_page :
    (∃ m' vma', ensureVirtualAddressRange empty 0xF8062000 0x9E000 = some (m', vma') ∧
        Covers empty m' 0xF8062000 0x9E000) ↔
      0x9E000 + 8191 < 2 ^ 31 ∧ empty.ReachesEnd 0xF8062000 0x9E000 :=
  ensureVirtualAddressRange_covers_iff consistent_empty (by decide) (by decide)

/-- Two words across the end of a page: the second page is not created. -/
theorem not_covers_across :
    ¬ ∃ m' vma', ensureVirtualAddressRange empty 0x1FFF 2 = some (m', vma') ∧
      Covers empty m' 0x1FFF 2 := by
  intro h
  obtain ⟨m', vma', heq, hcovers⟩ := h
  rw [ensureVirtualAddressRange_eq empty (by decide) (by decide) (by decide)] at heq
  obtain ⟨rfl, -⟩ := Prod.mk.inj (Option.some.inj heq)
  exact absurd (hcovers.covered 0x2000 (by decide) (by decide)).1 (by decide)

end Pages

end Ivory
