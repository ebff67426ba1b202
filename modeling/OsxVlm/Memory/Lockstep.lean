import Mathlib
import OsxVlm.Library.Execution
import OsxVlm.Memory.Attributes
import OsxVlm.Memory.VirtualMemory
import OsxVlm.Memory.Scan

/-!
# The attribute table and the host protection

A wad is mapped when one of its pages exists, and the host protects an existing
page as its attribute byte says.  Nearly all operations change attributes through
`AdjustProtection`; the others, and the walks over the table, keep this only as
long as they stay inside the address space.
-/

namespace VM

/-- The lockstep, inside the `2^19` pages of the address space. -/
structure Lockstep (m : Memory) : Prop where
  mapped_iff : ∀ w, w < 2 ^ 16 →
    (m.mapped w = true ↔ ∃ p, p / 8 = w ∧ vmExists (m.attributeTable p) = true)
  protection : ∀ p, p < 2 ^ 19 → vmExists (m.attributeTable p) = true →
    m.protection p = computeProtection (m.attributeTable p)
  absent : ∀ p, p < 2 ^ 19 → vmExists (m.attributeTable p) = false → m.attributeTable p = 0

variable {m m' : Memory} {vma : Nat}

theorem page_lt (hv : vma < 2 ^ 32) : pageNumber vma < 2 ^ 19 := by
  unfold pageNumber
  omega

/-- The lockstep is about the table, the maps and the protections. -/
theorem Lockstep.congr (h : Lockstep m) (ha : m'.attributeTable = m.attributeTable)
    (hm : m'.mapped = m.mapped) (hp : m'.protection = m.protection) : Lockstep m' := by
  constructor
  · rw [ha, hm]
    exact h.mapped_iff
  · rw [ha, hp]
    exact h.protection
  · rw [ha]
    exact h.absent

theorem Lockstep.writeWords (h : Lockstep m) (vma count : Nat) (data : Nat → Integer)
    (tag : Nat → Tag) : Lockstep (m.writeWords vma count data tag) := h.congr rfl rfl rfl

/-- A protection that is put back to what the attributes say. -/
theorem Lockstep.restore (h : Lockstep m) {page : Nat} (ha : m'.attributeTable = m.attributeTable)
    (hm : m'.mapped = m.mapped) (hother : ∀ p, p ≠ page → m'.protection p = m.protection p)
    (hpage : m'.protection page = computeProtection (m.attributeTable page)) : Lockstep m' := by
  constructor
  · rw [ha, hm]
    exact h.mapped_iff
  · intro p hp hex
    rw [ha] at hex ⊢
    by_cases heq : p = page
    · rw [heq]
      exact hpage
    · rw [hother p heq]
      exact h.protection p hp hex
  · rw [ha]
    exact h.absent

/-- A page of a mapped wad is given attributes, or one that exists others. -/
theorem Lockstep.adjust (h : Lockstep m) {a : VMAttribute} (ha : vmExists a = true)
    (hwad : wadCreated m vma = true) : Lockstep (adjustProtection m vma a) := by
  constructor
  · intro w hw
    rw [adjustProtection_mapped, h.mapped_iff w hw]
    constructor
    · rintro ⟨p, hpw, hex⟩
      refine ⟨p, hpw, ?_⟩
      rw [adjustProtection_attributeTable]
      split
      · exact ha
      · exact hex
    · rintro ⟨p, hpw, hex⟩
      rw [adjustProtection_attributeTable] at hex
      split at hex
      · next heq =>
        obtain ⟨q, hq, hqex⟩ := wadCreated_iff.mp hwad
        exact ⟨q, by rw [hq, ← hpw, heq, pageNumber_div], hqex⟩
      · exact ⟨p, hpw, hex⟩
  · intro p hp hex
    by_cases heq : p = pageNumber vma
    · subst heq
      rw [adjustProtection_attributeTable, if_pos rfl]
      exact adjustProtection_protection m vma a ha (h.protection _ hp)
    · rw [adjustProtection_attributeTable, if_neg heq] at hex ⊢
      rw [adjustProtection_protection_ne m vma a heq]
      exact h.protection p hp hex
  · intro p hp hex
    rw [adjustProtection_attributeTable] at hex ⊢
    split
    · next heq =>
      rw [if_pos heq, ha] at hex
      cases hex
    · next heq =>
      rw [if_neg heq] at hex
      exact h.absent p hp hex

/-- A page that exists is given other attributes. -/
theorem Lockstep.adjust_existing (h : Lockstep m) {a : VMAttribute} (ha : vmExists a = true)
    (hex : created m vma = true) : Lockstep (adjustProtection m vma a) :=
  h.adjust ha (wadCreated_of_created hex)

/-- The same where nothing is done for attributes that stay. -/
theorem Lockstep.adjust_changed (h : Lockstep m) {a : VMAttribute} (ha : vmExists a = true)
    (hex : created m vma = true) :
    Lockstep (if a ≠ m.attributeTable (pageNumber vma) then adjustProtection m vma a else m) := by
  split
  · exact h.adjust_existing ha hex
  · exact h

/-! ### Creation and destruction -/

theorem Lockstep.setCreated (h : Lockstep m) (hwad : wadCreated m vma = true)
    (faultp worldp : Bool) : Lockstep (setCreated m vma faultp worldp) :=
  h.adjust (vmExists_default _ faultp worldp) hwad

/-- A wad without pages is mapped at the protection of its first page. -/
theorem Lockstep.mapWad (h : Lockstep m) (hno : wadCreated m vma = false)
    {attr : VMAttribute} (ha : vmExists attr = true) :
    Lockstep ((m.mapWad (wadNumber vma) (computeProtection attr)).setAttribute
      (pageNumber vma) attr) := by
  have hnone : ∀ p, p / 8 = wadNumber vma → vmExists (m.attributeTable p) = false := by
    intro p hp
    by_contra hex
    have := wadCreated_iff.mpr ⟨p, hp, by simpa using hex⟩
    rw [hno] at this
    cases this
  constructor
  · intro w hw
    simp only [Memory.setAttribute, Memory.mapWad]
    split
    · next heq =>
      subst heq
      simp only [true_iff]
      exact ⟨pageNumber vma, pageNumber_div vma, by rw [if_pos rfl]; exact ha⟩
    · next hne =>
      rw [h.mapped_iff w hw]
      constructor
      · rintro ⟨p, hpw, hex⟩
        refine ⟨p, hpw, ?_⟩
        rw [if_neg]
        · exact hex
        · rintro rfl
          exact hne (hpw.symm.trans (pageNumber_div vma))
      · rintro ⟨p, hpw, hex⟩
        split at hex
        · next heq =>
          subst heq
          exact absurd (hpw.symm.trans (pageNumber_div vma)) hne
        · exact ⟨p, hpw, hex⟩
  · intro p hp hex
    simp only [Memory.setAttribute, Memory.mapWad] at hex ⊢
    by_cases heq : p = pageNumber vma
    · subst heq
      rw [if_pos rfl, if_pos (pageNumber_div vma)]
    · rw [if_neg heq] at hex ⊢
      rw [if_neg]
      · exact h.protection p hp hex
      · intro hwad
        rw [hnone p hwad] at hex
        cases hex
  · intro p hp hex
    simp only [Memory.setAttribute, Memory.mapWad] at hex ⊢
    split
    · next heq =>
      rw [if_pos heq, ha] at hex
      cases hex
    · next heq =>
      rw [if_neg heq] at hex
      exact h.absent p hp hex

theorem Lockstep.ensureVirtualAddress (h : Lockstep m) (vma : Nat) (faultp : Bool) :
    Lockstep (ensureVirtualAddress m vma faultp).1 := by
  unfold VM.ensureVirtualAddress
  dsimp only
  split
  · next hex =>
    split
    · exact h
    · exact h.adjust_existing (by rw [vmExists_or, hex, Bool.true_or]) hex
  · split
    · next hwad => exact h.setCreated hwad faultp false
    · next hwad =>
      exact h.mapWad (Bool.eq_false_iff.mpr hwad) (vmExists_default m.enableIDS faultp false)

/-- The last page of a wad takes the wad with it. -/
theorem Lockstep.destroyVirtualAddress (h : Lockstep m) (hv : vma < 2 ^ 32) :
    Lockstep (destroyVirtualAddress m vma).1 := by
  have hzero : vmExists (0 : VMAttribute) = false := by decide
  -- the page is gone, the maps are as they were
  have hgone : ∃ m₁ : Memory, m₁ = (if created m vma = true then clearCreated m vma else m) ∧
      (∀ p, m₁.attributeTable p = if p = pageNumber vma then 0 else m.attributeTable p) ∧
      m₁.mapped = m.mapped ∧
      ∀ p, p ≠ pageNumber vma → m₁.protection p = m.protection p := by
    refine ⟨_, rfl, ?_⟩
    split
    · next hex =>
      exact ⟨adjustProtection_attributeTable m vma 0, adjustProtection_mapped m vma 0,
        fun p hp => adjustProtection_protection_ne m vma 0 hp⟩
    · next hex =>
      refine ⟨?_, rfl, fun p hp => rfl⟩
      intro p
      split
      · next heq =>
        rw [heq]
        exact h.absent _ (page_lt hv) (Bool.eq_false_iff.mpr hex)
      · rfl
  obtain ⟨m₁, hm₁, hattr, hmapped, hprot⟩ := hgone
  have hexists : ∀ p, vmExists (m₁.attributeTable p) = true →
      p ≠ pageNumber vma ∧ vmExists (m.attributeTable p) = true := by
    intro p hex
    rw [hattr] at hex
    split at hex
    · rw [hzero] at hex
      cases hex
    · next hne => exact ⟨hne, hex⟩
  have habsent : ∀ p, p < 2 ^ 19 → vmExists (m₁.attributeTable p) = false →
      m₁.attributeTable p = 0 := by
    intro p hp hex
    rw [hattr] at hex ⊢
    split
    · rfl
    · next hne =>
      rw [if_neg hne] at hex
      exact h.absent p hp hex
  unfold VM.destroyVirtualAddress
  dsimp only
  rw [← hm₁]
  have hsame : ∀ w, w ≠ wadNumber vma → w < 2 ^ 16 →
      (m.mapped w = true ↔ ∃ p, p / 8 = w ∧ vmExists (m₁.attributeTable p) = true) := by
    intro w hne hw
    rw [h.mapped_iff w hw]
    constructor
    · rintro ⟨p, hpw, hex⟩
      refine ⟨p, hpw, ?_⟩
      rw [hattr, if_neg]
      · exact hex
      · rintro rfl
        exact hne (hpw.symm.trans (pageNumber_div vma))
    · rintro ⟨p, hpw, hex⟩
      exact ⟨p, hpw, (hexists p hex).2⟩
  split
  · next hwad =>
    obtain ⟨q, hq, hqex⟩ := wadCreated_iff.mp hwad
    constructor
    · intro w hw
      rw [hmapped]
      by_cases hne : w = wadNumber vma
      · subst hne
        rw [h.mapped_iff _ hw]
        exact ⟨fun _ => ⟨q, hq, hqex⟩, fun _ => ⟨q, hq, (hexists q hqex).2⟩⟩
      · exact hsame w hne hw
    · intro p hp hex
      obtain ⟨hne, hold⟩ := hexists p hex
      rw [hprot p hne, hattr, if_neg hne]
      exact h.protection p hp hold
    · exact habsent
  · next hwad =>
    have hnone : ∀ p, vmExists (m₁.attributeTable p) = true → p / 8 ≠ wadNumber vma :=
      fun p hex hpw => hwad (wadCreated_iff.mpr ⟨p, hpw, hex⟩)
    constructor
    · intro w hw
      simp only [Memory.unmapWad]
      split
      · next heq =>
        subst heq
        simp only [Bool.false_eq_true, false_iff]
        rintro ⟨p, hpw, hex⟩
        exact hnone p hex hpw
      · next hne =>
        rw [hmapped]
        exact hsame w hne hw
    · intro p hp hex
      obtain ⟨hne, hold⟩ := hexists p hex
      simp only [Memory.unmapWad]
      rw [if_neg (hnone p hex), hprot p hne, hattr, if_neg hne]
      exact h.protection p hp hold
    · exact habsent

theorem Lockstep.ensurePages (h : Lockstep m) (vma : Nat) (faultp : Bool)
    (pages result : Nat) : Lockstep (ensurePages faultp pages m vma result).1 := by
  induction pages generalizing m vma result with
  | zero => exact h
  | succ pages ih =>
      exact ih (h.ensureVirtualAddress vma faultp) _ _

theorem Lockstep.destroyPages (h : Lockstep m) (hv : vma < 2 ^ 32) (pages result : Nat) :
    Lockstep (destroyPages pages m vma result).1 := by
  induction pages generalizing m vma result with
  | zero => exact h
  | succ pages ih =>
      unfold VM.destroyPages
      dsimp only
      apply ih _ (Nat.mod_lt _ (by decide))
      split
      · exact h.destroyVirtualAddress hv
      · exact h

/-! ### Words and accessible pages -/

theorem Lockstep.readUncached (h : Lockstep m) (vma : Nat) :
    Lockstep (virtualMemoryReadUncached m vma).1 := by
  unfold virtualMemoryReadUncached
  dsimp only
  split
  · apply Lockstep.restore h
    · rfl
    · rfl
    · intro p hp
      simp only [Memory.mprotect]
      rw [if_neg hp, if_neg hp]
    · exact if_pos rfl
  · exact h

theorem Lockstep.writeUncached (h : Lockstep m) (vma : Nat) (object : LispObj) :
    Lockstep (virtualMemoryWriteUncached m vma object) := by
  unfold virtualMemoryWriteUncached
  dsimp only
  split
  · apply Lockstep.restore h
    · rfl
    · rfl
    · intro p hp
      simp only [Memory.mprotect, Memory.writeWords]
      rw [if_neg hp, if_neg hp]
    · exact if_pos rfl
  · exact h.writeWords _ _ _ _

theorem Lockstep.makeAccessible (h : Lockstep m) (vma : Nat) : Lockstep (makeAccessible m vma) := by
  unfold VM.makeAccessible
  dsimp only
  split
  · exact h
  · next hcond =>
    have hex : vmExists (m.attributeTable (pageNumber vma)) = true := by
      simp at hcond
      exact hcond.1
    have hset : ∀ a, vmExists a = true → vmExists (setVMTransportDisable a) = true := by
      intro a ha
      rw [setVMTransportDisable, vmExists_or, ha, Bool.true_or]
    have hor : vmExists (m.attributeTable (pageNumber vma) |||
        (VMAttribute.ephemeral ||| VMAttribute.modified)) = true := by
      rw [vmExists_or, hex, Bool.true_or]
    split
    · exact h.adjust_changed (hset _ hor) hex
    · exact h.adjust_changed hor hex

theorem Lockstep.makePagesAccessible (h : Lockstep m) (vma pages : Nat) :
    Lockstep (makePagesAccessible pages m vma) := by
  induction pages generalizing m vma with
  | zero => exact h
  | succ pages ih => exact ih (h.makeAccessible vma) _

end VM
