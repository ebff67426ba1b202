import Mathlib
import OsxVlm.Memory.Attributes
import OsxVlm.Memory.VirtualMemory
import OsxVlm.Memory.Scan

/-!
# The command that creates pages

`VMOpcodeCreate` is `EnsureVirtualAddressRange`, but for a range within one page
of a wad with pages: there it sets the attributes of a fresh page at once, and
does not look whether the page has some already.
-/

namespace VM

/-- The attributes of a page that is ensured. -/
def ensuredAttribute (enableIDS faultp : Bool) (a : VMAttribute) : VMAttribute :=
  if vmExists a then a ||| .modified else defaultAttributes enableIDS faultp false

variable {m : Memory} {vma : Nat} {faultp : Bool}

@[simp] theorem adjustProtection_enableIDS (m : Memory) (vma : Nat) (a : VMAttribute) :
    (adjustProtection m vma a).enableIDS = m.enableIDS := by
  obtain ⟨h, -⟩ | h := adjustProtection_cases m vma a <;> rw [h] <;> rfl

theorem or_modified {a : VMAttribute} (h : vmModified a = true) : a ||| .modified = a := by
  revert h
  revert a
  decide

theorem vmModified_default (enableIDS faultp : Bool) :
    vmModified (defaultAttributes enableIDS faultp false) = true := by
  revert enableIDS faultp
  decide

theorem ensureVirtualAddress_snd (m : Memory) (vma : Nat) (faultp : Bool) :
    (ensureVirtualAddress m vma faultp).2 = 8192 := by
  unfold ensureVirtualAddress
  dsimp only
  split
  · rfl
  · split <;> rfl

theorem ensureVirtualAddress_attributeTable (m : Memory) (vma : Nat) (faultp : Bool) (p : Nat) :
    (ensureVirtualAddress m vma faultp).1.attributeTable p =
      if p = pageNumber vma then ensuredAttribute m.enableIDS faultp (m.attributeTable p)
      else m.attributeTable p := by
  unfold ensureVirtualAddress ensuredAttribute
  by_cases hex : vmExists (m.attributeTable (pageNumber vma)) = true
  · simp only [if_pos hex]
    by_cases hmod : vmModified (m.attributeTable (pageNumber vma)) = true
    · simp only [if_pos hmod]
      split
      · next heq => rw [heq, if_pos hex, or_modified hmod]
      · rfl
    · simp only [if_neg hmod, adjustProtection_attributeTable]
      split
      · next heq => rw [heq, if_pos hex]
      · rfl
  · simp only [if_neg hex]
    split
    · simp only [setCreated, adjustProtection_attributeTable]
      split
      · next heq => rw [heq, if_neg hex]
      · rfl
    · show (if p = pageNumber vma then _ else _) = _
      split
      · next heq => rw [heq, if_neg hex]
      · rfl

@[simp] theorem ensureVirtualAddress_enableIDS (m : Memory) (vma : Nat) (faultp : Bool) :
    (ensureVirtualAddress m vma faultp).1.enableIDS = m.enableIDS := by
  unfold ensureVirtualAddress
  dsimp only
  split
  · split
    · rfl
    · exact adjustProtection_enableIDS m vma _
  · split
    · exact adjustProtection_enableIDS m vma _
    · rfl

/-- The page `i` pages behind that of `vma`, around the end of the address space. -/
def pageBehind (vma i : Nat) : Nat := (pageNumber vma + i) % 2 ^ 19

theorem pageBehind_succ (vma i : Nat) :
    pageBehind ((vma + 8192) % 2 ^ 32) i = pageBehind vma (i + 1) := by
  unfold pageBehind pageNumber
  omega

theorem pageBehind_zero (hvma : vma < 2 ^ 32) : pageBehind vma 0 = pageNumber vma := by
  unfold pageBehind pageNumber
  omega

theorem ensurePages_attributeTable (pages : Nat) (hpages : pages ≤ 2 ^ 19) (hvma : vma < 2 ^ 32)
    (m : Memory) (result p : Nat) :
    (ensurePages faultp pages m vma result).1.attributeTable p =
      if ∃ i < pages, p = pageBehind vma i then
        ensuredAttribute m.enableIDS faultp (m.attributeTable p)
      else m.attributeTable p := by
  induction pages generalizing m vma result with
  | zero => simp [ensurePages]
  | succ pages ih =>
      have hfirst : pageBehind vma 0 = pageNumber vma := pageBehind_zero hvma
      unfold ensurePages
      dsimp only
      rw [ih (by omega) (Nat.mod_lt _ (by decide)), ensureVirtualAddress_enableIDS,
        ensureVirtualAddress_attributeTable]
      have hshift : (∃ i < pages, p = pageBehind ((vma + 8192) % 2 ^ 32) i) ↔
          ∃ i < pages, p = pageBehind vma (i + 1) := by
        simp only [pageBehind_succ]
      by_cases hp : p = pageNumber vma
      · -- the first page is not met again
        have hnot : ¬ ∃ i < pages, p = pageBehind ((vma + 8192) % 2 ^ 32) i := by
          rw [hshift]
          rintro ⟨i, hi, heq⟩
          rw [hp] at heq
          unfold pageBehind pageNumber at heq
          omega
        have hin : ∃ i < pages + 1, p = pageBehind vma i := ⟨0, by omega, by rw [hfirst, hp]⟩
        rw [if_neg hnot, if_pos hin, if_pos hp]
      · rw [if_neg hp]
        have hiff : (∃ i < pages, p = pageBehind ((vma + 8192) % 2 ^ 32) i) ↔
            ∃ i < pages + 1, p = pageBehind vma i := by
          rw [hshift]
          constructor
          · rintro ⟨i, hi, heq⟩
            exact ⟨i + 1, by omega, heq⟩
          · rintro ⟨i, hi, heq⟩
            cases i with
            | zero => exact absurd (heq.trans hfirst) hp
            | succ i => exact ⟨i, by omega, heq⟩
        by_cases hin : ∃ i < pages + 1, p = pageBehind vma i
        · rw [if_pos (hiff.mpr hin), if_pos hin]
        · rw [if_neg (fun h => hin (hiff.mp h)), if_neg hin]

theorem rangePages_le (vma : Nat) (count : Int) : rangePages vma count ≤ 2 ^ 19 := by
  unfold rangePages
  omega

/-- Every page of the range is ensured, and no other. -/
theorem ensureVirtualAddressRange_attributeTable (m : Memory) (hvma : vma < 2 ^ 32) (count : Int)
    (faultp : Bool) (p : Nat) :
    (ensureVirtualAddressRange m vma count faultp).1.attributeTable p =
      if ∃ i < rangePages vma count, p = pageBehind vma i then
        ensuredAttribute m.enableIDS faultp (m.attributeTable p)
      else m.attributeTable p :=
  ensurePages_attributeTable _ (rangePages_le vma count) hvma m 0 p

theorem ensureVirtualAddressRange_zero {count : Int} (h : rangePages vma count = 0) :
    ensureVirtualAddressRange m vma count faultp = (m, 0) := by
  unfold ensureVirtualAddressRange
  rw [h]
  rfl

theorem ensureVirtualAddressRange_one {count : Int} (h : rangePages vma count = 1) :
    ensureVirtualAddressRange m vma count faultp = ((ensureVirtualAddress m vma faultp).1, 8192) := by
  unfold ensureVirtualAddressRange
  rw [h]
  show ((ensureVirtualAddress m vma faultp).1,
    (0 + (ensureVirtualAddress m vma faultp).2) % 2 ^ 32) = _
  rw [ensureVirtualAddress_snd]
  rfl

/-! ### The command -/

/-- The test for a range within one page of a wad with pages; the sum has 32 bits. -/
def withinPage (m : Memory) (vma : Nat) (extent : Integer) : Bool :=
  wadCreated m vma && decide ((pageOffset vma + extent.toNat) % 2 ^ 32 ≤ 8192)

/-- The command leaves what `EnsureVirtualAddressRange` leaves. -/
def CreateEnsures (m : Memory) (proc : Processor) (vm : VMState) (operand : BitVec 19) : Prop :=
  let left := vmCommand m proc vm .create operand
  let ensured := ensureVirtualAddressRange m vm.addressRegister.toNat vm.extentRegister.toInt
    (operand != 0)
  left.1.attributeTable = ensured.1.attributeTable ∧ left.1.dataSpace = ensured.1.dataSpace ∧
    left.1.tagSpace = ensured.1.tagSpace ∧ left.1.mapped = ensured.1.mapped ∧
    left.2.1.extentRegister = ensured.2

theorem toInt_add_emod (offset : Nat) (extent : Integer) :
    ((offset : Int) + extent.toInt) % 2 ^ 32 = ((offset + extent.toNat) % 2 ^ 32 : Nat) := by
  rw [BitVec.toInt_eq_toNat_cond]
  split <;> omega

theorem withinPage_eq (m : Memory) (vma : Nat) (extent : Integer) :
    (wadCreated m vma && decide (((pageOffset vma : Int) + extent.toInt) % 2 ^ 32 ≤ 8192)) =
      withinPage m vma extent := by
  unfold withinPage
  rw [toInt_add_emod]
  congr 2
  exact propext Nat.cast_le_ofNat

theorem vmCommand_create_withinPage {proc : Processor} {vm : VMState} {operand : BitVec 19}
    (h : withinPage m vm.addressRegister.toNat vm.extentRegister = true) :
    vmCommand m proc vm .create operand =
      (setCreated m vm.addressRegister.toNat (operand != 0) false,
        { vm with extentRegister := 8192 }, true) := by
  have hcond := (withinPage_eq m vm.addressRegister.toNat vm.extentRegister).trans h
  exact if_pos hcond

theorem vmCommand_create_range {proc : Processor} {vm : VMState} {operand : BitVec 19}
    (h : withinPage m vm.addressRegister.toNat vm.extentRegister = false) :
    vmCommand m proc vm .create operand =
      ((ensureVirtualAddressRange m vm.addressRegister.toNat vm.extentRegister.toInt
          (operand != 0)).1,
        { vm with
          extentRegister := (ensureVirtualAddressRange m vm.addressRegister.toNat
            vm.extentRegister.toInt (operand != 0)).2 }, true) := by
  have hcond := (withinPage_eq m vm.addressRegister.toNat vm.extentRegister).trans h
  exact if_neg (by rw [hcond]; decide)

/-- A range within one page has that page, but for the sum that is zero. -/
theorem rangePages_withinPage {extent : Integer}
    (h : (pageOffset vma + extent.toNat) % 2 ^ 32 ≤ 8192) :
    rangePages vma extent.toInt =
      if (pageOffset vma + extent.toNat) % 2 ^ 32 = 0 then 0 else 1 := by
  have hsum := toInt_add_emod (pageOffset vma) extent
  unfold rangePages
  split <;> omega

/-- A page that is left with its attributes keeps its protection too. -/
theorem adjustProtection_self (m : Memory) (vma : Nat) :
    adjustProtection m vma (m.attributeTable (pageNumber vma)) = m := by
  have hsame : m.setAttribute (pageNumber vma) (m.attributeTable (pageNumber vma)) = m := by
    unfold Memory.setAttribute
    congr 1
    funext p
    split
    · next heq => rw [heq]
    · rfl
  unfold adjustProtection
  simp [hsame]

/-- A page whose attributes, once modified, are those of a fresh one, or that does not
exist, comes out the same either way. -/
theorem setCreated_eq_ensure (hwad : wadCreated m vma = true)
    (h : vmExists (m.attributeTable (pageNumber vma)) = false ∨
      m.attributeTable (pageNumber vma) ||| .modified = defaultAttributes m.enableIDS faultp false) :
    setCreated m vma faultp false = (ensureVirtualAddress m vma faultp).1 := by
  unfold ensureVirtualAddress
  dsimp only
  by_cases hex : vmExists (m.attributeTable (pageNumber vma)) = true
  · have hfresh : m.attributeTable (pageNumber vma) ||| .modified =
        defaultAttributes m.enableIDS faultp false := by
      rcases h with habsent | hfresh
      · rw [habsent] at hex
        cases hex
      · exact hfresh
    rw [if_pos hex, setCreated, ← hfresh]
    split
    · next hmod =>
        rw [or_modified hmod]
        exact adjustProtection_self m vma
    · rfl
  · rw [if_neg hex, if_pos hwad]

/-- The command and `EnsureVirtualAddressRange` leave the same just when the shorter way
is not taken, or is taken for one page whose attributes it does not change. -/
theorem vmCommand_create_ensures_iff (m : Memory) (proc : Processor) (vm : VMState)
    (operand : BitVec 19) :
    (CreateEnsures m proc vm operand ↔
      (withinPage m vm.addressRegister.toNat vm.extentRegister = true →
        (pageOffset vm.addressRegister.toNat + vm.extentRegister.toNat) % 2 ^ 32 ≠ 0 ∧
        (vmExists (m.attributeTable (pageNumber vm.addressRegister.toNat)) = false ∨
          m.attributeTable (pageNumber vm.addressRegister.toNat) ||| .modified =
            defaultAttributes m.enableIDS (operand != 0) false))) ∧
    ∀ p, (ensureVirtualAddressRange m vm.addressRegister.toNat vm.extentRegister.toInt
        (operand != 0)).1.attributeTable p =
      if ∃ i < rangePages vm.addressRegister.toNat vm.extentRegister.toInt,
          p = pageBehind vm.addressRegister.toNat i then
        ensuredAttribute m.enableIDS (operand != 0) (m.attributeTable p)
      else m.attributeTable p := by
  refine ⟨?_, ensureVirtualAddressRange_attributeTable m vm.addressRegister.isLt _ _⟩
  unfold CreateEnsures
  cases hwithin : withinPage m vm.addressRegister.toNat vm.extentRegister with
  | false =>
      rw [vmCommand_create_range hwithin]
      simp
  | true =>
      rw [vmCommand_create_withinPage hwithin]
      unfold withinPage at hwithin
      rw [Bool.and_eq_true, decide_eq_true_eq] at hwithin
      obtain ⟨hwad, hle⟩ := hwithin
      have hpages := rangePages_withinPage hle
      dsimp only
      constructor
      · rintro ⟨hattributes, -, -, -, hextent⟩ -
        have hne : (pageOffset vm.addressRegister.toNat + vm.extentRegister.toNat) % 2 ^ 32 ≠ 0 := by
          intro hzero
          rw [ensureVirtualAddressRange_zero (hpages.trans (if_pos hzero))] at hextent
          have hextent' : (8192 : Integer) = 0 := hextent
          exact absurd hextent' (by decide)
        refine ⟨hne, ?_⟩
        by_contra hlost
        push Not at hlost
        -- the attribute of the page tells the two ways apart
        have hpage := congrFun hattributes (pageNumber vm.addressRegister.toNat)
        rw [ensureVirtualAddressRange_one (hpages.trans (if_neg hne)),
          ensureVirtualAddress_attributeTable, if_pos rfl, setCreated,
          adjustProtection_attributeTable, if_pos rfl] at hpage
        unfold ensuredAttribute at hpage
        rw [if_pos (by simpa using hlost.1)] at hpage
        exact hlost.2 hpage.symm
      · intro hfine
        obtain ⟨hne, hsame⟩ := hfine rfl
        have hone : ensureVirtualAddressRange m vm.addressRegister.toNat vm.extentRegister.toInt
            (operand != 0) =
            (setCreated m vm.addressRegister.toNat (operand != 0) false, 8192) := by
          rw [ensureVirtualAddressRange_one (hpages.trans (if_neg hne)),
            setCreated_eq_ensure hwad hsame]
        rw [hone]
        exact ⟨rfl, rfl, rfl, rfl, rfl⟩

/-- A page with the transport fault, and a command for its first word. -/
def faultPage : Memory := (Memory.empty false).setAttribute 0 (.exists ||| .transportFault)

/-- The transport fault is lost. -/
theorem vmCommand_create_faultPage :
    ¬ CreateEnsures faultPage ⟨0, 0⟩ ⟨0, 1, 0⟩ 0 ∧
      (vmCommand faultPage ⟨0, 0⟩ ⟨0, 1, 0⟩ .create 0).1.attributeTable 0 =
        .exists ||| .ephemeral ||| .modified ∧
      (ensureVirtualAddressRange faultPage 0 1 false).1.attributeTable 0 =
        .exists ||| .transportFault ||| .modified := by
  have hleft : (vmCommand faultPage ⟨0, 0⟩ ⟨0, 1, 0⟩ .create 0).1.attributeTable 0 =
      .exists ||| .ephemeral ||| .modified := by decide
  have hensured : (ensureVirtualAddressRange faultPage 0 1 false).1.attributeTable 0 =
      .exists ||| .transportFault ||| .modified := by decide
  refine ⟨?_, hleft, hensured⟩
  rintro ⟨hattributes, -⟩
  have hpage := congrFun hattributes 0
  rw [hleft] at hpage
  exact absurd (hpage.trans hensured) (by decide)

end VM
