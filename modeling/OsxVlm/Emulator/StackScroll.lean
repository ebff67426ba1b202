import Mathlib
import OsxVlm.Emulator.Traps

/-!
# Scrolling the stack cache

The stack cache holds the four pages of the stack from `StackCacheBase` on, and memory is
read through it.  Scrolling up writes its first page out and moves the others down; scrolling
down moves them up and reads the page below in.  Both loops go from the last page to the
first, which is the right order only for moving up.  Memory is total: no page faults.
-/

namespace Ivory

/-- `VirtualMemoryReadBlock`, into the places of `object` from 0 on. -/
def virtualMemoryReadBlock (memory : Integer → LispObj) (vma : Integer) (object : Int → LispObj)
    (count : Nat) : Int → LispObj := fun i =>
  if 0 ≤ i ∧ i + vma.toNat < (vma + BitVec.ofNat 32 count).toNat then
    memory (vma + BitVec.ofInt 32 i)
  else object i

/-- A page of the stack cache is copied from the one below it. -/
def copyPageUp (stack : Int → LispObj) (page : Int) : Int → LispObj := fun i =>
  if 256 * page ≤ i ∧ i < 256 * page + 256 then stack (i - 256) else stack i

namespace Processor

/-- `ReadVirtualMemory`. -/
def readVirtualMemory (s : Processor) (vma : Integer) : LispObj :=
  let stackCacheIndex := vma - s.stackCacheBase
  if stackCacheIndex.toNat < 4 * 256 then s.stack stackCacheIndex.toNat
  else s.memory vma

/-- `StackCacheScrollDown`; the pages are copied to the last one first. -/
def stackCacheScrollDown (s : Processor) : Processor :=
  let stack := copyPageUp (copyPageUp (copyPageUp s.stack 3) 2) 1
  { s with
    stack := virtualMemoryReadBlock s.memory (s.stackCacheBase - 256) stack 256
    fp := s.fp + 256
    sp := s.sp + 256
    lp := s.lp + 256
    stackCacheBase := s.stackCacheBase - 256 }

/-- The virtual address of a place in the stack cache. -/
def stackAddress (s : Processor) (place : Int) : Integer := s.stackCacheBase + BitVec.ofInt 32 place

/-- The stack pointers stand at the same virtual addresses. -/
def SamePointers (s s' : Processor) : Prop :=
  s'.stackAddress s'.fp = s.stackAddress s.fp ∧ s'.stackAddress s'.sp = s.stackAddress s.sp ∧
    s'.stackAddress s'.lp = s.stackAddress s.lp

/-- Nothing is seen of a scroll: `count` addresses from `first` on hold what they held. -/
def Invisible (s s' : Processor) (first : Integer) (count : Nat) : Prop :=
  (∀ k < count, s'.readVirtualMemory (first + BitVec.ofNat 32 k) =
    s.readVirtualMemory (first + BitVec.ofNat 32 k)) ∧ SamePointers s s'

section Read

variable (s : Processor)

theorem readVirtualMemory_inside {k : Nat} (hk : k < 1024) :
    s.readVirtualMemory (s.stackCacheBase + BitVec.ofNat 32 k) = s.stack k := by
  have hindex : (s.stackCacheBase + BitVec.ofNat 32 k - s.stackCacheBase).toNat = k := by
    bv_omega
  rw [readVirtualMemory]
  simp only [hindex]
  exact if_pos hk

theorem readVirtualMemory_outside {vma : Integer} (h : 1024 ≤ (vma - s.stackCacheBase).toNat) :
    s.readVirtualMemory vma = s.memory vma := if_neg (by omega)

end Read

/-! ### Scrolling up -/

section Up

variable (s : Processor)

theorem samePointers_scrollUp : SamePointers s s.stackCacheScrollUp := by
  have h : ∀ place : Int, s.stackCacheBase + 256 + BitVec.ofInt 32 (place - 256) =
      s.stackCacheBase + BitVec.ofInt 32 place := by
    intro place
    rw [Int.sub_eq_add_neg, BitVec.ofInt_add, BitVec.ofInt_neg,
      show BitVec.ofInt 32 256 = (256 : Integer) from rfl]
    grind
  exact ⟨h _, h _, h _⟩

/-- The page below the new window is read from memory. -/
theorem read_scrollUp_below {k : Nat} (hk : k < 256) :
    s.stackCacheScrollUp.readVirtualMemory (s.stackCacheBase + BitVec.ofNat 32 k) =
      if s.stackCacheBase.toNat + 256 < 2 ^ 32 then s.stack k
      else s.memory (s.stackCacheBase + BitVec.ofNat 32 k) := by
  rw [readVirtualMemory_outside _ (by
    show 1024 ≤ (s.stackCacheBase + BitVec.ofNat 32 k - (s.stackCacheBase + 256)).toNat
    bv_omega)]
  show virtualMemoryWriteBlock s.memory s.stackCacheBase s.stack 256 _ = _
  unfold virtualMemoryWriteBlock
  by_cases hend : s.stackCacheBase.toNat + 256 < 2 ^ 32
  · have hindex : (s.stackCacheBase + BitVec.ofNat 32 k - s.stackCacheBase).toNat = k := by
      bv_omega
    rw [if_pos (by bv_omega), if_pos hend, hindex]
  · rw [if_neg (by bv_omega), if_neg hend]

/-- The rest of the old window is read from the cache. -/
theorem read_scrollUp_inside {page i : Nat} (hpage : 1 ≤ page) (hpage' : page < 4) (hi : i < 256) :
    s.stackCacheScrollUp.readVirtualMemory
        (s.stackCacheBase + BitVec.ofNat 32 (256 * page + i)) =
      s.stack (768 + i) := by
  have haddr : s.stackCacheBase + BitVec.ofNat 32 (256 * page + i) =
      s.stackCacheScrollUp.stackCacheBase + BitVec.ofNat 32 (256 * (page - 1) + i) := by
    show _ = s.stackCacheBase + 256 + _
    bv_omega
  rw [haddr, readVirtualMemory_inside _ (by omega)]
  have hcast : ((256 * (page - 1) + i : Nat) : Int) = 256 * ((page - 1 : Nat) : Int) + (i : Int) := by
    omega
  rw [hcast]
  exact stackCacheScrollUp_stack s (by omega) (by omega) (by omega) (by omega)

/-- The first page reaches memory, or is there. -/
def FirstPageSaved : Prop :=
  s.stackCacheBase.toNat + 256 < 2 ^ 32 ∨
    ∀ k < 256, s.memory (s.stackCacheBase + BitVec.ofNat 32 k) = s.stack k

/-- The second and the third page are copies of the fourth. -/
def LastPagesEqual : Prop :=
  ∀ i < 256, s.stack (256 + i : Nat) = s.stack (768 + i : Nat) ∧
    s.stack (512 + i : Nat) = s.stack (768 + i : Nat)

theorem invisible_scrollUp_iff :
    Invisible s s.stackCacheScrollUp s.stackCacheBase 1024 ↔
      s.FirstPageSaved ∧ s.LastPagesEqual := by
  constructor
  · intro h
    constructor
    · by_cases hend : s.stackCacheBase.toNat + 256 < 2 ^ 32
      · exact .inl hend
      · refine .inr fun k hk => ?_
        have hread := h.1 k (by omega)
        rwa [read_scrollUp_below s hk, if_neg hend, readVirtualMemory_inside s (by omega)] at hread
    · intro i hi
      have hone := h.1 (256 * 1 + i) (by omega)
      have htwo := h.1 (256 * 2 + i) (by omega)
      rw [read_scrollUp_inside s (by omega) (by omega) hi,
        readVirtualMemory_inside s (by omega)] at hone htwo
      exact ⟨hone.symm, htwo.symm⟩
  · intro h
    refine ⟨fun k hk => ?_, samePointers_scrollUp s⟩
    rw [readVirtualMemory_inside s hk]
    by_cases hfirst : k < 256
    · rw [read_scrollUp_below s hfirst]
      split
      · rfl
      · next hend => exact (h.1.resolve_left hend) k hfirst
    · obtain ⟨page, i, hpage, hi, rfl⟩ : ∃ page i, page < 4 ∧ i < 256 ∧ k = 256 * page + i :=
        ⟨k / 256, k % 256, by omega, by omega, by omega⟩
      rw [read_scrollUp_inside s (by omega) hpage hi]
      have hcases : page = 1 ∨ page = 2 ∨ page = 3 := by omega
      obtain rfl | rfl | rfl := hcases
      · exact (h.2 i hi).1.symm
      · exact (h.2 i hi).2.symm
      · rfl

end Up

/-! ### Scrolling down -/

section Down

variable (s : Processor)

theorem samePointers_scrollDown : SamePointers s s.stackCacheScrollDown := by
  have h : ∀ place : Int, s.stackCacheBase - 256 + BitVec.ofInt 32 (place + 256) =
      s.stackCacheBase + BitVec.ofInt 32 place := by
    intro place
    rw [BitVec.ofInt_add, show BitVec.ofInt 32 256 = (256 : Integer) from rfl]
    grind
  exact ⟨h _, h _, h _⟩

/-- Every page but the first comes from the one below. -/
theorem copyPagesUp {i : Int} (h0 : 256 ≤ i) (h : i < 1024) :
    copyPageUp (copyPageUp (copyPageUp s.stack 3) 2) 1 i = s.stack (i - 256) := by
  unfold copyPageUp
  by_cases h₁ : i < 512
  · rw [if_pos (by omega), if_neg (by omega), if_neg (by omega)]
  · rw [if_neg (by omega)]
    by_cases h₂ : i < 768
    · rw [if_pos (by omega), if_neg (by omega)]
    · rw [if_neg (by omega), if_pos (by omega)]

theorem read_scrollDown_above {k : Nat} (hk : 256 ≤ k) (hk' : k < 1024) :
    s.stackCacheScrollDown.readVirtualMemory (s.stackCacheBase - 256 + BitVec.ofNat 32 k) =
      s.stack (k - 256 : Nat) := by
  refine (readVirtualMemory_inside s.stackCacheScrollDown hk').trans ?_
  show virtualMemoryReadBlock s.memory (s.stackCacheBase - 256) _ 256 k = _
  unfold virtualMemoryReadBlock
  rw [if_neg (by bv_omega), copyPagesUp s (by omega) (by omega)]
  congr 1
  omega

/-- The page that comes in. -/
theorem read_scrollDown_below {k : Nat} (hk : k < 256) :
    s.stackCacheScrollDown.readVirtualMemory (s.stackCacheBase - 256 + BitVec.ofNat 32 k) =
      if 256 ≤ s.stackCacheBase.toNat then s.memory (s.stackCacheBase - 256 + BitVec.ofNat 32 k)
      else s.stack k := by
  refine (readVirtualMemory_inside s.stackCacheScrollDown (by omega)).trans ?_
  show virtualMemoryReadBlock s.memory (s.stackCacheBase - 256) _ 256 k = _
  unfold virtualMemoryReadBlock
  have hend : s.stackCacheBase - 256 + BitVec.ofNat 32 256 = s.stackCacheBase := by grind
  rw [hend]
  by_cases hbase : 256 ≤ s.stackCacheBase.toNat
  · rw [if_pos (by bv_omega), if_pos hbase, BitVec.ofInt_natCast]
  · rw [if_neg (by bv_omega), if_neg hbase]
    unfold copyPageUp
    rw [if_neg (by omega), if_neg (by omega), if_neg (by omega)]

/-- The page below the window is read in, or was in the cache already. -/
def PageBelowRead : Prop :=
  256 ≤ s.stackCacheBase.toNat ∨
    ∀ k < 256, s.memory (s.stackCacheBase - 256 + BitVec.ofNat 32 k) = s.stack k

theorem readVirtualMemory_below {k : Nat} (hk : k < 256) :
    s.readVirtualMemory (s.stackCacheBase - 256 + BitVec.ofNat 32 k) =
      s.memory (s.stackCacheBase - 256 + BitVec.ofNat 32 k) :=
  readVirtualMemory_outside s (by bv_omega)

theorem readVirtualMemory_above {k : Nat} (hk : 256 ≤ k) (hk' : k < 1024) :
    s.readVirtualMemory (s.stackCacheBase - 256 + BitVec.ofNat 32 k) = s.stack (k - 256 : Nat) := by
  have haddr : s.stackCacheBase - 256 + BitVec.ofNat 32 k =
      s.stackCacheBase + BitVec.ofNat 32 (k - 256) := by
    bv_omega
  rw [haddr, readVirtualMemory_inside s (by omega)]

theorem invisible_scrollDown_iff :
    Invisible s s.stackCacheScrollDown (s.stackCacheBase - 256) 1024 ↔ s.PageBelowRead := by
  constructor
  · intro h
    by_cases hbase : 256 ≤ s.stackCacheBase.toNat
    · exact .inl hbase
    · refine .inr fun k hk => ?_
      have hread := h.1 k (by omega)
      rw [read_scrollDown_below s hk, if_neg hbase, readVirtualMemory_below s hk] at hread
      exact hread.symm
  · intro h
    refine ⟨fun k hk => ?_, samePointers_scrollDown s⟩
    by_cases hfirst : k < 256
    · rw [read_scrollDown_below s hfirst, readVirtualMemory_below s hfirst]
      split
      · rfl
      · next hbase => exact ((h.resolve_left hbase) k hfirst).symm
    · rw [read_scrollDown_above s (by omega) hk, readVirtualMemory_above s (by omega) hk]

end Down

/-- **When scrolling is invisible.**  Scrolling down is, away from the bottom of the address
space.  Scrolling up leaves copies of the last page in the whole cache. -/
theorem scroll_invisible_iff (s : Processor) :
    (Invisible s s.stackCacheScrollUp s.stackCacheBase 1024 ∧
        Invisible s s.stackCacheScrollDown (s.stackCacheBase - 256) 1024) ↔
      (s.FirstPageSaved ∧ s.LastPagesEqual) ∧ s.PageBelowRead := by
  rw [invisible_scrollUp_iff, invisible_scrollDown_iff]

/-- A word whose data tells where in the cache it stands. -/
def countedWord (i : Int) : LispObj := ⟨typeFixnum, BitVec.ofInt 32 i⟩

/-- A cache of distinct words over an empty memory. -/
def counted : Processor where
  stack := countedWord
  sp := 900
  fp := 800
  lp := 810
  pc := objectNIL
  continuation := objectNIL
  control := 0
  stackCacheLimit := 896
  restartsp := 900
  stackCacheBase := 0xF8000200
  memory := fun _ => objectNIL

/-- The second page of the window reads as the last one afterwards. -/
theorem not_invisible_counted :
    ¬ (Invisible counted counted.stackCacheScrollUp counted.stackCacheBase 1024 ∧
      Invisible counted counted.stackCacheScrollDown (counted.stackCacheBase - 256) 1024) := by
  intro h
  exact absurd (h.1.1 256 (by decide)) (by decide)

end Processor

end Ivory
