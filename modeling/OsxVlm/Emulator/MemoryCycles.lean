import Mathlib
import OsxVlm.Emulator.StackScroll
import OsxVlm.Library.LinkedChain

/-!
# Memory cycles

A read of memory goes by what the cycle does with the type that it finds: it returns,
it traps, or it follows a forwarding pointer and looks again.  The action of a cell
may ask for its pointer to be transported before anything else.  A read is run with fuel, one
for each cell that it visits; the table has no row for `CycleRawTranslate`.
-/

namespace Ivory

abbrev Byte := BitVec 8

inductive Cycle where
  | dataRead
  | dataWrite
  | bindRead
  | bindWrite
  | bindReadNoMonitor
  | bindWriteNoMonitor
  | header
  | structureOffset
  | scavenge
  | cdr
  | gcCopy
  | raw
  deriving DecidableEq, Repr

def memoryActionIndirect : Byte := 0o1
def memoryActionMonitor : Byte := 0o2
def memoryActionTransport : Byte := 0o4
def memoryActionTrap : Byte := 0o10
def memoryActionTransform : Byte := 0o20
def memoryActionBinding : Byte := 0o40

def memoryActionTable : Cycle → List Byte
  | .dataRead => [
      0o14, 6, 0o14, 0o10, 5, 5, 5, 5, 0, 0, 0, 4, 4, 4, 4, 4,
      4, 4, 4, 4, 4, 4, 4, 4, 4, 4, 4, 4, 4, 4, 4, 4,
      0, 0, 0o44, 0, 0o24, 0o10, 4, 4, 4, 4, 4, 4, 4, 4, 4, 4,
      0, 0, 0, 0, 0, 0, 0, 0, 0, 0, 0, 0, 0, 0, 0, 0]
  | .dataWrite => [
      0, 6, 0o10, 0o10, 5, 5, 5, 5, 0, 0, 0, 0, 0, 0, 0, 0,
      0, 0, 0, 0, 0, 0, 0, 0, 0, 0, 0, 0, 0, 0, 0, 0,
      0, 0, 0o44, 0, 0, 0o10, 0, 0, 0, 0, 0, 0, 0, 0, 0, 0,
      0, 0, 0, 0, 0, 0, 0, 0, 0, 0, 0, 0, 0, 0, 0, 0]
  | .bindRead => [
      4, 6, 0o14, 0o10, 4, 5, 5, 5, 0, 0, 0, 4, 4, 4, 4, 4,
      4, 4, 4, 4, 4, 4, 4, 4, 4, 4, 4, 4, 4, 4, 4, 4,
      0, 0, 4, 0, 4, 0o10, 4, 4, 4, 4, 4, 4, 4, 4, 4, 4,
      0, 0, 0, 0, 0, 0, 0, 0, 0, 0, 0, 0, 0, 0, 0, 0]
  | .bindWrite => [
      0, 6, 0o10, 0o10, 0, 5, 5, 5, 0, 0, 0, 0, 0, 0, 0, 0,
      0, 0, 0, 0, 0, 0, 0, 0, 0, 0, 0, 0, 0, 0, 0, 0,
      0, 0, 0, 0, 0, 0o10, 0, 0, 0, 0, 0, 0, 0, 0, 0, 0,
      0, 0, 0, 0, 0, 0, 0, 0, 0, 0, 0, 0, 0, 0, 0, 0]
  | .bindReadNoMonitor => [
      4, 5, 0o14, 0o10, 4, 5, 5, 5, 0, 0, 0, 4, 4, 4, 4, 4,
      4, 4, 4, 4, 4, 4, 4, 4, 4, 4, 4, 4, 4, 4, 4, 4,
      0, 0, 4, 0, 4, 0o10, 4, 4, 4, 4, 4, 4, 4, 4, 4, 4,
      0, 0, 0, 0, 0, 0, 0, 0, 0, 0, 0, 0, 0, 0, 0, 0]
  | .bindWriteNoMonitor => [
      0, 5, 0o10, 0o10, 0, 5, 5, 5, 0, 0, 0, 0, 0, 0, 0, 0,
      0, 0, 0, 0, 0, 0, 0, 0, 0, 0, 0, 0, 0, 0, 0, 0,
      0, 0, 0, 0, 0, 0o10, 0, 0, 0, 0, 0, 0, 0, 0, 0, 0,
      0, 0, 0, 0, 0, 0, 0, 0, 0, 0, 0, 0, 0, 0, 0, 0]
  | .header => [
      0o14, 0o14, 4, 0, 0o14, 0o14, 5, 0o14, 0o10, 0o10, 0o10, 0o14, 0o14, 0o14, 0o14, 0o14,
      0o14, 0o14, 0o14, 0o14, 0o14, 0o14, 0o14, 0o14, 0o14, 0o14, 0o14, 0o14, 0o14, 0o14, 0o14, 0o14,
      0o10, 0o10, 0o14, 0o10, 0o14, 0o10, 0o14, 0o14, 0o14, 0o14, 0o14, 0o14, 0o14, 0o14, 0o14, 0o14,
      0o10, 0o10, 0o10, 0o10, 0o10, 0o10, 0o10, 0o10, 0o10, 0o10, 0o10, 0o10, 0o10, 0o10, 0o10, 0o10]
  | .structureOffset => [
      0, 0, 0, 0, 0, 0, 5, 0, 0, 0, 0, 0, 0, 0, 0, 0,
      0, 0, 0, 0, 0, 0, 0, 0, 0, 0, 0, 0, 0, 0, 0, 0,
      0, 0, 0, 0, 0, 0o10, 0, 0, 0, 0, 0, 0, 0, 0, 0, 0,
      0, 0, 0, 0, 0, 0, 0, 0, 0, 0, 0, 0, 0, 0, 0, 0]
  | .scavenge => [
      4, 4, 4, 0, 4, 4, 4, 4, 0, 0, 0, 4, 4, 4, 4, 4,
      4, 4, 4, 4, 4, 4, 4, 4, 4, 4, 4, 4, 4, 4, 4, 4,
      0, 0, 4, 0, 4, 0o10, 4, 4, 4, 4, 4, 4, 4, 4, 4, 4,
      0, 0, 0, 0, 0, 0, 0, 0, 0, 0, 0, 0, 0, 0, 0, 0]
  | .cdr => [
      0, 0, 0o10, 0o10, 0, 0, 5, 5, 0, 0, 0, 0, 0, 0, 0, 0,
      0, 0, 0, 0, 0, 0, 0, 0, 0, 0, 0, 0, 0, 0, 0, 0,
      0, 0, 0, 0, 0, 0o10, 0, 0, 0, 0, 0, 0, 0, 0, 0, 0,
      0, 0, 0, 0, 0, 0, 0, 0, 0, 0, 0, 0, 0, 0, 0, 0]
  | .gcCopy => [
      0, 0, 0, 0, 0, 0, 0, 0, 0, 0, 0, 0, 0, 0, 0, 0,
      0, 0, 0, 0, 0, 0, 0, 0, 0, 0, 0, 0, 0, 0, 0, 0,
      0, 0, 0, 0, 0, 0o10, 0, 0, 0, 0, 0, 0, 0, 0, 0, 0,
      0, 0, 0, 0, 0, 0, 0, 0, 0, 0, 0, 0, 0, 0, 0, 0]
  | .raw => [
      0, 0, 0, 0, 0, 0, 0, 0, 0, 0, 0, 0, 0, 0, 0, 0,
      0, 0, 0, 0, 0, 0, 0, 0, 0, 0, 0, 0, 0, 0, 0, 0,
      0, 0, 0, 0, 0, 0, 0, 0, 0, 0, 0, 0, 0, 0, 0, 0,
      0, 0, 0, 0, 0, 0, 0, 0, 0, 0, 0, 0, 0, 0, 0, 0]

def typeExternalValueCellPointer : Tag := 0x04

/-- `MergeCdr`: the cdr code of the one and the type of the other. -/
def mergeCdr (cdr type : Tag) : Tag := (cdr &&& 0xC0) ||| (type &&& 0x3F)

/-- The processor, with the registers that say what is oldspace. -/
structure ProcessorState extends Processor where
  ephemeralOldspaceRegister : Integer
  zoneOldspaceRegister : Integer

/-- The traps that `TakeMemoryTrap` is asked for here. -/
inductive MemoryTrap where
  | error
  | transport
  | monitor
  deriving DecidableEq, Repr

/-- How a read ends: with an address and what it found there, or in a trap. -/
inductive MemoryOutcome where
  | value (vma : Integer) (object : LispObj)
  | trap (vector : MemoryTrap) (vma : Integer)
  | badMemoryAction
  deriving DecidableEq

namespace ProcessorState

/-- `OldspaceAddressP`; the demilevel includes the bit of the half, and a shift counts
modulo 32. -/
def oldspaceAddressP (s : ProcessorState) (vma : Integer) : Bool :=
  let zone := ldb 5 27 vma
  if zone = 0 then
    ldb 1 26 vma = ((s.ephemeralOldspaceRegister >>> (ldb 6 21 vma % 32)) &&& 1).toNat
  else s.zoneOldspaceRegister &&& (1 <<< zone) ≠ 0

/-- What `==` gives in C. -/
def cEq (a b : Byte) : Byte := if a = b then 1 else 0

def action (cycle : Cycle) (object : LispObj) : Byte :=
  (memoryActionTable cycle).getD (tagType object.tag).toNat 0

/-- `MemoryReadInternal`; in the test for a transport `==` binds tighter than `&`. -/
def memoryReadInternal (s : ProcessorState) (cycle : Cycle) :
    Nat → Integer → Option MemoryOutcome
  | 0, _ => none
  | fuel + 1, vma =>
      let object := s.readVirtualMemory vma
      let action := action cycle object
      if action &&& cEq (memoryActionTransport ||| memoryActionTrap) memoryActionTransport ≠ 0 ∧
          s.oldspaceAddressP object.data = true then
        some (.trap .transport vma)
      else
        match (action &&& ~~~memoryActionTransport).toNat with
        | 0 => some (.value vma object)
        | 0o10 => some (.trap .error vma)
        | 0o20 => some (.value vma ⟨mergeCdr object.tag typeExternalValueCellPointer, object.data⟩)
        | 0o2 => some (.trap .monitor vma)
        | 0o1 => memoryReadInternal s cycle fuel object.data
        | _ => some .badMemoryAction

/-- `WriteVirtualMemory`. -/
def writeVirtualMemory (s : ProcessorState) (vma : Integer) (object : LispObj) : ProcessorState :=
  let stackCacheIndex := vma - s.stackCacheBase
  { s with
    stack :=
      if stackCacheIndex.toNat < 4 * 256 then
        Function.update s.stack stackCacheIndex.toNat object
      else s.stack
    memory := Function.update s.memory vma object }

/-- How a store ends: in a new state, or in the trap of its read. -/
inductive StoreOutcome where
  | stored (s : ProcessorState)
  | failed (outcome : MemoryOutcome)

/-- `StoreContentsInternal`. -/
def storeContentsInternal (s : ProcessorState) (cycle : Cycle) (fuel : Nat) (vma : Integer)
    (object : LispObj) : Option StoreOutcome :=
  (s.memoryReadInternal cycle fuel vma).map fun
    | .value vma dest =>
        .stored (s.writeVirtualMemory vma ⟨mergeCdr dest.tag object.tag, object.data⟩)
    | outcome => .failed outcome

/-! ### What a cycle is to do -/

/-- The pointer that a cell forwards to. -/
def forward (cycle : Cycle) (object : LispObj) : Option Integer :=
  if action cycle object &&& ~~~memoryActionTransport = memoryActionIndirect then some object.data
  else none

/-- The action has Transport without Trap. -/
def Transportable (cycle : Cycle) (object : LispObj) : Prop :=
  action cycle object &&& (memoryActionTransport ||| memoryActionTrap) = memoryActionTransport

/-- A cell that is to be transported before it is used. -/
def TransportDue (s : ProcessorState) (cycle : Cycle) (vma : Integer) : Prop :=
  Transportable cycle (s.readVirtualMemory vma) ∧
    s.oldspaceAddressP (s.readVirtualMemory vma).data = true

instance (s : ProcessorState) (cycle : Cycle) (vma : Integer) :
    Decidable (s.TransportDue cycle vma) := by
  unfold TransportDue Transportable
  infer_instance

/-- The trap that the action itself asks for. -/
def ownTrap (cycle : Cycle) (object : LispObj) : Option MemoryTrap :=
  if action cycle object &&& memoryActionTrap ≠ 0 then some .error
  else if action cycle object &&& memoryActionMonitor ≠ 0 then some .monitor
  else none

/-- The trap that is to be taken at a cell. -/
def cellTrap (s : ProcessorState) (cycle : Cycle) (vma : Integer) : Option MemoryTrap :=
  if s.TransportDue cycle vma then some .transport else ownTrap cycle (s.readVirtualMemory vma)

/-- What is returned of the contents of a cell. -/
def finalObject (cycle : Cycle) (object : LispObj) : LispObj :=
  if action cycle object &&& memoryActionTransform ≠ 0 then
    ⟨mergeCdr object.tag typeExternalValueCellPointer, object.data⟩
  else object

/-- The first trap along the cells, or else the contents of the last. -/
def expected (s : ProcessorState) (cycle : Cycle) (cells : List Integer) : Option MemoryOutcome :=
  match cells.findSome? fun vma => (s.cellTrap cycle vma).map fun vector => .trap vector vma with
  | some outcome => some outcome
  | none => cells.getLast?.map fun vma =>
      .value vma (finalObject cycle (s.readVirtualMemory vma))

/-- The cells of a forwarding chain, in order; none of them is bound deeply. -/
structure Chain (s : ProcessorState) (cycle : Cycle) (cells : List Integer) : Prop where
  linked : LinkedChain.Linked (forward cycle) s.readVirtualMemory cells
  notBinding : ∀ vma ∈ cells,
    action cycle (s.readVirtualMemory vma) &&& memoryActionBinding = 0

/-- What the claim of memory cycles asks of a chain that starts at `vma`: the read takes the
first trap or returns the last cell, returns no pointer that is to be transported, and a store
changes that cell alone and keeps its cdr code. -/
structure TransportsFirst (s : ProcessorState) (cycle : Cycle) (vma : Integer)
    (cells : List Integer) : Prop where
  reads : ∃ fuel outcome, s.memoryReadInternal cycle fuel vma = some outcome ∧
    s.expected cycle (vma :: cells) = some outcome
  transported : ∀ fuel final object,
    s.memoryReadInternal cycle fuel vma = some (.value final object) → ¬ s.TransportDue cycle final
  stores : ∀ fuel object t, s.storeContentsInternal cycle fuel vma object = some (.stored t) →
    ∃ final, (vma :: cells).getLast? = some final ∧
      t.readVirtualMemory final =
        ⟨mergeCdr (s.readVirtualMemory final).tag object.tag, object.data⟩ ∧
      ∀ a, a ≠ final → t.readVirtualMemory a = s.readVirtualMemory a

/-! ### The actions of the table -/

section Actions

variable {s : ProcessorState} {cycle : Cycle} {object : LispObj} {vma : Integer} {fuel : Nat}

theorem tagType_lt (tag : Tag) : (tagType tag).toNat < 64 := by
  unfold tagType
  rw [BitVec.toNat_and]
  exact Nat.and_lt_two_pow (n := 6) _ (by decide)

theorem action_mem (cycle : Cycle) (object : LispObj) :
    action cycle object ∈ [(0 : Byte), 4, 5, 6, 8, 12, 20, 36] := by
  have htable : ∀ cycle : Cycle, ∀ t < 64,
      (memoryActionTable cycle).getD t 0 ∈ [(0 : Byte), 4, 5, 6, 8, 12, 20, 36] := by
    intro cycle
    cases cycle <;> decide +kernel
  exact htable cycle _ (tagType_lt object.tag)

/-- The test for a transport is never true. -/
theorem memoryReadInternal_succ (s : ProcessorState) (cycle : Cycle) (fuel : Nat)
    (vma : Integer) :
    s.memoryReadInternal cycle (fuel + 1) vma =
      match (action cycle (s.readVirtualMemory vma) &&& ~~~memoryActionTransport).toNat with
      | 0 => some (.value vma (s.readVirtualMemory vma))
      | 0o10 => some (.trap .error vma)
      | 0o20 => some (.value vma ⟨mergeCdr (s.readVirtualMemory vma).tag
          typeExternalValueCellPointer, (s.readVirtualMemory vma).data⟩)
      | 0o2 => some (.trap .monitor vma)
      | 0o1 => s.memoryReadInternal cycle fuel (s.readVirtualMemory vma).data
      | _ => some .badMemoryAction := by
  have hnever : ∀ a : Byte,
      a &&& cEq (memoryActionTransport ||| memoryActionTrap) memoryActionTransport = 0 := by
    intro a
    rw [show cEq (memoryActionTransport ||| memoryActionTrap) memoryActionTransport = 0 by decide]
    exact BitVec.and_zero
  rw [memoryReadInternal]
  simp only [hnever, ne_eq, not_true_eq_false, false_and, if_false]

/-- How the read ends at a cell without a forwarding pointer, as the code has it. -/
def plainOutcome (s : ProcessorState) (cycle : Cycle) (vma : Integer) : MemoryOutcome :=
  match ownTrap cycle (s.readVirtualMemory vma) with
  | some vector => .trap vector vma
  | none => .value vma (finalObject cycle (s.readVirtualMemory vma))

theorem memoryReadInternal_final (hlast : forward cycle (s.readVirtualMemory vma) = none)
    (hbind : action cycle (s.readVirtualMemory vma) &&& memoryActionBinding = 0) :
    s.memoryReadInternal cycle (fuel + 1) vma = some (s.plainOutcome cycle vma) := by
  have hmem := action_mem cycle (s.readVirtualMemory vma)
  rw [memoryReadInternal_succ]
  unfold plainOutcome ownTrap finalObject
  unfold forward at hlast
  generalize action cycle (s.readVirtualMemory vma) = a at hmem hlast hbind
  simp only [List.mem_cons, List.not_mem_nil, or_false] at hmem
  obtain rfl | rfl | rfl | rfl | rfl | rfl | rfl | rfl := hmem <;>
    first | rfl | exact absurd hbind (by decide) | (rw [if_pos (by decide)] at hlast; cases hlast)

variable (fuel) in
theorem memoryReadInternal_forward {vma' : Integer}
    (hnext : forward cycle (s.readVirtualMemory vma) = some vma') :
    s.memoryReadInternal cycle (fuel + 1) vma = s.memoryReadInternal cycle fuel vma' ∧
      ownTrap cycle (s.readVirtualMemory vma) = none := by
  have hind : action cycle (s.readVirtualMemory vma) &&& ~~~memoryActionTransport =
      memoryActionIndirect := by
    by_contra hnot
    rw [forward, if_neg hnot] at hnext
    cases hnext
  obtain rfl : (s.readVirtualMemory vma).data = vma' := by
    rw [forward, if_pos hind] at hnext
    exact Option.some.inj hnext
  constructor
  · rw [memoryReadInternal_succ, hind]
    rfl
  · have hmem := action_mem cycle (s.readVirtualMemory vma)
    unfold ownTrap
    generalize action cycle (s.readVirtualMemory vma) = a at hmem hind
    simp only [List.mem_cons, List.not_mem_nil, or_false] at hmem
    obtain rfl | rfl | rfl | rfl | rfl | rfl | rfl | rfl := hmem <;>
      first | rfl | exact absurd hind (by decide)

end Actions

/-! ### Along a chain -/

section Along

variable {s : ProcessorState} {cycle : Cycle} {vma : Integer} {cells : List Integer}

theorem Chain.tail {vma' : Integer} (h : s.Chain cycle (vma :: vma' :: cells)) :
    forward cycle (s.readVirtualMemory vma) = some vma' ∧ s.Chain cycle (vma' :: cells) :=
  ⟨h.linked.1, h.linked.2, fun c hc => h.notBinding c (List.mem_cons_of_mem _ hc)⟩

theorem Chain.last (h : s.Chain cycle [vma]) :
    forward cycle (s.readVirtualMemory vma) = none ∧
      action cycle (s.readVirtualMemory vma) &&& memoryActionBinding = 0 :=
  ⟨h.linked, h.notBinding vma List.mem_cons_self⟩

/-- The read comes to the last cell, when it has fuel for all of them. -/
theorem memoryReadInternal_chain (h : s.Chain cycle (vma :: cells)) (fuel : Nat) :
    s.memoryReadInternal cycle fuel vma =
      if cells.length < fuel then
        some (s.plainOutcome cycle ((vma :: cells).getLast (List.cons_ne_nil _ _)))
      else none := by
  induction cells generalizing vma fuel with
  | nil =>
      cases fuel with
      | zero => rfl
      | succ fuel => exact memoryReadInternal_final h.last.1 h.last.2
  | cons vma' cells ih =>
      cases fuel with
      | zero => rfl
      | succ fuel =>
          rw [(memoryReadInternal_forward fuel h.tail.1).1, ih h.tail.2 fuel]
          simp

/-- No cell of the chain waits to be transported. -/
def NoneDue (s : ProcessorState) (cycle : Cycle) (cells : List Integer) : Prop :=
  ∀ vma ∈ cells, ¬ s.TransportDue cycle vma

theorem cellTrap_of_not_due (h : ¬ s.TransportDue cycle vma) :
    s.cellTrap cycle vma = ownTrap cycle (s.readVirtualMemory vma) := if_neg h

/-- What is expected of a cell that forwards and of the rest of its chain. -/
theorem expected_cons {vma' : Integer} (h : s.cellTrap cycle vma = none) :
    s.expected cycle (vma :: vma' :: cells) = s.expected cycle (vma' :: cells) := by
  rw [expected, List.findSome?_cons, h, Option.map_none, List.getLast?_cons_cons, expected]

theorem expected_of_trap {vector : MemoryTrap} (h : s.cellTrap cycle vma = some vector) :
    s.expected cycle (vma :: cells) = some (.trap vector vma) := by
  rw [expected, List.findSome?_cons, h]
  rfl

/-- Without such a cell the code does what is expected. -/
theorem expected_of_noneDue (h : s.Chain cycle (vma :: cells))
    (hnone : s.NoneDue cycle (vma :: cells)) :
    s.expected cycle (vma :: cells) =
      some (s.plainOutcome cycle ((vma :: cells).getLast (List.cons_ne_nil _ _))) := by
  have htrap := cellTrap_of_not_due (hnone vma List.mem_cons_self)
  induction cells generalizing vma with
  | nil =>
      unfold plainOutcome
      rw [List.getLast_singleton]
      cases hown : ownTrap cycle (s.readVirtualMemory vma) with
      | some vector => exact expected_of_trap (htrap.trans hown)
      | none =>
          rw [expected, List.findSome?_cons, htrap, hown]
          rfl
  | cons vma' cells ih =>
      have hforward := memoryReadInternal_forward 0 h.tail.1
      have hrest : s.NoneDue cycle (vma' :: cells) := fun c hc =>
        hnone c (List.mem_cons_of_mem _ hc)
      rw [expected_cons (htrap.trans hforward.2), ih h.tail.2 hrest
        (cellTrap_of_not_due (hrest vma' List.mem_cons_self))]
      rfl

/-- With one, the first of them traps. -/
theorem expected_of_due (h : s.Chain cycle (vma :: cells))
    (hdue : ¬ s.NoneDue cycle (vma :: cells)) :
    ∃ c, s.expected cycle (vma :: cells) = some (.trap .transport c) := by
  induction cells generalizing vma with
  | nil =>
      have hfirst : s.TransportDue cycle vma := by simpa [NoneDue] using hdue
      exact ⟨vma, expected_of_trap (if_pos hfirst)⟩
  | cons vma' cells ih =>
      by_cases hfirst : s.TransportDue cycle vma
      · exact ⟨vma, expected_of_trap (if_pos hfirst)⟩
      · have hrest : ¬ s.NoneDue cycle (vma' :: cells) := fun hall => by
          refine hdue fun c hc => ?_
          obtain rfl | hc := List.mem_cons.mp hc
          · exact hfirst
          · exact hall c hc
        obtain ⟨c, hc⟩ := ih h.tail.2 hrest
        have hforward := memoryReadInternal_forward 0 h.tail.1
        exact ⟨c, by rw [expected_cons ((cellTrap_of_not_due hfirst).trans hforward.2), hc]⟩

theorem ownTrap_ne_transport (object : LispObj) : ownTrap cycle object ≠ some .transport := by
  unfold ownTrap
  split
  · simp
  · split <;> simp

/-- The code takes no transport trap. -/
theorem plainOutcome_ne_transport (c : Integer) :
    s.plainOutcome cycle vma ≠ .trap .transport c := by
  unfold plainOutcome
  split
  · next vector hown =>
      intro heq
      obtain ⟨rfl, -⟩ := MemoryOutcome.trap.inj heq
      exact ownTrap_ne_transport _ hown
  · simp

/-! ### Stores -/

theorem readVirtualMemory_write (s : ProcessorState) (vma a : Integer) (object : LispObj) :
    (s.writeVirtualMemory vma object).readVirtualMemory a =
      if a = vma then object else s.readVirtualMemory a := by
  unfold writeVirtualMemory Processor.readVirtualMemory
  simp only
  by_cases heq : a = vma
  · subst heq
    rw [if_pos rfl]
    by_cases hin : (a - s.stackCacheBase).toNat < 4 * 256
    · rw [if_pos hin, if_pos hin, Function.update_self]
    · rw [if_neg hin, Function.update_self]
  · rw [if_neg heq]
    by_cases hin : (a - s.stackCacheBase).toNat < 4 * 256
    · rw [if_pos hin, if_pos hin]
      split
      · rw [Function.update_of_ne]
        intro hindex
        apply heq
        bv_omega
      · rfl
    · rw [if_neg hin, if_neg hin, Function.update_of_ne heq]

theorem mergeCdr_finalObject (object : LispObj) (tag : Tag) :
    mergeCdr (finalObject cycle object).tag tag = mergeCdr object.tag tag := by
  have hmerge : ∀ t : Tag, mergeCdr t typeExternalValueCellPointer &&& 0xC0 = t &&& 0xC0 := by
    decide
  unfold finalObject
  split
  · rw [mergeCdr, hmerge, ← mergeCdr]
  · rfl

/-- A chain with a cell that waits to be transported is read past it. -/
theorem not_transportsFirst_of_due (h : s.Chain cycle (vma :: cells))
    (hdue : ¬ s.NoneDue cycle (vma :: cells)) : ¬ s.TransportsFirst cycle vma cells := by
  intro hright
  obtain ⟨fuel, outcome, hcode, hexpected⟩ := hright.reads
  obtain ⟨c, hc⟩ := expected_of_due h hdue
  rw [memoryReadInternal_chain h fuel] at hcode
  split at hcode
  · obtain rfl := Option.some.inj hcode
    exact plainOutcome_ne_transport c (Option.some.inj (hexpected.symm.trans hc))
  · cases hcode

/-- **When memory cycles transport before they forward.**  The mask of the transport test is a
comparison of constants, so no transport trap is ever taken: the read is right exactly when no
cell of the chain waits to be transported. -/
theorem transportsFirst_iff (h : s.Chain cycle (vma :: cells)) :
    s.TransportsFirst cycle vma cells ↔ s.NoneDue cycle (vma :: cells) := by
  have hread := memoryReadInternal_chain h
  constructor
  · intro hright
    by_contra hdue
    exact not_transportsFirst_of_due h hdue hright
  · intro hnone
    have hlast : (vma :: cells).getLast (List.cons_ne_nil _ _) ∈ vma :: cells :=
      List.getLast_mem _
    have hvalue : ∀ fuel final object,
        s.memoryReadInternal cycle fuel vma = some (.value final object) →
        final = (vma :: cells).getLast (List.cons_ne_nil _ _) ∧
          object = finalObject cycle (s.readVirtualMemory final) := by
      intro fuel final object hcode
      rw [hread fuel] at hcode
      split at hcode
      · have hplain := Option.some.inj hcode
        unfold plainOutcome at hplain
        split at hplain
        · cases hplain
        · obtain ⟨rfl, rfl⟩ := MemoryOutcome.value.inj hplain
          exact ⟨rfl, rfl⟩
      · cases hcode
    refine ⟨⟨cells.length + 1, _, ?_, expected_of_noneDue h hnone⟩, fun fuel final object hcode => ?_,
      fun fuel object t hstore => ?_⟩
    · rw [hread, if_pos (Nat.lt_succ_self _)]
    · obtain ⟨rfl, -⟩ := hvalue fuel final object hcode
      exact hnone _ hlast
    · obtain ⟨outcome, hcode, hout⟩ := Option.map_eq_some_iff.mp hstore
      cases outcome with
      | value final dest =>
          obtain ⟨hfinal, rfl⟩ := hvalue fuel final dest hcode
          obtain rfl := StoreOutcome.stored.inj hout
          refine ⟨final, by rw [hfinal, List.getLast?_eq_some_getLast], ?_, fun a ha => ?_⟩
          · rw [readVirtualMemory_write, if_pos rfl, mergeCdr_finalObject]
          · rw [readVirtualMemory_write, if_neg ha]
      | trap vector c => cases hout
      | badMemoryAction => cases hout

end Along

/-- A memory that holds one object everywhere; zone 1 is oldspace. -/
def uniform (object : LispObj) : ProcessorState where
  stack := fun _ => object
  sp := 0
  fp := 0
  lp := 0
  pc := objectNIL
  continuation := objectNIL
  control := 0
  stackCacheLimit := 896
  restartsp := 0
  stackCacheBase := 0xF8000000
  memory := fun _ => object
  ephemeralOldspaceRegister := 0
  zoneOldspaceRegister := 2

@[simp] theorem readVirtualMemory_uniform (object : LispObj) (vma : Integer) :
    (uniform object).readVirtualMemory vma = object := by
  unfold Processor.readVirtualMemory
  simp only
  split <;> rfl

/-- One cell without a forwarding pointer is a chain. -/
theorem chain_uniform {cycle : Cycle} {object : LispObj} (hlast : forward cycle object = none)
    (hbind : action cycle object &&& memoryActionBinding = 0) (vma : Integer) :
    (uniform object).Chain cycle [vma] :=
  ⟨by simpa [LinkedChain.Linked] using hlast, fun _ _ => by simpa using hbind⟩

theorem chain_uniform_fixnum : (uniform ⟨typeFixnum, 5⟩).Chain .dataRead [0x1000] :=
  chain_uniform (by decide) (by decide) _

theorem transportsFirst_iff_fixnum :
    (uniform ⟨typeFixnum, 5⟩).TransportsFirst .dataRead 0x1000 [] ↔
      (uniform ⟨typeFixnum, 5⟩).NoneDue .dataRead [0x1000] :=
  transportsFirst_iff chain_uniform_fixnum

/-- The pointer of a list cell into oldspace is returned without a trap. -/
theorem not_transportsFirst_oldspace :
    (uniform ⟨0x15, 0x08000000⟩).Chain .dataRead [0x1000] ∧
      ¬ (uniform ⟨0x15, 0x08000000⟩).TransportsFirst .dataRead 0x1000 [] := by
  have hchain : (uniform ⟨0x15, 0x08000000⟩).Chain .dataRead [0x1000] :=
    chain_uniform (by decide) (by decide) _
  refine ⟨hchain, not_transportsFirst_of_due hchain fun hnone => ?_⟩
  refine hnone 0x1000 List.mem_cons_self ⟨?_, ?_⟩
  · rw [readVirtualMemory_uniform]
    unfold Transportable
    decide
  · rw [readVirtualMemory_uniform]
    decide

end ProcessorState

end Ivory
