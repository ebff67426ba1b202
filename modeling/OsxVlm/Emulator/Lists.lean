import Mathlib
import OsxVlm.Emulator.MemoryCycles

/-!
# List instructions

A read leaves what it finds in its result from cell to cell, and the result of some
instructions is a word of the stack.  The loops read into variables of their own and
write the stack at their end.  They are run with fuel, for their rounds and for the cells of
each read; nothing asks for a sequence break meanwhile.
-/

namespace Ivory

def typeListInstance : Tag := 0x11
def typeList : Tag := 0x15

/-- `TypeSpareP`. -/
def typeSpareP (tag : Tag) : Bool := tag &&& 0o76 = 0o36 || tagType tag = 0o41 || tagType tag = 0o17

/-- `ObjectEqP`. -/
def objectEqP (a b : LispObj) : Bool := a.data = b.data && tagType a.tag = tagType b.tag

/-- The types for which EQL is not EQ. -/
def eqlKey (key : LispObj) : Bool := 0o13 ≤ tagType key.tag && tagType key.tag ≤ 0o17

/-- Where a read leaves the object: in a variable or in a word of the stack. -/
inductive Result where
  | temporary
  | word (i : Int)

/-- How one of the internal functions ends: with 0, with 1, or in the trap of a read. -/
inductive Internal (α : Type) where
  | returned (value : α)
  | refused
  | trapped (outcome : MemoryOutcome)

namespace ProcessorState

def leave (s : ProcessorState) (result : Result) (object : LispObj) : ProcessorState :=
  match result with
  | .temporary => s
  | .word i => { s with stack := Function.update s.stack i object }

/-- `MemoryReadInternal`, with the object that it leaves at every cell. -/
def readInto (cycle : Cycle) (result : Result) :
    Nat → ProcessorState → Integer → Option (ProcessorState × MemoryOutcome)
  | 0, _, _ => none
  | fuel + 1, s, vma =>
      let object := s.readVirtualMemory vma
      let s := s.leave result object
      let action := action cycle object
      if action &&& cEq (memoryActionTransport ||| memoryActionTrap) memoryActionTransport ≠ 0 ∧
          s.oldspaceAddressP object.data = true then
        some (s, .trap .transport vma)
      else
        match (action &&& ~~~memoryActionTransport).toNat with
        | 0 => some (s, .value vma object)
        | 0o10 => some (s, .trap .error vma)
        | 0o20 =>
            let object := ⟨mergeCdr object.tag typeExternalValueCellPointer, object.data⟩
            some (s.leave result object, .value vma object)
        | 0o2 => some (s, .trap .monitor vma)
        | 0o1 => readInto cycle result fuel s object.data
        | _ => some (s, .badMemoryAction)

/-- A data read whose result then loses its cdr code. -/
def readData (s : ProcessorState) (fuel : Nat) (vma : Integer) (result : Result) :
    Option (Internal (ProcessorState × LispObj)) :=
  (readInto .dataRead result fuel s vma).map fun
    | (s, .value _ object) => .returned (s.leave result object.cdrNext, object.cdrNext)
    | (_, outcome) => .trapped outcome

/-- `CarInternal`. -/
def carInternal (s : ProcessorState) (fuel : Nat) (l : LispObj) (result : Result) :
    Option (Internal (ProcessorState × LispObj)) :=
  if tagType l.tag = typeList then s.readData fuel l.data result
  else if tagType l.tag = typeNIL then some (.returned (s.leave result objectNIL, objectNIL))
  else if tagType l.tag = typeLocative then s.readData fuel l.data result
  else some .refused

/-- `CdrInternal`. -/
def cdrInternal (s : ProcessorState) (fuel : Nat) (l : LispObj) (result : Result) :
    Option (Internal (ProcessorState × LispObj)) :=
  if tagType l.tag = typeList then
    (s.memoryReadInternal .cdr fuel l.data).bind fun
      | .value vma cdr =>
          match tagCdr cdr.tag with
          | 1 => some (.returned (s.leave result objectNIL, objectNIL))
          | 0 => some (.returned (s.leave result ⟨typeList, vma + 1⟩, ⟨typeList, vma + 1⟩))
          | 2 => s.readData fuel (vma + 1) result
          | _ => some .refused
      | outcome => some (.trapped outcome)
  else if tagType l.tag = typeNIL then some (.returned (s.leave result objectNIL, objectNIL))
  else if tagType l.tag = typeLocative then s.readData fuel l.data result
  else some .refused

/-- `CarCdrInternal`, with both results in variables. -/
def carCdrInternal (s : ProcessorState) (fuel : Nat) (l : LispObj) :
    Option (Internal (LispObj × LispObj)) :=
  if tagType l.tag = typeLocative then some .refused
  else
    (s.carInternal fuel l .temporary).bind fun
      | .returned (s, car) =>
          (s.cdrInternal fuel l .temporary).map fun
            | .returned (_, cdr) => .returned (car, cdr)
            | .refused => .refused
            | .trapped outcome => .trapped outcome
      | .refused => some .refused
      | .trapped outcome => some (.trapped outcome)

/-! ### The instructions -/

/-- How an instruction goes on. -/
inductive ListOutcome where
  | next (s : ProcessorState)
  | instructionException
  | illegalOperand
  | trapped (outcome : MemoryOutcome)

inductive OperandMode where
  | sp (n : Int)
  | fp (n : Int)
  | lp (n : Int)
  | pop

/-- The word that holds the operand. -/
def operandWord (s : ProcessorState) : OperandMode → Int
  | .sp n => s.sp + n
  | .fp n => s.fp + n
  | .lp n => s.lp + n
  | .pop => s.sp

/-- The state once the operand is addressed. -/
def addressOperand (s : ProcessorState) : OperandMode → ProcessorState
  | .pop => { s with sp := s.sp - 1 }
  | _ => s

/-- `PushObject`, of an object without a cdr code. -/
def push (s : ProcessorState) (o : LispObj) : ProcessorState :=
  { s with
    stack := Function.update s.stack (s.sp + 1) o
    sp := s.sp + 1 }

/-- `SetObject`, of an object without a cdr code. -/
def setTop (s : ProcessorState) (o : LispObj) : ProcessorState :=
  { s with stack := Function.update s.stack s.sp o }

/-- `Op2ListExceptions` and its like for other operands. -/
def listExceptions (op2 : LispObj) : ListOutcome :=
  if tagType op2.tag = typeListInstance then .instructionException
  else if typeSpareP op2.tag then .instructionException
  else .illegalOperand

/-- The result was left above the stack, which now takes it in. -/
def takeResult (op2 : LispObj) : Internal (ProcessorState × LispObj) → ListOutcome
  | .returned (s, _) => .next { s with sp := s.sp + 1 }
  | .refused => listExceptions op2
  | .trapped outcome => .trapped outcome

def car (s : ProcessorState) (fuel : Nat) (mode : OperandMode) : Option ListOutcome :=
  let op2 := s.operandWord mode
  let s := s.addressOperand mode
  (s.carInternal fuel (s.stack op2) (.word (s.sp + 1))).map (takeResult (s.stack op2))

def cdr (s : ProcessorState) (fuel : Nat) (mode : OperandMode) : Option ListOutcome :=
  let op2 := s.operandWord mode
  let s := s.addressOperand mode
  (s.cdrInternal fuel (s.stack op2) (.word (s.sp + 1))).map (takeResult (s.stack op2))

def memberLoop (s : ProcessorState) (fuel : Nat) : Nat → LispObj → Option ListOutcome
  | 0, _ => none
  | n + 1, scratch =>
      if tagType scratch.tag = typeNIL then some (.next (s.setTop objectNIL))
      else
        (s.carCdrInternal fuel scratch).bind fun
          | .returned (car, cdr) =>
              if objectEqP car (s.stack s.sp) then some (.next (s.setTop scratch.cdrNext))
              else memberLoop s fuel n cdr
          | .refused => some (listExceptions scratch)
          | .trapped outcome => some (.trapped outcome)

def assocLoop (s : ProcessorState) (fuel : Nat) : Nat → LispObj → Option ListOutcome
  | 0, _ => none
  | n + 1, scratch =>
      if tagType scratch.tag = typeNIL then some (.next (s.setTop objectNIL))
      else
        (s.carCdrInternal fuel scratch).bind fun
          | .returned (car, cdr) =>
              if tagType car.tag = typeNIL then assocLoop s fuel n cdr
              else if tagType car.tag = typeList then
                (s.carInternal fuel car .temporary).bind fun
                  | .returned (_, key) =>
                      if objectEqP key (s.stack s.sp) then some (.next (s.setTop car.cdrNext))
                      else assocLoop s fuel n cdr
                  | .refused => some .instructionException
                  | .trapped outcome => some (.trapped outcome)
              else if tagType car.tag = typeListInstance then some .instructionException
              else some .illegalOperand
          | .refused => some (listExceptions scratch)
          | .trapped outcome => some (.trapped outcome)

/-- The value of a property takes the place of the key; its cons is pushed. -/
def foundProperty (s : ProcessorState) (fuel : Nat) (cdr : LispObj) : Option ListOutcome :=
  if tagType cdr.tag = typeList then
    (s.carInternal fuel cdr (.word s.sp)).map fun
      | .returned (s, _) => .next (s.push cdr.cdrNext)
      | .refused => .instructionException
      | .trapped outcome => .trapped outcome
  else if tagType cdr.tag = typeNIL ∨ tagType cdr.tag = typeListInstance then
    some .instructionException
  else some .illegalOperand

def rgetfLoop (s : ProcessorState) (fuel : Nat) : Nat → LispObj → Option ListOutcome
  | 0, _ => none
  | n + 1, scratch =>
      if tagType scratch.tag = typeNIL then
        some (.next ((s.setTop objectNIL).push objectNIL))
      else
        (s.carCdrInternal fuel scratch).bind fun
          | .returned (car, cdr) =>
              if objectEqP car (s.stack s.sp) then s.foundProperty fuel cdr
              else
                (s.cdrInternal fuel cdr .temporary).bind fun
                  | .returned (_, scratch) => rgetfLoop s fuel n scratch
                  | .refused => some (listExceptions cdr)
                  | .trapped outcome => some (.trapped outcome)
          | .refused => some (listExceptions scratch)
          | .trapped outcome => some (.trapped outcome)

/-- An instruction that looks for the key on the top of the stack in the list of its
operand. -/
def searching (loop : ProcessorState → Nat → Nat → LispObj → Option ListOutcome)
    (s : ProcessorState) (fuel : Nat) (mode : OperandMode) : Option ListOutcome :=
  let op2 := s.operandWord mode
  let s := s.addressOperand mode
  if eqlKey (s.stack s.sp) then some .instructionException else loop s fuel fuel (s.stack op2)

def member : ProcessorState → Nat → OperandMode → Option ListOutcome := searching memberLoop
def assoc : ProcessorState → Nat → OperandMode → Option ListOutcome := searching assocLoop
def rgetf : ProcessorState → Nat → OperandMode → Option ListOutcome := searching rgetfLoop

/-! ### A read into a word of the stack -/

/-- The cell at this address is that word of the stack cache. -/
def IsWord (s : ProcessorState) (vma : Integer) : Result → Prop
  | .temporary => False
  | .word i => (vma - s.stackCacheBase).toNat < 4 * 256 ∧ ((vma - s.stackCacheBase).toNat : Int) = i

/-- None of the cells is the word in which the result is left. -/
def Clear (s : ProcessorState) (result : Result) (cells : List Integer) : Prop :=
  ∀ vma ∈ cells, ¬ s.IsWord vma result

section Leave

variable {s : ProcessorState} {cycle : Cycle} {result : Result} {vma : Integer}
  {cells : List Integer} {object : LispObj}

@[simp] theorem leave_leave (s : ProcessorState) (result : Result) (o o' : LispObj) :
    (s.leave result o).leave result o' = s.leave result o' := by
  cases result with
  | temporary => rfl
  | word i => simp [leave]

@[simp] theorem isWord_leave (s : ProcessorState) (o : LispObj) (result result' : Result)
    (vma : Integer) : (s.leave result o).IsWord vma result' ↔ s.IsWord vma result' := by
  cases result <;> cases result' <;> rfl

/-- The word that a result was left in reads as the result. -/
theorem readVirtualMemory_word {i : Int} (h : s.IsWord vma (.word i)) :
    (s.leave (.word i) object).readVirtualMemory vma = object := by
  change (if (vma - s.stackCacheBase).toNat < 4 * 256 then _ else _) = _
  rw [if_pos h.1]
  exact (congrArg (Function.update s.stack i object) h.2).trans (Function.update_self ..)

theorem readVirtualMemory_leave (h : ¬ s.IsWord vma result) :
    (s.leave result object).readVirtualMemory vma = s.readVirtualMemory vma := by
  cases result with
  | temporary => rfl
  | word i =>
      change (if (vma - s.stackCacheBase).toNat < 4 * 256 then _ else _) =
        if (vma - s.stackCacheBase).toNat < 4 * 256 then _ else _
      by_cases hin : (vma - s.stackCacheBase).toNat < 4 * 256
      · rw [if_pos hin, if_pos hin]
        exact Function.update_of_ne (fun heq => h ⟨hin, heq⟩) object s.stack
      · rw [if_neg hin, if_neg hin]
        rfl

/-- The cells that are read stay what they are. -/
theorem Chain.congr {t : ProcessorState} (h : s.Chain cycle cells)
    (heq : ∀ a ∈ cells, t.readVirtualMemory a = s.readVirtualMemory a) : t.Chain cycle cells :=
  ⟨h.linked.congr fun a ha => by rw [heq a ha], fun a ha => by
    rw [heq a ha]
    exact h.notBinding a ha⟩

/-- One cell of a read, as `memoryReadInternal_succ` has it. -/
theorem readInto_succ (cycle : Cycle) (result : Result) (fuel : Nat) (s : ProcessorState)
    (vma : Integer) :
    readInto cycle result (fuel + 1) s vma =
      let object := s.readVirtualMemory vma
      match (action cycle object &&& ~~~memoryActionTransport).toNat with
      | 0 => some (s.leave result object, .value vma object)
      | 0o10 => some (s.leave result object, .trap .error vma)
      | 0o20 => some (s.leave result ⟨mergeCdr object.tag typeExternalValueCellPointer, object.data⟩,
          .value vma ⟨mergeCdr object.tag typeExternalValueCellPointer, object.data⟩)
      | 0o2 => some (s.leave result object, .trap .monitor vma)
      | 0o1 => readInto cycle result fuel (s.leave result object) object.data
      | _ => some (s.leave result object, .badMemoryAction) := by
  have hnever : ∀ a : Byte,
      a &&& cEq (memoryActionTransport ||| memoryActionTrap) memoryActionTransport = 0 := by
    intro a
    rw [show cEq (memoryActionTransport ||| memoryActionTrap) memoryActionTransport = 0 by decide]
    exact BitVec.and_zero
  rw [readInto]
  simp only [hnever, ne_eq, not_true_eq_false, false_and, if_false, leave_leave]

/-- A variable takes what `memoryReadInternal` returns. -/
theorem readInto_temporary (cycle : Cycle) (fuel : Nat) (s : ProcessorState) (vma : Integer) :
    readInto cycle .temporary fuel s vma = (s.memoryReadInternal cycle fuel vma).map (s, ·) := by
  induction fuel generalizing vma with
  | zero => rfl
  | succ fuel ih =>
      rw [readInto_succ, memoryReadInternal_succ]
      simp only [leave, ih]
      split <;> simp_all

theorem readInto_forward {fuel : Nat} {vma' : Integer}
    (hnext : forward cycle (s.readVirtualMemory vma) = some vma') :
    readInto cycle result (fuel + 1) s vma =
      readInto cycle result fuel (s.leave result (s.readVirtualMemory vma)) vma' := by
  have hind : action cycle (s.readVirtualMemory vma) &&& ~~~memoryActionTransport =
      memoryActionIndirect := by
    by_contra hnot
    rw [forward, if_neg hnot] at hnext
    cases hnext
  obtain rfl : (s.readVirtualMemory vma).data = vma' := by
    rw [forward, if_pos hind] at hnext
    exact Option.some.inj hnext
  rw [readInto_succ]
  dsimp only
  rw [hind]
  rfl

theorem readInto_final {fuel : Nat} (hlast : forward cycle (s.readVirtualMemory vma) = none)
    (hbind : action cycle (s.readVirtualMemory vma) &&& memoryActionBinding = 0)
    (hvalue : s.plainOutcome cycle vma = .value vma object) :
    readInto cycle result (fuel + 1) s vma = some (s.leave result object, .value vma object) := by
  have hmem := action_mem cycle (s.readVirtualMemory vma)
  rw [readInto_succ]
  dsimp only
  unfold plainOutcome ownTrap finalObject at hvalue
  unfold forward at hlast
  generalize action cycle (s.readVirtualMemory vma) = a at hmem hlast hbind hvalue
  simp only [List.mem_cons, List.not_mem_nil, or_false] at hmem
  obtain rfl | rfl | rfl | rfl | rfl | rfl | rfl | rfl := hmem <;>
    first
      | (obtain ⟨-, rfl⟩ := MemoryOutcome.value.inj hvalue; rfl)
      | exact absurd hbind (by decide)
      | (rw [if_pos (by decide)] at hlast; cases hlast)
      | cases hvalue

/-- Where no cell behind the first is the word of the result, the last one is read into it. -/
theorem readInto_chain {fuel : Nat} {final : Integer} (h : s.Chain cycle (vma :: cells))
    (hclear : s.Clear result cells)
    (hfinal : (vma :: cells).getLast (List.cons_ne_nil _ _) = final)
    (hvalue : s.plainOutcome cycle final = .value final object) (hfuel : cells.length < fuel) :
    readInto cycle result fuel s vma = some (s.leave result object, .value final object) := by
  induction cells generalizing s vma fuel with
  | nil =>
      obtain ⟨fuel, rfl⟩ := Nat.exists_eq_add_one_of_ne_zero (Nat.ne_zero_of_lt hfuel)
      obtain rfl : vma = final := hfinal
      exact readInto_final h.last.1 h.last.2 hvalue
  | cons vma' cells ih =>
      obtain ⟨fuel, rfl⟩ := Nat.exists_eq_add_one_of_ne_zero (Nat.ne_zero_of_lt hfuel)
      have hkept : ∀ a ∈ vma' :: cells,
          (s.leave result (s.readVirtualMemory vma)).readVirtualMemory a =
            s.readVirtualMemory a := fun a ha => readVirtualMemory_leave (hclear a ha)
      have hmem : final ∈ vma' :: cells := by
        rw [← hfinal, List.getLast_cons (List.cons_ne_nil _ _)]
        exact List.getLast_mem _
      rw [readInto_forward h.tail.1, ih (h.tail.2.congr hkept), leave_leave]
      · intro a ha
        rw [isWord_leave]
        exact hclear a (List.mem_cons_of_mem _ ha)
      · rw [← hfinal, List.getLast_cons (List.cons_ne_nil _ _)]
      · rw [plainOutcome, hkept final hmem]
        exact hvalue
      · simpa using hfuel

/-- A pointer to the word of the result forwards to itself once it is there. -/
theorem readInto_stuck {i : Int} {v : Integer}
    (hnext : forward cycle (s.readVirtualMemory vma) = some v) (hword : s.IsWord v (.word i))
    (fuel : Nat) : readInto cycle (.word i) fuel s vma = none := by
  induction fuel generalizing s vma with
  | zero => rfl
  | succ fuel ih =>
      rw [readInto_forward hnext]
      refine ih ?_ ((isWord_leave ..).mpr hword)
      rw [readVirtualMemory_word hword]
      exact hnext

end Leave

end ProcessorState

end Ivory
