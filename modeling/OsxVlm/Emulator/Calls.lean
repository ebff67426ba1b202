import Mathlib
import OsxVlm.Emulator.Control

/-!
# Calls and returns of the emulator

The stack cache is a function of the word's place in it; `sp`, `fp` and `lp` are
places.  Where an instruction would trap, scroll the stack cache or unwind catch
blocks and bindings there is no result.
-/

namespace Ivory

structure LispObj where
  tag : Tag
  data : Integer
  deriving DecidableEq

def tagType (tag : Tag) : Tag := tag &&& 0x3F

/-- The object as `StoreCdrNext` stores it. -/
def LispObj.cdrNext (o : LispObj) : LispObj := ⟨tagType o.tag, o.data⟩

def typeFixnum : Tag := 0x08
def typeNIL : Tag := 0x14
def typeSymbol : Tag := 0x18
def typeLexicalClosure : Tag := 0x1A
def typeCompiledFunction : Tag := 0x1C
def typeEvenPC : Tag := 0x26
def typeOddPC : Tag := 0x27

def objectNIL : LispObj := ⟨typeNIL, 0xF8041200⟩
def objectT : LispObj := ⟨typeSymbol, 0xF8041208⟩

def trapVectorBase : Integer := 0xF8040000
def interpreterFunctionVector : Integer := 0x900

/-- The registers that calls and returns use. -/
structure Cpu where
  stack : Int → LispObj
  sp : Int
  fp : Int
  lp : Int
  pc : LispObj
  continuation : LispObj
  control : Integer
  stackCacheLimit : Int

namespace Cpu

/-! ### Pushing -/

def push (s : Cpu) (o : LispObj) : Cpu :=
  { s with
    stack := Function.update s.stack (s.sp + 1) o
    sp := s.sp + 1 }

def pushObject (s : Cpu) (o : LispObj) : Cpu := s.push o.cdrNext
def pushFixnum (s : Cpu) (n : Integer) : Cpu := s.push ⟨typeFixnum, n⟩
def pushContinuation (s : Cpu) (c : LispObj) : Cpu := s.push ⟨c.tag ||| 0xC0, c.data⟩
def pushControl (s : Cpu) (c : Integer) : Cpu := s.push ⟨typeFixnum ||| 0xC0, c⟩

section Push

variable (s : Cpu) (o : LispObj)

@[simp] theorem push_sp : (s.push o).sp = s.sp + 1 := rfl
@[simp] theorem push_fp : (s.push o).fp = s.fp := rfl
@[simp] theorem push_lp : (s.push o).lp = s.lp := rfl
@[simp] theorem push_control : (s.push o).control = s.control := rfl
@[simp] theorem push_continuation : (s.push o).continuation = s.continuation := rfl

@[simp] theorem push_stack_top : (s.push o).stack (s.sp + 1) = o := Function.update_self _ _ _

theorem push_stack_le {i : Int} (h : i ≤ s.sp) : (s.push o).stack i = s.stack i :=
  Function.update_of_ne (by omega) _ _

theorem push_stack_ne {i : Int} (h : i ≠ s.sp + 1) : (s.push o).stack i = s.stack i :=
  Function.update_of_ne h _ _

end Push

/-! ### Starting a call -/

/-- The frame words of a call, and its extra argument. -/
def startCall (s : Cpu) (extraArgument : Option LispObj) (function : LispObj) : Cpu :=
  let s' := (s.pushContinuation s.continuation).pushControl s.control
  let s' := match extraArgument with
    | some argument => s'.pushObject argument
    | none => s'
  { s' with
    control := startControl s.control extraArgument.isSome
    continuation := function }

/-- `StartCallDispatch` on the function object; `memoryReadData` is what reads of
memory deliver. -/
def startCallDispatch (memoryReadData : Integer → LispObj) (s : Cpu) (scratch : LispObj) :
    Option Cpu :=
  let function := memoryReadData (scratch.data + 1)
  if tagType scratch.tag = typeCompiledFunction then
    some (s.startCall none ⟨typeEvenPC, scratch.data⟩)
  else if tagType scratch.tag = typeLexicalClosure ∧
      tagType function.tag = typeCompiledFunction then
    some (s.startCall (some (memoryReadData scratch.data)) ⟨typeEvenPC, function.data⟩)
  else
    let interpreterFunction := memoryReadData
      (trapVectorBase + interpreterFunctionVector + (tagType scratch.tag).setWidth 32)
    if tagType interpreterFunction.tag = typeEvenPC ∨
        tagType interpreterFunction.tag = typeOddPC then
      some (s.startCall (some scratch) interpreterFunction)
    else none

/-- `CallCompiledEven` and `CallCompiledOdd`. -/
def callCompiled (s : Cpu) (pcType : Tag) (operand : Integer) : Cpu :=
  s.startCall none ⟨pcType, operand⟩

/-! ### Finishing it -/

/-- The new frame begins at `op1` and its locals at `op2`. -/
def finishCall (s : Cpu) (operand : Integer) (op1 op2 : Int) (nextPc : LispObj) : Option Cpu :=
  let s' : Cpu :=
    { s with
      control := finishControl s.control operand (op2 - op1) (op1 - s.fp)
      fp := op1
      lp := op2
      pc := s.continuation
      continuation := nextPc }
  if s'.stackCacheLimit < s'.fp then none else some s'

def finishCallN (s : Cpu) (operand : Integer) (nextPc : LispObj) : Option Cpu :=
  s.finishCall operand (s.sp - ldb 8 0 operand - readControlExtraArgument s.control) (s.sp + 1)
    nextPc

def finishCallTos (s : Cpu) (operand : Integer) (nextPc : LispObj) : Option Cpu :=
  let scratch := s.stack s.sp
  let s := { s with sp := s.sp - 1 }
  s.finishCall operand (s.sp - (scratch.data.toInt + 1) - readControlExtraArgument s.control)
    (s.sp + 1) nextPc

def locateLocals (s : Cpu) : Cpu :=
  let s' := s.pushFixnum (BitVec.ofInt 32 (readControlArgumentSize s.control - 2))
  { s' with
    lp := s.sp
    control := writeControlArgumentSize s.control (s.sp - s.fp) }

/-! ### Returning -/

/-- The registers of the caller. -/
def returnFrame (s : Cpu) : Cpu :=
  let control := (s.stack (s.fp + 1)).data
  let fp := s.fp - readControlCallerFrameSize s.control
  { s with
    pc := if readControlValueDisposition s.control = .return then s.pc else s.continuation
    continuation := s.stack s.fp
    sp := s.fp - 1
    fp := fp
    lp := fp + readControlArgumentSize control
    control := control }

/-- One frame of `ReturnSingleInternal`. -/
def returnSingleFrame (s : Cpu) (scratch : LispObj) : Cpu :=
  match readControlValueDisposition s.control with
  | .effect => s.returnFrame
  | .value => s.returnFrame.pushObject scratch
  | .multiple => (s.returnFrame.pushObject scratch).pushFixnum 1
  | .return => s.returnFrame

/-- Frames are left until one was not called for return. -/
def returnSingle (scratch : LispObj) : Nat → Cpu → Option Cpu
  | 0, _ => none
  | fuel + 1, s =>
      if readControlCleanupBits s.control ≠ 0 ∨ (s.returnSingleFrame scratch).fp < 0 then none
      else if readControlValueDisposition s.control = .return then
        returnSingle scratch fuel (s.returnSingleFrame scratch)
      else some (s.returnSingleFrame scratch)

/-- Words from `valueblock` on are pushed, one after the other. -/
def pushValues (store : LispObj → LispObj) : Nat → Int → Cpu → Cpu
  | 0, _, s => s
  | n + 1, valueblock, s =>
      pushValues store n (valueblock + 1) (s.push (store (s.stack valueblock)))

/-- One frame of `retryReturnMultiple`. -/
def returnMultipleFrame (s : Cpu) (count : Integer) : Cpu :=
  let valueblock := s.sp - (count.toInt - 1)
  match readControlValueDisposition s.control with
  | .effect => s.returnFrame
  | .value =>
      if 0 < count.toInt then s.returnFrame.pushObject (s.stack valueblock)
      else s.returnFrame.push objectNIL
  | .multiple =>
      (pushValues LispObj.cdrNext count.toNat valueblock s.returnFrame).pushFixnum count
  | .return => pushValues id count.toNat valueblock s.returnFrame

/-- The values would not fit behind the caller's frame. -/
def returnTooLarge (s : Cpu) (count : Integer) : Prop :=
  (readControlValueDisposition s.control = .multiple ∨
    readControlValueDisposition s.control = .return) ∧
  112 < readControlCallerFrameSize s.control + count.toInt + 1

instance (s : Cpu) (count : Integer) : Decidable (s.returnTooLarge count) := by
  unfold returnTooLarge
  infer_instance

def returnMultiple (count : Integer) : Nat → Cpu → Option Cpu
  | 0, _ => none
  | fuel + 1, s =>
      if s.returnTooLarge count ∨ readControlCleanupBits s.control ≠ 0 ∨
          (s.returnMultipleFrame count).fp < 0 then none
      else if readControlValueDisposition s.control = .return then
        returnMultiple count fuel (s.returnMultipleFrame count)
      else some (s.returnMultipleFrame count)

end Cpu

/-! ### Instructions -/

/-- What `ReturnSingle` returns. -/
inductive Single where
  | tos
  | nil
  | t
  deriving DecidableEq

inductive Operand where
  | immediate (n : Integer)
  | pop

/-- The instructions of calls, and pushes and pops. -/
inductive Action where
  | startCall (memoryReadData : Integer → LispObj) (function : LispObj)
  | callCompiled (pcType : Tag) (operand : Integer)
  | push (object : LispObj)
  | pop
  | finishCallN (operand : Integer) (nextPc : LispObj)
  | finishCallTos (operand : Integer) (nextPc : LispObj)
  | locateLocals
  | returnSingle (single : Single)
  | returnMultiple (operand : Operand)

def Single.object (s : Cpu) : Single → LispObj
  | .tos => s.stack s.sp
  | .nil => objectNIL
  | .t => objectT

/-- The instruction is executed, if it needs no more rounds than `fuel` to return. -/
def Cpu.execute (fuel : Nat) (s : Cpu) : Action → Option Cpu
  | .startCall memoryReadData function => s.startCallDispatch memoryReadData function
  | .callCompiled pcType operand => some (s.callCompiled pcType operand)
  | .push object => some (s.push object)
  | .pop => some { s with sp := s.sp - 1 }
  | .finishCallN operand nextPc => s.finishCallN operand nextPc
  | .finishCallTos operand nextPc => s.finishCallTos operand nextPc
  | .locateLocals => some s.locateLocals
  | .returnSingle single => Cpu.returnSingle (single.object s) fuel s
  | .returnMultiple (.immediate n) => Cpu.returnMultiple n fuel s
  | .returnMultiple .pop =>
      let op2 := s.stack s.sp
      if tagType op2.tag = typeFixnum then
        Cpu.returnMultiple op2.data fuel { s with sp := s.sp - 1 }
      else none

end Ivory
