import OsxVlm.Emulator.ArrayRegisters
import OsxVlm.Emulator.StackInstructions

/-!
# Instructions that use memory and registers

The machine is the processor with the rest of its registers.  An instruction ends in a machine
or in an exception, which says where the processor goes instead; reads of memory, and loops
that no count limits, are run with fuel.
-/

namespace Ivory.Execute

open ProcessorState

def typePhysicalAddress : Tag := 0x20
def typeInstance : Tag := 0x10

/-- The vectors of the traps, and the other ways not to go on. -/
inductive Exception
  /-- `ErrorTrapVector`, of illegal operands, unimplemented instructions and memory. -/
  | error
  | instructionException
  | transport
  | monitor
  /-- The emulator exits. -/
  | badMemoryAction
  /-- An unwind-protect is handled, and the instruction is begun again after it. -/
  | unwindProtect
  /-- What C leaves open: a division by zero, or a value that is not returned. -/
  | fails
  deriving DecidableEq

/-- `ALUFunctionClass`. -/
inductive AluFunction
  | boolean
  | byte
  | adder
  | multiplyDivide

structure Alu where
  aluAndRotateControl : Integer
  aluOp : AluFunction
  byteSize : BitVec 5
  byteRotate : BitVec 5
  rotateLatch : Integer
  aluOverflow : Bool
  aluBorrow : Bool
  aluLessThan : Bool

/-- `ListCacheArea`, `ListCacheAddress` and `ListCacheLength`, or the same for structures. -/
structure AllocationCache where
  area : LispObj
  address : LispObj
  length : Integer

/-- There are four block address registers. -/
theorem neZero_four : NeZero 4 := ⟨by decide⟩

attribute [local instance] neZero_four

structure Machine extends ArrayState where
  bar : Fin 4 → LispObj
  listCache : AllocationCache
  structureCache : AllocationCache
  catchBlockPointer : LispObj
  bindingStackPointer : Integer
  bindingStackLimit : Integer
  deepBoundP : Bool
  preemptRegister : Integer
  alu : Alu

abbrev Run := ExceptT Exception Option

def trapException : MemoryTrap → Exception
  | .error => .error
  | .transport => .transport
  | .monitor => .monitor

def arrayException : ArrayTrap → Exception
  | .illegalOperand => .error
  | .instructionException => .instructionException
  | .memory (.trap vector _) => trapException vector
  | .memory _ => .badMemoryAction

namespace Machine

variable (m : Machine) (op2 : Operand) (fuel : Nat)

/-! ### The stack and memory -/

def operands : Stack := ⟨m.stack, m.sp⟩

def withOperands (s : Stack) : Machine := { m with stack := s.words, sp := s.sp }

def withProcessor (t : ProcessorState) : Machine :=
  { m with toArrayState := { m.toArrayState with toProcessorState := t } }

def operand : LispObj := m.operands.operand op2

def top : LispObj := m.stack m.sp

def pop (n : Int) : Machine := { m with sp := m.sp - n }

def setTop (o : LispObj) : Machine := m.withOperands (m.operands.set m.sp o)

/-- An instruction on the stack. -/
def onStack (body : Stack → Outcome Stack) : Run Machine :=
  match body m.operands with
  | .next s => return m.withOperands s
  | .illegalOperand _ => throw .error
  | .instructionException _ => throw .instructionException
  | .fails => throw .fails

/-- `MemoryRead`. -/
def memoryRead (cycle : Cycle) (vma : Integer) : Run (Integer × LispObj) :=
  ExceptT.mk <| (m.memoryReadInternal cycle fuel vma).map fun
    | .value vma q => .ok (vma, q)
    | .trap vector _ => .error (trapException vector)
    | .badMemoryAction => .error .badMemoryAction

def write (vma : Integer) (o : LispObj) : Machine := m.withProcessor (m.writeVirtualMemory vma o)

/-- `StoreContents`. -/
def storeContents (cycle : Cycle) (vma : Integer) (o : LispObj) : Run Machine := do
  let (vma, dest) ← m.memoryRead fuel cycle vma
  return m.write vma ⟨mergeCdr dest.tag o.tag, o.data⟩

/-- An access to an array, by the functions for them. -/
def access {α : Type} (access : Access α) : Run α := ExceptT.adapt arrayException access

/-! ### Exceptions -/

def spareExceptions (o : LispObj) : Exception :=
  if typeSpareP o.tag then .instructionException else .error

/-- `SpListExceptions`. -/
def spListExceptions : Exception :=
  if tagType m.top.tag = typeListInstance then .instructionException else spareExceptions m.top

/-- `SpArrayExceptions`. -/
def spArrayExceptions : Exception :=
  if tagType m.top.tag = typeArrayInstance ∨ tagType m.top.tag = typeStringInstance then
    .instructionException
  else spareExceptions m.top

/-- `BinaryTypeFixnumExceptions`. -/
def binaryExceptions : Exception :=
  if binaryTypeNumericP (m.operand op2).tag m.top.tag then .instructionException else .error

/-! ### Lists -/

def rplaca : Run Machine := do
  if tagType m.top.tag = typeList ∨ tagType m.top.tag = typeLocative then
    let m ← m.storeContents fuel .dataWrite m.top.data (m.operand op2)
    return m.pop 1
  throw m.spListExceptions

def rplacd : Run Machine := do
  if tagType m.top.tag = typeList then
    let (vma, cdr) ← m.memoryRead fuel .cdr m.top.data
    if tagCdr cdr.tag = 2 then
      let m ← m.storeContents fuel .dataWrite (vma + 1) (m.operand op2)
      return m.pop 1
    throw .instructionException
  if tagType m.top.tag = typeLocative then
    let m ← m.storeContents fuel .dataWrite m.top.data (m.operand op2)
    return m.pop 1
  throw m.spListExceptions

/-! ### Arrays -/

def arrayLeaderLength (a : Integer) : Nat := ldb 8 15 a

def aref1 : Run Machine := do
  let element ← access (m.toArrayState.aref1 fuel fuel m.top (m.operand op2))
  return m.setTop element

def aset1 : Run Machine := do
  let t ← access (m.toArrayState.aset1 fuel fuel m.top (m.operand op2) (m.stack (m.sp - 1)))
  return (m.withProcessor t).pop 2

def aloc1 : Run Machine := do
  let index := m.operand op2
  if typeFixnumP index.tag = false then throw .error
  let (vma, header) ← access (m.arrayHeader fuel m.top)
  if arrayShortLength header ≤ index.data.toNat ∨ arrayElementType header ≠ .object then
    throw .error
  return m.setTop ⟨typeLocative, vma + 1 + index.data⟩

/-- The address of a word of the leader of an array. -/
def leaderAddress : Run Integer := do
  let index := m.operand op2
  if typeFixnumP index.tag = false then throw .error
  if ¬(tagType m.top.tag = typeArray ∨ tagType m.top.tag = typeString) then
    throw m.spArrayExceptions
  let (vma, header) ← m.memoryRead fuel .header m.top.data
  if header.tag ≠ arrayHeaderTag ∨ arrayLeaderLength header.data ≤ index.data.toNat then
    throw .error
  return vma - (1 + index.data)

def arrayLeader : Run Machine := do
  let address ← m.leaderAddress op2 fuel
  let (_, q) ← m.memoryRead fuel .dataRead address
  return m.setTop q.cdrNext

def storeArrayLeader : Run Machine := do
  let address ← m.leaderAddress op2 fuel
  let m ← m.storeContents fuel .dataWrite address (m.stack (m.sp - 1))
  return m.pop 2

def alocLeader : Run Machine := do
  let address ← m.leaderAddress op2 fuel
  return m.setTop ⟨typeLocative, address⟩

/-! ### Instances -/

/-- `ldb(4, 2, tag)`. -/
def tagClass (tag : Tag) : Nat := ldb 4 2 (tag.setWidth 32)

def locateArbitraryInstanceVariable (instanceObject offset : LispObj) : Run Integer := do
  if tagClass instanceObject.tag ≠ tagClass typeInstance then
    throw (spareExceptions instanceObject)
  if typeFixnumP offset.tag = false then throw .error
  let (vma, flavor) ← m.memoryRead fuel .header instanceObject.data
  let (_, size) ← m.memoryRead fuel .dataRead (flavor.data - 1)
  if typeFixnumP size.tag = false ∨ size.data ≤ offset.data then throw .error
  return vma + offset.data

def instanceRef : Run Machine := do
  let i ← m.locateArbitraryInstanceVariable fuel m.top (m.operand op2)
  let (_, scratch) ← m.memoryRead fuel .dataRead i
  return m.setTop scratch.cdrNext

def instanceSet : Run Machine := do
  let i ← m.locateArbitraryInstanceVariable fuel (m.stack (m.sp - 1)) (m.operand op2)
  let m ← m.storeContents fuel .dataWrite i m.top
  return m.pop 2

def instanceLoc : Run Machine := do
  let i ← m.locateArbitraryInstanceVariable fuel m.top (m.operand op2)
  return m.setTop ⟨typeLocative, i⟩

/-! ### Raw writes -/

def blockWrite (n : Fin 4) : Run Machine :=
  let address := m.bar n
  let m := m.write address.data (m.operand op2)
  return { m with bar := Function.update m.bar n ⟨address.tag, address.data + 1⟩ }

def memoryWrite : Run Machine := do
  if tagType m.top.tag = typePhysicalAddress then throw .instructionException
  return (m.write m.top.data (m.operand op2)).pop 1

def pStoreContents : Run Machine := do
  if tagType m.top.tag = typePhysicalAddress then throw .instructionException
  let m ← m.storeContents fuel .raw m.top.data (m.operand op2)
  return m.pop 1

def storeConditional : Run Machine := do
  let locative := m.stack (m.sp - 1)
  if tagType locative.tag ≠ typeLocative then throw (spareExceptions locative)
  let (vma, scratch) ← m.memoryRead fuel .dataRead locative.data
  if objectEqP m.top scratch then
    return ((m.write vma (m.operand op2)).pop 1).setTop objectT
  return (m.pop 1).setTop objectNIL

/-! ### Allocation -/

/-- The cache is found by the one function and stored by the other. -/
def allocateBlock (cache : Machine → AllocationCache)
    (store : Machine → AllocationCache → Machine) : Run Machine := do
  let size := m.operand op2
  if typeFixnumP size.tag = false then throw .error
  let c := cache m
  if objectEqP c.area m.top = false ∨ c.length < size.data then throw .instructionException
  let m := m.setTop c.address.cdrNext
  let m := { m with
    bar := Function.update m.bar 1 c.address
    control :=
      if readControlTrapMode m.control < 1 then writeControlTrapMode m.control 1 else m.control }
  return store m
    { c with
      length := c.length - size.data
      address := ⟨c.address.tag, c.address.data + size.data⟩ }

def allocateListBlock : Run Machine :=
  m.allocateBlock op2 listCache fun m cache => { m with listCache := cache }

def allocateStructureBlock : Run Machine :=
  m.allocateBlock op2 structureCache fun m cache => { m with structureCache := cache }

end Machine

/-! ### The ALU -/

namespace Alu

variable (a : Alu) (op1 op2 : Integer)

def aluFunctionBoolean : Integer :=
  match ldb 4 10 a.aluAndRotateControl with
  | 0 => 0
  | 1 => op1 &&& op2
  | 2 => ~~~op1 &&& op2
  | 3 => op2
  | 4 => op1 &&& ~~~op2
  | 5 => op1
  | 6 => op1 ^^^ op2
  | 7 => op1 ||| op2
  | 8 => ~~~(op1 ||| op2)
  | 9 => ~~~(op1 ^^^ op2)
  | 10 => ~~~op1
  | 11 => ~~~op1 ||| op2
  | 12 => ~~~op2
  | 13 => op1 ||| ~~~op2
  | 14 => ~~~(op1 &&& op2)
  | _ => -1

/-- The background of a byte operation; the last one is not there. -/
def background : Option Integer :=
  match ldb 2 10 a.aluAndRotateControl with
  | 0 => some op1
  | 1 => some a.rotateLatch
  | 2 => some 0
  | _ => none

def aluFunctionByte : Option (Integer × Alu) :=
  (a.background op1).map fun background =>
    let left := op2 <<< a.byteRotate.toNat
    let right := op2 >>> ((32 - a.byteRotate.toNat) % 32)
    let ones : Integer := ~~~((-2 : Integer) <<< a.byteSize.toNat)
    let rotated := if ldb 1 13 a.aluAndRotateControl = 0 then left else right
    let mask := if ldb 1 13 a.aluAndRotateControl = 0 then ones <<< a.byteRotate.toNat else ones
    let latch := if ldb 1 12 a.aluAndRotateControl = 0 then a.rotateLatch else left ||| right
    (rotated &&& mask ||| background &&& ~~~mask, { a with rotateLatch := latch })

/-- The cases for the second operand fall through to the last of them; the operands are not
signed. -/
def aluFunctionAdder : Integer × Alu :=
  let op2 := if ldb 2 11 a.aluAndRotateControl = 0 then op2 else -1
  let sum := op1 + op2 + .ofNat 32 (ldb 1 10 a.aluAndRotateControl)
  (sum, { a with
    aluOverflow := decide (sum < op1)
    aluBorrow := decide (op1 < op2)
    aluLessThan := decide (op1 < op2) })

/-- `(*(ps->AluOp))(ps->AluAndRotateControl, op1, op2)`. -/
def apply : Option (Integer × Alu) :=
  match a.aluOp with
  | .boolean => some (a.aluFunctionBoolean op1 op2, a)
  | .byte => a.aluFunctionByte op1 op2
  | .adder => some (a.aluFunctionAdder op1 op2)
  | .multiplyDivide => none

end Alu

def Machine.aluInstruction (m : Machine) (op2 : Operand) : Run Machine := do
  if binaryTypeFixnumP (m.operand op2).tag m.top.tag = false then throw (m.binaryExceptions op2)
  match { m.alu with aluOverflow := false }.apply m.top.data (m.operand op2).data with
  | none => throw .fails
  | some (result, alu) =>
      if alu.aluOverflow then throw .instructionException
      return { m with alu := alu }.setTop ⟨m.top.tag, result⟩

end Ivory.Execute
