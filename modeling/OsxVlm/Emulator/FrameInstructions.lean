import OsxVlm.Emulator.Machine

/-!
# Bindings and returns with cleanup

A return closes the catch blocks of its frame and undoes its bindings before it leaves it.
It stops at a catch block that is an unwind-protect.
-/

namespace Ivory.Execute

def readControlCleanupCatch (c : Integer) : Nat := ldb 1 26 c
def readControlCleanupBindings (c : Integer) : Nat := ldb 1 25 c
def readControlTrapOnExit (c : Integer) : Nat := ldb 1 24 c

def writeControlExtraArgument (c : Integer) (x : Int) : Integer := dpb x 1 8 c
def writeControlCleanupCatch (c : Integer) (x : Int) : Integer := dpb x 1 26 c
def writeControlCleanupBindings (c : Integer) (x : Int) : Integer := dpb x 1 25 c

/-- `ldb(1, n, tag)`. -/
def tagBit (n : Nat) (tag : Tag) : Nat := ldb 1 n (tag.setWidth 32)

namespace Machine

variable (m : Machine) (op2 : Operand) (fuel : Nat)

def withCpu (c : Cpu) : Machine :=
  m.withProcessor { m.toProcessorState with toCpu := c }

/-- `StackCacheUnderflowCheck`. -/
def underflowCheck : Machine :=
  if m.fp < 0 then
    m.withProcessor { m.toProcessorState with toProcessor := m.stackCacheScrollDown }
  else m

/-! ### Bindings -/

/-- `Unbind`; there is no result where the frame has no bindings. -/
def unbind : Run (Option Machine) := do
  if readControlCleanupBindings m.control = 0 then return none
  let bsp := m.bindingStackPointer
  let (_, old) ← m.memoryRead fuel .bindRead bsp
  let (_, loc) ← m.memoryRead fuel .bindRead (bsp - 1)
  let m ← m.storeContents fuel .bindWrite loc.data old
  return some { m with
    bindingStackPointer := bsp - 2
    control := writeControlCleanupBindings m.control (tagBit 6 loc.tag)
    preemptRegister :=
      if ldb 1 1 m.preemptRegister = 0 then m.preemptRegister else m.preemptRegister ||| 1 }

/-- `Unbind`, or an illegal operand. -/
def unbindOne : Run Machine := do
  match ← m.unbind fuel with
  | some m => return m
  | none => throw .error

def unbindTimes : Nat → Machine → Run Machine
  | 0, m => return m
  | n + 1, m => do unbindTimes n (← m.unbindOne fuel)

/-- Bindings are undone as long as the binding stack is longer than `limit` says, which is read
again each time. -/
def unbindTo (limit : Machine → Integer) : Nat → Machine → Run Machine
  | 0, _ => ExceptT.mk none
  | rounds + 1, m =>
      if limit m < m.bindingStackPointer then do
        unbindTo limit rounds (← m.unbindOne fuel)
      else return m

/-- The bindings of the frame are undone. -/
def unbindFrame : Nat → Machine → Run Machine
  | 0, _ => ExceptT.mk none
  | rounds + 1, m =>
      if readControlCleanupBindings m.control ≠ 0 then do
        unbindFrame rounds (← m.unbindOne fuel)
      else return m

/-- The binding of the location in the top of the stack is pushed on the binding stack. -/
def pushBinding : Run Machine := do
  let m := m.pop 1
  let loc := m.stack (m.sp + 1)
  if m.bindingStackLimit ≤ m.bindingStackPointer ∨ m.deepBoundP = true then throw .error
  let (_, scratch) ← m.memoryRead fuel .bindRead loc.data
  let cleanup : Tag := .ofNat 8 (readControlCleanupBindings m.control)
  let m := m.write (m.bindingStackPointer + 1) ⟨loc.tag ||| cleanup <<< 6, loc.data⟩
  return m.write (m.bindingStackPointer + 2) scratch

/-- The operand is read after the binding was pushed. -/
def bindLocativeToValue : Run Machine := do
  let loc := m.top
  if tagType loc.tag ≠ typeLocative then throw (spareExceptions loc)
  let m ← m.pushBinding fuel
  let m ← m.storeContents fuel .bindWrite loc.data (m.operand op2)
  return { m with
    control := writeControlCleanupBindings m.control 1
    bindingStackPointer := m.bindingStackPointer + 2 }

def unbindN : Run Machine := do
  let count := m.operand op2
  if typeFixnumP count.tag = false ∨ m.deepBoundP = true then throw .error
  unbindTimes fuel count.data.toNat m

def restoreBindingStack : Run Machine := do
  if tagType (m.operand op2).tag ≠ typeLocative then throw (spareExceptions (m.operand op2))
  if m.deepBoundP = true then throw .error
  unbindTo fuel (fun m => (m.operand op2).data) fuel m

/-! ### Catch blocks -/

/-- A word of the catch block. -/
def catchBlock (i : Int) : LispObj :=
  m.stack ((m.catchBlockPointer.data - m.stackCacheBase).toNat + i)

/-- `HandleUnwindProtect`, up to the entry of its handler. -/
def handleUnwindProtect : Run Machine := do
  if m.bindingStackPointer ≠ (m.catchBlock 1).data ∧ m.deepBoundP = true then throw .error
  let _ ← unbindTo fuel (fun m => (m.catchBlock 1).data) fuel m
  throw .unwindProtect

def closeCatchBlocks : Nat → Machine → Run Machine
  | 0, _ => ExceptT.mk none
  | rounds + 1, m =>
      if readControlCleanupCatch m.control = 0 then return m
      else if tagBit 6 (m.catchBlock 1).tag ≠ 0 then m.handleUnwindProtect fuel
      else
        let previous := m.catchBlock 2
        let control := writeControlExtraArgument m.control (tagBit 7 previous.tag)
        closeCatchBlocks rounds { m with
          control := writeControlCleanupCatch control (tagBit 6 previous.tag)
          catchBlockPointer := previous.cdrNext }

/-- What a return does before it leaves the frame. -/
def cleanup : Run Machine := do
  if readControlCleanupBits m.control = 0 then return m
  let m ← closeCatchBlocks fuel fuel m
  if readControlCleanupBindings m.control ≠ 0 ∧ m.deepBoundP = true then throw .error
  let m ← unbindFrame fuel fuel m
  if readControlTrapOnExit m.control ≠ 0 then throw .error
  return m

/-! ### Returns -/

/-- The frame is left for its caller, whose control register and frame size were read before. -/
def leaveFrame (pc : LispObj) (framesize : Nat) (control : Integer) : Machine :=
  let fp := m.fp - framesize
  { m with
    pc := pc
    continuation := m.stack m.fp
    sp := m.fp - 1
    fp := fp
    lp := fp + readControlArgumentSize control
    control := control }

/-- The values that were returned are left for the caller. -/
def leaveValues (disp : ValueDisposition) (count : Integer) (valueblock : Int) : Machine :=
  match disp with
  | .effect => m
  | .value =>
      if 0 < count.toInt then m.withCpu (m.toCpu.pushObject (m.stack valueblock))
      else m.withCpu (m.toCpu.push objectNIL)
  | .multiple =>
      m.withCpu ((Cpu.pushValues LispObj.cdrNext count.toNat valueblock m.toCpu).pushFixnum count)
  | .return => m.withCpu (Cpu.pushValues id count.toNat valueblock m.toCpu)

/-- `retryReturnMultiple`. -/
def returnValues (count : Integer) : Nat → Machine → Run Machine
  | 0, _ => ExceptT.mk none
  | rounds + 1, m => do
      let disp := readControlValueDisposition m.control
      let framesize := readControlCallerFrameSize m.control
      let control := (m.stack (m.fp + 1)).data
      let valueblock := m.sp - (count.toInt - 1)
      if (disp = .multiple ∨ disp = .return) ∧ 112 < framesize + count.toInt + 1 then throw .error
      let m ← m.cleanup fuel
      let pc := if disp = .return then m.pc else m.continuation
      let m := ((m.leaveFrame pc framesize control).leaveValues disp count valueblock)
      if disp = .return then returnValues count rounds m.underflowCheck
      else return m.underflowCheck

def returnMultiple : Run Machine := do
  let count := m.operand op2
  if typeFixnumP count.tag = false then throw .error
  returnValues fuel count.data fuel m

/-- The values are left as for a caller that returns them too. -/
def returnKludge : Run Machine := do
  let count := m.operand op2
  if typeFixnumP count.tag = false then throw .error
  let framesize := readControlCallerFrameSize m.control
  let control := (m.stack (m.fp + 1)).data
  let valueblock := m.sp - (count.data.toInt - 1)
  if 112 < framesize + count.data.toInt + 1 then throw .error
  let m ← m.cleanup fuel
  let m := (m.leaveFrame m.continuation framesize control).leaveValues .return count.data valueblock
  return m.underflowCheck

end Machine

end Ivory.Execute
