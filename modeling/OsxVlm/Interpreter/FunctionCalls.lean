import Mathlib
import OsxVlm.Emulator.Calls

/-!
# Function calls of the VLM interpreter

The macros keep the stack registers as addresses of eight-byte words in the stack
cache.  The control register is a longword that is loaded into a register of 64
bits, worked on there, and stored again.  Where an instruction would trap, move the
stack cache or clean up a frame there is no result.
-/

namespace Interpreter

open Ivory

abbrev Quad := BitVec 64

/-- A program counter: the address of a word, and below it which half. -/
abbrev PC := BitVec 33

def typeInstance : Tag := 0x10
def typeGenericFunction : Tag := 0x1D

def genericDispatchTrapVector : Integer := 0xA4C
def messageDispatchTrapVector : Integer := 0xA4E

/-- What the instruction cache holds about the next instruction. -/
structure CacheLine where
  nextpcdata : PC
  nextcp : Quad

structure Processor where
  /-- The words of the stack, by their address in the stack cache. -/
  stack : Quad → LispObj
  iSP : Quad
  iFP : Quad
  iLP : Quad
  iPC : PC
  iCP : Quad
  control : Integer
  continuation : LispObj
  continuationcp : Quad
  stackcachedata : Quad
  stackcachebasevma : Quad
  scovlimit : Integer
  cslimit : Integer
  csextralimit : Integer
  interruptreg : Integer
  please_stop : Quad
  stop_interpreter : Quad

def pcToContinuation (pc : PC) : LispObj :=
  ⟨(pc &&& 1).setWidth 8 + typeEvenPC, (pc >>> 1).setWidth 32⟩

def continuationToPC (c : LispObj) : PC :=
  c.data.setWidth 33 + (c.data.setWidth 33 + (c.tag &&& 1).setWidth 33)

/-! ### The control register -/

def crArgumentSize : Quad := 0xFF
def crExtraArgument : Quad := 1 <<< 8
def crCallStarted : Quad := 1 <<< 22
def crCleanupBits : Quad := 7 * (1 <<< 24)
def crTracePending : Quad := 1 <<< 27
def crCallTrace : Quad := 1 <<< 28

/-- What `finish-call-guts` keeps of the control register. -/
def fccrmask : Quad := ~~~0x074FFFFF

namespace Processor

def getControlRegister (p : Processor) : Quad := p.control.signExtend 64

def setControlRegister (p : Processor) (cr : Quad) : Processor :=
  { p with control := cr.setWidth 32 }

/-! ### Pushing -/

def stackWrite (p : Processor) (a : Quad) (o : LispObj) : Processor :=
  { p with stack := Function.update p.stack a o }

def stackPushWithCdr (p : Processor) (o : LispObj) : Processor :=
  { p.stackWrite (p.iSP + 8) o with iSP := p.iSP + 8 }

/-- `stack-push2`, which sets the cdr code to next. -/
def stackPush2 (p : Processor) (o : LispObj) : Processor := p.stackPushWithCdr o.cdrNext

/-! ### Starting a call -/

def pushFrame (p : Processor) (extra : Option LispObj) : Processor :=
  let cr := p.getControlRegister
  let p' := { p with iSP := p.iSP + 16 }
  let p' := p'.stackWrite (p'.iSP - 8) ⟨p.continuation.tag ||| 0xC0, p.continuation.data⟩
  let p' := p'.stackWrite p'.iSP ⟨typeFixnum + 0xC0, cr.setWidth 32⟩
  match extra with
  | some o => (p'.stackPush2 o).setControlRegister (cr ||| crCallStarted ||| crExtraArgument)
  | none => p'.setControlRegister ((cr ||| crCallStarted) &&& ~~~crExtraArgument)

/-- The end of `start-call-dispatch`: the frame words of the call, the function's PC as
continuation, and the extra argument if its tag is not zero. -/
def startCall (p : Processor) (line : CacheLine) (function extra : LispObj) : Processor :=
  let p' : Processor :=
    { p.pushFrame none with
      iPC := line.nextpcdata
      iCP := line.nextcp
      continuation := function
      continuationcp := 0 }
  if extra.tag ≠ 0 then
    (p'.stackPush2 extra).setControlRegister (p'.getControlRegister ||| crExtraArgument)
  else p'

/-- The function's PC and the extra argument that `start-call-dispatch` finds for a
function object; a symbol or a closure that holds no compiled function is dispatched
on again. -/
def startCallDispatch (memoryRead : Integer → LispObj) (trapvecbase : Integer) :
    Nat → LispObj → Option (LispObj × LispObj)
  | 0, _ => none
  | fuel + 1, function =>
      let call (data : Integer) (extra : LispObj) := some (⟨typeEvenPC, data⟩, extra)
      let indirect (address : Integer) (extra : LispObj) :=
        let function' := memoryRead address
        if tagType function'.tag = typeCompiledFunction then call function'.data extra
        else startCallDispatch memoryRead trapvecbase fuel function'
      if tagType function.tag = typeCompiledFunction then call function.data ⟨0, 0⟩
      else if tagType function.tag = typeGenericFunction then
        call (trapvecbase + genericDispatchTrapVector) function
      else if tagType function.tag = typeInstance then
        call (trapvecbase + messageDispatchTrapVector) function
      else if tagType function.tag = typeSymbol then indirect (function.data + 2) ⟨0, 0⟩
      else if tagType function.tag = typeLexicalClosure then
        indirect (function.data + 1) (memoryRead function.data)
      else
        let pc := memoryRead
          (trapvecbase + interpreterFunctionVector + (tagType function.tag).setWidth 32)
        if tagType pc.tag = typeEvenPC then call pc.data function else none

/-! ### Finishing it -/

def cachemargin : Quad := 128

/-- `stack-cache-overflow-check` with no words to push. -/
def stackCacheOverflow (p : Processor) : Bool :=
  let newSCA := cachemargin <<< 3 + p.iSP
  let oldSCA := p.scovlimit.signExtend 64 <<< 3 + p.stackcachedata
  !newSCA.sle oldSCA

def scaToVMA (p : Processor) (sca : Quad) : Quad :=
  (sca - p.stackcachedata) >>> 3 + p.stackcachebasevma

/-- `stack-overflow-check` of a control register. -/
def stackOverflow (p : Processor) (cr : Quad) : Bool :=
  let limit := if cr >>> 30 ≠ 0 then p.csextralimit else p.cslimit
  !(p.scaToVMA p.iSP).slt (limit.setWidth 64)

/-- `nargs` is the number of arguments, times eight, with one for the frame and one
for an argument that is applied; `opcode` holds the bit for apply. -/
def finishCallGuts (p : Processor) (line : CacheLine) (nargs disp opcode : Quad) :
    Option Processor :=
  let applyp := opcode >>> 7 &&& 8
  if p.stackCacheOverflow then none
  else
    let cr := p.getControlRegister
    let iLP := p.iSP + 8 - applyp
    let nfp := p.iSP - nargs - (cr >>> 5 &&& 8)
    let argumentSize := (iLP - nfp) >>> 3
    let callerFrameSize := (nfp - p.iFP) >>> 3
    let new := applyp <<< 14 ||| (callerFrameSize <<< 9 ||| (disp <<< 18 ||| argumentSize))
    let cr := (cr &&& fccrmask) ||| new
    let cr := cr ||| (crCallTrace &&& cr) >>> 1
    let p' : Processor :=
      { p.setControlRegister cr with
        iFP := nfp
        iLP := iLP
        iPC := continuationToPC p.continuation
        continuation := pcToContinuation line.nextpcdata
        continuationcp := line.nextcp }
    if p'.stackOverflow cr then none else some p'

/-- `DoLocateLocals` -/
def locateLocals (p : Processor) : Processor :=
  let cr := p.getControlRegister
  let size := (p.iSP - p.iFP) >>> 3
  let correctedSize := (cr &&& crArgumentSize) - 2
  let p' := { p with iLP := p.iSP }.stackPushWithCdr ⟨typeFixnum, correctedSize.setWidth 32⟩
  p'.setControlRegister ((cr &&& ~~~crArgumentSize) ||| size)

/-! ### Returning -/

/-- The caller's processor, and where the cache is looked into next. -/
def abandonFrameSimple (p : Processor) (restorepc : Bool) : Option (Processor × Quad) :=
  let cr := p.getControlRegister
  if cr &&& crCleanupBits ≠ 0 then none
  else
    let savedContinuation := (p.stack p.iFP).cdrNext
    let savedControl := (p.stack (p.iFP + 8)).data.signExtend 64
    let cr' := (crTracePending &&& cr) ||| savedControl
    let iFP := p.iFP - (cr >>> 9 &&& 0xFF) <<< 3
    let p' : Processor :=
      { p.setControlRegister cr' with
        iPC := if restorepc then continuationToPC p.continuation else p.iPC
        continuation := savedContinuation
        continuationcp := 0
        iSP := p.iFP - 8
        iFP := iFP
        iLP := (cr' &&& 0xFF) <<< 3 + iFP
        stop_interpreter := p.please_stop ||| (p.interruptreg.signExtend 64 &&& 1) }
    some (p', if restorepc then p.continuationcp else p.iCP)

end Processor

end Interpreter
