import OsxVlm.Emulator.Arithmetic
import OsxVlm.Emulator.BignumSteps
import OsxVlm.Emulator.Lists

/-!
# Instructions on the stack

Predicates, logical instructions, shifts, and instructions on tags and pointers: they read
their operand and the top of the stack and leave a result there.  Some of them have code of
their own for an immediate operand.
-/

namespace Ivory.Execute

namespace Stack

variable (s : Stack)

/-- `SetObject`. -/
def setObject (o : LispObj) : Stack := s.set s.sp o.cdrNext

/-- `SetPredicate`. -/
def setPredicate (v : Bool) : Stack := s.set s.sp (if v then objectT else objectNIL)

/-- `PushPredicate`. -/
def pushPredicate (v : Bool) : Stack := s.push (if v then objectT else objectNIL)

end Stack

section Bodies

variable (leave : Stack → Bool → Stack) (s : Stack) (op2 : Operand) (operand : Integer)

/-! ### Predicates -/

/-- The value of a test is left by `SetPredicate`, or by `PushPredicate` in the instructions
that do not pop. -/
def eq : Outcome Stack := .next (leave s (objectEqP (s.operand op2) s.top))

/-- The code for an immediate operand of all four equality predicates. -/
def fixnumEqual : Outcome Stack :=
  .next (leave s (typeFixnumP s.top.tag && s.top.data = operand))

def eqImmediate : Outcome Stack := fixnumEqual leave s operand
def eqlImmediate : Outcome Stack := fixnumEqual leave s operand
def equalNumberImmediate : Outcome Stack := fixnumEqual leave s operand

def eql : Outcome Stack :=
  if tagType s.top.tag ≠ tagType (s.operand op2).tag then .next (leave s false)
  else if s.top.data = (s.operand op2).data then .next (leave s true)
  else if eqlKey s.top then .instructionException s
  else .next (leave s false)

/-- The predicates of two fixnums. -/
def compare (test : Integer → Integer → Bool) : Outcome Stack :=
  if binaryTypeFixnumP (s.operand op2).tag s.top.tag then
    .next (leave s (test s.top.data (s.operand op2).data))
  else binaryTypeFixnumExceptions s op2

def equalNumber : Outcome Stack := compare leave s op2 fun x y => y = x
def greaterp : Outcome Stack := compare leave s op2 fun x y => y.toInt < x.toInt
def lessp : Outcome Stack := compare leave s op2 fun x y => x.toInt < y.toInt
def logtest : Outcome Stack := compare leave s op2 fun x y => x &&& y ≠ 0

def unsignedLessp : Outcome Stack := .next (leave s (s.top.data < (s.operand op2).data))
def unsignedLesspImmediate : Outcome Stack := .next (leave s (s.top.data < operand))

/-- `Op2SpareExceptions`. -/
def op2SpareExceptions : Outcome Stack :=
  if typeSpareP (s.operand op2).tag then .instructionException s else .illegalOperand s

/-- `Op2ListExceptions`. -/
def op2ListExceptions : Outcome Stack :=
  if tagType (s.operand op2).tag = typeListInstance then .instructionException s
  else op2SpareExceptions s op2

def endp : Outcome Stack :=
  let type := tagType (s.operand op2).tag
  if type = typeList ∨ type = typeListInstance then .next (s.push objectNIL)
  else if type = typeNIL then .next (s.push objectT)
  else op2ListExceptions s op2

def endpImmediate : Outcome Stack := .illegalOperand s

/-- The predicates of one fixnum. -/
def testSign (test : Integer → Bool) : Outcome Stack :=
  if typeFixnumP (s.operand op2).tag then .next (s.pushPredicate (test (s.operand op2).data))
  else op2FixnumExceptions s op2

def plusp : Outcome Stack := testSign s op2 fun n => 0 < n.toInt
def minusp : Outcome Stack := testSign s op2 fun n => n.toInt < 0
def zerop : Outcome Stack := testSign s op2 fun n => n = 0

def pluspImmediate : Outcome Stack := .next (s.pushPredicate (0 < operand.toInt))
def minuspImmediate : Outcome Stack := .next (s.pushPredicate (operand.toInt < 0))
def zeropImmediate : Outcome Stack := .next (s.pushPredicate (operand = 0))

/-! ### Logical instructions and shifts -/

/-- The larger or the smaller of two fixnums. -/
def choose (better : Integer → Integer → Bool) : Outcome Stack :=
  if binaryTypeFixnumP (s.operand op2).tag s.top.tag then
    if better (s.operand op2).data s.top.data then .next (s.setObject (s.operand op2)) else .next s
  else binaryTypeFixnumExceptions s op2

def max : Outcome Stack := choose s op2 fun y x => x.toInt < y.toInt
def min : Outcome Stack := choose s op2 fun y x => y.toInt < x.toInt

def logical (f : Integer → Integer → Integer) : Outcome Stack :=
  if binaryTypeFixnumP (s.operand op2).tag s.top.tag then
    .next (s.setData (f s.top.data (s.operand op2).data))
  else binaryTypeFixnumExceptions s op2

def logand : Outcome Stack := logical s op2 fun x y => x &&& y
def logior : Outcome Stack := logical s op2 fun x y => x ||| y
def logxor : Outcome Stack := logical s op2 fun x y => x ^^^ y

def lsh : Outcome Stack :=
  let x := s.top.data
  let places := (s.operand op2).data
  if binaryTypeFixnumP (s.operand op2).tag s.top.tag then
    if places = 0 then .next s
    else if 31 < places.toInt ∨ places.toInt < -31 then .next (s.setFixnum 0)
    else if 0 < places.toInt then .next (s.setFixnum (x <<< places.toNat))
    else .next (s.setFixnum (x >>> (-places).toNat))
  else .illegalOperand s

/-- An operation on two fixnums that takes nothing else. -/
def unchecked (f : Integer → Integer → Integer) : Outcome Stack :=
  if binaryTypeFixnumP (s.operand op2).tag s.top.tag then
    .next (s.setData (f s.top.data (s.operand op2).data))
  else .illegalOperand s

def uncheckedImmediate (f : Integer → Integer → Integer) : Outcome Stack :=
  if typeFixnumP s.top.tag then .next (s.setData (f s.top.data operand)) else .illegalOperand s

def rot : Outcome Stack :=
  unchecked s op2 fun x y =>
    let places := (y &&& 0x1F).toNat
    if places = 0 then x else x <<< places ||| x >>> (32 - places)

/-- `32BitPlus`. -/
def plus32Bit : Outcome Stack := unchecked s op2 fun x y => x + y

/-- `32BitDifference`. -/
def difference32Bit : Outcome Stack := unchecked s op2 fun x y => x - y

def plus32BitImmediate : Outcome Stack := uncheckedImmediate s operand fun x y => x + y
def difference32BitImmediate : Outcome Stack := uncheckedImmediate s operand fun x y => x - y

/-! ### Tags and pointers -/

def pointerPlus : Outcome Stack := .next (s.setData (s.top.data + (s.operand op2).data))
def pointerPlusImmediate : Outcome Stack := .next (s.setData (s.top.data + operand))

def pointerDifference : Outcome Stack :=
  .next (s.setFixnum (s.top.data - (s.operand op2).data))

def pointerDifferenceImmediate : Outcome Stack := .next (s.setFixnum (s.top.data - operand))

def tag : Outcome Stack := .next (s.pushFixnum ((s.operand op2).tag.setWidth 32))
def tagImmediate : Outcome Stack := .next (s.pushFixnum (typeFixnum.setWidth 32))

def setTag : Outcome Stack :=
  if tagType (s.operand op2).tag = typeFixnum then
    .next (s.set s.sp ⟨(s.operand op2).data.setWidth 8, s.top.data⟩)
  else .instructionException s

def setTagImmediate : Outcome Stack := .next (s.set s.sp ⟨operand.setWidth 8, s.top.data⟩)

/-- `PushImmediate`. -/
def pushImmediate : Outcome Stack := .next (s.pushFixnum operand)

/-- `PushPop`, which leaves the stack as it is. -/
def pushPop : Outcome Stack := .next s

end Bodies

end Ivory.Execute
