import OsxVlm.Emulator.Operands

/-!
# Fixnum arithmetic of the emulator

Integers of the host wrap, and its shifts take their counts modulo 32.
-/

namespace Ivory.Execute

def fixnumMin : Integer := 0x80000000
def fixnumMax : Integer := 0x7FFFFFFF

section Bodies

variable (s : Stack) (op2 : Operand)

def add : Outcome Stack :=
  let x := s.top.data
  let y := (s.operand op2).data
  let i := x + y
  if binaryTypeFixnumP (s.operand op2).tag s.top.tag ∧
      (x.toInt ≤ i.toInt ↔ 0 ≤ y.toInt) then
    .next (s.setData i)
  else binaryTypeFixnumExceptions s op2

def sub : Outcome Stack :=
  let x := s.top.data
  let y := (s.operand op2).data
  let i := x - y
  if binaryTypeFixnumP (s.operand op2).tag s.top.tag ∧
      (i.toInt ≤ x.toInt ↔ 0 ≤ y.toInt) then
    .next (s.setData i)
  else binaryTypeFixnumExceptions s op2

/-- The immediate form has its own code; its operand is not signed. -/
def unaryMinusImmediate (operand : BitVec 8) : Outcome Stack :=
  .next (s.pushFixnum (-operand.setWidth 32))

def unaryMinus : Outcome Stack :=
  let y := (s.operand op2).data
  if typeFixnumP (s.operand op2).tag ∧ y ≠ fixnumMin then .next (s.pushFixnum (-y))
  else op2FixnumExceptions s op2

/-- There is no immediate form. -/
def increment (place : Int) : Outcome Stack :=
  let o := s.words place
  if typeFixnumP o.tag ∧ o.data ≠ fixnumMax then .next (s.set place ⟨o.tag, o.data + 1⟩)
  else op2FixnumExceptions s (.word place)

def decrement (place : Int) : Outcome Stack :=
  let o := s.words place
  if typeFixnumP o.tag ∧ o.data ≠ fixnumMin then .next (s.set place ⟨o.tag, o.data - 1⟩)
  else op2FixnumExceptions s (.word place)

def multiply : Outcome Stack :=
  let value : BitVec 64 := s.top.data.signExtend 64 * (s.operand op2).data.signExtend 64
  if binaryTypeFixnumP (s.operand op2).tag s.top.tag ∧
      -2 ^ 31 ≤ value.toInt ∧ value.toInt ≤ 2 ^ 31 - 1 then
    .next (s.setData (value.setWidth 32))
  else binaryTypeFixnumExceptions s op2

/-- The checks and the division that the division instructions begin with. -/
def divide (deliver : Integer → Integer → Outcome Stack) : Outcome Stack :=
  let x := s.top.data
  let y := (s.operand op2).data
  if binaryTypeFixnumP (s.operand op2).tag s.top.tag then
    if y = 0 then .illegalOperand s
    else if x = fixnumMin ∧ y = -1 then .instructionException s
    else deliver (x.sdiv y) (x - y * x.sdiv y)
  else binaryTypeFixnumExceptions s op2

/-- The quotient takes the place of the dividend and the remainder goes on top of it. -/
def leaveQuotient (quotient remainder : Integer) : Outcome Stack :=
  .next ((s.setFixnum quotient).pushFixnum remainder)

def quotient : Outcome Stack := divide s op2 fun quotient _ => .next (s.setData quotient)

def floor : Outcome Stack :=
  divide s op2 fun quotient remainder =>
    if remainder = 0 then leaveQuotient s quotient remainder
    else if ¬(0 ≤ remainder.toInt ↔ 0 ≤ (s.operand op2).data.toInt) then
      leaveQuotient s (quotient - 1) (remainder + (s.operand op2).data)
    else leaveQuotient s quotient remainder

def ceiling : Outcome Stack :=
  divide s op2 fun quotient remainder =>
    if remainder = 0 then leaveQuotient s quotient remainder
    else if 0 ≤ remainder.toInt ↔ 0 ≤ (s.operand op2).data.toInt then
      leaveQuotient s (quotient + 1) (remainder - (s.operand op2).data)
    else leaveQuotient s quotient remainder

def truncate : Outcome Stack := divide s op2 (leaveQuotient s)

/-- The test for rounding upwards. -/
def RoundsUp (divisor quotient remainder : Integer) : Prop :=
  let temp := divisor - remainder - remainder
  if temp = 0 then quotient &&& 1 ≠ 0
  else if 0 < divisor.toInt then temp.toInt < 0
  else 0 < temp.toInt

instance (divisor quotient remainder : Integer) :
    Decidable (RoundsUp divisor quotient remainder) := by
  unfold RoundsUp
  infer_instance

/-- The divisor is read again after the quotient is stored. -/
def round : Outcome Stack :=
  divide s op2 fun quotient remainder =>
    if RoundsUp (s.operand op2).data quotient remainder then
      let s' := s.setFixnum (quotient + 1)
      .next (s'.pushFixnum (remainder - (s'.operand op2).data))
    else leaveQuotient s quotient remainder

def rationalQuotient : Outcome Stack :=
  divide s op2 fun quotient remainder =>
    if remainder = 0 then .next (s.setData quotient) else binaryTypeFixnumExceptions s op2

def ash : Outcome Stack :=
  let x := s.top.data
  let places := (s.operand op2).data
  if binaryTypeFixnumP (s.operand op2).tag s.top.tag then
    if places = 0 ∨ x = 0 then .next s
    else if 0 < places.toInt then
      let i := x <<< (places.toNat % 32)
      if (x.toInt < 0 ↔ i.toInt < 0) ∧ i ≠ 0 then .next (s.setFixnum i)
      else .instructionException s
    else .next (s.setFixnum (x.sshiftRight ((-places).toNat % 32)))
  else binaryTypeFixnumExceptions s op2

end Bodies

/-- The instructions that take a dividend, or another first operand, from the stack. -/
inductive Binary
  | add
  | sub
  | multiply
  | quotient
  | floor
  | ceiling
  | truncate
  | round
  | rationalQuotient
  | ash
  deriving DecidableEq

def Binary.execute : Binary → Stack → Operand → Outcome Stack
  | .add => Execute.add
  | .sub => Execute.sub
  | .multiply => Execute.multiply
  | .quotient => Execute.quotient
  | .floor => Execute.floor
  | .ceiling => Execute.ceiling
  | .truncate => Execute.truncate
  | .round => Execute.round
  | .rationalQuotient => Execute.rationalQuotient
  | .ash => Execute.ash

end Ivory.Execute
