import Mathlib

/-!
# Integer expressions of C

The types are those of a machine where an `int` has 32 bits and a `long` has 64.  A
value is kept as the 64 bits that its conversion to a `long` has; where the language
leaves the result of an operator undefined there is no value.
-/

namespace C

inductive CType where
  | uchar
  | ushort
  | int
  | uint
  | long
  | ulong
  deriving DecidableEq

namespace CType

def bits : CType → Nat
  | .uchar => 8
  | .ushort => 16
  | .int | .uint => 32
  | .long | .ulong => 64

def signed : CType → Bool
  | .int | .long => true
  | _ => false

/-- The conversion of a value to the type. -/
def convert : CType → BitVec 64 → BitVec 64
  | .uchar, x => (x.setWidth 8).setWidth 64
  | .ushort, x => (x.setWidth 16).setWidth 64
  | .int, x => (x.setWidth 32).signExtend 64
  | .uint, x => (x.setWidth 32).setWidth 64
  | .long, x => x
  | .ulong, x => x

def promote : CType → CType
  | .uchar | .ushort => .int
  | t => t

/-- The usual arithmetic conversions. -/
def usual (s t : CType) : CType :=
  if s = .ulong ∨ t = .ulong then .ulong
  else if s = .long ∨ t = .long then .long
  else if s = .uint ∨ t = .uint then .uint
  else .int

/-- No signed overflow. -/
def fits (t : CType) (n : Int) : Bool :=
  !t.signed || decide (-2 ^ (t.bits - 1) ≤ n ∧ n < 2 ^ (t.bits - 1))

@[simp] theorem usual_ulong_left (t : CType) : usual .ulong t = .ulong := by
  cases t <;> rfl

@[simp] theorem fits_ulong (n : Int) : fits .ulong n = true := rfl

@[simp] theorem convert_ulong (x : BitVec 64) : convert .ulong x = x := rfl

@[simp] theorem convert_long (x : BitVec 64) : convert .long x = x := rfl

/-- The numbers of an `int`. -/
theorem convert_int_of_toInt {x : BitVec 64} (hge : -2 ^ 31 ≤ x.toInt) (hlt : x.toInt < 2 ^ 31) :
    convert .int x = x := by
  have hlow : (x.setWidth 32).toInt = x.toInt := by
    rw [← BitVec.signExtend_eq_setWidth_of_le x (by decide),
      BitVec.toInt_signExtend_eq_toInt_bmod_of_le x (by decide)]
    exact Int.bmod_eq_of_le hge hlt
  rw [convert, BitVec.signExtend, hlow, BitVec.ofInt_toInt]

theorem convert_int_of_lt {x : BitVec 64} (h : x.toNat < 2 ^ 31) : convert .int x = x := by
  have hnumber : x.toInt = x.toNat := BitVec.toInt_eq_toNat_of_lt (by omega)
  apply convert_int_of_toInt <;> omega

end CType

structure Value where
  type : CType
  bits : BitVec 64

/-- The number that a value stands for. -/
def Value.number (x : Value) : Int :=
  if x.type.signed then x.bits.toInt else x.bits.toNat

inductive Arith where
  | add
  | sub
  | mul
  | and
  | or
  | xor
  deriving DecidableEq

namespace Arith

def onBits : Arith → BitVec 64 → BitVec 64 → BitVec 64
  | .add, x, y => x + y
  | .sub, x, y => x - y
  | .mul, x, y => x * y
  | .and, x, y => x &&& y
  | .or, x, y => x ||| y
  | .xor, x, y => x ^^^ y

/-- The exact result of an operator that may overflow. -/
def onNumbers : Arith → Int → Int → Int
  | .add, m, n => m + n
  | .sub, m, n => m - n
  | .mul, m, n => m * n
  | _, _, _ => 0

end Arith

inductive Relation where
  | eq
  | ne
  | lt
  | le
  | gt
  | ge
  deriving DecidableEq

def Relation.holds : Relation → Int → Int → Bool
  | .eq, m, n => m = n
  | .ne, m, n => m ≠ n
  | .lt, m, n => m < n
  | .le, m, n => m ≤ n
  | .gt, m, n => n < m
  | .ge, m, n => n ≤ m

/-- Expressions over variables of type `unsigned long`. -/
inductive Expr (V : Type) where
  | var (v : V)
  /-- An identifier that is not declared. -/
  | undeclared
  | literal (type : CType) (n : Int)
  | cast (type : CType) (e : Expr V)
  | not (e : Expr V)
  | arith (op : Arith) (a b : Expr V)
  | shl (a b : Expr V)
  | shr (a b : Expr V)
  | compare (r : Relation) (a b : Expr V)
  | cond (c a b : Expr V)
  /-- A function of two `unsigned long` to one. -/
  | call (f : BitVec 64 → BitVec 64 → BitVec 64) (a b : Expr V)

namespace Value

def cast (t : CType) (x : Value) : Value := ⟨t, t.convert x.bits⟩

def not (x : Value) : Value := ⟨x.type.promote, x.type.promote.convert (~~~x.bits)⟩

def arith (op : Arith) (x y : Value) : Option Value :=
  let t := x.type.usual y.type
  let x := x.cast t
  let y := y.cast t
  if t.fits (op.onNumbers x.number y.number) then some ⟨t, t.convert (op.onBits x.bits y.bits)⟩
  else none

/-- Shifts by the width of the type or more, and shifts that lose bits of a signed
value, are undefined. -/
def shl (x y : Value) : Option Value :=
  let t := x.type.promote
  if 0 ≤ y.number ∧ y.number < t.bits ∧
      (t.signed = true → 0 ≤ x.number ∧ t.fits (x.number * 2 ^ y.number.toNat)) then
    some ⟨t, t.convert (x.bits <<< y.number.toNat)⟩
  else none

def shr (x y : Value) : Option Value :=
  let t := x.type.promote
  if 0 ≤ y.number ∧ y.number < t.bits then
    some ⟨t, if t.signed then x.bits.sshiftRight y.number.toNat
      else t.convert (x.bits >>> y.number.toNat)⟩
  else none

def compare (r : Relation) (x y : Value) : Value :=
  let t := x.type.usual y.type
  ⟨.int, if r.holds (x.cast t).number (y.cast t).number then 1 else 0⟩

def cond (c x y : Value) : Value :=
  let t := x.type.usual y.type
  if c.bits = 0 then y.cast t else x.cast t

end Value

namespace Expr

variable {V : Type}

def eval (env : V → BitVec 64) : Expr V → Option Value
  | .var v => some ⟨.ulong, env v⟩
  | .undeclared => none
  | .literal t n => some (Value.cast t ⟨t, BitVec.ofInt 64 n⟩)
  | .cast t e => (e.eval env).map (Value.cast t)
  | .not e => (e.eval env).map Value.not
  | .arith op a b => (a.eval env).bind fun x => (b.eval env).bind fun y => x.arith op y
  | .shl a b => (a.eval env).bind fun x => (b.eval env).bind fun y => x.shl y
  | .shr a b => (a.eval env).bind fun x => (b.eval env).bind fun y => x.shr y
  | .compare r a b => (a.eval env).bind fun x => (b.eval env).map fun y => x.compare r y
  | .cond c a b => (c.eval env).bind fun x => (a.eval env).bind fun y =>
      (b.eval env).map fun z => x.cond y z
  | .call f a b => (a.eval env).bind fun x => (b.eval env).map fun y => ⟨.ulong, f x.bits y.bits⟩

/-- Every identifier is declared. -/
def declared : Expr V → Bool
  | .var _ | .literal _ _ => true
  | .undeclared => false
  | .cast _ e | .not e => e.declared
  | .arith _ a b | .shl a b | .shr a b | .compare _ a b | .call _ a b => a.declared && b.declared
  | .cond c a b => c.declared && a.declared && b.declared

end Expr

end C
