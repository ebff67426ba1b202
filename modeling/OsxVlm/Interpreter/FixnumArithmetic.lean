import OsxVlm.Emulator.ArithmeticExact
import OsxVlm.Interpreter.FunctionCalls

/-!
# Fixnum arithmetic of the interpreter

The instructions as they are translated for a host that is not an x86-64.  Overflow is seen
by the flag of a 32-bit operation, by a comparison with the wider result, or by the operand;
the divisions go through doubles, and casts of doubles to integers do not trap.
-/

namespace Interpreter.Arithmetic

open Ivory
open Execute (Stack Outcome Binary typeFixnumP leaveQuotient)

/-! ### Operands -/

inductive Operand
  | immediate (n : BitVec 8)
  | word (place : Int)

def Operand.signed (s : Stack) : Operand → LispObj
  | .immediate n => ⟨typeFixnum, n.signExtend 32⟩
  | .word place => s.words place

def Operand.unsigned (s : Stack) : Operand → LispObj
  | .immediate n => ⟨typeFixnum, n.setWidth 32⟩
  | .word place => s.words place

/-- Where `NumericException`, `instruction-exception` and the label `arithmeticexception` lead. -/
def exception (s : Stack) : Outcome Stack := .instructionException s

/-- `s32`, sign-extended. -/
def s32 (n : Quad) : Quad := (n.setWidth 32).signExtend 64

def low (n : Quad) : Integer := n.setWidth 32

/-- A type dispatch of one operand; `others` is what it does for other types. -/
def typeDispatch (o : LispObj) (body others : Outcome Stack) : Outcome Stack :=
  if typeFixnumP o.tag then body else others

/-- `binary-type-dispatch`. -/
def binaryTypeDispatch (o1 o2 : LispObj) (body others : Outcome Stack) : Outcome Stack :=
  if typeFixnumP o1.tag ∧ typeFixnumP o2.tag then body else others

/-! ### Sums and products -/

section Bodies

variable (others : Outcome Stack) (s : Stack)

/-- `CHECK_OFLO`, and the write of the result. -/
def checkOflo (oflo : Bool) (t5 : Quad) : Outcome Stack :=
  if oflo then exception s else .next (s.setFixnum (low t5))

/-- `simple-binary-arithmetic-operation`. -/
def simpleBinary (overflow : Integer → Integer → Bool) (result : Integer → Integer → Integer)
    (arg2 : LispObj) : Outcome Stack :=
  let t2 := s.top.data.signExtend 64
  let t4 := arg2.data.signExtend 64
  binaryTypeDispatch s.top arg2
    (checkOflo s (overflow (low t2) (low t4)) ((result (low t2) (low t4)).setWidth 64)) others

/-- `simple-binary-immediate-arithmetic-operation`: the result is computed in 64 bits. -/
def simpleImmediate (result : Quad → Quad → Quad) (arg2 : Quad) : Outcome Stack :=
  let t2 := s.top.data.signExtend 64
  typeDispatch s.top
    (let t3 := result t2 arg2
    if t3 = s32 t3 then .next (s.setFixnum (low t3)) else exception s)
    others

def doAdd : Operand → Outcome Stack
  | .immediate n => simpleImmediate others s (· + ·) (n.setWidth 64)
  | .word place => simpleBinary others s BitVec.saddOverflow (· + ·) (s.words place)

def doSub : Operand → Outcome Stack
  | .immediate n => simpleImmediate others s (· - ·) (n.setWidth 64)
  | .word place => simpleBinary others s BitVec.ssubOverflow (· - ·) (s.words place)

def doMultiply : Operand → Outcome Stack
  | .immediate n => simpleImmediate others s (· * ·) (n.signExtend 64)
  | .word place => simpleBinary others s BitVec.smulOverflow (· * ·) (s.words place)

def mostnegativefixnum : Quad := 0x80000000
def mostpositivefixnum : Quad := 0x7FFFFFFF

def doUnaryMinus : Operand → Outcome Stack
  | .immediate n => .next (s.pushFixnum (0 - low (n.setWidth 64)))
  | .word place =>
      let o := s.words place
      let arg6 := o.data.signExtend 64
      typeDispatch o
        (if low arg6 - low mostnegativefixnum = 0 then exception s
        else .next (s.pushFixnum (0 - low arg6)))
        others

def doIncrement (place : Int) : Outcome Stack :=
  let o := s.words place
  let arg3 := o.data.setWidth 64
  typeDispatch o
    (if arg3 = mostpositivefixnum then exception s
    else .next (s.set place ⟨o.tag, low (arg3 + 1)⟩))
    others

def doDecrement (place : Int) : Outcome Stack :=
  let o := s.words place
  let arg3 := o.data.setWidth 64
  typeDispatch o
    (if arg3 = mostnegativefixnum then exception s
    else .next (s.set place ⟨o.tag, low (arg3 - 1)⟩))
    others

/-! ### Divisions -/

/-- A double: the integers that fixnums lead to are exact, and so is the rounding of their
quotients. -/
inductive Double
  | finite (q : ℚ)
  | nonFinite

namespace Double

/-- `CVTLQ` and `CVTQT` of a fixnum. -/
def ofFixnum (n : Integer) : Double := finite n.toInt

def div : Double → Double → Double
  | finite a, finite b => if b = 0 then nonFinite else finite (a / b)
  | _, _ => nonFinite

def mul : Double → Double → Double
  | finite a, finite b => finite (a * b)
  | _, _ => nonFinite

def sub : Double → Double → Double
  | finite a, finite b => finite (a - b)
  | _, _ => nonFinite

/-- `floor`, `ceil`, `trunc` and `rint`. -/
def round (m : Rounding.Mode) : Double → Double
  | finite q => finite (Rounding.round m q)
  | nonFinite => nonFinite

end Double

/-- What casts of doubles give that no integer of the type is the truncation of. -/
structure Casts where
  int : Double → Integer
  long : Double → Quad

namespace Casts

variable (casts : Casts)

/-- `(int)`. -/
def toInt : Double → Integer
  | .finite q =>
      let n := Rounding.truncate q
      if -2 ^ 31 ≤ n ∧ n < 2 ^ 31 then .ofInt 32 n else casts.int (.finite q)
  | .nonFinite => casts.int .nonFinite

/-- `(s64)`. -/
def toLong : Double → Quad
  | .finite q =>
      let n := Rounding.truncate q
      if -2 ^ 63 ≤ n ∧ n < 2 ^ 63 then .ofInt 64 n else casts.long (.finite q)
  | .nonFinite => casts.long .nonFinite

end Casts

variable (casts : Casts)

/-- The operand of the division instructions is an immediate one with its sign. -/
def doQuotient (op2 : Operand) : Outcome Stack :=
  let f1 := Double.ofFixnum s.top.data
  let f2 := Double.ofFixnum (op2.signed s).data
  binaryTypeDispatch s.top (op2.signed s)
    (let f0 := casts.toLong (f1.div f2)
    .next (s.setFixnum (low (s32 f0))))
    others

def doRationalQuotient (op2 : Operand) : Outcome Stack :=
  let a := s.top.data
  let b := (op2.signed s).data
  binaryTypeDispatch s.top (op2.signed s)
    (if b = 0 ∨ a = 0x80000000 ∧ b = -1 then exception s
    else if a.srem b ≠ 0 then exception s
    else .next (s.setFixnum (a.sdiv b)))
    others

/-- `binary-arithmetic-two-value-division-operation`, with one of `LIBMFLOOR`, `LIBMCEIL`,
`LIBMTRUNC` and `LIBMRINT`. -/
def twoValueDivision (rounding : Rounding.Mode) (op2 : Operand) : Outcome Stack :=
  let f1 := Double.ofFixnum s.top.data
  let f2 := Double.ofFixnum (op2.signed s).data
  binaryTypeDispatch s.top (op2.signed s)
    (let c := (f1.div f2).round rounding
    let d := f1.sub (c.mul f2)
    let f0 := casts.toInt c
    let f3 := casts.toLong (d.round .nearest)
    leaveQuotient s f0 (low (s32 f3)))
    others

def doFloor : Operand → Outcome Stack := twoValueDivision others s casts .floor
def doCeiling : Operand → Outcome Stack := twoValueDivision others s casts .ceiling
def doTruncate : Operand → Outcome Stack := twoValueDivision others s casts .truncate
def doRound : Operand → Outcome Stack := twoValueDivision others s casts .nearest

/-! ### Shifts -/

def doAsh (op2 : Operand) : Outcome Stack :=
  let arg4 := s.top.data.setWidth 64
  let arg1 := (op2.signed s).data.signExtend 64
  let arg2 := tagType (op2.signed s).tag
  binaryTypeDispatch (op2.signed s) s.top
    (if arg4 = 0 then .next (s.setFixnum (low arg4))
    else if arg1.toInt ≤ 0 then
      let arg5 := (s32 arg4).sshiftRight ((0 - arg1).toNat % 64)
      .next (s.set s.sp ⟨arg2, low arg5⟩)
    else if 0 < (arg1 - 32).toInt then exception s
    else
      let arg5 := s32 arg4 <<< (arg1.toNat % 64)
      let arg6 := (s32 arg4 ^^^ arg5) >>> 31
      if arg6 ≠ 0 then exception s else .next (s.set s.sp ⟨arg2, low arg5⟩))
    others

/-- The instructions with two operands. -/
def execute : Binary → Operand → Outcome Stack
  | .add => doAdd others s
  | .sub => doSub others s
  | .multiply => doMultiply others s
  | .quotient => doQuotient others s casts
  | .floor => doFloor others s casts
  | .ceiling => doCeiling others s casts
  | .truncate => doTruncate others s casts
  | .round => doRound others s casts
  | .rationalQuotient => doRationalQuotient others s
  | .ash => doAsh others s

/-- The second operand of an instruction. -/
def operand2 (op2 : Operand) : Binary → LispObj
  | .add | .sub => op2.unsigned s
  | _ => op2.signed s

end Bodies

/-! ### Words and registers -/

open Execute (exactQuotient fits_toInt bmod_of_fits right_set_iff right_pushFixnum_iff
  right_leaveQuotient_iff right_of_not_fits_one right_of_not_fits right_none)

theorem toInt_low (n : Quad) : (low n).toInt = n.toInt.bmod (2 ^ 32) := by
  rw [low, BitVec.toInt_setWidth, BitVec.toInt_eq_toNat_bmod, Int.bmod_bmod_of_dvd (by decide)]

theorem low_signExtend (x : Integer) : low (x.signExtend 64) = x := by
  rw [← BitVec.toInt_inj, toInt_low, BitVec.toInt_signExtend_of_le (by decide)]
  exact bmod_of_fits (fits_toInt x)

theorem low_setWidth (x : Integer) : low (x.setWidth 64) = x :=
  BitVec.setWidth_setWidth_of_le x (by decide)

theorem toInt_s32 (n : Quad) : (s32 n).toInt = n.toInt.bmod (2 ^ 32) := by
  rw [s32, BitVec.toInt_signExtend_of_le (by decide)]
  exact toInt_low n

/-- A result is its own low half, extended, when it fits. -/
theorem eq_s32_iff (n : Quad) : n = s32 n ↔ Execute.Fits n.toInt := by
  rw [← BitVec.toInt_inj, toInt_s32]
  constructor
  · intro h
    have hlow := Int.le_bmod (x := n.toInt) (m := 2 ^ 32) (by decide)
    have hhigh := Int.bmod_lt (x := n.toInt) (m := 2 ^ 32) (by decide)
    unfold Execute.Fits
    omega
  · intro h
    exact (bmod_of_fits h).symm

/-! ### What is right -/

section Right

variable {others : Outcome Stack} {s : Stack} {casts : Casts}

theorem typeDispatch_fixnum {o : LispObj} {body : Outcome Stack}
    (h : tagType o.tag = typeFixnum) : typeDispatch o body others = body := by
  rw [typeDispatch, typeFixnumP, h]
  rfl

theorem binaryTypeDispatch_fixnum {o1 o2 : LispObj} {body : Outcome Stack}
    (h1 : tagType o1.tag = typeFixnum) (h2 : tagType o2.tag = typeFixnum) :
    binaryTypeDispatch o1 o2 body others = body := by
  rw [binaryTypeDispatch, typeFixnumP, typeFixnumP, h1, h2]
  rfl

/-- A result that is left when it fits, and not otherwise. -/
theorem right_of_fits_else {r : Int} {v : Integer} {tag : Tag} {place : Int} {P : Prop} [Decidable P]
    (hP : P ↔ Execute.Fits r) (hv : Execute.Fits r → v.toInt = r) (htag : tagType tag = typeFixnum) :
    Execute.Right s place s.sp (some [r]) (if P then .next (s.set place ⟨tag, v⟩) else exception s) := by
  by_cases hfits : Execute.Fits r
  · rw [if_pos (hP.mpr hfits), right_set_iff rfl htag]
    exact hv hfits
  · rw [if_neg fun h => hfits (hP.mp h), right_of_not_fits_one hfits]
    trivial

/-- The flag of a 32-bit operation tells whether the exact result fits. -/
theorem simpleBinary_right {overflow : Integer → Integer → Bool}
    {result : Integer → Integer → Integer} {f : Int → Int → Int} {arg2 : LispObj}
    (hx : tagType s.top.tag = typeFixnum) (hy : tagType arg2.tag = typeFixnum)
    (hoverflow : ∀ x y : Integer, overflow x y = true ↔ ¬ Execute.Fits (f x.toInt y.toInt))
    (hresult : ∀ x y : Integer, (result x y).toInt = (f x.toInt y.toInt).bmod (2 ^ 32)) :
    Execute.Right s s.sp s.sp (some [f s.top.data.toInt arg2.data.toInt])
      (simpleBinary others s overflow result arg2) := by
  rw [simpleBinary, binaryTypeDispatch_fixnum hx hy, checkOflo]
  simp only [low_signExtend, low_setWidth]
  rw [← ite_not]
  exact right_of_fits_else (by rw [hoverflow, not_not])
    (fun hfits => (hresult _ _).trans (bmod_of_fits hfits)) (by decide)

/-- A result that is exact in 64 bits is compared with its low half. -/
theorem simpleImmediate_right {result : Quad → Quad → Quad} {arg2 : Quad} {r : Int}
    (hx : tagType s.top.tag = typeFixnum)
    (hresult : (result (s.top.data.signExtend 64) arg2).toInt = r) :
    Execute.Right s s.sp s.sp (some [r]) (simpleImmediate others s result arg2) := by
  rw [simpleImmediate, typeDispatch_fixnum hx]
  refine right_of_fits_else (by rw [eq_s32_iff, hresult]) (fun hfits => ?_) (by decide)
  rw [toInt_low, hresult]
  exact bmod_of_fits hfits

theorem not_fits_iff (r : Int) : ¬ Execute.Fits r ↔ 2 ^ 31 ≤ r ∨ r < -2 ^ 31 := by
  unfold Execute.Fits
  omega

/-- An immediate operand that is not signed. -/
theorem toInt_setWidth_immediate (n : BitVec 8) :
    (n.setWidth 64).toInt = n.toNat ∧ (n.setWidth 32).toInt = n.toNat := by
  have hlt := n.isLt
  constructor <;>
  · rw [BitVec.toInt_setWidth]
    exact Int.bmod_eq_of_le_mul_two (by omega) (by omega)

theorem immediate_bounds (n : BitVec 8) : -2 ^ 7 ≤ n.toInt ∧ n.toInt < 2 ^ 7 := by
  have hle := BitVec.le_two_mul_toInt (x := n)
  have hlt := BitVec.two_mul_toInt_lt (x := n)
  omega

theorem toInt_signExtend_immediate (n : BitVec 8) :
    (n.signExtend 64).toInt = n.toInt ∧ (n.signExtend 32).toInt = n.toInt :=
  ⟨BitVec.toInt_signExtend_of_le (by decide), BitVec.toInt_signExtend_of_le (by decide)⟩

variable {op2 : Operand}

theorem doAdd_right (hx : tagType s.top.tag = typeFixnum)
    (hy : tagType (op2.unsigned s).tag = typeFixnum) :
    Execute.Right s s.sp s.sp (some [s.top.data.toInt + (op2.unsigned s).data.toInt])
      (doAdd others s op2) := by
  cases op2 with
  | immediate n =>
      obtain ⟨hwide, hword⟩ := toInt_setWidth_immediate n
      obtain ⟨hlow, hhigh⟩ := fits_toInt s.top.data
      have hn := n.isLt
      refine simpleImmediate_right hx ?_
      rw [BitVec.toInt_add, BitVec.toInt_signExtend_of_le (by decide), hwide, Operand.unsigned, hword]
      exact Int.bmod_eq_of_le_mul_two (by omega) (by omega)
  | word place =>
      refine simpleBinary_right hx hy (fun x y => ?_) BitVec.toInt_add
      rw [not_fits_iff]
      simp [BitVec.saddOverflow]

theorem doSub_right (hx : tagType s.top.tag = typeFixnum)
    (hy : tagType (op2.unsigned s).tag = typeFixnum) :
    Execute.Right s s.sp s.sp (some [s.top.data.toInt - (op2.unsigned s).data.toInt])
      (doSub others s op2) := by
  cases op2 with
  | immediate n =>
      obtain ⟨hwide, hword⟩ := toInt_setWidth_immediate n
      obtain ⟨hlow, hhigh⟩ := fits_toInt s.top.data
      have hn := n.isLt
      refine simpleImmediate_right hx ?_
      rw [BitVec.toInt_sub, BitVec.toInt_signExtend_of_le (by decide), hwide, Operand.unsigned, hword]
      exact Int.bmod_eq_of_le_mul_two (by omega) (by omega)
  | word place =>
      refine simpleBinary_right hx hy (fun x y => ?_) fun x y => BitVec.toInt_sub
      rw [not_fits_iff]
      simp [BitVec.ssubOverflow]

theorem doMultiply_right (hx : tagType s.top.tag = typeFixnum)
    (hy : tagType (op2.signed s).tag = typeFixnum) :
    Execute.Right s s.sp s.sp (some [s.top.data.toInt * (op2.signed s).data.toInt])
      (doMultiply others s op2) := by
  cases op2 with
  | immediate n =>
      obtain ⟨hwide, hword⟩ := toInt_signExtend_immediate n
      obtain ⟨hn0, hn1⟩ := immediate_bounds n
      have hproduct : |s.top.data.toInt * n.toInt| ≤ 2 ^ 31 * 2 ^ 7 := by
        rw [abs_mul]
        exact mul_le_mul (Execute.abs_toInt_le _) (abs_le.mpr ⟨hn0, hn1.le⟩) (abs_nonneg _)
          (by norm_num)
      obtain ⟨hlow, hhigh⟩ := abs_le.mp hproduct
      refine simpleImmediate_right hx ?_
      rw [BitVec.toInt_mul, BitVec.toInt_signExtend_of_le (by decide), hwide, Operand.signed, hword]
      exact Int.bmod_eq_of_le_mul_two (by omega) (by omega)
  | word place =>
      refine simpleBinary_right hx hy (fun x y => ?_) BitVec.toInt_mul
      rw [not_fits_iff]
      simp [BitVec.smulOverflow]

/-- The operand is compared before the negation. -/
theorem doUnaryMinus_right (hy : tagType (op2.unsigned s).tag = typeFixnum) :
    Execute.Right s (s.sp + 1) (s.sp + 1) (some [-(op2.unsigned s).data.toInt])
      (doUnaryMinus others s op2) := by
  have hzero : (0 : Integer).toInt = 0 := by decide
  cases op2 with
  | immediate n =>
      have hword := (toInt_setWidth_immediate n).2
      have hn := n.isLt
      rw [doUnaryMinus, right_pushFixnum_iff, BitVec.toInt_sub, hzero, Operand.unsigned, hword,
        low, BitVec.setWidth_setWidth_of_le _ (by decide), hword, Int.zero_sub]
      exact bmod_of_fits ⟨by omega, by omega⟩
  | word place =>
      change Execute.Right s (s.sp + 1) (s.sp + 1) (some [-(s.words place).data.toInt]) _
      obtain ⟨hlow, hhigh⟩ := fits_toInt (s.words place).data
      have hmin : (s.words place).data - low mostnegativefixnum = 0 ↔
          (s.words place).data.toInt = -2 ^ 31 := by
        rw [sub_eq_zero, ← BitVec.toInt_inj]
        rfl
      rw [doUnaryMinus]
      simp only [low_signExtend]
      rw [typeDispatch_fixnum (o := s.words place) hy]
      by_cases h : (s.words place).data.toInt = -2 ^ 31
      · rw [if_pos (hmin.mpr h), right_of_not_fits_one (by
          unfold Execute.Fits
          omega)]
        trivial
      · rw [if_neg fun hc => h (hmin.mp hc), right_pushFixnum_iff, BitVec.toInt_sub, hzero,
          Int.zero_sub]
        exact bmod_of_fits ⟨by omega, by omega⟩

section Step

variable {place : Int}

/-- The words of the stack are compared without a sign. -/
theorem setWidth_eq_iff (x : Integer) (n : Quad) (hn : n.toNat < 2 ^ 32) :
    x.setWidth 64 = n ↔ x = low n := by
  constructor
  · intro h
    rw [← h, low_setWidth]
  · intro h
    rw [h, low]
    apply BitVec.eq_of_toNat_eq
    rw [BitVec.toNat_setWidth, BitVec.toNat_setWidth]
    omega

theorem doIncrement_right (h : tagType (s.words place).tag = typeFixnum) :
    Execute.Right s place s.sp (some [(s.words place).data.toInt + 1]) (doIncrement others s place) := by
  obtain ⟨hlow, hhigh⟩ := fits_toInt (s.words place).data
  rw [doIncrement, typeDispatch_fixnum h]
  simp only [setWidth_eq_iff _ mostpositivefixnum (by decide)]
  rw [← ite_not]
  refine right_of_fits_else ?_ (fun hfits => ?_) h
  · rw [← BitVec.toInt_inj]
    change ¬ (s.words place).data.toInt = 2 ^ 31 - 1 ↔ _
    unfold Execute.Fits
    omega
  · rw [low, BitVec.setWidth_add _ _ (by decide), ← low, low_setWidth, BitVec.toInt_add]
    exact bmod_of_fits hfits

theorem doDecrement_right (h : tagType (s.words place).tag = typeFixnum) :
    Execute.Right s place s.sp (some [(s.words place).data.toInt - 1]) (doDecrement others s place) := by
  obtain ⟨hlow, hhigh⟩ := fits_toInt (s.words place).data
  rw [doDecrement, typeDispatch_fixnum h]
  simp only [setWidth_eq_iff _ mostnegativefixnum (by decide)]
  rw [← ite_not]
  refine right_of_fits_else ?_ (fun hfits => ?_) h
  · rw [← BitVec.toInt_inj]
    change ¬ (s.words place).data.toInt = -2 ^ 31 ↔ _
    unfold Execute.Fits
    omega
  · have hone : low (-1) = -1 := by decide
    rw [low, sub_eq_add_neg, BitVec.setWidth_add _ _ (by decide), ← low, ← low, low_setWidth, hone,
      ← sub_eq_add_neg, BitVec.toInt_sub]
    exact bmod_of_fits hfits

end Step

/-! ### Divisions -/

/-- When the division instructions are right: no division by zero, and no quotient that is one
too large. -/
def Divides (x y : Int) : Prop := y ≠ 0 ∧ ¬ (x = -2 ^ 31 ∧ y = -1)

/-- Then a rounded quotient and its remainder fit. -/
theorem fits_round (m : Rounding.Mode) {x y : Integer} (h : Divides x.toInt y.toInt) :
    Execute.Fits (Rounding.round m ((x.toInt : ℚ) / y.toInt)) ∧
      Execute.Fits (x.toInt - Rounding.round m ((x.toInt : ℚ) / y.toInt) * y.toInt) := by
  obtain ⟨hy, hmin⟩ := h
  have hr := Rounding.abs_remainder_lt (K := ℚ) (x := x.toInt) m hy
  have hx := Execute.abs_toInt_le x
  have hy' := Execute.abs_toInt_le y
  generalize Rounding.round m ((x.toInt : ℚ) / y.toInt) = q at hr ⊢
  obtain ⟨hr0, hr1⟩ := abs_lt.mp (hr.trans_le hy')
  refine ⟨?_, hr0.le, hr1⟩
  have hqy : |q * y.toInt| < 2 ^ 31 + |y.toInt| := by
    have htriangle := abs_sub x.toInt (x.toInt - q * y.toInt)
    rw [sub_sub_cancel] at htriangle
    omega
  rw [abs_mul] at hqy
  by_cases hone : |y.toInt| = 1
  · rw [hone] at hr
    have hzero := Int.abs_lt_one_iff.mp hr
    obtain ⟨hx0, hx1⟩ := fits_toInt x
    obtain h1 | h1 := (abs_eq (by decide : (0 : Int) ≤ 1)).mp hone
    · rw [h1] at hzero
      exact ⟨by omega, by omega⟩
    · rw [h1] at hzero
      have hne : x.toInt ≠ -2 ^ 31 := fun hc => hmin ⟨hc, h1⟩
      exact ⟨by omega, by omega⟩
  · have hpos := abs_pos.mpr hy
    have htwo : 2 ≤ |y.toInt| := by omega
    have hq : |q| < 2 ^ 31 := by
      by_contra hge
      have hlarge := mul_le_mul_of_nonneg_right (not_lt.mp hge) (abs_nonneg y.toInt)
      linarith
    obtain ⟨hq0, hq1⟩ := abs_lt.mp hq
    exact ⟨hq0.le, hq1⟩

/-- The casts of integers that fit. -/
theorem toInt_intCast {n : Int} (h : Execute.Fits n) : casts.toInt (.finite n) = .ofInt 32 n := by
  have htruncate : Rounding.truncate (n : ℚ) = n := Rounding.round_intCast .truncate n
  rw [Casts.toInt]
  rw [htruncate]
  exact if_pos h

theorem low_s32_toLong {q : ℚ} (h : Execute.Fits (Rounding.truncate q)) :
    low (s32 (casts.toLong (.finite q))) = .ofInt 32 (Rounding.truncate q) := by
  obtain ⟨hlow, hhigh⟩ := h
  rw [Casts.toLong, if_pos ⟨by omega, by omega⟩, ← BitVec.toInt_inj, toInt_low, toInt_s32, Int.bmod_bmod,
    BitVec.toInt_ofInt, BitVec.toInt_ofInt, Int.bmod_bmod_of_dvd (by decide)]

theorem toInt_ofInt_of_fits {n : Int} (h : Execute.Fits n) : (BitVec.ofInt 32 n).toInt = n := by
  rw [BitVec.toInt_ofInt]
  exact bmod_of_fits h

/-- The quotient of two doubles that are fixnums. -/
theorem div_ofFixnum (x : Integer) {y : Integer} (hy : y.toInt ≠ 0) :
    (Double.ofFixnum x).div (.ofFixnum y) = .finite ((x.toInt : ℚ) / y.toInt) := by
  rw [Double.ofFixnum, Double.ofFixnum, Double.div, if_neg]
  exact_mod_cast hy

variable {op2 : Operand}

/-- A division instruction is right for the operands that it can divide, as it takes no
exception. -/
theorem right_next_division_iff {exact : Option (List Int)} {sp : Int} {s' : Stack} {x y : Int}
    (hzero : y = 0 → exact = none)
    (hmin : x = -2 ^ 31 → y = -1 → ∃ results, exact = some results ∧ ∃ n ∈ results, ¬ Execute.Fits n)
    (hrest : Divides x y → Execute.Right s s.sp sp exact (.next s')) :
    Execute.Right s s.sp sp exact (.next s') ↔ Divides x y := by
  refine ⟨fun hright => ⟨fun hy => ?_, fun hlarge => ?_⟩, hrest⟩
  · rw [hzero hy, right_none] at hright
    exact hright
  · obtain ⟨results, hexact, hn⟩ := hmin hlarge.1 hlarge.2
    rw [hexact, right_of_not_fits hn] at hright
    exact hright

theorem doQuotient_right_iff (hx : tagType s.top.tag = typeFixnum)
    (hy : tagType (op2.signed s).tag = typeFixnum) :
    Execute.Right s s.sp s.sp
        ((exactQuotient .truncate s.top.data.toInt (op2.signed s).data.toInt).map (List.take 1))
        (doQuotient others s casts op2) ↔
      Divides s.top.data.toInt (op2.signed s).data.toInt := by
  rw [doQuotient, binaryTypeDispatch_fixnum hx hy]
  refine right_next_division_iff (fun h0 => by simp [exactQuotient, h0]) (fun hx hy => ?_)
    fun hdivides => ?_
  · rw [hx, hy, Execute.exactQuotient_min]
    exact ⟨_, rfl, 2 ^ 31, by simp, by unfold Execute.Fits; omega⟩
  · have hfits := (fits_round .truncate hdivides).1
    rw [exactQuotient, if_neg hdivides.1, div_ofFixnum _ hdivides.1, low_s32_toLong hfits]
    refine (right_set_iff rfl (by decide)).mpr (toInt_ofInt_of_fits hfits)

/-- The remainder is computed from the rounded quotient. -/
theorem twoValueDivision_right_iff (m : Rounding.Mode) (hx : tagType s.top.tag = typeFixnum)
    (hy : tagType (op2.signed s).tag = typeFixnum) :
    Execute.Right s s.sp (s.sp + 1) (exactQuotient m s.top.data.toInt (op2.signed s).data.toInt)
        (twoValueDivision others s casts m op2) ↔
      Divides s.top.data.toInt (op2.signed s).data.toInt := by
  rw [twoValueDivision, binaryTypeDispatch_fixnum hx hy]
  refine right_next_division_iff (fun h0 => by simp [exactQuotient, h0]) (fun hx hy => ?_)
    fun hdivides => ?_
  · rw [hx, hy, Execute.exactQuotient_min]
    exact ⟨_, rfl, 2 ^ 31, by simp, by unfold Execute.Fits; omega⟩
  · obtain ⟨hq, hr⟩ := fits_round m hdivides
    rw [exactQuotient, if_neg hdivides.1, div_ofFixnum _ hdivides.1]
    set q := Rounding.round m ((s.top.data.toInt : ℚ) / (op2.signed s).data.toInt) with hqDef
    set r := s.top.data.toInt - q * (op2.signed s).data.toInt with hrDef
    have hremainder : (Double.ofFixnum s.top.data).sub
        ((Double.finite (q : ℚ)).mul (.ofFixnum (op2.signed s).data)) = .finite (r : ℚ) := by
      rw [Double.ofFixnum, Double.ofFixnum, Double.mul, Double.sub, hrDef]
      push_cast
      rfl
    have htruncate : Rounding.truncate (r : ℚ) = r := Rounding.round_intCast .truncate r
    simp only [Double.round, ← hqDef, hremainder, Rounding.round_intCast, toInt_intCast hq]
    refine right_leaveQuotient_iff.mpr ⟨toInt_ofInt_of_fits hq, ?_⟩
    rw [low_s32_toLong (htruncate.symm ▸ hr), htruncate]
    exact toInt_ofInt_of_fits hr

/-- Every other division that has no exact result is an exception. -/
theorem doRationalQuotient_right (hx : tagType s.top.tag = typeFixnum)
    (hy : tagType (op2.signed s).tag = typeFixnum) :
    Execute.Right s s.sp s.sp
      (Binary.exact s.top.data.toInt (op2.signed s).data.toInt .rationalQuotient)
      (doRationalQuotient others s op2) := by
  have hy0 : (op2.signed s).data = 0 ↔ (op2.signed s).data.toInt = 0 := BitVec.toInt_inj.symm
  have hmin : s.top.data = 0x80000000 ∧ (op2.signed s).data = -1 ↔
      s.top.data.toInt = -2 ^ 31 ∧ (op2.signed s).data.toInt = -1 :=
    and_congr BitVec.toInt_inj.symm BitVec.toInt_inj.symm
  have hrem : s.top.data.srem (op2.signed s).data = 0 ↔
      (op2.signed s).data.toInt ∣ s.top.data.toInt := by
    rw [← BitVec.toInt_inj, BitVec.toInt_srem]
    exact Int.dvd_iff_tmod_eq_zero.symm
  rw [doRationalQuotient, binaryTypeDispatch_fixnum hx hy, Binary.exact]
  simp only [hy0, hmin, ne_eq, hrem]
  by_cases h0 : (op2.signed s).data.toInt = 0
  · rw [if_neg fun h => h.1 h0, if_pos (.inl h0), right_none]
    trivial
  · by_cases hlarge : s.top.data.toInt = -2 ^ 31 ∧ (op2.signed s).data.toInt = -1
    · rw [hlarge.1, hlarge.2, if_pos ⟨by decide, by decide⟩, if_pos (.inr ⟨rfl, rfl⟩),
        right_of_not_fits_one (by unfold Execute.Fits; omega)]
      trivial
    · have hdivides : ¬ ((op2.signed s).data.toInt = 0 ∨
          s.top.data.toInt = -2 ^ 31 ∧ (op2.signed s).data.toInt = -1) := not_or.mpr ⟨h0, hlarge⟩
      by_cases hdvd : (op2.signed s).data.toInt ∣ s.top.data.toInt
      · rw [if_pos ⟨h0, hdvd⟩, if_neg hdivides, if_neg (not_not.mpr hdvd)]
        refine (right_set_iff rfl (by decide)).mpr ?_
        rw [BitVec.toInt_sdiv_of_ne_or_ne _ _ (not_and_or.mp (mt hmin.mp hlarge)),
          Int.tdiv_eq_ediv_of_dvd hdvd]
      · rw [if_neg fun h => hdvd h.2, if_neg hdivides, if_pos hdvd, right_none]
        trivial

/-! ### Shifts -/

/-- When `ash` is right: shifts to the right go by the places modulo 64. -/
def Shifts (x places : Int) : Prop :=
  -64 < places ∨ -2 ^ ((-places).toNat % 64) ≤ x ∧ x < 2 ^ ((-places).toNat % 64)

/-- The bits from the sign of a fixnum on tell two words apart as the quotients do. -/
theorem xor_shift_eq_zero_iff (a b : Quad) :
    (a ^^^ b) >>> 31 = 0 ↔ a.toInt / 2 ^ 31 = b.toInt / 2 ^ 31 := by
  have ha := a.isLt
  have hb := b.isLt
  change _ = 0#64 ↔ _
  rw [BitVec.ushiftRight_xor_distrib, BitVec.xor_eq_zero_iff, ← BitVec.toNat_inj,
    BitVec.toNat_ushiftRight, BitVec.toNat_ushiftRight, Nat.shiftRight_eq_div_pow,
    Nat.shiftRight_eq_div_pow, BitVec.toInt_eq_toNat_cond, BitVec.toInt_eq_toNat_cond]
  split <;> split <;> omega

theorem s32_setWidth (x : Integer) : s32 (x.setWidth 64) = x.signExtend 64 := by
  rw [s32, BitVec.setWidth_setWidth_of_le x (by decide), BitVec.setWidth_eq]

/-- A shift to the left overflows in 64 bits in no case that is tried. -/
theorem toInt_shift_left (x : Integer) {n : Nat} (hn : n ≤ 32) :
    (x.signExtend 64 <<< n).toInt = x.toInt * 2 ^ n := by
  obtain ⟨hlow, hhigh⟩ := fits_toInt x
  have hpow : (2 : Int) ^ n ≤ 2 ^ 32 := pow_le_pow_right₀ (by decide) hn
  have hpos : (0 : Int) < 2 ^ n := by positivity
  have hwide : (x.signExtend 64).toInt = x.toInt := BitVec.toInt_signExtend_of_le (by decide)
  have hupper := mul_le_mul_of_nonneg_right (show x.toInt ≤ 2 ^ 31 - 1 by omega) hpos.le
  have hlower := mul_le_mul_of_nonneg_right hlow hpos.le
  rw [BitVec.toInt_shiftLeft, Nat.shiftLeft_eq]
  have hwrap : (((x.signExtend 64).toNat * 2 ^ n : Nat) : Int).bmod (2 ^ 64) =
      (x.toInt * 2 ^ n).bmod (2 ^ 64) := by
    rw [← hwide, BitVec.toInt_eq_toNat_bmod, Int.bmod_mul_bmod]
    push_cast
    rfl
  rw [hwrap]
  exact Int.bmod_eq_of_le_mul_two (by omega) (by omega)

/-- The sign bits of the shifted number are seen. -/
theorem shift_left_fits_iff (x : Integer) {n : Nat} (hn : n ≤ 32) :
    (x.signExtend 64 ^^^ x.signExtend 64 <<< n) >>> 31 = 0 ↔ Execute.Fits (x.toInt * 2 ^ n) := by
  obtain ⟨hlow, hhigh⟩ := fits_toInt x
  have hpos : (0 : Int) < 2 ^ n := by positivity
  rw [xor_shift_eq_zero_iff, toInt_shift_left x hn, BitVec.toInt_signExtend_of_le (by decide)]
  unfold Execute.Fits
  by_cases hx : 0 ≤ x.toInt
  · have hsign := mul_nonneg hx hpos.le
    omega
  · have hsign := mul_neg_of_neg_of_pos (not_le.mp hx) hpos
    omega

theorem toNat_of_toInt {n : Quad} {k : Int} (h : n.toInt = k) (hk : 0 ≤ k) : n.toNat = k.toNat := by
  have hlt := n.isLt
  rw [BitVec.toInt_eq_toNat_cond] at h
  split at h <;> omega

section Ash

variable {tag : Tag} {n : Nat}

/-- A shift to the right by the places modulo 64. -/
theorem shiftRight_right_iff (htag : tagType tag = typeFixnum) :
    Execute.Right s s.sp s.sp (some [s.top.data.toInt / 2 ^ n])
        (.next (s.set s.sp ⟨tag, low ((s.top.data.signExtend 64).sshiftRight (n % 64))⟩)) ↔
      n < 64 ∨ -2 ^ (n % 64) ≤ s.top.data.toInt ∧ s.top.data.toInt < 2 ^ (n % 64) := by
  have hfits : Execute.Fits (s.top.data.toInt / 2 ^ (n % 64)) := by
    obtain ⟨hlow, hhigh⟩ := fits_toInt s.top.data
    have hpos : (0 : Int) < 2 ^ (n % 64) := by positivity
    constructor
    · rw [Int.le_ediv_iff_mul_le hpos]
      nlinarith
    · rw [Int.ediv_lt_iff_lt_mul hpos]
      nlinarith
  rw [right_set_iff rfl htag, toInt_low, BitVec.toInt_sshiftRight,
    BitVec.toInt_signExtend_of_le (by decide), Int.shiftRight_eq_div_pow, Nat.cast_pow,
    Nat.cast_ofNat, bmod_of_fits hfits]
  by_cases hn : n < 64
  · rw [Nat.mod_eq_of_lt hn]
    exact iff_of_true rfl (.inl hn)
  · rw [Execute.shiftRight_eq_iff (fits_toInt _) (by omega)]
    exact (or_iff_right hn).symm

/-- A shift to the left is an exception when a bit of the sign changes, or when it is too far. -/
theorem shiftLeft_right (htag : tagType tag = typeFixnum) (h0 : s.top.data.toInt ≠ 0) :
    Execute.Right s s.sp s.sp (some [s.top.data.toInt * 2 ^ n])
      (if 32 < n then exception s
      else if (s.top.data.signExtend 64 ^^^ s.top.data.signExtend 64 <<< n) >>> 31 ≠ 0 then
        exception s
      else .next (s.set s.sp ⟨tag, low (s.top.data.signExtend 64 <<< n)⟩)) := by
  by_cases hn : 32 < n
  · rw [if_pos hn, right_of_not_fits_one fun hfits => by
      have hlt := Execute.places_lt h0 hfits
      omega]
    trivial
  · rw [if_neg hn, ite_not]
    refine right_of_fits_else (shift_left_fits_iff _ (by omega)) (fun hfits => ?_) htag
    rw [toInt_low, toInt_shift_left _ (by omega)]
    exact bmod_of_fits hfits

end Ash

theorem doAsh_right_iff (hx : tagType s.top.tag = typeFixnum)
    (hy : tagType (op2.signed s).tag = typeFixnum) :
    Execute.Right s s.sp s.sp
        (some [⌊(s.top.data.toInt : ℚ) * 2 ^ (op2.signed s).data.toInt⌋])
        (doAsh others s op2) ↔
      Shifts s.top.data.toInt (op2.signed s).data.toInt := by
  have htag : tagType (tagType (op2.signed s).tag) = typeFixnum := by
    rw [hy]
    rfl
  obtain ⟨hlow, hhigh⟩ := fits_toInt (op2.signed s).data
  have hwide : ((op2.signed s).data.signExtend 64).toInt = (op2.signed s).data.toInt :=
    BitVec.toInt_signExtend_of_le (by decide)
  have hzero : s.top.data.setWidth 64 = (0 : Quad) ↔ s.top.data.toInt = 0 := by
    rw [setWidth_eq_iff _ _ (by decide), ← BitVec.toInt_inj]
    rfl
  rw [doAsh, binaryTypeDispatch_fixnum hy hx, s32_setWidth, low_setWidth]
  simp only [hzero, hwide]
  by_cases h0 : s.top.data.toInt = 0
  · rw [if_pos h0, h0]
    have hright : Shifts 0 (op2.signed s).data.toInt := .inr ⟨by simp, by positivity⟩
    refine iff_of_true ?_ hright
    rw [Int.cast_zero, zero_mul, Int.floor_zero]
    exact (right_set_iff rfl (by decide)).mpr h0
  · rw [if_neg h0]
    by_cases hneg : (op2.signed s).data.toInt ≤ 0
    · have hcount : (0 - (op2.signed s).data.signExtend 64).toNat =
          (-(op2.signed s).data.toInt).toNat := by
        refine toNat_of_toInt ?_ (by omega)
        rw [BitVec.toInt_sub, hwide, show (0 : Quad).toInt = 0 by decide, Int.zero_sub]
        exact Int.bmod_eq_of_le_mul_two (by omega) (by omega)
      have hscale : ⌊(s.top.data.toInt : ℚ) * 2 ^ (op2.signed s).data.toInt⌋ =
          s.top.data.toInt / 2 ^ (-(op2.signed s).data.toInt).toNat := by
        rw [← Rounding.floor_scale_down (K := ℚ), Int.toNat_of_nonneg (by omega), neg_neg]
      rw [if_pos hneg, hcount, hscale, shiftRight_right_iff htag, Shifts]
      exact or_congr_left (by omega)
    · have hcount := toNat_of_toInt hwide (by omega)
      have hfar : 0 < ((op2.signed s).data.signExtend 64 - 32).toInt ↔
          32 < (op2.signed s).data.toInt.toNat := by
        rw [BitVec.toInt_sub, hwide, show (32 : Quad).toInt = 32 by decide,
          Int.bmod_eq_of_le_mul_two (by omega) (by omega)]
        omega
      have hscale : ⌊(s.top.data.toInt : ℚ) * 2 ^ (op2.signed s).data.toInt⌋ =
          s.top.data.toInt * 2 ^ (op2.signed s).data.toInt.toNat := by
        rw [← Rounding.floor_scale_up (K := ℚ), Int.toNat_of_nonneg (by omega)]
      have hright : Shifts s.top.data.toInt (op2.signed s).data.toInt := .inl (by omega)
      refine iff_of_true ?_ hright
      have hshift := shiftLeft_right (s := s) (n := (op2.signed s).data.toInt.toNat) htag h0
      simp only [hfar, hcount]
      rw [if_neg hneg, hscale]
      by_cases hn : 32 < (op2.signed s).data.toInt.toNat
      · rw [if_pos hn] at hshift ⊢
        exact hshift
      · rw [Nat.mod_eq_of_lt (show (op2.signed s).data.toInt.toNat < 64 by omega)]
        exact hshift

end Right

/-! ### All instructions -/

/-- The fixnums for which an instruction is right. -/
def Meets (x y : Int) : Binary → Prop
  | .quotient | .floor | .ceiling | .truncate | .round => Divides x y
  | .ash => Shifts x y
  | _ => True

theorem execute_right_iff (others : Outcome Stack) (casts : Casts) (i : Binary) {s : Stack}
    {op2 : Operand} (hx : tagType s.top.tag = typeFixnum)
    (hy : tagType (operand2 s op2 i).tag = typeFixnum) :
    Execute.Right s s.sp (i.top s) (i.exact s.top.data.toInt (operand2 s op2 i).data.toInt)
        (execute others s casts i op2) ↔
      Meets s.top.data.toInt (operand2 s op2 i).data.toInt i := by
  cases i with
  | add => exact iff_true_intro (doAdd_right hx hy)
  | sub => exact iff_true_intro (doSub_right hx hy)
  | multiply => exact iff_true_intro (doMultiply_right hx hy)
  | quotient => exact doQuotient_right_iff hx hy
  | floor => exact twoValueDivision_right_iff .floor hx hy
  | ceiling => exact twoValueDivision_right_iff .ceiling hx hy
  | truncate => exact twoValueDivision_right_iff .truncate hx hy
  | round => exact twoValueDivision_right_iff .nearest hx hy
  | rationalQuotient => exact iff_true_intro (doRationalQuotient_right hx hy)
  | ash => exact doAsh_right_iff hx hy

/-- **Fixnum arithmetic is exact or traps** for exactly the operands that the instruction meets:
the divisions but one need a divisor that can divide, and a shift to the right by 64 places or
more a small number; the instructions with one operand are always right. -/
theorem fixnum_arithmetic_iff (others : Outcome Stack) (casts : Casts) (s : Stack) (op2 : Operand)
    (hx : tagType s.top.tag = typeFixnum) (hy : tagType (op2.signed s).tag = typeFixnum) :
    (∀ i : Binary,
      Execute.Right s s.sp (i.top s) (i.exact s.top.data.toInt (operand2 s op2 i).data.toInt)
          (execute others s casts i op2) ↔
        Meets s.top.data.toInt (operand2 s op2 i).data.toInt i) ∧
      Execute.Right s (s.sp + 1) (s.sp + 1) (some [-(op2.unsigned s).data.toInt])
        (doUnaryMinus others s op2) ∧
      ∀ place, tagType (s.words place).tag = typeFixnum →
        Execute.Right s place s.sp (some [(s.words place).data.toInt + 1]) (doIncrement others s place) ∧
          Execute.Right s place s.sp (some [(s.words place).data.toInt - 1])
            (doDecrement others s place) := by
  have hunsigned : tagType (op2.unsigned s).tag = typeFixnum := by
    cases op2 <;> exact hy
  refine ⟨fun i => execute_right_iff others casts i hx ?_, doUnaryMinus_right hunsigned,
    fun _ h => ⟨doIncrement_right h, doDecrement_right h⟩⟩
  cases i with
  | add => exact hunsigned
  | sub => exact hunsigned
  | _ => exact hy

theorem fixnum_arithmetic_iff_seven :
    (∀ i : Binary,
      Execute.Right (Execute.single 7) 0 (i.top (Execute.single 7))
          (i.exact 7 (operand2 (Execute.single 7) (.immediate 2) i).data.toInt)
          (execute (exception (Execute.single 7)) (Execute.single 7) ⟨fun _ => 0, fun _ => 0⟩ i
            (.immediate 2)) ↔
        Meets 7 (operand2 (Execute.single 7) (.immediate 2) i).data.toInt i) ∧
      Execute.Right (Execute.single 7) 1 1 (some [-2])
        (doUnaryMinus (exception (Execute.single 7)) (Execute.single 7) (.immediate 2)) ∧
      ∀ place, tagType ((Execute.single 7).words place).tag = typeFixnum →
        Execute.Right (Execute.single 7) place 0 (some [8])
            (doIncrement (exception (Execute.single 7)) (Execute.single 7) place) ∧
          Execute.Right (Execute.single 7) place 0 (some [6])
            (doDecrement (exception (Execute.single 7)) (Execute.single 7) place) :=
  fixnum_arithmetic_iff (exception (Execute.single 7)) ⟨fun _ => 0, fun _ => 0⟩ (Execute.single 7)
    (.immediate 2) (by decide) (by decide)

/-- The floor of 7 by 0 takes no exception, and 1 shifted by 64 places to the right is 1. -/
theorem not_exact_floor_ash :
    ¬ Execute.Right (Execute.single 7) 0 1 (Binary.exact 7 0 .floor)
        (doFloor (exception (Execute.single 7)) (Execute.single 7) ⟨fun _ => 0, fun _ => 0⟩
          (.immediate 0)) ∧
      ¬ Execute.Right (Execute.single 1) 0 0 (Binary.exact 1 (-64) .ash)
        (doAsh (exception (Execute.single 1)) (Execute.single 1) (.immediate (-64))) := by
  constructor
  · intro h
    have hdivides : Divides 7 0 := (@twoValueDivision_right_iff _ (Execute.single 7) _
      (.immediate 0) .floor (by decide) (by decide)).mp h
    exact hdivides.1 rfl
  · intro h
    have hshifts : Shifts 1 (-64) := (@doAsh_right_iff _ (Execute.single 1) (.immediate (-64))
      (by decide) (by decide)).mp h
    unfold Shifts at hshifts
    exact absurd hshifts (by decide)

end Interpreter.Arithmetic
