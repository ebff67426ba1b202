import Mathlib
import OsxVlm.Library.CExpression
import OsxVlm.Translator.Alpha

/-!
# The C of an operation

`emit-operation` prints a line or two of C for each instruction.  Whether a trap
barrier checks the overflow flag is decided while printing, in `*do-check-oflo*`.
-/

namespace Stub

open Alpha C

abbrev CExpr := Expr Register

/-- A line of the portable emission. -/
inductive Line where
  | assign (c : Register) (e : CExpr)
  | ifAssign (condition : CExpr) (c : Register) (e : CExpr)
  /-- The block around `__builtin_add_overflow` and its like. -/
  | builtinOverflow (op : Checked) (a b : CExpr) (c : Register)
  | checkOflo

/-- Numbers stay, and a register becomes its variable. -/
def fixarg : Operand → CExpr
  | .register r => .var r
  | .literal n => .literal .int n.toNat

/-- `iPC`, `iFP`, `iLP`, `iSP` and `iCP`, whose variables are not in lower case. -/
def mixedCase : Register → Bool
  | .r n => 9 ≤ n.val ∧ n.val ≤ 13
  | .zero => false

/-- A number is a `long`, and of a name only the case changes. -/
def longnum : Operand → CExpr
  | .register r => if mixedCase r then .undeclared else .var r
  | .literal n => .literal .long n.toNat

def shiftarg : Operand → CExpr
  | .register r => .arith .and (.var r) (.literal .int 63)
  | .literal n => .literal .int (n &&& 63).toNat

/-- `(b&7)*8` -/
def byteShift (b : Operand) : CExpr :=
  .arith .mul (.arith .and (fixarg b) (.literal .int 7)) (.literal .int 8)

/-- `(a relation b) ? 1 : 0`, where both are cast. -/
def comparison (type : CType) (relation : Relation) (a : Register) (b : Operand) : CExpr :=
  .cond (.compare relation (.cast type (.var a)) (.cast type (fixarg b)))
    (.literal .int 1) (.literal .int 0)

def extract (type : CType) (a : Register) (b : Operand) : CExpr :=
  if b = .literal 0 then .cast type (.var a) else .cast type (.shr (.var a) (byteShift b))

/-- The loop of `CMPBGE` from `i` on, with `rounds` to go. -/
def cmpbgeLoop : Nat → Nat → BitVec 64 → BitVec 64 → BitVec 64 → BitVec 64
  | 0, _, _, _, res => res
  | rounds + 1, i, a, b, res =>
      let aa : BitVec 8 := (a &&& 0xff).setWidth 8
      let bb : BitVec 8 := (b &&& 0xff).setWidth 8
      cmpbgeLoop rounds (i + 1) (a >>> 8) (b >>> 8)
        (if bb ≤ aa then res ||| BitVec.ofNat 64 (1 <<< i) else res)

def cmpbge (a b : BitVec 64) : BitVec 64 := cmpbgeLoop 8 0 a b 0

/-- The right-hand side for an operate instruction; nothing where only the zero
register would be written. -/
def operateExpr (op : Operate) (a : Register) (b : Operand) (c : Register) : Option CExpr :=
  match op with
  | .addl =>
      if a = .zero then some (.cast .int (fixarg b))
      else if b = .register .zero then some (.cast .int (.var a))
      else some (.cast .int (.arith .add (.cast .uint (.var a)) (.cast .uint (fixarg b))))
  | .addq =>
      if a = .zero then some (fixarg b)
      else if b = .register .zero then some (.var a)
      else some (.arith .add (.var a) (fixarg b))
  | .subl =>
      if c = .zero then none
      else some (.cast .int (.arith .sub (.cast .uint (.var a)) (.cast .uint (fixarg b))))
  | .subq => if c = .zero then none else some (.arith .sub (.var a) (fixarg b))
  | .s4addq =>
      if b = .register .zero then some (.arith .mul (.var a) (.literal .int 4))
      else some (.arith .add (.arith .mul (.var a) (.literal .int 4)) (fixarg b))
  | .s8addq => some (.arith .add (.arith .mul (.var a) (.literal .int 8)) (fixarg b))
  | .s4subq => some (.arith .sub (.arith .mul (.var a) (.literal .int 4)) (fixarg b))
  | .s8subq => some (.arith .sub (.arith .mul (.var a) (.literal .int 8)) (fixarg b))
  | .mulq => some (.arith .mul (.var a) (fixarg b))
  | .and => if c = .zero then none else some (.arith .and (.var a) (fixarg b))
  | .bic => some (.arith .and (.var a) (.not (longnum b)))
  | .bis =>
      if a = .zero then some (fixarg b)
      else if b = .register .zero then some (.var a)
      else some (.arith .or (.var a) (fixarg b))
  | .xor => some (.arith .xor (.var a) (fixarg b))
  | .ornot =>
      if a = .zero then some (.not (fixarg b)) else some (.arith .or (.var a) (.not (fixarg b)))
  | .sll => some (.shl (.var a) (shiftarg b))
  | .srl => some (.shr (.var a) (shiftarg b))
  | .sra => some (.shr (.cast .long (.var a)) (shiftarg b))
  | .cmpeq =>
      some (.cond (.compare .eq (.var a) (fixarg b)) (.literal .int 1) (.literal .int 0))
  | .cmplt => some (comparison .long .lt a b)
  | .cmple => some (comparison .long .le a b)
  | .cmpult => some (comparison .ulong .lt a b)
  | .cmpule => some (comparison .ulong .le a b)
  | .cmpbge => some (.call cmpbge (.var a) (fixarg b))
  | .extbl => some (extract .uchar a b)
  | .extwl => some (extract .ushort a b)
  | .extll => some (extract .uint a b)
  | .insbl => some (.shl (.arith .and (.var a) (.literal .int 0xff)) (byteShift b))
  | .mskbl =>
      some (.arith .and (.var a) (.not (.shl (.literal .ulong 0xff) (byteShift b))))

/-- What the `if` of a conditional move asks. -/
def cmovCondition (condition : Condition) (a : Register) : CExpr :=
  let relation (r : Relation) : CExpr := .compare r (.cast .long (.var a)) (.literal .int 0)
  match condition with
  | .lbs => .arith .and (.var a) (.literal .int 1)
  | .lbc => .compare .eq (.arith .and (.var a) (.literal .int 1)) (.literal .int 0)
  | .eq => .compare .eq (.var a) (.literal .int 0)
  | .ge => relation .ge
  | .gt => relation .gt
  | .le => relation .le
  | .lt => relation .lt
  | .ne => .var a

/-- `(u64)(displacement) << 16` -/
def highDisplacement (displacement : BitVec 16) : CExpr :=
  .shl (.cast .ulong (.literal .int displacement.toInt)) (.literal .int 16)

/-- The lines for an instruction, with the overflow check that is pending. -/
def emitOperation (doCheckOflo : Bool) : Instr → List Line × Bool
  | .operate op a b c =>
      (match operateExpr op a b c with
        | some e => [.assign c e]
        | none => [], doCheckOflo)
  | .cmov condition a b c => ([.ifAssign (cmovCondition condition a) c (fixarg b)], doCheckOflo)
  | .lda a displacement b =>
      ([.assign a (if displacement = 0 then .var b
        else .arith .add (.var b) (.literal .int displacement.toInt))], doCheckOflo)
  | .ldah a displacement b =>
      ([.assign a (if b = .zero then highDisplacement displacement
        else .arith .add (.var b) (highDisplacement displacement))], doCheckOflo)
  | .checked op a b c => ([.builtinOverflow op (.var a) (fixarg b) c], true)
  | .trapb => (if doCheckOflo then [.checkOflo] else [], false)

def emitOperations : Bool → List Instr → List (List Line)
  | _, [] => []
  | doCheckOflo, i :: is =>
      (emitOperation doCheckOflo i).1 :: emitOperations (emitOperation doCheckOflo i).2 is

/-! ### Running it -/

structure Machine where
  regs : Registers
  oflo : Bool

/-- The machine after a line, or a jump to `arithmeticexception`. -/
inductive Ran where
  | next (m : Machine)
  | arithmeticException (m : Machine)

/-- The two `int32_t` of an overflow builtin, and its exact result. -/
def builtinExact (op : Checked) (x y : Value) : Int :=
  let m := (x.cast .int).number
  let n := (y.cast .int).number
  match op with
  | .addl => m + n
  | .subl => m - n
  | .mull => m * n

def Line.execute (m : Machine) : Line → Option Ran
  | .assign c e =>
      (e.eval m.regs).map fun x => .next { m with regs := Function.update m.regs c x.bits }
  | .ifAssign condition c e =>
      (condition.eval m.regs).bind fun x =>
        if x.bits = 0 then some (.next m)
        else (e.eval m.regs).map fun y =>
          .next { m with regs := Function.update m.regs c y.bits }
  | .builtinOverflow op a b c =>
      (a.eval m.regs).bind fun x => (b.eval m.regs).map fun y =>
        .next
          { regs := Function.update m.regs c
              ((BitVec.ofInt 32 (builtinExact op x y)).setWidth 64)
            oflo := !CType.fits .int (builtinExact op x y) }
  | .checkOflo => some (if m.oflo then .arithmeticException m else .next m)

def Line.declared : Line → Bool
  | .assign _ e => e.declared
  | .ifAssign condition _ e => condition.declared && e.declared
  | .builtinOverflow _ a b _ => a.declared && b.declared
  | .checkOflo => true

/-- The lines of one operation. -/
def executeLines (m : Machine) : List Line → Option Ran
  | [] => some (.next m)
  | line :: lines =>
      match line.execute m with
      | none => none
      | some (.next m) => executeLines m lines
      | some (.arithmeticException m) => some (.arithmeticException m)

/-- The registers after each operation, and whether an exception ended them. -/
structure Trace where
  regs : List Registers
  exception : Bool

def run (m : Machine) : List (List Line) → Option Trace
  | [] => some ⟨[], false⟩
  | lines :: rest =>
      match executeLines m lines with
      | none => none
      | some (.arithmeticException _) => some ⟨[], true⟩
      | some (.next m) => (run m rest).map fun t => ⟨m.regs :: t.regs, t.exception⟩

/-- Text with an identifier that is not declared is not compiled. -/
def runEmitted (m : Machine) (emitted : List (List Line)) : Option Trace :=
  if emitted.all fun lines => lines.all Line.declared then run m emitted else none

end Stub
