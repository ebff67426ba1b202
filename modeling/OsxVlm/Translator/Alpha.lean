import Mathlib

/-!
# Integer operate instructions of the Alpha

A register has 64 bits; longword results are sign-extended.  The instructions that
check for overflow leave the exception to the next trap barrier.
-/

namespace Alpha

inductive Register where
  | r (number : Fin 31)
  | zero
  deriving DecidableEq

/-- There are registers besides the one that reads as zero. -/
theorem neZero_registers : NeZero 31 := ⟨by decide⟩

/-- The second operand: a register, or a literal of eight bits. -/
inductive Operand where
  | register (register : Register)
  | literal (n : BitVec 8)
  deriving DecidableEq

inductive Operate where
  | addl | addq | subl | subq
  | s4addq | s8addq | s4subq | s8subq
  | mulq
  | and | bic | bis | xor | ornot
  | sll | srl | sra
  | cmpeq | cmplt | cmple | cmpult | cmpule
  | cmpbge
  | extbl | extwl | extll | insbl | mskbl
  deriving DecidableEq

/-- Conditions of a conditional move. -/
inductive Condition where
  | lbs | lbc | eq | ge | gt | le | lt | ne
  deriving DecidableEq

/-- `ADDL/V`, `SUBL/V` and `MULL/V`. -/
inductive Checked where
  | addl | subl | mull
  deriving DecidableEq

inductive Instr where
  | operate (op : Operate) (a : Register) (b : Operand) (c : Register)
  | cmov (condition : Condition) (a : Register) (b : Operand) (c : Register)
  | lda (a : Register) (displacement : BitVec 16) (b : Register)
  | ldah (a : Register) (displacement : BitVec 16) (b : Register)
  | checked (op : Checked) (a : Register) (b : Operand) (c : Register)
  | trapb
  deriving DecidableEq

/-- The register that an instruction writes. -/
def Instr.destination : Instr → Option Register
  | .operate _ _ _ c | .cmov _ _ _ c | .checked _ _ _ c => some c
  | .lda a _ _ | .ldah a _ _ => some a
  | .trapb => none

abbrev Registers := Register → BitVec 64

def Operand.value (regs : Registers) : Operand → BitVec 64
  | .register r => regs r
  | .literal n => n.setWidth 64

/-! ### What they compute -/

def signExtendLongword (x : BitVec 64) : BitVec 64 := (x.setWidth 32).signExtend 64

/-- Byte `i`, from the low end. -/
def byte (x : BitVec 64) (i : Nat) : BitVec 8 := x.extractLsb' (8 * i) 8

/-- The place of the byte that the low three bits number. -/
def byteLocation (x : BitVec 64) : Nat := 8 * (x.toNat % 8)

/-- Bit `i` is set when byte `i` of `a` is not below that of `b`. -/
def compareBytes (a b : BitVec 64) : BitVec 64 :=
  (List.range 8).foldl (fun r i => if byte b i ≤ byte a i then r ||| BitVec.twoPow 64 i else r) 0

def truth (b : Bool) : BitVec 64 := if b then 1 else 0

def Operate.result : Operate → BitVec 64 → BitVec 64 → BitVec 64
  | .addl, a, b => signExtendLongword (a + b)
  | .addq, a, b => a + b
  | .subl, a, b => signExtendLongword (a - b)
  | .subq, a, b => a - b
  | .s4addq, a, b => (a <<< 2) + b
  | .s8addq, a, b => (a <<< 3) + b
  | .s4subq, a, b => (a <<< 2) - b
  | .s8subq, a, b => (a <<< 3) - b
  | .mulq, a, b => a * b
  | .and, a, b => a &&& b
  | .bic, a, b => a &&& ~~~b
  | .bis, a, b => a ||| b
  | .xor, a, b => a ^^^ b
  | .ornot, a, b => a ||| ~~~b
  | .sll, a, b => a <<< (b.toNat % 64)
  | .srl, a, b => a >>> (b.toNat % 64)
  | .sra, a, b => a.sshiftRight (b.toNat % 64)
  | .cmpeq, a, b => truth (a = b)
  | .cmplt, a, b => truth (a.toInt < b.toInt)
  | .cmple, a, b => truth (a.toInt ≤ b.toInt)
  | .cmpult, a, b => truth (a < b)
  | .cmpule, a, b => truth (a ≤ b)
  | .cmpbge, a, b => compareBytes a b
  | .extbl, a, b => ((a >>> byteLocation b).setWidth 8).setWidth 64
  | .extwl, a, b => ((a >>> byteLocation b).setWidth 16).setWidth 64
  | .extll, a, b => ((a >>> byteLocation b).setWidth 32).setWidth 64
  | .insbl, a, b => (a.setWidth 8).setWidth 64 <<< byteLocation b
  | .mskbl, a, b => a &&& ~~~(0xFF#64 <<< byteLocation b)

def Condition.holds : Condition → BitVec 64 → Bool
  | .lbs, a => a.getLsbD 0
  | .lbc, a => !a.getLsbD 0
  | .eq, a => a = 0
  | .ge, a => 0 ≤ a.toInt
  | .gt, a => 0 < a.toInt
  | .le, a => a.toInt ≤ 0
  | .lt, a => a.toInt < 0
  | .ne, a => a ≠ 0

def Checked.exact : Checked → BitVec 64 → BitVec 64 → Int
  | .addl, a, b => (a.setWidth 32).toInt + (b.setWidth 32).toInt
  | .subl, a, b => (a.setWidth 32).toInt - (b.setWidth 32).toInt
  | .mull, a, b => (a.setWidth 32).toInt * (b.setWidth 32).toInt

/-- The exact result does not fit a longword. -/
def Checked.overflows (op : Checked) (a b : BitVec 64) : Bool :=
  !decide (-2 ^ 31 ≤ op.exact a b ∧ op.exact a b < 2 ^ 31)

def Checked.longword (op : Checked) (a b : BitVec 64) : BitVec 32 := BitVec.ofInt 32 (op.exact a b)

/-- The registers after the instruction. -/
def Instr.execute (regs : Registers) : Instr → Registers
  | .operate op a b c => Function.update regs c (op.result (regs a) (b.value regs))
  | .cmov condition a b c =>
      if condition.holds (regs a) then Function.update regs c (b.value regs) else regs
  | .lda a displacement b => Function.update regs a (regs b + displacement.signExtend 64)
  | .ldah a displacement b =>
      Function.update regs a (regs b + displacement.signExtend 64 <<< 16)
  | .checked op a b c =>
      Function.update regs c ((op.longword (regs a) (b.value regs)).signExtend 64)
  | .trapb => regs

def Instr.overflows (regs : Registers) : Instr → Bool
  | .checked op a b _ => op.overflows (regs a) (b.value regs)
  | _ => false

end Alpha
