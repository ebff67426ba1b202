import OsxVlm.Emulator.Calls

/-!
# Operands of the instructions

An instruction has its operand in the immediate register or in a word of the stack, where
it stays while the instruction runs, so that a write to that word changes the operand too.
-/

namespace Ivory.Execute

/-- What `op2` points to. -/
inductive Operand
  | immediate (n : Integer)
  | word (place : Int)

structure Stack where
  words : Int → LispObj
  sp : Int

inductive Outcome (σ : Type)
  | next (s : σ)
  | illegalOperand (s : σ)
  | instructionException (s : σ)
  /-- A division by zero, which the emulator does not survive. -/
  | fails

def typeFixnumP (tag : Tag) : Bool := tagType tag = typeFixnum

/-- `TypeNumericP`. -/
def typeNumericP (tag : Tag) : Bool := tag &&& 0o70 = 0o10

/-- `BinaryTypeFixnumP`. -/
def binaryTypeFixnumP (tag1 tag2 : Tag) : Bool :=
  (tag1 ^^^ typeFixnum ||| tag2 ^^^ typeFixnum) &&& 0x3F = 0

def binaryTypeNumericP (tag1 tag2 : Tag) : Bool := typeNumericP tag1 && typeNumericP tag2

theorem typeNumericP_of_fixnum {tag : Tag} (h : tagType tag = typeFixnum) :
    typeNumericP tag = true := by
  have hall : ∀ tag : Tag, tagType tag = typeFixnum → typeNumericP tag = true := by
    decide +kernel
  exact hall tag h

theorem binaryTypeFixnumP_iff (tag1 tag2 : Tag) :
    binaryTypeFixnumP tag1 tag2 = true ↔ tagType tag1 = typeFixnum ∧ tagType tag2 = typeFixnum := by
  have hxor : ∀ tag : Tag, (tag ^^^ typeFixnum) &&& 0x3F = 0 ↔ tagType tag = typeFixnum := by
    decide +kernel
  have hor : ∀ a b : Tag, a ||| b = 0 ↔ a = 0 ∧ b = 0 := fun a b => BitVec.or_eq_zero_iff
  rw [binaryTypeFixnumP, decide_eq_true_iff, BitVec.and_or_distrib_right, hor, hxor, hxor]

namespace Stack

def top (s : Stack) : LispObj := s.words s.sp

/-- What `op2` points to at this time. -/
def operand (s : Stack) : Operand → LispObj
  | .immediate n => ⟨typeFixnum, n⟩
  | .word place => s.words place

def set (s : Stack) (place : Int) (o : LispObj) : Stack :=
  { s with words := Function.update s.words place o }

/-- An assignment to `sp->DATA`. -/
def setData (s : Stack) (n : Integer) : Stack := s.set s.sp ⟨s.top.tag, n⟩

def setFixnum (s : Stack) (n : Integer) : Stack := s.set s.sp ⟨typeFixnum, n⟩

def push (s : Stack) (o : LispObj) : Stack := { s.set (s.sp + 1) o with sp := s.sp + 1 }

def pushFixnum (s : Stack) (n : Integer) : Stack := s.push ⟨typeFixnum, n⟩

variable (s : Stack) (o : LispObj) {place i : Int}

@[simp] theorem set_sp : (s.set place o).sp = s.sp := rfl
@[simp] theorem set_words_self : (s.set place o).words place = o := Function.update_self _ _ _

@[simp] theorem set_words_of_ne (h : i ≠ place) : (s.set place o).words i = s.words i :=
  Function.update_of_ne h _ _

@[simp] theorem push_sp : (s.push o).sp = s.sp + 1 := rfl
@[simp] theorem push_words_top : (s.push o).words (s.sp + 1) = o := Function.update_self _ _ _

@[simp] theorem push_words_of_ne (h : i ≠ s.sp + 1) : (s.push o).words i = s.words i :=
  Function.update_of_ne h _ _

end Stack

/-- Where `BinaryTypeFixnumExceptions` goes. -/
def binaryTypeFixnumExceptions (s : Stack) (op2 : Operand) : Outcome Stack :=
  if binaryTypeNumericP (s.operand op2).tag s.top.tag then .instructionException s
  else .illegalOperand s

def op2FixnumExceptions (s : Stack) (op2 : Operand) : Outcome Stack :=
  if typeNumericP (s.operand op2).tag then .instructionException s else .illegalOperand s

end Ivory.Execute
