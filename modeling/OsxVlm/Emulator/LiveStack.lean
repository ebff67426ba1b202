import OsxVlm.Emulator.StackInstructions

/-!
# The live words of the stack

A stack ends at its stack pointer: the words above it are left over.  The instructions on the
stack do not see them, apart from the one that an operand was popped from, and where the
operand comes from makes no difference to them.
-/

namespace Ivory.Execute

/-- The stacks are the same up to the stack pointer. -/
structure Stack.Agrees (s t : Stack) : Prop where
  sp : t.sp = s.sp
  live : ∀ i ≤ s.sp, t.words i = s.words i

/-- The same kind of outcome, and the same stack. -/
def Outcome.Agrees : Outcome Stack → Outcome Stack → Prop
  | .next s, .next t => s.Agrees t
  | .illegalOperand _, .illegalOperand _ => True
  | .instructionException _, .instructionException _ => True
  | .fails, .fails => True
  | _, _ => False

/-- The operand is a fixnum, immediate or just popped. -/
def Stack.Holds (s : Stack) (op2 : Operand) (n : Integer) : Prop :=
  op2 = .immediate n ∨ op2 = .word (s.sp + 1) ∧ s.words (s.sp + 1) = ⟨typeFixnum, n⟩

/-- What an instruction does is settled by the live words and a fixnum operand. -/
def SeesLive (body : Stack → Operand → Outcome Stack) : Prop :=
  ∀ {s t : Stack} {op2 op2' : Operand} {n : Integer}, s.Agrees t → s.Holds op2 n →
    t.Holds op2' n → (body s op2).Agrees (body t op2')

namespace Stack

section Agrees

variable {s t : Stack} (h : s.Agrees t) {op2 : Operand} {n : Integer}

theorem Agrees.refl (s : Stack) : s.Agrees s := ⟨rfl, fun _ _ => rfl⟩

theorem Agrees.top (h : s.Agrees t) : t.top = s.top := by
  rw [Stack.top, h.sp]
  exact h.live _ le_rfl

theorem Holds.eq (h : s.Holds op2 n) : s.operand op2 = ⟨typeFixnum, n⟩ := by
  obtain rfl | ⟨rfl, hword⟩ := h
  · rfl
  · exact hword

/-- A write to a live word leaves the operand. -/
theorem Holds.set (h : s.Holds op2 n) {place : Int} (hplace : place ≤ s.sp) (o : LispObj) :
    (s.set place o).Holds op2 n := by
  obtain rfl | ⟨rfl, hword⟩ := h
  · exact .inl rfl
  · refine .inr ⟨rfl, ?_⟩
    rw [set_words_of_ne s o (by rw [set_sp]; omega)]
    exact hword

include h

theorem Agrees.set (place : Int) (o : LispObj) : (s.set place o).Agrees (t.set place o) := by
  refine ⟨h.sp, fun i hi => ?_⟩
  by_cases heq : i = place
  · subst heq
    rw [set_words_self, set_words_self]
  · rw [set_words_of_ne _ _ heq, set_words_of_ne _ _ heq]
    exact h.live i hi

theorem Agrees.push (o : LispObj) : (s.push o).Agrees (t.push o) := by
  refine ⟨by rw [push_sp, push_sp, h.sp], fun i hi => ?_⟩
  rw [push_sp] at hi
  by_cases heq : i = s.sp + 1
  · subst heq
    rw [push_words_top, ← h.sp, push_words_top]
  · rw [push_words_of_ne _ _ heq, push_words_of_ne _ _ (by rw [h.sp]; exact heq)]
    exact h.live i (by omega)

theorem Agrees.setFixnum (n : Integer) : (s.setFixnum n).Agrees (t.setFixnum n) := by
  rw [Stack.setFixnum, Stack.setFixnum, h.sp]
  exact h.set _ _

theorem Agrees.setData (n : Integer) : (s.setData n).Agrees (t.setData n) := by
  rw [Stack.setData, Stack.setData, h.sp, h.top]
  exact h.set _ _

theorem Agrees.setObject (o : LispObj) : (s.setObject o).Agrees (t.setObject o) := by
  rw [Stack.setObject, Stack.setObject, h.sp]
  exact h.set _ _

theorem Agrees.setPredicate (v : Bool) : (s.setPredicate v).Agrees (t.setPredicate v) := by
  rw [Stack.setPredicate, Stack.setPredicate, h.sp]
  exact h.set _ _

theorem Agrees.pushPredicate (v : Bool) : (s.pushPredicate v).Agrees (t.pushPredicate v) :=
  h.push _

theorem Agrees.pushFixnum (n : Integer) : (s.pushFixnum n).Agrees (t.pushFixnum n) := h.push _

end Agrees

end Stack

open Stack

section Bodies

/-- The two ways to leave the value of a predicate. -/
def LeavesLive (leave : Stack → Bool → Stack) : Prop :=
  ∀ {s t : Stack}, s.Agrees t → ∀ v, (leave s v).Agrees (leave t v)

theorem leavesLive_setPredicate : LeavesLive setPredicate := fun h => h.setPredicate
theorem leavesLive_pushPredicate : LeavesLive pushPredicate := fun h => h.pushPredicate

variable {s t : Stack} {op2 op2' : Operand} {n : Integer} {leave : Stack → Bool → Stack}

theorem agrees_binaryExceptions (h : s.Agrees t) (hop : s.Holds op2 n) (hop' : t.Holds op2' n) :
    (binaryTypeFixnumExceptions s op2).Agrees (binaryTypeFixnumExceptions t op2') := by
  rw [binaryTypeFixnumExceptions, binaryTypeFixnumExceptions, hop.eq, hop'.eq, h.top]
  split <;> trivial

theorem agrees_op2FixnumExceptions (hop : s.Holds op2 n) (hop' : t.Holds op2' n) :
    (op2FixnumExceptions s op2).Agrees (op2FixnumExceptions t op2') := by
  rw [op2FixnumExceptions, op2FixnumExceptions, hop.eq, hop'.eq]
  split <;> trivial

/-! ### Predicates -/

theorem seesLive_eq (hleave : LeavesLive leave) : SeesLive (eq leave) := by
  intro s t op2 op2' n h hop hop'
  rw [eq, eq, hop.eq, hop'.eq, h.top]
  exact hleave h _

theorem seesLive_eql (hleave : LeavesLive leave) : SeesLive (eql leave) := by
  intro s t op2 op2' n h hop hop'
  simp only [eql, hop.eq, hop'.eq, h.top]
  split
  · exact hleave h _
  split
  · exact hleave h _
  split
  · trivial
  · exact hleave h _

theorem seesLive_compare (hleave : LeavesLive leave) (test : Integer → Integer → Bool) :
    SeesLive fun s op2 => compare leave s op2 test := by
  intro s t op2 op2' n h hop hop'
  simp only [compare, hop.eq, hop'.eq, h.top]
  split
  · exact hleave h _
  · exact agrees_binaryExceptions h hop hop'

theorem seesLive_unsignedLessp (hleave : LeavesLive leave) : SeesLive (unsignedLessp leave) := by
  intro s t op2 op2' n h hop hop'
  rw [unsignedLessp, unsignedLessp, hop.eq, hop'.eq, h.top]
  exact hleave h _

/-- A fixnum is no list. -/
theorem endp_of_holds (hop : s.Holds op2 n) : endp s op2 = .illegalOperand s := by
  have hlist : tagType typeFixnum ≠ typeList := by decide
  have hnil : tagType typeFixnum ≠ typeNIL := by decide
  have hinstance : tagType typeFixnum ≠ typeListInstance := by decide
  have hspare : typeSpareP typeFixnum = false := by decide
  simp [endp, op2ListExceptions, op2SpareExceptions, hop.eq, hlist, hnil, hinstance, hspare]

theorem seesLive_endp : SeesLive endp := by
  intro s t op2 op2' n h hop hop'
  rw [endp_of_holds hop, endp_of_holds hop']
  trivial

theorem seesLive_testSign (test : Integer → Bool) :
    SeesLive fun s op2 => testSign s op2 test := by
  intro s t op2 op2' n h hop hop'
  simp only [testSign, hop.eq, hop'.eq]
  split
  · exact h.pushPredicate _
  · exact agrees_op2FixnumExceptions hop hop'

/-! ### Arithmetic -/

theorem seesLive_add : SeesLive add := by
  intro s t op2 op2' n h hop hop'
  simp only [add, hop.eq, hop'.eq, h.top]
  split
  · exact h.setData _
  · exact agrees_binaryExceptions h hop hop'

theorem seesLive_sub : SeesLive sub := by
  intro s t op2 op2' n h hop hop'
  simp only [sub, hop.eq, hop'.eq, h.top]
  split
  · exact h.setData _
  · exact agrees_binaryExceptions h hop hop'

theorem seesLive_unaryMinus : SeesLive unaryMinus := by
  intro s t op2 op2' n h hop hop'
  simp only [unaryMinus, hop.eq, hop'.eq]
  split
  · exact h.pushFixnum _
  · exact agrees_op2FixnumExceptions hop hop'

theorem seesLive_multiply : SeesLive multiply := by
  intro s t op2 op2' n h hop hop'
  simp only [multiply, hop.eq, hop'.eq, h.top]
  split
  · exact h.setData _
  · exact agrees_binaryExceptions h hop hop'

/-- A division is told by what it does with quotient and remainder. -/
theorem agrees_divide {deliver deliver' : Integer → Integer → Outcome Stack} (h : s.Agrees t)
    (hop : s.Holds op2 n) (hop' : t.Holds op2' n)
    (hdeliver : ∀ quotient remainder,
      (deliver quotient remainder).Agrees (deliver' quotient remainder)) :
    (divide s op2 deliver).Agrees (divide t op2' deliver') := by
  simp only [divide, hop.eq, hop'.eq, h.top]
  split
  · split
    · trivial
    split
    · trivial
    · exact hdeliver _ _
  · exact agrees_binaryExceptions h hop hop'

theorem agrees_leaveQuotient (h : s.Agrees t) (quotient remainder : Integer) :
    (leaveQuotient s quotient remainder).Agrees (leaveQuotient t quotient remainder) :=
  (h.setFixnum quotient).pushFixnum remainder

theorem seesLive_quotient : SeesLive quotient := by
  intro s t op2 op2' n h hop hop'
  exact agrees_divide h hop hop' fun q _ => h.setData q

theorem seesLive_floor : SeesLive floor := by
  intro s t op2 op2' n h hop hop'
  refine agrees_divide h hop hop' fun q r => ?_
  rw [hop.eq, hop'.eq]
  split
  · exact agrees_leaveQuotient h _ _
  split
  · exact agrees_leaveQuotient h _ _
  · exact agrees_leaveQuotient h _ _

theorem seesLive_ceiling : SeesLive ceiling := by
  intro s t op2 op2' n h hop hop'
  refine agrees_divide h hop hop' fun q r => ?_
  rw [hop.eq, hop'.eq]
  split
  · exact agrees_leaveQuotient h _ _
  split
  · exact agrees_leaveQuotient h _ _
  · exact agrees_leaveQuotient h _ _

theorem seesLive_truncate : SeesLive truncate := by
  intro s t op2 op2' n h hop hop'
  exact agrees_divide h hop hop' fun q r => agrees_leaveQuotient h q r

/-- The quotient is stored below the operand before the operand is read again. -/
theorem seesLive_round : SeesLive round := by
  intro s t op2 op2' n h hop hop'
  refine agrees_divide h hop hop' fun q r => ?_
  have hagain : (s.setFixnum (q + 1)).operand op2 = ⟨typeFixnum, n⟩ := (hop.set le_rfl _).eq
  have hagain' : (t.setFixnum (q + 1)).operand op2' = ⟨typeFixnum, n⟩ := (hop'.set le_rfl _).eq
  simp only [hop.eq, hop'.eq, hagain, hagain']
  split
  · exact (h.setFixnum _).pushFixnum _
  · exact agrees_leaveQuotient h _ _

theorem seesLive_rationalQuotient : SeesLive rationalQuotient := by
  intro s t op2 op2' n h hop hop'
  refine agrees_divide h hop hop' fun q r => ?_
  split
  · exact h.setData _
  · exact agrees_binaryExceptions h hop hop'

theorem seesLive_multiplyBignumStep : SeesLive multiplyBignumStep := by
  intro s t op2 op2' n h hop hop'
  simp only [multiplyBignumStep, hop.eq, hop'.eq, h.top]
  split
  · exact (h.setFixnum _).pushFixnum _
  · trivial

theorem seesLive_divideBignumStep : SeesLive divideBignumStep := by
  intro s t op2 op2' n h hop hop'
  have hbelow : t.words (t.sp - 1) = s.words (s.sp - 1) := by
    rw [h.sp]
    exact h.live _ (by omega)
  simp only [divideBignumStep, hop.eq, hop'.eq, h.top, hbelow]
  split
  · split
    · trivial
    split
    · trivial
    · rw [h.sp]
      exact (h.set _ _).setData _
  · trivial

/-! ### Logical instructions and shifts -/

theorem seesLive_choose (better : Integer → Integer → Bool) :
    SeesLive fun s op2 => choose s op2 better := by
  intro s t op2 op2' n h hop hop'
  simp only [choose, hop.eq, hop'.eq, h.top]
  split
  · split
    · exact h.setObject _
    · exact h
  · exact agrees_binaryExceptions h hop hop'

theorem seesLive_logical (f : Integer → Integer → Integer) :
    SeesLive fun s op2 => logical s op2 f := by
  intro s t op2 op2' n h hop hop'
  simp only [logical, hop.eq, hop'.eq, h.top]
  split
  · exact h.setData _
  · exact agrees_binaryExceptions h hop hop'

theorem seesLive_unchecked (f : Integer → Integer → Integer) :
    SeesLive fun s op2 => unchecked s op2 f := by
  intro s t op2 op2' n h hop hop'
  simp only [unchecked, hop.eq, hop'.eq, h.top]
  split
  · exact h.setData _
  · trivial

theorem seesLive_ash : SeesLive ash := by
  intro s t op2 op2' n h hop hop'
  simp only [ash, hop.eq, hop'.eq, h.top]
  split
  · split
    · exact h
    split
    · split
      · exact h.setFixnum _
      · trivial
    · exact h.setFixnum _
  · exact agrees_binaryExceptions h hop hop'

theorem seesLive_lsh : SeesLive lsh := by
  intro s t op2 op2' n h hop hop'
  simp only [lsh, hop.eq, hop'.eq, h.top]
  split
  · split
    · exact h
    split
    · exact h.setFixnum _
    split
    · exact h.setFixnum _
    · exact h.setFixnum _
  · trivial

/-! ### Tags and pointers -/

theorem seesLive_pointerPlus : SeesLive pointerPlus := by
  intro s t op2 op2' n h hop hop'
  rw [pointerPlus, pointerPlus, hop.eq, hop'.eq, h.top]
  exact h.setData _

theorem seesLive_pointerDifference : SeesLive pointerDifference := by
  intro s t op2 op2' n h hop hop'
  rw [pointerDifference, pointerDifference, hop.eq, hop'.eq, h.top]
  exact h.setFixnum _

theorem seesLive_tag : SeesLive tag := by
  intro s t op2 op2' n h hop hop'
  rw [tag, tag, hop.eq, hop'.eq]
  exact h.pushFixnum _

theorem seesLive_setTag : SeesLive setTag := by
  intro s t op2 op2' n h hop hop'
  simp only [setTag, hop.eq, hop'.eq, h.top, h.sp]
  split
  · exact h.set _ _
  · trivial

end Bodies

/-! ### The code for immediate operands -/

section Immediate

variable (leave : Stack → Bool → Stack) (s : Stack) (n : Integer)

theorem fixnumEqual_eq : fixnumEqual leave s n = eq leave s (.immediate n) := by
  have hcode : (typeFixnumP s.top.tag && decide (s.top.data = n)) =
      objectEqP ⟨typeFixnum, n⟩ s.top := by
    have htype : tagType typeFixnum = typeFixnum := rfl
    rw [objectEqP, typeFixnumP, htype, Bool.and_comm]
    simp only [eq_comm]
  rw [fixnumEqual, hcode]
  rfl

/-- No fixnum is EQL to anything that it is not EQ to. -/
theorem eql_immediate : eql leave s (.immediate n) = eq leave s (.immediate n) := by
  have htype : tagType typeFixnum = typeFixnum := rfl
  show (if tagType s.top.tag ≠ tagType typeFixnum then _ else if s.top.data = n then _ else _) =
    Outcome.next (leave s (objectEqP ⟨typeFixnum, n⟩ s.top))
  rw [htype]
  by_cases hfix : tagType s.top.tag = typeFixnum
  · have hkey : eqlKey s.top = false := by
      rw [eqlKey, hfix]
      rfl
    rw [if_neg (not_not.mpr hfix), hkey]
    by_cases hdata : s.top.data = n
    · simp [objectEqP, hfix, hdata, htype]
    · simp [objectEqP, hfix, hdata, htype, Ne.symm hdata]
  · rw [if_pos hfix]
    simp [objectEqP, htype, Ne.symm hfix]

theorem equalNumber_immediate (h : tagType s.top.tag = typeFixnum) :
    equalNumber leave s (.immediate n) = eq leave s (.immediate n) := by
  have hboth : binaryTypeFixnumP typeFixnum s.top.tag = true :=
    (binaryTypeFixnumP_iff _ _).mpr ⟨rfl, h⟩
  have htype : tagType typeFixnum = typeFixnum := rfl
  show (if binaryTypeFixnumP typeFixnum s.top.tag = true then _ else _) =
    Outcome.next (leave s (objectEqP ⟨typeFixnum, n⟩ s.top))
  rw [if_pos hboth]
  have heq : objectEqP ⟨typeFixnum, n⟩ s.top = decide (n = s.top.data) := by
    simp [objectEqP, h, htype]
  rw [heq]
  rfl

/-- The label of the numeric equality takes an exception where the top is no fixnum. -/
theorem equalNumber_ne_next {leave : Stack → Bool → Stack} {s t : Stack} {op2 : Operand}
    {n : Integer} (hop : s.Holds op2 n) (h : tagType s.top.tag ≠ typeFixnum) :
    equalNumber leave s op2 ≠ .next t := by
  have hboth : ¬ binaryTypeFixnumP typeFixnum s.top.tag = true := fun hc =>
    h ((binaryTypeFixnumP_iff _ _).mp hc).2
  rw [equalNumber, compare, hop.eq, if_neg hboth, binaryTypeFixnumExceptions]
  split <;> simp

theorem unchecked_immediate (f : Integer → Integer → Integer) :
    uncheckedImmediate s n f = unchecked s (.immediate n) f := by
  have hiff : binaryTypeFixnumP typeFixnum s.top.tag = typeFixnumP s.top.tag := by
    rw [Bool.eq_iff_iff, binaryTypeFixnumP_iff, typeFixnumP, decide_eq_true_iff]
    exact ⟨fun h => h.2, fun h => ⟨rfl, h⟩⟩
  show _ = if binaryTypeFixnumP typeFixnum s.top.tag = true then _ else _
  rw [hiff]
  rfl

theorem testSign_immediate (test : Integer → Bool) :
    testSign s (.immediate n) test = .next (s.pushPredicate (test n)) := by
  have hfix : typeFixnumP typeFixnum = true := by decide
  exact if_pos hfix

theorem setTag_immediate : setTag s (.immediate n) = setTagImmediate s n := by
  have htype : tagType typeFixnum = typeFixnum := by decide
  exact if_pos htype

/-- The operand of the immediate form is a byte. -/
theorem unaryMinus_immediate (byte : BitVec 8) :
    unaryMinus s (.immediate (byte.setWidth 32)) = unaryMinusImmediate s byte := by
  have hne : (byte.setWidth 32 : Integer) ≠ fixnumMin := by
    revert byte
    decide
  have hfix : typeFixnumP typeFixnum = true := by decide
  exact if_pos ⟨hfix, hne⟩

end Immediate

end Ivory.Execute
