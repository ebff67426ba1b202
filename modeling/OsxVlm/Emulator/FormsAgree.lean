import OsxVlm.Emulator.OperandForms

/-!
# When immediate and popped operands agree

Both forms run the same code on machines that differ above the top of the stack, so they agree
unless the code is not the same or the word above the top is seen.
-/

namespace Ivory.Execute

open Stack

attribute [local instance] neZero_four

/-! ### One round of fuel -/

/-- The runs end alike, or neither ends. -/
def SameRun (x y : Run Machine) : Prop :=
  match x.run, y.run with
  | some r, some r' => SameResult r r'
  | none, none => True
  | _, _ => False

section SameRun

variable {x y : Run Machine} {m n : Machine}

theorem SameRun.refl (x : Run Machine) : SameRun x x := by
  unfold SameRun
  cases x.run with
  | none => trivial
  | some r => exact SameResult.refl r

theorem sameRun_throw (e : Exception) : SameRun (throw e) (throw e) := SameRun.refl _

theorem sameRun_pure (h : m.Agrees n) : SameRun (pure m) (pure n) := h

theorem Machine.Agrees.dispatched (h : m.Agrees n) (i : TwoForms) (nextPc : LispObj) :
    (i.dispatched nextPc m).Agrees (i.dispatched nextPc n) := by
  refine ⟨?_, h.live⟩
  rw [h.rest]
  rfl

theorem SameRun.dispatched (h : SameRun x y) (i : TwoForms) (nextPc : LispObj) :
    SameRun (i.dispatched nextPc <$> x) (i.dispatched nextPc <$> y) := by
  unfold SameRun at h ⊢
  rw [ExceptT.run_map, ExceptT.run_map]
  cases hx : x.run with
  | none =>
    cases hy : y.run with
    | none => trivial
    | some r =>
      rw [hx, hy] at h
      exact h.elim
  | some r =>
    cases hy : y.run with
    | none =>
      rw [hx, hy] at h
      exact h.elim
    | some r' =>
      rw [hx, hy] at h
      cases r with
      | error e =>
        cases r' with
        | error f => exact h
        | ok n => exact h.elim
      | ok m =>
        cases r' with
        | error f => exact h.elim
        | ok n => exact Machine.Agrees.dispatched h i nextPc

theorem sameExecution_of_sameRun {x y : Nat → Run Machine} (h : ∀ fuel, SameRun (x fuel) (y fuel)) :
    SameExecution x y := by
  constructor
  · intro fuel r hr
    have hfuel := h fuel
    unfold SameRun at hfuel
    rw [hr] at hfuel
    cases hy : (y fuel).run with
    | none =>
      rw [hy] at hfuel
      exact hfuel.elim
    | some r' =>
      rw [hy] at hfuel
      exact ⟨fuel, r', hy, hfuel⟩
  · intro fuel r' hr'
    have hfuel := h fuel
    unfold SameRun at hfuel
    rw [hr'] at hfuel
    cases hx : (x fuel).run with
    | none =>
      rw [hx] at hfuel
      exact hfuel.elim
    | some r =>
      rw [hx] at hfuel
      exact ⟨fuel, r, hx, hfuel⟩

end SameRun

/-! ### Instructions on the stack -/

section OnStack

variable {m n : Machine} {body body' : Stack → Outcome Stack}

theorem Machine.Agrees.operands (h : m.Agrees n) : m.operands.Agrees n.operands :=
  ⟨h.sp, h.live⟩

theorem Machine.Agrees.withOperands (h : m.Agrees n) {s t : Stack} (hs : s.Agrees t) :
    (m.withOperands s).Agrees (n.withOperands t) := by
  refine ⟨?_, hs.live⟩
  rw [Machine.withOperands, h.rest, hs.sp]
  rfl

theorem Machine.Agrees.onStack (h : m.Agrees n)
    (hbody : (body m.operands).Agrees (body' n.operands)) :
    SameRun (m.onStack body) (n.onStack body') := by
  unfold Machine.onStack
  revert hbody
  cases body m.operands <;> cases body' n.operands <;> intro hbody <;>
    first
    | exact sameRun_pure (h.withOperands hbody)
    | exact sameRun_throw _
    | exact hbody.elim

end OnStack

/-! ### The two machines -/

section Above

variable (m : Machine) (above : LispObj) (n : Integer)

theorem Machine.withAbove_agrees (above' : LispObj) :
    (m.withAbove above).Agrees (m.withAbove above') := by
  refine ⟨rfl, fun i hi => ?_⟩
  have hne : i ≠ m.sp + 1 := by
    have : i ≤ m.sp := hi
    omega
  exact (Function.update_of_ne hne _ _).trans (Function.update_of_ne hne _ _).symm

/-- Once its operand is popped the machine is as it was, with the operand above the top. -/
theorem Machine.pushFixnum_pop : (m.pushFixnum n).pop 1 = m.withAbove ⟨typeFixnum, n⟩ := by
  have hsp : m.sp + 1 - 1 = m.sp := by omega
  unfold Machine.pop Machine.withAbove
  show ({ m with stack := _, sp := m.sp + 1 - 1 } : Machine) = _
  rw [hsp]
  rfl

theorem Machine.operand_above :
    (m.withAbove ⟨typeFixnum, n⟩).operand (.word (m.sp + 1)) = ⟨typeFixnum, n⟩ :=
  Function.update_self _ _ _

theorem TwoForms.popped_pushFixnum {i : TwoForms} (h : i ≠ .push) (fuel : Nat) :
    i.popped fuel (m.pushFixnum n) =
      i.execute fuel (m.withAbove ⟨typeFixnum, n⟩) (.word (m.sp + 1)) := by
  rw [← Machine.pushFixnum_pop]
  cases i <;> first | rfl | exact absurd rfl h

end Above

section Forms

variable {i : TwoForms} {byte : BitVec 8} {nextPc : LispObj} {m : Machine}

/-- The forms agree when they do so on every word above the top. -/
theorem formsAgree_of_sameRun
    (h : ∀ above fuel, SameRun (i.immediate fuel (m.withAbove above) byte)
      (i.popped fuel (m.pushFixnum (i.decode byte)))) : FormsAgree i byte nextPc m :=
  fun above => sameExecution_of_sameRun fun fuel => (h above fuel).dispatched i nextPc

theorem formsAgree_of_seesLive {body : Stack → Operand → Outcome Stack} (hsees : SeesLive body)
    (hne : i ≠ .push)
    (himm : ∀ fuel above, i.immediate fuel (m.withAbove above) byte =
      (m.withAbove above).onStack fun s => body s (.immediate (i.decode byte)))
    (hexecute : ∀ fuel l op2, i.execute fuel l op2 = l.onStack fun s => body s op2) :
    FormsAgree i byte nextPc m := by
  apply formsAgree_of_sameRun
  intro above fuel
  rw [himm, TwoForms.popped_pushFixnum m _ hne, hexecute]
  have hagrees := m.withAbove_agrees above ⟨typeFixnum, i.decode byte⟩
  exact hagrees.onStack (hsees hagrees.operands (.inl rfl)
    (.inr ⟨rfl, m.operand_above (i.decode byte)⟩))

theorem FormsAgree.overlooks (h : FormsAgree i byte nextPc m) : Overlooks i byte nextPc m :=
  fun above above' => (h above).trans (h above').symm

/-- Where the machine is the same the forms agree if the word above the top is overlooked. -/
theorem formsAgree_iff_overlooks
    (h : ∀ fuel, i.immediate fuel (m.withAbove ⟨typeFixnum, i.decode byte⟩) byte =
      i.popped fuel (m.pushFixnum (i.decode byte))) :
    FormsAgree i byte nextPc m ↔ Overlooks i byte nextPc m := by
  have hsame : i.executeImmediate byte nextPc (m.withAbove ⟨typeFixnum, i.decode byte⟩) =
      i.executePopped nextPc (m.pushFixnum (i.decode byte)) := by
    funext fuel
    rw [TwoForms.executeImmediate, TwoForms.executePopped, h]
  refine ⟨FormsAgree.overlooks, fun hoverlooks above => ?_⟩
  rw [← hsame]
  exact hoverlooks above _

end Forms

/-! ### Instructions that only write memory -/

section Registers

/-- An instruction that sees the live words, the registers and its operand. -/
def SeesRegisters (body : Machine → Operand → Run Machine) : Prop :=
  ∀ {m n : Machine} {op2 op2' : Operand}, m.Agrees n → m.operand op2 = n.operand op2' →
    SameRun (body m op2) (body n op2')

variable {m n : Machine}

theorem Machine.Agrees.exists_stack (h : m.Agrees n) :
    ∃ stack, n = { m with stack := stack } ∧ ∀ i ≤ m.sp, stack i = m.stack i :=
  ⟨n.stack, h.rest, h.live⟩

theorem Machine.Agrees.top (h : m.Agrees n) : n.top = m.top := by
  rw [Machine.top, h.sp]
  exact h.live _ le_rfl

theorem Machine.Agrees.pop (h : m.Agrees n) {k : Int} (hk : 0 ≤ k) : (m.pop k).Agrees (n.pop k) := by
  obtain ⟨stack, rfl, hlive⟩ := h.exists_stack
  refine ⟨rfl, fun i hi => hlive i ?_⟩
  have : i ≤ m.sp - k := hi
  omega

theorem Machine.Agrees.setTop (h : m.Agrees n) (o : LispObj) :
    (m.setTop o).Agrees (n.setTop o) := by
  rw [Machine.setTop, Machine.setTop, h.sp]
  exact h.withOperands (h.operands.set _ _)

/-- A word above the stack pointer is written in both machines. -/
theorem Machine.Agrees.write (h : m.Agrees n) (vma : Integer) (o : LispObj) :
    (m.write vma o).Agrees (n.write vma o) := by
  obtain ⟨stack, rfl, hlive⟩ := h.exists_stack
  refine ⟨rfl, fun i hi => ?_⟩
  have hi : i ≤ m.sp := hi
  show (if (vma - m.stackCacheBase).toNat < 4 * 256 then
      Function.update stack (vma - m.stackCacheBase).toNat o else stack) i =
    (if (vma - m.stackCacheBase).toNat < 4 * 256 then
      Function.update m.stack (vma - m.stackCacheBase).toNat o else m.stack) i
  split
  · by_cases heq : i = (vma - m.stackCacheBase).toNat
    · rw [heq, Function.update_self, Function.update_self]
    · rw [Function.update_of_ne heq, Function.update_of_ne heq]
      exact hlive i hi
  · exact hlive i hi

theorem seesRegisters_blockWrite (k : Fin 4) : SeesRegisters fun m op2 => m.blockWrite op2 k := by
  intro m n op2 op2' h hop
  have hwrite := h.write (m.bar k).data (m.operand op2)
  have hbar : n.bar = m.bar := by rw [h.rest]
  simp only [Machine.blockWrite, ← hop, hbar]
  obtain ⟨stack, hstack, hlive⟩ := hwrite.exists_stack
  rw [hstack]
  exact sameRun_pure ⟨rfl, hlive⟩

theorem seesRegisters_memoryWrite : SeesRegisters Machine.memoryWrite := by
  intro m n op2 op2' h hop
  simp only [Machine.memoryWrite, ← hop, h.top]
  split
  · exact sameRun_throw _
  · exact sameRun_pure ((h.write _ _).pop (by decide))

theorem seesRegisters_aluInstruction : SeesRegisters Machine.aluInstruction := by
  intro m n op2 op2' h hop
  have halu : n.alu = m.alu := by rw [h.rest]
  simp only [Machine.aluInstruction, Machine.binaryExceptions, ← hop, h.top, halu]
  split
  · exact sameRun_throw _
  · cases Alu.apply { m.alu with aluOverflow := false } m.top.data (m.operand op2).data with
    | none => exact sameRun_throw _
    | some result =>
      obtain ⟨result, alu⟩ := result
      dsimp only
      split
      · exact sameRun_throw _
      · refine sameRun_pure (Machine.Agrees.setTop ?_ _)
        obtain ⟨stack, rfl, hlive⟩ := h.exists_stack
        exact ⟨rfl, hlive⟩

theorem seesRegisters_allocateListBlock : SeesRegisters Machine.allocateListBlock := by
  intro m n op2 op2' h hop
  have hcache : n.listCache = m.listCache := by rw [h.rest]
  simp only [Machine.allocateListBlock, Machine.allocateBlock, ← hop, h.top, hcache]
  split
  · exact sameRun_throw _
  split
  · exact sameRun_throw _
  · obtain ⟨stack, hstack, hlive⟩ := (h.setTop m.listCache.address.cdrNext).exists_stack
    rw [hstack]
    exact sameRun_pure ⟨rfl, hlive⟩

theorem formsAgree_of_seesRegisters {i : TwoForms} {byte : BitVec 8} {nextPc : LispObj}
    {body : Machine → Operand → Run Machine} (hsees : SeesRegisters body) (hne : i ≠ .push)
    (himm : ∀ fuel l, i.immediate fuel l byte = body l (.immediate (i.decode byte)))
    (hexecute : ∀ fuel l op2, i.execute fuel l op2 = body l op2) :
    FormsAgree i byte nextPc m := by
  apply formsAgree_of_sameRun
  intro above fuel
  rw [himm, TwoForms.popped_pushFixnum m _ hne, hexecute]
  exact hsees (m.withAbove_agrees above _) (m.operand_above _).symm

end Registers

/-! ### Instructions that read memory -/

section Memory

variable {i : TwoForms} {byte : BitVec 8} {nextPc : LispObj} {m : Machine}

/-- From one label the forms read their operand alike. -/
theorem formsAgree_iff_of_operand (hne : i ≠ .push)
    (himm : ∀ fuel l, i.immediate fuel l byte = i.execute fuel l (.immediate (i.decode byte)))
    (hoperand : ∀ fuel (l : Machine) op2 op2', l.operand op2 = l.operand op2' →
      i.execute fuel l op2 = i.execute fuel l op2') :
    FormsAgree i byte nextPc m ↔ Overlooks i byte nextPc m := by
  apply formsAgree_iff_overlooks
  intro fuel
  rw [himm, TwoForms.popped_pushFixnum m _ hne]
  exact hoperand _ _ _ _ (m.operand_above _).symm

end Memory

/-! ### Completion -/

section Completion

variable {x y : Nat → Run Machine} {i : TwoForms} {byte : BitVec 8} {nextPc : LispObj}
  {m n : Machine}

theorem SameExecution.completes (h : SameExecution x y) : Completes x ↔ Completes y := by
  constructor
  · intro hx
    obtain ⟨fuel, l, hl⟩ := hx
    obtain ⟨fuel', r', hr', hsame⟩ := h.left fuel _ hl
    cases r' with
    | ok l' => exact ⟨fuel', l', hr'⟩
    | error e => exact hsame.elim
  · intro hy
    obtain ⟨fuel, l, hl⟩ := hy
    obtain ⟨fuel', r', hr', hsame⟩ := h.right fuel _ hl
    cases r' with
    | ok l' => exact ⟨fuel', l', hr'⟩
    | error e => exact hsame.elim

theorem SameExecution.trapsWith (h : SameExecution x y) (e : Exception) :
    TrapsWith x e ↔ TrapsWith y e := by
  constructor
  · intro hx
    obtain ⟨fuel, hfuel⟩ := hx
    obtain ⟨fuel', r', hr', hsame⟩ := h.left fuel _ hfuel
    cases r' with
    | ok l => exact hsame.elim
    | error e' =>
      obtain rfl : e = e' := hsame
      exact ⟨fuel', hr'⟩
  · intro hy
    obtain ⟨fuel, hfuel⟩ := hy
    obtain ⟨fuel', r', hr', hsame⟩ := h.right fuel _ hfuel
    cases r' with
    | ok l => exact hsame.elim
    | error e' =>
      obtain rfl : e' = e := hsame
      exact ⟨fuel', hr'⟩

section Map

variable {α β : Type} (f : α → β) (x : Nat → Run α)

theorem run_map_eq_ok {x : Run α} {b : β} :
    (f <$> x).run = some (.ok b) ↔ ∃ a, x.run = some (.ok a) ∧ f a = b := by
  rw [ExceptT.run_map]
  cases x.run with
  | none => simp
  | some r => cases r <;> simp [Except.map]

theorem run_bind_eq_ok {f : α → Run β} {x : Run α} {b : β} :
    (x >>= f).run = some (.ok b) ↔ ∃ a, x.run = some (.ok a) ∧ (f a).run = some (.ok b) := by
  rw [ExceptT.run_bind]
  cases x.run with
  | none => simp
  | some r => cases r <;> simp

/-- What follows a run is told by its results. -/
theorem bind_congr_of_ok {f g : α → Run β} {x : Run α}
    (h : ∀ a, x.run = some (.ok a) → f a = g a) : x >>= f = x >>= g := by
  apply ExceptT.ext
  rw [ExceptT.run_bind, ExceptT.run_bind]
  cases hx : x.run with
  | none => rfl
  | some r =>
    cases r with
    | error e => rfl
    | ok a => exact congrArg ExceptT.run (h a hx)

theorem map_congr_of_not_ok {f g : α → β} {x : Run α} (h : ∀ a, x.run ≠ some (.ok a)) :
    f <$> x = g <$> x := by
  rw [map_eq_pure_bind, map_eq_pure_bind]
  exact bind_congr_of_ok fun a ha => absurd ha (h a)

theorem run_map_eq_error {x : Run α} {e : Exception} :
    (f <$> x).run = some (.error e) ↔ x.run = some (.error e) := by
  rw [ExceptT.run_map]
  cases x.run with
  | none => simp
  | some r => cases r <;> simp [Except.map]

theorem completes_map : Completes (fun fuel => f <$> x fuel) ↔ Completes x := by
  constructor
  · intro h
    obtain ⟨fuel, b, hb⟩ := h
    obtain ⟨a, ha, -⟩ := (run_map_eq_ok f).mp hb
    exact ⟨fuel, a, ha⟩
  · intro h
    obtain ⟨fuel, a, ha⟩ := h
    exact ⟨fuel, f a, (run_map_eq_ok f).mpr ⟨a, ha, rfl⟩⟩

theorem trapsWith_map (e : Exception) : TrapsWith (fun fuel => f <$> x fuel) e ↔ TrapsWith x e :=
  exists_congr fun _ => run_map_eq_error f

variable (g : β → Machine) (y : Nat → Run β)

/-- Executions whose machines never agree are the same when they only trap, and trap alike. -/
theorem sameExecution_map_iff (f : α → Machine) (hne : ∀ a b, ¬ (f a).Agrees (g b)) :
    SameExecution (fun fuel => f <$> x fuel) (fun fuel => g <$> y fuel) ↔ TrapAlike x y := by
  constructor
  · intro h
    have hnever : ¬ Completes fun fuel => f <$> x fuel := by
      intro hx
      obtain ⟨fuel, l, hl⟩ := hx
      obtain ⟨fuel', r', hr', hsame⟩ := h.left fuel _ hl
      cases r' with
      | error e => exact hsame.elim
      | ok l' =>
        obtain ⟨a, -, rfl⟩ := (run_map_eq_ok f).mp hl
        obtain ⟨b, -, rfl⟩ := (run_map_eq_ok g).mp hr'
        exact hne a b hsame
    refine ⟨mt (completes_map f x).mpr hnever,
      mt (completes_map g y).mpr (mt h.completes.mpr hnever), fun e => ?_⟩
    rw [← trapsWith_map f x, ← trapsWith_map g y]
    exact h.trapsWith e
  · intro h
    have hleft := mt (completes_map f x).mp h.left
    have hright := mt (completes_map g y).mp h.right
    have htraps : ∀ e, TrapsWith (fun fuel => f <$> x fuel) e ↔
        TrapsWith (fun fuel => g <$> y fuel) e := fun e => by
      rw [trapsWith_map, trapsWith_map]
      exact h.traps e
    constructor
    · intro fuel r hr
      cases r with
      | ok l => exact absurd ⟨fuel, l, hr⟩ hleft
      | error e =>
        obtain ⟨fuel', hfuel'⟩ := (htraps e).mp ⟨fuel, hr⟩
        exact ⟨fuel', _, hfuel', rfl⟩
    · intro fuel r hr
      cases r with
      | ok l => exact absurd ⟨fuel, l, hr⟩ hright
      | error e =>
        obtain ⟨fuel', hfuel'⟩ := (htraps e).mpr ⟨fuel, hr⟩
        exact ⟨fuel', _, hfuel', rfl⟩

end Map

end Completion

/-! ### The instructions with other code -/

section Exceptional

variable {byte : BitVec 8} {nextPc : LispObj} {m : Machine}

theorem Machine.withAbove_top (above : LispObj) : (m.withAbove above).top = m.top :=
  Function.update_of_ne (show m.sp ≠ m.sp + 1 by omega) _ _

theorem Machine.onStack_congr {body body' : Stack → Outcome Stack}
    (h : body m.operands = body' m.operands) : m.onStack body = m.onStack body' := by
  rw [Machine.onStack, h, Machine.onStack]

theorem not_completes_onStack {body : Stack → Outcome Stack}
    (h : ∀ s, body m.operands ≠ .next s) : ¬ Completes fun _ => m.onStack body := by
  intro hc
  obtain ⟨fuel, l, hl⟩ := hc
  unfold Machine.onStack at hl
  cases hbody : body m.operands with
  | next s => exact h s hbody
  | _ =>
    rw [hbody] at hl
    cases hl

/-- The immediate code of the numeric equality takes no exception. -/
theorem formsAgree_equalNumber {i : TwoForms} {leave : Stack → Bool → Stack}
    (hleave : LeavesLive leave) (hne : i ≠ .push)
    (himm : ∀ fuel l, i.immediate fuel l byte =
      l.onStack fun s => equalNumberImmediate leave s (i.decode byte))
    (hexecute : ∀ fuel l op2, i.execute fuel l op2 =
      l.onStack fun s => equalNumber leave s op2) :
    FormsAgree i byte nextPc m ↔ tagType m.top.tag = typeFixnum := by
  constructor
  · intro hagree
    by_contra hfix
    have himmediate : Completes (i.executeImmediate byte nextPc
        (m.withAbove ⟨typeFixnum, i.decode byte⟩)) := by
      refine (completes_map _ _).mpr ⟨0, _, congrArg ExceptT.run (himm 0 _)⟩
    have hpopped := (completes_map _ _).mp ((hagree _).completes.mp himmediate)
    have hrun : (fun fuel => i.popped fuel (m.pushFixnum (i.decode byte))) = fun _ =>
        (m.withAbove ⟨typeFixnum, i.decode byte⟩).onStack fun s =>
          equalNumber leave s (.word (m.sp + 1)) := by
      funext fuel
      rw [TwoForms.popped_pushFixnum m _ hne, hexecute]
    rw [hrun] at hpopped
    refine not_completes_onStack (fun s => ?_) hpopped
    refine equalNumber_ne_next (.inr ⟨rfl, m.operand_above _⟩) ?_
    show tagType (m.withAbove _).top.tag ≠ typeFixnum
    rwa [Machine.withAbove_top]
  · intro hfix
    refine formsAgree_of_seesLive (seesLive_compare hleave _) hne (fun fuel above => ?_) hexecute
    rw [himm]
    apply Machine.onStack_congr
    have htop : tagType (m.withAbove above).operands.top.tag = typeFixnum := by
      show tagType (m.withAbove above).top.tag = typeFixnum
      rwa [Machine.withAbove_top]
    exact (fixnumEqual_eq _ _ _).trans (equalNumber_immediate _ _ _ htop).symm

/-- The popped form of a push leaves the operand on the stack. -/
theorem formsAgree_push : FormsAgree .push byte nextPc m := by
  apply formsAgree_of_sameRun
  intro above fuel
  have hself : m.withAbove (m.stack (m.sp + 1)) = m := by
    rw [Machine.withAbove, Function.update_eq_self]
  have hagrees : (m.withAbove above).Agrees m := by
    have h := m.withAbove_agrees above (m.stack (m.sp + 1))
    rwa [hself] at h
  exact sameRun_pure (hagrees.withOperands (hagrees.operands.pushFixnum _))

/-- A fixnum is no locative. -/
theorem formsAgree_restoreBindingStack : FormsAgree .restoreBindingStack byte nextPc m := by
  have hthrow : ∀ (l : Machine) op2 n fuel, l.operand op2 = ⟨typeFixnum, n⟩ →
      l.restoreBindingStack op2 fuel = throw .error := by
    intro l op2 n fuel hop
    have htype : tagType typeFixnum ≠ typeLocative := by decide
    have hspare : Machine.spareExceptions ⟨typeFixnum, n⟩ = .error := by
      have : ¬ typeSpareP typeFixnum = true := by decide
      exact if_neg this
    simp only [Machine.restoreBindingStack, hop, hspare, if_pos htype]
    rfl
  apply formsAgree_of_sameRun
  intro above fuel
  rw [TwoForms.popped_pushFixnum m _ (by decide)]
  show SameRun ((m.withAbove above).restoreBindingStack _ fuel)
    (Machine.restoreBindingStack _ (.word (m.sp + 1)) fuel)
  rw [hthrow _ _ _ _ rfl, hthrow _ _ _ _ (m.operand_above _)]
  exact sameRun_throw _

/-! ### Allocation -/

section Allocation

variable (cache : Machine → AllocationCache) (store : Machine → AllocationCache → Machine)

/-- The machine once a block was allocated. -/
def Machine.allocated (m : Machine) (n : Integer) : Machine :=
  let c := cache m
  let l := m.setTop c.address.cdrNext
  store
    { l with
      bar := Function.update l.bar 1 c.address
      control :=
        if readControlTrapMode l.control < 1 then writeControlTrapMode l.control 1 else l.control }
    { c with
      length := c.length - n
      address := ⟨c.address.tag, c.address.data + n⟩ }

variable {cache store} {l : Machine} {op2 : Operand} {n : Integer}

theorem Machine.allocateBlock_of_refuses (hop : l.operand op2 = ⟨typeFixnum, n⟩)
    (h : l.Refuses n (cache l)) : l.allocateBlock op2 cache store = throw .instructionException := by
  have hfix : ¬ typeFixnumP typeFixnum = false := by decide
  simp only [Machine.allocateBlock, hop, if_neg hfix]
  exact if_pos h

theorem Machine.allocateBlock_of_not_refuses (hop : l.operand op2 = ⟨typeFixnum, n⟩)
    (h : ¬ l.Refuses n (cache l)) :
    l.allocateBlock op2 cache store = pure (l.allocated cache store n) := by
  have hfix : ¬ typeFixnumP typeFixnum = false := by decide
  simp only [Machine.allocateBlock, hop, if_neg hfix]
  exact if_neg h

end Allocation

theorem sameExecution_pure {l l' : Machine} :
    SameExecution (fun _ => pure l) (fun _ => pure l') ↔ l.Agrees l' := by
  constructor
  · intro h
    obtain ⟨fuel, r, hr, hsame⟩ := h.left 0 _ rfl
    obtain rfl := Option.some.inj hr
    exact hsame
  · intro h
    exact sameExecution_of_sameRun fun _ => sameRun_pure h

theorem Machine.refuses_withAbove (above : LispObj) (n : Integer) (cache : AllocationCache) :
    (m.withAbove above).Refuses n cache ↔ m.Refuses n cache := by
  rw [Machine.Refuses, Machine.withAbove_top, Machine.Refuses]

/-- A block of no words leaves its cache. -/
theorem AllocationCache.sub_zero (c : AllocationCache) :
    ({ c with length := c.length - 0, address := ⟨c.address.tag, c.address.data + 0⟩ } :
      AllocationCache) = c := by
  simp

section Structure

variable (byte nextPc m)

/-- The operand of the instruction. -/
def blockSize : Integer := TwoForms.decode .allocateStructureBlock byte

/-- The machine after the immediate form, which allocates a list block. -/
def Machine.listAllocated : Machine :=
  TwoForms.allocateStructureBlock.dispatched nextPc
    (m.allocated Machine.listCache (fun l cache => { l with listCache := cache }) (blockSize byte))

/-- The machine after the popped form. -/
def Machine.structureAllocated : Machine :=
  TwoForms.allocateStructureBlock.dispatched nextPc
    (m.allocated Machine.structureCache (fun l cache => { l with structureCache := cache })
      (blockSize byte))

variable {byte nextPc m}

theorem immediate_of_refuses (h : m.Refuses (blockSize byte) m.listCache) (above : LispObj) :
    TwoForms.allocateStructureBlock.executeImmediate byte nextPc (m.withAbove above) =
      fun _ => throw .instructionException := by
  funext fuel
  have hrun : (m.withAbove above).allocateListBlock (.immediate (blockSize byte)) =
      throw .instructionException :=
    Machine.allocateBlock_of_refuses rfl ((m.refuses_withAbove above _ _).mpr h)
  exact congrArg (TwoForms.dispatched _ nextPc <$> ·) hrun

theorem immediate_of_not_refuses (h : ¬ m.Refuses (blockSize byte) m.listCache)
    (above : LispObj) :
    TwoForms.allocateStructureBlock.executeImmediate byte nextPc (m.withAbove above) =
      fun _ => pure ((m.withAbove above).listAllocated byte nextPc) := by
  funext fuel
  have hrun : (m.withAbove above).allocateListBlock (.immediate (blockSize byte)) = pure _ :=
    Machine.allocateBlock_of_not_refuses rfl (mt (m.refuses_withAbove above _ _).mp h)
  exact congrArg (TwoForms.dispatched _ nextPc <$> ·) hrun

theorem popped_of_refuses (h : m.Refuses (blockSize byte) m.structureCache) :
    TwoForms.allocateStructureBlock.executePopped nextPc (m.pushFixnum (blockSize byte)) =
      fun _ => throw .instructionException := by
  funext fuel
  have hrun : (m.withAbove ⟨typeFixnum, blockSize byte⟩).allocateStructureBlock
      (.word (m.sp + 1)) = throw .instructionException :=
    Machine.allocateBlock_of_refuses (m.operand_above _) ((m.refuses_withAbove _ _ _).mpr h)
  rw [TwoForms.executePopped, TwoForms.popped_pushFixnum m _ (by decide)]
  exact congrArg (TwoForms.dispatched _ nextPc <$> ·) hrun

theorem popped_of_not_refuses (h : ¬ m.Refuses (blockSize byte) m.structureCache) :
    TwoForms.allocateStructureBlock.executePopped nextPc (m.pushFixnum (blockSize byte)) =
      fun _ => pure
        ((m.withAbove ⟨typeFixnum, blockSize byte⟩).structureAllocated byte nextPc) := by
  funext fuel
  have hrun : (m.withAbove ⟨typeFixnum, blockSize byte⟩).allocateStructureBlock
      (.word (m.sp + 1)) = pure _ :=
    Machine.allocateBlock_of_not_refuses (m.operand_above _)
      (mt (m.refuses_withAbove _ _ _).mp h)
  rw [TwoForms.executePopped, TwoForms.popped_pushFixnum m _ (by decide)]
  exact congrArg (TwoForms.dispatched _ nextPc <$> ·) hrun

/-- The two caches are as they were, and blocks of no words lie at one address. -/
theorem allocated_agrees_iff (above above' : LispObj) :
    ((m.withAbove above).listAllocated byte nextPc).Agrees
        ((m.withAbove above').structureAllocated byte nextPc) ↔
      blockSize byte = 0 ∧ m.listCache.address = m.structureCache.address := by
  constructor
  · intro h
    have hlength : m.listCache.length = m.listCache.length - blockSize byte :=
      congrArg (fun l : Machine => l.listCache.length) h.rest
    have hbar : m.structureCache.address = m.listCache.address :=
      congrArg (fun l : Machine => l.bar 1) h.rest
    exact ⟨by grind, hbar.symm⟩
  · intro h
    obtain ⟨hzero, haddress⟩ := h
    have hagrees := (m.withAbove_agrees above above').setTop m.listCache.address.cdrNext
    unfold Machine.listAllocated Machine.structureAllocated Machine.allocated
    have hcache : (m.withAbove above').structureCache.address = m.listCache.address :=
      haddress.symm
    have hcache' : (m.withAbove above).listCache.address = m.listCache.address := rfl
    rw [hzero]
    simp only [AllocationCache.sub_zero]
    rw [hcache, hcache']
    obtain ⟨stack, hstack, hlive⟩ := hagrees.exists_stack
    rw [hstack]
    exact ⟨rfl, hlive⟩

end Structure

/-- The immediate form allocates a list block. -/
theorem formsAgree_allocateStructureBlock :
    FormsAgree .allocateStructureBlock byte nextPc m ↔ m.AllocateAlike (blockSize byte) := by
  have hnever : ¬ Completes fun _ => (throw .instructionException : Run Machine) := by
    intro h
    obtain ⟨fuel, l, hl⟩ := h
    cases hl
  by_cases hlist : m.Refuses (blockSize byte) m.listCache <;>
    by_cases hstructure : m.Refuses (blockSize byte) m.structureCache
  · refine iff_of_true (fun above => ?_) (.inl ⟨hlist, hstructure⟩)
    rw [immediate_of_refuses hlist, ← blockSize, popped_of_refuses hstructure]
    exact SameExecution.refl _
  · refine iff_of_false (fun hagree => ?_) (fun h => ?_)
    · have hsame := hagree m.top
      rw [immediate_of_refuses hlist, ← blockSize, popped_of_not_refuses hstructure] at hsame
      exact hnever (hsame.completes.mpr ⟨0, _, rfl⟩)
    · obtain h | h := h
      · exact hstructure h.2
      · exact h.1 hlist
  · refine iff_of_false (fun hagree => ?_) (fun h => ?_)
    · have hsame := hagree m.top
      rw [immediate_of_not_refuses hlist, ← blockSize, popped_of_refuses hstructure] at hsame
      exact hnever (hsame.completes.mp ⟨0, _, rfl⟩)
    · obtain h | h := h
      · exact hlist h.1
      · exact h.2.1 hstructure
  · constructor
    · intro hagree
      have hsame := hagree m.top
      rw [immediate_of_not_refuses hlist, ← blockSize, popped_of_not_refuses hstructure,
        sameExecution_pure, allocated_agrees_iff] at hsame
      exact .inr ⟨hlist, hstructure, hsame⟩
    · intro h above
      obtain h | h := h
      · exact absurd h.1 hlist
      rw [immediate_of_not_refuses hlist, ← blockSize, popped_of_not_refuses hstructure,
        sameExecution_pure, allocated_agrees_iff]
      exact h.2.2

/-! ### Instances -/

section Instances

variable (n : Integer)

/-- The machine after a store into the slot that was found. -/
def Machine.slotSet (l : Machine) (cell : Integer × LispObj) : Machine :=
  (l.write cell.1 ⟨mergeCdr cell.2.tag l.top.tag, l.top.data⟩).pop 2

theorem Machine.instanceSet_eq (l : Machine) (fuel : Nat) :
    l.instanceSet (.immediate n) fuel = l.slotSet <$> l.slotStored n fuel := by
  simp only [Machine.instanceSet, Machine.storeContents, Machine.slotStored, map_eq_pure_bind,
    bind_assoc, pure_bind]
  rfl

theorem Machine.instanceLoc_eq (l : Machine) {op2 : Operand} (hop : l.operand op2 = ⟨typeFixnum, n⟩)
    (fuel : Nat) :
    l.instanceLoc op2 fuel = (fun i => l.setTop ⟨typeLocative, i⟩) <$> l.slotLocated n fuel := by
  simp only [Machine.instanceLoc, hop, Machine.slotLocated, map_eq_pure_bind]

/-- The immediate form stores the top of the stack into a slot of the instance below it, and
pops both. -/
theorem formsAgree_instanceLoc :
    FormsAgree .instanceLoc byte nextPc m ↔
      ∀ above, TrapAlike ((m.withAbove above).slotStored (TwoForms.decode .instanceLoc byte))
        ((m.withAbove ⟨typeFixnum, TwoForms.decode .instanceLoc byte⟩).slotLocated
          (TwoForms.decode .instanceLoc byte)) := by
  let i : TwoForms := .instanceLoc
  let n := i.decode byte
  let t := m.withAbove ⟨typeFixnum, n⟩
  have hpopped : i.executePopped nextPc (m.pushFixnum n) = fun fuel =>
      (i.dispatched nextPc ∘ fun j => t.setTop ⟨typeLocative, j⟩) <$> t.slotLocated n fuel := by
    funext fuel
    rw [TwoForms.executePopped, TwoForms.popped_pushFixnum m _ (by decide), comp_map]
    exact congrArg (i.dispatched nextPc <$> ·) (t.instanceLoc_eq n (m.operand_above n) fuel)
  refine forall_congr' fun above => ?_
  have himm : i.executeImmediate byte nextPc (m.withAbove above) = fun fuel =>
      (i.dispatched nextPc ∘ (m.withAbove above).slotSet) <$>
        (m.withAbove above).slotStored n fuel := by
    funext fuel
    rw [comp_map]
    exact congrArg (i.dispatched nextPc <$> ·) ((m.withAbove above).instanceSet_eq n fuel)
  rw [himm, hpopped]
  -- the immediate form leaves two words less
  refine sameExecution_map_iff _ _ _ _ fun cell j hagrees => ?_
  have hsp : m.sp = m.sp - 2 := hagrees.sp
  omega

end Instances

/-! ### Bindings -/

section Bindings

variable {l : Machine} {fuel fuel' : Nat} {cycle : Cycle} {vma : Integer} {o o' : LispObj}

theorem Machine.memoryRead_mono {r : Except Exception (Integer × LispObj)}
    (h : (l.memoryRead fuel cycle vma).run = some r) (hle : fuel ≤ fuel') :
    (l.memoryRead fuel' cycle vma).run = some r := by
  obtain ⟨outcome, hread, hr⟩ := Option.map_eq_some_iff.mp h
  exact Option.map_eq_some_iff.mpr
    ⟨outcome, ProcessorState.memoryReadInternal_mono hread hle, hr⟩

theorem fixnum_cdrNext (n : Integer) : (⟨typeFixnum, n⟩ : LispObj).cdrNext = ⟨typeFixnum, n⟩ := by
  have htype : tagType typeFixnum = typeFixnum := by decide
  rw [LispObj.cdrNext, htype]

/-- The type and the pointer of the object are stored. -/
def Machine.stored (l : Machine) (o : LispObj) (cell : Integer × LispObj) : Machine :=
  l.write cell.1 ⟨mergeCdr cell.2.tag o.tag, o.data⟩

theorem Machine.storeContents_eq (l : Machine) (fuel : Nat) (cycle : Cycle) (vma : Integer)
    (o : LispObj) :
    l.storeContents fuel cycle vma o = l.stored o <$> l.memoryRead fuel cycle vma := by
  rw [map_eq_pure_bind]
  rfl

theorem mergeCdr_eq_iff {cdr a b : Tag} : mergeCdr cdr a = mergeCdr cdr b ↔ tagType a = tagType b := by
  have hbits : ∀ t : Tag, mergeCdr cdr t &&& 0x3F = tagType t := by
    intro t
    unfold mergeCdr tagType
    ext k hk
    simp only [BitVec.getElem_and, BitVec.getElem_or]
    interval_cases k <;> simp
  constructor
  · intro h
    rw [← hbits, h, hbits]
  · intro h
    unfold mergeCdr
    unfold tagType at h
    rw [h]

theorem Machine.stored_congr (h : o.cdrNext = o'.cdrNext) (cell : Integer × LispObj) :
    l.stored o cell = l.stored o' cell := by
  obtain ⟨htype, hdata⟩ := LispObj.mk.inj h
  rw [Machine.stored, Machine.stored, mergeCdr_eq_iff.mpr htype, hdata]

/-- Another object leaves another memory. -/
theorem Machine.cdrNext_of_stored {cell : Integer × LispObj}
    (h : (l.stored o cell).memory = (l.stored o' cell).memory) : o.cdrNext = o'.cdrNext := by
  have hword : (⟨mergeCdr cell.2.tag o.tag, o.data⟩ : LispObj) =
      ⟨mergeCdr cell.2.tag o'.tag, o'.data⟩ := by
    have hcell := congrFun h cell.1
    rwa [show (l.stored o cell).memory cell.1 = _ from Function.update_self _ _ _,
      show (l.stored o' cell).memory cell.1 = _ from Function.update_self _ _ _] at hcell
  obtain ⟨htag, hdata⟩ := LispObj.mk.inj hword
  rw [LispObj.cdrNext, mergeCdr_eq_iff.mp htag, hdata]
  rfl

theorem Machine.pushBinding_mono {b : Machine} (h : (l.pushBinding fuel).run = some (.ok b))
    (hle : fuel ≤ fuel') : (l.pushBinding fuel').run = some (.ok b) := by
  unfold Machine.pushBinding at h ⊢
  simp only at h ⊢
  split at h
  · cases h
  · rename_i hroom
    rw [if_neg hroom]
    obtain ⟨cell, hread, hb⟩ := run_bind_eq_ok.mp h
    exact run_bind_eq_ok.mpr ⟨cell, Machine.memoryRead_mono hread hle, hb⟩

/-- The registers after a binding. -/
def Machine.bound (l : Machine) : Machine :=
  { l with
    control := writeControlCleanupBindings l.control 1
    bindingStackPointer := l.bindingStackPointer + 2 }

theorem Machine.bindLocativeToValue_eq (op2 : Operand) (h : tagType l.top.tag = typeLocative) :
    l.bindLocativeToValue op2 fuel = l.pushBinding fuel >>= fun b =>
      (fun cell => (b.stored (b.operand op2) cell).bound) <$>
        b.memoryRead fuel .bindWrite l.top.data := by
  simp only [Machine.bindLocativeToValue, ne_eq, h, not_true, if_false, Machine.storeContents_eq,
    map_eq_pure_bind, bind_assoc, pure_bind]
  rfl

theorem Machine.bindLocativeToValue_throw (op2 : Operand) (h : tagType l.top.tag ≠ typeLocative) :
    l.bindLocativeToValue op2 fuel = throw (Machine.spareExceptions l.top) := by
  unfold Machine.bindLocativeToValue
  exact if_pos h

/-- Where the operand is kept, or not stored, the forms bind alike. -/
theorem Machine.bindLocativeToValue_congr {n : Integer} (happart : l.BindingApart n) (fuel : Nat) :
    l.bindLocativeToValue (.immediate n) fuel =
      l.bindLocativeToValue (.word (l.sp + 1)) fuel := by
  by_cases htype : tagType l.top.tag = typeLocative
  · rw [Machine.bindLocativeToValue_eq _ htype, Machine.bindLocativeToValue_eq _ htype]
    refine bind_congr_of_ok fun b hb => ?_
    obtain hkept | htraps := happart htype fuel b hb
    · have hoperand : (⟨typeFixnum, n⟩ : LispObj).cdrNext = (b.stack (l.sp + 1)).cdrNext :=
        (fixnum_cdrNext n).trans hkept.symm
      have hstored : ∀ cell, b.stored ⟨typeFixnum, n⟩ cell = b.stored (b.stack (l.sp + 1)) cell :=
        Machine.stored_congr hoperand
      exact congrArg (· <$> b.memoryRead fuel .bindWrite l.top.data)
        (funext fun cell => congrArg Machine.bound (hstored cell))
    · exact map_congr_of_not_ok fun cell hcell => htraps ⟨fuel, cell, hcell⟩
  · rw [Machine.bindLocativeToValue_throw _ htype, Machine.bindLocativeToValue_throw _ htype]

/-- The operand is popped into the words that the binding stack grows into. -/
theorem formsAgree_bindLocativeToValue :
    FormsAgree .bindLocativeToValue byte nextPc m ↔
      Overlooks .bindLocativeToValue byte nextPc m ∧
        (m.withAbove ⟨typeFixnum, TwoForms.decode .bindLocativeToValue byte⟩).BindingApart
          (TwoForms.decode .bindLocativeToValue byte) := by
  let i : TwoForms := .bindLocativeToValue
  let n := i.decode byte
  let t := m.withAbove ⟨typeFixnum, n⟩
  have hpopped : ∀ fuel, i.popped fuel (m.pushFixnum n) =
      t.bindLocativeToValue (.word (t.sp + 1)) fuel := fun fuel =>
    TwoForms.popped_pushFixnum m n (by decide) fuel
  constructor
  · intro hagree
    refine ⟨hagree.overlooks, fun htype fuel b hb => ?_⟩
    by_cases hstores : Completes fun fuel => b.memoryRead fuel .bindWrite t.top.data
    · refine .inl ?_
      obtain ⟨fuel', cell, hcell⟩ := hstores
      have hb' := Machine.pushBinding_mono hb (Nat.le_max_left fuel fuel')
      have hcell' := Machine.memoryRead_mono hcell (Nat.le_max_right fuel fuel')
      have hrun : (t.bindLocativeToValue (.immediate n) (Nat.max fuel fuel')).run =
          some (.ok (b.stored ⟨typeFixnum, n⟩ cell).bound) := by
        rw [Machine.bindLocativeToValue_eq _ htype]
        exact run_bind_eq_ok.mpr ⟨b, hb', (run_map_eq_ok _).mpr ⟨cell, hcell', rfl⟩⟩
      obtain ⟨fuel₂, r, hr, hsame⟩ := (hagree _).left _ _
        ((run_map_eq_ok (i.dispatched nextPc)).mpr ⟨_, hrun, rfl⟩)
      cases r with
      | error e => exact hsame.elim
      | ok l =>
        rw [TwoForms.executePopped, hpopped, Machine.bindLocativeToValue_eq _ htype] at hr
        obtain ⟨l', hl', rfl⟩ := (run_map_eq_ok _).mp hr
        obtain ⟨b₂, hb₂, hmap⟩ := run_bind_eq_ok.mp hl'
        obtain ⟨cell₂, hcell₂, rfl⟩ := (run_map_eq_ok _).mp hmap
        obtain rfl : b = b₂ := by
          have hleft := Machine.pushBinding_mono hb (Nat.le_max_left fuel fuel₂)
          have hright := Machine.pushBinding_mono hb₂ (Nat.le_max_right fuel fuel₂)
          exact Except.ok.inj (Option.some.inj (hleft.symm.trans hright))
        obtain rfl : cell = cell₂ := by
          have hleft := Machine.memoryRead_mono hcell (Nat.le_max_left fuel' fuel₂)
          have hright := Machine.memoryRead_mono hcell₂ (Nat.le_max_right fuel' fuel₂)
          exact Except.ok.inj (Option.some.inj (hleft.symm.trans hright))
        have hrest := congrArg (fun l : Machine => l.memory) (Machine.Agrees.rest hsame)
        have hmemory : (b.stored (b.stack (m.sp + 1)) cell).memory =
            (b.stored ⟨typeFixnum, n⟩ cell).memory := hrest
        exact (Machine.cdrNext_of_stored hmemory).trans (fixnum_cdrNext n)
    · exact .inr hstores
  · intro h
    refine (formsAgree_iff_overlooks fun fuel => ?_).mpr h.1
    rw [hpopped]
    exact Machine.bindLocativeToValue_congr h.2 fuel

end Bindings

end Exceptional

/-! ### All instructions -/

section All

variable {i : TwoForms} {byte : BitVec 8} {nextPc : LispObj} {m : Machine}

/-- The code for the immediate operand, where an instruction has its own, is what the code at
the label comes to. -/
theorem formsAgree_of_body {body : Stack → Operand → Outcome Stack}
    {immediateBody : Stack → Outcome Stack} (hsees : SeesLive body)
    (hne : i ≠ .push)
    (hexecute : ∀ fuel l op2, i.execute fuel l op2 = l.onStack fun s => body s op2)
    (himm : ∀ fuel l, i.immediate fuel l byte = l.onStack immediateBody)
    (hbody : ∀ s, immediateBody s = body s (.immediate (i.decode byte))) :
    FormsAgree i byte nextPc m ↔ True := by
  refine iff_true_intro (formsAgree_of_seesLive hsees hne (fun fuel above => ?_) hexecute)
  rw [himm]
  exact Machine.onStack_congr (hbody _)

variable (i byte nextPc m)

end All

/-- A stack of `NIL`s. -/
def nilMachine : Machine where
  stack _ := objectNIL
  sp := 4
  fp := 0
  lp := 2
  pc := objectNIL
  continuation := objectNIL
  control := 0
  stackCacheLimit := 1024
  restartsp := 4
  stackCacheBase := 0xF8000000
  memory _ := objectNIL
  ephemeralOldspaceRegister := 0
  zoneOldspaceRegister := 0
  arrayEventCount := 0
  bar _ := objectNIL
  listCache := ⟨objectNIL, objectNIL, 0⟩
  structureCache := ⟨objectNIL, objectNIL, 0⟩
  catchBlockPointer := objectNIL
  bindingStackPointer := 0
  bindingStackLimit := 0
  deepBoundP := false
  preemptRegister := 0
  alu := ⟨0, .boolean, 0, 0, 0, false, false, false⟩

end Ivory.Execute
