import Mathlib
import OsxVlm.Translator.Operate

/-!
# Straight-line code

Each operation of a sequence is executed by its lines of C.  An overflow flag is all
that the checked instructions leave for the trap barrier, and the next one of them
overwrites it.
-/

namespace Stub

open Alpha C

variable {regs : Registers} {a c : Register} {b : Operand} {m : Machine} {f : Bool}

/-! ### Moves and displacements -/

theorem eval_relation (relation : Relation) (regs : Registers) (a : Register) :
    ∃ x, (Expr.compare relation (.cast .long (.var a)) (.literal .int 0)).eval regs = some x ∧
      x.bits = if relation.holds (regs a).toInt 0 then 1 else 0 := by
  refine ⟨_, rfl, ?_⟩
  simp only [Value.compare]
  rfl

/-- The low bit of a register. -/
theorem eval_lowBit (regs : Registers) (a : Register) :
    (Expr.arith .and (.var a) (.literal .int 1)).eval regs =
      some ⟨.ulong, if (regs a).getLsbD 0 then 1 else 0⟩ := by
  have hone : (Expr.literal .int 1).eval regs = some ⟨.int, 1⟩ := rfl
  rw [eval_arith .and (eval_var regs a) hone]
  congr 2
  apply BitVec.eq_of_getLsbD_eq
  intro i hi
  by_cases hbit : (regs a).getLsbD 0 = true
  · rw [if_pos hbit]
    by_cases hzero : i = 0
    · subst hzero
      simp [Arith.onBits, hbit]
    · simp [Arith.onBits, BitVec.getLsbD_one, hzero]
  · rw [if_neg hbit]
    by_cases hzero : i = 0
    · subst hzero
      rw [Arith.onBits, BitVec.getLsbD_and, Bool.eq_false_iff.mpr hbit]
      rfl
    · simp [Arith.onBits, BitVec.getLsbD_one, hzero]

theorem eval_cmovCondition (condition : Condition) (regs : Registers) (a : Register) :
    ∃ x, (cmovCondition condition a).eval regs = some x ∧
      (x.bits = 0 ↔ condition.holds (regs a) = false) := by
  have hrelation : ∀ (relation : Relation) (holds : Bool),
      relation.holds (regs a).toInt 0 = holds →
      ∃ x, (Expr.compare relation (.cast .long (.var a)) (.literal .int 0)).eval regs = some x ∧
        (x.bits = 0 ↔ holds = false) := by
    intro relation holds hholds
    obtain ⟨x, hx, hbits⟩ := eval_relation relation regs a
    refine ⟨x, hx, ?_⟩
    rw [hbits, hholds]
    cases holds <;> simp
  cases condition with
  | lbs =>
      refine ⟨_, eval_lowBit regs a, ?_⟩
      simp only [Condition.holds]
      cases (regs a).getLsbD 0 <;> simp
  | lbc =>
      have hcompare : (cmovCondition .lbc a).eval regs =
          some (Value.compare .eq ⟨.ulong, if (regs a).getLsbD 0 then 1 else 0⟩ ⟨.int, 0⟩) := by
        rw [cmovCondition, Expr.eval, eval_lowBit]
        rfl
      refine ⟨_, hcompare, ?_⟩
      simp only [Condition.holds]
      cases (regs a).getLsbD 0
      · exact ⟨fun h => absurd h (by decide), fun h => by cases h⟩
      · exact ⟨fun _ => rfl, fun _ => rfl⟩
  | eq =>
      refine ⟨_, rfl, ?_⟩
      simp only [Value.compare, CType.usual_ulong_left, Value.cast, CType.convert_ulong,
        Relation.holds, Value.number, CType.signed, Condition.holds]
      by_cases heq : regs a = 0
      · simp [heq, CType.convert]
      · have hne : (regs a).toNat ≠ 0 := by
          intro hnat
          exact heq (BitVec.eq_of_toNat_eq hnat)
        have hside : ¬ (regs a).toNat = 0 ↔ ¬ regs a = 0#64 := iff_of_true hne heq
        simpa [CType.convert] using hside
  | ge => exact hrelation .ge _ rfl
  | gt => exact hrelation .gt _ rfl
  | le => exact hrelation .le _ rfl
  | lt => exact hrelation .lt _ rfl
  | ne =>
      refine ⟨_, eval_var regs a, ?_⟩
      simp [Condition.holds]

theorem eval_displacement (regs : Registers) (displacement : BitVec 16) :
    (Expr.literal .int displacement.toInt).eval regs =
      some ⟨.int, displacement.signExtend 64⟩ := by
  have hge := BitVec.le_toInt displacement
  have hlt := BitVec.toInt_lt (x := displacement)
  have hnumber := BitVec.toInt_signExtend_of_le (x := displacement) (show 16 ≤ 64 by decide)
  rw [Expr.eval, Value.cast]
  congr 2
  change CType.convert .int (displacement.signExtend 64) = _
  apply CType.convert_int_of_toInt <;> omega

theorem eval_highDisplacement (regs : Registers) (displacement : BitVec 16) :
    (highDisplacement displacement).eval regs =
      some ⟨.ulong, displacement.signExtend 64 <<< 16⟩ := by
  have hcast : (Expr.cast .ulong (.literal .int displacement.toInt)).eval regs =
      some ⟨.ulong, displacement.signExtend 64⟩ := by
    rw [Expr.eval, eval_displacement]
    rfl
  have hsixteen : (Expr.literal .int 16).eval regs = some ⟨.int, 16⟩ := rfl
  rw [highDisplacement, Expr.eval, hcast, hsixteen, Option.bind_some, Option.bind_some]
  exact Value.shl_ulong _ (show Value.number ⟨.int, 16⟩ = (16 : Nat) from rfl) (by decide)

/-! ### One operation -/

theorem executeLines_assign {e : CExpr} {value : BitVec 64} (h : Computes m.regs e value) :
    executeLines m [.assign c e] =
      some (.next { m with regs := Function.update m.regs c value }) := by
  obtain ⟨x, hx, hbits⟩ := h
  simp only [executeLines, Line.execute, hx, Option.map_some, hbits]

/-- An instruction that checks nothing. -/
theorem executeLines_plain {i : Instr} (hzero : m.regs .zero = 0)
    (hdest : i.destination ≠ some .zero) (hcompiles : Compiles i)
    (hplain : ∀ op a b c, i ≠ .checked op a b c) (hbarrier : i ≠ .trapb) :
    executeLines m (emitOperation f i).1 =
      some (.next { m with regs := i.execute m.regs }) := by
  cases i with
  | operate op a b c =>
      have hc : c ≠ .zero := fun h => hdest (congrArg some h)
      obtain ⟨e, he, hcomputes⟩ := operateExpr_computes op hzero hc hcompiles
      simp only [emitOperation, he]
      exact executeLines_assign hcomputes
  | cmov condition a b c =>
      obtain ⟨x, hx, hholds⟩ := eval_cmovCondition condition m.regs a
      simp only [emitOperation, executeLines, Line.execute, hx, Option.bind_some, eval_fixarg,
        Option.map_some, Instr.execute]
      by_cases hcond : x.bits = 0
      · rw [if_pos hcond, hholds.mp hcond]
        rfl
      · have htrue : condition.holds (m.regs a) = true := by
          rw [← Bool.not_eq_false]
          exact fun hfalse => hcond (hholds.mpr hfalse)
        rw [if_neg hcond, htrue]
        rfl
  | lda a displacement b =>
      apply executeLines_assign
      by_cases hd : displacement = 0
      · rw [if_pos hd, hd]
        exact ⟨_, eval_var m.regs b, (BitVec.add_zero _).symm⟩
      · rw [if_neg hd]
        exact ⟨_, eval_arith .add (eval_var m.regs b) (eval_displacement m.regs displacement), rfl⟩
  | ldah a displacement b =>
      apply executeLines_assign
      by_cases hb : b = .zero
      · rw [if_pos hb, hb, hzero]
        exact ⟨_, eval_highDisplacement m.regs displacement, (BitVec.zero_add _).symm⟩
      · rw [if_neg hb]
        exact ⟨_, eval_arith .add (eval_var m.regs b)
          (eval_highDisplacement m.regs displacement), rfl⟩
  | checked op a b c => exact absurd rfl (hplain op a b c)
  | trapb => exact absurd rfl hbarrier

/-- The registers after a checked instruction of the portable emission: those of the
architecture, but the upper half of the result is clear. -/
def clearUpper (regs : Registers) : Instr → Registers
  | .checked op a b c =>
      Function.update regs c ((op.longword (regs a) (b.value regs)).setWidth 64)
  | i => i.execute regs

theorem executeLines_checked (op : Checked) (a : Register) (b : Operand) (c : Register) :
    executeLines m (emitOperation f (.checked op a b c)).1 =
      some (.next
        { regs := clearUpper m.regs (.checked op a b c)
          oflo := op.overflows (m.regs a) (b.value m.regs) }) := by
  have hcast : ∀ x : Value, (x.cast .int).number = (x.bits.setWidth 32).toInt := by
    intro x
    simp only [Value.number, Value.cast, CType.signed, if_true, CType.convert]
    exact BitVec.toInt_signExtend_of_le (by decide)
  have hexact : builtinExact op ⟨.ulong, m.regs a⟩ ⟨operandType b, b.value m.regs⟩ =
      op.exact (m.regs a) (b.value m.regs) := by
    simp only [builtinExact, hcast]
    cases op <;> rfl
  simp only [emitOperation, executeLines, Line.execute, eval_var, eval_fixarg, Option.bind_some,
    Option.map_some, hexact]
  rfl

/-- Neither checked nor a barrier. -/
def Plain (i : Instr) : Prop := (∀ op a b c, i ≠ .checked op a b c) ∧ i ≠ .trapb

/-- The overflow flag after an instruction that is not a barrier. -/
def lastOverflow (last : Bool) (regs : Registers) : Instr → Bool
  | .checked op a b _ => op.overflows (regs a) (b.value regs)
  | _ => last

theorem executeLines_step {i : Instr} (hzero : m.regs .zero = 0)
    (hdest : i.destination ≠ some .zero) (hcompiles : Compiles i) (hbarrier : i ≠ .trapb) :
    executeLines m (emitOperation f i).1 =
      some (.next { regs := clearUpper m.regs i, oflo := lastOverflow m.oflo m.regs i }) := by
  cases i with
  | checked op a b c => exact executeLines_checked op a b c
  | trapb => exact absurd rfl hbarrier
  | _ => exact executeLines_plain hzero hdest hcompiles (fun _ _ _ _ h => by cases h) hbarrier

theorem clearUpper_zero {i : Instr} (hzero : regs .zero = 0)
    (hdest : i.destination ≠ some .zero) : clearUpper regs i .zero = 0 := by
  have hupdate : ∀ (c : Register) (x : BitVec 64), some c ≠ some .zero →
      Function.update regs c x .zero = 0 := by
    intro c x hc
    rw [Function.update_of_ne fun h => hc (congrArg some h.symm)]
    exact hzero
  cases i with
  | cmov condition a b c =>
      simp only [clearUpper, Instr.execute]
      split
      · exact hupdate c _ hdest
      · exact hzero
  | trapb => exact hzero
  | operate op a b c => exact hupdate c _ hdest
  | lda a displacement b => exact hupdate a _ hdest
  | ldah a displacement b => exact hupdate a _ hdest
  | checked op a b c => exact hupdate c _ hdest

/-! ### What the architecture asks of a trace -/

/-- The registers after an instruction: all of them, but of the result of a checked one
only the longword. -/
def Prescribes (regs : Registers) (i : Instr) (regs' : Registers) : Prop :=
  match i with
  | .checked op a b c =>
      (regs' c).setWidth 32 = op.longword (regs a) (b.value regs) ∧ ∀ r, r ≠ c → regs' r = regs r
  | i => regs' = i.execute regs

/-- Every operation does what is prescribed, and the exception is taken at a barrier
exactly when an overflow is pending. -/
def Conforms (pending : Bool) (regs : Registers) : List Instr → Trace → Prop
  | [], t => t = ⟨[], false⟩
  | i :: is, t =>
      if i = .trapb ∧ pending = true then t = ⟨[], true⟩
      else
        ∃ regs' rest, t.regs = regs' :: rest ∧ Prescribes regs i regs' ∧
          Conforms (decide (i ≠ .trapb) && (pending || i.overflows regs)) regs' is
            ⟨rest, t.exception⟩

/-- At every barrier that is reached, the last checked instruction has overflowed if any
has since the barrier before. -/
def FlagKept (pending last : Bool) (regs : Registers) : List Instr → Prop
  | [] => True
  | i :: is =>
      if i = .trapb then pending = last ∧ (pending = false → FlagKept false false regs is)
      else
        FlagKept (pending || i.overflows regs) (lastOverflow last regs i) (clearUpper regs i) is

theorem prescribes_clearUpper (regs : Registers) (i : Instr) :
    Prescribes regs i (clearUpper regs i) := by
  cases i with
  | checked op a b c =>
      refine ⟨?_, fun r hr => Function.update_of_ne hr _ _⟩
      rw [clearUpper, Function.update_self]
      exact BitVec.setWidth_setWidth_of_le _ (by decide)
  | _ => rfl

/-- What the flag of the printer and the flag of the machine know. -/
structure Flags (f oflo pending last : Bool) : Prop where
  checks : f = true → oflo = last
  nothing : f = false → pending = false ∧ last = false

theorem Flags.step {oflo pending last : Bool} (h : Flags f oflo pending last) (i : Instr)
    (hbarrier : i ≠ .trapb) (regs : Registers) :
    Flags (emitOperation f i).2 (lastOverflow oflo regs i) (pending || i.overflows regs)
      (lastOverflow last regs i) := by
  cases i with
  | checked op a b c => exact ⟨fun _ => rfl, fun hf => Bool.noConfusion hf⟩
  | trapb => exact absurd rfl hbarrier
  | _ =>
      refine ⟨h.checks, fun hf => ?_⟩
      obtain ⟨hpending, hlast⟩ := h.nothing hf
      exact ⟨by rw [hpending]; rfl, hlast⟩

/-- The trace of the rest follows the registers of the first operation. -/
theorem run_next {lines : List Line} {rest : List (List Line)} {m' : Machine}
    (h : executeLines m lines = some (.next m')) :
    run m (lines :: rest) = (run m' rest).map fun t => ⟨m'.regs :: t.regs, t.exception⟩ := by
  rw [run, h]

/-- A trace of a first operation and the rest. -/
theorem conforms_next {pending : Bool} {i : Instr} {is : List Instr} {regs' : Registers}
    (hgoes : ¬ (i = .trapb ∧ pending = true)) (hprescribes : Prescribes regs i regs')
    (o : Option Trace) :
    (∃ t, (o.map fun t => (⟨regs' :: t.regs, t.exception⟩ : Trace)) = some t ∧
        Conforms pending regs (i :: is) t) ↔
      ∃ t, o = some t ∧
        Conforms (decide (i ≠ .trapb) && (pending || i.overflows regs)) regs' is t := by
  constructor
  · intro h
    obtain ⟨t, ht, hconforms⟩ := h
    obtain ⟨t', ho, rfl⟩ := Option.map_eq_some_iff.mp ht
    rw [Conforms, if_neg hgoes] at hconforms
    obtain ⟨regs'', rest, hregs, -, hrest⟩ := hconforms
    rw [List.cons.injEq] at hregs
    obtain ⟨rfl, rfl⟩ := hregs
    exact ⟨t', ho, hrest⟩
  · intro h
    obtain ⟨t, rfl, hconforms⟩ := h
    refine ⟨_, rfl, ?_⟩
    rw [Conforms, if_neg hgoes]
    exact ⟨regs', t.regs, rfl, hprescribes, hconforms⟩

theorem run_conforms_iff (is : List Instr) : ∀ (m : Machine) (f pending last : Bool),
    Flags f m.oflo pending last → m.regs .zero = 0 →
    (∀ i ∈ is, i.destination ≠ some .zero ∧ Compiles i) →
    ((∃ t, run m (emitOperations f is) = some t ∧ Conforms pending m.regs is t) ↔
      FlagKept pending last m.regs is) := by
  induction is with
  | nil =>
      intro m f pending last _ _ _
      exact ⟨fun _ => trivial, fun _ => ⟨_, rfl, rfl⟩⟩
  | cons i is ih =>
      intro m f pending last hflags hzero hall
      obtain ⟨⟨hdest, hcompiles⟩, hrest⟩ := List.forall_mem_cons.mp hall
      rw [emitOperations, FlagKept]
      by_cases hbarrier : i = .trapb
      · subst hbarrier
        rw [if_pos rfl]
        -- The machine stops exactly when its own flag is checked and set.
        by_cases hstops : f = true ∧ last = true
        · obtain ⟨rfl, rfl⟩ := hstops
          have hexception : executeLines m (emitOperation true .trapb).1 =
              some (.arithmeticException m) := by
            simp only [emitOperation, if_true, executeLines, Line.execute, hflags.checks rfl]
          rw [run, hexception]
          cases pending with
          | true =>
              refine ⟨fun _ => ⟨rfl, fun h => by cases h⟩, fun _ => ⟨_, rfl, ?_⟩⟩
              rw [Conforms, if_pos ⟨rfl, rfl⟩]
          | false =>
              refine ⟨fun h => ?_, fun h => by cases h.1⟩
              obtain ⟨t, ht, hconforms⟩ := h
              cases ht
              rw [Conforms, if_neg fun h => by cases h.2] at hconforms
              obtain ⟨regs', rest, hregs, -⟩ := hconforms
              cases hregs
        · have hlast : last = false := by
            cases f with
            | false => exact (hflags.nothing rfl).2
            | true =>
                rw [← Bool.not_eq_true]
                exact fun h => hstops ⟨rfl, h⟩
          have hnext : executeLines m (emitOperation f .trapb).1 = some (.next m) := by
            cases f with
            | false => rfl
            | true =>
                simp only [emitOperation, if_true, executeLines, Line.execute, hflags.checks rfl,
                  hlast]
                rfl
          rw [run_next hnext]
          cases pending with
          | true =>
              refine ⟨fun h => ?_, fun h => by rw [hlast] at h; cases h.1⟩
              obtain ⟨t, ht, hconforms⟩ := h
              obtain ⟨t', -, rfl⟩ := Option.map_eq_some_iff.mp ht
              rw [Conforms, if_pos ⟨rfl, rfl⟩] at hconforms
              cases hconforms
          | false =>
              have hgoes : ¬ (Instr.trapb = .trapb ∧ false = true) := fun h => by cases h.2
              have hprescribes : Prescribes m.regs .trapb m.regs := rfl
              rw [conforms_next hgoes hprescribes, hlast]
              have hfalse : Flags false m.oflo false false :=
                ⟨fun h => Bool.noConfusion h, fun _ => ⟨rfl, rfl⟩⟩
              have hih := ih m false false false hfalse hzero hrest
              exact hih.trans ⟨fun h => ⟨rfl, fun _ => h⟩, fun h => h.2 rfl⟩
      · rw [if_neg hbarrier, run_next (executeLines_step hzero hdest hcompiles hbarrier),
          conforms_next (fun h => hbarrier h.1) (prescribes_clearUpper m.regs i)]
        have hpending : (decide (i ≠ .trapb) && (pending || i.overflows m.regs)) =
            (pending || i.overflows m.regs) := by
          rw [decide_eq_true hbarrier, Bool.true_and]
        rw [hpending]
        exact ih ⟨clearUpper m.regs i, lastOverflow m.oflo m.regs i⟩ _ _ _
          (hflags.step i hbarrier m.regs) (clearUpper_zero hzero hdest) hrest

/-! ### Text that is compiled -/

theorem declared_fixarg (b : Operand) : (fixarg b).declared = true := by
  cases b <;> rfl

theorem declared_byteShift (b : Operand) : (byteShift b).declared = true := by
  cases b <;> rfl

theorem declared_shiftarg (b : Operand) : (shiftarg b).declared = true := by
  cases b <;> rfl

theorem declared_extract (type : CType) (a : Register) (b : Operand) :
    (extract type a b).declared = true := by
  unfold extract
  split
  · rfl
  · exact declared_byteShift b

theorem declared_operateExpr (op : Operate) {e : CExpr} (h : operateExpr op a b c = some e) :
    e.declared = true ↔ Compiles (.operate op a b c) := by
  have hplain : op ≠ .bic → e.declared = true := by
    intro hbic
    cases op <;> simp only [operateExpr] at h <;> grind [Expr.declared, declared_fixarg,
      declared_byteShift, declared_shiftarg, declared_extract, comparison]
  by_cases hbic : op = .bic
  · subst hbic
    cases h
    cases b with
    | literal n => exact ⟨fun _ => trivial, fun _ => rfl⟩
    | register r =>
        simp only [Expr.declared, longnum, Compiles]
        cases hcase : mixedCase r with
        | true => simp [Expr.declared]
        | false => simp [Expr.declared]
  · refine ⟨fun _ => ?_, fun _ => hplain hbic⟩
    unfold Compiles
    grind

theorem operateExpr_isSome (op : Operate) (hc : c ≠ .zero) : (operateExpr op a b c).isSome := by
  cases op <;> simp only [operateExpr] <;> grind

theorem declared_emitOperation (f : Bool) {i : Instr} (hdest : i.destination ≠ some .zero) :
    (emitOperation f i).1.all Line.declared = true ↔ Compiles i := by
  have hdisplacement : ∀ d : BitVec 16, (highDisplacement d).declared = true := fun _ => rfl
  cases i with
  | operate op a b c =>
      have hc : c ≠ .zero := fun h => hdest (congrArg some h)
      obtain ⟨e, he⟩ := Option.isSome_iff_exists.mp (operateExpr_isSome (a := a) (b := b) op hc)
      simp only [emitOperation, he, List.all_cons, List.all_nil, Bool.and_true, Line.declared]
      exact declared_operateExpr op he
  | cmov condition a b c =>
      refine iff_of_true ?_ trivial
      simp only [emitOperation, List.all_cons, List.all_nil, Bool.and_true, Line.declared,
        declared_fixarg]
      cases condition <;> rfl
  | lda a displacement b =>
      refine iff_of_true ?_ trivial
      simp only [emitOperation, List.all_cons, List.all_nil, Bool.and_true, Line.declared]
      split <;> rfl
  | ldah a displacement b =>
      refine iff_of_true ?_ trivial
      simp only [emitOperation, List.all_cons, List.all_nil, Bool.and_true, Line.declared]
      split <;> rfl
  | checked op a b c =>
      refine iff_of_true ?_ trivial
      simp only [emitOperation, List.all_cons, List.all_nil, Bool.and_true, Line.declared,
        declared_fixarg, Expr.declared]
  | trapb =>
      refine iff_of_true ?_ trivial
      cases f <;> rfl

theorem declared_emitOperations (is : List Instr) : ∀ f,
    (∀ i ∈ is, i.destination ≠ some .zero) →
    ((emitOperations f is).all (fun lines => lines.all Line.declared) = true ↔
      ∀ i ∈ is, Compiles i) := by
  induction is with
  | nil => exact fun f _ => iff_of_true rfl fun i hi => absurd hi List.not_mem_nil
  | cons i is ih =>
      intro f hall
      obtain ⟨hdest, hrest⟩ := List.forall_mem_cons.mp hall
      rw [emitOperations, List.all_cons, Bool.and_eq_true, declared_emitOperation f hdest,
        ih _ hrest, List.forall_mem_cons]

end Stub
