import Mathlib
import OsxVlm.Translator.Straight

/-!
# Low halves

The result of a checked instruction is sign-extended on the Alpha, and not in C.  Code
that goes on from it agrees in its low halves as long as it looks at no upper half of
what came from such a result.
-/

namespace Stub

open Alpha C

variable {regs regs' : Registers} {wide : Register → Bool}

def low (x : BitVec 64) : BitVec 32 := x.setWidth 32

theorem low_add (x y : BitVec 64) : low (x + y) = low x + low y :=
  BitVec.setWidth_add x y (by decide)

theorem low_sub (x y : BitVec 64) : low (x - y) = low x - low y := by
  apply BitVec.eq_of_toNat_eq
  simp only [low, BitVec.toNat_setWidth, BitVec.toNat_sub]
  omega

theorem low_mul (x y : BitVec 64) : low (x * y) = low x * low y := by
  apply BitVec.eq_of_toNat_eq
  simp only [low, BitVec.toNat_setWidth, BitVec.toNat_mul]
  rw [Nat.mod_mod_of_dvd _ (by decide), ← Nat.mul_mod]

theorem low_shiftLeft (x : BitVec 64) (n : Nat) : low (x <<< n) = low x <<< n :=
  BitVec.setWidth_shiftLeft_of_le (by decide)

/-- A number modulo a small power of two is that of the low half. -/
theorem toNat_mod_of_low {x y : BitVec 64} (h : low x = low y) (k : Nat) (hk : k ≤ 32) :
    x.toNat % 2 ^ k = y.toNat % 2 ^ k := by
  have hnat := congrArg BitVec.toNat h
  simp only [low, BitVec.toNat_setWidth] at hnat
  have hdvd : 2 ^ k ∣ 2 ^ 32 := Nat.pow_dvd_pow _ hk
  calc x.toNat % 2 ^ k = x.toNat % 2 ^ 32 % 2 ^ k := (Nat.mod_mod_of_dvd _ hdvd).symm
    _ = y.toNat % 2 ^ 32 % 2 ^ k := by rw [hnat]
    _ = y.toNat % 2 ^ k := Nat.mod_mod_of_dvd _ hdvd

/-! ### What an instruction looks at -/

/-- The instruction looks at no upper half that is marked. -/
def operateLooksLow (op : Operate) (a b : Bool) : Bool :=
  match op with
  | .srl | .sra | .extbl | .extwl | .extll => !a
  | .cmpeq | .cmplt | .cmple | .cmpult | .cmpule | .cmpbge => !a && !b
  | _ => true

/-- The upper half of the result is marked. -/
def operateMarks (op : Operate) (a b : Bool) : Bool :=
  match op with
  | .addq | .subq | .s4addq | .s8addq | .s4subq | .s8subq | .mulq => a || b
  | .and | .bic | .bis | .xor | .ornot => a || b
  | .sll | .mskbl => a
  | _ => false

/-- Two values agree, in the low half where it is marked. -/
def Alike (marked : Bool) (x y : BitVec 64) : Prop := low x = low y ∧ (marked = false → x = y)

theorem Alike.refl (marked : Bool) (x : BitVec 64) : Alike marked x x := ⟨rfl, fun _ => rfl⟩

theorem Alike.of_eq {marked : Bool} {x y : BitVec 64} (h : x = y) : Alike marked x y :=
  h ▸ Alike.refl marked x

/-- An operator whose low half is one of the low halves. -/
theorem Alike.map₂ {f : BitVec 64 → BitVec 64 → BitVec 64} {g : BitVec 32 → BitVec 32 → BitVec 32}
    (hlow : ∀ x y, low (f x y) = g (low x) (low y)) {a b : Bool} {x x' y y' : BitVec 64}
    (hx : Alike a x x') (hy : Alike b y y') : Alike (a || b) (f x y) (f x' y') := by
  constructor
  · rw [hlow, hlow, hx.1, hy.1]
  · intro hab
    rw [Bool.or_eq_false_iff] at hab
    rw [hx.2 hab.1, hy.2 hab.2]

theorem signExtendLongword_congr {x y : BitVec 64} (h : low x = low y) :
    signExtendLongword x = signExtendLongword y :=
  congrArg (BitVec.signExtend 64) h

theorem result_alike (op : Operate) {a b : Bool} {x x' y y' : BitVec 64}
    (hx : Alike a x x') (hy : Alike b y y') (hlooks : operateLooksLow op a b = true) :
    Alike (operateMarks op a b) (op.result x y) (op.result x' y') := by
  have hshift : y.toNat % 64 = y'.toNat % 64 := toNat_mod_of_low hy.1 6 (by decide)
  have hbyte : byteLocation y = byteLocation y' :=
    congrArg (8 * ·) (toNat_mod_of_low hy.1 3 (by decide))
  have hexact : (!a) = true → x = x' := fun ha => hx.2 (Bool.not_eq_true' _ ▸ ha)
  cases op with
  | addl =>
      apply Alike.of_eq
      apply signExtendLongword_congr
      rw [low_add, low_add, hx.1, hy.1]
  | subl =>
      apply Alike.of_eq
      apply signExtendLongword_congr
      rw [low_sub, low_sub, hx.1, hy.1]
  | addq => exact Alike.map₂ low_add hx hy
  | subq => exact Alike.map₂ low_sub hx hy
  | mulq => exact Alike.map₂ low_mul hx hy
  | s4addq =>
      refine Alike.map₂ (g := fun x y => x <<< 2 + y) (fun x y => ?_) hx hy
      rw [← low_shiftLeft]
      exact low_add _ _
  | s8addq =>
      refine Alike.map₂ (g := fun x y => x <<< 3 + y) (fun x y => ?_) hx hy
      rw [← low_shiftLeft]
      exact low_add _ _
  | s4subq =>
      refine Alike.map₂ (g := fun x y => x <<< 2 - y) (fun x y => ?_) hx hy
      rw [← low_shiftLeft]
      exact low_sub _ _
  | s8subq =>
      refine Alike.map₂ (g := fun x y => x <<< 3 - y) (fun x y => ?_) hx hy
      rw [← low_shiftLeft]
      exact low_sub _ _
  | and => exact Alike.map₂ (g := fun x y => x &&& y) (fun x y => BitVec.setWidth_and) hx hy
  | bis => exact Alike.map₂ (g := fun x y => x ||| y) (fun x y => BitVec.setWidth_or) hx hy
  | xor => exact Alike.map₂ (g := fun x y => x ^^^ y) (fun x y => BitVec.setWidth_xor) hx hy
  | bic =>
      refine Alike.map₂ (g := fun x y => x &&& ~~~y) (fun x y => ?_) hx hy
      exact BitVec.setWidth_and.trans (congrArg _ (BitVec.setWidth_not (by decide)))
  | ornot =>
      refine Alike.map₂ (g := fun x y => x ||| ~~~y) (fun x y => ?_) hx hy
      exact BitVec.setWidth_or.trans (congrArg _ (BitVec.setWidth_not (by decide)))
  | sll =>
      simp only [Operate.result, hshift]
      refine ⟨?_, fun ha => by rw [hx.2 ha]⟩
      rw [low_shiftLeft, low_shiftLeft, hx.1]
  | mskbl =>
      simp only [Operate.result, hbyte]
      refine ⟨?_, fun ha => by rw [hx.2 ha]⟩
      simp only [low, BitVec.setWidth_and]
      exact congrArg (· &&& _) hx.1
  | insbl =>
      simp only [Operate.result, hbyte]
      apply Alike.of_eq
      have hlowByte : ∀ z : BitVec 64, z.setWidth 8 = (low z).setWidth 8 := fun z =>
        (BitVec.setWidth_setWidth_of_le z (by decide)).symm
      rw [hlowByte x, hlowByte x', hx.1]
  | srl =>
      simp only [Operate.result, hshift, hexact hlooks]
      exact Alike.refl _ _
  | sra =>
      simp only [Operate.result, hshift, hexact hlooks]
      exact Alike.refl _ _
  | extbl =>
      simp only [Operate.result, hbyte, hexact hlooks]
      exact Alike.refl _ _
  | extwl =>
      simp only [Operate.result, hbyte, hexact hlooks]
      exact Alike.refl _ _
  | extll =>
      simp only [Operate.result, hbyte, hexact hlooks]
      exact Alike.refl _ _
  | _ =>
      simp only [operateLooksLow, Bool.and_eq_true, Bool.not_eq_true'] at hlooks
      rw [hx.2 hlooks.1, hy.2 hlooks.2]
      exact Alike.refl _ _

/-- Whether an operand is marked. -/
def markedOperand (wide : Register → Bool) : Operand → Bool
  | .register r => wide r
  | .literal _ => false

def looksLow (wide : Register → Bool) : Instr → Bool
  | .operate op a b _ => operateLooksLow op (wide a) (markedOperand wide b)
  | .cmov condition a _ _ => condition = .lbs || condition = .lbc || !wide a
  | _ => true

/-- The registers that are marked after the instruction. -/
def marksAfter (wide : Register → Bool) : Instr → Register → Bool
  | .operate op a b c => Function.update wide c (operateMarks op (wide a) (markedOperand wide b))
  | .cmov _ _ b c => Function.update wide c (wide c || markedOperand wide b)
  | .lda a _ b | .ldah a _ b => Function.update wide a (wide b)
  | .checked _ _ _ c => Function.update wide c true
  | .trapb => wide

/-- No instruction looks at an upper half that goes back to a checked one. -/
def LooksLow (wide : Register → Bool) : List Instr → Prop
  | [] => True
  | i :: is => looksLow wide i = true ∧ LooksLow (marksAfter wide i) is

/-! ### One instruction -/

def RegsAlike (wide : Register → Bool) (regs regs' : Registers) : Prop :=
  ∀ r, Alike (wide r) (regs r) (regs' r)

theorem RegsAlike.update (h : RegsAlike wide regs regs') (c : Register) {marked : Bool}
    {x y : BitVec 64} (hxy : Alike marked x y) :
    RegsAlike (Function.update wide c marked) (Function.update regs c x)
      (Function.update regs' c y) := by
  intro r
  by_cases hr : r = c
  · subst hr
    rw [Function.update_self, Function.update_self, Function.update_self]
    exact hxy
  · rw [Function.update_of_ne hr, Function.update_of_ne hr, Function.update_of_ne hr]
    exact h r

theorem RegsAlike.operand (h : RegsAlike wide regs regs') (b : Operand) :
    Alike (markedOperand wide b) (b.value regs) (b.value regs') := by
  cases b with
  | register r => exact h r
  | literal n => exact Alike.refl _ _

theorem Alike.mono {marked marked' : Bool} {x y : BitVec 64} (h : Alike marked x y)
    (hmarked : marked' = false → marked = false) : Alike marked' x y :=
  ⟨h.1, fun hfalse => h.2 (hmarked hfalse)⟩

theorem exact_congr (op : Checked) {x x' y y' : BitVec 64} (hx : low x = low x')
    (hy : low y = low y') : op.exact x y = op.exact x' y' := by
  have hx' : (x.setWidth 32).toInt = (x'.setWidth 32).toInt := congrArg BitVec.toInt hx
  have hy' : (y.setWidth 32).toInt = (y'.setWidth 32).toInt := congrArg BitVec.toInt hy
  cases op <;> simp only [Checked.exact, hx', hy']

/-- A condition on the low bit, or on a register that is not marked. -/
theorem holds_congr {condition : Condition} {marked : Bool} {x y : BitVec 64}
    (h : Alike marked x y)
    (hlooks : (condition = .lbs || condition = .lbc || !marked) = true) :
    condition.holds x = condition.holds y := by
  have hbit : x.getLsbD 0 = y.getLsbD 0 := by
    have hlow := congrArg (fun z : BitVec 32 => z.getLsbD 0) h.1
    simpa [low] using hlow
  cases hmarked : marked with
  | false => rw [h.2 hmarked]
  | true =>
      rw [hmarked] at hlooks
      cases condition with
      | lbs => exact hbit
      | lbc => exact congrArg not hbit
      | _ => exact absurd hlooks (by decide)

theorem RegsAlike.step (h : RegsAlike wide regs regs') {i : Instr}
    (hlooks : looksLow wide i = true) :
    RegsAlike (marksAfter wide i) (i.execute regs) (clearUpper regs' i) := by
  cases i with
  | operate op a b c => exact h.update c (result_alike op (h a) (h.operand b) hlooks)
  | cmov condition a b c =>
      simp only [marksAfter, clearUpper, Instr.execute,
        holds_congr (h a) hlooks]
      split
      · apply h.update
        apply (h.operand b).mono
        intro hfalse
        exact (Bool.or_eq_false_iff.mp hfalse).2
      · intro r
        by_cases hr : r = c
        · subst hr
          rw [Function.update_self]
          apply (h r).mono
          intro hfalse
          exact (Bool.or_eq_false_iff.mp hfalse).1
        · rw [Function.update_of_ne hr]
          exact h r
  | lda a displacement b =>
      apply h.update
      refine ⟨?_, fun hb => by rw [(h b).2 hb]⟩
      rw [low_add, low_add, (h b).1]
  | ldah a displacement b =>
      apply h.update
      refine ⟨?_, fun hb => by rw [(h b).2 hb]⟩
      rw [low_add, low_add, (h b).1]
  | checked op a b c =>
      apply h.update
      refine ⟨?_, fun hfalse => Bool.noConfusion hfalse⟩
      have hexact := exact_congr op (h a).1 (h.operand b).1
      simp only [low, Checked.longword, hexact]
      rw [BitVec.setWidth_setWidth_of_le _ (by decide)]
      apply BitVec.eq_of_toInt_eq
      rw [← BitVec.signExtend_eq_setWidth_of_le _ (by decide),
        BitVec.toInt_signExtend_eq_toInt_bmod_of_le _ (by decide),
        BitVec.toInt_signExtend_of_le (by decide), BitVec.setWidth_eq]
      exact Int.bmod_eq_of_le (BitVec.le_toInt _) (BitVec.toInt_lt)
  | trapb => exact h

theorem RegsAlike.overflows (h : RegsAlike wide regs regs') (i : Instr) :
    i.overflows regs = i.overflows regs' := by
  cases i with
  | checked op a b c =>
      simp only [Instr.overflows, Checked.overflows, exact_congr op (h a).1 (h.operand b).1]
  | _ => rfl

/-! ### A whole sequence -/

/-- The trace of the Alpha itself. -/
def alphaTrace (pending : Bool) (regs : Registers) : List Instr → Trace
  | [] => ⟨[], false⟩
  | i :: is =>
      if i = .trapb ∧ pending = true then ⟨[], true⟩
      else
        let rest := alphaTrace (decide (i ≠ .trapb) && (pending || i.overflows regs))
          (i.execute regs) is
        ⟨i.execute regs :: rest.regs, rest.exception⟩

/-- The registers agree in their low halves, and the exceptions agree. -/
structure SameLow (t t' : Trace) : Prop where
  exception : t.exception = t'.exception
  regs : List.Forall₂ (fun regs regs' => ∀ r, low (regs r) = low (regs' r)) t.regs t'.regs

/-- The trace that the flags leave, on the registers of the emission. -/
theorem run_alike (is : List Instr) :
    ∀ (m : Machine) (f pending last : Bool) (wide : Register → Bool) (regs : Registers),
    Flags f m.oflo pending last → m.regs .zero = 0 →
    (∀ i ∈ is, i.destination ≠ some .zero ∧ Compiles i) → FlagKept pending last m.regs is →
    RegsAlike wide regs m.regs → LooksLow wide is →
    ∃ t, run m (emitOperations f is) = some t ∧ SameLow (alphaTrace pending regs is) t := by
  induction is with
  | nil => exact fun _ _ _ _ _ _ _ _ _ _ _ _ => ⟨_, rfl, rfl, List.Forall₂.nil⟩
  | cons i is ih =>
      intro m f pending last wide regs hflags hzero hall hkept halike hlooks
      obtain ⟨⟨hdest, hcompiles⟩, hrest⟩ := List.forall_mem_cons.mp hall
      rw [FlagKept] at hkept
      obtain ⟨hlooks, hlooksRest⟩ := hlooks
      have hstep := halike.step hlooks
      have hoverflows := halike.overflows i
      by_cases hbarrier : i = .trapb
      · subst hbarrier
        rw [if_pos rfl] at hkept
        obtain ⟨rfl, hkept⟩ := hkept
        cases pending with
        | true =>
            have hf : f = true := by
              rw [← Bool.not_eq_false]
              exact fun hf => Bool.noConfusion (hflags.nothing hf).1
            subst hf
            refine ⟨⟨[], true⟩, ?_, ?_⟩
            · simp only [emitOperations, emitOperation, if_true, run, executeLines, Line.execute,
                hflags.checks rfl]
            · rw [alphaTrace, if_pos ⟨rfl, rfl⟩]
              exact ⟨rfl, List.Forall₂.nil⟩
        | false =>
            have hnext : executeLines m (emitOperation f .trapb).1 = some (.next m) := by
              cases f with
              | false => rfl
              | true =>
                  simp only [emitOperation, if_true, executeLines, Line.execute,
                    hflags.checks rfl]
                  rfl
            have hfalse : Flags false m.oflo false false :=
              ⟨fun h => Bool.noConfusion h, fun _ => ⟨rfl, rfl⟩⟩
            obtain ⟨t, ht, hsame⟩ := ih m false false false wide regs hfalse hzero hrest
              (hkept rfl) halike hlooksRest
            refine ⟨⟨m.regs :: t.regs, t.exception⟩, ?_, ?_⟩
            · rw [emitOperations, run_next hnext]
              simp only [emitOperation, ht, Option.map_some]
            · rw [alphaTrace, if_neg fun h => Bool.noConfusion h.2]
              exact ⟨hsame.exception, List.Forall₂.cons (fun r => (halike r).1) hsame.regs⟩
      · rw [if_neg hbarrier, ← hoverflows] at hkept
        have hflags' := hflags.step i hbarrier m.regs
        rw [← hoverflows] at hflags'
        obtain ⟨t, ht, hsame⟩ := ih ⟨clearUpper m.regs i, lastOverflow m.oflo m.regs i⟩ _ _ _ _ _
          hflags' (clearUpper_zero hzero hdest) hrest hkept hstep hlooksRest
        refine ⟨⟨clearUpper m.regs i :: t.regs, t.exception⟩, ?_, ?_⟩
        · rw [emitOperations, run_next (executeLines_step hzero hdest hcompiles hbarrier), ht,
            Option.map_some]
        · rw [alphaTrace, if_neg fun h => hbarrier h.1, decide_eq_true hbarrier, Bool.true_and]
          exact ⟨hsame.exception, List.Forall₂.cons (fun r => (hstep r).1) hsame.regs⟩

/-- Without checked instructions, a trace that conforms is that of the Alpha. -/
theorem conforms_plain (is : List Instr) : ∀ (regs : Registers) (t : Trace),
    (∀ i ∈ is, ∀ op a b c, i ≠ .checked op a b c) →
    (Conforms false regs is t ↔ t = alphaTrace false regs is) := by
  induction is with
  | nil => exact fun _ _ _ => Iff.rfl
  | cons i is ih =>
      intro regs t hall
      obtain ⟨hplain, hrest⟩ := List.forall_mem_cons.mp hall
      have hoverflows : (decide (i ≠ .trapb) && (false || i.overflows regs)) = false := by
        cases i with
        | checked op a b c => exact absurd rfl (hplain op a b c)
        | _ => simp [Instr.overflows]
      have hprescribes : ∀ regs', Prescribes regs i regs' ↔ regs' = i.execute regs := by
        intro regs'
        cases i with
        | checked op a b c => exact absurd rfl (hplain op a b c)
        | _ => rfl
      have hgoes : ¬ (i = .trapb ∧ false = true) := fun h => Bool.noConfusion h.2
      rw [Conforms, alphaTrace, if_neg hgoes, if_neg hgoes, hoverflows]
      constructor
      · intro h
        obtain ⟨regs', rest, hregs, hp, hconforms⟩ := h
        rw [hprescribes] at hp
        subst hp
        have hih := (ih _ _ hrest).mp hconforms
        cases t
        simp only at hregs hih
        rw [hregs, ← hih]
      · intro h
        subst h
        exact ⟨_, _, rfl, (hprescribes _).mpr rfl, (ih _ _ hrest).mpr rfl⟩

theorem flagKept_plain (is : List Instr) : ∀ regs : Registers,
    (∀ i ∈ is, ∀ op a b c, i ≠ .checked op a b c) → FlagKept false false regs is := by
  induction is with
  | nil => exact fun _ _ => trivial
  | cons i is ih =>
      intro regs hall
      obtain ⟨hplain, hrest⟩ := List.forall_mem_cons.mp hall
      rw [FlagKept]
      split
      · exact ⟨rfl, fun _ => ih regs hrest⟩
      · cases i with
        | checked op a b c => exact absurd rfl (hplain op a b c)
        | _ => exact ih _ hrest

attribute [local instance] Alpha.neZero_registers

def sampleMachine : Machine := ⟨fun r => if r = .r 1 then 0x7fffffff else 0, false⟩

/-- The overflow of the first sum is forgotten with the second one. -/
def forgottenOverflow : List Instr :=
  [.checked .addl (.r 1) (.register (.r 1)) (.r 2), .checked .addl (.r 3) (.literal 0) (.r 4),
    .trapb]

end Stub
