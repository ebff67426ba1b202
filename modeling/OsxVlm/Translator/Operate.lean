import Mathlib
import OsxVlm.Translator.EmitOperation

/-!
# Expressions of operate instructions

A register is an `unsigned long` and a literal an `int`; with a register on its left,
every operator is one on 64 bits.
-/

namespace C

variable {V : Type} {env : V → BitVec 64}

namespace Value

theorem arith_ulong (op : Arith) (x : BitVec 64) (y : Value) :
    arith op ⟨.ulong, x⟩ y = some ⟨.ulong, op.onBits x y.bits⟩ := by
  simp [arith, cast]

theorem shl_ulong (x : BitVec 64) {y : Value} {n : Nat} (hnumber : y.number = n) (hlt : n < 64) :
    shl ⟨.ulong, x⟩ y = some ⟨.ulong, x <<< n⟩ := by
  have hbound : (0 : Int) ≤ n ∧ (n : Int) < 64 := by omega
  simp [shl, hnumber, CType.promote, CType.bits, CType.signed, hbound]

theorem shr_ulong (x : BitVec 64) {y : Value} {n : Nat} (hnumber : y.number = n) (hlt : n < 64) :
    shr ⟨.ulong, x⟩ y = some ⟨.ulong, x >>> n⟩ := by
  have hbound : (0 : Int) ≤ n ∧ (n : Int) < 64 := by omega
  simp [shr, hnumber, CType.promote, CType.bits, CType.signed, hbound]

theorem shr_long (x : BitVec 64) {y : Value} {n : Nat} (hnumber : y.number = n) (hlt : n < 64) :
    shr ⟨.long, x⟩ y = some ⟨.long, x.sshiftRight n⟩ := by
  have hbound : (0 : Int) ≤ n ∧ (n : Int) < 64 := by omega
  simp [shr, hnumber, CType.promote, CType.bits, CType.signed, hbound]

/-- A small value is the same number in every type. -/
theorem number_of_lt {x : Value} (h : x.bits.toNat < 2 ^ 63) : x.number = x.bits.toNat := by
  unfold number
  split
  · rw [BitVec.toInt_eq_toNat_of_lt (by omega)]
  · rfl

end Value

/-- Where no number exceeds an `int`, its operators are those on 64 bits as well. -/
theorem Value.arith_int {op : Arith} {x y : BitVec 64} (hx : x.toNat < 2 ^ 31)
    (hy : y.toNat < 2 ^ 31) (hfits : CType.fits .int (op.onNumbers x.toNat y.toNat) = true)
    (hlt : (op.onBits x y).toNat < 2 ^ 31) :
    Value.arith op ⟨.int, x⟩ ⟨.int, y⟩ = some ⟨.int, op.onBits x y⟩ := by
  have hnumber : ∀ {z : BitVec 64}, z.toNat < 2 ^ 31 → (⟨.int, z⟩ : Value).number = z.toNat :=
    fun hz => Value.number_of_lt (show _ < 2 ^ 63 by simp only; omega)
  have husual : CType.usual .int .int = .int := rfl
  simp only [Value.arith, Value.cast, husual, CType.convert_int_of_lt hx,
    CType.convert_int_of_lt hy, CType.convert_int_of_lt hlt, hnumber hx, hnumber hy, hfits, if_true]

theorem Expr.eval_int {n : Nat} (h : n < 2 ^ 31) :
    (Expr.literal .int (n : Int)).eval env = some ⟨.int, BitVec.ofNat 64 n⟩ := by
  have hbits : (BitVec.ofNat 64 n).toNat < 2 ^ 31 := by
    rw [BitVec.toNat_ofNat]
    omega
  simp only [Expr.eval, Value.cast, BitVec.ofInt_natCast, CType.convert_int_of_lt hbits]

end C

namespace Stub

open Alpha C

variable {regs : Registers} {a c : Register} {b : Operand}

def operandType : Operand → CType
  | .register _ => .ulong
  | .literal _ => .int

theorem eval_fixarg (regs : Registers) (b : Operand) :
    (fixarg b).eval regs = some ⟨operandType b, b.value regs⟩ := by
  cases b with
  | register r => rfl
  | literal n =>
      have hn := n.isLt
      simp only [fixarg, Expr.eval_int (show n.toNat < 2 ^ 31 by omega), operandType,
        Operand.value, BitVec.ofNat_toNat]

theorem eval_var (regs : Registers) (r : Register) :
    (Expr.var r).eval regs = some ⟨.ulong, regs r⟩ := rfl

/-! ### Shift counts -/

theorem toNat_and_mask (x : BitVec 64) (k : Nat) (hk : k < 64) :
    (x &&& BitVec.ofNat 64 (2 ^ k - 1)).toNat = x.toNat % 2 ^ k := by
  have hpow : 2 ^ k < 2 ^ 64 := Nat.pow_lt_pow_right (by decide) hk
  rw [BitVec.toNat_and, BitVec.toNat_ofNat, Nat.mod_eq_of_lt (by omega),
    Nat.and_two_pow_sub_one_eq_mod]

/-- The low bits of an operand, under a mask that is a literal. -/
theorem eval_masked (regs : Registers) (b : Operand) {k : Nat} (hk : k ≤ 6) :
    ∃ t, (t = .int ∨ t = .ulong) ∧
      (Expr.arith .and (fixarg b) (.literal .int ((2 ^ k - 1 : Nat) : Int))).eval regs =
        some ⟨t, b.value regs &&& BitVec.ofNat 64 (2 ^ k - 1)⟩ := by
  have hpow : 2 ^ k ≤ 2 ^ 6 := Nat.pow_le_pow_right (by decide) hk
  have hpos : 0 < 2 ^ k := Nat.pow_pos (by decide)
  have hmask := toNat_and_mask (b.value regs) k (by omega)
  have hlt := Nat.mod_lt (b.value regs).toNat hpos
  refine ⟨operandType b, ?_, ?_⟩
  · cases b
    · exact Or.inr rfl
    · exact Or.inl rfl
  · rw [Expr.eval, eval_fixarg, Expr.eval_int (show 2 ^ k - 1 < 2 ^ 31 by omega),
      Option.bind_some, Option.bind_some]
    cases b with
    | register r => exact Value.arith_ulong .and (regs r) _
    | literal n =>
        have hn := n.isLt
        apply Value.arith_int
        · rw [Operand.value, BitVec.toNat_setWidth]
          omega
        · rw [BitVec.toNat_ofNat]
          omega
        · rfl
        · exact lt_of_eq_of_lt hmask (by omega)

theorem eval_shiftarg (regs : Registers) (b : Operand) :
    ∃ y, (shiftarg b).eval regs = some y ∧ y.number = ((b.value regs).toNat % 64 : Nat) := by
  cases b with
  | register r =>
      obtain ⟨t, -, heval⟩ := eval_masked regs (.register r) (show 6 ≤ 6 from le_rfl)
      have hmask := toNat_and_mask (regs r) 6 (by decide)
      have hlt := Nat.mod_lt (regs r).toNat (show 0 < 2 ^ 6 by decide)
      refine ⟨_, heval, ?_⟩
      rw [Value.number_of_lt (lt_of_eq_of_lt hmask (by omega))]
      exact congrArg Nat.cast hmask
  | literal n =>
      have hn := (n &&& 63).isLt
      have hmask : (n &&& 63).toNat = n.toNat % 2 ^ 6 := by
        rw [BitVec.toNat_and]
        exact Nat.and_two_pow_sub_one_eq_mod n.toNat 6
      refine ⟨_, Expr.eval_int (show (n &&& 63).toNat < 2 ^ 31 by omega), ?_⟩
      rw [Value.number_of_lt (by rw [BitVec.toNat_ofNat]; omega), Operand.value,
        BitVec.toNat_setWidth, BitVec.toNat_ofNat, hmask]
      omega

theorem eval_byteShift (regs : Registers) (b : Operand) :
    ∃ y, (byteShift b).eval regs = some y ∧ y.number = byteLocation (b.value regs) := by
  obtain ⟨t, ht, heval⟩ := eval_masked regs b (show 3 ≤ 6 by decide)
  have hmask := toNat_and_mask (b.value regs) 3 (by decide)
  have hlt := Nat.mod_lt (b.value regs).toNat (show 0 < 2 ^ 3 by decide)
  have hproduct : (Arith.mul.onBits (b.value regs &&& BitVec.ofNat 64 (2 ^ 3 - 1))
      (BitVec.ofNat 64 8)).toNat = byteLocation (b.value regs) := by
    rw [Arith.onBits, BitVec.toNat_mul, hmask, BitVec.toNat_ofNat, byteLocation]
    omega
  have hle : byteLocation (b.value regs) < 64 := by
    unfold byteLocation
    omega
  refine ⟨⟨t, Arith.mul.onBits (b.value regs &&& BitVec.ofNat 64 (2 ^ 3 - 1))
    (BitVec.ofNat 64 8)⟩, ?_, ?_⟩
  · have hbyteShift : byteShift b = .arith .mul
        (.arith .and (fixarg b) (.literal .int ((2 ^ 3 - 1 : Nat) : Int)))
        (.literal .int ((8 : Nat) : Int)) := rfl
    rw [hbyteShift, Expr.eval, heval, Expr.eval_int (show 8 < 2 ^ 31 by decide),
      Option.bind_some, Option.bind_some]
    obtain rfl | rfl := ht
    · apply Value.arith_int
      · exact lt_of_eq_of_lt hmask (by omega)
      · decide
      · rw [hmask]
        simp only [CType.fits, CType.signed, CType.bits, Arith.onNumbers, BitVec.toNat_ofNat,
          Bool.not_true, Bool.false_or, decide_eq_true_eq]
        omega
      · rw [hproduct]
        omega
    · exact Value.arith_ulong .mul _ _
  · rw [Value.number_of_lt (by rw [hproduct]; omega), hproduct]

/-! ### One operator -/

theorem eval_arith (op : Arith) {l r : CExpr} {x : BitVec 64} {y : Value}
    (hl : l.eval regs = some ⟨.ulong, x⟩) (hr : r.eval regs = some y) :
    (Expr.arith op l r).eval regs = some ⟨.ulong, op.onBits x y.bits⟩ := by
  rw [Expr.eval, hl, hr, Option.bind_some, Option.bind_some, Value.arith_ulong]

/-- A register times four or eight. -/
theorem eval_scaled (regs : Registers) (a : Register) {n k : Nat} (hn : n = 2 ^ k) (hk : k < 31) :
    (Expr.arith .mul (.var a) (.literal .int (n : Int))).eval regs =
      some ⟨.ulong, regs a <<< k⟩ := by
  have hlt : n < 2 ^ 31 := hn ▸ Nat.pow_lt_pow_right (by decide) hk
  have htwoPow : BitVec.ofNat 64 n = BitVec.twoPow 64 k := by
    apply BitVec.eq_of_toNat_eq
    rw [BitVec.toNat_ofNat, BitVec.toNat_twoPow, hn]
  rw [eval_arith .mul (eval_var regs a) (Expr.eval_int hlt), BitVec.shiftLeft_eq_mul_twoPow,
    htwoPow]
  rfl

theorem convert_int_not {x : BitVec 64} (h : x.toNat < 2 ^ 31) :
    CType.convert .int (~~~x) = ~~~x := by
  have hnumber : (~~~x).toInt = -1 - x.toNat := by
    rw [BitVec.toInt_not]
    have hbmod : ((2 ^ 64 - 1 - x.toNat : Int)).bmod (2 ^ 64) = -1 - x.toNat := by
      rw [show (2 ^ 64 - 1 - x.toNat : Int) = -1 - x.toNat + 1 * (2 ^ 64 : Nat) by omega,
        Int.add_mul_bmod_self_right]
      apply Int.bmod_eq_of_le <;> omega
    exact hbmod
  apply CType.convert_int_of_toInt <;> omega

theorem eval_not_fixarg (regs : Registers) (b : Operand) :
    ∃ x, (Expr.not (fixarg b)).eval regs = some x ∧ x.bits = ~~~(b.value regs) := by
  rw [Expr.eval, eval_fixarg]
  cases b with
  | register r => exact ⟨_, rfl, rfl⟩
  | literal n =>
      have hn := n.isLt
      refine ⟨_, rfl, ?_⟩
      apply convert_int_not
      rw [Operand.value, BitVec.toNat_setWidth]
      omega

theorem eval_not_longnum (regs : Registers) {b : Operand}
    (hb : ∀ r, b = .register r → mixedCase r = false) :
    ∃ x, (Expr.not (longnum b)).eval regs = some x ∧ x.bits = ~~~(b.value regs) := by
  rw [Expr.eval]
  cases b with
  | register r =>
      rw [longnum, hb r rfl]
      exact ⟨_, rfl, rfl⟩
  | literal n =>
      refine ⟨_, rfl, ?_⟩
      simp only [Value.not, Value.cast, CType.promote, CType.convert_long, Operand.value]
      rw [BitVec.ofInt_natCast, BitVec.ofNat_toNat]

theorem convert_uint_setWidth (x : BitVec 64) :
    (CType.convert .uint x).setWidth 32 = x.setWidth 32 := by
  apply BitVec.eq_of_toNat_eq
  simp only [CType.convert, BitVec.toNat_setWidth]
  omega

/-- A sum or difference of longwords. -/
theorem eval_longword (op : Arith) (hop : op = .add ∨ op = .sub) (regs : Registers)
    (a : Register) (b : Operand) :
    (Expr.cast .int (.arith op (.cast .uint (.var a)) (.cast .uint (fixarg b)))).eval regs =
      some ⟨.int, signExtendLongword (op.onBits (regs a) (b.value regs))⟩ := by
  have hlow : ∀ x y : BitVec 64,
      (op.onBits (CType.convert .uint x) (CType.convert .uint y)).setWidth 32 =
        (op.onBits x y).setWidth 32 := by
    intro x y
    apply BitVec.eq_of_toNat_eq
    obtain rfl | rfl := hop
    · simp only [CType.convert, Arith.onBits, BitVec.toNat_setWidth, BitVec.toNat_add]
      omega
    · simp only [CType.convert, Arith.onBits, BitVec.toNat_setWidth, BitVec.toNat_sub]
      omega
  have husual : CType.usual .uint .uint = .uint := rfl
  have hconvert : ∀ x, CType.convert .uint (CType.convert .uint x) = CType.convert .uint x := by
    intro x
    exact congrArg (BitVec.setWidth 64) (convert_uint_setWidth x)
  have hfits : ∀ n, CType.fits .uint n = true := fun _ => rfl
  simp only [Expr.eval, eval_fixarg, Option.map_some, Option.bind_some, Value.arith, Value.cast,
    husual, hconvert, hfits, if_true]
  congr 2
  rw [signExtendLongword, ← hlow, ← convert_uint_setWidth]
  rfl

theorem eval_castLongword {e : CExpr} {y : Value} (he : e.eval regs = some y) :
    (Expr.cast .int e).eval regs = some ⟨.int, signExtendLongword y.bits⟩ := by
  rw [Expr.eval, he]
  rfl

/-- A comparison, where `number` is what both sides are compared by. -/
theorem eval_comparison (type : CType) (number : BitVec 64 → Int)
    (htype : type = .long ∧ number = BitVec.toInt ∨ type = .ulong ∧ number = fun x => x.toNat)
    (relation : Relation) (regs : Registers) (a : Register) (b : Operand) :
    ∃ x, (comparison type relation a b).eval regs = some x ∧
      x.bits = truth (relation.holds (number (regs a)) (number (b.value regs))) := by
  have hconvert : ∀ x, CType.convert type x = x := by
    intro x
    obtain ⟨rfl, -⟩ | ⟨rfl, -⟩ := htype <;> rfl
  have husual : CType.usual type type = type := by
    obtain ⟨rfl, -⟩ | ⟨rfl, -⟩ := htype <;> rfl
  have hnumber : ∀ x, (⟨type, x⟩ : Value).number = number x := by
    intro x
    obtain ⟨rfl, rfl⟩ | ⟨rfl, rfl⟩ := htype <;> rfl
  simp only [comparison, Expr.eval, eval_fixarg, Option.map_some, Option.bind_some, Value.cast,
    Value.compare, husual, hconvert, hnumber]
  cases relation.holds (number (regs a)) (number (b.value regs)) with
  | true => exact ⟨_, rfl, rfl⟩
  | false => exact ⟨_, rfl, rfl⟩

theorem eval_extract (type : CType) (regs : Registers) (a : Register) (b : Operand) :
    (extract type a b).eval regs =
      some ⟨type, type.convert (regs a >>> byteLocation (b.value regs))⟩ := by
  unfold extract
  by_cases hb : b = .literal 0
  · rw [if_pos hb, hb]
    rfl
  · obtain ⟨y, hy, hnumber⟩ := eval_byteShift regs b
    rw [if_neg hb, Expr.eval, Expr.eval, eval_var, hy, Option.bind_some, Option.bind_some,
      Value.shr_ulong _ hnumber (by unfold byteLocation; omega)]
    rfl

theorem eval_insert (regs : Registers) (a : Register) (b : Operand) :
    (Expr.shl (.arith .and (.var a) (.literal .int 0xff)) (byteShift b)).eval regs =
      some ⟨.ulong, ((regs a).setWidth 8).setWidth 64 <<< byteLocation (b.value regs)⟩ := by
  obtain ⟨y, hy, hnumber⟩ := eval_byteShift regs b
  have hmask : Arith.and.onBits (regs a) 0xff = ((regs a).setWidth 8).setWidth 64 := by
    apply BitVec.eq_of_toNat_eq
    rw [BitVec.toNat_setWidth, BitVec.toNat_setWidth]
    have hlow := toNat_and_mask (regs a) 8 (by decide)
    exact hlow.trans (by omega)
  have hlow : (Expr.arith .and (.var a) (.literal .int 0xff)).eval regs =
      some ⟨.ulong, ((regs a).setWidth 8).setWidth 64⟩ := by
    have hff : (Expr.literal .int 0xff).eval regs = some ⟨.int, 0xff⟩ := rfl
    rw [eval_arith .and (eval_var regs a) hff, ← hmask]
  rw [Expr.eval, hlow, hy, Option.bind_some, Option.bind_some,
    Value.shl_ulong _ hnumber (by unfold byteLocation; omega)]

theorem eval_mask (regs : Registers) (b : Operand) :
    (Expr.not (.shl (.literal .ulong 0xff) (byteShift b))).eval regs =
      some ⟨.ulong, ~~~(0xFF#64 <<< byteLocation (b.value regs))⟩ := by
  obtain ⟨y, hy, hnumber⟩ := eval_byteShift regs b
  have hff : (Expr.literal .ulong 0xff).eval regs = some ⟨.ulong, 0xFF#64⟩ := rfl
  rw [Expr.eval, Expr.eval, hff, hy, Option.bind_some, Option.bind_some,
    Value.shl_ulong _ hnumber (by unfold byteLocation; omega)]
  rfl

/-- Eight rounds compare the eight bytes from the low end. -/
theorem cmpbge_eq (a b : BitVec 64) : cmpbge a b = compareBytes a b := by
  have hbyte : ∀ (x : BitVec 64) (i : Nat), ((x >>> (8 * i)) &&& 0xff).setWidth 8 = byte x i := by
    intro x i
    apply BitVec.eq_of_toNat_eq
    have hlow := toNat_and_mask (x >>> (8 * i)) 8 (by decide)
    rw [BitVec.toNat_setWidth, byte, BitVec.extractLsb'_toNat]
    rw [show (x >>> (8 * i) &&& 0xff).toNat = _ from hlow, BitVec.toNat_ushiftRight]
    omega
  have hloop : ∀ (rounds i : Nat) (res : BitVec 64),
      cmpbgeLoop rounds i (a >>> (8 * i)) (b >>> (8 * i)) res =
        (List.range' i rounds).foldl
          (fun r i => if byte b i ≤ byte a i then r ||| BitVec.twoPow 64 i else r) res := by
    intro rounds
    induction rounds with
    | zero => exact fun _ _ => rfl
    | succ rounds ih =>
        intro i res
        rw [cmpbgeLoop, List.range'_succ, List.foldl_cons]
        simp only [hbyte]
        rw [← BitVec.shiftRight_add, ← BitVec.shiftRight_add, ← Nat.mul_succ, ih (i + 1)]
        congr 1
  have h := hloop 8 0 0
  rw [Nat.mul_zero] at h
  rw [compareBytes, List.range_eq_range']
  exact h

/-! ### All operate instructions -/

/-- Nothing but the second operand of `BIC` is printed under a name that C lacks. -/
def Compiles : Instr → Prop
  | .operate .bic _ (.register r) _ => mixedCase r = false
  | _ => True

instance (i : Instr) : Decidable (Compiles i) := by
  unfold Compiles
  split <;> infer_instance

/-- The expression has the value. -/
def Computes (regs : Registers) (e : CExpr) (value : BitVec 64) : Prop :=
  ∃ x, e.eval regs = some x ∧ x.bits = value

theorem computes_fixarg (regs : Registers) (b : Operand) :
    Computes regs (fixarg b) (b.value regs) := ⟨_, eval_fixarg regs b, rfl⟩

theorem computes_arith (op : Arith) (regs : Registers) (a : Register) (b : Operand) :
    Computes regs (.arith op (.var a) (fixarg b)) (op.onBits (regs a) (b.value regs)) :=
  ⟨_, eval_arith op (eval_var regs a) (eval_fixarg regs b), rfl⟩

/-- Operators that leave the other operand alone when one is zero. -/
theorem computes_unit (op : Arith) (hop : op = .add ∨ op = .or) (hzero : regs .zero = 0)
    (hc : a = .zero ∨ b = .register .zero) :
    Computes regs (if a = .zero then fixarg b else .var a)
      (op.onBits (regs a) (b.value regs)) := by
  have hleft : ∀ x : BitVec 64, op.onBits 0 x = x := by
    obtain rfl | rfl := hop
    · exact BitVec.zero_add
    · exact fun x => BitVec.zero_or
  have hright : ∀ x : BitVec 64, op.onBits x 0 = x := by
    obtain rfl | rfl := hop
    · exact BitVec.add_zero
    · exact fun x => BitVec.or_zero
  by_cases ha : a = .zero
  · rw [if_pos ha, ha, hzero, hleft]
    exact computes_fixarg regs b
  · rw [if_neg ha, hc.resolve_left ha, Operand.value, hzero, hright]
    exact ⟨_, eval_var regs a, rfl⟩

theorem computes_scaled (op : Arith) (regs : Registers) (a : Register) (b : Operand) {n k : Nat}
    (hn : n = 2 ^ k) (hk : k < 31) :
    Computes regs (.arith op (.arith .mul (.var a) (.literal .int (n : Int))) (fixarg b))
      (op.onBits (regs a <<< k) (b.value regs)) :=
  ⟨_, eval_arith op (eval_scaled regs a hn hk) (eval_fixarg regs b), rfl⟩

/-- The expression for an operate instruction has the result of the architecture. -/
theorem operateExpr_computes (op : Operate) (hzero : regs .zero = 0) (hc : c ≠ .zero)
    (hcompiles : Compiles (.operate op a b c)) :
    ∃ e, operateExpr op a b c = some e ∧ Computes regs e (op.result (regs a) (b.value regs)) := by
  cases op with
  | addl =>
      simp only [operateExpr]
      by_cases hunit : a = .zero ∨ b = .register .zero
      · obtain ⟨x, hx, hbits⟩ := computes_unit .add (Or.inl rfl) hzero hunit
        refine ⟨.cast .int (if a = .zero then fixarg b else .var a), ?_, _,
          eval_castLongword hx, congrArg signExtendLongword hbits⟩
        grind
      · rw [not_or] at hunit
        rw [if_neg hunit.1, if_neg hunit.2]
        exact ⟨_, rfl, _, eval_longword .add (Or.inl rfl) regs a b, rfl⟩
  | addq =>
      simp only [operateExpr]
      by_cases hunit : a = .zero ∨ b = .register .zero
      · exact ⟨_, by grind, computes_unit .add (Or.inl rfl) hzero hunit⟩
      · rw [not_or] at hunit
        rw [if_neg hunit.1, if_neg hunit.2]
        exact ⟨_, rfl, computes_arith .add regs a b⟩
  | bis =>
      simp only [operateExpr]
      by_cases hunit : a = .zero ∨ b = .register .zero
      · exact ⟨_, by grind, computes_unit .or (Or.inr rfl) hzero hunit⟩
      · rw [not_or] at hunit
        rw [if_neg hunit.1, if_neg hunit.2]
        exact ⟨_, rfl, computes_arith .or regs a b⟩
  | subl =>
      simp only [operateExpr, if_neg hc]
      exact ⟨_, rfl, _, eval_longword .sub (Or.inr rfl) regs a b, rfl⟩
  | subq =>
      simp only [operateExpr, if_neg hc]
      exact ⟨_, rfl, computes_arith .sub regs a b⟩
  | and =>
      simp only [operateExpr, if_neg hc]
      exact ⟨_, rfl, computes_arith .and regs a b⟩
  | mulq => exact ⟨_, rfl, computes_arith .mul regs a b⟩
  | xor => exact ⟨_, rfl, computes_arith .xor regs a b⟩
  | s4addq =>
      simp only [operateExpr]
      by_cases hb : b = .register .zero
      · rw [if_pos hb]
        refine ⟨_, rfl, _, eval_scaled regs a (show 4 = 2 ^ 2 from rfl) (by decide), ?_⟩
        rw [hb]
        simp only [Operate.result, Operand.value, hzero]
        exact (BitVec.add_zero _).symm
      · rw [if_neg hb]
        exact ⟨_, rfl, computes_scaled .add regs a b (show 4 = 2 ^ 2 from rfl) (by decide)⟩
  | s8addq =>
      exact ⟨_, rfl, computes_scaled .add regs a b (show 8 = 2 ^ 3 from rfl) (by decide)⟩
  | s4subq =>
      exact ⟨_, rfl, computes_scaled .sub regs a b (show 4 = 2 ^ 2 from rfl) (by decide)⟩
  | s8subq =>
      exact ⟨_, rfl, computes_scaled .sub regs a b (show 8 = 2 ^ 3 from rfl) (by decide)⟩
  | bic =>
      obtain ⟨x, hx, hbits⟩ := eval_not_longnum regs (b := b) (by
        intro r hr
        rw [hr] at hcompiles
        exact hcompiles)
      exact ⟨_, rfl, _, eval_arith .and (eval_var regs a) hx, by rw [hbits]; rfl⟩
  | ornot =>
      obtain ⟨x, hx, hbits⟩ := eval_not_fixarg regs b
      simp only [operateExpr]
      by_cases ha : a = .zero
      · rw [if_pos ha]
        refine ⟨_, rfl, _, hx, hbits.trans ?_⟩
        rw [ha]
        simp only [Operate.result, hzero]
        exact BitVec.zero_or.symm
      · rw [if_neg ha]
        exact ⟨_, rfl, _, eval_arith .or (eval_var regs a) hx, by rw [hbits]; rfl⟩
  | sll =>
      obtain ⟨y, hy, hnumber⟩ := eval_shiftarg regs b
      refine ⟨_, rfl, ⟨.ulong, regs a <<< ((b.value regs).toNat % 64)⟩, ?_, rfl⟩
      rw [Expr.eval, eval_var, hy, Option.bind_some, Option.bind_some,
        Value.shl_ulong _ hnumber (Nat.mod_lt _ (by decide))]
  | srl =>
      obtain ⟨y, hy, hnumber⟩ := eval_shiftarg regs b
      refine ⟨_, rfl, ⟨.ulong, regs a >>> ((b.value regs).toNat % 64)⟩, ?_, rfl⟩
      rw [Expr.eval, eval_var, hy, Option.bind_some, Option.bind_some,
        Value.shr_ulong _ hnumber (Nat.mod_lt _ (by decide))]
  | sra =>
      obtain ⟨y, hy, hnumber⟩ := eval_shiftarg regs b
      have hlong : (Expr.cast .long (.var a)).eval regs = some ⟨.long, regs a⟩ := rfl
      refine ⟨_, rfl, ⟨.long, (regs a).sshiftRight ((b.value regs).toNat % 64)⟩, ?_, rfl⟩
      rw [Expr.eval, hlong, hy, Option.bind_some, Option.bind_some,
        Value.shr_long _ hnumber (Nat.mod_lt _ (by decide))]
  | cmpeq =>
      refine ⟨_, rfl, ?_⟩
      have hcompare : (Expr.compare .eq (.var a) (fixarg b)).eval regs =
          some (Value.compare .eq ⟨.ulong, regs a⟩ ⟨operandType b, b.value regs⟩) := by
        rw [Expr.eval, eval_var, eval_fixarg]
        rfl
      rw [Computes, Expr.eval, hcompare, Option.bind_some]
      simp only [Value.compare, CType.usual_ulong_left, Value.cast, CType.convert_ulong,
        Relation.holds, Value.number, CType.signed, Operate.result, truth]
      by_cases heq : regs a = b.value regs
      · simp only [heq]
        exact ⟨_, rfl, rfl⟩
      · have hne : ¬ (((regs a).toNat : Int) = ((b.value regs).toNat : Int)) := by
          rw [Int.ofNat_inj, BitVec.toNat_inj]
          exact heq
        simp only [heq]
        refine ⟨_, rfl, ?_⟩
        simp [hne, Value.cond, Value.cast]
        rfl
  | cmplt => exact ⟨_, rfl, eval_comparison .long BitVec.toInt (Or.inl ⟨rfl, rfl⟩) .lt regs a b⟩
  | cmple => exact ⟨_, rfl, eval_comparison .long BitVec.toInt (Or.inl ⟨rfl, rfl⟩) .le regs a b⟩
  | cmpult =>
      obtain ⟨x, hx, hbits⟩ := eval_comparison .ulong (fun x => x.toNat) (Or.inr ⟨rfl, rfl⟩) .lt
        regs a b
      refine ⟨_, rfl, x, hx, hbits.trans ?_⟩
      simp only [Operate.result, Relation.holds, Int.ofNat_lt, BitVec.lt_def]
  | cmpule =>
      obtain ⟨x, hx, hbits⟩ := eval_comparison .ulong (fun x => x.toNat) (Or.inr ⟨rfl, rfl⟩) .le
        regs a b
      refine ⟨_, rfl, x, hx, hbits.trans ?_⟩
      simp only [Operate.result, Relation.holds, Int.ofNat_le, BitVec.le_def]
  | extbl => exact ⟨_, rfl, _, eval_extract .uchar regs a b, rfl⟩
  | extwl => exact ⟨_, rfl, _, eval_extract .ushort regs a b, rfl⟩
  | extll => exact ⟨_, rfl, _, eval_extract .uint regs a b, rfl⟩
  | insbl => exact ⟨_, rfl, _, eval_insert regs a b, rfl⟩
  | mskbl => exact ⟨_, rfl, _, eval_arith .and (eval_var regs a) (eval_mask regs b), rfl⟩
  | cmpbge =>
      refine ⟨_, rfl, ⟨.ulong, cmpbge (regs a) (b.value regs)⟩, ?_, cmpbge_eq _ _⟩
      rw [Expr.eval, eval_var, eval_fixarg]
      rfl

end Stub
