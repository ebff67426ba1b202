import OsxVlm.Emulator.Arithmetic
import OsxVlm.Library.BitFields
import OsxVlm.Library.Rounding

/-!
# What fixnum arithmetic leaves

Every instruction leaves the exact results or takes an exception, except for `round`,
which never rounds downwards when the signs of the remainder and the divisor differ, and
`ash`, whose shift counts wrap.
-/

namespace Ivory.Execute

/-- A fixnum holds the integer. -/
def Fits (n : Int) : Prop := -2 ^ 31 ≤ n ∧ n < 2 ^ 31

instance (n : Int) : Decidable (Fits n) := inferInstanceAs (Decidable (_ ∧ _))

def Outcome.IsException {σ : Type} : Outcome σ → Prop
  | .illegalOperand _ | .instructionException _ => True
  | _ => False

/-- The rounded quotient and the remainder it leaves. -/
def exactQuotient (m : Rounding.Mode) (x y : Int) : Option (List Int) :=
  let q := Rounding.round m ((x : ℚ) / y)
  if y = 0 then none else some [q, x - q * y]

/-- The exact results, where there are any. -/
def Binary.exact (x y : Int) : Binary → Option (List Int)
  | .add => some [x + y]
  | .sub => some [x - y]
  | .multiply => some [x * y]
  | .quotient => (exactQuotient .truncate x y).map (List.take 1)
  | .floor => exactQuotient .floor x y
  | .ceiling => exactQuotient .ceiling x y
  | .truncate => exactQuotient .truncate x y
  | .round => exactQuotient .nearest x y
  | .rationalQuotient => if y ≠ 0 ∧ y ∣ x then some [x / y] else none
  | .ash => some [⌊(x : ℚ) * 2 ^ y⌋]

/-- Fixnums with the results are in the stack from a place on, and nothing else changed. -/
structure Holds (s : Stack) (place sp : Int) (results : List Int) (s' : Stack) : Prop where
  sp : s'.sp = sp
  values : ∀ k (h : k < results.length),
    tagType (s'.words (place + k)).tag = typeFixnum ∧
      (s'.words (place + k)).data.toInt = results.get ⟨k, h⟩
  others : ∀ i, i < place ∨ place + results.length ≤ i → s'.words i = s.words i

/-- The exact results are left if there are any that fit, else there is an exception. -/
def Right (s : Stack) (place sp : Int) (exact : Option (List Int)) (out : Outcome Stack) : Prop :=
  match exact.filter (fun results => results.all (fun n => decide (Fits n))) with
  | some results => ∃ s', out = .next s' ∧ Holds s place sp results s'
  | none => out.IsException

/-! ### What is right -/

theorem fits_toInt (n : Integer) : Fits n.toInt := by
  have hle := BitVec.le_two_mul_toInt (x := n)
  have hlt := BitVec.two_mul_toInt_lt (x := n)
  unfold Fits
  omega

/-- A value that fits is not changed by wrapping. -/
theorem bmod_of_fits {n : Int} (h : Fits n) : n.bmod (2 ^ 32) = n := by
  unfold Fits at h
  exact Int.bmod_eq_of_le_mul_two (by omega) (by omega)

section Right

variable {s : Stack} {place sp : Int} {out : Outcome Stack}

theorem right_none : Right s place sp none out ↔ out.IsException := Iff.rfl

theorem right_of_not_fits {results : List Int} (h : ∃ n ∈ results, ¬ Fits n) :
    Right s place sp (some results) out ↔ out.IsException := by
  have hall : results.all (fun n => decide (Fits n)) = false := by
    obtain ⟨n, hn, hfit⟩ := h
    exact List.all_eq_false.2 ⟨n, hn, by simpa using hfit⟩
  simp [Right, Option.filter, hall]

theorem right_of_not_fits_one {r : Int} (h : ¬ Fits r) :
    Right s place sp (some [r]) out ↔ out.IsException :=
  right_of_not_fits ⟨r, List.mem_singleton_self r, h⟩

theorem right_of_fits {results : List Int} (h : ∀ n ∈ results, Fits n) :
    Right s place sp (some results) out ↔ ∃ s', out = .next s' ∧ Holds s place sp results s' := by
  have hall : results.all (fun n => decide (Fits n)) = true :=
    List.all_eq_true.2 (fun n hn => by simpa using h n hn)
  simp [Right, Option.filter, hall]

/-- Where the instruction leaves fixnums, it is right if they have the exact values: these
fit then. -/
theorem right_next_iff {s' : Stack} {results : List Int} (hsp : s'.sp = sp)
    (htag : ∀ k < results.length, tagType (s'.words (place + k)).tag = typeFixnum)
    (hothers : ∀ i, i < place ∨ place + results.length ≤ i → s'.words i = s.words i) :
    Right s place sp (some results) (.next s') ↔
      ∀ k (h : k < results.length),
        (s'.words (place + k)).data.toInt = results.get ⟨k, h⟩ := by
  constructor
  · intro h k hk
    by_cases hfit : ∀ n ∈ results, Fits n
    · obtain ⟨s'', heq, hholds⟩ := (right_of_fits hfit).1 h
      obtain rfl := Outcome.next.inj heq
      exact (hholds.values k hk).2
    · obtain ⟨n, hn⟩ := not_forall.1 hfit
      obtain ⟨hmem, hn⟩ := Classical.not_imp.1 hn
      exact absurd ((right_of_not_fits ⟨n, hmem, hn⟩).1 h) not_false
  · intro h
    have hfit : ∀ n ∈ results, Fits n := by
      intro n hn
      obtain ⟨k, hk, rfl⟩ := List.getElem_of_mem hn
      have hval := fits_toInt (s'.words (place + k)).data
      rw [h k hk] at hval
      exact hval
    exact (right_of_fits hfit).2 ⟨s', rfl, hsp, fun k hk => ⟨htag k hk, h k hk⟩, hothers⟩

/-- One result in a word of the stack. -/
theorem right_set_iff {tag : Tag} {v : Integer} {r : Int} (hsp : sp = s.sp)
    (htag : tagType tag = typeFixnum) :
    Right s place sp (some [r]) (.next (s.set place ⟨tag, v⟩)) ↔ v.toInt = r := by
  rw [right_next_iff (by simp [hsp])]
  · simp
  · intro k hk
    obtain rfl : k = 0 := by simpa using hk
    simpa using htag
  · intro i hi
    simp only [List.length_singleton] at hi
    exact s.set_words_of_ne _ (by omega)

theorem right_pushFixnum_iff {v : Integer} {r : Int} :
    Right s (s.sp + 1) (s.sp + 1) (some [r]) (.next (s.pushFixnum v)) ↔ v.toInt = r := by
  rw [right_next_iff (by simp [Stack.pushFixnum])]
  · simp [Stack.pushFixnum]
  · intro k hk
    obtain rfl : k = 0 := by simpa using hk
    simp [Stack.pushFixnum, tagType, typeFixnum]
  · intro i hi
    simp only [List.length_singleton] at hi
    exact s.push_words_of_ne _ (by omega)

/-- A quotient and a remainder on top of it. -/
theorem right_leaveQuotient_iff {vq vr : Integer} {q r : Int} :
    Right s s.sp (s.sp + 1) (some [q, r]) (leaveQuotient s vq vr) ↔
      vq.toInt = q ∧ vr.toInt = r := by
  have hquotient : ((s.setFixnum vq).pushFixnum vr).words s.sp = ⟨typeFixnum, vq⟩ := by
    rw [Stack.pushFixnum, Stack.push_words_of_ne _ _ (by simp [Stack.setFixnum])]
    simp [Stack.setFixnum]
  have hremainder : ((s.setFixnum vq).pushFixnum vr).words (s.sp + 1) = ⟨typeFixnum, vr⟩ :=
    Stack.push_words_top (s.setFixnum vq) _
  rw [leaveQuotient, right_next_iff (by simp [Stack.pushFixnum, Stack.setFixnum])]
  · constructor
    · intro h
      have hq := h 0 (by simp)
      have hr := h 1 (by simp)
      simp only [Nat.cast_zero, add_zero, hquotient, Nat.cast_one, hremainder] at hq hr
      exact ⟨hq, hr⟩
    · rintro ⟨hq, hr⟩ k hk
      match k, hk with
      | 0, _ => simpa [hquotient] using hq
      | 1, _ => simpa [hremainder] using hr
  · intro k hk
    match k, hk with
    | 0, _ => simp [hquotient, tagType, typeFixnum]
    | 1, _ => simp [hremainder, tagType, typeFixnum]
  · intro i hi
    simp only [List.length_cons, List.length_nil] at hi
    rw [Stack.pushFixnum, Stack.push_words_of_ne _ _ (by simp [Stack.setFixnum]; omega),
      Stack.setFixnum, Stack.set_words_of_ne _ _ (by omega)]

end Right

/-! ### The instructions that detect overflow -/

section Fixnums

variable {s : Stack} {op2 : Operand}

theorem binaryTypeFixnumExceptions_isException (h : binaryTypeFixnumP (s.operand op2).tag s.top.tag) :
    binaryTypeFixnumExceptions s op2 = .instructionException s := by
  obtain ⟨hy, hx⟩ := (binaryTypeFixnumP_iff _ _).1 h
  rw [binaryTypeFixnumExceptions, binaryTypeNumericP, typeNumericP_of_fixnum hx,
    typeNumericP_of_fixnum hy]
  rfl

/-- A sum or a difference wraps at most once. -/
theorem bmod_cases {r : Int} (hlow : -2 ^ 32 ≤ r) (hhigh : r < 2 ^ 32) :
    r.bmod (2 ^ 32) = r ∧ Fits r ∨ r.bmod (2 ^ 32) = r - 2 ^ 32 ∧ 2 ^ 31 ≤ r ∨
      r.bmod (2 ^ 32) = r + 2 ^ 32 ∧ r < -2 ^ 31 := by
  rw [Int.bmod_def]
  unfold Fits
  omega

theorem add_right (h : binaryTypeFixnumP (s.operand op2).tag s.top.tag) :
    Right s s.sp s.sp (some [s.top.data.toInt + (s.operand op2).data.toInt]) (add s op2) := by
  obtain ⟨hx0, hx1⟩ := fits_toInt s.top.data
  obtain ⟨hy0, hy1⟩ := fits_toInt (s.operand op2).data
  have hsum := BitVec.toInt_add s.top.data (s.operand op2).data
  rw [add, binaryTypeFixnumExceptions_isException h]
  simp only [h, true_and]
  obtain ⟨hwrap, hfit⟩ | ⟨hwrap, hbig⟩ | ⟨hwrap, hsmall⟩ :=
    bmod_cases (r := s.top.data.toInt + (s.operand op2).data.toInt) (by omega) (by omega)
  · rw [if_pos (by omega), Stack.setData, right_set_iff rfl ((binaryTypeFixnumP_iff _ _).1 h).2]
    omega
  · rw [if_neg (by omega), right_of_not_fits_one (by unfold Fits; omega)]
    trivial
  · rw [if_neg (by omega), right_of_not_fits_one (by unfold Fits; omega)]
    trivial

theorem sub_right (h : binaryTypeFixnumP (s.operand op2).tag s.top.tag) :
    Right s s.sp s.sp (some [s.top.data.toInt - (s.operand op2).data.toInt]) (sub s op2) := by
  obtain ⟨hx0, hx1⟩ := fits_toInt s.top.data
  obtain ⟨hy0, hy1⟩ := fits_toInt (s.operand op2).data
  have hdiff := BitVec.toInt_sub (x := s.top.data) (y := (s.operand op2).data)
  rw [sub, binaryTypeFixnumExceptions_isException h]
  simp only [h, true_and]
  obtain ⟨hwrap, hfit⟩ | ⟨hwrap, hbig⟩ | ⟨hwrap, hsmall⟩ :=
    bmod_cases (r := s.top.data.toInt - (s.operand op2).data.toInt) (by omega) (by omega)
  · rw [if_pos (by omega), Stack.setData, right_set_iff rfl ((binaryTypeFixnumP_iff _ _).1 h).2]
    omega
  · rw [if_neg (by omega), right_of_not_fits_one (by unfold Fits; omega)]
    trivial
  · rw [if_neg (by omega), right_of_not_fits_one (by unfold Fits; omega)]
    trivial

/-- The product of two fixnums fits in the long it is computed in. -/
theorem toInt_product (x y : Integer) :
    (x.signExtend 64 * y.signExtend 64).toInt = x.toInt * y.toInt := by
  have hx := fits_toInt x
  have hy := fits_toInt y
  have hbound : |x.toInt * y.toInt| ≤ 2 ^ 31 * 2 ^ 31 := by
    rw [abs_mul]
    exact mul_le_mul (abs_le.2 ⟨hx.1, hx.2.le⟩) (abs_le.2 ⟨hy.1, hy.2.le⟩) (abs_nonneg _)
      (by norm_num)
  obtain ⟨hlow, hhigh⟩ := abs_le.1 hbound
  rw [BitVec.toInt_mul, BitVec.toInt_signExtend_of_le (by decide),
    BitVec.toInt_signExtend_of_le (by decide)]
  exact Int.bmod_eq_of_le_mul_two (by omega) (by omega)

theorem multiply_right (h : binaryTypeFixnumP (s.operand op2).tag s.top.tag) :
    Right s s.sp s.sp (some [s.top.data.toInt * (s.operand op2).data.toInt]) (multiply s op2) := by
  have hprod := toInt_product s.top.data (s.operand op2).data
  rw [multiply, binaryTypeFixnumExceptions_isException h]
  simp only [h, true_and, hprod]
  by_cases hfit : Fits (s.top.data.toInt * (s.operand op2).data.toInt)
  · rw [if_pos ⟨hfit.1, by have := hfit.2; omega⟩, Stack.setData,
      right_set_iff rfl ((binaryTypeFixnumP_iff _ _).1 h).2,
      ← BitVec.signExtend_eq_setWidth_of_le _ (by decide),
      BitVec.toInt_signExtend_eq_toInt_bmod_of_le _ (by decide), hprod, bmod_of_fits hfit]
  · rw [if_neg (fun hc => hfit ⟨hc.1, by omega⟩), right_of_not_fits_one hfit]
    trivial

theorem toInt_eq_iff (n : Integer) (m : Integer) : n = m ↔ n.toInt = m.toInt :=
  BitVec.toInt_inj.symm

theorem op2FixnumExceptions_isException (h : tagType (s.operand op2).tag = typeFixnum) :
    (op2FixnumExceptions s op2).IsException := by
  rw [op2FixnumExceptions, typeNumericP_of_fixnum h]
  trivial

theorem unaryMinus_right (h : tagType (s.operand op2).tag = typeFixnum) :
    Right s (s.sp + 1) (s.sp + 1) (some [-(s.operand op2).data.toInt]) (unaryMinus s op2) := by
  obtain ⟨hy0, hy1⟩ := fits_toInt (s.operand op2).data
  have hmin : fixnumMin.toInt = -2 ^ 31 := by decide
  have hneg := BitVec.toInt_neg (x := (s.operand op2).data)
  simp only [unaryMinus, typeFixnumP, h, decide_true, true_and, ne_eq, toInt_eq_iff _ fixnumMin]
  by_cases hy : (s.operand op2).data.toInt = fixnumMin.toInt
  · rw [if_neg (not_not.2 hy), right_of_not_fits_one (by unfold Fits; omega)]
    exact op2FixnumExceptions_isException h
  · rw [if_pos hy, right_pushFixnum_iff, hneg]
    exact bmod_of_fits ⟨by omega, by omega⟩

theorem unaryMinusImmediate_right (operand : BitVec 8) :
    Right s (s.sp + 1) (s.sp + 1) (some [-(operand.toNat : Int)])
      (unaryMinusImmediate s operand) := by
  have hlt := operand.isLt
  have hval : (operand.setWidth 32).toInt = operand.toNat := by
    rw [BitVec.toInt_setWidth, Int.bmod_eq_of_le_mul_two] <;> omega
  rw [unaryMinusImmediate, right_pushFixnum_iff, BitVec.toInt_neg, hval]
  exact bmod_of_fits ⟨by omega, by omega⟩

section Step

variable {place : Int}

theorem increment_right (h : tagType (s.words place).tag = typeFixnum) :
    Right s place s.sp (some [(s.words place).data.toInt + 1]) (increment s place) := by
  obtain ⟨hx0, hx1⟩ := fits_toInt (s.words place).data
  have hmax : fixnumMax.toInt = 2 ^ 31 - 1 := by decide
  have hsum := BitVec.toInt_add (s.words place).data 1
  have hone : (1 : Integer).toInt = 1 := by decide
  simp only [increment, typeFixnumP, h, decide_true, true_and, ne_eq, toInt_eq_iff _ fixnumMax]
  by_cases hx : (s.words place).data.toInt = fixnumMax.toInt
  · rw [if_neg (not_not.2 hx), right_of_not_fits_one (by unfold Fits; omega)]
    exact @op2FixnumExceptions_isException s (.word place) h
  · rw [if_pos hx, right_set_iff rfl h, hsum, hone]
    exact bmod_of_fits ⟨by omega, by omega⟩

theorem decrement_right (h : tagType (s.words place).tag = typeFixnum) :
    Right s place s.sp (some [(s.words place).data.toInt - 1]) (decrement s place) := by
  obtain ⟨hx0, hx1⟩ := fits_toInt (s.words place).data
  have hmin : fixnumMin.toInt = -2 ^ 31 := by decide
  have hdiff := BitVec.toInt_sub (x := (s.words place).data) (y := 1)
  have hone : (1 : Integer).toInt = 1 := by decide
  simp only [decrement, typeFixnumP, h, decide_true, true_and, ne_eq, toInt_eq_iff _ fixnumMin]
  by_cases hx : (s.words place).data.toInt = fixnumMin.toInt
  · rw [if_neg (not_not.2 hx), right_of_not_fits_one (by unfold Fits; omega)]
    exact @op2FixnumExceptions_isException s (.word place) h
  · rw [if_pos hx, right_set_iff rfl h, hdiff, hone]
    exact bmod_of_fits ⟨by omega, by omega⟩

end Step

/-! ### Division -/

theorem abs_toInt_le (x : Integer) : |x.toInt| ≤ 2 ^ 31 :=
  abs_le.2 ⟨(fits_toInt x).1, (fits_toInt x).2.le⟩

theorem fits_tmod (x y : Integer) : Fits (x.toInt.tmod y.toInt) := by
  by_cases hy : y.toInt = 0
  · rw [hy, Int.tmod_zero]
    exact fits_toInt x
  · obtain ⟨-, -, -, habs⟩ := Rounding.tmod_bounds (x := x.toInt) hy
    have hbound := abs_lt.1 (habs.trans_le (abs_toInt_le y))
    exact ⟨by omega, hbound.2⟩

/-- A division with a remainder has a divisor of at least two. -/
theorem tdiv_bound (x y : Integer) (h : x.toInt.tmod y.toInt ≠ 0) (hy : y.toInt ≠ 0) :
    -2 ^ 30 ≤ x.toInt.tdiv y.toInt ∧ x.toInt.tdiv y.toInt ≤ 2 ^ 30 := by
  obtain ⟨-, -, -, habs⟩ := Rounding.tmod_bounds (x := x.toInt) hy
  have hx := abs_toInt_le x
  have hy2 : 2 ≤ y.toInt.natAbs := by
    have hpos := abs_pos.2 h
    rw [Int.abs_eq_natAbs] at hpos habs
    rw [Int.abs_eq_natAbs] at habs
    omega
  have hq : (x.toInt.tdiv y.toInt).natAbs ≤ x.toInt.natAbs / 2 := by
    rw [Int.natAbs_tdiv]
    exact Nat.div_le_div_left hy2 (by decide)
  rw [Int.abs_eq_natAbs] at hx
  omega

/-- The quotient and the remainder of the host, where it has them. -/
theorem toInt_division {x y : Integer} (hmin : ¬(x = fixnumMin ∧ y = -1)) :
    (x.sdiv y).toInt = x.toInt.tdiv y.toInt ∧
      (x - y * x.sdiv y).toInt = x.toInt.tmod y.toInt := by
  have hq : (x.sdiv y).toInt = x.toInt.tdiv y.toInt := by
    apply BitVec.toInt_sdiv_of_ne_or_ne
    exact not_and_or.1 hmin
  refine ⟨hq, ?_⟩
  have hdiv := Int.mul_tdiv_add_tmod x.toInt y.toInt
  have hfit : Fits (x.toInt.tmod y.toInt) := fits_tmod x y
  rw [BitVec.toInt_sub, BitVec.toInt_mul, hq, Int.sub_bmod_bmod]
  rw [show x.toInt - y.toInt * x.toInt.tdiv y.toInt = x.toInt.tmod y.toInt by omega]
  exact bmod_of_fits hfit

section Neighbours

variable {x y q r : Integer} (hq : q.toInt = x.toInt.tdiv y.toInt)
  (hr : r.toInt = x.toInt.tmod y.toInt) (h0 : y.toInt ≠ 0) (hne : x.toInt.tmod y.toInt ≠ 0)

include hq hr h0 hne

theorem quotient_down (hsign : ¬(0 ≤ x.toInt.tmod y.toInt ↔ 0 ≤ y.toInt)) :
    (q - 1).toInt = x.toInt.tdiv y.toInt - 1 ∧ (r + y).toInt = x.toInt.tmod y.toInt + y.toInt := by
  have hbound := tdiv_bound x y hne h0
  obtain ⟨hr0, hr1⟩ := fits_tmod x y
  obtain ⟨hy0, hy1⟩ := fits_toInt y
  have hone : (1 : Integer).toInt = 1 := by decide
  constructor
  · rw [BitVec.toInt_sub, hq, hone]
    exact bmod_of_fits ⟨by omega, by omega⟩
  · rw [BitVec.toInt_add, hr]
    exact bmod_of_fits ⟨by omega, by omega⟩

theorem quotient_up (hsign : 0 ≤ x.toInt.tmod y.toInt ↔ 0 ≤ y.toInt) :
    (q + 1).toInt = x.toInt.tdiv y.toInt + 1 ∧ (r - y).toInt = x.toInt.tmod y.toInt - y.toInt := by
  have hbound := tdiv_bound x y hne h0
  obtain ⟨hr0, hr1⟩ := fits_tmod x y
  obtain ⟨hy0, hy1⟩ := fits_toInt y
  have hone : (1 : Integer).toInt = 1 := by decide
  constructor
  · rw [BitVec.toInt_add, hq, hone]
    exact bmod_of_fits ⟨by omega, by omega⟩
  · rw [BitVec.toInt_sub, hr]
    exact bmod_of_fits ⟨by omega, by omega⟩

end Neighbours

/-- What is right for a division, from what is right where the host divides. -/
theorem divide_right_iff {deliver : Integer → Integer → Outcome Stack}
    {exact : Option (List Int)} {place sp : Int} {P : Prop}
    (h : binaryTypeFixnumP (s.operand op2).tag s.top.tag)
    (hzero : (s.operand op2).data.toInt = 0 → exact = none)
    (hmin : s.top.data.toInt = -2 ^ 31 → (s.operand op2).data.toInt = -1 →
      ∃ results, exact = some results ∧ ∃ n ∈ results, ¬ Fits n)
    (hrest : (s.operand op2).data.toInt ≠ 0 → ∀ q r : Integer,
      q.toInt = s.top.data.toInt.tdiv (s.operand op2).data.toInt →
      r.toInt = s.top.data.toInt.tmod (s.operand op2).data.toInt →
      (Right s place sp exact (deliver q r) ↔ P)) :
    Right s place sp exact (divide s op2 deliver) ↔
      (s.operand op2).data.toInt = 0 ∨
        s.top.data.toInt = -2 ^ 31 ∧ (s.operand op2).data.toInt = -1 ∨ P := by
  have hx : s.top.data = fixnumMin ↔ s.top.data.toInt = -2 ^ 31 := toInt_eq_iff _ _
  have hy : (s.operand op2).data = -1 ↔ (s.operand op2).data.toInt = -1 := toInt_eq_iff _ _
  have hy0 : (s.operand op2).data = 0 ↔ (s.operand op2).data.toInt = 0 := toInt_eq_iff _ _
  simp only [divide, h, if_true]
  by_cases h0 : (s.operand op2).data = 0
  · rw [if_pos h0, hzero (hy0.1 h0), right_none]
    simp [hy0.1 h0, Outcome.IsException]
  · rw [if_neg h0]
    by_cases hm : s.top.data = fixnumMin ∧ (s.operand op2).data = -1
    · obtain ⟨results, hexact, hnot⟩ := hmin (hx.1 hm.1) (hy.1 hm.2)
      rw [if_pos hm, hexact, right_of_not_fits hnot]
      simp [hx.1 hm.1, hy.1 hm.2, Outcome.IsException]
    · obtain ⟨hq, hr⟩ := toInt_division hm
      rw [if_neg hm, hrest (fun hc => h0 (hy0.2 hc)) _ _ hq hr]
      rw [hy0] at h0
      rw [hx, hy] at hm
      simp only [h0, hm, false_or]

/-- The quotient that is too large by one is exact, so every rounding gives it. -/
theorem exactQuotient_min (m : Rounding.Mode) : exactQuotient m (-2 ^ 31) (-1) = some [2 ^ 31, 0] := by
  have hval : (((-2 ^ 31 : Int) : ℚ)) / ((-1 : Int) : ℚ) = ((2 ^ 31 : Int) : ℚ) := by norm_num
  simp only [exactQuotient, hval, Rounding.round_intCast]
  rfl

theorem rounded_right_iff {m : Rounding.Mode} {deliver : Integer → Integer → Outcome Stack} {P : Prop}
    (h : binaryTypeFixnumP (s.operand op2).tag s.top.tag)
    (hrest : (s.operand op2).data.toInt ≠ 0 → ∀ q r : Integer,
      q.toInt = s.top.data.toInt.tdiv (s.operand op2).data.toInt →
      r.toInt = s.top.data.toInt.tmod (s.operand op2).data.toInt →
      (Right s s.sp (s.sp + 1)
        (exactQuotient m s.top.data.toInt (s.operand op2).data.toInt) (deliver q r) ↔ P)) :
    Right s s.sp (s.sp + 1)
        (exactQuotient m s.top.data.toInt (s.operand op2).data.toInt) (divide s op2 deliver) ↔
      (s.operand op2).data.toInt = 0 ∨
        s.top.data.toInt = -2 ^ 31 ∧ (s.operand op2).data.toInt = -1 ∨ P := by
  refine divide_right_iff h (fun h0 => by simp [exactQuotient, h0]) (fun hx hy => ?_) hrest
  rw [hx, hy, exactQuotient_min]
  exact ⟨_, rfl, 2 ^ 31, by simp, by unfold Fits; omega⟩

theorem truncate_right (h : binaryTypeFixnumP (s.operand op2).tag s.top.tag) :
    Right s s.sp (s.sp + 1)
      (exactQuotient .truncate s.top.data.toInt (s.operand op2).data.toInt) (truncate s op2) := by
  refine (rounded_right_iff (P := True) h (fun h0 q r hq hr => ?_)).2 (by simp)
  obtain ⟨hmod, -⟩ := Rounding.tmod_bounds (x := s.top.data.toInt) h0
  simp only [exactQuotient, if_neg h0, Rounding.round, Rounding.truncate_div h0, hmod,
    right_leaveQuotient_iff, hq, hr, and_self]

theorem floor_right (h : binaryTypeFixnumP (s.operand op2).tag s.top.tag) :
    Right s s.sp (s.sp + 1)
      (exactQuotient .floor s.top.data.toInt (s.operand op2).data.toInt) (floor s op2) := by
  refine (rounded_right_iff (P := True) h (fun h0 q r hq hr => ?_)).2 (by simp)
  obtain ⟨hmod, -, -, habs⟩ := Rounding.tmod_bounds (x := s.top.data.toInt) h0
  have hdown := (Rounding.sub_succ_mul hmod).2
  have hr0 : r = 0 ↔ s.top.data.toInt.tmod (s.operand op2).data.toInt = 0 := by
    rw [toInt_eq_iff, hr]
    rfl
  simp only [exactQuotient, if_neg h0, Rounding.round, Rounding.floor_div h0, hr0, hr]
  by_cases hzero : s.top.data.toInt.tmod (s.operand op2).data.toInt = 0
  · simp only [hzero, true_or, if_true, right_leaveQuotient_iff, hq, hr, hmod, true_and]
  · by_cases hsign : 0 ≤ s.top.data.toInt.tmod (s.operand op2).data.toInt ↔
        0 ≤ (s.operand op2).data.toInt
    · simp only [hzero, hsign, or_true, not_true, if_true, if_false, right_leaveQuotient_iff, hq,
        hr, hmod, and_self]
    · obtain ⟨hq', hr'⟩ := quotient_down hq hr h0 hzero hsign
      simp only [hzero, hsign, or_self, not_false_eq_true, if_true, if_false,
        right_leaveQuotient_iff, hq', hr', hdown, and_self]

theorem ceiling_right (h : binaryTypeFixnumP (s.operand op2).tag s.top.tag) :
    Right s s.sp (s.sp + 1)
      (exactQuotient .ceiling s.top.data.toInt (s.operand op2).data.toInt) (ceiling s op2) := by
  refine (rounded_right_iff (P := True) h (fun h0 q r hq hr => ?_)).2 (by simp)
  obtain ⟨hmod, -⟩ := Rounding.tmod_bounds (x := s.top.data.toInt) h0
  have hup := (Rounding.sub_succ_mul hmod).1
  have hr0 : r = 0 ↔ s.top.data.toInt.tmod (s.operand op2).data.toInt = 0 := by
    rw [toInt_eq_iff, hr]
    rfl
  simp only [exactQuotient, if_neg h0, Rounding.round, Rounding.ceil_div h0, hr0, hr]
  by_cases hzero : s.top.data.toInt.tmod (s.operand op2).data.toInt = 0
  · simp only [hzero, ne_eq, not_true, false_and, if_true, if_false, right_leaveQuotient_iff, hq,
      hr, hmod, true_and]
  · by_cases hsign : 0 ≤ s.top.data.toInt.tmod (s.operand op2).data.toInt ↔
        0 ≤ (s.operand op2).data.toInt
    · obtain ⟨hq', hr'⟩ := quotient_up hq hr h0 hzero hsign
      simp only [hzero, hsign, ne_eq, not_false_eq_true, and_self, if_true, if_false,
        right_leaveQuotient_iff, hq', hr', hup]
    · simp only [hzero, hsign, and_false, if_false, right_leaveQuotient_iff, hq, hr, hmod,
        and_self]

/-- Only the quotient is left. -/
theorem quotient_right (h : binaryTypeFixnumP (s.operand op2).tag s.top.tag) :
    Right s s.sp s.sp
      ((exactQuotient .truncate s.top.data.toInt (s.operand op2).data.toInt).map (List.take 1))
      (quotient s op2) := by
  refine (divide_right_iff (P := True) h (fun h0 => by simp [exactQuotient, h0])
    (fun hx hy => ?_) (fun h0 q r hq hr => ?_)).2 (by simp)
  · rw [hx, hy, exactQuotient_min]
    exact ⟨_, rfl, 2 ^ 31, by simp, by unfold Fits; omega⟩
  · simp only [exactQuotient, if_neg h0, Rounding.round, Rounding.truncate_div h0, Option.map_some,
      List.take_succ_cons, List.take_zero]
    rw [Stack.setData, right_set_iff rfl ((binaryTypeFixnumP_iff _ _).1 h).2, hq]
    simp

theorem rationalQuotient_right (h : binaryTypeFixnumP (s.operand op2).tag s.top.tag) :
    Right s s.sp s.sp
      (Binary.exact s.top.data.toInt (s.operand op2).data.toInt .rationalQuotient)
      (rationalQuotient s op2) := by
  refine (divide_right_iff (P := True) h (fun h0 => by simp [Binary.exact, h0])
    (fun hx hy => ?_) (fun h0 q r hq hr => ?_)).2 (by simp)
  · rw [hx, hy]
    exact ⟨_, rfl, 2 ^ 31, by simp, by unfold Fits; omega⟩
  · have hr0 : r = 0 ↔ (s.operand op2).data.toInt ∣ s.top.data.toInt := by
      rw [toInt_eq_iff, hr]
      exact (Int.dvd_iff_tmod_eq_zero).symm
    simp only [Binary.exact, h0, ne_eq, not_false_eq_true, true_and, hr0]
    by_cases hdvd : (s.operand op2).data.toInt ∣ s.top.data.toInt
    · rw [if_pos hdvd, if_pos hdvd, Stack.setData,
        right_set_iff rfl ((binaryTypeFixnumP_iff _ _).1 h).2, hq, Int.tdiv_eq_ediv_of_dvd hdvd]
      simp
    · rw [if_neg hdvd, if_neg hdvd, right_none, binaryTypeFixnumExceptions_isException h]
      simp [Outcome.IsException]

/-! ### Rounding to the nearest -/

theorem odd_iff (q : Integer) : q &&& 1 ≠ 0 ↔ ¬ Even q.toInt := by
  have hmask : (q &&& 1).toNat = q.toNat % 2 := BitFields.toNat_and_mask (k := 1) q (by decide)
  have hmod : q.toInt % 2 = q.toNat % 2 := by
    rw [BitVec.toInt_eq_toNat_cond]
    split <;> omega
  have hzero : q &&& 1 = 0 ↔ (q &&& 1).toNat = 0 := by
    rw [← BitVec.toNat_inj]
    rfl
  rw [Int.even_iff, ne_eq, hzero, hmask]
  omega

theorem roundsUp_iff (y q r : Integer) :
    RoundsUp y q r ↔
      if (y.toInt - 2 * r.toInt).bmod (2 ^ 32) = 0 then ¬ Even q.toInt
      else if 0 < y.toInt then (y.toInt - 2 * r.toInt).bmod (2 ^ 32) < 0
      else 0 < (y.toInt - 2 * r.toInt).bmod (2 ^ 32) := by
  have htemp : (y - r - r).toInt = (y.toInt - 2 * r.toInt).bmod (2 ^ 32) := by
    rw [BitVec.toInt_sub, BitVec.toInt_sub, Int.bmod_sub_bmod]
    congr 1
    ring
  have hzero : y - r - r = 0 ↔ (y.toInt - 2 * r.toInt).bmod (2 ^ 32) = 0 := by
    rw [toInt_eq_iff, htemp]
    rfl
  simp only [RoundsUp, hzero, htemp, odd_iff]

/-- The quotient `q` of a division with the remainder `r` is the nearest. -/
def Near (y q r : Int) : Prop := 2 * |r| < |y| ∨ 2 * |r| = |y| ∧ Even q

instance (y q r : Int) : Decidable (Near y q r) := inferInstanceAs (Decidable (_ ∨ _))

/-- When `round` is right. -/
def RoundMeets (x y : Int) : Prop :=
  y = 0 ∨ x.tmod y = 0 ∨ (0 < x.tmod y ↔ 0 < y) ∨
    Near y (x.tdiv y) (x.tmod y) ∧ (Fits (y - 2 * x.tmod y) ∨ y - 2 * x.tmod y = -2 ^ 32)

/-- Where the signs agree, the test for rounding upwards is the right one. -/
theorem roundsUp_of_sign {y q r : Integer} (hy : |r.toInt| < |y.toInt|)
    (hsign : 0 < r.toInt ↔ 0 < y.toInt) :
    RoundsUp y q r ↔ ¬ Near y.toInt q.toInt r.toInt := by
  obtain ⟨hy0, hy1⟩ := fits_toInt y
  have habs : 0 < y.toInt ∧ |y.toInt| = y.toInt ∧ |r.toInt| = r.toInt ∨
      y.toInt < 0 ∧ |y.toInt| = -y.toInt ∧ |r.toInt| = -r.toInt := by
    rcases abs_cases y.toInt with ⟨h, _⟩ | ⟨h, _⟩ <;>
      rcases abs_cases r.toInt with ⟨h', _⟩ | ⟨h', _⟩ <;> omega
  have hwrap : (y.toInt - 2 * r.toInt).bmod (2 ^ 32) = y.toInt - 2 * r.toInt := by
    apply bmod_of_fits
    unfold Fits
    omega
  rw [roundsUp_iff, hwrap, Near]
  by_cases htie : y.toInt - 2 * r.toInt = 0
  · have hhalf : 2 * |r.toInt| = |y.toInt| := by omega
    simp only [htie, if_true, hhalf, lt_irrefl, true_and, false_or]
  · have hhalf : 2 * |r.toInt| ≠ |y.toInt| := by omega
    simp only [htie, if_false, hhalf, false_and, or_false]
    split_ifs <;> omega

/-- Where they differ, it is right not to round upwards if the test does not wrap. -/
theorem not_roundsUp_iff {y q r : Integer}
    (hsign : ¬(0 < r.toInt ↔ 0 < y.toInt)) (hy : y.toInt ≠ 0)
    (hnear : Near y.toInt q.toInt r.toInt) :
    ¬ RoundsUp y q r ↔ Fits (y.toInt - 2 * r.toInt) ∨ y.toInt - 2 * r.toInt = -2 ^ 32 := by
  obtain ⟨hy0, hy1⟩ := fits_toInt y
  have habs : 0 < y.toInt ∧ |y.toInt| = y.toInt ∧ |r.toInt| = -r.toInt ∨
      y.toInt < 0 ∧ |y.toInt| = -y.toInt ∧ |r.toInt| = r.toInt := by
    rcases abs_cases y.toInt with ⟨h, _⟩ | ⟨h, _⟩ <;>
      rcases abs_cases r.toInt with ⟨h', _⟩ | ⟨h', _⟩ <;> omega
  have hle : 2 * |r.toInt| ≤ |y.toInt| := by
    rcases hnear with h | h
    · exact h.le
    · exact h.1.le
  rw [roundsUp_iff]
  obtain ⟨hwrap, hfit⟩ | ⟨hwrap, hbig⟩ | ⟨hwrap, hsmall⟩ :=
    bmod_cases (r := y.toInt - 2 * r.toInt) (by omega) (by omega)
  · simp only [hwrap, hfit, true_or, iff_true]
    split_ifs <;> omega
  · rw [hwrap]
    unfold Fits
    split_ifs <;> omega
  · -- the test wraps to zero on a tie, where the quotient is even
    have heven : y.toInt - 2 * r.toInt = -2 ^ 32 → Even q.toInt := by
      intro h
      exact (hnear.resolve_left (by omega)).2
    rw [hwrap]
    unfold Fits
    split_ifs with h0 hpos
    · have := heven (by omega)
      simp only [this, not_true, not_false_eq_true, true_iff]
      omega
    · omega
    · omega

/-- The divisor is not the dividend's own word where it leaves a remainder. -/
theorem operand_setFixnum {n : Integer}
    (h : s.top.data.toInt.tmod (s.operand op2).data.toInt ≠ 0) :
    (s.setFixnum n).operand op2 = s.operand op2 := by
  cases op2 with
  | immediate m => rfl
  | word place =>
    by_cases hplace : place = s.sp
    · refine absurd ?_ h
      rw [Stack.operand, hplace]
      exact Int.tmod_self
    · exact s.set_words_of_ne _ hplace

theorem round_right_iff (h : binaryTypeFixnumP (s.operand op2).tag s.top.tag) :
    Right s s.sp (s.sp + 1)
        (exactQuotient .nearest s.top.data.toInt (s.operand op2).data.toInt) (round s op2) ↔
      RoundMeets s.top.data.toInt (s.operand op2).data.toInt := by
  have hmin : s.top.data.toInt = -2 ^ 31 ∧ (s.operand op2).data.toInt = -1 →
      s.top.data.toInt.tmod (s.operand op2).data.toInt = 0 := by
    rintro ⟨hx, hy⟩
    rw [hx, hy]
    decide
  rw [RoundMeets]
  refine (rounded_right_iff h ?_).trans (or_congr_right (or_iff_right_of_imp (Or.inl ∘ hmin)))
  intro h0 q r hq hr
  obtain ⟨hmod, -, -, habs⟩ := Rounding.tmod_bounds (x := s.top.data.toInt) h0
  obtain ⟨hup, hdown⟩ := Rounding.sub_succ_mul hmod
  have hnear : Near (s.operand op2).data.toInt q.toInt r.toInt ↔
      2 * |s.top.data.toInt.tmod (s.operand op2).data.toInt| < |(s.operand op2).data.toInt| ∨
        2 * |s.top.data.toInt.tmod (s.operand op2).data.toInt| = |(s.operand op2).data.toInt| ∧
          Even (s.top.data.toInt.tdiv (s.operand op2).data.toInt) := by
    rw [Near, hq, hr]
  have hzero : s.top.data.toInt.tmod (s.operand op2).data.toInt = 0 →
      Near (s.operand op2).data.toInt q.toInt r.toInt := by
    intro hz
    rw [hnear, hz]
    exact Or.inl (by simpa using h0)
  have hsucc : s.top.data.toInt.tmod (s.operand op2).data.toInt ≠ 0 →
      (q + 1).toInt = s.top.data.toInt.tdiv (s.operand op2).data.toInt + 1 := by
    intro hne
    have hbound := tdiv_bound s.top.data (s.operand op2).data hne h0
    rw [BitVec.toInt_add, hq]
    exact bmod_of_fits ⟨by simp; omega, by simp; omega⟩
  have hround : Rounding.nearest
        ((s.top.data.toInt : ℚ) / (s.operand op2).data.toInt) =
      if Near (s.operand op2).data.toInt q.toInt r.toInt then
        s.top.data.toInt.tdiv (s.operand op2).data.toInt
      else if 0 < s.top.data.toInt.tmod (s.operand op2).data.toInt ↔
          0 < (s.operand op2).data.toInt then
        s.top.data.toInt.tdiv (s.operand op2).data.toInt + 1
      else s.top.data.toInt.tdiv (s.operand op2).data.toInt - 1 := by
    rw [Rounding.nearest_div h0]
    simp only [hnear]
  simp only [exactQuotient, if_neg h0, Rounding.round, hround]
  rw [← hq, ← hr]
  by_cases hsign : 0 < r.toInt ↔ 0 < (s.operand op2).data.toInt
  · have hiff := roundsUp_of_sign (q := q) (by rw [hr]; exact habs) hsign
    simp only [hsign, true_or, or_true, iff_true, if_true]
    by_cases hn : Near (s.operand op2).data.toInt q.toInt r.toInt
    · rw [if_neg (fun hc => hiff.1 hc hn), if_pos hn, right_leaveQuotient_iff]
      exact ⟨rfl, by rw [hq, hr, hmod]⟩
    · have hne : s.top.data.toInt.tmod (s.operand op2).data.toInt ≠ 0 := fun hc => hn (hzero hc)
      obtain ⟨hq', hr'⟩ := quotient_up hq hr h0 hne (by rw [hr] at hsign; omega)
      rw [if_pos (hiff.2 hn), if_neg hn, operand_setFixnum hne]
      exact right_leaveQuotient_iff.2 ⟨by rw [hq', hq], by rw [hr', hq, hup]⟩
  · simp only [hsign, false_or, if_false]
    by_cases hn : Near (s.operand op2).data.toInt q.toInt r.toInt
    · have hiff := not_roundsUp_iff hsign h0 hn
      simp only [hn, if_true, true_and, ← hiff]
      by_cases hup' : RoundsUp (s.operand op2).data q r
      · have hne : r.toInt ≠ 0 := by
          intro hz
          have hfit := fits_toInt (s.operand op2).data
          refine hiff.2 (Or.inl ?_) hup'
          rw [hz, mul_zero, sub_zero]
          exact hfit
        rw [if_pos hup', operand_setFixnum (hr ▸ hne)]
        refine iff_of_false (fun hc => ?_) (by simp [hne, hup'])
        have hval := (right_leaveQuotient_iff.1 hc).1
        have := hsucc (hr ▸ hne)
        omega
      · rw [if_neg hup', right_leaveQuotient_iff, hq, hmod]
        simp [hr, hup']
    · have hne : s.top.data.toInt.tmod (s.operand op2).data.toInt ≠ 0 := fun hc => hn (hzero hc)
      have hsucc' := hsucc hne
      refine iff_of_false (fun hc => ?_) (by simp only [hn, false_and, or_false]; rwa [hr])
      rw [if_neg hn] at hc
      split_ifs at hc with hup'
      · rw [operand_setFixnum hne] at hc
        have hval := (right_leaveQuotient_iff.1 hc).1
        omega
      · have hval := (right_leaveQuotient_iff.1 hc).1
        omega

/-! ### Shifts -/

/-- When `ash` is right.  A shift to the right by more than the width of a word goes by the
places modulo 32; one to the left is seen to overflow by the bits that it leaves. -/
def AshMeets (x places : Int) : Prop :=
  let left := (places % 32).toNat
  let right := (-places % 32).toNat
  let rest := x % 2 ^ (32 - left)
  if places ≤ 0 then -31 ≤ places ∨ -2 ^ right ≤ x ∧ x < 2 ^ right
  else x = 0 ∨ Fits (x * 2 ^ places.toNat) ∨ rest = 0 ∨ ¬(2 ^ (31 - left) ≤ rest ↔ x < 0)

theorem ediv_bounds (x : Int) (n : Nat) :
    (x / 2 ^ n < 1 ↔ x < 2 ^ n) ∧ (0 ≤ x / 2 ^ n ↔ 0 ≤ x) ∧ (-1 ≤ x / 2 ^ n ↔ -2 ^ n ≤ x) := by
  have hpos : (0 : Int) < 2 ^ n := by positivity
  refine ⟨?_, ?_, ?_⟩
  · rw [Int.ediv_lt_iff_lt_mul hpos, one_mul]
  · rw [Int.le_ediv_iff_mul_le hpos, zero_mul]
  · rw [Int.le_ediv_iff_mul_le hpos, neg_one_mul]

/-- Two shifts to the right agree where the smaller one leaves nothing but the sign. -/
theorem shiftRight_eq_iff {x : Int} {k n : Nat} (hfit : Fits x) (hn : 31 < n) :
    x / 2 ^ k = x / 2 ^ n ↔ -2 ^ k ≤ x ∧ x < 2 ^ k := by
  obtain ⟨hk1, hk0, hkn⟩ := ediv_bounds x k
  obtain ⟨hn1, hn0, hnn⟩ := ediv_bounds x n
  have hpow : (2 : Int) ^ 31 ≤ 2 ^ n := pow_le_pow_right₀ (by decide) hn.le
  have hpos : (0 : Int) < 2 ^ k := by positivity
  obtain ⟨hlow, hhigh⟩ := hfit
  have hnlt : x / 2 ^ n < 1 := hn1.2 (by omega)
  have hnge : -1 ≤ x / 2 ^ n := hnn.2 (by omega)
  by_cases hx : 0 ≤ x
  · have hk := hk0.2 hx
    have hn := hn0.2 hx
    rw [show x / 2 ^ n = 0 by omega]
    constructor
    · intro h
      exact ⟨by omega, hk1.1 (by omega)⟩
    · intro h
      have := hk1.2 h.2
      omega
  · have hk : ¬ 0 ≤ x / 2 ^ k := fun hc => hx (hk0.1 hc)
    have hn : ¬ 0 ≤ x / 2 ^ n := fun hc => hx (hn0.1 hc)
    rw [show x / 2 ^ n = -1 by omega]
    constructor
    · intro h
      exact ⟨hkn.1 (by omega), by omega⟩
    · intro h
      have := hkn.2 h.1
      omega

/-- The bits that a shift to the left leaves. -/
theorem toNat_shiftLeft_rest (x : Integer) {k : Nat} (hk : k < 32) :
    ((x <<< k).toNat : Int) = 2 ^ k * (x.toInt % 2 ^ (32 - k)) := by
  have hsplit : (2 : Nat) ^ 32 = 2 ^ (32 - k) * 2 ^ k := by
    rw [← pow_add]
    congr 1
    omega
  have hmod : x.toInt % 2 ^ (32 - k) = (x.toNat : Int) % 2 ^ (32 - k) := by
    have hdvd : (2 : Int) ^ (32 - k) ∣ 2 ^ 32 := pow_dvd_pow 2 (by omega)
    have hwide : x.toInt % 2 ^ 32 = (x.toNat : Int) % 2 ^ 32 := by
      rw [BitVec.toInt_eq_toNat_cond]
      split <;> omega
    rw [← Int.emod_emod_of_dvd _ hdvd, hwide, Int.emod_emod_of_dvd _ hdvd]
  rw [BitVec.toNat_shiftLeft, Nat.shiftLeft_eq, hsplit, Nat.mul_mod_mul_right, hmod]
  push_cast
  ring

/-- A shift to the left that does not lose anything. -/
theorem toInt_shiftLeft_of_fits {x : Integer} {k : Nat} (h : Fits (x.toInt * 2 ^ k)) :
    (x <<< k).toInt = x.toInt * 2 ^ k := by
  rw [BitVec.toInt_shiftLeft, Nat.shiftLeft_eq]
  have hwrap : ((x.toNat : Int) * 2 ^ k).bmod (2 ^ 32) = (x.toInt * 2 ^ k).bmod (2 ^ 32) := by
    rw [BitVec.toInt_eq_toNat_bmod, Int.bmod_mul_bmod]
  rw [Nat.cast_mul, Nat.cast_pow, Nat.cast_ofNat, hwrap, bmod_of_fits h]

/-- The places of a shift that does not lose anything. -/
theorem places_lt {x : Int} {n : Nat} (hx : x ≠ 0) (h : Fits (x * 2 ^ n)) : n < 32 := by
  by_contra hn
  have hpow : (2 : Int) ^ 32 ≤ 2 ^ n := pow_le_pow_right₀ (by decide) (by omega)
  have habs : |x * 2 ^ n| ≤ 2 ^ 31 := abs_le.2 ⟨h.1, h.2.le⟩
  have hone : 1 ≤ |x| := Int.one_le_abs hx
  rw [abs_mul, abs_of_pos (by positivity : (0 : Int) < 2 ^ n)] at habs
  nlinarith

/-- The stack stays as it is. -/
theorem right_same_iff (h : tagType s.top.tag = typeFixnum) {r : Int} :
    Right s s.sp s.sp (some [r]) (.next s) ↔ s.top.data.toInt = r := by
  rw [right_next_iff rfl]
  · simp [Stack.top]
  · intro k hk
    obtain rfl : k = 0 := by simpa using hk
    simpa [Stack.top] using h
  · intro i hi
    rfl

theorem ash_left_right_iff (hx : s.top.data.toInt ≠ 0) {n : Nat} :
    Right s s.sp s.sp (some [s.top.data.toInt * 2 ^ n])
        (if (s.top.data.toInt < 0 ↔ (s.top.data <<< (n % 32)).toInt < 0) ∧
            s.top.data <<< (n % 32) ≠ 0 then
          .next (s.setFixnum (s.top.data <<< (n % 32)))
        else .instructionException s) ↔
      Fits (s.top.data.toInt * 2 ^ n) ∨ s.top.data.toInt % 2 ^ (32 - n % 32) = 0 ∨
        ¬(2 ^ (31 - n % 32) ≤ s.top.data.toInt % 2 ^ (32 - n % 32) ↔ s.top.data.toInt < 0) := by
  have hnonneg : s.top.data <<< (n % 32) = 0 ↔ (s.top.data <<< (n % 32)).toInt = 0 :=
    toInt_eq_iff _ _
  by_cases hfit : Fits (s.top.data.toInt * 2 ^ n)
  · have hn := places_lt hx hfit
    have hpow : (0 : Int) < 2 ^ n := by positivity
    rw [Nat.mod_eq_of_lt hn] at hnonneg ⊢
    have hval := toInt_shiftLeft_of_fits hfit
    have hsign : s.top.data.toInt * 2 ^ n < 0 ↔ s.top.data.toInt < 0 := by
      rw [mul_neg_iff]
      omega
    have hne : s.top.data.toInt * 2 ^ n ≠ 0 := mul_ne_zero hx hpow.ne'
    rw [if_pos ⟨by rw [hval, hsign], by rw [ne_eq, hnonneg, hval]; exact hne⟩, Stack.setFixnum,
      right_set_iff rfl (by decide)]
    simp [hval, hfit]
  · have hrest := toNat_shiftLeft_rest s.top.data (Nat.mod_lt n (by decide : 32 > 0))
    have hpow : (0 : Int) < 2 ^ (n % 32) := by positivity
    have hsplit : (2 : Int) ^ 31 = 2 ^ (n % 32) * 2 ^ (31 - n % 32) := by
      rw [← pow_add]
      congr 1
      omega
    have hzero : s.top.data <<< (n % 32) = 0 ↔ s.top.data.toInt % 2 ^ (32 - n % 32) = 0 := by
      have hnat : s.top.data <<< (n % 32) = 0 ↔ ((s.top.data <<< (n % 32)).toNat : Int) = 0 := by
        rw [← BitVec.toNat_inj, Nat.cast_eq_zero]
        rfl
      rw [hnat, hrest, mul_eq_zero]
      omega
    have hsign : (s.top.data <<< (n % 32)).toInt < 0 ↔
        2 ^ (31 - n % 32) ≤ s.top.data.toInt % 2 ^ (32 - n % 32) := by
      have hlt := (s.top.data <<< (n % 32)).isLt
      have hnat : (s.top.data <<< (n % 32)).toInt < 0 ↔
          (2 : Int) ^ 31 ≤ ((s.top.data <<< (n % 32)).toNat : Int) := by
        rw [BitVec.toInt_eq_toNat_cond]
        split <;> omega
      rw [hnat, hrest, hsplit, mul_le_mul_iff_right₀ hpow]
    have hcond : ¬((s.top.data.toInt < 0 ↔ (s.top.data <<< (n % 32)).toInt < 0) ∧
          s.top.data <<< (n % 32) ≠ 0) ↔
        s.top.data.toInt % 2 ^ (32 - n % 32) = 0 ∨
          ¬(2 ^ (31 - n % 32) ≤ s.top.data.toInt % 2 ^ (32 - n % 32) ↔
            s.top.data.toInt < 0) := by
      rw [not_and_or, not_not, hzero, hsign, or_comm]
      exact or_congr_right (not_congr Iff.comm)
    rw [right_of_not_fits_one hfit]
    simp only [hfit, false_or]
    split
    · rename_i hleft
      exact iff_of_false id (fun hc => hcond.2 hc hleft)
    · rename_i hleft
      exact iff_of_true trivial (hcond.1 hleft)

theorem ash_right_right_iff (n : Nat) :
    Right s s.sp s.sp (some [s.top.data.toInt / 2 ^ n])
        (.next (s.setFixnum (s.top.data.sshiftRight (n % 32)))) ↔
      n ≤ 31 ∨ -2 ^ (n % 32) ≤ s.top.data.toInt ∧ s.top.data.toInt < 2 ^ (n % 32) := by
  rw [Stack.setFixnum, right_set_iff rfl (by decide), BitVec.toInt_sshiftRight,
    Int.shiftRight_eq_div_pow]
  push_cast
  by_cases hn : n ≤ 31
  · simp [hn, Nat.mod_eq_of_lt (by omega : n < 32)]
  · rw [shiftRight_eq_iff (fits_toInt _) (by omega)]
    simp [hn]

theorem ash_right_iff (h : binaryTypeFixnumP (s.operand op2).tag s.top.tag) :
    Right s s.sp s.sp
        (some [⌊(s.top.data.toInt : ℚ) * 2 ^ (s.operand op2).data.toInt⌋]) (ash s op2) ↔
      AshMeets s.top.data.toInt (s.operand op2).data.toInt := by
  have htag := ((binaryTypeFixnumP_iff _ _).1 h).2
  have hx0 : s.top.data = 0 ↔ s.top.data.toInt = 0 := toInt_eq_iff _ _
  have hy0 : (s.operand op2).data = 0 ↔ (s.operand op2).data.toInt = 0 := toInt_eq_iff _ _
  obtain ⟨hlow, hhigh⟩ := fits_toInt (s.operand op2).data
  simp only [ash, h, if_true]
  by_cases hpos : 0 < (s.operand op2).data.toInt
  · have hn : (s.operand op2).data.toNat = (s.operand op2).data.toInt.toNat := by
      rw [BitVec.toInt_eq_toNat_cond] at hpos ⊢
      split at hpos <;> omega
    have hscale : ⌊(s.top.data.toInt : ℚ) * 2 ^ (s.operand op2).data.toInt⌋ =
        s.top.data.toInt * 2 ^ (s.operand op2).data.toInt.toNat := by
      conv_lhs => rw [← Int.toNat_of_nonneg hpos.le]
      exact Rounding.floor_scale_up _ _
    have hleft : ((s.operand op2).data.toInt % 32).toNat =
        (s.operand op2).data.toInt.toNat % 32 := by omega
    have hnot : ¬ (s.operand op2).data.toInt ≤ 0 := by omega
    have hy : (s.operand op2).data ≠ 0 := fun hc => hpos.ne' (hy0.1 hc)
    simp only [AshMeets, hnot, if_false, hleft, hscale, hn, hpos, if_true, hy, false_or]
    by_cases hx : s.top.data = 0
    · rw [if_pos hx, right_same_iff htag, hx0.1 hx]
      simp
    · have hx' : s.top.data.toInt ≠ 0 := fun hc => hx (hx0.2 hc)
      rw [if_neg hx, ash_left_right_iff hx']
      simp only [hx', false_or]
  · have hscale : ⌊(s.top.data.toInt : ℚ) * 2 ^ (s.operand op2).data.toInt⌋ =
        s.top.data.toInt / 2 ^ (-(s.operand op2).data.toInt).toNat := by
      have hneg : (s.operand op2).data.toInt =
          -(((-(s.operand op2).data.toInt).toNat : Nat) : Int) := by omega
      conv_lhs => rw [hneg]
      exact Rounding.floor_scale_down _ _
    have hright : (-(s.operand op2).data.toInt % 32).toNat =
        (-(s.operand op2).data.toInt).toNat % 32 := by omega
    have hle : (s.operand op2).data.toInt ≤ 0 := by omega
    have hn : (-(s.operand op2).data).toNat = (-(s.operand op2).data.toInt).toNat := by
      rw [BitVec.toNat_neg]
      rw [BitVec.toInt_eq_toNat_cond] at hle ⊢
      split at hle <;> omega
    simp only [AshMeets, hle, if_true, hright, hscale, hn, hpos, if_false]
    split
    · rename_i hsame
      rw [right_same_iff htag]
      rcases hsame with hy | hx
      · rw [hy0.1 hy]
        simp
      · rw [hx0.1 hx]
        simp
    · rw [ash_right_right_iff]
      omega

end Fixnums

/-! ### All instructions -/

/-- Where the results of an instruction leave the top of the stack. -/
def Binary.top (s : Stack) : Binary → Int
  | .floor | .ceiling | .truncate | .round => s.sp + 1
  | _ => s.sp

def Binary.Meets (x y : Int) : Binary → Prop
  | .round => RoundMeets x y
  | .ash => AshMeets x y
  | _ => True

theorem Binary.right_iff (i : Binary) {s : Stack} {op2 : Operand}
    (h : binaryTypeFixnumP (s.operand op2).tag s.top.tag) :
    Right s s.sp (i.top s) (i.exact s.top.data.toInt (s.operand op2).data.toInt)
        (i.execute s op2) ↔
      i.Meets s.top.data.toInt (s.operand op2).data.toInt := by
  cases i with
  | add => exact iff_true_intro (add_right h)
  | sub => exact iff_true_intro (sub_right h)
  | multiply => exact iff_true_intro (multiply_right h)
  | quotient => exact iff_true_intro (quotient_right h)
  | floor => exact iff_true_intro (floor_right h)
  | ceiling => exact iff_true_intro (ceiling_right h)
  | truncate => exact iff_true_intro (truncate_right h)
  | round => exact round_right_iff h
  | rationalQuotient => exact iff_true_intro (rationalQuotient_right h)
  | ash => exact ash_right_iff h

/-- The instructions with two operands are right for exactly the fixnums that they meet,
and those with one are always right. -/
theorem arithmetic_exact (s : Stack) (op2 : Operand) (hx : tagType s.top.tag = typeFixnum)
    (hy : tagType (s.operand op2).tag = typeFixnum) :
    (∀ i : Binary,
      Right s s.sp (i.top s) (i.exact s.top.data.toInt (s.operand op2).data.toInt)
          (i.execute s op2) ↔
        i.Meets s.top.data.toInt (s.operand op2).data.toInt) ∧
      Right s (s.sp + 1) (s.sp + 1) (some [-(s.operand op2).data.toInt]) (unaryMinus s op2) ∧
      (∀ n : BitVec 8,
        Right s (s.sp + 1) (s.sp + 1) (some [-(n.toNat : Int)]) (unaryMinusImmediate s n)) ∧
      ∀ place, tagType (s.words place).tag = typeFixnum →
        Right s place s.sp (some [(s.words place).data.toInt + 1]) (increment s place) ∧
          Right s place s.sp (some [(s.words place).data.toInt - 1]) (decrement s place) :=
  ⟨fun i => i.right_iff ((binaryTypeFixnumP_iff _ _).2 ⟨hy, hx⟩), unaryMinus_right hy,
    unaryMinusImmediate_right, fun _ h => ⟨increment_right h, decrement_right h⟩⟩

/-- One fixnum on the stack. -/
def single (n : Integer) : Stack := ⟨fun _ => ⟨typeFixnum, n⟩, 0⟩

theorem arithmetic_exact_single :
    (∀ i : Binary,
      Right (single 7) 0 (i.top (single 7))
          (i.exact (single 7).top.data.toInt ((single 7).operand (.immediate 2)).data.toInt)
          (i.execute (single 7) (.immediate 2)) ↔
        i.Meets (single 7).top.data.toInt ((single 7).operand (.immediate 2)).data.toInt) ∧
      Right (single 7) 1 1 (some [-((single 7).operand (.immediate 2)).data.toInt])
        (unaryMinus (single 7) (.immediate 2)) ∧
      (∀ n : BitVec 8,
        Right (single 7) 1 1 (some [-(n.toNat : Int)]) (unaryMinusImmediate (single 7) n)) ∧
      ∀ place, tagType ((single 7).words place).tag = typeFixnum →
        Right (single 7) place 0 (some [((single 7).words place).data.toInt + 1])
            (increment (single 7) place) ∧
          Right (single 7) place 0 (some [((single 7).words place).data.toInt - 1])
            (decrement (single 7) place) :=
  arithmetic_exact (single 7) (.immediate 2) (by decide) (by decide)

/-- `round` of -5 by 3 leaves -1 and -2, and a shift of 1 by 33 places to the left leaves 2. -/
theorem not_arithmetic_exact :
    ¬ Right (single (-5)) 0 1 (Binary.exact (-5) 3 .round)
        (round (single (-5)) (.immediate 3)) ∧
      ¬ Right (single 1) 0 0 (Binary.exact 1 33 .ash) (ash (single 1) (.immediate 33)) := by
  constructor
  · intro h
    have hmeets : RoundMeets (-5) 3 :=
      (@round_right_iff (single (-5)) (.immediate 3) (by decide)).1 h
    unfold RoundMeets Near Fits at hmeets
    exact absurd hmeets (by decide)
  · intro h
    have hmeets : AshMeets 1 33 :=
      (@ash_right_iff (single 1) (.immediate 33) (by decide)).1 h
    unfold AshMeets Fits at hmeets
    exact absurd hmeets (by decide)

end Ivory.Execute
