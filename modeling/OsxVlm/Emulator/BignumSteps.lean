import OsxVlm.Emulator.Operands
import OsxVlm.Library.BitFields
import OsxVlm.Library.Schoolbook

/-!
# The steps of bignum multiplication and division

The operands are digits of bignums, which are not signed.  A step of the division shifts
the upper digit in the width of a digit, so that it stays where it is.
-/

namespace Ivory.Execute

def multiplyBignumStep (s : Stack) (op2 : Operand) : Outcome Stack :=
  if binaryTypeFixnumP (s.operand op2).tag s.top.tag then
    let value : BitVec 64 := (s.operand op2).data.setWidth 64 * s.top.data.setWidth 64
    let low : Integer := value.setWidth 32
    let high : Integer := (value.sshiftRight 32).setWidth 32
    .next ((s.setFixnum low).pushFixnum high)
  else .illegalOperand s

/-- The lower digit of the dividend is below the upper one. -/
def divideBignumStep (s : Stack) (op2 : Operand) : Outcome Stack :=
  let below := s.words (s.sp - 1)
  if binaryTypeFixnumP (s.operand op2).tag s.top.tag ∧ typeFixnumP below.tag then
    -- the host takes the count modulo the width of the unsigned upper digit
    let dividend : BitVec 64 := (s.top.data <<< (32 % 32) ||| below.data).setWidth 64
    let divisor : BitVec 64 := (s.operand op2).data.setWidth 64
    if divisor = 0 then .fails
    else
      let quotient := dividend.sdiv divisor
      if quotient.sshiftRight 32 ≠ 0 then .illegalOperand s
      else
        let s' := s.set (s.sp - 1) ⟨below.tag, quotient.setWidth 32⟩
        .next (s'.setData ((dividend - quotient * divisor).setWidth 32))
  else .illegalOperand s

/-! ### What the steps are for -/

/-- The product in two digits, the lower one in the place of the first factor. -/
def Multiplied (s : Stack) (a b : Integer) (out : Outcome Stack) : Prop :=
  ∃ low high : Integer, low.toNat + high.toNat * 2 ^ 32 = a.toNat * b.toNat ∧
    out = .next ((s.set s.sp ⟨typeFixnum, low⟩).push ⟨typeFixnum, high⟩)

/-- Quotient and remainder in the places of the two digits, or an illegal operand. -/
def Divided (s : Stack) (low high divisor : Integer) (out : Outcome Stack) : Prop :=
  if high.toNat < divisor.toNat then
    ∃ s' : Stack, out = .next s' ∧ s'.sp = s.sp ∧
      high.toNat * 2 ^ 32 + low.toNat =
        (s'.words (s.sp - 1)).data.toNat * divisor.toNat + (s'.words s.sp).data.toNat ∧
      (s'.words s.sp).data.toNat < divisor.toNat ∧
      tagType (s'.words (s.sp - 1)).tag = typeFixnum ∧ tagType (s'.words s.sp).tag = typeFixnum ∧
      ∀ i, i ≠ s.sp - 1 → i ≠ s.sp → s'.words i = s.words i
  else out = .illegalOperand s

/-- The upper half of a long, shifted down with its sign and cut. -/
theorem toNat_high (v : BitVec 64) : ((v.sshiftRight 32).setWidth 32).toNat = v.toNat / 2 ^ 32 := by
  have hshift : (v.sshiftRight 32).setWidth 32 = (v >>> 32).setWidth 32 := by
    ext i hi
    have hwide : ¬ 64 ≤ i ∧ 32 + i < 64 := by omega
    simp [BitVec.getLsbD_sshiftRight, hwide]
  rw [hshift, BitVec.toNat_setWidth, BitVec.toNat_ushiftRight, Nat.shiftRight_eq_div_pow]
  have := v.isLt
  omega

/-- The long product has all the bits. -/
theorem multiplyBignumStep_right {s : Stack} {op2 : Operand}
    (h : binaryTypeFixnumP (s.operand op2).tag s.top.tag) :
    Multiplied s (s.operand op2).data s.top.data (multiplyBignumStep s op2) := by
  have ha := (s.operand op2).data.isLt
  have hb := s.top.data.isLt
  have hval : ((s.operand op2).data.setWidth 64 * s.top.data.setWidth 64).toNat =
      (s.operand op2).data.toNat * s.top.data.toNat := by
    have hprod : (s.operand op2).data.toNat * s.top.data.toNat < 2 ^ 32 * 2 ^ 32 :=
      Nat.mul_lt_mul'' ha hb
    rw [BitVec.toNat_mul, BitVec.toNat_setWidth, BitVec.toNat_setWidth,
      Nat.mod_eq_of_lt (ha.trans (by decide)), Nat.mod_eq_of_lt (hb.trans (by decide)),
      Nat.mod_eq_of_lt (by omega)]
  simp only [multiplyBignumStep, h, if_true]
  refine ⟨_, _, ?_, rfl⟩
  rw [toNat_high, BitVec.toNat_setWidth, hval]
  omega

/-- Neither of two digits is negative as a long, so the host divides them as they are. -/
theorem long_division (n d : Integer) :
    ((n.setWidth 64 : BitVec 64).sdiv (d.setWidth 64)).toNat = n.toNat / d.toNat ∧
      ((n.setWidth 64 : BitVec 64).sdiv (d.setWidth 64)).sshiftRight 32 = 0 ∧
      ((n.setWidth 64 : BitVec 64) - (n.setWidth 64 : BitVec 64).sdiv (d.setWidth 64) *
        d.setWidth 64).toNat = n.toNat % d.toNat := by
  have hn := n.isLt
  have hdlt := d.isLt
  have hwide : ∀ m : Integer, (m.setWidth 64 : BitVec 64).toNat = m.toNat := by
    intro m
    rw [BitVec.toNat_setWidth, Nat.mod_eq_of_lt (m.isLt.trans (by decide))]
  have hmsb : ∀ m : Integer, (m.setWidth 64 : BitVec 64).msb = false := by
    intro m
    have := m.isLt
    rw [BitVec.msb_eq_false_iff_two_mul_lt, hwide]
    omega
  have hquotient : ((n.setWidth 64 : BitVec 64).sdiv (d.setWidth 64)).toNat = n.toNat / d.toNat := by
    rw [BitVec.toNat_sdiv, hmsb, hmsb]
    show ((n.setWidth 64 : BitVec 64) / d.setWidth 64).toNat = _
    rw [BitVec.toNat_udiv, hwide, hwide]
  have hle := Nat.div_le_self n.toNat d.toNat
  have hdiv := Nat.div_add_mod' n.toNat d.toNat
  refine ⟨hquotient, ?_, ?_⟩
  · have hsign : ((n.setWidth 64 : BitVec 64).sdiv (d.setWidth 64)).msb = false := by
      rw [BitVec.msb_eq_false_iff_two_mul_lt, hquotient]
      omega
    rw [BitVec.sshiftRight_eq_of_msb_false hsign]
    apply BitVec.eq_of_toNat_eq
    rw [BitVec.toNat_ushiftRight, hquotient, Nat.shiftRight_eq_div_pow]
    exact Nat.div_eq_of_lt (by omega)
  · rw [BitVec.toNat_sub, BitVec.toNat_mul, hquotient, hwide, hwide,
      Nat.mod_eq_of_lt (by omega : n.toNat / d.toNat * d.toNat < 2 ^ 64)]
    omega

/-- The dividend of the code is the two digits put on top of each other. -/
theorem divideBignumStep_eq {s : Stack} {op2 : Operand}
    (h : binaryTypeFixnumP (s.operand op2).tag s.top.tag)
    (hbelow : tagType (s.words (s.sp - 1)).tag = typeFixnum)
    (hd : (s.operand op2).data.toNat ≠ 0) :
    ∃ q r : Integer, q.toNat =
        (s.top.data ||| (s.words (s.sp - 1)).data).toNat / (s.operand op2).data.toNat ∧
      r.toNat = (s.top.data ||| (s.words (s.sp - 1)).data).toNat % (s.operand op2).data.toNat ∧
      divideBignumStep s op2 =
        .next ((s.set (s.sp - 1) ⟨(s.words (s.sp - 1)).tag, q⟩).setData r) := by
  obtain ⟨hq, hfits, hr⟩ := long_division (s.top.data ||| (s.words (s.sp - 1)).data)
    (s.operand op2).data
  have hn := (s.top.data ||| (s.words (s.sp - 1)).data).isLt
  have hle := Nat.div_le_self (s.top.data ||| (s.words (s.sp - 1)).data).toNat
    (s.operand op2).data.toNat
  have hmod := Nat.mod_le (s.top.data ||| (s.words (s.sp - 1)).data).toNat
    (s.operand op2).data.toNat
  have hshift : s.top.data <<< (32 % 32) = s.top.data := BitVec.shiftLeft_zero _
  have hd64 : ((s.operand op2).data.setWidth 64 : BitVec 64) ≠ 0 := by
    intro hc
    have := congrArg BitVec.toNat hc
    rw [BitVec.toNat_setWidth, Nat.mod_eq_of_lt ((s.operand op2).data.isLt.trans (by decide))] at this
    exact hd this
  let n : BitVec 64 := (s.top.data ||| (s.words (s.sp - 1)).data).setWidth 64
  let d : BitVec 64 := (s.operand op2).data.setWidth 64
  refine ⟨(n.sdiv d).setWidth 32, (n - n.sdiv d * d).setWidth 32, ?_, ?_, ?_⟩
  · rw [BitVec.toNat_setWidth, hq, Nat.mod_eq_of_lt (by omega)]
  · rw [BitVec.toNat_setWidth, hr, Nat.mod_eq_of_lt (by omega)]
  · simp only [divideBignumStep, h, typeFixnumP, hbelow, decide_true, hshift, hd64, if_false,
      hfits, ne_eq, not_true, and_self, if_true, n, d]

/-- A step is right when there is no upper digit. -/
theorem divideBignumStep_right_iff {s : Stack} {op2 : Operand}
    (h : binaryTypeFixnumP (s.operand op2).tag s.top.tag)
    (hbelow : tagType (s.words (s.sp - 1)).tag = typeFixnum) :
    Divided s (s.words (s.sp - 1)).data s.top.data (s.operand op2).data
        (divideBignumStep s op2) ↔
      s.top.data = 0 ∧ (s.operand op2).data ≠ 0 := by
  by_cases hd : (s.operand op2).data = 0
  · have hfails : divideBignumStep s op2 = .fails := by
      simp [divideBignumStep, h, typeFixnumP, hbelow, hd]
    rw [hfails, Divided, hd]
    simp
  · have hdnat : (s.operand op2).data.toNat ≠ 0 := by
      rw [← BitVec.toNat_inj] at hd
      simpa using hd
    obtain ⟨q, r, hq, hr, hstep⟩ := divideBignumStep_eq h hbelow hdnat
    have hor := (s.top.data ||| (s.words (s.sp - 1)).data).isLt
    have hdiv := Nat.div_add_mod' (s.top.data ||| (s.words (s.sp - 1)).data).toNat
      (s.operand op2).data.toNat
    have hlow : (((s.set (s.sp - 1) ⟨(s.words (s.sp - 1)).tag, q⟩).setData r).words (s.sp - 1)) =
        ⟨(s.words (s.sp - 1)).tag, q⟩ := by
      rw [Stack.setData, Stack.set_words_of_ne _ _ (by simp), Stack.set_words_self]
    have hhigh : (((s.set (s.sp - 1) ⟨(s.words (s.sp - 1)).tag, q⟩).setData r).words s.sp) =
        ⟨s.top.tag, r⟩ := by
      have hne : s.sp ≠ s.sp - 1 := by omega
      simp [Stack.setData, Stack.top, hne]
    rw [hstep]
    constructor
    · intro hc
      refine ⟨?_, hd⟩
      unfold Divided at hc
      split at hc
      · obtain ⟨s', heq, -, hval, -⟩ := hc
        obtain rfl := Outcome.next.inj heq
        rw [hlow, hhigh, hq, hr, hdiv] at hval
        apply BitVec.eq_of_toNat_eq
        have hzero : (0 : Integer).toNat = 0 := rfl
        omega
      · simp at hc
    · intro hc
      have hzero : s.top.data.toNat = 0 := by rw [hc.1]; rfl
      have hlowest : s.top.data ||| (s.words (s.sp - 1)).data = (s.words (s.sp - 1)).data := by
        rw [hc.1]
        exact BitVec.zero_or
      rw [hlowest] at hq hr hdiv
      rw [Divided, if_pos (by omega)]
      refine ⟨_, rfl, rfl, ?_, ?_, ?_, ?_, ?_⟩
      · rw [hlow, hhigh, hq, hr, hdiv]
        omega
      · rw [hhigh, hr]
        exact Nat.mod_lt _ (by omega)
      · rw [hlow]
        exact hbelow
      · rw [hhigh]
        exact ((binaryTypeFixnumP_iff _ _).1 h).2
      · intro i hi hi'
        rw [Stack.setData, Stack.set_words_of_ne _ _ (by simpa using hi'),
          Stack.set_words_of_ne _ _ hi]

/-! ### Bignums of any length -/

/-- A stack with two digits and the operand that was popped off them. -/
def digits (below top popped : ℕ) : Stack :=
  ⟨fun i => ⟨typeFixnum, .ofNat 32 (if i = 0 then below else if i = 1 then top else popped)⟩, 1⟩

/-- The two digits that a step leaves. -/
def digitsAt (place : Int) : Outcome Stack → ℕ × ℕ
  | .next s => ((s.words place).data.toNat, (s.words (place + 1)).data.toNat)
  | _ => (0, 0)

theorem tagType_digits (below top popped : ℕ) (i : Int) :
    tagType ((digits below top popped).words i).tag = typeFixnum := by
  show tagType typeFixnum = typeFixnum
  decide

theorem binaryTypeFixnumP_digits (below top popped : ℕ) :
    binaryTypeFixnumP ((digits below top popped).operand (.word 2)).tag
      (digits below top popped).top.tag = true :=
  (binaryTypeFixnumP_iff _ _).2 ⟨tagType_digits below top popped 2, tagType_digits below top popped 1⟩

def productStep (a b : ℕ) : ℕ × ℕ := digitsAt 1 (multiplyBignumStep (digits 0 a b) (.word 2))

def quotientStep (d r a : ℕ) : ℕ × ℕ := digitsAt 0 (divideBignumStep (digits a r d) (.word 2))

theorem productStep_value (a b : ℕ) (ha : a < 2 ^ 32) (hb : b < 2 ^ 32) :
    (productStep a b).1 + (productStep a b).2 * 2 ^ 32 = a * b := by
  obtain ⟨low, high, hval, hnext⟩ :=
    multiplyBignumStep_right (binaryTypeFixnumP_digits 0 a b)
  have hvalue : ((digits 0 a b).operand (.word 2)).data.toNat = b ∧
      (digits 0 a b).top.data.toNat = a :=
    ⟨Nat.mod_eq_of_lt hb, Nat.mod_eq_of_lt ha⟩
  rw [hvalue.1, hvalue.2] at hval
  rw [productStep, hnext, Nat.mul_comm a b, ← hval]
  rfl

theorem quotientStep_value {d : ℕ} (hd : d ≠ 0) (hlt : d < 2 ^ 32) (r a : ℕ) (hr : r < 2 ^ 32)
    (ha : a < 2 ^ 32) :
    (quotientStep d r a).1 * d + (quotientStep d r a).2 = r ||| a ∧ (quotientStep d r a).2 < d := by
  have hvalue : ((digits a r d).operand (.word 2)).data.toNat = d := Nat.mod_eq_of_lt hlt
  have hor : ((digits a r d).top.data ||| ((digits a r d).words ((digits a r d).sp - 1)).data).toNat
      = r ||| a := by
    rw [BitVec.toNat_or]
    exact congrArg₂ _ (Nat.mod_eq_of_lt hr) (Nat.mod_eq_of_lt ha)
  obtain ⟨q, m, hq, hm, hnext⟩ :=
    divideBignumStep_eq (binaryTypeFixnumP_digits a r d) (tagType_digits a r d _)
      (by rw [hvalue]; exact hd)
  rw [hvalue, hor] at hq hm
  have hleft : quotientStep d r a = (q.toNat, m.toNat) := by
    rw [quotientStep, hnext]
    rfl
  rw [hleft, hq, hm]
  exact ⟨Nat.div_add_mod' _ _, Nat.mod_lt _ (Nat.pos_of_ne_zero hd)⟩

/-- Multiplication is exact in every step and at every length.  Division is exact in the
steps without an upper digit and on the numbers whose digits, except for the last one, are
multiples of the divisor. -/
theorem bignumSteps_exact (s : Stack) (op2 : Operand)
    (h : binaryTypeFixnumP (s.operand op2).tag s.top.tag)
    (hbelow : tagType (s.words (s.sp - 1)).tag = typeFixnum) :
    Multiplied s (s.operand op2).data s.top.data (multiplyBignumStep s op2) ∧
      (Divided s (s.words (s.sp - 1)).data s.top.data (s.operand op2).data
          (divideBignumStep s op2) ↔
        s.top.data = 0 ∧ (s.operand op2).data ≠ 0) ∧
      (∀ as bs : List ℕ, (∀ a ∈ as, a < 2 ^ 32) → (∀ b ∈ bs, b < 2 ^ 32) →
        Nat.ofDigits (2 ^ 32) (Schoolbook.multiply (2 ^ 32) productStep as bs) =
          Nat.ofDigits (2 ^ 32) as * Nat.ofDigits (2 ^ 32) bs) ∧
      ∀ (d : ℕ) (as : List ℕ), d ≠ 0 → d < 2 ^ 32 → (∀ a ∈ as, a < 2 ^ 32) →
        (Schoolbook.valueFrom (2 ^ 32) 0 (Schoolbook.divide (quotientStep d) 0 as).1 * d +
            (Schoolbook.divide (quotientStep d) 0 as).2 = Schoolbook.valueFrom (2 ^ 32) 0 as ↔
          ∀ a ∈ as.dropLast, d ∣ a) := by
  refine ⟨multiplyBignumStep_right h, divideBignumStep_right_iff h hbelow,
    Schoolbook.multiply_value productStep_value, ?_⟩
  intro d as hd hlt has
  have hloses : ∀ r a, r < 2 ^ 32 → a < 2 ^ 32 →
      (quotientStep d r a).1 * d + (quotientStep d r a).2 ≤ r + a ∧ (quotientStep d r a).2 < d := by
    intro r a hr ha
    obtain ⟨hval, hrem⟩ := quotientStep_value hd hlt r a hr ha
    exact ⟨hval.trans_le (BitFields.or_le_add r a), hrem⟩
  have hzero : ∀ a, a < 2 ^ 32 → (quotientStep d 0 a).1 * d + (quotientStep d 0 a).2 = a := by
    intro a ha
    rw [(quotientStep_value hd hlt 0 a (by decide) ha).1, Nat.zero_or]
  have hbase : 0 < 2 ^ 32 := by decide
  have hiff := (Schoolbook.accounted_eq_iff (by decide) hlt.le hloses hzero hbase as has).2
  simp only [or_true, true_and] at hiff
  exact hiff

theorem bignumSteps_exact_digits :
    Multiplied (digits 7 0 3) 3 0 (multiplyBignumStep (digits 7 0 3) (.word 2)) ∧
      (Divided (digits 7 0 3) 7 0 3 (divideBignumStep (digits 7 0 3) (.word 2)) ↔
        (0 : Integer) = 0 ∧ (3 : Integer) ≠ 0) ∧
      (∀ as bs : List ℕ, (∀ a ∈ as, a < 2 ^ 32) → (∀ b ∈ bs, b < 2 ^ 32) →
        Nat.ofDigits (2 ^ 32) (Schoolbook.multiply (2 ^ 32) productStep as bs) =
          Nat.ofDigits (2 ^ 32) as * Nat.ofDigits (2 ^ 32) bs) ∧
      ∀ (d : ℕ) (as : List ℕ), d ≠ 0 → d < 2 ^ 32 → (∀ a ∈ as, a < 2 ^ 32) →
        (Schoolbook.valueFrom (2 ^ 32) 0 (Schoolbook.divide (quotientStep d) 0 as).1 * d +
            (Schoolbook.divide (quotientStep d) 0 as).2 = Schoolbook.valueFrom (2 ^ 32) 0 as ↔
          ∀ a ∈ as.dropLast, d ∣ a) :=
  bignumSteps_exact (digits 7 0 3) (.word 2) (by decide) (by decide)

/-- 2 ^ 32 divided by 3 leaves 0 and 1, and 3 * 2 ^ 32 divided by 3 leaves a quotient. -/
theorem not_bignumSteps_exact :
    ¬ Divided (digits 0 1 3) 0 1 3 (divideBignumStep (digits 0 1 3) (.word 2)) ∧
      ¬ Divided (digits 0 3 3) 0 3 3 (divideBignumStep (digits 0 3 3) (.word 2)) := by
  constructor
  · intro h
    have hzero := ((divideBignumStep_right_iff (binaryTypeFixnumP_digits 0 1 3)
      (tagType_digits 0 1 3 _)).1 h).1
    exact absurd hzero (by decide)
  · intro h
    have hzero := ((divideBignumStep_right_iff (binaryTypeFixnumP_digits 0 3 3)
      (tagType_digits 0 3 3 _)).1 h).1
    exact absurd hzero (by decide)

end Ivory.Execute
