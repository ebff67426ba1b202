import Mathlib

/-!
# Quotients rounded to integers

The four ways a quotient is rounded to an integer, and how the rounded quotient of two
integers is told from the remainder it leaves.
-/

namespace Rounding

inductive Mode
  | floor
  | ceiling
  | truncate
  | nearest
  deriving DecidableEq

variable {K : Type*} [Field K] [LinearOrder K] [FloorRing K]

/-- The nearest integer, the even one of two. -/
def nearest (q : K) : ℤ :=
  if Int.fract q < 1 / 2 ∨ Int.fract q = 1 / 2 ∧ Even ⌊q⌋ then ⌊q⌋ else ⌊q⌋ + 1

def truncate (q : K) : ℤ := if 0 ≤ q then ⌊q⌋ else ⌈q⌉

def round (m : Mode) (q : K) : ℤ :=
  match m with
  | .floor => ⌊q⌋
  | .ceiling => ⌈q⌉
  | .truncate => truncate q
  | .nearest => nearest q

variable [IsStrictOrderedRing K]

/-! ### The nearest integer -/

theorem nearest_spec (q : K) :
    |q - nearest q| < 1 / 2 ∨ |q - nearest q| = 1 / 2 ∧ Even (nearest q) := by
  have hfract := Int.self_sub_floor q
  have hnonneg := Int.fract_nonneg q
  have hlt := Int.fract_lt_one q
  by_cases h : Int.fract q < 1 / 2 ∨ Int.fract q = 1 / 2 ∧ Even ⌊q⌋
  · rw [nearest, if_pos h, hfract, abs_of_nonneg hnonneg]
    exact h
  · have hup : q - ((⌊q⌋ + 1 : ℤ) : K) = Int.fract q - 1 := by
      push_cast
      linear_combination hfract
    rw [nearest, if_neg h, hup, abs_of_neg (by linarith)]
    obtain ⟨hle, hodd⟩ := not_or.1 h
    rcases eq_or_lt_of_le (not_lt.1 hle) with heq | hgt
    · have : ¬ Even ⌊q⌋ := fun he => hodd ⟨heq.symm, he⟩
      exact Or.inr ⟨by linarith, Int.even_add_one.2 this⟩
    · exact Or.inl (by linarith)

/-- No other integer is as near. -/
theorem nearest_unique {q : K} {m n : ℤ} (hm : |q - m| < 1 / 2 ∨ |q - m| = 1 / 2 ∧ Even m)
    (hn : |q - n| < 1 / 2 ∨ |q - n| = 1 / 2 ∧ Even n) : m = n := by
  have hle : ∀ k : ℤ, |q - k| < 1 / 2 ∨ |q - k| = 1 / 2 ∧ Even k → |q - k| ≤ 1 / 2 := by
    intro k hk
    rcases hk with h | h
    · exact h.le
    · exact h.1.le
  have hm' := abs_le.1 (hle m hm)
  have hn' := abs_le.1 (hle n hn)
  have hdist : m - n ≤ 1 ∧ n - m ≤ 1 := by
    have h1 : (m : K) - n ≤ 1 := by linarith
    have h2 : (n : K) - m ≤ 1 := by linarith
    exact ⟨by exact_mod_cast h1, by exact_mod_cast h2⟩
  by_contra hne
  -- the two are neighbours, so both are half away, and one of them is odd
  have hboth : |q - m| = 1 / 2 ∧ |q - n| = 1 / 2 := by
    rcases lt_or_gt_of_ne hne with hlt | hgt
    · have hsucc : (n : K) = m + 1 := by
        have : n = m + 1 := by omega
        exact_mod_cast this
      rw [hsucc] at hn' ⊢
      have hval : q - m = 1 / 2 := by linarith
      have hval' : q - (m + 1) = -(1 / 2) := by linarith
      rw [hval, hval', abs_neg, abs_of_pos (by norm_num)]
      simp
    · have hsucc : (m : K) = n + 1 := by
        have : m = n + 1 := by omega
        exact_mod_cast this
      rw [hsucc] at hm' ⊢
      have hval : q - n = 1 / 2 := by linarith
      have hval' : q - (n + 1) = -(1 / 2) := by linarith
      rw [hval, hval', abs_neg, abs_of_pos (by norm_num)]
      simp
  have hem : Even m := (hm.resolve_left (by rw [hboth.1]; exact lt_irrefl _)).2
  have hen : Even n := (hn.resolve_left (by rw [hboth.2]; exact lt_irrefl _)).2
  obtain ⟨a, rfl⟩ := hem
  obtain ⟨b, rfl⟩ := hen
  omega

theorem nearest_eq_iff (q : K) (n : ℤ) :
    nearest q = n ↔ |q - n| < 1 / 2 ∨ |q - n| = 1 / 2 ∧ Even n := by
  constructor
  · intro h
    rw [← h]
    exact nearest_spec q
  · intro h
    exact nearest_unique (nearest_spec q) h

/-! ### Quotients of integers -/

section Quotient

variable {x y n : ℤ}

theorem floor_div_eq_iff (hy : y ≠ 0) :
    ⌊(x : K) / y⌋ = n ↔
      0 < y ∧ 0 ≤ x - n * y ∧ x - n * y < y ∨ y < 0 ∧ x - n * y ≤ 0 ∧ y < x - n * y := by
  have hmul : ((n : K) + 1) * y = ((n * y + y : ℤ) : K) := by
    push_cast
    ring
  rw [Int.floor_eq_iff]
  rcases lt_or_gt_of_ne hy with h | h
  · have hK : (y : K) < 0 := by exact_mod_cast h
    rw [le_div_iff_of_neg hK, div_lt_iff_of_neg hK, hmul, ← Int.cast_mul, Int.cast_le, Int.cast_lt]
    omega
  · have hK : (0 : K) < y := by exact_mod_cast h
    rw [le_div_iff₀ hK, div_lt_iff₀ hK, hmul, ← Int.cast_mul, Int.cast_le, Int.cast_lt]
    omega

theorem ceil_div_eq_iff (hy : y ≠ 0) :
    ⌈(x : K) / y⌉ = n ↔
      0 < y ∧ x - n * y ≤ 0 ∧ -y < x - n * y ∨ y < 0 ∧ 0 ≤ x - n * y ∧ x - n * y < -y := by
  have hneg : ⌈(x : K) / y⌉ = -⌊((-x : ℤ) : K) / y⌋ := by
    rw [← Int.ceil_neg]
    congr 1
    push_cast
    ring
  have hmul : -n * y = -(n * y) := by ring
  rw [hneg, neg_eq_iff_eq_neg, floor_div_eq_iff hy, hmul]
  omega

theorem nearest_div_eq_iff (hy : y ≠ 0) :
    nearest ((x : K) / y) = n ↔
      2 * |x - n * y| < |y| ∨ 2 * |x - n * y| = |y| ∧ Even n := by
  have hK : (y : K) ≠ 0 := by exact_mod_cast hy
  have habs : (0 : K) < |(y : K)| := abs_pos.2 hK
  have hdist : |(x : K) / y - n| = ((|x - n * y| : ℤ) : K) / ((|y| : ℤ) : K) := by
    rw [Int.cast_abs, Int.cast_abs, ← abs_div]
    congr 1
    push_cast
    field_simp
  have hpos : (0 : K) < ((|y| : ℤ) : K) := by rw [Int.cast_abs]; exact habs
  rw [nearest_eq_iff, hdist, div_lt_iff₀ hpos, div_eq_iff hpos.ne']
  have hlt : ((|x - n * y| : ℤ) : K) < 1 / 2 * ((|y| : ℤ) : K) ↔ 2 * |x - n * y| < |y| := by
    rw [← @Int.cast_lt K]
    push_cast
    constructor <;> intro h <;> linarith
  have heq : ((|x - n * y| : ℤ) : K) = 1 / 2 * ((|y| : ℤ) : K) ↔ 2 * |x - n * y| = |y| := by
    rw [← @Int.cast_inj K]
    push_cast
    constructor <;> intro h <;> linarith
  rw [hlt, heq]

/-- The remainder of the truncated quotient has the sign of the dividend. -/
theorem tmod_bounds (hy : y ≠ 0) :
    x - x.tdiv y * y = x.tmod y ∧ (0 ≤ x → 0 ≤ x.tmod y) ∧ (x ≤ 0 → x.tmod y ≤ 0) ∧
      |x.tmod y| < |y| := by
  have hdiv := Int.tdiv_mul_add_tmod x y
  refine ⟨by omega, fun h => Int.tmod_nonneg y h, fun h => ?_, ?_⟩
  · have := Int.tmod_nonneg y (a := -x) (by omega)
    rw [Int.neg_tmod] at this
    omega
  · rw [Int.abs_eq_natAbs, Int.abs_eq_natAbs, Int.natAbs_tmod]
    have := Nat.mod_lt x.natAbs (Int.natAbs_pos.2 hy)
    omega

theorem truncate_div (hy : y ≠ 0) : truncate ((x : K) / y) = x.tdiv y := by
  obtain ⟨hmod, hpos, hneg, habs⟩ := tmod_bounds (x := x) hy
  rcases lt_or_gt_of_ne hy with h | h
  · have hK : (y : K) < 0 := by exact_mod_cast h
    have hsign : 0 ≤ (x : K) / y ↔ x ≤ 0 := by
      rw [le_div_iff_of_neg hK, zero_mul]
      exact_mod_cast Iff.rfl
    rw [abs_of_neg h, abs_lt] at habs
    by_cases hx : x ≤ 0
    · rw [truncate, if_pos (hsign.2 hx), floor_div_eq_iff hy, hmod]
      exact Or.inr ⟨h, hneg hx, by omega⟩
    · rw [truncate, if_neg (fun hc => hx (hsign.1 hc)), ceil_div_eq_iff hy, hmod]
      exact Or.inr ⟨h, hpos (by omega), by omega⟩
  · have hK : (0 : K) < y := by exact_mod_cast h
    have hsign : 0 ≤ (x : K) / y ↔ 0 ≤ x := by
      rw [le_div_iff₀ hK, zero_mul]
      exact_mod_cast Iff.rfl
    rw [abs_of_pos h, abs_lt] at habs
    by_cases hx : 0 ≤ x
    · rw [truncate, if_pos (hsign.2 hx), floor_div_eq_iff hy, hmod]
      exact Or.inl ⟨h, hpos hx, by omega⟩
    · rw [truncate, if_neg (fun hc => hx (hsign.1 hc)), ceil_div_eq_iff hy, hmod]
      exact Or.inl ⟨h, hneg (by omega), by omega⟩

/-! ### From the truncated quotient to the others -/

theorem sub_succ_mul (hmod : x - x.tdiv y * y = x.tmod y) :
    x - (x.tdiv y + 1) * y = x.tmod y - y ∧ x - (x.tdiv y - 1) * y = x.tmod y + y := by
  constructor <;> linear_combination hmod

theorem floor_div (hy : y ≠ 0) :
    ⌊(x : K) / y⌋ =
      if x.tmod y = 0 ∨ (0 ≤ x.tmod y ↔ 0 ≤ y) then x.tdiv y else x.tdiv y - 1 := by
  obtain ⟨hmod, -, -, habs⟩ := tmod_bounds (x := x) hy
  have hdown := (sub_succ_mul hmod).2
  have hbound := abs_lt.1 habs
  rw [floor_div_eq_iff hy]
  split
  · rw [hmod]
    rcases abs_cases y with ⟨h, _⟩ | ⟨h, _⟩ <;> omega
  · rw [hdown]
    rcases abs_cases y with ⟨h, _⟩ | ⟨h, _⟩ <;> omega

theorem ceil_div (hy : y ≠ 0) :
    ⌈(x : K) / y⌉ =
      if x.tmod y ≠ 0 ∧ (0 ≤ x.tmod y ↔ 0 ≤ y) then x.tdiv y + 1 else x.tdiv y := by
  obtain ⟨hmod, -, -, habs⟩ := tmod_bounds (x := x) hy
  have hup := (sub_succ_mul hmod).1
  have hbound := abs_lt.1 habs
  rw [ceil_div_eq_iff hy]
  split
  · rw [hup]
    rcases abs_cases y with ⟨h, _⟩ | ⟨h, _⟩ <;> omega
  · rw [hmod]
    rcases abs_cases y with ⟨h, _⟩ | ⟨h, _⟩ <;> omega

theorem nearest_div (hy : y ≠ 0) :
    nearest ((x : K) / y) =
      if 2 * |x.tmod y| < |y| ∨ 2 * |x.tmod y| = |y| ∧ Even (x.tdiv y) then x.tdiv y
      else if 0 < x.tmod y ↔ 0 < y then x.tdiv y + 1
      else x.tdiv y - 1 := by
  obtain ⟨hmod, -, -, habs⟩ := tmod_bounds (x := x) hy
  obtain ⟨hup, hdown⟩ := sub_succ_mul hmod
  rw [nearest_div_eq_iff hy]
  split
  · rw [hmod]
    assumption
  · rename_i hfar
    obtain ⟨hle, hodd⟩ := not_or.1 hfar
    -- on a tie the quotient is odd, and both its neighbours are even
    have htie : 2 * |x.tmod y| = |y| → Even (x.tdiv y + 1) ∧ Even (x.tdiv y - 1) := by
      intro h
      have hne : ¬ Even (x.tdiv y) := fun he => hodd ⟨h, he⟩
      exact ⟨Int.even_add_one.2 hne, Int.even_sub_one.2 hne⟩
    split
    · have hdist : |x.tmod y - y| = |y| - |x.tmod y| := by
        rcases abs_cases y with ⟨h, _⟩ | ⟨h, _⟩ <;>
          rcases abs_cases (x.tmod y) with ⟨h', _⟩ | ⟨h', _⟩ <;>
          rcases abs_cases (x.tmod y - y) with ⟨h'', _⟩ | ⟨h'', _⟩ <;> omega
      rw [hup, hdist]
      rcases eq_or_ne (2 * |x.tmod y|) |y| with h | h
      · exact Or.inr ⟨by omega, (htie h).1⟩
      · exact Or.inl (by omega)
    · have hdist : |x.tmod y + y| = |y| - |x.tmod y| := by
        rcases abs_cases y with ⟨h, _⟩ | ⟨h, _⟩ <;>
          rcases abs_cases (x.tmod y) with ⟨h', _⟩ | ⟨h', _⟩ <;>
          rcases abs_cases (x.tmod y + y) with ⟨h'', _⟩ | ⟨h'', _⟩ <;> omega
      rw [hdown, hdist]
      rcases eq_or_ne (2 * |x.tmod y|) |y| with h | h
      · exact Or.inr ⟨by omega, (htie h).2⟩
      · exact Or.inl (by omega)

end Quotient

/-- An integer is rounded to itself. -/
theorem round_intCast (m : Mode) (n : ℤ) : round m (n : K) = n := by
  cases m with
  | floor => exact Int.floor_intCast n
  | ceiling => exact Int.ceil_intCast n
  | truncate => simp [round, truncate]
  | nearest => exact (nearest_eq_iff (n : K) n).2 (Or.inl (by simp))

/-- No rounding goes as far as the next integer. -/
theorem abs_sub_round_lt_one (m : Mode) (q : K) : |q - round m q| < 1 := by
  have hfloor : |q - ⌊q⌋| < 1 := by
    rw [Int.self_sub_floor, abs_of_nonneg (Int.fract_nonneg q)]
    exact Int.fract_lt_one q
  have hceil : |q - ⌈q⌉| < 1 := by
    have hle := Int.le_ceil q
    have hlt := Int.ceil_lt_add_one q
    rw [abs_lt]
    constructor <;> linarith
  cases m with
  | floor => exact hfloor
  | ceiling => exact hceil
  | truncate =>
      change |q - truncate q| < 1
      unfold truncate
      split
      · exact hfloor
      · exact hceil
  | nearest =>
      rcases nearest_spec q with h | ⟨h, -⟩
      · exact h.trans (by norm_num)
      · exact h.trans_lt (by norm_num)

/-- The remainder of a rounded quotient is smaller than the divisor. -/
theorem abs_remainder_lt (m : Mode) {x y : ℤ} (hy : y ≠ 0) :
    |x - round m ((x : K) / y) * y| < |y| := by
  have hK : (y : K) ≠ 0 := by exact_mod_cast hy
  have hpos : (0 : K) < |(y : K)| := abs_pos.2 hK
  have hlt := mul_lt_mul_of_pos_right (abs_sub_round_lt_one m ((x : K) / y)) hpos
  rw [← abs_mul, sub_mul, div_mul_cancel₀ _ hK, one_mul] at hlt
  exact_mod_cast hlt

/-! ### Scaling by a power of two -/

theorem floor_scale_up (x : ℤ) (n : ℕ) : ⌊(x : K) * 2 ^ (n : ℤ)⌋ = x * 2 ^ n := by
  have hcast : (x : K) * 2 ^ (n : ℤ) = ((x * 2 ^ n : ℤ) : K) := by
    push_cast
    rw [zpow_natCast]
  rw [hcast, Int.floor_intCast]

theorem floor_scale_down (x : ℤ) (n : ℕ) : ⌊(x : K) * 2 ^ (-(n : ℤ))⌋ = x / 2 ^ n := by
  have hpow : (0 : ℤ) < 2 ^ n := by positivity
  have hcast : (x : K) * 2 ^ (-(n : ℤ)) = (x : K) / ((2 ^ n : ℤ) : K) := by
    rw [zpow_neg, zpow_natCast, div_eq_mul_inv]
    push_cast
    rfl
  have hmod := Int.emod_nonneg x hpow.ne'
  have hlt := Int.emod_lt_of_pos x hpow
  have hdiv := Int.emod_add_ediv_mul x (2 ^ n)
  rw [hcast, floor_div_eq_iff hpow.ne']
  exact Or.inl ⟨hpow, by omega, by omega⟩

end Rounding
