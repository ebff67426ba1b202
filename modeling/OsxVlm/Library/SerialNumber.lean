import Mathlib

/-!
# Serial numbers: counters that wrap

A `w`-bit counter that is only ever incremented wraps, so two of its values
have no absolute order.  They are compared by the sign of their difference
(`before`), which is not transitive on the whole circle but agrees with the
distance to a common later value as long as both lie in the half circle
behind it (`before_iff_behind_lt`).

`behind s x` is that distance: how many increments lead from `x` to `s`.  A
window `(lo, hi]` of serial numbers is the set of `n` with
`behind hi n < behind hi lo`, and `countUp` lists the values of the loop that
walks through it.
-/

namespace Serial

variable {w : Nat}

/-- `a` comes before `b`: the difference `a - b` is negative. -/
def before (a b : BitVec w) : Bool := (a - b).msb

/-- How many increments lead from `x` to `s`. -/
def behind (s x : BitVec w) : Nat := (s - x).toNat

@[simp] theorem behind_self (s : BitVec w) : behind s s = 0 := by
  simp [behind]

theorem behind_lt (s x : BitVec w) : behind s x < 2 ^ w :=
  (s - x).isLt

/-- Distances to one place determine the value. -/
theorem behind_inj {s x y : BitVec w} (h : behind s x = behind s y) : x = y := by
  have hsub : s - x = s - y := BitVec.eq_of_toNat_eq h
  exact sub_right_inj.mp hsub

theorem behind_eq_zero {s x : BitVec w} : behind s x = 0 ↔ x = s := by
  constructor
  · intro h
    exact behind_inj (s := s) (by rw [h, behind_self])
  · rintro rfl
    exact behind_self x

/-- Distances add up as long as the sum stays on one lap. -/
theorem behind_add {a b c : BitVec w} (h : behind a b + behind b c < 2 ^ w) :
    behind a c = behind a b + behind b c := by
  have hsum : a - c = (a - b) + (b - c) := by ring
  rw [behind, hsum, BitVec.toNat_add]
  exact Nat.mod_eq_of_lt h

/-- The value `i` places behind `s`. -/
theorem behind_sub_ofNat (s : BitVec w) {i : Nat} (hi : i < 2 ^ w) :
    behind s (s - BitVec.ofNat w i) = i := by
  rw [behind, sub_sub_self, BitVec.toNat_ofNat, Nat.mod_eq_of_lt hi]

/-- A value is found again from its distance. -/
theorem sub_ofNat_behind (s x : BitVec w) : s - BitVec.ofNat w (behind s x) = x := by
  rw [behind, BitVec.ofNat_toNat, BitVec.setWidth_eq, sub_sub_self]

/-- Incrementing the reference moves everything one place further behind. -/
theorem behind_inc {s x : BitVec w} (h : behind s x + 1 < 2 ^ w) :
    behind (s + 1#w) x = behind s x + 1 := by
  have hone : behind (s + 1#w) s = 1 := by
    rw [behind, add_sub_cancel_left, BitVec.toNat_ofNat]
    exact Nat.mod_eq_of_lt (by omega)
  rw [behind_add (b := s) (by omega), hone, Nat.add_comm]

/-- One step forward brings a value that is really behind one closer. -/
theorem behind_succ {s x : BitVec w} (h : 0 < behind s x) :
    behind s (x + 1#w) = behind s x - 1 := by
  have hlt := behind_lt s x
  have hx : x = s - BitVec.ofNat w (behind s x) := (sub_ofNat_behind s x).symm
  have hnext : x + 1#w = s - BitVec.ofNat w (behind s x - 1) := by
    conv_lhs => rw [hx, show behind s x = behind s x - 1 + 1 by omega, BitVec.ofNat_add]
    ring
  rw [hnext, behind_sub_ofNat s (by omega)]

/-- The number just after `s` is as far behind it as can be. -/
theorem behind_next (s : BitVec w) : behind s (s + 1#w) = 2 ^ w - 1 := by
  have hpos := Nat.one_le_two_pow (n := w)
  have hnext : s + 1#w = s - BitVec.ofNat w (2 ^ w - 1) := by
    have hlap : BitVec.ofNat w (2 ^ w - 1) + 1#w = 0#w := by
      rw [← BitVec.ofNat_add, Nat.sub_add_cancel hpos]
      exact BitVec.eq_of_toNat_eq (by rw [BitVec.toNat_ofNat, Nat.mod_self, BitVec.toNat_zero])
    have hneg : BitVec.ofNat w (2 ^ w - 1) = -1#w := eq_neg_of_add_eq_zero_left hlap
    rw [hneg, sub_neg_eq_add]
  rw [hnext, behind_sub_ofNat s (by omega)]

/-- The sign of a difference is its top half. -/
theorem before_iff {a b : BitVec w} :
    before a b = true ↔ 2 ^ w ≤ 2 * behind a b := by
  rw [before, BitVec.msb_eq_decide, behind]
  rcases Nat.eq_zero_or_pos w with rfl | hw
  · have := (a - b).isLt
    simp only [decide_eq_true_eq]
    omega
  · have hpow : 2 ^ w = 2 * 2 ^ (w - 1) := by
      rw [← Nat.pow_succ', Nat.succ_eq_add_one, Nat.sub_add_cancel hw]
    simp only [decide_eq_true_eq]
    omega

theorem not_before_iff {a b : BitVec w} :
    before a b = false ↔ 2 * behind a b < 2 ^ w := by
  rw [← Bool.not_eq_true, before_iff, Nat.not_le]

/-- Of two different values one comes before the other. -/
theorem eq_of_not_before {a b : BitVec w} (hab : before a b = false)
    (hba : before b a = false) : a = b := by
  rw [not_before_iff] at hab hba
  have hneg : b - a = -(a - b) := by ring
  rw [behind, hneg, BitVec.toNat_neg] at hba
  rcases Nat.eq_zero_or_pos (behind a b) with hz | hpos
  · exact (behind_eq_zero.mp hz).symm
  · have hlt := behind_lt a b
    have hmod : (2 ^ w - (a - b).toNat) % 2 ^ w = 2 ^ w - behind a b := by
      exact Nat.mod_eq_of_lt (by unfold behind at hpos; omega)
    omega

/-- **Local order.**  Among the numbers less than half a lap behind `s`, the
sign comparison is the comparison of distances. -/
theorem before_iff_behind_lt {s x y : BitVec w}
    (hx : 2 * behind s x < 2 ^ w) (hy : 2 * behind s y < 2 ^ w) :
    before x y = true ↔ behind s y < behind s x := by
  rw [before_iff]
  have hxy : x - y = (s - y) - (s - x) := by ring
  constructor
  · intro h
    by_contra hge
    have hle : (s - x) ≤ (s - y) := by
      rw [BitVec.le_def]
      exact Nat.not_lt.mp hge
    have : behind x y = behind s y - behind s x := by
      rw [behind, hxy, BitVec.toNat_sub_of_le hle]
      rfl
    omega
  · intro h
    have hlt : (s - y) < (s - x) := by
      rw [BitVec.lt_def]
      exact h
    have : behind x y = 2 ^ w - (behind s x - behind s y) := by
      rw [behind, hxy, BitVec.toNat_sub_of_lt hlt]
      rfl
    omega

/-- The values the loop `for (n = first; !(last < n); n++)` takes. -/
def countUp : Nat → BitVec w → BitVec w → List (BitVec w)
  | 0, _, _ => []
  | fuel + 1, n, last =>
      if before last n then [] else n :: countUp fuel (n + 1#w) last

/-- The loop from just after `lo` to `hi` visits exactly the window
`(lo, hi]`, provided that window is at most half a lap. -/
theorem mem_countUp (hw : 0 < w) {hi lo n : BitVec w} (hhalf : 2 * behind hi lo ≤ 2 ^ w)
    {fuel : Nat} (hfuel : behind hi lo ≤ fuel) :
    n ∈ countUp fuel (lo + 1#w) hi ↔ behind hi n < behind hi lo := by
  induction fuel generalizing lo with
  | zero => simp [countUp, Nat.le_zero.mp hfuel]
  | succ fuel ih =>
      rcases Nat.eq_zero_or_pos (behind hi lo) with hz | hpos
      · obtain rfl := behind_eq_zero.mp hz
        have hlap : 2 ≤ 2 ^ w := Nat.le_self_pow (by omega) 2
        have hnext : before lo (lo + 1#w) = true := by
          rw [before_iff, behind_next]
          omega
        simp [countUp, hnext]
      · have hsucc := behind_succ hpos
        have hgo : before hi (lo + 1#w) = false := by
          rw [not_before_iff, hsucc]
          omega
        rw [countUp, hgo, if_neg (by simp), List.mem_cons,
          ih (by omega) (by omega), hsucc]
        constructor
        · rintro (rfl | h)
          · omega
          · omega
        · intro h
          by_cases heq : n = lo + 1#w
          · exact Or.inl heq
          · refine Or.inr ?_
            have : behind hi n ≠ behind hi (lo + 1#w) := fun hb => heq (behind_inj hb)
            omega

end Serial
