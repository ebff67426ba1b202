import Mathlib

/-!
# Fields of machine words

Facts on words that are put together and taken apart with shifts and masks.
-/

namespace BitFields

/-- A mask after a shift is the shifted mask before it. -/
theorem shiftLeft_and {w : Nat} (x m : BitVec w) (k : Nat) :
    x <<< k &&& m = (x &&& m >>> k) <<< k := by
  ext i hi
  by_cases h : i < k
  · simp [h]
  · have hk : k + (i - k) = i := by omega
    simp [BitVec.getElem_and, h, hk, hi]

/-- A mask of the low bits takes a remainder. -/
theorem toNat_and_mask {w k : Nat} (x : BitVec w) (h : k ≤ w) :
    (x &&& BitVec.ofNat w (2 ^ k - 1)).toNat = x.toNat % 2 ^ k := by
  have hlt : 2 ^ k - 1 < 2 ^ w := by
    have := Nat.pow_le_pow_right (n := 2) (by decide) h
    have := Nat.two_pow_pos k
    omega
  rw [BitVec.toNat_and, BitVec.toNat_ofNat, Nat.mod_eq_of_lt hlt, Nat.and_two_pow_sub_one_eq_mod]

/-- Without the carries of the sum. -/
theorem or_le_add (a b : ℕ) : a ||| b ≤ a + b := by
  induction a using Nat.strongRecOn generalizing b with
  | ind a ih =>
    by_cases h : a = 0
    · simp [h]
    · have hhalf := ih (a / 2) (by omega) (b / 2)
      have hdiv : (a ||| b) / 2 = a / 2 ||| b / 2 := Nat.or_div_two
      have hmod : (a ||| b) % 2 ≤ a % 2 + b % 2 := by
        have hiff := @Nat.or_mod_two_eq_one a b
        omega
      omega

/-! ### Reading and writing a field -/

section Fields

variable {w size pos size' pos' : Nat} (x field background : BitVec w)

/-- The bits from `pos` on that the mask keeps. -/
def extract (mask : BitVec w) (pos : Nat) (x : BitVec w) : BitVec w := (x >>> pos) &&& mask

/-- The field in place of the bits that the mask covers from `pos` on. -/
def deposit (field mask : BitVec w) (pos : Nat) (background : BitVec w) : BitVec w :=
  ((field &&& mask) <<< pos) ||| (background &&& ~~~(mask <<< pos))

/-- The lowest bits. -/
def low (w size : Nat) : BitVec w := BitVec.ofNat w (2 ^ size - 1)

@[simp] theorem getLsbD_low (k : Nat) :
    (low w size).getLsbD k = (decide (k < w) && decide (k < size)) := by
  rw [low, BitVec.getLsbD_ofNat, Nat.testBit_two_pow_sub_one]

@[simp] theorem getElem_low {k : Nat} (h : k < w) : (low w size)[k] = decide (k < size) := by
  rw [← BitVec.getLsbD_eq_getElem, getLsbD_low]
  simp [h]

theorem getLsbD_extract (k : Nat) :
    (extract (low w size) pos x).getLsbD k = (decide (k < size) && x.getLsbD (pos + k)) := by
  by_cases h : k < w
  · simp [extract, h, Bool.and_comm]
  · have hout : x.getLsbD (pos + k) = false := BitVec.getLsbD_of_ge _ _ (by omega)
    simp [extract, h, hout]

/-- A bit of a word is the field's where the field lies, and the old one elsewhere. -/
theorem getLsbD_deposit {k : Nat} (h : k < w) :
    (deposit field (low w size) pos background).getLsbD k =
      if pos ≤ k ∧ k < pos + size then field.getLsbD (k - pos) else background.getLsbD k := by
  unfold deposit
  by_cases hpos : pos ≤ k
  · by_cases hsize : k < pos + size
    · have hk : k - pos < size := by omega
      simp [h, hpos, hsize, hk, show ¬ k < pos by omega, show k - pos < w by omega]
    · have hk : ¬ k - pos < size := by omega
      simp [h, hpos, hsize, hk, show ¬ k < pos by omega]
  · simp [h, hpos, show k < pos by omega]

/-- What was written to a field is read from it. -/
theorem extract_deposit_self (h : pos + size ≤ w) :
    extract (low w size) pos (deposit field (low w size) pos background) = field &&& low w size := by
  apply BitVec.eq_of_getLsbD_eq
  intro k hk
  rw [getLsbD_extract, BitVec.getLsbD_and, getLsbD_low]
  by_cases hsize : k < size
  · rw [getLsbD_deposit _ _ (by omega), if_pos (by omega), Nat.add_sub_cancel_left]
    simp [hk, hsize]
  · simp [hsize]

/-- A field that lies apart is not changed. -/
theorem extract_deposit_of_apart (h : pos + size ≤ w)
    (hapart : pos + size ≤ pos' ∨ pos' + size' ≤ pos) :
    extract (low w size) pos (deposit field (low w size') pos' background) =
      extract (low w size) pos background := by
  apply BitVec.eq_of_getLsbD_eq
  intro k _
  rw [getLsbD_extract, getLsbD_extract]
  by_cases hsize : k < size
  · rw [getLsbD_deposit _ _ (by omega), if_neg (by omega)]
  · simp [hsize]

theorem toNat_and_low (h : size ≤ w) : (x &&& low w size).toNat = x.toNat % 2 ^ size :=
  toNat_and_mask x h

/-- A value that fits is not changed by the mask. -/
theorem and_low_of_lt (h : size ≤ w) (hx : x.toNat < 2 ^ size) : x &&& low w size = x := by
  apply BitVec.eq_of_toNat_eq
  rw [toNat_and_low x h, Nat.mod_eq_of_lt hx]

/-- A field is inserted where the word was rotated to and is rotated back from. -/
theorem deposit_eq_rotate (mask : BitVec w) (h : pos ≤ w) :
    deposit field mask pos background =
      background <<< (w - pos) >>> (w - pos) |||
        (field &&& mask ||| ~~~mask &&& background >>> pos) <<< pos := by
  apply BitVec.eq_of_getLsbD_eq
  intro k hk
  unfold deposit
  by_cases hpos : k < pos
  · simp [hk, hpos, show ¬ (w - pos + k < w - pos) by omega, show w - pos + k < w by omega]
  · simp [hk, hpos, show ¬ w - pos + k < w by omega, show pos + (k - pos) = k by omega,
      Bool.and_comm]

/-- A field that lies in the low part of a longer word. -/
theorem setWidth_deposit {v : Nat} (y : BitVec v) (hv : w ≤ v) (h : pos + size ≤ w) :
    (deposit y (low v size) pos (background.setWidth v)).setWidth w =
      deposit (y.setWidth w) (low w size) pos background := by
  apply BitVec.eq_of_getLsbD_eq
  intro k hk
  rw [BitVec.getLsbD_setWidth, getLsbD_deposit _ _ (by omega), getLsbD_deposit _ _ hk]
  by_cases hin : pos ≤ k ∧ k < pos + size
  · rw [if_pos hin, if_pos hin]
    simp [hk, show k - pos < w by omega]
  · rw [if_neg hin, if_neg hin]
    simp [hk, show k < v by omega]

end Fields

end BitFields
