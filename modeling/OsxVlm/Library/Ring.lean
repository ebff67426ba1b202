import Mathlib

/-!
# Positions in a ring

Element `n` of a stream stands in slot `(start + n) % size` of a ring.  Two
elements less than `size` apart stand in different slots, and the order of two
slots tells how far apart their elements are.
-/

namespace Ring

/-- The slot of element `n`. -/
def slot (size start n : Nat) : Nat := (start + n) % size

variable {size start : Nat}

theorem slot_lt (start : Nat) (hs : 0 < size) (n : Nat) : slot size start n < size := Nat.mod_lt _ hs

theorem slot_zero (h : start < size) : slot size start 0 = start := Nat.mod_eq_of_lt h

/-- Slots follow each other up to the end of the ring. -/
theorem slot_add {n k : Nat} (h : slot size start n + k < size) :
    slot size start (n + k) = slot size start n + k := by
  unfold slot at *
  rw [← Nat.add_assoc, Nat.add_mod, Nat.mod_eq_of_lt (a := k) (by omega), Nat.mod_eq_of_lt h]

/-- Behind the last slot comes the first. -/
theorem slot_add_wrap {n k : Nat} (h : slot size start n + k = size) :
    slot size start (n + k) = 0 := by
  unfold slot at *
  have hdiv := Nat.div_add_mod (start + n) size
  rw [← Nat.add_assoc]
  apply Nat.mod_eq_zero_of_dvd
  exact ⟨(start + n) / size + 1, by rw [Nat.mul_add, Nat.mul_one]; omega⟩

theorem slot_add_size (n : Nat) : slot size start (n + size) = slot size start n := by
  unfold slot
  rw [← Nat.add_assoc, Nat.add_mod_right]

/-- Two elements less than a ring apart stand in different slots. -/
theorem slot_ne {m n : Nat} (hlt : m < n) (hclose : n < m + size) :
    slot size start m ≠ slot size start n := by
  intro h
  have hmod : start + m ≡ start + n [MOD size] := h
  have hdvd := (Nat.modEq_iff_dvd' (by omega)).mp hmod
  have hle := Nat.le_of_dvd (by omega) hdvd
  omega

/-- How far two elements are apart, read off their slots. -/
theorem slot_distance (start : Nat) (hs : 0 < size) {m d : Nat} (hd : d < size) :
    slot size start (m + d) = slot size start m + d ∧ slot size start m + d < size ∨
      slot size start (m + d) + size = slot size start m + d ∧ size ≤ slot size start m + d := by
  have hm := slot_lt start hs m
  rcases Nat.lt_or_ge (slot size start m + d) size with h | h
  · exact .inl ⟨slot_add h, h⟩
  · right
    have hwrap : slot size start (m + (size - slot size start m)) = 0 := slot_add_wrap (by omega)
    have hrest : slot size start (m + (size - slot size start m) +
        (d - (size - slot size start m))) =
          slot size start (m + (size - slot size start m)) + (d - (size - slot size start m)) := by
      apply slot_add
      omega
    rw [hwrap, Nat.add_assoc, Nat.add_sub_cancel' (by omega)] at hrest
    omega

end Ring
