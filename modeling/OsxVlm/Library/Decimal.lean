import Mathlib

/-!
# Padded decimal numerals

A number in decimal, padded with zeros to a least width.  The numeral tells the
number, and ends at the first character that is no digit.
-/

namespace Decimal

def digitChar (d : Nat) : Char := Char.ofNat (48 + d)

/-- `%0<width>d`. -/
def padded (width n : Nat) : List Char :=
  List.replicate (width - (Nat.digits 10 n).length) '0' ++ (Nat.digits 10 n).reverse.map digitChar

/-- The number a list of digit characters stands for. -/
def value (cs : List Char) : Nat := Nat.ofDigits 10 (cs.reverse.map fun c => c.toNat - 48)

theorem digitChar_toNat {d : Nat} (h : d < 10) : (digitChar d).toNat - 48 = d := by
  unfold digitChar
  interval_cases d <;> rfl

theorem isDigit_digitChar {d : Nat} (h : d < 10) : (digitChar d).isDigit = true := by
  unfold digitChar
  interval_cases d <;> rfl

theorem isDigit_padded (width n : Nat) : ∀ c ∈ padded width n, c.isDigit = true := by
  intro c hc
  rcases List.mem_append.mp hc with hc | hc
  · rw [List.eq_of_mem_replicate hc]
    rfl
  · obtain ⟨d, hd, rfl⟩ := List.mem_map.mp hc
    exact isDigit_digitChar (Nat.digits_lt_base (by decide) (List.mem_reverse.mp hd))

/-- A numeral tells its number; the zeros in front do not count. -/
theorem value_padded (width n : Nat) : value (padded width n) = n := by
  have hmap : (Nat.digits 10 n).map ((fun c => c.toNat - 48) ∘ digitChar) =
      (Nat.digits 10 n).map id := by
    apply List.map_congr_left
    intro d hd
    exact digitChar_toNat (Nat.digits_lt_base (by decide) hd)
  unfold value padded
  rw [List.reverse_append, List.map_append, ← List.map_reverse, List.reverse_reverse, List.map_map,
    hmap, List.map_id, List.reverse_replicate, List.map_replicate]
  show Nat.ofDigits 10 (Nat.digits 10 n ++ List.replicate _ 0) = n
  rw [Nat.ofDigits_append_replicate_zero, Nat.ofDigits_digits]

/-- A numeral is the digits in front of what goes on with another character. -/
theorem takeWhile_padded {width n : Nat} {xs : List Char}
    (hx : ∀ c ∈ xs.head?, c.isDigit = false) :
    (padded width n ++ xs).takeWhile Char.isDigit = padded width n := by
  rw [List.takeWhile_append_of_pos (isDigit_padded width n)]
  cases xs with
  | nil => simp
  | cons c xs => simp [hx c rfl]

/-- Two texts that begin with numerals and go on with other characters. -/
theorem padded_append_inj {width m n : Nat} {xs ys : List Char}
    (hx : ∀ c ∈ xs.head?, c.isDigit = false) (hy : ∀ c ∈ ys.head?, c.isDigit = false)
    (h : padded width m ++ xs = padded width n ++ ys) : m = n ∧ xs = ys := by
  have heq : padded width m = padded width n := by
    rw [← takeWhile_padded hx, h, takeWhile_padded hy]
  have hvalue := congrArg value heq
  rw [value_padded, value_padded] at hvalue
  subst hvalue
  exact ⟨rfl, List.append_cancel_left h⟩

end Decimal
