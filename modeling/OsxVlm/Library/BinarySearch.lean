import Mathlib

/-!
# Binary search

The half-open interval of places that may hold a key shrinks around its middle.  Over keys in
ascending order nothing outside the interval can be the key, so the search finds it or it is not
there.
-/

namespace BinarySearch

variable {κ : Type*} [LinearOrder κ] (key : Nat → κ) (x : κ)

/-- A place in `[lo, hi)` with the key. -/
def search (lo hi : Nat) : Option Nat :=
  if lo < hi then
    let mid := lo + (hi - lo) / 2
    if key mid < x then search (mid + 1) hi
    else if x < key mid then search lo mid
    else some mid
  else none
termination_by hi - lo

/-- The keys of the places below `n` ascend. -/
def Ascending (n : Nat) : Prop := ∀ i j, i ≤ j → j < n → key i ≤ key j

variable {key x} {lo hi n i : Nat}

theorem search_some (h : search key x lo hi = some i) : lo ≤ i ∧ i < hi ∧ key i = x := by
  fun_induction search key x lo hi with
  | case1 lo hi hlt mid hbelow ih =>
      obtain ⟨hle, hend, hkey⟩ := ih h
      exact ⟨by omega, hend, hkey⟩
  | case2 lo hi hlt mid hbelow habove ih =>
      obtain ⟨hle, hend, hkey⟩ := ih h
      exact ⟨hle, by omega, hkey⟩
  | case3 lo hi hlt mid hbelow habove =>
      obtain rfl := Option.some_inj.mp h
      exact ⟨by omega, by omega, le_antisymm (not_lt.mp habove) (not_lt.mp hbelow)⟩
  | case4 lo hi hempty => cases h

/-- A key that is there is found. -/
theorem search_isSome (h : Ascending key n) (hhi : hi ≤ n) (hlo : lo ≤ i) (hi' : i < hi)
    (hkey : key i = x) : (search key x lo hi).isSome := by
  fun_induction search key x lo hi with
  | case1 lo hi hlt mid hbelow ih =>
      apply ih hhi _ hi'
      by_contra hbefore
      have hle := h i mid (by omega) (by omega)
      rw [hkey] at hle
      exact absurd hbelow (not_lt.mpr hle)
  | case2 lo hi hlt mid hbelow habove ih =>
      apply ih (by omega) hlo
      by_contra hbehind
      have hle := h mid i (by omega) (by omega)
      rw [hkey] at hle
      exact absurd habove (not_lt.mpr hle)
  | case3 lo hi hlt mid hbelow habove => rfl
  | case4 lo hi hempty => omega

theorem search_eq_none_iff (h : Ascending key n) :
    search key x 0 n = none ↔ ∀ i < n, key i ≠ x := by
  constructor
  · intro hnone i hi hkey
    have hfound := search_isSome h le_rfl (Nat.zero_le i) hi hkey
    rw [hnone] at hfound
    cases hfound
  · intro hall
    cases hfound : search key x 0 n with
    | none => rfl
    | some i =>
        obtain ⟨-, hi, hkey⟩ := search_some hfound
        exact absurd hkey (hall i hi)

end BinarySearch
