import Mathlib

/-!
# Chains of linked cells

Cells in a memory, each with an optional link to the next.  `Linked` says which
places a chain goes through; it depends on the links of those places only.
-/

namespace LinkedChain

variable {α β : Type*} {next : α → Option β} {m m' : β → α}

/-- The places of a chain, the last of which has no link. -/
def Linked (next : α → Option β) (m : β → α) : List β → Prop
  | [] => False
  | [l] => next (m l) = none
  | l :: l' :: ls => next (m l) = some l' ∧ Linked next m (l' :: ls)

/-- The places from `l` on, at most `fuel` of them. -/
def places (next : α → Option β) (m : β → α) : Nat → β → List β
  | 0, _ => []
  | fuel + 1, l =>
      match next (m l) with
      | none => [l]
      | some l' => l :: places next m fuel l'

theorem Linked.ne_nil {ls : List β} (h : Linked next m ls) : ls ≠ [] := by
  rintro rfl
  exact h

theorem Linked.congr {ls : List β} (h : Linked next m ls)
    (heq : ∀ l ∈ ls, next (m' l) = next (m l)) : Linked next m' ls := by
  induction ls with
  | nil => exact h
  | cons l ls ih =>
      cases ls with
      | nil => exact (heq l (by simp)).trans h
      | cons l' ls =>
          exact ⟨(heq l (by simp)).trans h.1,
            ih h.2 fun x hx => heq x (List.mem_cons_of_mem _ hx)⟩

/-- The last place links to a new one. -/
theorem Linked.concat {ls : List β} {last new : β} (h : Linked next m (ls ++ [last]))
    (heq : ∀ l ∈ ls, next (m' l) = next (m l)) (hlast : next (m' last) = some new)
    (hnew : next (m' new) = none) : Linked next m' (ls ++ [last, new]) := by
  induction ls with
  | nil => exact ⟨hlast, hnew⟩
  | cons l ls ih =>
      cases ls with
      | nil => exact ⟨(heq l (by simp)).trans h.1, hlast, hnew⟩
      | cons l' ls =>
          exact ⟨(heq l (by simp)).trans h.1,
            ih h.2 fun x hx => heq x (List.mem_cons_of_mem _ hx)⟩

/-- The last place has no link. -/
theorem Linked.next_last {ls : List β} {last : β} (h : Linked next m (ls ++ [last])) :
    next (m last) = none := by
  induction ls with
  | nil => exact h
  | cons l ls ih =>
      cases ls with
      | nil => exact h.2
      | cons l' ls => exact ih h.2

/-- Following the links visits the chain. -/
theorem Linked.places_eq {l : β} {ls : List β} (h : Linked next m (l :: ls)) {fuel : Nat}
    (hfuel : ls.length < fuel) : places next m fuel l = l :: ls := by
  induction ls generalizing l fuel with
  | nil =>
      obtain ⟨fuel, rfl⟩ := Nat.exists_eq_add_one_of_ne_zero (show fuel ≠ 0 by omega)
      have hl : next (m l) = none := h
      simp [places, hl]
  | cons l' ls ih =>
      obtain ⟨fuel, rfl⟩ := Nat.exists_eq_add_one_of_ne_zero (show fuel ≠ 0 by omega)
      simp only [List.length_cons] at hfuel
      have htail := ih h.2 (show ls.length < fuel by omega)
      simp [places, h.1, htail]

end LinkedChain
