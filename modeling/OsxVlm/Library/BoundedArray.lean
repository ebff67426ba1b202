import Mathlib

/-!
# Arrays with bounds

Loads, copies and stores that fail outside their array, in the option monad: a
program written with them returns a value only if every access it makes is within
bounds.
-/

namespace Bounded

variable {α : Type*}

/-- `p[i]` for an array given by its contents. -/
def load (p : List α) (i : Nat) : Option α := p[i]?

/-- The `n` elements from `p + i`. -/
def copyOut (p : List α) (i n : Nat) : Option (List α) :=
  if i + n ≤ p.length then some ((p.drop i).take n) else none

/-- The elements `bs` written at `p + i`. -/
def store (p : List α) (i : Nat) (bs : List α) : Option (List α) :=
  if i + bs.length ≤ p.length then some (p.take i ++ bs ++ p.drop (i + bs.length)) else none

/-- The elements `bs` written at the start of an array of `size` elements. -/
def copyInto (size : Nat) (bs : List α) : Option (List α) :=
  if bs.length ≤ size then some bs else none

/-- An index of a table of `size` entries. -/
def slot (size i : Nat) : Option (Fin size) :=
  if h : i < size then some ⟨i, h⟩ else none

/-- Some stores one after the other: where, and what. -/
def stores (p : List α) : List (Nat × List α) → Option (List α)
  | [] => some p
  | (i, bs) :: ws => do
      let p ← store p i bs
      stores p ws

theorem load_of_lt {p : List α} {i : Nat} (h : i < p.length) (d : α) :
    load p i = some (p.getD i d) := by
  rw [load, List.getElem?_eq_getElem h, List.getD_eq_getElem p d h]

theorem copyOut_of_le {p : List α} {i n : Nat} (h : i + n ≤ p.length) :
    copyOut p i n = some ((p.drop i).take n) := if_pos h

/-- A whole array. -/
theorem copyOut_zero {p : List α} {n : Nat} (h : n ≤ p.length) :
    copyOut p 0 n = some (p.take n) := by
  rw [copyOut_of_le (by omega), List.drop_zero]

theorem copyInto_of_le {bs : List α} {size : Nat} (h : bs.length ≤ size) :
    copyInto size bs = some bs := if_pos h

theorem slot_of_lt {size i : Nat} (h : i < size) : slot size i = some ⟨i, h⟩ := dif_pos h

/-- A table index in range. -/
theorem slot_val {size : Nat} (i : Fin size) : slot size i.val = some i := slot_of_lt i.isLt

/-- A store right after what is already there. -/
theorem store_next {front rest bs : List α} {i : Nat} (hi : i = front.length)
    (h : bs.length ≤ rest.length) :
    store (front ++ rest) i bs = some (front ++ bs ++ rest.drop bs.length) := by
  subst hi
  rw [store, if_pos (by rw [List.length_append]; omega), List.take_left, List.drop_append,
    List.drop_of_length_le (by omega), List.nil_append, Nat.add_sub_cancel_left]

/-- The stores fill the array from `i` on without a gap. -/
def Filling : Nat → List (Nat × List α) → Prop
  | _, [] => True
  | i, (j, bs) :: ws => j = i ∧ Filling (i + bs.length) ws

/-- What is stored. -/
def stored (ws : List (Nat × List α)) : List α := ws.flatMap Prod.snd

/-- **Filling an array.**  Stores without a gap that end within the array leave
what they stored, and then the rest of it. -/
theorem stores_filling {ws : List (Nat × List α)} (front rest : List α)
    (hws : Filling front.length ws) (h : (stored ws).length ≤ rest.length) :
    stores (front ++ rest) ws =
      some (front ++ stored ws ++ rest.drop (stored ws).length) := by
  induction ws generalizing front rest with
  | nil => simp [stores, stored]
  | cons w ws ih =>
      obtain ⟨j, bs⟩ := w
      obtain ⟨hj, hrest⟩ := hws
      have hsplit : stored ((j, bs) :: ws) = bs ++ stored ws := rfl
      rw [hsplit, List.length_append] at h
      have hnext := ih (front ++ bs) (rest.drop bs.length)
        (by rw [List.length_append]; exact hrest) (by rw [List.length_drop]; omega)
      rw [stores, store_next hj (by omega), Option.bind_eq_bind, Option.bind_some, hnext, hsplit,
        List.length_append, List.drop_drop, List.append_assoc front]

/-- A loop none of whose passes fails. -/
theorem foldlM_some {σ β : Type*} {f : σ → β → Option σ} {g : σ → β → σ} {bs : List β}
    (hstep : ∀ s, ∀ b ∈ bs, f s b = some (g s b)) (s : σ) :
    bs.foldlM f s = some (bs.foldl g s) := by
  induction bs generalizing s with
  | nil => rfl
  | cons b bs ih =>
      rw [List.foldlM_cons, hstep s b List.mem_cons_self, Option.bind_eq_bind, Option.bind_some,
        ih fun s b' hb' => hstep s b' (List.mem_cons_of_mem b hb')]
      rfl

/-- A loop over a table, each index checked. -/
theorem foldlM_slots {σ : Type} {size : Nat} {f : σ → Fin size → Option σ}
    {g : σ → Fin size → σ} (hstep : ∀ s i, f s i = some (g s i)) (s : σ) :
    (List.range size).foldlM (fun s i => do f s (← slot size i)) s =
      some ((List.finRange size).foldl g s) := by
  have hrange : List.range size = (List.finRange size).map Fin.val :=
    List.map_coe_finRange_eq_range.symm
  rw [hrange, List.foldlM_map]
  refine foldlM_some (fun s i _ => ?_) s
  rw [slot_val]
  exact hstep s i

end Bounded
