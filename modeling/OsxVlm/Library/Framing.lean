import Mathlib

/-!
# Streams made of whole items

A stream is framed when it is the items of a list, one after the other, each
written out in full.  Writers that only ever append whole items keep a stream
framed, whatever they choose to append.
-/

namespace Framing

variable {ι α β : Type*} {item : ι → List α}

/-- The list is a sequence of whole items. -/
def Framed (item : ι → List α) (l : List α) : Prop :=
  ∃ items : List ι, l = items.flatMap item

theorem Framed.nil : Framed item [] := ⟨[], rfl⟩

theorem Framed.one (i : ι) : Framed item (item i) := ⟨[i], by simp⟩

theorem Framed.append {l m : List α} (hl : Framed item l) (hm : Framed item m) :
    Framed item (l ++ m) := by
  obtain ⟨xs, rfl⟩ := hl
  obtain ⟨ys, rfl⟩ := hm
  exact ⟨xs ++ ys, by simp⟩

/-- What is written for each element of a list. -/
theorem Framed.flatMap {f : β → List α} {xs : List β} (h : ∀ x ∈ xs, Framed item (f x)) :
    Framed item (xs.flatMap f) := by
  induction xs with
  | nil => exact Framed.nil
  | cons x xs ih =>
      have hx := h x (by simp)
      have hxs := ih fun y hy => h y (by simp [hy])
      simpa using hx.append hxs

/-- What a table has for a key, and nothing for a key that it does not have. -/
theorem Framed.lookup [BEq β] {table : List (β × List α)}
    (h : ∀ e ∈ table, Framed item e.2) (k : β) : Framed item ((table.lookup k).getD []) := by
  induction table with
  | nil => exact Framed.nil
  | cons e table ih =>
      obtain ⟨key, out⟩ := e
      rw [List.lookup_cons]
      split
      · exact h (key, out) (by simp)
      · exact ih fun e he => h e (by simp [he])

/-- What holds of the elements of every item holds of those of a framed list. -/
theorem Framed.forall_mem {p : α → Prop} {l : List α} (hl : Framed item l)
    (h : ∀ i, ∀ a ∈ item i, p a) : ∀ a ∈ l, p a := by
  obtain ⟨items, rfl⟩ := hl
  intro a ha
  obtain ⟨i, -, hi⟩ := List.mem_flatMap.mp ha
  exact h i a hi

end Framing
