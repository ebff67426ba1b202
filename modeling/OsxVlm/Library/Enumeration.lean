import Mathlib

/-!
# Enumerations

A reader is asked for one item after another, and may fail.  An invariant ties each
state to the items still to come: when one reading takes the head of them and
leaves the tail, any number of readings takes a prefix.
-/

namespace Enumeration

variable {σ β : Type*} (step : σ → Option (β × σ))

/-- What `n` readings give, and the state they leave. -/
def reads : Nat → σ → Option (List β × σ)
  | 0, s => some ([], s)
  | n + 1, s => (step s).bind fun r => (reads n r.2).map fun q => (r.1 :: q.1, q.2)

variable {step}

theorem reads_succ {n : Nat} {s s' : σ} {b : β} (h : step s = some (b, s')) :
    reads step (n + 1) s = (reads step n s').map fun q => (b :: q.1, q.2) := by
  rw [reads, h, Option.bind_some]

/-- A state that gives the same item for ever. -/
theorem reads_of_fixed {s : σ} {b : β} (h : step s = some (b, s)) (n : Nat) :
    reads step n s = some (List.replicate n b, s) := by
  induction n with
  | zero => rfl
  | succ n ih => rw [reads_succ h, ih]; rfl

/-- **Enumeration rule.**  When every reading takes the first of the items still to come,
and only `pad` comes after the last, readings take the items in order and then `pad`. -/
theorem reads_of_step {I : σ → List β → Prop} {pad : β}
    (hstep : ∀ s b bs, I s (b :: bs) → ∃ s', step s = some (b, s') ∧ I s' bs)
    (hend : ∀ s, I s [] → step s = some (pad, s)) {bs : List β} {s : σ} (h : I s bs) (n : Nat) :
    ∃ s', reads step n s = some (bs.take n ++ List.replicate (n - bs.length) pad, s') ∧
      I s' (bs.drop n) := by
  induction bs generalizing s n with
  | nil => exact ⟨s, by simpa using reads_of_fixed (hend s h) n, by simpa using h⟩
  | cons b bs ih =>
      cases n with
      | zero => exact ⟨s, by simp [reads], h⟩
      | succ n =>
          obtain ⟨t, hs, ht⟩ := hstep s b bs h
          obtain ⟨u, hu, hI⟩ := ih ht n
          exact ⟨u, by rw [reads_succ hs, hu]; simp, hI⟩

end Enumeration
