import Mathlib

/-!
# Two machines in lockstep

A machine is a step that returns nothing where it halts.  A relation that each step of two
machines keeps, as long as their states are good, holds after every number of steps; so
what is observed of their runs is the same.
-/

namespace Simulation

variable {α β ω : Type*}

/-- The state after `n` steps, if the machine has not halted. -/
def after (step : α → Option α) : Nat → α → Option α
  | 0, a => some a
  | n + 1, a => (step a).bind (after step n)

variable {step : α → Option α} {step' : β → Option β} {R : α → β → Prop}
  {good : α → Prop} {good' : β → Prop}

@[simp] theorem after_zero (a : α) : after step 0 a = some a := rfl

theorem after_succ {a a' : α} (h : step a = some a') (n : Nat) :
    after step (n + 1) a = after step n a' := by
  rw [after, h, Option.bind_some]

/-- An invariant of one step is one of every run. -/
theorem after_invariant {I : α → Prop} (hinv : ∀ a a', I a → step a = some a' → I a') {n : Nat}
    {a b : α} (h : I a) (hafter : after step n a = some b) : I b := by
  induction n generalizing a with
  | zero =>
      obtain rfl : a = b := Option.some.inj hafter
      exact h
  | succ n ih =>
      cases ha : step a with
      | none => simp [after, ha] at hafter
      | some a' => exact ih (hinv a a' h ha) ((after_succ ha n).symm.trans hafter)

/-- **Lockstep rule.**  Good states that are related step to related ones. -/
theorem related_after
    (hstep : ∀ a b, R a b → good a → good' b → Option.Rel R (step a) (step' b))
    {a : α} {b : β} (h : R a b) (hgood : ∀ n a', after step n a = some a' → good a')
    (hgood' : ∀ n b', after step' n b = some b' → good' b') (n : Nat) :
    Option.Rel R (after step n a) (after step' n b) := by
  induction n generalizing a b with
  | zero => exact .some h
  | succ n ih =>
      have hnext := hstep a b h (hgood 0 a rfl) (hgood' 0 b rfl)
      cases ha : step a with
      | none =>
          cases hb : step' b with
          | none =>
              rw [after, after, ha, hb]
              exact .none
          | some b' =>
              rw [ha, hb] at hnext
              cases hnext
      | some a' =>
          cases hb : step' b with
          | none =>
              rw [ha, hb] at hnext
              cases hnext
          | some b' =>
              rw [ha, hb] at hnext
              cases hnext with
              | some hrel =>
                  rw [after_succ ha, after_succ hb]
                  refine ih hrel (fun m a'' hm => ?_) (fun m b'' hm => ?_)
                  · exact hgood (m + 1) a'' ((after_succ ha m).trans hm)
                  · exact hgood' (m + 1) b'' ((after_succ hb m).trans hm)

/-- What two machines in lockstep let observe is the same. -/
theorem observed_after {out : α → ω} {out' : β → ω}
    (hstep : ∀ a b, R a b → good a → good' b → Option.Rel R (step a) (step' b))
    (hout : ∀ a b, R a b → good a → good' b → out a = out' b)
    {a : α} {b : β} (h : R a b) (hgood : ∀ n a', after step n a = some a' → good a')
    (hgood' : ∀ n b', after step' n b = some b' → good' b') (n : Nat) :
    (after step n a).map out = (after step' n b).map out' := by
  have hrel := related_after hstep h hgood hgood' n
  cases ha : after step n a with
  | none =>
      rw [ha] at hrel
      cases hb : after step' n b with
      | none => rfl
      | some b' =>
          rw [hb] at hrel
          cases hrel
  | some a' =>
      rw [ha] at hrel
      cases hb : after step' n b with
      | none =>
          rw [hb] at hrel
          cases hrel
      | some b' =>
          rw [hb] at hrel
          cases hrel with
          | some hab => exact congrArg some (hout a' b' hab (hgood n a' ha) (hgood' n b' hb))

end Simulation
