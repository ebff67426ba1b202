import Mathlib

/-!
# Runs that may fail

A step returns nothing where it would do something undefined.  `Guarded` says that every
step of a run met its guard in the state it found; when the guard is exactly what a step
needs from a state of the invariant, it is exactly what a run needs.
-/

namespace PartialRun

variable {σ ε : Type*} (step : σ → ε → Option σ)

/-- The state after the events, if no step failed. -/
def run : σ → List ε → Option σ
  | s, [] => some s
  | s, e :: es => (step s e).bind fun t => run t es

/-- Every event meets its guard in the state in which it comes. -/
def Guarded (G : σ → ε → Prop) : σ → List ε → Prop
  | _, [] => True
  | s, e :: es => G s e ∧ ∀ t, step s e = some t → Guarded G t es

variable {step}

@[simp] theorem run_nil (s : σ) : run step s [] = some s := rfl

theorem run_cons {s t : σ} {e : ε} {es : List ε} (h : step s e = some t) :
    run step s (e :: es) = run step t es := by
  rw [run, h, Option.bind_some]

/-- A guard that the events meet in every state. -/
theorem guarded_of_forall {G : σ → ε → Prop} {s : σ} {es : List ε} (h : ∀ e ∈ es, ∀ s, G s e) :
    Guarded step G s es := by
  induction es generalizing s with
  | nil => trivial
  | cons e es ih =>
      exact ⟨h e List.mem_cons_self s, fun _ _ => ih fun e' he' => h e' (List.mem_cons_of_mem e he')⟩

theorem run_append (s : σ) (es fs : List ε) :
    run step s (es ++ fs) = (run step s es).bind fun t => run step t fs := by
  induction es generalizing s with
  | nil => rfl
  | cons e es ih =>
      rw [List.cons_append, run, run]
      cases step s e with
      | none => rfl
      | some t => exact ih t

variable {I : σ → Prop} {A : ε → Prop} {G : σ → ε → Prop}

theorem run_invariant (hinv : ∀ s t e, I s → A e → step s e = some t → I t) {s t : σ}
    {es : List ε} (hI : I s) (hA : ∀ e ∈ es, A e) (h : run step s es = some t) : I t := by
  induction es generalizing s with
  | nil =>
      obtain rfl : s = t := Option.some.inj h
      exact hI
  | cons e es ih =>
      cases hs : step s e with
      | none => simp [run, hs] at h
      | some u =>
          rw [run_cons hs] at h
          exact ih (hinv s u e hI (hA e List.mem_cons_self) hs)
            (fun e' he' => hA e' (List.mem_cons_of_mem e he')) h

/-- What a guarded step preserves holds after a run whose steps are guarded. -/
theorem run_guarded_invariant (hinv : ∀ s t e, I s → G s e → step s e = some t → I t) {s t : σ}
    {es : List ε} (hI : I s) (hG : Guarded step G s es) (h : run step s es = some t) : I t := by
  induction es generalizing s with
  | nil =>
      obtain rfl : s = t := Option.some.inj h
      exact hI
  | cons e es ih =>
      cases hs : step s e with
      | none => simp [run, hs] at h
      | some u =>
          rw [run_cons hs] at h
          exact ih (hinv s u e hI hG.1 hs) (hG.2 u hs) h

/-- **Guard rule.**  A run goes through exactly when every step is guarded. -/
theorem run_isSome_iff (hinv : ∀ s t e, I s → A e → step s e = some t → I t)
    (hguard : ∀ s e, I s → A e → ((step s e).isSome ↔ G s e)) {s : σ} {es : List ε}
    (hI : I s) (hA : ∀ e ∈ es, A e) : (run step s es).isSome ↔ Guarded step G s es := by
  induction es generalizing s with
  | nil => simp [run, Guarded]
  | cons e es ih =>
      have hfirst := hguard s e hI (hA e List.mem_cons_self)
      cases hs : step s e with
      | none => simp [run, Guarded, hs, ← hfirst]
      | some t =>
          have hrest := ih (hinv s t e hI (hA e List.mem_cons_self) hs)
            fun e' he' => hA e' (List.mem_cons_of_mem e he')
          rw [run_cons hs, hrest, Guarded, ← hfirst, hs]
          simp

/-- A loop over independent elements, none of which fails. -/
theorem mapM_forall₂ {α β : Type*} {f : α → Option β} {P : α → β → Prop} (xs : List α)
    (h : ∀ x ∈ xs, ∃ y, f x = some y ∧ P x y) : ∃ ys, xs.mapM f = some ys ∧ xs.Forall₂ P ys := by
  induction xs with
  | nil => exact ⟨[], rfl, .nil⟩
  | cons x xs ih =>
      obtain ⟨y, hy, hP⟩ := h x List.mem_cons_self
      obtain ⟨ys, hys, hall⟩ := ih fun x' hx' => h x' (List.mem_cons_of_mem x hx')
      exact ⟨y :: ys, by simp [List.mapM_cons, hy, hys], .cons hP hall⟩

end PartialRun
