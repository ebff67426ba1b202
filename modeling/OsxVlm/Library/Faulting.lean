import Mathlib

/-!
# Straight code that may fault

An instruction ends in a new state, or it faults and leaves the state in which
the fault is taken.  `Ends` is the assertion about both ends.  A loop is run with
fuel; a body that lowers a measure needs no more fuel than the measure.
-/

namespace Faulting

variable {σ ι : Type*}

/-- The ends of a run: `Q` where it completes, `F` where it faults. -/
inductive Ends (Q F : σ → Prop) : Except σ σ → Prop where
  | ok {s : σ} (h : Q s) : Ends Q F (.ok s)
  | error {s : σ} (h : F s) : Ends Q F (.error s)

/-- Two runs that complete together, in states that `R` relates. -/
def Together (R : σ → σ → Prop) : Except σ σ → Except σ σ → Prop
  | .ok s, .ok t => R s t
  | .error _, .error _ => True
  | _, _ => False

variable {P Q F Q' F' : σ → Prop} {R : σ → σ → Prop}

theorem Ends.mono {x : Except σ σ} (h : Ends Q F x) (hQ : ∀ s, Q s → Q' s)
    (hF : ∀ s, F s → F' s) : Ends Q' F' x := by
  cases h with
  | ok h => exact .ok (hQ _ h)
  | error h => exact .error (hF _ h)

theorem Ends.bind {x : Except σ σ} {f : σ → Except σ σ} (h : Ends P F x)
    (hf : ∀ s, P s → Ends Q F (f s)) : Ends Q F (x.bind f) := by
  cases h with
  | ok h => exact hf _ h
  | error h => exact .error h

/-- What both ends say fixes the outcome up to `R`. -/
theorem Ends.together {c : Prop} {x y : Except σ σ} (hx : Ends (fun s => c ∧ P s) (fun _ => ¬ c) x)
    (hy : Ends (fun s => c ∧ Q s) (fun _ => ¬ c) y) (hR : ∀ s t, P s → Q t → R s t) :
    Together R x y := by
  cases hx with
  | ok hx =>
      cases hy with
      | ok hy => exact hR _ _ hx.2 hy.2
      | error hy => exact hy hx.1
  | error hx =>
      cases hy with
      | ok hy => exact hx hy.1
      | error hy => trivial

/-! ### Lists of instructions -/

/-- The instructions, one after the other, up to the first fault. -/
def run (exec : ι → σ → Except σ σ) : List ι → σ → Except σ σ
  | [], s => .ok s
  | i :: is, s => (exec i s).bind (run exec is)

variable {exec : ι → σ → Except σ σ}

@[simp] theorem run_nil (s : σ) : run exec [] s = .ok s := rfl

@[simp] theorem run_cons (i : ι) (is : List ι) (s : σ) :
    run exec (i :: is) s = (exec i s).bind (run exec is) := rfl

theorem run_append (is js : List ι) (s : σ) :
    run exec (is ++ js) s = (run exec is s).bind (run exec js) := by
  induction is generalizing s with
  | nil => rfl
  | cons i is ih =>
      rw [List.cons_append, run_cons, run_cons]
      cases exec i s with
      | ok t => exact ih t
      | error t => rfl

/-! ### Loops -/

/-- `body` while `test`. -/
def loop (test : σ → Bool) (body : σ → Except σ σ) : Nat → σ → Option (Except σ σ)
  | 0, _ => none
  | fuel + 1, s =>
      if test s then
        match body s with
        | .ok t => loop test body fuel t
        | .error t => some (.error t)
      else some (.ok s)

/-- Both runs are short of fuel, or they end together. -/
def Abreast (R : σ → σ → Prop) : Option (Except σ σ) → Option (Except σ σ) → Prop
  | some x, some y => Together R x y
  | none, none => True
  | _, _ => False

variable {test : σ → Bool} {body body' : σ → Except σ σ}

/-- Related states stay related around the loop. -/
theorem loop_abreast (htest : ∀ s t, R s t → test s = test t)
    (hbody : ∀ s t, R s t → Together R (body s) (body' t)) (fuel : Nat) {s t : σ} (h : R s t) :
    Abreast R (loop test body fuel s) (loop test body' fuel t) := by
  induction fuel generalizing s t with
  | zero => trivial
  | succ fuel ih =>
      have hstep := hbody s t h
      rw [loop, loop, htest s t h]
      cases test t with
      | false => exact h
      | true =>
          cases hs : body s with
          | ok s' =>
              cases ht : body' t with
              | ok t' =>
                  rw [hs, ht] at hstep
                  exact ih hstep
              | error t' => simp [hs, ht, Together] at hstep
          | error s' =>
              cases ht : body' t with
              | ok t' => simp [hs, ht, Together] at hstep
              | error t' => trivial

/-- A measure that every turn lowers bounds the fuel. -/
theorem loop_isSome (measure : σ → Nat)
    (hbody : ∀ s, test s = true → Ends (fun t => measure t < measure s) (fun _ => True) (body s))
    {fuel : Nat} {s : σ} (hfuel : measure s < fuel) : (loop test body fuel s).isSome := by
  induction fuel generalizing s with
  | zero => omega
  | succ fuel ih =>
      rw [loop]
      split
      · next htest =>
          have hturn := hbody s htest
          cases hs : body s with
          | ok t =>
              rw [hs] at hturn
              cases hturn with
              | ok hlower => exact ih (by omega)
          | error t => rfl
      · rfl

end Faulting
