import Mathlib

/-!
# Runs of a deterministic event machine

A machine is a step function `σ → ε → σ`; a run feeds it a list of events.
`Allowed` says that every event of a run was permitted in the state it met,
so a hypothesis about the environment is stated where it applies and not
about the whole run at once.  An invariant is shown once for one step
(`run_invariant`) and then holds after every run and at every point of it.
-/

namespace Exec

variable {σ ε : Type*} (step : σ → ε → σ)

/-- The state after the events `es`. -/
def run (s : σ) (es : List ε) : σ := es.foldl step s

@[simp] theorem run_nil (s : σ) : run step s [] = s := rfl

@[simp] theorem run_cons (s : σ) (e : ε) (es : List ε) :
    run step s (e :: es) = run step (step s e) es := rfl

theorem run_append (s : σ) (es fs : List ε) :
    run step s (es ++ fs) = run step (run step s es) fs :=
  List.foldl_append

/-- The state before event `n` of the run. -/
def runTo (s : σ) (es : List ε) (n : Nat) : σ := run step s (es.take n)

/-- What the events `es` put out, one after the other. -/
def outputs {β : Type*} (out : σ → ε → List β) : σ → List ε → List β
  | _, [] => []
  | s, e :: es => out s e ++ outputs out (step s e) es

/-- Every event of the run is permitted in the state it meets. -/
def Allowed (A : σ → ε → Prop) : σ → List ε → Prop
  | _, [] => True
  | s, e :: es => A s e ∧ Allowed A (step s e) es

instance decidableAllowed {A : σ → ε → Prop} [∀ s e, Decidable (A s e)] :
    ∀ s es, Decidable (Allowed step A s es)
  | _, [] => isTrue trivial
  | s, e :: es =>
      haveI : Decidable (Allowed step A (step s e) es) := decidableAllowed (step s e) es
      inferInstanceAs (Decidable (A s e ∧ Allowed step A (step s e) es))

variable {step}

@[simp] theorem runTo_zero (s : σ) (es : List ε) : runTo step s es 0 = s := rfl

theorem runTo_succ (step : σ → ε → σ) (s : σ) {es : List ε} {n : Nat} {e : ε}
    (he : es[n]? = some e) :
    runTo step s es (n + 1) = step (runTo step s es n) e := by
  rw [runTo, List.take_add_one, run_append, he]
  rfl

theorem runTo_length (s : σ) (es : List ε) : runTo step s es es.length = run step s es := by
  rw [runTo, List.take_length]

theorem runTo_of_length_le {s : σ} {es : List ε} {n : Nat} (h : es.length ≤ n) :
    runTo step s es n = run step s es := by
  rw [runTo, List.take_of_length_le h]

/-- The run goes on from the state before event `n`. -/
theorem run_drop (s : σ) (es : List ε) (n : Nat) :
    run step (runTo step s es n) (es.drop n) = run step s es := by
  rw [runTo, ← run_append, List.take_append_drop]

theorem runTo_drop (s : σ) (es : List ε) {m n : Nat} (h : m ≤ n) :
    run step (runTo step s es m) ((es.drop m).take (n - m)) = runTo step s es n := by
  rw [runTo, ← run_append, ← List.take_add, Nat.add_sub_cancel' h, runTo]

theorem outputs_append {β : Type*} (out : σ → ε → List β) (s : σ) (es fs : List ε) :
    outputs step out s (es ++ fs) = outputs step out s es ++
      outputs step out (run step s es) fs := by
  induction es generalizing s with
  | nil => rfl
  | cons e es ih => simp [outputs, ih]

theorem allowed_append {A : σ → ε → Prop} {s : σ} {es fs : List ε} :
    Allowed step A s (es ++ fs) ↔
      Allowed step A s es ∧ Allowed step A (run step s es) fs := by
  induction es generalizing s with
  | nil => simp [Allowed]
  | cons e es ih => simp [Allowed, ih, and_assoc]

/-- A condition on the events alone is met along the whole run. -/
theorem allowed_of_forall {A : σ → ε → Prop} {es : List ε} (hok : ∀ e ∈ es, ∀ s, A s e) {s : σ} :
    Allowed step A s es := by
  induction es generalizing s with
  | nil => trivial
  | cons e es ih =>
      exact ⟨hok e List.mem_cons_self s, ih fun e' he' => hok e' (List.mem_cons_of_mem e he')⟩

theorem Allowed.take {A : σ → ε → Prop} {s : σ} {es : List ε} (h : Allowed step A s es)
    (n : Nat) : Allowed step A s (es.take n) := by
  rw [← List.take_append_drop n es, allowed_append] at h
  exact h.1

/-- What every output satisfies is met step by step. -/
theorem forall_outputs_iff {β : Type*} {out : σ → ε → List β} {P : β → Prop} {s : σ} {es : List ε} :
    (∀ b ∈ outputs step out s es, P b) ↔ Allowed step (fun s e => ∀ b ∈ out s e, P b) s es := by
  induction es generalizing s with
  | nil => simp [outputs, Allowed]
  | cons e es ih => simp [outputs, Allowed, or_imp, forall_and, ih]

theorem allowed_congr {A A' : σ → ε → Prop} (hiff : ∀ s e, A s e ↔ A' s e) {s : σ} {es : List ε} :
    Allowed step A s es ↔ Allowed step A' s es := by
  induction es generalizing s with
  | nil => exact Iff.rfl
  | cons e es ih => exact and_congr (hiff s e) ih

/-- What is allowed holds of each event in the state it meets. -/
theorem Allowed.get {A : σ → ε → Prop} {s : σ} {es : List ε} (h : Allowed step A s es)
    {n : Nat} {e : ε} (he : es[n]? = some e) : A (runTo step s es n) e := by
  induction es generalizing s n with
  | nil => cases he
  | cons e' es ih =>
      cases n with
      | zero =>
          obtain rfl : e' = e := Option.some.inj he
          exact h.1
      | succ n => exact ih h.2 he

theorem Allowed.mono {A A' : σ → ε → Prop} (himp : ∀ s e, A s e → A' s e)
    {s : σ} {es : List ε} (h : Allowed step A s es) : Allowed step A' s es := by
  induction es generalizing s with
  | nil => trivial
  | cons e es ih => exact ⟨himp s e h.1, ih h.2⟩

/-- An accumulating property of state and output is shown for one step. -/
theorem outputs_invariant {β : Type*} {out : σ → ε → List β} {A : σ → ε → Prop}
    {I : σ → List β → Prop} (hstep : ∀ s e bs, A s e → I s bs → I (step s e) (bs ++ out s e))
    {s : σ} {es : List ε} {bs : List β} (hok : Allowed step A s es) (hinv : I s bs) :
    I (run step s es) (bs ++ outputs step out s es) := by
  induction es generalizing s bs with
  | nil => simpa [outputs] using hinv
  | cons e es ih =>
      have := ih hok.2 (hstep s e bs hok.1 hinv)
      simpa [outputs, List.append_assoc] using this

/-- **Invariant rule.**  What holds at the start and is preserved by every
permitted step holds after the run. -/
theorem run_invariant {A : σ → ε → Prop} {I : σ → Prop}
    (hstep : ∀ s e, A s e → I s → I (step s e))
    {s : σ} {es : List ε} (hok : Allowed step A s es) (hinv : I s) :
    I (run step s es) := by
  induction es generalizing s with
  | nil => exact hinv
  | cons e es ih => exact ih hok.2 (hstep s e hok.1 hinv)

end Exec
