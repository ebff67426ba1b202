import Mathlib

/-!
# The lexical structure of Lisp text

Which characters of a text are parentheses for the Lisp reader: strings,
`|symbols|`, single escapes, comments to the end of the line and nested block
comments, read character by character.  `#` opens a block comment only where a
token may begin; inside a token it is an ordinary character.
-/

namespace LispLexer

/-- What a character is to the reader. -/
inductive CharClass where
  | escape
  | bar
  | quote
  | semicolon
  | newline
  | opening
  | closing
  | sharp
  | digit
  /-- White space, and the macro characters that end a token and do nothing else here. -/
  | blank
  | constituent
  deriving DecidableEq

/-- Where the reader is. -/
inductive Mode where
  /-- A token may begin. -/
  | fresh
  | token
  /-- After `#` and a numeric argument. -/
  | sharp
  | escape
  | bar
  | barEscape
  | string
  | stringEscape
  | line
  /-- Inside a block comment and `outer` others; `last` was read just before. -/
  | block (outer : Nat) (last : CharClass)
  deriving DecidableEq

/-- Outside any string, symbol, escape or comment. -/
def Mode.Outside : Mode → Prop
  | .fresh | .token | .sharp => True
  | _ => False

instance : DecidablePred Mode.Outside := fun m => by
  cases m <;> unfold Mode.Outside <;> infer_instance

theorem fresh_outside : Mode.fresh.Outside := trivial

theorem token_outside : Mode.token.Outside := trivial

def Mode.next : Mode → CharClass → Mode
  | .escape, _ => .token
  | .bar, .bar => .token
  | .bar, .escape => .barEscape
  | .bar, _ => .bar
  | .barEscape, _ => .bar
  | .string, .quote => .fresh
  | .string, .escape => .stringEscape
  | .string, _ => .string
  | .stringEscape, _ => .string
  | .line, .newline => .fresh
  | .line, _ => .line
  | .block 0 .bar, .sharp => .fresh
  | .block (outer + 1) .bar, .sharp => .block outer .blank
  | .block outer .sharp, .bar => .block (outer + 1) .blank
  | .block outer _, c => .block outer c
  -- the object after a dispatching character is read afresh
  | .sharp, .bar => .block 0 .blank
  | .sharp, .digit => .sharp
  | .sharp, .sharp => .fresh
  | .sharp, .constituent => .fresh
  | .fresh, .sharp => .sharp
  | _, .escape => .escape
  | _, .semicolon => .line
  | _, .quote => .string
  | _, .bar => .bar
  | _, .opening => .fresh
  | _, .closing => .fresh
  | _, .blank => .fresh
  | _, .newline => .fresh
  | _, _ => .token

structure State where
  mode : Mode
  depth : Int
  deriving DecidableEq

/-- How a character read outside moves the parenthesis depth. -/
def CharClass.move : CharClass → Int
  | .opening => 1
  | .closing => -1
  | _ => 0

def State.step (s : State) (c : CharClass) : State :=
  { mode := s.mode.next c,
    depth := if s.mode.Outside then s.depth + c.move else s.depth }

theorem State.step_inside {s : State} (h : ¬ s.mode.Outside) (c : CharClass) :
    s.step c = { mode := s.mode.next c, depth := s.depth } := by
  unfold State.step
  rw [if_neg h]

theorem State.step_outside {s : State} (h : s.mode.Outside) (c : CharClass) :
    s.step c = { mode := s.mode.next c, depth := s.depth + c.move } := by
  unfold State.step
  rw [if_pos h]

section Reading

variable {α : Type*} (cls : α → CharClass)

def run (s : State) (x : List α) : State := x.foldl (fun s c => s.step (cls c)) s

/-- Reading `x` leads from `s` to `s'` and never below depth `b`. -/
structure Reads (b : Int) (s : State) (x : List α) (s' : State) : Prop where
  run_eq : run cls s x = s'
  above : ∀ p, p <+: x → b ≤ (run cls s p).depth

variable {cls} {b : Int} {s s' s'' : State} {x y : List α}

theorem run_append : run cls s (x ++ y) = run cls (run cls s x) y := List.foldl_append

theorem Reads.nil (h : b ≤ s.depth) : Reads cls b s [] s := by
  constructor
  · rfl
  · intro p hp
    rw [List.prefix_nil.mp hp]
    exact h

theorem Reads.cons {c : α} (h : b ≤ s.depth) (hx : Reads cls b (s.step (cls c)) x s') :
    Reads cls b s (c :: x) s' := by
  constructor
  · exact hx.run_eq
  · intro p hp
    cases p with
    | nil => exact h
    | cons a p =>
        obtain ⟨rfl, hpx⟩ := List.cons_prefix_cons.mp hp
        exact hx.above p hpx

theorem Reads.append (hx : Reads cls b s x s') (hy : Reads cls b s' y s'') :
    Reads cls b s (x ++ y) s'' := by
  constructor
  · rw [run_append, hx.run_eq, hy.run_eq]
  · intro p hp
    rcases List.prefix_or_prefix_of_prefix hp (List.prefix_append x y) with hpx | ⟨q, rfl⟩
    · exact hx.above p hpx
    · rw [run_append, hx.run_eq]
      exact hy.above q ((List.prefix_append_right_inj x).mp hp)

end Reading

end LispLexer
