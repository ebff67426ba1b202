import Mathlib
import OsxVlm.Library.LispLexer
import OsxVlm.Remote.EvalReply

/-!
# Checking a form before it is spliced into the wrapper

`checkForm` scans a form for its parentheses with rules of its own; the Lisp
reader has others.  Where the two agree on which comment and symbol begins
where (`Plain`), a form that passes leaves the wrapper intact exactly if it
does not end inside a line comment or after a lone escape (`Finished`).
-/

namespace Rsh

open Substring LispLexer

def backslash : UInt16 := 92
def semicolon : UInt16 := 59
def sharp : UInt16 := 35
def bar : UInt16 := 124
def doubleQuote : UInt16 := 34
def openParen : UInt16 := 40
def closeParen : UInt16 := 41

/-- Where the quote `q` is closed: a backslash hides the character after it. -/
def closing (q : UInt16) : JsString → Option Nat
  | [] => none
  | [a] => if a = q then some 0 else none
  | a :: b :: t =>
      if a = q then some 0
      else if a = backslash then (closing q t).map (· + 2)
      else (closing q (b :: t)).map (· + 1)

/-- The characters before the newline. -/
def lineLength (t : JsString) : Nat := (t.takeWhile (· ≠ newline)).length

/-- The scan of `checkForm`; `skip` characters were passed over by moving the
index. -/
def checkLoop : JsString → Nat → Nat → Bool → Option JsString
  | [], _, depth, sawAny =>
      if ¬ sawAny then some (js "empty form")
      else if depth > 0 then
        some (js ("unbalanced parentheses: " ++ toString depth ++ " unclosed '('"))
      else none
  | _ :: t, skip + 1, depth, sawAny => checkLoop t skip depth sawAny
  | c :: t, 0, depth, sawAny =>
      if c = backslash then checkLoop t 1 depth true
      else if c = semicolon then checkLoop t (lineLength t + 1) depth sawAny
      else if c = sharp ∧ t.head? = some bar then
        match indexOf [bar, sharp] (t.drop 1) with
        | none => some (js "unterminated #| comment")
        | some e => checkLoop t (e + 3) depth sawAny
      else if c = doubleQuote ∨ c = bar then
        match closing c t with
        | none => some (js "unterminated " ++ [c])
        | some j => checkLoop t (j + 1) depth true
      else if c = openParen then checkLoop t 0 (depth + 1) true
      else if c = closeParen then
        if depth = 0 then some (js "unbalanced parentheses: an extra ')'")
        else checkLoop t 0 (depth - 1) sawAny
      else checkLoop t 0 depth (sawAny || !isSpace c)

/-- What is wrong with the parentheses of a form, if anything. -/
def checkForm (form : JsString) : Option JsString := checkLoop form 0 0 false

/-- A character as the Lisp reader classes it. -/
def classify (c : UInt16) : CharClass :=
  if c = backslash then .escape
  else if c = bar then .bar
  else if c = doubleQuote then .quote
  else if c = semicolon then .semicolon
  else if c = newline then .newline
  else if c = openParen then .opening
  else if c = closeParen then .closing
  else if c = sharp then .sharp
  else if 48 ≤ c ∧ c ≤ 57 then .digit
  else if c = 9 ∨ c = 12 ∨ c = 13 ∨ c = 32 ∨ c = 127 ∨ c = 39 ∨ c = 96 ∨ c = 44 then .blank
  else .constituent

/-- The wrapper up to the place of the form. -/
def wrapperHead : JsString :=
  js "(conditions:handler-case (cl:let ((v (cl:multiple-value-list "

/-- The reader where the form begins. -/
def atForm : State := run classify { mode := .fresh, depth := 0 } wrapperHead

/-- The form's characters never close a parenthesis of the wrapper and end
outside any string, symbol, escape or comment with none of their own open. -/
structure Intact (form : JsString) : Prop where
  above : ∀ p, p <+: form → atForm.depth ≤ (run classify atForm p).depth
  outside : (run classify atForm form).mode.Outside
  balanced : (run classify atForm form).depth = atForm.depth

/-! ### Where the scan and the reader agree -/

/-- As the scan meets them: a `#|` stands where a token may begin and has no
other before its `|#`, and a `|` does not follow `#` and digits.  `m` is the
reader's place among the tokens. -/
def Plain : Mode → JsString → Nat → Prop
  | _, [], _ => True
  | m, _ :: t, skip + 1 => Plain m t skip
  | m, c :: t, 0 =>
      if c = backslash then Plain .token t 1
      else if c = semicolon then Plain .fresh t (lineLength t + 1)
      else if c = sharp ∧ t.head? = some bar then
        match indexOf [bar, sharp] (t.drop 1) with
        | none => True
        | some e =>
            m = .fresh ∧ ¬ [sharp, bar] <:+: (t.drop 1).take (e + 1) ∧ Plain .fresh t (e + 3)
      else if c = doubleQuote ∨ c = bar then
        match closing c t with
        | none => True
        | some j =>
            (c = bar → m ≠ .sharp) ∧ Plain (if c = bar then .token else .fresh) t (j + 1)
      else Plain (m.next (classify c)) t 0

/-- The form ends neither inside a line comment nor after a lone backslash. -/
def Finished : JsString → Nat → Prop
  | [], _ => True
  | _ :: t, skip + 1 => Finished t skip
  | c :: t, 0 =>
      if c = backslash then t ≠ [] ∧ Finished t 1
      else if c = semicolon then newline ∈ t ∧ Finished t (lineLength t + 1)
      else if c = sharp ∧ t.head? = some bar then
        match indexOf [bar, sharp] (t.drop 1) with
        | none => True
        | some e => Finished t (e + 3)
      else if c = doubleQuote ∨ c = bar then
        match closing c t with
        | none => True
        | some j => Finished t (j + 1)
      else Finished t 0

theorem checkLoop_skip (t : JsString) (skip depth : Nat) (sawAny : Bool) :
    checkLoop t skip depth sawAny = checkLoop (t.drop skip) 0 depth sawAny := by
  induction t generalizing skip with
  | nil =>
      rw [List.drop_nil]
      rfl
  | cons c t ih =>
      cases skip with
      | zero => rfl
      | succ skip => exact ih skip

theorem plain_skip (m : Mode) (t : JsString) (skip : Nat) :
    Plain m t skip ↔ Plain m (t.drop skip) 0 := by
  induction t generalizing skip with
  | nil =>
      rw [List.drop_nil]
      rfl
  | cons c t ih =>
      cases skip with
      | zero => rfl
      | succ skip => exact ih skip

theorem finished_skip (t : JsString) (skip : Nat) :
    Finished t skip ↔ Finished (t.drop skip) 0 := by
  induction t generalizing skip with
  | nil =>
      rw [List.drop_nil]
      rfl
  | cons c t ih =>
      cases skip with
      | zero => rfl
      | succ skip => exact ih skip

/-! ### Reading one piece -/

section Piece

variable {b d : Int}

/-- A character read inside a string, symbol, escape or comment moves no depth. -/
theorem reads_inside {m : Mode} {c : UInt16} {t : JsString} {s' : State} (hm : ¬ m.Outside)
    (hd : b ≤ d) (ht : Reads classify b ⟨m.next (classify c), d⟩ t s') :
    Reads classify b ⟨m, d⟩ (c :: t) s' := by
  apply Reads.cons hd
  rw [State.step_inside hm]
  exact ht

/-- A character read outside that is no parenthesis. -/
theorem reads_outside {m : Mode} {k : CharClass} {c : UInt16} {t : JsString} {s' : State}
    (hm : m.Outside) (hd : b ≤ d) (hc : classify c = k) (hmove : k.move = 0)
    (ht : Reads classify b ⟨m.next k, d⟩ t s') : Reads classify b ⟨m, d⟩ (c :: t) s' := by
  apply Reads.cons hd
  rw [State.step_outside hm, hc, hmove, add_zero]
  exact ht

/-- The character that alone has a class. -/
def charOf : CharClass → Option UInt16
  | .escape => some backslash
  | .bar => some bar
  | .quote => some doubleQuote
  | .semicolon => some semicolon
  | .newline => some newline
  | .opening => some openParen
  | .closing => some closeParen
  | .sharp => some sharp
  | _ => none

theorem charOf_classify (c : UInt16) : ∀ a, charOf (classify c) = some a → c = a := by
  unfold classify
  split_ifs with h1 h2 h3 h4 h5 h6 h7 h8
  · exact fun a ha => h1.trans (Option.some_inj.mp ha)
  · exact fun a ha => h2.trans (Option.some_inj.mp ha)
  · exact fun a ha => h3.trans (Option.some_inj.mp ha)
  · exact fun a ha => h4.trans (Option.some_inj.mp ha)
  · exact fun a ha => h5.trans (Option.some_inj.mp ha)
  · exact fun a ha => h6.trans (Option.some_inj.mp ha)
  · exact fun a ha => h7.trans (Option.some_inj.mp ha)
  · exact fun a ha => h8.trans (Option.some_inj.mp ha)
  all_goals nofun

theorem classify_charOf {k : CharClass} {a : UInt16} (h : charOf k = some a) : classify a = k := by
  cases k <;> cases h <;> rfl

theorem classify_iff {k : CharClass} {a c : UInt16} (h : charOf k = some a) :
    classify c = k ↔ c = a := by
  constructor
  · rintro rfl
    exact charOf_classify c a h
  · rintro rfl
    exact classify_charOf h

theorem next_line {c : UInt16} (hc : c ≠ newline) : Mode.line.next (classify c) = .line := by
  have hne : classify c ≠ .newline := fun h => hc ((classify_iff rfl).mp h)
  cases hcls : classify c <;> first | rfl | exact absurd hcls hne

theorem next_string {c : UInt16} (hq : c ≠ doubleQuote) (he : c ≠ backslash) :
    Mode.string.next (classify c) = .string := by
  have hquote : classify c ≠ .quote := fun h => hq ((classify_iff rfl).mp h)
  have hescape : classify c ≠ .escape := fun h => he ((classify_iff rfl).mp h)
  cases hcls : classify c <;>
    first | rfl | exact absurd hcls hquote | exact absurd hcls hescape

theorem next_bar {c : UInt16} (hb : c ≠ bar) (he : c ≠ backslash) :
    Mode.bar.next (classify c) = .bar := by
  have hbar : classify c ≠ .bar := fun h => hb ((classify_iff rfl).mp h)
  have hescape : classify c ≠ .escape := fun h => he ((classify_iff rfl).mp h)
  cases hcls : classify c <;>
    first | rfl | exact absurd hcls hbar | exact absurd hcls hescape

theorem next_block {p k : CharClass} (hbar : p = .bar → k ≠ .sharp)
    (hsharp : p = .sharp → k ≠ .bar) : Mode.next (.block 0 p) k = .block 0 k := by
  cases p <;> cases k <;>
    first | rfl | exact absurd rfl (hbar rfl) | exact absurd rfl (hsharp rfl)

theorem reads_line {t : JsString} (ht : newline ∉ t) (hd : b ≤ d) :
    Reads classify b ⟨.line, d⟩ t ⟨.line, d⟩ := by
  induction t with
  | nil => exact Reads.nil hd
  | cons c t ih =>
      rw [List.mem_cons, not_or] at ht
      apply reads_inside (by decide) hd
      rw [next_line (Ne.symm ht.1)]
      exact ih ht.2

theorem drop_lineLength {t : JsString} (ht : newline ∉ t) : t.drop (lineLength t + 1) = [] := by
  unfold lineLength
  rw [List.takeWhile_eq_self_iff.mpr]
  · exact List.drop_eq_nil_of_le (Nat.le_succ _)
  · intro c hc
    apply decide_eq_true
    rintro rfl
    exact ht hc

theorem reads_line_end {t : JsString} (ht : newline ∈ t) (hd : b ≤ d) :
    Reads classify b ⟨.line, d⟩ (t.take (lineLength t + 1)) ⟨.fresh, d⟩ := by
  induction t with
  | nil => cases ht
  | cons c t ih =>
      by_cases hc : c = newline
      · have hlen : lineLength (c :: t) = 0 := by
          unfold lineLength
          rw [List.takeWhile_cons_of_neg (by simpa using hc)]
          rfl
        rw [hlen, hc]
        exact reads_inside (by decide) hd (Reads.nil hd)
      · have hlen : lineLength (c :: t) = lineLength t + 1 := by
          unfold lineLength
          rw [List.takeWhile_cons_of_pos (by simpa using hc), List.length_cons]
        rw [hlen, List.take_succ_cons]
        apply reads_inside (by decide) hd
        rw [next_line hc]
        exact ih ((List.mem_cons.mp ht).resolve_left (Ne.symm hc))

/-- A quoted text is read to its closing quote; `m` is the reader's mode inside
it, `e` after a backslash there and `after` behind it. -/
theorem reads_closing {q : UInt16} {m e after : Mode} (hm : ¬ m.Outside)
    (he : ¬ e.Outside) (hclose : m.next (classify q) = after)
    (hescape : m.next (classify backslash) = e) (hback : ∀ k, e.next k = m)
    (hkeep : ∀ c, c ≠ q → c ≠ backslash → m.next (classify c) = m) (hd : b ≤ d)
    {t : JsString} {j : Nat} (h : closing q t = some j) :
    Reads classify b ⟨m, d⟩ (t.take (j + 1)) ⟨after, d⟩ := by
  fun_induction closing q t generalizing j with
  | case1 => cases h
  | case2 =>
      cases h
      apply reads_inside hm hd
      rw [hclose]
      exact Reads.nil hd
  | case3 => cases h
  | case4 =>
      cases h
      apply reads_inside hm hd
      rw [hclose]
      exact Reads.nil hd
  | case5 b' t hne ih =>
      obtain ⟨n, hn, rfl⟩ := Option.map_eq_some_iff.mp h
      apply reads_inside hm hd
      rw [hescape]
      apply reads_inside he hd
      rw [hback]
      exact ih hn
  | case6 a b' t hne hnb ih =>
      obtain ⟨n, hn, rfl⟩ := Option.map_eq_some_iff.mp h
      apply reads_inside hm hd
      rw [hkeep _ hne hnb]
      exact ih hn

/-- A block comment without another inside is read to its first `|#`. -/
theorem reads_block {u : JsString} {e : Nat} {p : CharClass} (hat : OccursAt [bar, sharp] u e)
    (hfirst : ∀ j, j < e → ¬ OccursAt [bar, sharp] u j)
    (hnest : ¬ [sharp, bar] <:+: u.take (e + 1)) (hbar : p = .bar → u.head? ≠ some sharp)
    (hsharp : p = .sharp → u.head? ≠ some bar) (hd : b ≤ d) :
    Reads classify b ⟨.block 0 p, d⟩ (u.take (e + 2)) ⟨.fresh, d⟩ := by
  induction e generalizing u p with
  | zero =>
      obtain ⟨r, rfl⟩ := hat
      apply reads_inside id hd
      rw [next_block _ fun hp => absurd rfl (hsharp hp)]
      · exact reads_inside (by decide) hd (Reads.nil hd)
      · intro _
        decide
  | succ e ih =>
      cases u with
      | nil => cases hat.le (by decide)
      | cons a r =>
          rw [List.take_succ_cons] at hnest ⊢
          apply reads_inside id hd
          rw [next_block]
          · apply ih hat
            · intro j hj
              exact hfirst (j + 1) (by omega)
            · intro h
              exact hnest (h.trans (List.suffix_cons a _).isInfix)
            · intro hcls hr
              obtain rfl := (classify_iff rfl).mp hcls
              cases r with
              | nil => cases hr
              | cons a r =>
                  obtain rfl := Option.some_inj.mp hr
                  exact hfirst 0 (by omega) (List.prefix_append [bar, sharp] r)
            · intro hcls hr
              obtain rfl := (classify_iff rfl).mp hcls
              cases r with
              | nil => cases hr
              | cons a r =>
                  obtain rfl := Option.some_inj.mp hr
                  exact hnest (List.prefix_append [sharp, bar] (r.take e)).isInfix
          · intro hp hcls
            exact hbar hp (congrArg some ((classify_iff rfl).mp hcls))
          · intro hp hcls
            exact hsharp hp (congrArg some ((classify_iff rfl).mp hcls))

/-! The pieces of the scan, from outside. -/

theorem next_opens {m : Mode} (hm : m.Outside) :
    m.next .escape = .escape ∧ m.next .semicolon = .line ∧ m.next .quote = .string := by
  cases m <;> first | exact ⟨rfl, rfl, rfl⟩ | exact absurd hm id

/-- A character that begins no piece leaves the reader among the tokens. -/
theorem next_outside {m : Mode} {k : CharClass} (hm : m.Outside)
    (hk : k ∉ [CharClass.escape, .semicolon, .quote, .bar]) : (m.next k).Outside := by
  cases m <;> cases k <;> first | exact trivial | exact absurd hm id | exact absurd (by decide) hk

theorem reads_escape {m : Mode} (hm : m.Outside) (hd : b ≤ d) {u : JsString} {s' : State}
    (h : Reads classify b ⟨.escape, d⟩ u s') : Reads classify b ⟨m, d⟩ (backslash :: u) s' := by
  apply reads_outside (k := .escape) hm hd (classify_charOf rfl) rfl
  rw [(next_opens hm).1]
  exact h

theorem reads_comment {m : Mode} (hm : m.Outside) (hd : b ≤ d) {u : JsString} {s' : State}
    (h : Reads classify b ⟨.line, d⟩ u s') : Reads classify b ⟨m, d⟩ (semicolon :: u) s' := by
  apply reads_outside (k := .semicolon) hm hd (classify_charOf rfl) rfl
  rw [(next_opens hm).2.1]
  exact h

theorem reads_string {m : Mode} (hm : m.Outside) (hd : b ≤ d) {u : JsString} {j : Nat}
    (h : closing doubleQuote u = some j) :
    Reads classify b ⟨m, d⟩ (doubleQuote :: u.take (j + 1)) ⟨.fresh, d⟩ := by
  apply reads_outside (k := .quote) hm hd (classify_charOf rfl) rfl
  rw [(next_opens hm).2.2]
  apply reads_closing (m := .string) (e := .stringEscape) id id rfl rfl _ (fun c => next_string) hd h
  intro k
  rw [Mode.next]

theorem reads_symbol {m : Mode} (hm : m.Outside) (hs : m ≠ .sharp) (hd : b ≤ d) {u : JsString}
    {j : Nat} (h : closing bar u = some j) :
    Reads classify b ⟨m, d⟩ (bar :: u.take (j + 1)) ⟨.token, d⟩ := by
  have hnext : m.next .bar = .bar := by
    cases m <;> first | rfl | exact absurd rfl hs | exact absurd hm id
  apply reads_outside (k := .bar) hm hd (classify_charOf rfl) rfl
  rw [hnext]
  apply reads_closing (m := .bar) (e := .barEscape) id id rfl rfl _ (fun c => next_bar) hd h
  intro k
  rw [Mode.next]

theorem reads_blockComment (hd : b ≤ d) {u : JsString} {e : Nat} (hbar : u.head? = some bar)
    (h : indexOf [bar, sharp] (u.drop 1) = some e)
    (hnest : ¬ [sharp, bar] <:+: (u.drop 1).take (e + 1)) :
    Reads classify b ⟨.fresh, d⟩ (sharp :: u.take (e + 3)) ⟨.fresh, d⟩ := by
  cases u with
  | nil => cases hbar
  | cons a u =>
      obtain rfl := Option.some_inj.mp hbar
      obtain ⟨hat, hfirst⟩ := occursAt_of_indexOf h
      rw [List.take_succ_cons]
      apply reads_outside (m := .fresh) (k := .sharp) trivial hd rfl rfl
      apply reads_outside (m := .sharp) (k := .bar) trivial hd rfl rfl
      exact reads_block hat hfirst hnest nofun nofun hd

theorem next_paren {m : Mode} {k : CharClass} (hm : m.Outside)
    (hk : k = .opening ∨ k = .closing) : m.next k = .fresh := by
  rcases hk with rfl | rfl <;> cases m <;> first | rfl | exact absurd hm id

/-- A parenthesis read outside. -/
theorem reads_paren {m : Mode} {k : CharClass} {c : UInt16} {t : JsString} {s' : State}
    (hm : m.Outside) (hd : b ≤ d) (hc : classify c = k) (hk : k = .opening ∨ k = .closing)
    (ht : Reads classify b ⟨.fresh, d + k.move⟩ t s') : Reads classify b ⟨m, d⟩ (c :: t) s' := by
  apply Reads.cons hd
  rw [State.step_outside hm, hc, next_paren hm hk]
  exact ht

end Piece

/-! ### Reading the form -/

section Form

variable {b : Int}

/-- After a piece of `k + 1` characters the rest of the form is read. -/
theorem reads_rest {s s' : State} {c : UInt16} {u : JsString} {k : Nat}
    (hpiece : Reads classify b s (c :: u.take k) s')
    (hrest : ∃ m, Reads classify b s' (u.drop k) ⟨m, b⟩ ∧ (m.Outside ↔ Finished (u.drop k) 0)) :
    ∃ m, Reads classify b s (c :: u) ⟨m, b⟩ ∧ (m.Outside ↔ Finished u k) := by
  obtain ⟨m, hm, hfin⟩ := hrest
  have hall := hpiece.append hm
  rw [List.cons_append, List.take_append_drop] at hall
  exact ⟨m, hall, hfin.trans (finished_skip u k).symm⟩

theorem checkLoop_nil {skip depth : Nat} {sawAny : Bool}
    (h : checkLoop [] skip depth sawAny = none) : depth = 0 := by
  unfold checkLoop at h
  split_ifs at h
  omega

/-- A form that passes is read without going below the depth it began at, and
back to it; it ends outside everything exactly if it is finished. -/
theorem reads_form {t : JsString} {m : Mode} (hm : m.Outside) {d : Nat} {sawAny : Bool}
    (hnull : checkLoop t 0 d sawAny = none) (hplain : Plain m t 0) :
    ∃ m', Reads classify b ⟨m, b + d⟩ t ⟨m', b⟩ ∧ (m'.Outside ↔ Finished t 0) := by
  induction hlen : t.length using Nat.strong_induction_on generalizing t m d sawAny with
  | _ n ih =>
  cases t with
  | nil =>
      obtain rfl := checkLoop_nil hnull
      rw [Nat.cast_zero, add_zero]
      exact ⟨m, Reads.nil le_rfl, iff_of_true hm trivial⟩
  | cons c u =>
      rw [List.length_cons] at hlen
      have hshort : ∀ k, (u.drop k).length < n := by
        intro k
        rw [List.length_drop]
        omega
      have hd : b ≤ b + (d : Int) := by omega
      unfold checkLoop at hnull
      unfold Plain at hplain
      unfold Finished
      by_cases hesc : c = backslash
      · rw [if_pos hesc] at hnull hplain ⊢
        subst hesc
        cases u with
        | nil =>
            obtain rfl := checkLoop_nil hnull
            rw [Nat.cast_zero, add_zero]
            refine ⟨.escape, reads_escape hm le_rfl (Reads.nil le_rfl), iff_of_false id ?_⟩
            exact fun h => h.1 rfl
        | cons a u =>
            obtain ⟨m', hread, hfin⟩ := ih _ (hshort 1) token_outside hnull hplain rfl
            refine ⟨m', reads_escape hm hd (reads_inside id hd ?_), hfin.trans ?_⟩
            · rw [Mode.next]
              exact hread
            · exact ⟨fun h => ⟨List.cons_ne_nil a u, h⟩, fun h => h.2⟩
      rw [if_neg hesc] at hnull hplain ⊢
      by_cases hsemi : c = semicolon
      · rw [if_pos hsemi] at hnull hplain ⊢
        subst hsemi
        rw [checkLoop_skip] at hnull
        rw [plain_skip] at hplain
        by_cases hnl : newline ∈ u
        · have hrest := ih _ (hshort _) fresh_outside hnull hplain rfl
          obtain ⟨m', hread, hfin⟩ := reads_rest (reads_comment hm hd (reads_line_end hnl hd)) hrest
          exact ⟨m', hread, hfin.trans (and_iff_right hnl).symm⟩
        · rw [drop_lineLength hnl] at hnull
          obtain rfl := checkLoop_nil hnull
          rw [Nat.cast_zero, add_zero]
          refine ⟨.line, reads_comment hm le_rfl (reads_line hnl le_rfl), iff_of_false id ?_⟩
          exact fun h => hnl h.1
      rw [if_neg hsemi] at hnull hplain ⊢
      by_cases hblock : c = sharp ∧ u.head? = some bar
      · rw [if_pos hblock] at hnull hplain ⊢
        obtain ⟨rfl, hbar⟩ := hblock
        cases hend : indexOf [bar, sharp] (u.drop 1) with
        | none =>
            rw [hend] at hnull
            cases hnull
        | some e =>
            rw [hend] at hnull hplain
            dsimp only at hnull hplain
            obtain ⟨rfl, hnest, hplain⟩ := hplain
            rw [checkLoop_skip] at hnull
            rw [plain_skip] at hplain
            exact reads_rest (reads_blockComment hd hbar hend hnest)
              (ih _ (hshort _) hm hnull hplain rfl)
      rw [if_neg hblock] at hnull hplain ⊢
      by_cases hquote : c = doubleQuote ∨ c = bar
      · rw [if_pos hquote] at hnull hplain ⊢
        cases hend : closing c u with
        | none =>
            rw [hend] at hnull
            cases hnull
        | some j =>
            rw [hend] at hnull hplain
            dsimp only at hnull hplain
            obtain ⟨hsharp, hplain⟩ := hplain
            rw [checkLoop_skip] at hnull
            rw [plain_skip] at hplain
            rcases hquote with rfl | rfl
            · exact reads_rest (reads_string hm hd hend)
                (ih _ (hshort _) fresh_outside hnull hplain rfl)
            · exact reads_rest (reads_symbol hm (hsharp rfl) hd hend)
                (ih _ (hshort _) token_outside hnull hplain rfl)
      rw [if_neg hquote] at hnull hplain ⊢
      rw [not_or] at hquote
      by_cases hopen : c = openParen
      · rw [if_pos hopen] at hnull
        have hcls : classify c = .opening := (classify_iff rfl).mpr hopen
        rw [hcls, next_paren hm (.inl rfl)] at hplain
        obtain ⟨m', hread, hfin⟩ := ih _ (hshort 0) fresh_outside hnull hplain rfl
        rw [Nat.cast_succ, ← add_assoc] at hread
        exact ⟨m', reads_paren hm hd hcls (.inl rfl) hread, hfin⟩
      rw [if_neg hopen] at hnull
      by_cases hclose : c = closeParen
      · rw [if_pos hclose] at hnull
        have hcls : classify c = .closing := (classify_iff rfl).mpr hclose
        rw [hcls, next_paren hm (.inr rfl)] at hplain
        split at hnull
        · cases hnull
        · next hpos =>
          obtain ⟨m', hread, hfin⟩ := ih _ (hshort 0) fresh_outside hnull hplain rfl
          rw [Nat.cast_pred (by omega), ← add_sub_assoc] at hread
          exact ⟨m', reads_paren hm hd hcls (.inr rfl) hread, hfin⟩
      rw [if_neg hclose] at hnull
      have hcls : classify c ∉ [CharClass.escape, .semicolon, .quote, .bar] := by
        simp only [List.mem_cons, List.not_mem_nil, or_false, not_or]
        exact ⟨fun h => hesc ((classify_iff rfl).mp h), fun h => hsemi ((classify_iff rfl).mp h),
          fun h => hquote.1 ((classify_iff rfl).mp h), fun h => hquote.2 ((classify_iff rfl).mp h)⟩
      have hmove : (classify c).move = 0 := by
        have ho : classify c ≠ .opening := fun h => hopen ((classify_iff rfl).mp h)
        have hcl : classify c ≠ .closing := fun h => hclose ((classify_iff rfl).mp h)
        cases hk : classify c <;> first | rfl | exact absurd hk ho | exact absurd hk hcl
      obtain ⟨m', hread, hfin⟩ := ih _ (hshort 0) (next_outside hm hcls) hnull hplain rfl
      exact ⟨m', reads_outside hm hd rfl hmove hread, hfin⟩

end Form

/-! ### The wrapper -/

theorem atForm_eq : atForm = { mode := .fresh, depth := 5 } := by
  decide +kernel

/-- The character after the form is the parenthesis that closes the list of values. -/
theorem buildEvalWrapper_eq (form nonce : JsString) :
    ∃ rest, buildEvalWrapper form nonce = wrapperHead ++ form ++ closeParen :: rest := by
  refine ⟨js ")) " ++ ((js "(cl:format cl:t \"" ++ nonce ++ js "V~\x7b~S" ++ nonce ++
    js "~\x7d~%\" v)) ") ++ (js "(cl:error (e) (cl:format cl:t \"" ++ nonce ++
    js "E~A~%\" e)))")), ?_⟩
  unfold buildEvalWrapper wrapperHead
  rw [List.append_assoc _ (js "))) "), List.append_assoc]
  rfl

theorem Intact.closes {form : JsString} (h : Intact form) :
    (run classify atForm (form ++ [closeParen])).depth = atForm.depth - 1 := by
  rw [run_append]
  change ((run classify atForm form).step (classify closeParen)).depth = _
  rw [State.step_outside h.outside, h.balanced]
  rfl

/-- **A form that passes leaves the wrapper intact** exactly if it is finished,
wherever the scan and the reader agree on what begins where: the wrapper's own
parenthesis then closes its list of values. -/
theorem checkForm_intact (form : JsString) (hplain : Plain .fresh form 0)
    (hnull : checkForm form = none) :
    (Intact form ↔ Finished form 0) ∧
      ∀ nonce, ∃ rest, buildEvalWrapper form nonce = wrapperHead ++ form ++ closeParen :: rest ∧
        (Finished form 0 → (run classify atForm (form ++ [closeParen])).depth = atForm.depth - 1) := by
  obtain ⟨m, hread, hfin⟩ := reads_form (b := 5) fresh_outside hnull hplain
  rw [Nat.cast_zero, add_zero, ← atForm_eq] at hread
  have hiff : Intact form ↔ Finished form 0 := by
    rw [← hfin]
    constructor
    · intro h
      have hout := h.outside
      rw [hread.run_eq] at hout
      exact hout
    · intro hm
      constructor
      · rw [atForm_eq]
        rw [atForm_eq] at hread
        exact hread.above
      · rw [hread.run_eq]
        exact hm
      · rw [hread.run_eq, atForm_eq]
  refine ⟨hiff, fun nonce => ?_⟩
  obtain ⟨rest, hrest⟩ := buildEvalWrapper_eq form nonce
  exact ⟨rest, hrest, fun h => (hiff.mpr h).closes⟩

theorem checkForm_intact_sample :
    Plain .fresh (js "(list '|a)b| #| ( |# #\\( \"x\")") 0 ∧
      checkForm (js "(list '|a)b| #| ( |# #\\( \"x\")") = none ∧
      (Intact (js "(list '|a)b| #| ( |# #\\( \"x\")") ↔
        Finished (js "(list '|a)b| #| ( |# #\\( \"x\")") 0) := by
  have hplain : Plain .fresh (js "(list '|a)b| #| ( |# #\\( \"x\")") 0 := by
    refine ⟨nofun, rfl, ?_, nofun, ?_⟩
    · decide +kernel
    · exact trivial
  have hnull : checkForm (js "(list '|a)b| #| ( |# #\\( \"x\")") = none := by decide +kernel
  exact ⟨hplain, hnull, (checkForm_intact _ hplain hnull).1⟩

/-- A comment that the form does not end swallows the rest of the wrapper's line. -/
theorem unterminated_comment_passes :
    checkForm (js "(+ 1 2) ; three") = none ∧ ¬ Intact (js "(+ 1 2) ; three") := by
  constructor
  · decide +kernel
  · intro h
    have hout := h.outside
    revert hout
    decide +kernel

end Rsh
