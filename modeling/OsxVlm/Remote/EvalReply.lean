import Mathlib
import OsxVlm.Library.Substring

/-!
# Evaluating a form over rsh: the wrapper and its reply

The wrapper makes Genera print a marker after the form's own output: the nonce
and `V` before the values, each followed by the nonce, or the nonce and `E`
before an error report.  `parseEvalReply` looks for the *last* marker, so a
value that itself begins with `V` or `E` and follows another value is taken for
one: `roundTrip` says exactly when the reply is read back as it was written.
-/

namespace Rsh

open Substring

/-- A string of UTF-16 code units. -/
abbrev JsString := List UInt16

/-- The code units of an ASCII text. -/
def js (s : String) : JsString :=
  s.toList.map fun ch => UInt16.ofNat ch.toNat

def charV : UInt16 := 86
def charE : UInt16 := 69
def newline : UInt16 := 10

/-- White space and line terminators: what `trim` removes and `\s` matches. -/
def isSpace (c : UInt16) : Bool :=
  (9 ≤ c && c ≤ 13) || c == 0x20 || c == 0xa0 || c == 0x1680 ||
    (0x2000 ≤ c && c ≤ 0x200a) || c == 0x2028 || c == 0x2029 || c == 0x202f ||
    c == 0x205f || c == 0x3000 || c == 0xfeff

def trim (s : JsString) : JsString :=
  ((s.dropWhile isSpace).reverse.dropWhile isSpace).reverse

/-- `split`: an empty separator splits between all characters. -/
def split (s sep : JsString) : List JsString :=
  if sep = [] then s.map ([·]) else splitOn sep s

inductive RshStatus where
  | ok
  | rejected
  | timeout
  deriving DecidableEq

structure RshReply where
  status : RshStatus
  /-- Everything after the lead byte, one byte per character. -/
  output : JsString
  deriving DecidableEq

structure EvalResult where
  /-- What the form printed, up to the result marker. -/
  output : JsString
  /-- Printed values; absent on error. -/
  values : Option (List JsString) := none
  /-- Error report; absent on success. -/
  error : Option JsString := none
  timedOut : Bool := false
  deriving DecidableEq

/-- Split a raw reply into status and text. -/
def parseRshReply (bytes : List UInt8) (timedOut : Bool) : RshReply :=
  match bytes with
  | [] =>
      if timedOut then { status := .timeout, output := [] }
      else { status := .rejected, output := js "(connection closed without a reply)" }
  | lead :: rest =>
      let output := (if lead = 0 ∨ lead = 1 then rest else lead :: rest).map UInt8.toUInt16
      if timedOut then { status := .timeout, output }
      else { status := if lead = 1 then .rejected else .ok, output }

def lowerAscii (c : UInt16) : UInt16 := if 65 ≤ c ∧ c ≤ 90 then c + 32 else c

/-- An explanation to append to a rejection, or the empty text. -/
def rejectionHint (text : JsString) : JsString :=
  if js "in use by" <:+: text.map lowerAscii then
    js ("Genera's rsh server refuses evaluation while someone is logged " ++
      "in unless NET:EVAL-SERVER-ON is set on the Genera side.")
  else []

def rejectionError (output : JsString) : JsString :=
  let text := if trim output = [] then js "rejected" else trim output
  let hint := rejectionHint text
  if hint = [] then text else text ++ newline :: hint

def hexDigit (n : Nat) : UInt16 := UInt16.ofNat (if n < 10 then 48 + n else 87 + n)

/-- The marker made of eight random bytes. -/
def makeNonce (b : Vector UInt8 8) : JsString :=
  js "RSH" ++ b.toList.flatMap fun x => [hexDigit (x.toNat / 16), hexDigit (x.toNat % 16)]

def buildEvalWrapper (form nonce : JsString) : JsString :=
  js "(conditions:handler-case (cl:let ((v (cl:multiple-value-list " ++ form ++ js "))) " ++
    (js "(cl:format cl:t \"" ++ nonce ++ js "V~\x7b~S" ++ nonce ++ js "~\x7d~%\" v)) ") ++
    (js "(cl:error (e) (cl:format cl:t \"" ++ nonce ++ js "E~A~%\" e)))")

def stripOneNewline (s : JsString) : JsString :=
  if s.getLast? = some newline then s.dropLast else s

def lastMarker (nonce text : JsString) : Int :=
  max (lastIndexOf (nonce ++ [charV]) text) (lastIndexOf (nonce ++ [charE]) text)

/-- Interpret the reply to a wrapped form. -/
def parseEvalReply (reply : RshReply) (nonce : JsString) : EvalResult :=
  if reply.status = .rejected then { output := [], error := some (rejectionError reply.output) }
  else
    let text := reply.output
    let eAt := lastIndexOf (nonce ++ [charE]) text
    let at' := lastMarker nonce text
    if at' < 0 then
      if reply.status = .timeout then
        { output := text, timedOut := true, error := some (js "timed out") }
      else
        { output := [],
          error := some (if trim text = [] then js "connection closed without a result"
            else trim text) }
    else
      let output := text.take at'.toNat
      let body := text.drop (at'.toNat + nonce.length + 1)
      let timedOut := decide (reply.status = .timeout)
      if at' = eAt then { output, error := some (trim (stripOneNewline body)), timedOut }
      else
        -- the remainder after the last value is dropped: "\n"
        { output, values := some (split body nonce).dropLast, timedOut }

/-! ### What the wrapper prints -/

/-- `~{~S<nonce>~}~%` of the printed values. -/
def valuesBody (nonce : JsString) (values : List JsString) : JsString :=
  values.flatMap (· ++ nonce) ++ [newline]

/-- The reply to a form that printed `output` and returned `values`. -/
def valuesReply (nonce output : JsString) (values : List JsString) : RshReply :=
  { status := .ok, output := output ++ (nonce ++ [charV] ++ valuesBody nonce values) }

/-- The reply to a form that printed `output` and signalled an error. -/
def errorReply (nonce output report : JsString) : RshReply :=
  { status := .ok, output := output ++ (nonce ++ [charE] ++ (report ++ [newline])) }

/-- No result marker stands in `s` after its start. -/
def NoLaterMarker (nonce s : JsString) : Prop :=
  ∀ j, 0 < j → ¬ OccursAt (nonce ++ [charV]) s j ∧ ¬ OccursAt (nonce ++ [charE]) s j

/-- The values can be told apart: no marker stands among them, no nonce starts
inside a value, and the final newline is not a nonce. -/
structure ValuesIntact (nonce : JsString) (values : List JsString) : Prop where
  marker : NoLaterMarker nonce (nonce ++ [charV] ++ valuesBody nonce values)
  inside : ∀ v ∈ values, ∀ i, i < v.length → ¬ OccursAt nonce (v ++ nonce) i
  last : nonce ≠ [newline]

def ErrorIntact (nonce report : JsString) : Prop :=
  NoLaterMarker nonce (nonce ++ [charE] ++ (report ++ [newline]))

/-! ### Where the marker is found -/

section Marker

variable {nonce output s : JsString}

theorem marker_ne_nil (nonce : JsString) (c : UInt16) : nonce ++ [c] ≠ [] := by
  intro h
  cases (List.append_eq_nil_iff.mp h).2

theorem marker_at_start (nonce : JsString) (c : UInt16) (body : JsString) :
    OccursAt (nonce ++ [c]) (nonce ++ [c] ++ body) 0 :=
  List.prefix_append _ body

/-- Only one of the two markers stands at a place. -/
theorem marker_unique {t : JsString} {c d : UInt16} {i : Nat}
    (hc : OccursAt (nonce ++ [c]) t i) (hd : OccursAt (nonce ++ [d]) t i) : c = d := by
  have hpos : nonce.length < (nonce ++ [c]).length := by
    rw [List.length_append]
    exact Nat.lt_succ_self _
  have hlast : ∀ e : UInt16, (nonce ++ [e])[nonce.length]? = some e := fun e =>
    List.getElem?_concat_length
  have h1 := hc.getElem? hpos
  have h2 := hd.getElem? (j := nonce.length) (by rw [List.length_append] at hpos ⊢; exact hpos)
  rw [hlast] at h1 h2
  exact Option.some_inj.mp (h1.symm.trans h2)

theorem lastMarker_ge (output : JsString)
    (h : OccursAt (nonce ++ [charV]) s 0 ∨ OccursAt (nonce ++ [charE]) s 0) :
    output.length ≤ lastMarker nonce (output ++ s) := by
  rcases h with h | h
  · apply le_max_of_le_left
    exact ((occursAt_append_right (i := 0) output).mpr h).le_lastIndexOf (marker_ne_nil _ _)
  · apply le_max_of_le_right
    exact ((occursAt_append_right (i := 0) output).mpr h).le_lastIndexOf (marker_ne_nil _ _)

/-- The last marker is the one that starts `s`, unless a later one follows. -/
theorem lastMarker_append (output : JsString)
    (h : OccursAt (nonce ++ [charV]) s 0 ∨ OccursAt (nonce ++ [charE]) s 0) :
    lastMarker nonce (output ++ s) = output.length ↔ NoLaterMarker nonce s := by
  have hv := lastIndexOf_append_le (t := s) (marker_ne_nil nonce charV) output
  have he := lastIndexOf_append_le (t := s) (marker_ne_nil nonce charE) output
  constructor
  · intro heq j hj
    exact ⟨hv.mp (heq ▸ le_max_left _ _) j hj, he.mp (heq ▸ le_max_right _ _) j hj⟩
  · intro hnone
    apply le_antisymm _ (lastMarker_ge output h)
    exact max_le (hv.mpr fun j hj => (hnone j hj).1) (he.mpr fun j hj => (hnone j hj).2)

end Marker

/-! ### Reading the reply back -/

section Parse

variable {nonce output s : JsString}

/-- What is read before a marker at `m` is the form's output exactly if the
marker is the one after it. -/
theorem take_eq_output {c : UInt16} {body : JsString} {m : Int} (hm : 0 ≤ m) :
    (output ++ (nonce ++ [c] ++ body)).take m.toNat = output ↔ m = output.length := by
  constructor
  · intro h
    have hlen := congrArg List.length h
    simp only [List.length_take, List.length_append, List.length_cons, List.length_nil] at hlen
    omega
  · intro h
    rw [h, Int.toNat_natCast, List.take_left]

theorem drop_marker (c : UInt16) (body : JsString) :
    (output ++ (nonce ++ [c] ++ body)).drop (output.length + nonce.length + 1) = body := by
  have hlen : (output ++ (nonce ++ [c])).length = output.length + nonce.length + 1 := by
    simp only [List.length_append, List.length_cons, List.length_nil]
    omega
  rw [← List.append_assoc, ← hlen, List.drop_left]

theorem stripOneNewline_append (report : JsString) :
    stripOneNewline (report ++ [newline]) = report := by
  unfold stripOneNewline
  rw [List.getLast?_concat, if_pos rfl, List.dropLast_concat]

/-- The values are read back exactly if they can be told apart. -/
theorem parse_valuesReply (hn : nonce ≠ []) (values : List JsString) :
    parseEvalReply (valuesReply nonce output values) nonce = { output, values := some values } ↔
      ValuesIntact nonce values := by
  have hstart := marker_at_start nonce charV (valuesBody nonce values)
  have hge := lastMarker_ge output (.inl hstart)
  have hlater := lastMarker_append output (.inl hstart)
  have hpieces := splitOn_pieces hn values [newline]
  have hfinal : (∀ i, ¬ OccursAt nonce [newline] i) ↔ nonce ≠ [newline] := by
    rw [← not_exists, ← infix_iff_occursAt, List.infix_singleton_iff]
    simp only [hn, false_or]
  rw [hfinal] at hpieces
  unfold parseEvalReply valuesReply
  dsimp only
  rw [if_neg (by decide), if_neg (by omega)]
  constructor
  · intro h
    have houtput := congrArg EvalResult.output h
    rw [apply_ite EvalResult.output, ite_self, take_eq_output (by omega)] at houtput
    have hvalues := congrArg EvalResult.values h
    rw [houtput, Int.toNat_natCast, drop_marker, apply_ite EvalResult.values, split, if_neg hn]
      at hvalues
    split at hvalues
    · cases hvalues
    · obtain ⟨hinside, hlast⟩ := hpieces.mp (Option.some_inj.mp hvalues)
      exact ⟨hlater.mp houtput, hinside, hlast⟩
  · intro h
    rw [hlater.mpr h.marker, if_neg, Int.toNat_natCast, drop_marker, List.take_left, split,
      if_neg hn]
    · rw [valuesBody, hpieces.mpr ⟨h.inside, h.last⟩]
      rfl
    · intro he
      have hthere := occursAt_of_lastIndexOf (marker_ne_nil _ charE) he.symm
      rw [← Nat.add_zero output.length, occursAt_append_right] at hthere
      cases marker_unique hstart hthere

/-- The report is read back, trimmed, exactly if no marker stands in it. -/
theorem parse_errorReply (report : JsString) :
    parseEvalReply (errorReply nonce output report) nonce =
        { output, error := some (trim report) } ↔ ErrorIntact nonce report := by
  have hstart := marker_at_start nonce charE (report ++ [newline])
  have hge := lastMarker_ge output (.inr hstart)
  have hlater := lastMarker_append output (.inr hstart)
  unfold parseEvalReply errorReply
  dsimp only
  rw [if_neg (by decide), if_neg (by omega)]
  constructor
  · intro h
    have houtput := congrArg EvalResult.output h
    rw [apply_ite EvalResult.output, ite_self, take_eq_output (by omega)] at houtput
    exact hlater.mp houtput
  · intro h
    have hat := hlater.mpr h
    rw [if_pos, hat, Int.toNat_natCast, drop_marker, List.take_left, stripOneNewline_append]
    · rfl
    · have hthere := (occursAt_append_right (i := 0) output).mpr hstart
      apply le_antisymm
      · rw [hat]
        exact hthere.le_lastIndexOf (marker_ne_nil _ _)
      · exact le_max_right _ _

end Parse

/-! ### The nonces that are used -/

def charR : UInt16 := 82

/-- What the text around a random nonce relies on: its first character comes
once, and it has no capital `V` or `E` and no newline. -/
structure IsMarker (nonce : JsString) : Prop where
  head : ∃ rest, nonce = charR :: rest ∧ charR ∉ rest
  noV : charV ∉ nonce
  noE : charE ∉ nonce
  noNewline : newline ∉ nonce

theorem hexDigit_plain {n : Nat} (hn : n < 16) {c : UInt16}
    (hc : c ∈ [charR, charV, charE, newline]) : c ≠ hexDigit n := by
  simp only [List.mem_cons, List.not_mem_nil, or_false] at hc
  revert n
  rcases hc with rfl | rfl | rfl | rfl <;> decide

theorem makeNonce_isMarker (b : Vector UInt8 8) : IsMarker (makeNonce b) := by
  have hhex : ∀ c ∈ [charR, charV, charE, newline],
      c ∉ b.toList.flatMap fun x => [hexDigit (x.toNat / 16), hexDigit (x.toNat % 16)] := by
    intro c hc hmem
    obtain ⟨x, -, hx⟩ := List.mem_flatMap.mp hmem
    have hlt := x.toNat_lt
    have hhigh : c ≠ hexDigit (x.toNat / 16) := hexDigit_plain (by omega) hc
    have hlow : c ≠ hexDigit (x.toNat % 16) := hexDigit_plain (by omega) hc
    rw [List.mem_cons, List.mem_singleton] at hx
    exact hx.elim hhigh hlow
  have hname : ∀ c ∈ [charV, charE, newline], c ∉ js "RSH" := by
    intro c hc
    simp only [List.mem_cons, List.not_mem_nil, or_false] at hc
    rcases hc with rfl | rfl | rfl <;> decide +kernel
  have hplain : ∀ c ∈ [charV, charE, newline], c ∉ makeNonce b := by
    intro c hc hmem
    rw [makeNonce, List.mem_append] at hmem
    rcases hmem with hmem | hmem
    · exact hname c hc hmem
    · exact hhex c (List.mem_cons_of_mem _ hc) hmem
  exact {
    head := ⟨js "SH" ++ _, rfl, by
      rw [List.mem_append]
      rintro (h | h)
      · revert h
        decide +kernel
      · exact hhex charR (by decide) h⟩
    noV := hplain charV (by decide)
    noE := hplain charE (by decide)
    noNewline := hplain newline (by decide) }

namespace IsMarker

variable {nonce : JsString} (hm : IsMarker nonce)

include hm

theorem apart {t : JsString} {i j : Nat} (hi : OccursAt nonce t i) (hj : OccursAt nonce t j)
    (hlt : i < j) : i + nonce.length ≤ j := by
  obtain ⟨rest, rfl, hrest⟩ := hm.head
  exact hi.apart hrest hj hlt

theorem length_pos : 0 < nonce.length := by
  obtain ⟨rest, rfl, -⟩ := hm.head
  exact Nat.succ_pos _

/-- After a text without the nonce, the nonce itself is the first place of it. -/
theorem first_after {v t : JsString} {i : Nat} (hv : ¬ nonce <:+: v)
    (hi : OccursAt nonce (v ++ (nonce ++ t)) i) : i = v.length ∨ v.length + nonce.length ≤ i := by
  have hat : OccursAt nonce (v ++ (nonce ++ t)) v.length := by
    unfold OccursAt
    rw [List.drop_left]
    exact List.prefix_append _ t
  rcases lt_trichotomy i v.length with hlt | heq | hgt
  · exfalso
    have hle := hm.apart hi hat hlt
    rw [occursAt_append_left _ hle] at hi
    exact hv hi.infix
  · exact .inl heq
  · exact .inr (hm.apart hat hi hgt)

/-- A marker stands after a value and its nonce if what follows begins with its
letter, or later on. -/
theorem marker_after {v t : JsString} {c : UInt16} (hv : ¬ nonce <:+: v) :
    (∃ i, OccursAt (nonce ++ [c]) (v ++ (nonce ++ t)) i) ↔
      t.head? = some c ∨ ∃ i, OccursAt (nonce ++ [c]) t i := by
  have hlen : (v ++ nonce).length = v.length + nonce.length := List.length_append
  constructor
  · rintro ⟨i, hi⟩
    have hnonce : OccursAt nonce (v ++ (nonce ++ t)) i := (List.prefix_append _ _).trans hi
    rcases hm.first_after hv hnonce with rfl | hle
    · left
      unfold OccursAt at hi
      rw [List.drop_left, List.prefix_append_right_inj] at hi
      obtain ⟨s, rfl⟩ := hi
      rfl
    · right
      obtain ⟨n, rfl⟩ : ∃ n, i = (v ++ nonce).length + n := ⟨i - (v ++ nonce).length, by omega⟩
      rw [← List.append_assoc, occursAt_append_right] at hi
      exact ⟨n, hi⟩
  · rintro (h | ⟨n, h⟩)
    · refine ⟨v.length, ?_⟩
      unfold OccursAt
      rw [List.drop_left, List.prefix_append_right_inj]
      cases t with
      | nil => cases h
      | cons a t =>
          obtain rfl : a = c := Option.some_inj.mp h
          exact List.prefix_append [a] t
    · refine ⟨(v ++ nonce).length + n, ?_⟩
      rw [← List.append_assoc, occursAt_append_right]
      exact h

theorem head?_valuesBody {c : UInt16} (hc : c ∉ nonce) (hnl : c ≠ newline) (values : List JsString) :
    (valuesBody nonce values).head? = some c ↔ ∃ v, values.head? = some v ∧ v.head? = some c := by
  cases values with
  | nil =>
      constructor
      · intro h
        exact absurd (Option.some_inj.mp h).symm hnl
      · rintro ⟨v, h, -⟩
        cases h
  | cons v values =>
      have hbody : valuesBody nonce (v :: values) = v ++ (nonce ++ valuesBody nonce values) := by
        simp only [valuesBody, List.flatMap_cons, List.append_assoc]
      obtain ⟨rest, hrest, -⟩ := hm.head
      rw [hbody, List.head?_append, List.head?_append]
      constructor
      · intro h
        cases v with
        | cons a v => exact ⟨_, rfl, h⟩
        | nil =>
            rw [hrest] at h hc
            obtain rfl : charR = c := Option.some_inj.mp h
            exact absurd List.mem_cons_self hc
      · rintro ⟨w, hw, hc'⟩
        obtain rfl : v = w := Option.some_inj.mp hw
        rw [hc']
        rfl

/-- A marker stands among the values exactly if a value after the first begins
with its letter. -/
theorem marker_valuesBody {c : UInt16} (hc : c ∉ nonce) (hnl : c ≠ newline)
    (values : List JsString) (hvalues : ∀ v ∈ values, ¬ nonce <:+: v) :
    (∃ i, OccursAt (nonce ++ [c]) (valuesBody nonce values) i) ↔
      ∃ v ∈ values.tail, v.head? = some c := by
  induction values with
  | nil =>
      constructor
      · rintro ⟨i, hi⟩
        obtain ⟨rest, rfl, -⟩ := hm.head
        have hle := hi.le (marker_ne_nil _ c)
        simp only [valuesBody, List.flatMap_nil, List.nil_append, List.length_append,
          List.length_cons, List.length_nil] at hle
        omega
      · rintro ⟨v, hv, -⟩
        cases hv
  | cons v values ih =>
      have hbody : valuesBody nonce (v :: values) = v ++ (nonce ++ valuesBody nonce values) := by
        simp only [valuesBody, List.flatMap_cons, List.append_assoc]
      rw [hbody, hm.marker_after (hvalues v List.mem_cons_self),
        ih fun w hw => hvalues w (List.mem_cons_of_mem v hw), hm.head?_valuesBody hc hnl]
      cases values with
      | nil => simp
      | cons w values => simp

/-- After the marker that starts a reply, the next one stands in its body. -/
theorem later_marker {c d : UInt16} (hd : d ∉ nonce) (body : JsString) :
    (∃ j, 0 < j ∧ OccursAt (nonce ++ [c]) (nonce ++ [d] ++ body) j) ↔
      ∃ i, OccursAt (nonce ++ [c]) body i := by
  have hlen : (nonce ++ [d]).length = nonce.length + 1 := List.length_append
  constructor
  · rintro ⟨j, hj, hat⟩
    have hnonce : OccursAt nonce (nonce ++ [d] ++ body) j := (List.prefix_append _ _).trans hat
    have hstart : OccursAt nonce (nonce ++ [d] ++ body) 0 :=
      (List.prefix_append nonce [d]).trans (List.prefix_append _ body)
    have hle := hm.apart hstart hnonce hj
    have hne : j ≠ nonce.length := by
      rintro rfl
      have hletter := hnonce.getElem? hm.length_pos
      rw [Nat.add_zero, List.append_assoc, List.getElem?_append_right le_rfl, Nat.sub_self] at hletter
      exact hd (List.mem_of_getElem? hletter.symm)
    obtain ⟨n, rfl⟩ : ∃ n, j = (nonce ++ [d]).length + n := ⟨j - (nonce ++ [d]).length, by omega⟩
    rw [occursAt_append_right] at hat
    exact ⟨n, hat⟩
  · rintro ⟨n, hn⟩
    refine ⟨(nonce ++ [d]).length + n, by omega, ?_⟩
    rw [occursAt_append_right]
    exact hn

theorem noLaterMarker_iff {d : UInt16} (hd : d ∉ nonce) (body : JsString) :
    NoLaterMarker nonce (nonce ++ [d] ++ body) ↔
      (¬ ∃ i, OccursAt (nonce ++ [charV]) body i) ∧ ¬ ∃ i, OccursAt (nonce ++ [charE]) body i := by
  rw [← hm.later_marker hd, ← hm.later_marker hd]
  constructor
  · intro h
    exact ⟨fun ⟨j, hj, hv⟩ => (h j hj).1 hv, fun ⟨j, hj, he⟩ => (h j hj).2 he⟩
  · intro ⟨hv, he⟩ j hj
    exact ⟨fun h => hv ⟨j, hj, h⟩, fun h => he ⟨j, hj, h⟩⟩

/-- With a random nonce that no value holds, the values are told apart exactly
if none after the first begins with `V` or `E`. -/
theorem valuesIntact_iff (values : List JsString) (hvalues : ∀ v ∈ values, ¬ nonce <:+: v) :
    ValuesIntact nonce values ↔
      ∀ v ∈ values.tail, v.head? ≠ some charV ∧ v.head? ≠ some charE := by
  have hmarker := hm.noLaterMarker_iff hm.noV (valuesBody nonce values)
  rw [hm.marker_valuesBody hm.noV (by decide) values hvalues,
    hm.marker_valuesBody hm.noE (by decide) values hvalues] at hmarker
  constructor
  · intro h v hv
    obtain ⟨hV, hE⟩ := hmarker.mp h.marker
    exact ⟨fun hc => hV ⟨v, hv, hc⟩, fun hc => hE ⟨v, hv, hc⟩⟩
  · intro h
    constructor
    · rw [hmarker]
      exact ⟨fun ⟨v, hv, hc⟩ => (h v hv).1 hc, fun ⟨v, hv, hc⟩ => (h v hv).2 hc⟩
    · intro v hv i hi hat
      rw [← List.append_nil nonce] at hat
      have hpos := hm.length_pos
      rcases hm.first_after (t := []) (hvalues v hv) (by simpa using hat) with h | h <;> omega
    · rintro rfl
      exact hm.noNewline List.mem_cons_self

/-- A report without the nonce is read back. -/
theorem errorIntact {report : JsString} (hreport : ¬ nonce <:+: report) :
    ErrorIntact nonce report := by
  have hnone : ∀ c, ¬ ∃ i, OccursAt (nonce ++ [c]) (report ++ [newline]) i := by
    rintro c ⟨i, hi⟩
    have hle := hi.le (marker_ne_nil _ c)
    have hnonce : OccursAt nonce (report ++ [newline]) i := (List.prefix_append _ _).trans hi
    simp only [List.length_append, List.length_cons, List.length_nil] at hle
    rw [occursAt_append_left _ (by omega)] at hnonce
    exact hreport hnonce.infix
  exact (hm.noLaterMarker_iff hm.noE _).mpr ⟨hnone charV, hnone charE⟩

end IsMarker

/-- **The reply to a form is read back as it was written** exactly if no later
text looks like the marker: for a random nonce that no value holds, exactly if
no value after the first begins with `V` or `E`; an error report always is. -/
theorem parseEvalReply_roundTrip (nonce output report : JsString) (values : List JsString)
    (hn : nonce ≠ []) :
    (parseEvalReply (valuesReply nonce output values) nonce =
        { output, values := some values } ↔ ValuesIntact nonce values) ∧
      (parseEvalReply (errorReply nonce output report) nonce =
        { output, error := some (trim report) } ↔ ErrorIntact nonce report) ∧
      ∀ b, nonce = makeNonce b →
        ((∀ v ∈ values, ¬ nonce <:+: v) →
          (ValuesIntact nonce values ↔
            ∀ v ∈ values.tail, v.head? ≠ some charV ∧ v.head? ≠ some charE)) ∧
        (¬ nonce <:+: report → ErrorIntact nonce report) := by
  refine ⟨parse_valuesReply hn values, parse_errorReply report, ?_⟩
  rintro b rfl
  have hm := makeNonce_isMarker b
  exact ⟨hm.valuesIntact_iff values, hm.errorIntact⟩

def sampleNonce : JsString := js "RSH0123456789abcdef"

theorem parseEvalReply_roundTrip_sample :
    sampleNonce ≠ [] ∧
      (parseEvalReply (valuesReply sampleNonce (js "x") [js "1", js "2"]) sampleNonce =
        { output := js "x", values := some [js "1", js "2"] } ↔
          ValuesIntact sampleNonce [js "1", js "2"]) := by
  have hn : sampleNonce ≠ [] := by decide +kernel
  exact ⟨hn, (parseEvalReply_roundTrip sampleNonce (js "x") [] [js "1", js "2"] hn).1⟩

/-- Two values, the second the symbol `E`: it is taken for an error marker. -/
theorem second_value_lost :
    (∀ v ∈ [js "1", js "E"], ¬ sampleNonce <:+: v) ∧ ¬ sampleNonce <:+: js "" ∧
      parseEvalReply (valuesReply sampleNonce (js "") [js "1", js "E"]) sampleNonce =
        { output := sampleNonce ++ js "V1", error := some sampleNonce } ∧
      parseEvalReply (valuesReply sampleNonce (js "") [js "1", js "E"]) sampleNonce ≠
        { output := js "", values := some [js "1", js "E"] } := by
  decide +kernel

end Rsh
