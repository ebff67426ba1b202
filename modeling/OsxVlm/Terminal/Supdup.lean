import Mathlib
import OsxVlm.Library.Framing

/-!
# The wire of SUPDUP

What a SUPDUP terminal says of itself when it connects, and what Genera sends it to display.
The option block is a header with the count of its words and the words, each of them six bytes
of six bits; whether it is whole can be told from its first bytes.  The display codes are
decoded as the bytes come: however the connection cuts them, the local terminal is sent the
texts of the whole codes, and no escape sequence but those of the decoder itself.
-/

namespace Terminal.Supdup

open Framing

/-! ### The option block -/

/-- A word of 36 bits as two halves of 18. -/
abbrev Word := Int × Int

/-- `pushHalf`: three bytes of six bits, the high ones first. -/
def pushHalf (h : Int) : List UInt8 :=
  [.ofNat (h / 2 ^ 12 % 64).toNat, .ofNat (h / 2 ^ 6 % 64).toNat, .ofNat (h % 64).toNat]

/-- The left half of the header is the count, negated. -/
def encodeWords (words : List Word) : List UInt8 :=
  pushHalf (2 ^ 18 - words.length) ++ pushHalf 0 ++
    words.flatMap fun w => pushHalf (w.1 % 2 ^ 18) ++ pushHalf (w.2 % 2 ^ 18)

structure TermOptions where
  rows : Int
  cols : Int
  ttyoptLeft : Int := 0o400000 + 0o010000 + 0o000400 + 0o000010 + 0o000002 + 0o000001
  ttyoptRight : Int := 0o40
  speed : Int := 9600

/-- TCTYP, TTYOPT, HEIGHT, WIDTH, TTYROL, SMARTS, ISPEED and OSPEED. -/
def optionWords (o : TermOptions) : List Word :=
  [(0, 7), (o.ttyoptLeft, o.ttyoptRight), (0, o.rows), (0, o.cols), (0, 1), (0, 0),
    (0, o.speed), (0, o.speed)]

def encodeOptionBlock (o : TermOptions) : List UInt8 := encodeWords (optionWords o)

/-- The low six bits of a byte. -/
def sixBits (bytes : List UInt8) (i : Nat) : Nat := (bytes.getD i 0).toNat &&& 0o77

/-- The half of a word in the three bytes from `i`. -/
def half (bytes : List UInt8) (i : Nat) : Nat :=
  sixBits bytes i <<< 12 ||| sixBits bytes (i + 1) <<< 6 ||| sixBits bytes (i + 2)

/-- The words of the block and how many bytes it has, once it is there. -/
def decodeOptionBlock (bytes : List UInt8) : Option (List Word × Nat) :=
  if bytes.length < 6 then none
  else
    let count := 2 ^ 18 - half bytes 0
    let length := 6 + 6 * count
    if bytes.length < length then none
    else
      let words := (List.range count).map fun i =>
        ((half bytes (6 + 6 * i) : Int), (half bytes (9 + 6 * i) : Int))
      some (words, length)

/-- What 18 bits keep of the halves. -/
def kept (w : Word) : Word := (w.1 % 2 ^ 18, w.2 % 2 ^ 18)

/-- The six bytes of a word. -/
def wordBytes (w : Word) : List UInt8 := pushHalf (w.1 % 2 ^ 18) ++ pushHalf (w.2 % 2 ^ 18)

section Options

variable (h : Int) (w : Word) (words : List Word) (before after bytes : List UInt8)

@[simp] theorem pushHalf_length : (pushHalf h).length = 3 := rfl

@[simp] theorem wordBytes_length : (wordBytes w).length = 6 := rfl

@[simp] theorem flatMap_wordBytes_length : (words.flatMap wordBytes).length = 6 * words.length := by
  induction words with
  | nil => rfl
  | cons w words ih =>
      rw [List.flatMap_cons, List.length_append, ih, wordBytes_length, List.length_cons]
      omega

@[simp] theorem encodeWords_length : (encodeWords words).length = 6 + 6 * words.length := by
  have hwords : (words.flatMap fun w => pushHalf (w.1 % 2 ^ 18) ++ pushHalf (w.2 % 2 ^ 18)).length =
      6 * words.length := flatMap_wordBytes_length words
  rw [encodeWords, List.length_append, hwords]
  rfl

theorem sixBits_append (i : Nat) :
    sixBits (before ++ bytes) (before.length + i) = sixBits bytes i := by
  simp [sixBits, List.getD_eq_getElem?_getD, List.getElem?_append_right]

theorem half_append (i : Nat) : half (before ++ bytes) (before.length + i) = half bytes i := by
  simp only [half, Nat.add_assoc, sixBits_append]

/-- Bytes beyond the half are not looked at. -/
theorem half_append_left {i : Nat} (hi : i + 2 < bytes.length) :
    half (bytes ++ after) i = half bytes i := by
  have hsix : ∀ j, j < bytes.length → sixBits (bytes ++ after) j = sixBits bytes j := by
    intro j hj
    simp [sixBits, List.getD_eq_getElem?_getD, List.getElem?_append_left hj]
  rw [half, hsix i (by omega), hsix (i + 1) (by omega), hsix (i + 2) hi, half]

theorem sixBits_lt (i : Nat) : sixBits bytes i < 64 :=
  lt_of_le_of_lt Nat.and_le_right (by decide)

theorem half_eq (i : Nat) :
    half bytes i = sixBits bytes i * 2 ^ 12 + sixBits bytes (i + 1) * 2 ^ 6 +
      sixBits bytes (i + 2) := by
  have h1 := sixBits_lt bytes (i + 1)
  have h2 := sixBits_lt bytes (i + 2)
  rw [half, Nat.or_assoc, ← Nat.shiftLeft_add_eq_or_of_lt (show _ < 2 ^ 6 from h2),
    ← Nat.shiftLeft_add_eq_or_of_lt (by rw [Nat.shiftLeft_eq]; omega), Nat.shiftLeft_eq,
    Nat.shiftLeft_eq, Nat.add_assoc]

theorem sixBits_cons (n : Nat) (hn : n < 64) :
    sixBits (UInt8.ofNat n :: bytes) 0 = n := by
  have hmask : (0o77 : Nat) = 2 ^ 6 - 1 := rfl
  rw [sixBits, List.getD_cons_zero, UInt8.toNat_ofNat', hmask, Nat.and_two_pow_sub_one_eq_mod]
  omega

theorem half_pushHalf : (half (pushHalf h ++ after) 0 : Int) = h % 2 ^ 18 := by
  have hsix : ∀ n : Int, (sixBits (UInt8.ofNat (n % 64).toNat :: after) 0 : Int) = n % 64 := by
    intro n
    rw [sixBits_cons _ _ (by omega)]
    omega
  have hhalf : (half (pushHalf h ++ after) 0 : Int) =
      h / 2 ^ 12 % 64 * 2 ^ 12 + h / 2 ^ 6 % 64 * 2 ^ 6 + h % 64 := by
    rw [half_eq]
    push_cast
    exact congrArg₂ _ (congrArg₂ _ (congrArg (· * 2 ^ 12) (hsix _))
      (congrArg (· * 2 ^ 6) (hsix _))) (hsix _)
  rw [hhalf]
  omega

/-- The halves of the words come back in order. -/
theorem half_flatMap {words : List Word} {i : Nat} (hi : i < words.length) :
    ((half (words.flatMap wordBytes ++ after) (6 * i) : Int),
      (half (words.flatMap wordBytes ++ after) (6 * i + 3) : Int)) = kept words[i] := by
  induction words generalizing i with
  | nil => simp at hi
  | cons w words ih =>
      rw [List.flatMap_cons, List.append_assoc]
      cases i with
      | zero =>
          have hright := half_append (pushHalf (w.1 % 2 ^ 18))
            (pushHalf (w.2 % 2 ^ 18) ++ (words.flatMap wordBytes ++ after)) 0
          rw [pushHalf_length] at hright
          rw [wordBytes, List.append_assoc, half_pushHalf, hright, half_pushHalf]
          simp [kept]
      | succ i =>
          have hi : i < words.length := by simpa using hi
          have hskip := half_append (wordBytes w) (words.flatMap wordBytes ++ after)
          rw [wordBytes_length] at hskip
          have h1 : 6 * (i + 1) = 6 + 6 * i := by omega
          have h2 : 6 * (i + 1) + 3 = 6 + (6 * i + 3) := by omega
          rw [h1, hskip, ← h1, h2, hskip]
          exact ih hi

/-- The count of the header. -/
theorem half_encodeWords (hcount : 1 ≤ words.length ∧ words.length ≤ 2 ^ 18) :
    2 ^ 18 - half (encodeWords words ++ after) 0 = words.length := by
  have hheader : (half (encodeWords words ++ after) 0 : Int) =
      (2 ^ 18 - words.length : Int) % 2 ^ 18 := by
    rw [encodeWords, List.append_assoc, List.append_assoc]
    exact half_pushHalf _ _
  omega

/-- The option block comes back whole, whatever follows it, and is not taken for whole before
its last byte is there. -/
theorem decodeOptionBlock_encodeWords (hcount : 1 ≤ words.length ∧ words.length ≤ 2 ^ 18) :
    decodeOptionBlock (encodeWords words ++ after) =
        some (words.map kept, (encodeWords words).length) ∧
      ∀ k < (encodeWords words).length,
        decodeOptionBlock ((encodeWords words ++ after).take k) = none := by
  constructor
  · have hlength : (encodeWords words ++ after).length = 6 + 6 * words.length + after.length := by
      simp
    have hread := half_encodeWords words after hcount
    have hsplit : encodeWords words ++ after =
        (pushHalf (2 ^ 18 - words.length) ++ pushHalf 0) ++
          (words.flatMap wordBytes ++ after) := by
      rw [encodeWords, List.append_assoc]
      rfl
    have hskip := half_append (pushHalf (2 ^ 18 - words.length) ++ pushHalf 0)
      (words.flatMap wordBytes ++ after)
    rw [← hsplit] at hskip
    unfold decodeOptionBlock
    rw [if_neg (by omega), hread, if_neg (by omega), encodeWords_length]
    simp only [Option.some.injEq, Prod.mk.injEq, and_true]
    refine List.ext_getElem (by simp) fun i h1 h2 => ?_
    have hi : i < words.length := by simpa using h2
    simp only [List.getElem_map, List.getElem_range]
    rw [← half_flatMap after hi, ← hskip (6 * i), ← hskip (6 * i + 3)]
    have h9 : 9 + 6 * i = 6 + (6 * i + 3) := by omega
    rw [h9]
    rfl
  · intro k hk
    rw [encodeWords_length] at hk
    have hlength : ((encodeWords words ++ after).take k).length = k := by
      rw [List.length_take, List.length_append, encodeWords_length]
      omega
    unfold decodeOptionBlock
    rw [hlength]
    by_cases hshort : k < 6
    · exact if_pos hshort
    · -- the header is there, and says how much is missing
      have hheader : half ((encodeWords words ++ after).take k) 0 =
          half (encodeWords words ++ after) 0 := by
        conv_rhs => rw [← List.take_append_drop k (encodeWords words ++ after)]
        exact (half_append_left _ _ (by omega)).symm
      rw [if_neg hshort, hheader, half_encodeWords words after hcount, if_pos hk]

/-- The block that a terminal of 24 lines sends. -/
theorem decodeOptionBlock_sample :
    decodeOptionBlock (encodeWords (optionWords { rows := 24, cols := 80 }) ++ [0o232]) =
        some ((optionWords { rows := 24, cols := 80 }).map kept,
          (encodeWords (optionWords { rows := 24, cols := 80 })).length) ∧
      ∀ k < (encodeWords (optionWords { rows := 24, cols := 80 })).length,
        decodeOptionBlock
          ((encodeWords (optionWords { rows := 24, cols := 80 }) ++ [0o232]).take k) = none :=
  decodeOptionBlock_encodeWords _ _ (by decide)

end Options

/-! ### The display codes -/

namespace TD

def mov : UInt8 := 0o200
def eof : UInt8 := 0o202
def eol : UInt8 := 0o203
def dlf : UInt8 := 0o204
def crl : UInt8 := 0o207
def bs : UInt8 := 0o211
def lf : UInt8 := 0o212
def rcr : UInt8 := 0o213
def qot : UInt8 := 0o215
def fs : UInt8 := 0o216
def mv0 : UInt8 := 0o217
def clr : UInt8 := 0o220
def bel : UInt8 := 0o221
def ilp : UInt8 := 0o223
def dlp : UInt8 := 0o224
def icp : UInt8 := 0o225
def dcp : UInt8 := 0o226
def rsu : UInt8 := 0o232
def rsd : UInt8 := 0o233

end TD

/-- `TD_ARGS`. -/
def tdArgs (b : UInt8) : Option Nat :=
  if b = TD.mov then some 4
  else if b = TD.mv0 ∨ b = TD.rsu ∨ b = TD.rsd then some 2
  else if b = TD.ilp ∨ b = TD.dlp ∨ b = TD.icp ∨ b = TD.dcp ∨ b = TD.qot then some 1
  else none

/-- A byte that the local terminal can show as it is. -/
def shown (b : UInt8) : Bool :=
  (0o40 ≤ b && b < 0o177) || b = 0o7 || b = 0o10 || b = 0o11 || b = 0o12 || b = 0o15

def esc : Char := Char.ofNat 0x1b

/-- `String.fromCharCode`. -/
def fromCharCode (b : UInt8) : List Char := [Char.ofNat b.toNat]

/-- A number in decimal. -/
def digits (n : Nat) : List Char := (toString n).toList

def csi (n : Nat) (final : Char) : List Char :=
  if 0 < n then esc :: '[' :: digits n ++ [final] else []

/-- `#simple`: the codes without arguments. -/
def simple (b : UInt8) : List Char :=
  if b = TD.eof then [esc, '[', 'J']
  else if b = TD.eol then [esc, '[', 'K']
  else if b = TD.dlf then [esc, '[', 'X']
  else if b = TD.crl then ['\r', '\n', esc, '[', 'K']
  else if b = TD.bs then [Char.ofNat 8]
  else if b = TD.lf then [esc, '[', 'B']
  else if b = TD.rcr then ['\r']
  else if b = TD.fs then [esc, '[', 'C']
  else if b = TD.clr then [esc, '[', 'H', esc, '[', '2', 'J']
  else if b = TD.bel then [Char.ofNat 7]
  else []

/-- `#finish`: a code and its arguments. -/
def finish (op : UInt8) (a : List UInt8) : List Char :=
  let arg (i : Nat) : Nat := (a.getD i 0).toNat
  let cursor (v h : Nat) : List Char := esc :: '[' :: digits (v + 1) ++ ';' :: digits (h + 1) ++ ['H']
  if op = TD.mv0 then cursor (arg 0) (arg 1)
  else if op = TD.mov then cursor (arg 2) (arg 3)
  else if op = TD.ilp then csi (arg 0) 'L'
  else if op = TD.dlp then csi (arg 0) 'M'
  else if op = TD.icp then csi (arg 0) '@'
  else if op = TD.dcp then csi (arg 0) 'P'
  else if op = TD.qot then if shown (a.getD 0 0) then fromCharCode (a.getD 0 0) else []
  else []

/-- The code that waits for its arguments, and those that came. -/
structure SupdupDecoder where
  op : Option UInt8
  args : List UInt8
  deriving DecidableEq

namespace SupdupDecoder

def initial : SupdupDecoder := ⟨none, []⟩

def decode (d : SupdupDecoder) (b : UInt8) : SupdupDecoder × List Char :=
  match d.op with
  | some op =>
      let args := d.args ++ [b]
      if some args.length = tdArgs op then (initial, finish op args) else (⟨some op, args⟩, [])
  | none =>
      if shown b then (d, fromCharCode b)
      else if (tdArgs b).isSome then (⟨some b, d.args⟩, [])
      else (d, simple b)

def feed (d : SupdupDecoder) : List UInt8 → SupdupDecoder × List Char
  | [] => (d, [])
  | b :: chunk => ((feed (d.decode b).1 chunk).1, (d.decode b).2 ++ (feed (d.decode b).1 chunk).2)

/-- What is written for the reads of a connection. -/
def session (d : SupdupDecoder) : List (List UInt8) → List Char
  | [] => []
  | chunk :: chunks => (d.feed chunk).2 ++ session (d.feed chunk).1 chunks

end SupdupDecoder

/-! ### What a stream of codes says -/

/-- A byte without arguments, or a code with as many arguments as it takes. -/
inductive Item where
  | byte (b : UInt8) (h : tdArgs b = none)
  | code (op : UInt8) (args : List UInt8) (h : tdArgs op = some args.length)

namespace Item

def bytes : Item → List UInt8
  | byte b _ => [b]
  | code op args _ => op :: args

def text : Item → List Char
  | byte b _ => if shown b then fromCharCode b else simple b
  | code op args _ => finish op args

end Item

/-- What is there of a code that is not whole. -/
inductive Pending where
  | nothing
  | code (op : UInt8) (args : List UInt8) (n : Nat) (hop : tdArgs op = some n)
      (hlt : args.length < n)

namespace Pending

def bytes : Pending → List UInt8
  | nothing => []
  | code op args _ _ _ => op :: args

def decoder : Pending → SupdupDecoder
  | nothing => .initial
  | code op args _ _ _ => ⟨some op, args⟩

end Pending

theorem tdArgs_pos {op : UInt8} {n : Nat} (h : tdArgs op = some n) : 0 < n := by
  unfold tdArgs at h
  split at h
  · cases h
    decide
  split at h
  · cases h
    decide
  split at h
  · cases h
    decide
  · cases h

/-- What is shown is ASCII, and a code with arguments is not. -/
theorem tdArgs_of_shown {b : UInt8} (h : shown b = true) : tdArgs b = none := by
  have hne : ∀ {code : UInt8}, shown code = false → b ≠ code := by
    intro code hcode heq
    rw [← heq, h] at hcode
    cases hcode
  have hnone : ¬(b = TD.mv0 ∨ b = TD.rsu ∨ b = TD.rsd) :=
    not_or.mpr ⟨hne rfl, not_or.mpr ⟨hne rfl, hne rfl⟩⟩
  have hone : ¬(b = TD.ilp ∨ b = TD.dlp ∨ b = TD.icp ∨ b = TD.dcp ∨ b = TD.qot) :=
    not_or.mpr ⟨hne rfl, not_or.mpr ⟨hne rfl, not_or.mpr ⟨hne rfl, not_or.mpr ⟨hne rfl, hne rfl⟩⟩⟩⟩
  rw [tdArgs, if_neg (hne rfl), if_neg hnone, if_neg hone]

theorem not_shown_of_tdArgs {b : UInt8} {n : Nat} (h : tdArgs b = some n) : shown b = false := by
  by_contra hshown
  rw [tdArgs_of_shown (by simpa using hshown)] at h
  cases h

/-- Every stream is whole items and the start of a code. -/
theorem exists_items (bytes : List UInt8) :
    ∃ (items : List Item) (pending : Pending),
      bytes = items.flatMap Item.bytes ++ pending.bytes := by
  induction hn : bytes.length using Nat.strong_induction_on generalizing bytes with
  | _ n ih =>
      cases bytes with
      | nil => exact ⟨[], .nothing, rfl⟩
      | cons b rest =>
          rw [List.length_cons] at hn
          cases hb : tdArgs b with
          | none =>
              obtain ⟨items, pending, hrest⟩ := ih rest.length (by omega) rest rfl
              exact ⟨.byte b hb :: items, pending, by rw [hrest]; rfl⟩
          | some k =>
              by_cases hlt : rest.length < k
              · exact ⟨[], .code b rest k hb hlt, rfl⟩
              · have htake : (rest.take k).length = k := by
                  rw [List.length_take]
                  omega
                have hcode : tdArgs b = some (rest.take k).length := by rw [htake, hb]
                obtain ⟨items, pending, hrest⟩ := ih (rest.drop k).length
                  (by rw [List.length_drop]; omega) (rest.drop k) rfl
                refine ⟨.code b (rest.take k) hcode :: items, pending, ?_⟩
                rw [List.flatMap_cons, List.append_assoc, ← hrest]
                simp [Item.bytes]

namespace SupdupDecoder

variable (d : SupdupDecoder) {op : UInt8} {args : List UInt8} {n : Nat}

theorem feed_append (bytes more : List UInt8) :
    d.feed (bytes ++ more) =
      (((d.feed bytes).1.feed more).1, (d.feed bytes).2 ++ ((d.feed bytes).1.feed more).2) := by
  induction bytes generalizing d with
  | nil => simp [feed]
  | cons b bytes ih => simp [feed, ih]

/-- The reads of a connection may be joined. -/
theorem session_flatten (chunks : List (List UInt8)) :
    d.session chunks = (d.feed chunks.flatten).2 := by
  induction chunks generalizing d with
  | nil => rfl
  | cons chunk chunks ih => rw [session, ih, List.flatten_cons, feed_append]

/-- The arguments of a code are kept until they are all there. -/
theorem feed_args (hop : tdArgs op = some n) {rest : List UInt8}
    (hlt : args.length < n) (hle : args.length + rest.length ≤ n) :
    feed ⟨some op, args⟩ rest =
      if args.length + rest.length < n then (⟨some op, args ++ rest⟩, [])
      else (initial, finish op (args ++ rest)) := by
  induction rest generalizing args with
  | nil => simp [feed, hlt]
  | cons b rest ih =>
      rw [List.length_cons] at hle
      have hlength : (args ++ [b]).length = args.length + 1 := by simp
      by_cases hlast : args.length + 1 = n
      · have hnil : rest = [] := List.eq_nil_of_length_eq_zero (by omega)
        subst hnil
        simp [feed, decode, hop, hlast]
      · have hmore := @ih (args ++ [b]) (by omega) (by omega)
        have hwait : decode ⟨some op, args⟩ b = (⟨some op, args ++ [b]⟩, []) := by
          simp [decode, hop, hlast]
        rw [feed, hwait, hmore, hlength]
        simp [Nat.add_assoc, Nat.add_comm 1]

theorem feed_item (i : Item) : feed initial i.bytes = (initial, i.text) := by
  cases i with
  | byte b h =>
      unfold Item.bytes Item.text
      simp only [feed, decode, initial, h]
      split <;> simp
  | code op args h =>
      have hstart : decode initial op = (⟨some op, []⟩, []) := by
        simp [decode, initial, not_shown_of_tdArgs h, h]
      have hall := @feed_args op [] args.length h args (tdArgs_pos h) (by simp)
      rw [Item.bytes, feed, hstart, hall, if_neg (by simp)]
      rfl

theorem feed_pending (p : Pending) : feed initial p.bytes = (p.decoder, []) := by
  cases p with
  | nothing => rfl
  | code op args n hop hlt =>
      have hstart : decode initial op = (⟨some op, []⟩, []) := by
        simp [decode, initial, not_shown_of_tdArgs hop, hop]
      have hsome := @feed_args op [] n hop args (tdArgs_pos hop) (by simp [hlt.le])
      rw [Pending.bytes, feed, hstart, hsome, if_pos (by simpa using hlt)]
      rfl

theorem feed_items (items : List Item) (p : Pending) :
    feed initial (items.flatMap Item.bytes ++ p.bytes) =
      (p.decoder, items.flatMap Item.text) := by
  induction items with
  | nil => exact feed_pending p
  | cons i items ih =>
      rw [List.flatMap_cons, List.append_assoc, feed_append, feed_item, ih, List.flatMap_cons]

end SupdupDecoder

/-! ### What reaches the local terminal -/

/-- What the decoder lets through: a character, or one of its own sequences. -/
inductive Display where
  | char (b : UInt8) (h : shown b = true)
  | clearToEnd
  | clearLine
  | eraseChar
  | newLine
  | down
  | forward
  | clearScreen
  | cursor (v h : Fin 256)
  | edit (n : Fin 256) (final : Fin 4)

def Display.text : Display → List Char
  | char b _ => fromCharCode b
  | clearToEnd => [esc, '[', 'J']
  | clearLine => [esc, '[', 'K']
  | eraseChar => [esc, '[', 'X']
  | newLine => ['\r', '\n', esc, '[', 'K']
  | down => [esc, '[', 'B']
  | forward => [esc, '[', 'C']
  | clearScreen => [esc, '[', 'H', esc, '[', '2', 'J']
  | cursor v h => esc :: '[' :: digits (v + 1) ++ ';' :: digits (h + 1) ++ ['H']
  | edit n final => csi n (['L', 'M', '@', 'P'].getD final 'L')

theorem framed_simple (b : UInt8) : Framed Display.text (simple b) := by
  unfold simple
  split
  · exact Framed.one Display.clearToEnd
  split
  · exact Framed.one Display.clearLine
  split
  · exact Framed.one Display.eraseChar
  split
  · exact Framed.one Display.newLine
  split
  · exact Framed.one (Display.char 0o10 rfl)
  split
  · exact Framed.one Display.down
  split
  · exact Framed.one (Display.char 0o15 rfl)
  split
  · exact Framed.one Display.forward
  split
  · exact Framed.one Display.clearScreen
  split
  · exact Framed.one (Display.char 0o7 rfl)
  · exact Framed.nil

theorem framed_finish (op : UInt8) (a : List UInt8) : Framed Display.text (finish op a) := by
  let arg (i : Nat) : Fin 256 := ⟨(a.getD i 0).toNat, (a.getD i 0).toNat_lt⟩
  unfold finish
  split
  · exact Framed.one (Display.cursor (arg 0) (arg 1))
  split
  · exact Framed.one (Display.cursor (arg 2) (arg 3))
  split
  · exact Framed.one (Display.edit (arg 0) 0)
  split
  · exact Framed.one (Display.edit (arg 0) 1)
  split
  · exact Framed.one (Display.edit (arg 0) 2)
  split
  · exact Framed.one (Display.edit (arg 0) 3)
  split
  · split
    · next h => exact Framed.one (Display.char _ h)
    · exact Framed.nil
  · exact Framed.nil

theorem framed_itemText (i : Item) : Framed Display.text i.text := by
  cases i with
  | byte b h =>
      change Framed Display.text (if shown b then fromCharCode b else simple b)
      split
      · next hshown => exact Framed.one (Display.char b hshown)
      · exact framed_simple b
  | code op args h => exact framed_finish op args

/-- However a connection is cut into reads, the local terminal is sent the texts of the whole
codes of its stream, and nothing but characters and the sequences of the decoder. -/
theorem session_items (chunks : List (List UInt8)) :
    (∃ (items : List Item) (pending : Pending),
      chunks.flatten = items.flatMap Item.bytes ++ pending.bytes) ∧
    ∀ (items : List Item) (pending : Pending),
      chunks.flatten = items.flatMap Item.bytes ++ pending.bytes →
        SupdupDecoder.session .initial chunks = items.flatMap Item.text ∧
          Framed Display.text (SupdupDecoder.session .initial chunks) := by
  refine ⟨exists_items _, fun items pending h => ?_⟩
  have htext : SupdupDecoder.session .initial chunks = items.flatMap Item.text := by
    rw [SupdupDecoder.session_flatten, h, SupdupDecoder.feed_items]
  rw [htext]
  exact ⟨rfl, Framed.flatMap fun i _ => framed_itemText i⟩

end Terminal.Supdup
