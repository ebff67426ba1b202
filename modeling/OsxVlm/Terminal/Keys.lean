import Mathlib
import OsxVlm.Terminal.Screen

/-!
# The keys of the local terminal

Two programs read keys from the local terminal and encode them for Genera: as the
triples of the 3600 terminal, or as the input of SUPDUP.  Their loops are the same
but for the tables and for the text that the 3600 terminal takes as UTF-8:

    Ctrl-]              the next key is looked up in the menu
    ESC                 the key Escape, when nothing follows in the read
    ESC [ ... , ESC O   a key sequence of the terminal
    ESC n               the key `n` with Meta
    any other byte      the text that starts there

What is carried from one read to the next is only that Ctrl-] was the last key.
-/

namespace Terminal

/-- What a read comes to. -/
structure KeyResult where
  bytes : List Nat
  quit : Bool
  help : Bool
  deriving DecidableEq

namespace KeyResult

def none : KeyResult := ⟨[], false, false⟩

/-- The result of `r`, after which `s` went on. -/
def andThen (r s : KeyResult) : KeyResult :=
  ⟨r.bytes ++ s.bytes, r.quit || s.quit, r.help || s.help⟩

def sends (out : List Nat) : KeyResult := ⟨out, false, false⟩

@[simp] theorem none_andThen (r : KeyResult) : none.andThen r = r := by
  cases r
  rfl

@[simp] theorem andThen_none (r : KeyResult) : r.andThen none = r := by
  cases r
  simp [andThen, none]

theorem andThen_assoc (r s t : KeyResult) :
    (r.andThen s).andThen t = r.andThen (s.andThen t) := by
  simp [andThen, Bool.or_assoc]

@[simp] theorem sends_quit (out : List Nat) : (sends out).quit = false := rfl

@[simp] theorem none_quit : none.quit = false := rfl

end KeyResult

/-! ### Decoding what a terminal sends -/

/-- The state of the decoder of UTF-8 between two bytes. -/
structure Utf8State where
  needed : Nat
  codePoint : Nat
  lower : Nat
  upper : Nat

namespace Utf8State

def ground : Utf8State := ⟨0, 0, 0x80, 0xbf⟩

/-- A lead byte, of a character of its own (`inl`) or of a sequence. -/
def lead (b : Nat) : Sum Char Utf8State :=
  if b ≤ 0x7f then .inl (Char.ofNat b)
  else if 0xc2 ≤ b ∧ b ≤ 0xdf then .inr ⟨1, b - 0xc0, 0x80, 0xbf⟩
  else if 0xe0 ≤ b ∧ b ≤ 0xef then
    .inr ⟨2, b - 0xe0, if b = 0xe0 then 0xa0 else 0x80, if b = 0xed then 0x9f else 0xbf⟩
  else if 0xf0 ≤ b ∧ b ≤ 0xf4 then
    .inr ⟨3, b - 0xf0, if b = 0xf0 then 0x90 else 0x80, if b = 0xf4 then 0x8f else 0xbf⟩
  else .inl (Char.ofNat 0xfffd)

end Utf8State

/-- A byte that does not go on is replaced with what came before it, and starts anew. -/
def decodeFrom : Utf8State → List Nat → List Char
  | s, [] => if s.needed = 0 then [] else [Char.ofNat 0xfffd]
  | s, b :: rest =>
      if s.needed ≠ 0 ∧ s.lower ≤ b ∧ b ≤ s.upper then
        let codePoint := s.codePoint * 64 + (b - 0x80)
        if s.needed = 1 then Char.ofNat codePoint :: decodeFrom .ground rest
        else decodeFrom ⟨s.needed - 1, codePoint, 0x80, 0xbf⟩ rest
      else
        let replaced := if s.needed = 0 then [] else [Char.ofNat 0xfffd]
        match Utf8State.lead b with
        | .inl ch => replaced ++ ch :: decodeFrom .ground rest
        | .inr t => replaced ++ decodeFrom t rest

/-- `TextDecoder.decode`: a byte order mark at the start is not text. -/
def textDecode (bytes : List Nat) : List Char :=
  match decodeFrom .ground bytes with
  | [] => []
  | ch :: rest => if ch = Char.ofNat 0xfeff then rest else ch :: rest

/-- The digits at the start of a text, read by `parseInt`. -/
def digitsValue (text : List Char) : Option Int :=
  match text.takeWhile Char.isDigit with
  | [] => none
  | digits => some (digits.foldl (fun n d => n * 10 + (d.toNat - 48)) 0 : Nat)

/-- `parseInt(text, 10)`; none is NaN. -/
def parseInt (text : List Char) : Option Int :=
  match text.dropWhile (· = ' ') with
  | '-' :: rest => (digitsValue rest).map (- ·)
  | '+' :: rest => digitsValue rest
  | rest => digitsValue rest

/-! ### The loop over a read -/

/-- What the two key encoders differ in. -/
structure Keyboard where
  logout : List Nat
  menu : List (Char × List Nat)
  csiFinal : List (Char × List Nat)
  csiTilde : List (Int × List Nat)
  escape : List Nat
  /-- The bytes, the first included, that are taken as one text. -/
  width : Nat → Nat
  text : List Nat → List Nat
  /-- What ESC and a key come to. -/
  metaNext : Nat → List Nat

namespace Keyboard

def escapeKey : Nat := 0x1d

/-- A key sequence without an entry is no key. -/
def lookupSequence (k : Keyboard) (final : Char) (params : List Char) : List Nat :=
  if final = '~' then
    match parseInt (params.takeWhile (· ≠ ';')) with
    | none => []
    | some n => (k.csiTilde.lookup n).getD []
  else (k.csiFinal.lookup final).getD []

def isParam (b : Nat) : Bool := 0x20 ≤ b && b ≤ 0x3f

/-- The loop of `feed`, with whether Ctrl-] was the last key. -/
def feedFrom (k : Keyboard) : Bool → List Nat → Bool × KeyResult
  | menu, [] => (menu, .none)
  | true, b :: rest =>
      let ch := Char.ofNat b
      if ch = 'q' ∨ ch = 'Q' then (false, ⟨k.logout, true, false⟩)
      else
        let (menu, r) := feedFrom k false rest
        if ch = '?' then (menu, KeyResult.andThen ⟨[], false, true⟩ r)
        else (menu, (KeyResult.sends ((k.menu.lookup ch).getD [])).andThen r)
  | false, b :: rest =>
      if b = escapeKey then feedFrom k true rest
      else if b ≠ 0x1b then
        let (menu, r) := feedFrom k false (rest.drop (k.width b - 1))
        (menu, (KeyResult.sends (k.text (b :: rest.take (k.width b - 1)))).andThen r)
      else
        match rest with
        | [] => (false, .sends k.escape)
        | n :: rest =>
            if (n = 0x5b ∨ n = 0x4f) ∧ rest ≠ [] then
              match h : rest.dropWhile isParam with
              | [] => (false, .none)
              | final :: after =>
                  let (menu, r) := feedFrom k false after
                  (menu, (KeyResult.sends (k.lookupSequence (Char.ofNat final)
                    (textDecode (rest.takeWhile isParam)))).andThen r)
            else
              let (menu, r) := feedFrom k false rest
              (menu, (KeyResult.sends (k.metaNext n)).andThen r)
  termination_by _ bytes => bytes.length
  decreasing_by
    all_goals
      have := (rest.dropWhile_sublist isParam).length_le
      simp_all
      try omega

/-- The result is sent as bytes. -/
def feed (k : Keyboard) (menu : Bool) (chunk : List Nat) : Bool × KeyResult :=
  let (menu, r) := k.feedFrom menu chunk
  (menu, { r with bytes := r.bytes.map (· % 256) })

/-- The reads of a terminal are fed until one of them quits. -/
def session (k : Keyboard) : Bool → List (List Nat) → KeyResult
  | _, [] => .none
  | menu, chunk :: chunks =>
      let (menu, r) := k.feed menu chunk
      if r.quit then r else r.andThen (session k menu chunks)

end Keyboard

/-! ### The 3600 terminal -/

namespace Genera3600

inductive Key where
  | space | suspend | clearInput | function | help | rubout | backspace | tab | line
  | refresh | page | «return» | abort | resume | «end» | square | circle | triangle
  | scroll | select | network | escape | complete | symbolHelp

/-- `KEY_CODES`. -/
def keyCode : Key → Nat
  | .space => 32
  | .suspend => 129
  | .clearInput => 130
  | .function => 132
  | .help => 134
  | .rubout => 135
  | .backspace => 136
  | .tab => 137
  | .line => 138
  | .refresh => 139
  | .page => 140
  | .«return» => 141
  | .abort => 145
  | .resume => 146
  | .«end» => 148
  | .square => 149
  | .circle => 150
  | .triangle => 151
  | .scroll => 154
  | .select => 157
  | .network => 158
  | .escape => 159
  | .complete => 160
  | .symbolHelp => 161

def logout : List Nat := [0]

def control : Nat := 1

def metaBit : Nat := 2

/-- One Genera character. -/
def encodeChar (code : Nat) (bits : Nat := 0) : List Nat := [3, bits % 256, code % 256]

def key (name : Key) (bits : Nat := 0) : List Nat := encodeChar (keyCode name) bits

def ctl (ch : Char) : List Nat := encodeChar ch.toNat control

def met (ch : Char) : List Nat := encodeChar ch.toNat metaBit

def csiFinal : List (Char × List Nat) :=
  [('A', ctl 'P'), ('B', ctl 'N'), ('C', ctl 'F'), ('D', ctl 'B'), ('H', met '<'),
   ('F', key .«end»), ('P', key .help), ('Q', key .suspend), ('R', key .resume),
   ('S', key .abort)]

def csiTilde : List (Int × List Nat) :=
  [(1, met '<'), (7, met '<'), (4, key .«end»), (8, key .«end»), (5, met 'V'), (6, ctl 'V'),
   (11, key .help), (12, key .suspend), (13, key .resume), (14, key .abort),
   (15, key .refresh), (17, key .clearInput), (18, key .function), (19, key .«end»),
   (20, key .network)]

def menu : List (Char × List Nat) :=
  [('h', key .help), ('a', key .abort), ('e', key .«end»), ('s', key .suspend),
   ('r', key .resume), ('c', key .clearInput), ('f', key .function), ('n', key .network),
   ('l', key .refresh), ('x', key .complete), ('S', key .select),
   (Char.ofNat Keyboard.escapeKey, ctl ']')]

def isLetter (b : Nat) : Bool := (0x41 ≤ b && b ≤ 0x5a) || (0x61 ≤ b && b ≤ 0x7a)

/-- Any control byte without a key of its own is control with the uppercase letter. -/
def encodeByte (b extra : Nat) : List Nat :=
  if b = 0x0d then key .«return» extra
  else if b = 0x7f then key .rubout extra
  else if b = 0x09 then key .tab extra
  else if b = 0x1b then key .escape extra
  else if b < 0x20 then encodeChar (b + 0x40) (control ||| extra)
  else if extra = 0 then encodeChar b
  else encodeChar (if isLetter b then b ^^^ 0x20 else b) extra

/-- Bytes in the sequence that starts with `b`. -/
def utf8Length (b : Nat) : Nat :=
  if 0xf0 ≤ b then 4 else if 0xe0 ≤ b then 3 else if 0xc0 ≤ b then 2 else 1

/-- `GLYPH_TO_CODE`. -/
def glyphToCode (ch : Char) : Option Nat :=
  if ch = integralGlyph then some 0x7f else sailGlyphs.findIdx? (· = ch)

def textCode (ch : Char) : Option Nat :=
  if 0x20 ≤ ch.toNat ∧ ch.toNat ≤ 0x7e then some ch.toNat
  else if ch = '\n' ∨ ch = '\r' then some (keyCode .«return»)
  else if ch = '\t' then some (keyCode .tab)
  else if ch = Char.ofNat 8 then some (keyCode .backspace)
  else if ch = Char.ofNat 0x7f then some (keyCode .rubout)
  else glyphToCode ch

/-- A return before a newline is one Return with it. -/
def joinReturns : List Char → List Char
  | '\r' :: '\n' :: rest => '\n' :: joinReturns rest
  | ch :: rest => ch :: joinReturns rest
  | [] => []

/-- None where the source throws. -/
def encodeText (str : List Char) : Option (List Nat) :=
  ((joinReturns str).mapM textCode).map fun codes => codes.flatMap encodeChar

/-- A byte from 128 on starts a text, and what has no Genera code is dropped. -/
def text (bytes : List Nat) : List Nat :=
  match bytes with
  | [] => []
  | b :: _ =>
      if 0x80 ≤ b then (encodeText (textDecode bytes)).getD [] else encodeByte b 0

/-- What Escape before a key types. -/
def metaKey (n : Nat) : List Nat :=
  if n = Keyboard.escapeKey then encodeChar 0x5d (control ||| metaBit)
  else if n < 0x80 then encodeByte n metaBit
  else []

/-- `KeyEncoder3600`. -/
def keyEncoder3600 : Keyboard :=
  { logout := logout
    menu := menu
    csiFinal := csiFinal
    csiTilde := csiTilde
    escape := key .escape
    width := utf8Length
    text := text
    metaNext := metaKey }

end Genera3600

/-! ### SUPDUP -/

namespace Supdup

def itpEscape : Nat := 0o34

def logout : List Nat := [0o300, 0o301]

namespace Bit

def control : Nat := 1
def metaBit : Nat := 2
def top : Nat := 16

end Bit

/-- The prefix with its bits, and the character. -/
def bucky (bits ch : Nat) : List Nat := [itpEscape, 0o100 + bits, ch]

def ctl (ch : Char) : List Nat := bucky Bit.control ch.toNat

def met (ch : Char) : List Nat := bucky Bit.metaBit ch.toNat

def top (ch : Char) : List Nat := bucky Bit.top ch.toNat

namespace Keys

def help : List Nat := top 'H'
def suspend : List Nat := top 'B'
def clearInput : List Nat := top 'C'
def function : List Nat := top 'A'
def abort : List Nat := top 'a'
def «end» : List Nat := top 'e'
def network : List Nat := top 'n'
def resume : List Nat := ctl 'H'
def refresh : List Nat := [0o14]
def cRightBracket : List Nat := ctl ']'

end Keys

def csiFinal : List (Char × List Nat) :=
  [('A', ctl 'P'), ('B', ctl 'N'), ('C', ctl 'F'), ('D', ctl 'B'), ('H', met '<'),
   ('F', Keys.«end»), ('P', Keys.help), ('Q', Keys.suspend), ('R', Keys.resume),
   ('S', Keys.abort)]

def csiTilde : List (Int × List Nat) :=
  [(1, met '<'), (7, met '<'), (4, Keys.«end»), (8, Keys.«end»), (5, met 'V'), (6, ctl 'V'),
   (11, Keys.help), (12, Keys.suspend), (13, Keys.resume), (14, Keys.abort),
   (15, Keys.refresh), (17, Keys.clearInput), (18, Keys.function), (19, Keys.«end»),
   (20, Keys.network)]

def menu : List (Char × List Nat) :=
  [('h', Keys.help), ('a', Keys.abort), ('e', Keys.«end»), ('s', Keys.suspend),
   ('r', Keys.resume), ('c', Keys.clearInput), ('f', Keys.function), ('n', Keys.network),
   ('l', Keys.refresh), (Char.ofNat Keyboard.escapeKey, Keys.cRightBracket)]

def isUpper (c : Nat) : Bool := 0o101 ≤ c && c ≤ 0o132

def isLower (c : Nat) : Bool := 0o141 ≤ c && c ≤ 0o172

def isLetter (c : Nat) : Bool := isUpper c || isLower c

/-- A byte from 128 on sends nothing: it could be the start of a logout. -/
def encodeByte (b extra : Nat) : List Nat :=
  if 0o200 ≤ b then []
  else if b = 0o11 ∨ b = 0o15 ∨ b = 0o10 ∨ b = 0o33 ∨ b = 0o177 then
    if extra ≠ 0 then bucky extra b else [b]
  else if b = itpEscape then
    if extra ≠ 0 then bucky (Bit.control ||| extra) '\\'.toNat else [itpEscape, itpEscape]
  else if b < 0o40 then bucky (Bit.control ||| extra) (b + 0o100)
  else if extra = 0 then [b]
  else bucky extra (if isLetter b then b ^^^ 0o40 else b)

/-- A byte is a text of its own. -/
def text (bytes : List Nat) : List Nat :=
  match bytes with
  | [] => []
  | b :: _ => encodeByte b 0

def metaKey (n : Nat) : List Nat :=
  if n = Keyboard.escapeKey then bucky (Bit.control ||| Bit.metaBit) ']'.toNat
  else encodeByte n Bit.metaBit

/-- `KeyEncoder`. -/
def keyEncoder : Keyboard :=
  { logout := logout
    menu := menu
    csiFinal := csiFinal
    csiTilde := csiTilde
    escape := [0o33]
    width := fun _ => 1
    text := text
    metaNext := metaKey }

end Supdup

end Terminal
