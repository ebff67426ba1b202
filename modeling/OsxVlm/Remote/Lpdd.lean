import Mathlib
import OsxVlm.Library.Decimal

/-!
# The print server and its spool

A connection is the bytes the client sends, the second in which each of its data
files is named, and the acknowledgements that reach the client.  What a
connection writes is a list of data files, whose paths are made of the second, a
counter and the job's name.  The counter lives as long as the process does.
-/

namespace Lpd

open Decimal

abbrev Byte := BitVec 8

def CMD_RECEIVE_JOB : Byte := 0x02

def SUB_ABORT : Byte := 0x01
def SUB_CONTROL_FILE : Byte := 0x02
def SUB_DATA_FILE : Byte := 0x03

/-- What `strftime` makes of a time with `%Y%m%d-%H%M%S`. -/
abbrev Timestamp := { cs : List Char // cs.length = 15 }

structure Connection where
  input : List Byte
  /-- The second in which the `n`-th data file is named. -/
  times : Nat → Timestamp
  /-- The `n`-th acknowledgement can be sent. -/
  writable : Nat → Bool

/-! ### Lines -/

/-- `readline`: up to the next newline, or to the end. -/
def readline (input : List Byte) : List Byte × List Byte :=
  match input.span (· ≠ 0x0a) with
  | (line, []) => (line, [])
  | (line, newline :: rest) => (line ++ [newline], rest)

/-- `rstrip(b"\r\n")`. -/
def rstrip (line : List Byte) : List Byte :=
  (line.reverse.dropWhile fun b => b = 0x0d ∨ b = 0x0a).reverse

/-- `decode("ascii", "replace")`. -/
def decode (bytes : List Byte) : List Char :=
  bytes.map fun b => if b.toNat < 128 then Char.ofNat b.toNat else '\uFFFD'

/-- The digits of a numeral, with single underscores between them. -/
def numeral (afterDigit : Bool) : List Byte → Option (List Nat)
  | [] => if afterDigit then some [] else none
  | b :: bytes =>
      if 48 ≤ b.toNat ∧ b.toNat ≤ 57 then (numeral true bytes).map fun ds => (b.toNat - 48) :: ds
      else if b.toNat = 95 ∧ afterDigit = true then numeral false bytes
      else none

/-- White space around a number. -/
def isSpace (b : Byte) : Bool := b.toNat = 32 ∨ 9 ≤ b.toNat ∧ b.toNat ≤ 13

/-- `int` of bytes; it raises on what is no number, and on more than 4300 digits. -/
def int (bytes : List Byte) : Option Int :=
  let stripped := ((bytes.dropWhile isSpace).reverse.dropWhile isSpace).reverse
  let (negative, digits) :=
    match stripped with
    | b :: rest =>
        if b.toNat = 45 then (true, rest) else if b.toNat = 43 then (false, rest) else (false, b :: rest)
    | [] => (false, [])
  match numeral false digits with
  | none => none
  | some ds =>
      if 4300 < ds.length then none
      else
        let n : Nat := Nat.ofDigits 10 ds.reverse
        some (if negative then -n else n)

/-- `parse_subheader`: the count and the name. -/
def parseSubheader (line : List Byte) : Option (Int × List Char) :=
  let (count, rest) := (rstrip line).span (· ≠ 0x20)
  let name := decode (rest.drop 1)
  if count = [] then some (0, name) else (int count).map fun n => (n, name)

/-! ### Control files -/

/-- Where `splitlines` splits ASCII text. -/
def isLineBreak (c : Char) : Bool :=
  c = '\n' ∨ c = '\r' ∨ c.toNat = 0x0b ∨ c.toNat = 0x0c ∨ c.toNat = 0x1c ∨ c.toNat = 0x1d ∨
    c.toNat = 0x1e

/-- `splitlines`, with the line read so far. -/
def splitlines (line : List Char) : List Char → List (List Char)
  | [] => if line = [] then [] else [line]
  | '\r' :: '\n' :: text => line :: splitlines [] text
  | c :: text => if isLineBreak c then line :: splitlines [] text else splitlines (line ++ [c]) text

abbrev Control := Char → Option (List Char)

/-- `parse_control`: the first of each of the lines that are kept. -/
def parseControl (payload : List Byte) : Control :=
  (splitlines [] (decode payload)).foldl
    (fun info line =>
      match line with
      | [] => info
      | key :: val =>
          if key ∈ ['H', 'P', 'J', 'N'] ∧ info key = none then Function.update info key (some val)
          else info)
    (fun _ => none)

/-! ### File names -/

inductive Ext where
  | ps
  | txt
  deriving DecidableEq

def Ext.chars : Ext → List Char
  | .ps => ".ps".toList
  | .txt => ".txt".toList

/-- A data file as `receive_job` writes it. -/
structure DataFile where
  time : Timestamp
  seq : Nat
  tag : List Char
  ext : Ext
  payload : List Byte

/-- The first that is there and not empty. -/
def firstNonempty : List (Option (List Char)) → List Char
  | [] => "job".toList
  | some (c :: cs) :: _ => c :: cs
  | _ :: rest => firstNonempty rest

/-- `strip("_")`. -/
def strip (cs : List Char) : List Char :=
  ((cs.dropWhile (· = '_')).reverse.dropWhile (· = '_')).reverse

/-- The job's name, safe and short. -/
def tagOf (ctl : Control) (name : List Char) : List Char :=
  let tag := firstNonempty [ctl 'J', ctl 'N', some name]
  strip ((tag.map fun c => if c.isAlphanum ∨ c ∈ ['.', '_', '-'] then c else '_').take 40)

/-- The suffix sniffed from the data. -/
def extOf (data : List Byte) : Ext :=
  if data.take 2 = [0x25, 0x21] ∨ data.take 2 = [0x04, 0x25] then .ps else .txt

/-- `make_filename` without the spool directory. -/
def DataFile.base (f : DataFile) : List Char :=
  "genera-".toList ++ (f.time ++ '-' :: (padded 3 f.seq ++
    ((if f.tag = [] then [] else '-' :: f.tag) ++ f.ext.chars)))

/-- `os.path.join`. -/
def join (spool base : List Char) : List Char :=
  if spool = [] ∨ spool.getLast? = some '/' then spool ++ base else spool ++ '/' :: base

def DataFile.path (spool : List Char) (f : DataFile) : List Char := join spool f.base

/-! ### Connections -/

/-- The payload of a file and what is left behind it; `none` at an early end. -/
def payloadOf (count : Int) (input : List Byte) : Option (List Byte × List Byte) :=
  if 0 < count then
    if input.length < count.toNat then none
    else some (input.take count.toNat, input.drop (count.toNat + 1))
  else some (input, [])

theorem readline_length (input : List Byte) : (readline input).2.length ≤ input.length := by
  have hsplit := List.takeWhile_append_dropWhile (p := (· ≠ (0x0a : Byte))) (l := input)
  have hlen := congrArg List.length hsplit
  unfold readline
  rw [List.span_eq_takeWhile_dropWhile]
  split
  · next heq => simp
  · next line newline rest heq =>
      simp only [Prod.mk.injEq] at heq
      rw [List.length_append, heq.2, List.length_cons] at hlen
      show rest.length ≤ input.length
      omega

theorem payloadOf_length {count : Int} {input payload rest : List Byte}
    (h : payloadOf count input = some (payload, rest)) : rest.length ≤ input.length := by
  unfold payloadOf at h
  split at h
  · split at h
    · cases h
    · cases h
      simp
  · cases h
    simp

/-- The loop of `receive_job`: the data files it writes, numbered from `seq` on. -/
def receiveLoop (conn : Connection) (seq acks files : Nat) (ctl : Control) :
    List Byte → List DataFile
  | [] => []
  | sub :: input =>
      if conn.writable acks = false ∨ sub = SUB_ABORT then []
      else if sub ≠ SUB_CONTROL_FILE ∧ sub ≠ SUB_DATA_FILE then
        receiveLoop conn seq (acks + 1) files ctl (readline input).2
      else
        match parseSubheader (readline input).1 with
        | none => []
        | some (count, name) =>
            match hpayload : payloadOf count (readline input).2 with
            | none => []
            | some (payload, rest) =>
                if conn.writable (acks + 1) = false then []
                else if sub = SUB_CONTROL_FILE then
                  if count = 0 then []
                  else receiveLoop conn seq (acks + 2) files (parseControl payload) rest
                else
                  ⟨conn.times files, seq + files, tagOf ctl name, extOf payload, payload⟩ ::
                    if count = 0 then []
                    else receiveLoop conn seq (acks + 2) (files + 1) ctl rest
termination_by input => input.length
decreasing_by
  · have := readline_length input
    simp only [List.length_cons]
    omega
  · have := readline_length input
    have := payloadOf_length hpayload
    simp only [List.length_cons]
    omega
  · have := readline_length input
    have := payloadOf_length hpayload
    simp only [List.length_cons]
    omega

/-- `serve`: only one command writes files. -/
def serve (conn : Connection) (seq : Nat) : List DataFile :=
  match conn.input with
  | [] => []
  | cmd :: input =>
      if cmd = CMD_RECEIVE_JOB ∧ conn.writable 0 = true then
        receiveLoop conn seq 1 0 (fun _ => none) (readline input).2
      else []

inductive Mode where
  /-- One process serves all connections. -/
  | daemon
  /-- Each connection has a process of its own. -/
  | inetd
  deriving DecidableEq

/-- `_seq` when the next connection is served. -/
def Mode.nextSeq (mode : Mode) (seq : Nat) (files : List DataFile) : Nat :=
  match mode with
  | .daemon => seq + files.length
  | .inetd => 1

/-- The files of each connection, with `_seq` at `seq` before the first. -/
def serveAll (mode : Mode) (seq : Nat) : List Connection → List (List DataFile)
  | [] => []
  | conn :: conns =>
      serve conn seq :: serveAll mode (mode.nextSeq seq (serve conn seq)) conns

/-- The spool directory after the writes. -/
def writeAll (spool : List Char) (contents : List Char → Option (List Byte)) (files : List DataFile) :
    List Char → Option (List Byte) :=
  files.foldl (fun contents f => Function.update contents (f.path spool) (some f.payload)) contents

end Lpd
