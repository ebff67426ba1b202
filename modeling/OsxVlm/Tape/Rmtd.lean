import Mathlib
import OsxVlm.Tape.Simh

/-!
# The tape server

A tape image and its file position, the half-delivered record and the sticky
end-of-file bit, moved by the commands of the magtape protocol.  `none` is an
exception of the server, which ends the session; no command that raises one has
written to the image.
-/

namespace Rmt

open Simh

structure Tape where
  image : List Byte
  pos : Nat
  /-- What is still owed of a record that overran the last read. -/
  pending : List Byte := []
  /-- The last read hit a tape mark. -/
  sawFilemark : Bool := false
  deriving DecidableEq

/-- Any tape motion drops a half-delivered record and the end-of-file bit. -/
def Tape.reposition (t : Tape) : Tape := { t with pending := [], sawFilemark := false }

def Tape.reopen (t : Tape) : Tape := { t with sawFilemark := false }

/-! ### Forward motion -/

/-- `read_block` on the rest of the file from `pos`: the block and the position
after it.  Gaps are transparent, a truncated record ends at the end of the file. -/
def readBlockAt : List Byte → Nat → Block × Nat
  | b0 :: b1 :: b2 :: b3 :: rest, pos =>
      let n := unpack b0 b1 b2 b3
      if n = tapeMark then (.mark, pos + 4)
      else if n = eraseGap then readBlockAt rest (pos + 4)
      else if n = eomMark then (.eom, pos)
      else
        let length := dataLength n
        (.data (rest.take length), pos + 4 + min rest.length (length + length % 2 + 4))
  | _, pos => (.eom, pos)

def Tape.readBlock (t : Tape) : Block × Tape :=
  let r := readBlockAt (t.image.drop t.pos) t.pos
  (r.1, { t with pos := r.2 })

/-- A block that was read lies before the place where the read stops. -/
theorem readBlockAt_advance (rest : List Byte) (pos : Nat) (h : (readBlockAt rest pos).1 ≠ .eom) :
    pos + 4 ≤ (readBlockAt rest pos).2 ∧ (readBlockAt rest pos).2 ≤ pos + rest.length := by
  fun_induction readBlockAt rest pos with
  | case1 =>
      simp only [List.length_cons]
      omega
  | case2 _ _ _ _ _ _ _ _ _ ih =>
      have := ih h
      simp only [List.length_cons]
      omega
  | case3 => exact absurd rfl h
  | case4 =>
      simp only [List.length_cons]
      omega
  | case5 => exact absurd rfl h

theorem readBlock_image (t : Tape) : t.readBlock.2.image = t.image := rfl

theorem readBlock_pending (t : Tape) : t.readBlock.2.pending = t.pending := rfl

theorem readBlock_advance {t t' : Tape} {b : Block} (h : t.readBlock = (b, t')) (hb : b ≠ .eom) :
    t'.image = t.image ∧ t.image.length - t'.pos < t.image.length - t.pos := by
  obtain ⟨rfl, rfl⟩ := Prod.mk.inj h
  have hadv := readBlockAt_advance _ _ hb
  rw [List.length_drop] at hadv
  refine ⟨rfl, ?_⟩
  dsimp only
  omega

/-- The loop of `read_data`: up to `count` bytes after `out`, from as many
records as it takes, stopping at a tape mark or at the end of medium. -/
def Tape.readLoop (t : Tape) (count : Nat) (out : List Byte) : Tape × List Byte :=
  if _hout : out.length < count then
    let need := count - out.length
    if _hp : t.pending = [] then
      match _h : t.readBlock with
      | (.mark, t') =>
          -- the mark is left for the next, empty read, which steps over it
          if out ≠ [] then (t, out) else ({ t' with sawFilemark := true }, out)
      | (.eom, t') => (t', out)
      | (.data bs, t') =>
          { t' with sawFilemark := false, pending := bs.drop need }.readLoop count
            (out ++ bs.take need)
    else
      { t with pending := t.pending.drop need }.readLoop count (out ++ t.pending.take need)
  else (t, out)
termination_by (t.image.length - t.pos, t.pending.length)
decreasing_by
  · obtain ⟨himage, hlt⟩ := readBlock_advance _h nofun
    apply Prod.Lex.left
    rw [himage]
    exact hlt
  · apply Prod.Lex.right
    have := List.length_pos_of_ne_nil _hp
    rw [List.length_drop]
    omega

/-- Up to `count` bytes, never crossing a tape mark. -/
def Tape.readData (t : Tape) (count : Int) : Tape × List Byte := t.readLoop count.toNat []

/-! ### Status -/

def Tape.atEom (t : Tape) : Bool :=
  if t.pending ≠ [] then false
  else
    match t.image.drop t.pos with
    | b0 :: b1 :: b2 :: b3 :: _ => unpack b0 b1 b2 b3 == eomMark
    | _ => true

def erEof : Nat := 0x4000
def erEot : Nat := 0x0400
def erOnline : Nat := 0x0040
def erBot : Nat := 0x0020
def mtTypeTm11 : Nat := 0x03

/-- The error register of the status reply. -/
def Tape.statusErreg (t : Tape) : Nat :=
  erOnline ||| (if t.pos = 0 ∧ t.pending = [] then erBot else 0) |||
    (if t.sawFilemark then erEof else 0) ||| (if t.atEom then erEot else 0)

/-! ### Spacing -/

/-- Reads blocks to a tape mark; `true` when the medium ends first. -/
def Tape.skipFile (t : Tape) : Bool × Tape :=
  match _h : t.readBlock with
  | (.mark, t') => (false, t')
  | (.eom, t') => (true, t')
  | (.data _, t') => t'.skipFile
termination_by t.image.length - t.pos
decreasing_by
  obtain ⟨himage, hlt⟩ := readBlock_advance _h nofun
  rw [himage]
  exact hlt

def Tape.fsfLoop : Nat → Tape → Tape
  | 0, t => t
  | n + 1, t =>
      match t.skipFile with
      | (true, t') => t'
      | (false, t') => fsfLoop n t'

def Tape.fsf (t : Tape) (count : Int) : Tape := fsfLoop count.toNat t.reposition

def Tape.fsrLoop : Nat → Tape → Tape
  | 0, t => t
  | n + 1, t =>
      match t.readBlock with
      | (.mark, t') => t'
      | (.eom, t') => t'
      | (.data _, t') => fsrLoop n t'

def Tape.fsr (t : Tape) (count : Int) : Tape := fsrLoop count.toNat t.reposition

inductive Back where
  | bot
  | mark
  | data
  deriving DecidableEq

/-- One block backward, by the word before the position: a tape mark, or else
the trailer of a record. -/
def Tape.backOne (t : Tape) : Option (Back × Tape) :=
  if t.pos = 0 then some (.bot, { t with pos := 0 })
  else if t.pos < 4 then none
  else
    match t.image.drop (t.pos - 4) with
    | b0 :: b1 :: b2 :: b3 :: _ =>
        let v := unpack b0 b1 b2 b3
        if v = tapeMark then some (.mark, { t with pos := t.pos - 4 })
        else
          let length := dataLength v
          some (.data, { t with pos := t.pos - 4 - length % 2 - length - 4 })
    | _ => none

theorem backOne_lt {t t' : Tape} {k : Back} (h : t.backOne = some (k, t')) (hk : k ≠ .bot) :
    t'.pos < t.pos := by
  unfold Tape.backOne at h
  split at h
  · cases h
    exact absurd rfl hk
  · next hpos =>
    split at h
    · cases h
    · split at h
      · dsimp only at h
        split at h
        · cases h
          dsimp only
          omega
        · cases h
          dsimp only
          omega
      · cases h

/-- The loop of `bsf` (`perFile`: a block is counted when it is a tape mark) and
of `bsr` (every block is). -/
def Tape.backLoop (perFile : Bool) (n : Nat) (t : Tape) : Option Tape :=
  match n with
  | 0 => some t
  | n + 1 =>
      match h : t.backOne with
      | none => none
      | some (.bot, t') => some t'
      | some (.mark, t') => t'.backLoop perFile n
      | some (.data, t') => t'.backLoop perFile (if perFile then n + 1 else n)
termination_by t.pos
decreasing_by
  · exact backOne_lt h nofun
  · exact backOne_lt h nofun

def Tape.bsf (t : Tape) (count : Int) : Option Tape := t.reposition.backLoop true count.toNat

def Tape.bsr (t : Tape) (count : Int) : Option Tape := t.reposition.backLoop false count.toNat

def Tape.rewind (t : Tape) : Tape := { t.reposition with pos := 0 }

def Tape.eomLoop (t : Tape) : Tape :=
  match _h : t.readBlock with
  | (.eom, t') => t'
  | (.mark, t') => t'.eomLoop
  | (.data _, t') => t'.eomLoop
termination_by t.image.length - t.pos
decreasing_by
  all_goals
    obtain ⟨himage, hlt⟩ := readBlock_advance _h nofun
    rw [himage]
    exact hlt

def Tape.seekEom (t : Tape) : Tape := t.reposition.eomLoop

/-! ### Writing -/

/-- Writes at the position and truncates behind it. -/
def Tape.write (t : Tape) (bs : List Byte) : Tape :=
  { t with
    image := t.image.take t.pos ++ (List.replicate (t.pos - t.image.length) 0 ++ bs),
    pos := t.pos + bs.length }

/-- A record; a length of more than four bytes cannot be packed. -/
def Tape.writeBlock (t : Tape) (data : List Byte) : Option Tape :=
  let n := data.length
  if n < 2 ^ 32 then
    some (t.reposition.write (pack n ++ (data ++ (List.replicate (n % 2) 0 ++ pack n))))
  else none

def Tape.writeMark (t : Tape) : Tape := t.reposition.write (pack tapeMark)

def Tape.writeMarks : Nat → Tape → Tape
  | 0, t => t
  | n + 1, t => writeMarks n t.writeMark

def Tape.erase (t : Tape) : Tape := { t.reposition with image := [], pos := 0 }

/-! ### Commands -/

/-- A command with its arguments as parsed; `W` comes with its bytes. -/
inductive Command where
  | O
  | C
  | R (count : Int)
  | W (data : List Byte)
  | L (offset : Int) (whence : Int)
  | I (op : Int) (count : Int)
  | S

/-- The number in the reply line and the bytes after it. -/
structure Reply where
  value : Nat
  body : List Byte := []
  deriving DecidableEq

def mtWeof : Int := 0
def mtFsf : Int := 1
def mtBsf : Int := 2
def mtFsr : Int := 3
def mtBsr : Int := 4
def mtRew : Int := 5
def mtOffl : Int := 6
def mtErase : Int := 9
def mtEom : Int := 10

def Tape.seek (t : Tape) (offset whence : Int) : Option Tape :=
  let target : Int :=
    if whence = 0 then offset
    else if whence = 1 then t.pos + offset
    else t.image.length + offset
  if whence < 0 ∨ 2 < whence ∨ target < 0 then none
  else some { t.reposition with pos := target.toNat }

/-- `MTIOCTOP`; other codes only leave a line in the log. -/
def Tape.ioctl (t : Tape) (op count : Int) : Option Tape :=
  if op = mtWeof then some (Tape.writeMarks count.toNat t)
  else if op = mtFsf then some (t.fsf count)
  else if op = mtBsf then t.bsf count
  else if op = mtFsr then some (t.fsr count)
  else if op = mtBsr then t.bsr count
  else if op = mtRew ∨ op = mtOffl then some t.rewind
  else if op = mtEom then some t.seekEom
  else if op = mtErase then some t.erase
  else some t

def pack16 (n : Nat) : List Byte := [UInt8.ofNat (n / 0x100), UInt8.ofNat n]

def Tape.handle (t : Tape) : Command → Option (Tape × Reply)
  | .O => some (t.reopen, { value := 0 })
  | .C => some (t, { value := 0 })
  | .R count =>
      let r := t.readData count
      some (r.1, { value := r.2.length, body := r.2 })
  | .W data => (t.writeBlock data).map fun t' => (t', { value := data.length })
  | .L offset whence => (t.seek offset whence).map fun t' => (t', { value := t'.pos })
  | .I op count => (t.ioctl op count).map fun t' => (t', { value := 0 })
  | .S =>
      let blob := pack16 mtTypeTm11 ++ (pack16 0 ++ pack16 t.statusErreg)
      some (t, { value := blob.length, body := blob })

/-- One connection; an exception ends it. -/
structure Session where
  tape : Tape
  ended : Bool := false
  deriving DecidableEq

/-- A connection to the server of an image; the tape starts at its beginning. -/
def Session.opened (image : List Byte) : Session := { tape := { image, pos := 0 } }

def Session.step (s : Session) (c : Command) : Session :=
  if s.ended then s
  else
    match s.tape.handle c with
    | none => { s with ended := true }
    | some (t, _) => { s with tape := t }

/-- What the server answers to a command. -/
def Session.replies (s : Session) (c : Command) : List Reply :=
  if s.ended then []
  else
    match s.tape.handle c with
    | none => []
    | some (_, r) => [r]

end Rmt
