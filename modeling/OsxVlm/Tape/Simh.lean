import Mathlib

/-!
# SIMH tape images

A tape image is a sequence of items: records, tape marks and erase gaps, and
perhaps an end-of-medium mark.  A record stands between two copies of its
header word, so it can be found from either side; `next` is what a forward read
finds, and `Boundary` the places where an item starts.
-/

namespace Simh

abbrev Byte := UInt8

def tapeMark : Nat := 0x00000000
def eomMark : Nat := 0xFFFFFFFF
def eraseGap : Nat := 0xFFFFFFFE

/-- A four-byte little-endian word. -/
def pack (n : Nat) : List Byte :=
  [UInt8.ofNat n, UInt8.ofNat (n / 0x100), UInt8.ofNat (n / 0x10000), UInt8.ofNat (n / 0x1000000)]

def unpack (b0 b1 b2 b3 : Byte) : Nat :=
  b0.toNat + 0x100 * b1.toNat + 0x10000 * b2.toNat + 0x1000000 * b3.toNat

theorem unpack_pack {n : Nat} (hn : n < 2 ^ 32) :
    unpack (UInt8.ofNat n) (UInt8.ofNat (n / 0x100)) (UInt8.ofNat (n / 0x10000))
      (UInt8.ofNat (n / 0x1000000)) = n := by
  simp only [unpack, UInt8.toNat_ofNat']
  omega

theorem pack_inj {m n : Nat} (hm : m < 2 ^ 32) (hn : n < 2 ^ 32) (h : pack m = pack n) : m = n := by
  simp only [pack, List.cons.injEq, and_true] at h
  rw [← unpack_pack hm, ← unpack_pack hn, h.1, h.2.1, h.2.2.1, h.2.2.2]

@[simp] theorem length_pack (n : Nat) : (pack n).length = 4 := rfl

/-- The length a header word stands for: its top bit is an error flag. -/
def dataLength (header : Nat) : Nat := header % 2 ^ 31

structure Record where
  header : Nat
  data : List Byte
  /-- One byte after data of odd length. -/
  pad : List Byte
  header_lt : header < 2 ^ 32
  not_mark : header ≠ tapeMark
  not_gap : header ≠ eraseGap
  not_eom : header ≠ eomMark
  length_data : data.length = dataLength header
  length_pad : pad.length = dataLength header % 2

inductive Item where
  | record (r : Record)
  | mark
  | gap

def Record.bytes (r : Record) : List Byte := pack r.header ++ (r.data ++ (r.pad ++ pack r.header))

def Item.bytes : Item → List Byte
  | .record r => r.bytes
  | .mark => pack tapeMark
  | .gap => pack eraseGap

def bytes (items : List Item) : List Byte := items.flatMap Item.bytes

/-- What may stand after the last item. -/
def ending (eom : Bool) : List Byte := if eom then pack eomMark else []

theorem bytes_append (l m : List Item) : bytes (l ++ m) = bytes l ++ bytes m := List.flatMap_append

theorem bytes_cons (i : Item) (l : List Item) : bytes (i :: l) = i.bytes ++ bytes l :=
  List.flatMap_cons

theorem bytes_singleton (i : Item) : bytes [i] = i.bytes := by
  rw [bytes_cons, bytes, List.flatMap_nil, List.append_nil]

theorem length_record (r : Record) :
    r.bytes.length = 4 + (dataLength r.header + dataLength r.header % 2 + 4) := by
  simp only [Record.bytes, List.length_append, length_pack, r.length_data, r.length_pad]
  omega

theorem item_length (i : Item) : 4 ≤ i.bytes.length := by
  cases i with
  | record r =>
      rw [Item.bytes, length_record]
      omega
  | mark => exact le_rfl
  | gap => exact le_rfl

/-! ### Reading forward -/

inductive Block where
  | data (bs : List Byte)
  | mark
  | eom
  deriving DecidableEq

/-- The next block of a sequence of items and what follows it: gaps are passed
over. -/
def next : List Item → Block × List Item
  | [] => (.eom, [])
  | .gap :: l => next l
  | .mark :: l => (.mark, l)
  | .record r :: l => (.data r.data, l)

theorem next_suffix (l : List Item) : (next l).2 <:+ l := by
  induction l with
  | nil => exact List.suffix_rfl
  | cons i l ih =>
      cases i with
      | record r => exact List.suffix_cons _ l
      | mark => exact List.suffix_cons _ l
      | gap => exact ih.trans (List.suffix_cons _ l)

/-! ### Places -/

/-- `pos` is the start of an item of `image`, or the end of its items. -/
structure At (image : List Byte) (pos : Nat) (before after : List Item) (eom : Bool) : Prop where
  image_eq : image = bytes before ++ (bytes after ++ ending eom)
  pos_eq : pos = (bytes before).length

/-- The image is a sequence of items and `pos` one of its places. -/
def Boundary (image : List Byte) (pos : Nat) : Prop :=
  ∃ before after eom, At image pos before after eom

theorem At.boundary {image : List Byte} {pos : Nat} {before after : List Item} {eom : Bool}
    (h : At image pos before after eom) : Boundary image pos := ⟨before, after, eom, h⟩

theorem At.drop {image : List Byte} {pos : Nat} {before after : List Item} {eom : Bool}
    (h : At image pos before after eom) : image.drop pos = bytes after ++ ending eom := by
  rw [h.image_eq, h.pos_eq, List.drop_left]

theorem At.take {image : List Byte} {pos : Nat} {before after : List Item} {eom : Bool}
    (h : At image pos before after eom) : image.take pos = bytes before := by
  rw [h.image_eq, h.pos_eq, List.take_left]

/-- Moving over the first part of what follows. -/
theorem At.forward {image : List Byte} {pos : Nat} {before l m : List Item} {eom : Bool}
    (h : At image pos before (l ++ m) eom) :
    At image (pos + (bytes l).length) (before ++ l) m eom := by
  constructor
  · rw [h.image_eq]
    simp only [bytes_append, List.append_assoc]
  · rw [h.pos_eq, bytes_append, List.length_append]

/-- Moving back over the last part of what precedes. -/
theorem At.backward {image : List Byte} {pos : Nat} {l m after : List Item} {eom : Bool}
    (h : At image pos (l ++ m) after eom) :
    At image (pos - (bytes m).length) l (m ++ after) eom := by
  constructor
  · rw [h.image_eq]
    simp only [bytes_append, List.append_assoc]
  · rw [h.pos_eq, bytes_append, List.length_append]
    omega

/-- The word an item ends with. -/
def lastWord : Item → Nat
  | .record r => r.header
  | .mark => tapeMark
  | .gap => eraseGap

theorem lastWord_lt (i : Item) : lastWord i < 2 ^ 32 := by
  cases i with
  | record r => exact r.header_lt
  | mark => decide
  | gap => decide

theorem bytes_eq_lastWord (i : Item) : ∃ front, i.bytes = front ++ pack (lastWord i) := by
  cases i with
  | record r =>
      refine ⟨pack r.header ++ (r.data ++ r.pad), ?_⟩
      simp only [Item.bytes, Record.bytes, lastWord, List.append_assoc]
  | mark => exact ⟨[], rfl⟩
  | gap => exact ⟨[], rfl⟩

/-- The word before a place is the last word of the item before it. -/
theorem At.word_before {image : List Byte} {pos : Nat} {before after : List Item} {i : Item}
    {eom : Bool} (h : At image pos (before ++ [i]) after eom) :
    4 ≤ pos ∧ (image.take pos).drop (pos - 4) = pack (lastWord i) ∧
      image.drop (pos - 4) = pack (lastWord i) ++ (bytes after ++ ending eom) := by
  obtain ⟨front, hfront⟩ := bytes_eq_lastWord i
  have hbefore : bytes (before ++ [i]) = bytes before ++ front ++ pack (lastWord i) := by
    rw [bytes_append, bytes_cons, hfront]
    simp only [bytes, List.flatMap_nil, List.append_nil, List.append_assoc]
  have hpos : pos = (bytes before ++ front).length + 4 := by
    rw [h.pos_eq, hbefore, List.length_append, length_pack]
  have hsub : pos - 4 = (bytes before ++ front).length := by omega
  refine ⟨by omega, ?_, ?_⟩
  · rw [h.take, hbefore, hsub, List.drop_left]
  · rw [h.image_eq, hbefore, hsub, List.append_assoc, List.drop_left]

/-- The word an item begins with. -/
theorem bytes_eq_firstWord (i : Item) : ∃ back, i.bytes = pack (lastWord i) ++ back := by
  cases i with
  | record r => exact ⟨_, rfl⟩
  | mark => exact ⟨[], rfl⟩
  | gap => exact ⟨[], rfl⟩

end Simh
