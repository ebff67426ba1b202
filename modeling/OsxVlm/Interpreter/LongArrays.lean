import OsxVlm.Interpreter.FunctionCalls
import OsxVlm.Emulator.ArrayRegisters

/-!
# Registers for indirect arrays

An array with a long prefix has its length, its offset and what it is indirected to in
words after the header.  The set-up of a register for one goes from array to array, brings
lengths and offsets to the element size of the first by shifts, and adds the offsets.
-/

namespace Interpreter

open Ivory
open Execute (typeFixnumP)

/-- `memory-read`: where the cell was found and what it holds, or nothing where it traps. -/
abbrev MemoryRead := Cycle → Quad → Option (Quad × LispObj)

/-- How the set-up ends when it does not return normally. -/
inductive SetupExit where
  | exception
  | trap
  deriving DecidableEq

abbrev Setup := ExceptT SetupExit Option

def extend (n : Integer) : Quad := n.setWidth 64

def memoryRead (read : MemoryRead) (cycle : Cycle) (vma : Quad) : Setup (Quad × LispObj) :=
  match read cycle vma with
  | some cell => pure cell
  | none => throw .trap

/-- A `memory-read` of data that has to be a fixnum. -/
def readFixnum (read : MemoryRead) (vma : Quad) : Setup (Quad × Quad) := do
  let (vma, q) ← memoryRead read .dataRead vma
  if typeFixnumP q.tag = false then throw .exception
  return (vma, extend q.data)

def cmovle (a b c : Quad) : Quad := if a.sle 0 then b else c

/-- `logical-shift`. -/
def logicalShift (integer shift : Quad) : Quad :=
  cmovle shift (integer >>> (-shift &&& 63)) (integer <<< (shift &&& 63))

/-- `logical-shift` with `:direction :right`. -/
def logicalShiftRight (integer shift : Quad) : Quad :=
  cmovle shift (integer <<< (-shift &&& 63)) (integer >>> (shift &&& 63))

def bytePacking (header : Quad) : Quad := header >>> 27 &&& 7

/-- The array whose register is set up, as the procedure is given it: where it was found
and before it was, its header, and the event count. -/
structure LongArrayArguments where
  atag : Tag
  adata : Quad
  original : Integer
  header : Integer
  force1d : Bool
  areventcount : Integer

/-- From `dodisp` on. -/
def dodisp (p : LongArrayArguments) (indirect length : Quad) : ArrayRegister where
  array := ⟨tagType p.atag, p.original⟩
  control := (extend p.header >>> 27 <<< 27 + extend p.areventcount).setWidth 32
  base := indirect.setWidth 32
  length := length.setWidth 32

/-- From `leafarray` on. -/
def leafarray (p : LongArrayArguments) (bp indirect length totaloffset : Quad) : ArrayRegister :=
  let length := length - totaloffset
  let control := extend p.header >>> 27 <<< 27 + extend p.areventcount
  let byteOffset := (totaloffset &&& ~~~((-1 : Quad) <<< (bp &&& 63))) <<< 22
  let length := cmovle length 0 length
  let indirect :=
    if length = 0 then indirect else logicalShiftRight totaloffset bp + indirect
  { array := ⟨tagType p.atag, p.original⟩
    control := (byteOffset + control).setWidth 32
    base := indirect.setWidth 32
    length := length.setWidth 32 }

/-- Whether an array is indirected to another one, and not to an address. -/
def dispatchIndirect (tag : Tag) : Setup Bool :=
  if tagType tag = typeLocative ∨ tagType tag = typeFixnum then return false
  else if tagType tag = typeArray ∨ tagType tag = typeString then return true
  else throw .exception

/-- From `chaseloop` on. -/
def chaseloop (read : MemoryRead) (p : LongArrayArguments) (bp : Quad) :
    Nat → Quad → Quad → Quad → Quad → Setup ArrayRegister
  | 0, _, _, _, _ => ExceptT.mk none
  | fuel + 1, indirect, length, offset, totaloffset => do
      let (indirect, q) ← memoryRead read .header indirect
      let header := extend q.data
      let bpd := bp - bytePacking header
      let l := length + offset
      if arrayLongPrefixP q.data = false then
        let sl := logicalShift (header &&& 32767) bpd
        return leafarray p bp (indirect + 1) (cmovle (l - sl) l sl) totaloffset
      let (_, thislength) ← readFixnum read (indirect + 1)
      let (_, indexoffset) ← readFixnum read (indirect + 2)
      let (_, next) ← memoryRead read .dataRead (indirect + 3)
      let sl := logicalShift thislength bpd
      let sl := cmovle sl l sl
      let length := cmovle (sl - l) sl l
      if ← dispatchIndirect next.tag then
        let offset := logicalShift indexoffset bpd
        chaseloop read p bp fuel (extend next.data) length offset (totaloffset + offset)
      else return leafarray p bp (extend next.data) length totaloffset

/-- `Setup1DLongArray`. -/
def setup1DLongArray (read : MemoryRead) (p : LongArrayArguments) (fuel : Nat) :
    Setup ArrayRegister := do
  let (vma, length) ← readFixnum read (p.adata + 1)
  let (vma, offset) ← readFixnum read (vma + 1)
  let (_, indirect) ← memoryRead read .dataRead (vma + 1)
  if ← dispatchIndirect indirect.tag then
    if extend p.header &&& 7 ≠ 1 ∧ p.force1d = false then throw .exception
    chaseloop read p (bytePacking (extend p.header)) fuel (extend indirect.data) length offset offset
  else return dodisp p (extend indirect.data) length

/-! ### Chains of arrays -/

structure LongArray where
  packing : Nat
  length : Nat
  offset : Nat

/-- An array that another one is indirected to, with all that comes after it. -/
inductive Tail where
  | short (packing length : Nat) (data : Quad)
  | displaced (array : LongArray) (data : Quad)
  | long (array : LongArray) (tail : Tail)

/-- What the first array is indirected to. -/
inductive Target where
  | address (data : Quad)
  | array (tail : Tail)

/-- A cell holds this fixnum. -/
def HoldsFixnum (read : MemoryRead) (vma found : Quad) (n : Nat) : Prop :=
  ∃ o : LispObj, read .dataRead vma = some (found, o) ∧ tagType o.tag = typeFixnum ∧
    o.data.toNat = n

/-- The words of a long prefix, at these addresses, are those of an array that is indirected
to `next`. -/
structure LongPrefix (read : MemoryRead) (header : Integer) (at1 at2 at3 : Quad)
    (array : LongArray) (next : LispObj) (found1 found2 : Quad) : Prop where
  packing : arrayBytePacking header = array.packing
  length : HoldsFixnum read at1 found1 array.length
  offset : HoldsFixnum read at2 found2 array.offset
  next : ∃ found, read .dataRead at3 = some (found, next)

def IsAddress (o : LispObj) : Prop := tagType o.tag = typeLocative ∨ tagType o.tag = typeFixnum
def IsArray (o : LispObj) : Prop := tagType o.tag = typeArray ∨ tagType o.tag = typeString

/-- The memory has this chain of arrays from an object on. -/
inductive Leads (read : MemoryRead) : LispObj → Tail → Prop
  | short {o q : LispObj} {vma : Quad} (harray : IsArray o)
      (hheader : read .header (extend o.data) = some (vma, q))
      (hshort : arrayLongPrefixP q.data = false) :
      Leads read o (.short (arrayBytePacking q.data) (arrayShortLength q.data) (vma + 1))
  | displaced {o q next : LispObj} {vma found1 found2 : Quad} {array : LongArray}
      (harray : IsArray o)
      (hheader : read .header (extend o.data) = some (vma, q))
      (hlong : arrayLongPrefixP q.data = true)
      (hfields : LongPrefix read q.data (vma + 1) (vma + 2) (vma + 3) array next found1 found2)
      (haddress : IsAddress next) : Leads read o (.displaced array (extend next.data))
  | long {o q next : LispObj} {vma found1 found2 : Quad} {array : LongArray} {tail : Tail}
      (harray : IsArray o)
      (hheader : read .header (extend o.data) = some (vma, q))
      (hlong : arrayLongPrefixP q.data = true)
      (hfields : LongPrefix read q.data (vma + 1) (vma + 2) (vma + 3) array next found1 found2)
      (htail : Leads read next tail) : Leads read o (.long array tail)

/-- The memory has the first array and its chain. -/
inductive LeadsFrom (read : MemoryRead) (p : LongArrayArguments) (first : LongArray) :
    Target → Prop
  | address {next : LispObj} {found1 found2 : Quad}
      (hfields : LongPrefix read p.header (p.adata + 1) (found1 + 1) (found2 + 1) first next
        found1 found2)
      (haddress : IsAddress next) : LeadsFrom read p first (.address (extend next.data))
  | array {next : LispObj} {tail : Tail} {found1 found2 : Quad}
      (hfields : LongPrefix read p.header (p.adata + 1) (found1 + 1) (found2 + 1) first next
        found1 found2)
      (htail : Leads read next tail) : LeadsFrom read p first (.array tail)

/-! ### What a register is to do -/

/-- What is stored at a leaf, or the words that an address is of. -/
def Tail.data : Tail → Quad
  | .short _ _ data => data
  | .displaced _ data => data
  | .long _ tail => tail.data

def Target.data : Target → Quad
  | .address data => data
  | .array tail => tail.data

/-- The offsets of the arrays of a chain, each in its own element size, in bits. -/
def Tail.offsetBits : Tail → Nat
  | .short _ _ _ => 0
  | .displaced array _ => array.offset * bytePackingSize array.packing
  | .long array tail => array.offset * bytePackingSize array.packing + tail.offsetBits

def Target.offsetBits : Target → Nat
  | .address _ => 0
  | .array tail => tail.offsetBits

/-- The arrays before the last one. -/
def Tail.depth : Tail → Nat
  | .short _ _ _ => 0
  | .displaced _ _ => 0
  | .long _ tail => tail.depth + 1

def Target.depth : Target → Nat
  | .address _ => 0
  | .array tail => tail.depth + 1

/-- So many bits from a place on lie inside every array of a chain. -/
def Tail.Inside (bits : Nat) : Tail → Nat → Prop
  | .short packing length _, place => place + bits ≤ length * bytePackingSize packing
  | .displaced array _, place => place + bits ≤ array.length * bytePackingSize array.packing
  | .long array tail, place =>
      place + bits ≤ array.length * bytePackingSize array.packing ∧
        tail.Inside bits (place + array.offset * bytePackingSize array.packing)

/-- An element of the first array lies inside every array. -/
def Inside (first : LongArray) (target : Target) (i : Nat) : Prop :=
  i < first.length ∧ match target with
    | .address _ => True
    | .array tail =>
        tail.Inside (bytePackingSize first.packing)
          ((i + first.offset) * bytePackingSize first.packing)

/-- The first bit of an element of a register; addresses are of words and wrap around. -/
def registerPlace (r : ArrayRegister) (i : Nat) : Nat :=
  (32 * r.base.toNat + (arrayRegisterByteOffset r.control + i) *
    bytePackingSize (arrayBytePacking r.control)) % 2 ^ 37

/-- The first bit of an element, followed from array to array. -/
def chainPlace (first : LongArray) (target : Target) (i : Nat) : Nat :=
  (32 * target.data.toNat + (i + first.offset) * bytePackingSize first.packing +
    target.offsetBits) % 2 ^ 37

/-- The elements of a register below a length are the bits that the chain gives, and lie inside
its arrays. -/
def Addresses (first : LongArray) (target : Target) (r : ArrayRegister) (length : Nat) : Prop :=
  ∀ i < length, bytePackingSize (arrayBytePacking r.control) = bytePackingSize first.packing ∧
    registerPlace r i = chainPlace first target i ∧ Inside first target i

/-- The length of a register is the largest one for which it is right. -/
structure Right (first : LongArray) (target : Target) (r : ArrayRegister) : Prop where
  addresses : Addresses first target r r.length.toNat
  le : r.length.toNat ≤ first.length
  largest : ∀ length ≤ first.length, Addresses first target r length → length ≤ r.length.toNat

/-! ### When it does -/

/-- A length or an offset in the element size of the first array, rounded down. -/
def scale (bp n packing : Nat) : Nat := n * 2 ^ bp / 2 ^ packing

/-- The offsets of the arrays after the first are whole numbers of its elements. -/
def Tail.Whole (bp : Nat) : Tail → Prop
  | .short _ _ _ => True
  | .displaced array _ => array.offset = 0
  | .long array tail =>
      bytePackingSize bp ∣ array.offset * bytePackingSize array.packing ∧ tail.Whole bp

/-- None of the indirect arrays after the first is shorter than one of its elements. -/
def Tail.Long (bp : Nat) : Tail → Prop
  | .short _ _ _ => True
  | .displaced array _ => 0 < scale bp array.length array.packing
  | .long array tail => 0 < scale bp array.length array.packing ∧ tail.Long bp

/-- One of the arrays, unless it is such a short one, ends where the offsets so far lead to. -/
def Tail.Exhausted (bp : Nat) : Tail → Nat → Prop
  | .short packing length _, total => scale bp length packing ≤ total
  | .displaced array _, total =>
      0 < scale bp array.length array.packing ∧ scale bp array.length array.packing ≤ total
  | .long array tail, total =>
      (0 < scale bp array.length array.packing ∧ scale bp array.length array.packing ≤ total) ∨
        tail.Exhausted bp (total + scale bp array.offset array.packing)

/-- An address is displaced to by no offset, and the offsets are whole. -/
def Whole (first : LongArray) : Target → Prop
  | .address _ => first.offset = 0
  | .array tail => tail.Whole first.packing

def Long (first : LongArray) : Target → Prop
  | .address _ => True
  | .array tail => tail.Long first.packing

/-- Nothing is left of the first array. -/
def Closed (first : LongArray) : Target → Prop
  | .address _ => first.length = 0
  | .array tail => first.length = 0 ∨ tail.Exhausted first.packing first.offset

/-- The event count fits its field. -/
def Fits (p : LongArrayArguments) : Prop := p.areventcount.toNat < 2 ^ 22

def Tail.Packed : Tail → Prop
  | .short packing _ _ => packing ≤ 5
  | .displaced array _ => array.packing ≤ 5
  | .long array tail => array.packing ≤ 5 ∧ tail.Packed

def Target.Packed : Target → Prop
  | .address _ => True
  | .array tail => tail.Packed

/-- Element sizes are as there are, and the sum of the length and the offsets is below 2³¹
words. -/
structure Summable (first : LongArray) (target : Target) : Prop where
  packing : first.packing ≤ 5
  packed : target.Packed
  sum : (first.length + first.offset) * bytePackingSize first.packing + target.offsetBits <
    2 ^ 31 * 32

/-! ### Element sizes -/

section Scale

variable {bp packing : Nat} (n x : Nat)

/-- A length in bits and in elements of the first array. -/
theorem le_scale_iff (hbp : bp ≤ 5) (hpacking : packing ≤ 5) :
    x ≤ scale bp n packing ↔ x * bytePackingSize bp ≤ n * bytePackingSize packing := by
  have h1 : 2 ^ (5 - bp) * 2 ^ bp = 32 := by rw [← Nat.pow_add, Nat.sub_add_cancel hbp]
  have h2 : 2 ^ (5 - packing) * 2 ^ packing = 32 := by
    rw [← Nat.pow_add, Nat.sub_add_cancel hpacking]
  have hpos : 0 < 2 ^ bp * 2 ^ packing := Nat.mul_pos (Nat.two_pow_pos _) (Nat.two_pow_pos _)
  have hleft : x * 2 ^ (5 - bp) * (2 ^ bp * 2 ^ packing) = 32 * (x * 2 ^ packing) := by
    calc x * 2 ^ (5 - bp) * (2 ^ bp * 2 ^ packing)
        = 2 ^ (5 - bp) * 2 ^ bp * (x * 2 ^ packing) := by ring
      _ = 32 * (x * 2 ^ packing) := by rw [h1]
  have hright : n * 2 ^ (5 - packing) * (2 ^ bp * 2 ^ packing) = 32 * (n * 2 ^ bp) := by
    calc n * 2 ^ (5 - packing) * (2 ^ bp * 2 ^ packing)
        = 2 ^ (5 - packing) * 2 ^ packing * (n * 2 ^ bp) := by ring
      _ = 32 * (n * 2 ^ bp) := by rw [h2]
  have hscaled : x * 2 ^ (5 - bp) ≤ n * 2 ^ (5 - packing) ↔
      32 * (x * 2 ^ packing) ≤ 32 * (n * 2 ^ bp) := by
    rw [← hleft, ← hright]
    exact (Nat.mul_le_mul_right_iff hpos).symm
  rw [scale, Nat.le_div_iff_mul_le (Nat.two_pow_pos _), bytePackingSize_eq hbp,
    bytePackingSize_eq hpacking, hscaled]
  exact (Nat.mul_le_mul_left_iff (by decide)).symm

theorem scale_mul_le (hbp : bp ≤ 5) (hpacking : packing ≤ 5) :
    scale bp n packing * bytePackingSize bp ≤ n * bytePackingSize packing :=
  (le_scale_iff n _ hbp hpacking).mp le_rfl

/-- A whole number of elements is not rounded. -/
theorem scale_mul_eq_iff (hbp : bp ≤ 5) (hpacking : packing ≤ 5) :
    scale bp n packing * bytePackingSize bp = n * bytePackingSize packing ↔
      bytePackingSize bp ∣ n * bytePackingSize packing := by
  constructor
  · intro h
    exact ⟨_, h.symm.trans (Nat.mul_comm _ _)⟩
  · intro h
    obtain ⟨k, hk⟩ := h
    have hle := scale_mul_le n hbp hpacking
    have hk' : k ≤ scale bp n packing := (le_scale_iff n k hbp hpacking).mpr (by
      rw [hk, Nat.mul_comm])
    have hmul := Nat.mul_le_mul_right (bytePackingSize bp) hk'
    rw [Nat.mul_comm k] at hmul
    omega

/-- An element that starts at `x` lies in so many. -/
theorem element_fits_iff (hbp : bp ≤ 5) (hpacking : packing ≤ 5) :
    x * bytePackingSize bp + bytePackingSize bp ≤ n * bytePackingSize packing ↔
      x + 1 ≤ scale bp n packing := by
  rw [le_scale_iff n _ hbp hpacking, Nat.add_one_mul]

/-- In less than one element there is none. -/
theorem not_element_fits (hbp : bp ≤ 5) (hpacking : packing ≤ 5) (hzero : ¬ 0 < scale bp n packing)
    (place : Nat) : ¬ place + bytePackingSize bp ≤ n * bytePackingSize packing := by
  intro hle
  have hone := (le_scale_iff n 1 hbp hpacking).mpr (by omega)
  omega

/-- An element that starts past the end does not lie in so many. -/
theorem not_element_fits_past {total place : Nat} (hbp : bp ≤ 5) (hpacking : packing ≤ 5)
    (hle : scale bp n packing ≤ total) (hplace : total * bytePackingSize bp ≤ place) :
    ¬ place + bytePackingSize bp ≤ n * bytePackingSize packing := by
  intro hinside
  have hfits := (element_fits_iff n total hbp hpacking).mp (by omega)
  omega

end Scale

/-! ### The loop on numbers -/

namespace Tail

/-- The offsets that the loop adds. -/
def counted (bp : Nat) : Tail → Nat
  | .short _ _ _ => 0
  | .displaced _ _ => 0
  | .long array tail => scale bp array.offset array.packing + tail.counted bp

/-- A length that an indirect array bounds, unless it is 0 in elements of the first. -/
def bounded (bp : Nat) (array : LongArray) (left : Int) (total : Nat) : Int :=
  if scale bp array.length array.packing = 0 then left
  else min left (scale bp array.length array.packing - total)

/-- The elements that the loop leaves, of so many at its start. -/
def remaining (bp : Nat) : Tail → Int → Nat → Int
  | .short packing length _, left, total => min left (scale bp length packing - total)
  | .displaced array _, left, total => bounded bp array left total
  | .long array tail, left, total =>
      tail.remaining bp (bounded bp array left total) (total + scale bp array.offset array.packing)

section Loop

variable {bp : Nat} {tail : Tail} {left : Int} {total : Nat}

theorem bounded_le (bp : Nat) (array : LongArray) (left : Int) (total : Nat) :
    bounded bp array left total ≤ left := by
  unfold bounded
  split <;> omega

theorem remaining_le : tail.remaining bp left total ≤ left := by
  induction tail generalizing left total with
  | short packing length data => exact min_le_left _ _
  | displaced array data => exact bounded_le bp array left total
  | long array tail ih => exact ih.trans (bounded_le bp array left total)

theorem bounded_nonpos_iff (array : LongArray) :
    bounded bp array left total ≤ 0 ↔ left ≤ 0 ∨
      (0 < scale bp array.length array.packing ∧ scale bp array.length array.packing ≤ total) := by
  unfold bounded
  split <;> omega

/-- Nothing is left when nothing was, or when an array is exhausted. -/
theorem remaining_nonpos_iff :
    tail.remaining bp left total ≤ 0 ↔ left ≤ 0 ∨ tail.Exhausted bp total := by
  induction tail generalizing left total with
  | short packing length data =>
      unfold remaining Exhausted
      omega
  | displaced array data => exact bounded_nonpos_iff array
  | long array tail ih =>
      rw [remaining, ih, bounded_nonpos_iff, or_assoc]
      rfl

theorem counted_mul_le (hbp : bp ≤ 5) (hpacked : tail.Packed) :
    tail.counted bp * bytePackingSize bp ≤ tail.offsetBits := by
  induction tail with
  | short packing length data => simp [counted]
  | displaced array data => simp [counted]
  | long array tail ih =>
      have hone := scale_mul_le array.offset hbp hpacked.1
      have hrest := ih hpacked.2
      rw [counted, offsetBits, Nat.add_mul]
      omega

/-- The sum that the loop adds is exact when the offsets are whole. -/
theorem counted_mul_eq_iff (hbp : bp ≤ 5) (hpacked : tail.Packed) :
    tail.counted bp * bytePackingSize bp = tail.offsetBits ↔ tail.Whole bp := by
  induction tail with
  | short packing length data => simp [counted, offsetBits, Whole]
  | displaced array data =>
      have hsize : bytePackingSize array.packing ≠ 0 := by
        rw [bytePackingSize_eq hpacked]
        exact (Nat.two_pow_pos _).ne'
      simp only [counted, offsetBits, Whole, Nat.zero_mul]
      rw [eq_comm, Nat.mul_eq_zero]
      exact ⟨fun h => h.resolve_right hsize, .inl⟩
  | long array tail ih =>
      have hone := scale_mul_le array.offset hbp hpacked.1
      have hrest := counted_mul_le hbp hpacked.2
      rw [counted, offsetBits, Nat.add_mul, Whole, ← ih hpacked.2,
        ← scale_mul_eq_iff array.offset hbp hpacked.1]
      omega

/-- What is left, element by element, when the offsets are whole and no array is short. -/
theorem inside_iff (hbp : bp ≤ 5) (hpacked : tail.Packed) (hwhole : tail.Whole bp)
    (hlong : tail.Long bp) (i : Nat) :
    ((i : Int) < left ∧ tail.Inside (bytePackingSize bp) ((i + total) * bytePackingSize bp)) ↔
      (i : Int) < tail.remaining bp left total := by
  induction tail generalizing left total with
  | short packing length data =>
      rw [remaining, Inside, element_fits_iff _ _ hbp hpacked]
      omega
  | displaced array data =>
      rw [Long] at hlong
      rw [remaining, Inside, element_fits_iff _ _ hbp hpacked, bounded, if_neg hlong.ne']
      omega
  | long array tail ih =>
      have hexact := (scale_mul_eq_iff array.offset hbp hpacked.1).mpr hwhole.1
      have hplace : (i + total) * bytePackingSize bp +
          array.offset * bytePackingSize array.packing =
            (i + (total + scale bp array.offset array.packing)) * bytePackingSize bp := by
        rw [← hexact, ← Nat.add_mul, Nat.add_assoc]
      have hcast : (i : Int) < scale bp array.length array.packing - total ↔
          i + total + 1 ≤ scale bp array.length array.packing := by omega
      rw [remaining, ← ih hpacked.2 hwhole.2 hlong.2, Inside,
        element_fits_iff _ _ hbp hpacked.1, hplace, bounded, if_neg hlong.1.ne', lt_min_iff,
        hcast, and_assoc]

/-- Nothing lies inside an array that is too short for an element. -/
theorem not_inside_of_not_long (hbp : bp ≤ 5) (hpacked : tail.Packed) (hshort : ¬ tail.Long bp)
    (place : Nat) : ¬ tail.Inside (bytePackingSize bp) place := by
  induction tail generalizing place with
  | short packing length data => exact absurd trivial hshort
  | displaced array data => exact not_element_fits _ hbp hpacked hshort place
  | long array tail ih =>
      intro hinside
      by_cases hfirst : 0 < scale bp array.length array.packing
      · exact ih hpacked.2 (fun htail => hshort ⟨hfirst, htail⟩) _ hinside.2
      · exact not_element_fits _ hbp hpacked.1 hfirst place hinside.1

/-- Nothing from the offsets on lies inside an array that ends there. -/
theorem not_inside_of_exhausted (hbp : bp ≤ 5) (hpacked : tail.Packed)
    (hexhausted : tail.Exhausted bp total) {place : Nat} (hplace : total * bytePackingSize bp ≤ place) :
    ¬ tail.Inside (bytePackingSize bp) place := by
  induction tail generalizing total place with
  | short packing length data => exact not_element_fits_past length hbp hpacked hexhausted hplace
  | displaced array data =>
      exact not_element_fits_past array.length hbp hpacked hexhausted.2 hplace
  | long array tail ih =>
      intro hinside
      rcases hexhausted with hfirst | hrest
      · exact not_element_fits_past array.length hbp hpacked.1 hfirst.2 hplace hinside.1
      · have hone := scale_mul_le array.offset hbp hpacked.1
        refine ih hpacked.2 hrest ?_ hinside.2
        rw [Nat.add_mul]
        omega

end Loop

end Tail

namespace Target

section Loop

variable {first : LongArray} {target : Target}

/-- The sum of the offsets at the end. -/
def counted (first : LongArray) : Target → Nat
  | .address _ => 0
  | .array tail => first.offset + tail.counted first.packing

/-- The elements that are left at the end. -/
def left (first : LongArray) : Target → Int
  | .address _ => first.length
  | .array tail => tail.remaining first.packing first.length first.offset

theorem counted_mul_le (h : Summable first target) :
    target.counted first * bytePackingSize first.packing ≤
      first.offset * bytePackingSize first.packing + target.offsetBits := by
  cases target with
  | address data => simp [counted]
  | array tail =>
      have htail := Tail.counted_mul_le h.packing h.packed
      rw [counted, Nat.add_mul, offsetBits]
      omega

theorem counted_mul_eq_iff (h : Summable first target) :
    target.counted first * bytePackingSize first.packing =
      first.offset * bytePackingSize first.packing + target.offsetBits ↔ Whole first target := by
  cases target with
  | address data =>
      have hsize : bytePackingSize first.packing ≠ 0 := by
        rw [bytePackingSize_eq h.packing]
        exact (Nat.two_pow_pos _).ne'
      rw [counted, offsetBits, Nat.zero_mul, Nat.add_zero, eq_comm, Nat.mul_eq_zero, Whole]
      exact ⟨fun hzero => hzero.resolve_right hsize, .inl⟩
  | array tail =>
      have htail := Tail.counted_mul_eq_iff h.packing h.packed
      rw [counted, Nat.add_mul, offsetBits, Whole, ← htail]
      omega

theorem left_nonpos_iff : target.left first ≤ 0 ↔ Closed first target := by
  cases target with
  | address data =>
      exact Int.natCast_nonpos_iff
  | array tail =>
      rw [left, Closed, Tail.remaining_nonpos_iff]
      exact or_congr_left Int.natCast_nonpos_iff

theorem left_le : target.left first ≤ first.length := by
  cases target with
  | address data => exact le_rfl
  | array tail => exact Tail.remaining_le

theorem inside_iff (h : Summable first target) (hwhole : Whole first target)
    (hlong : Long first target) (i : Nat) : Inside first target i ↔ (i : Int) < target.left first := by
  cases target with
  | address data =>
      rw [Inside, left, Nat.cast_lt]
      exact and_iff_left trivial
  | array tail =>
      rw [left, ← Tail.inside_iff h.packing h.packed hwhole hlong, Nat.cast_lt]
      rfl

theorem long_of_inside (h : Summable first target) {i : Nat} (hinside : Inside first target i) :
    Long first target := by
  cases target with
  | address data => trivial
  | array tail =>
      by_contra hshort
      exact Tail.not_inside_of_not_long h.packing h.packed hshort _ hinside.2

theorem not_inside_of_closed (h : Summable first target) (hclosed : Closed first target) (i : Nat) :
    ¬ Inside first target i := by
  intro hinside
  have hlt := hinside.1
  cases target with
  | address data => exact absurd hclosed (Nat.ne_of_gt (Nat.zero_lt_of_lt hlt))
  | array tail =>
      rcases hclosed with hzero | hexhausted
      · omega
      · exact Tail.not_inside_of_exhausted h.packing h.packed hexhausted
          (Nat.mul_le_mul_right _ (Nat.le_add_left _ _)) hinside.2

end Loop

end Target

/-! ### The loop on registers -/

section Registers

variable {bp packing n x y : Nat}

theorem toInt_ofNat_of_lt (hx : x < 2 ^ 62) : (BitVec.ofNat 64 x).toInt = x := by
  have hmod : x % 2 ^ 64 = x := Nat.mod_eq_of_lt (by omega)
  rw [BitVec.toInt_eq_toNat_of_lt (by rw [BitVec.toNat_ofNat, hmod]; omega), BitVec.toNat_ofNat,
    hmod]

theorem sle_sub_iff (hx : x < 2 ^ 62) (hy : y < 2 ^ 62) :
    (BitVec.ofNat 64 x - BitVec.ofNat 64 y).sle 0 = true ↔ x ≤ y := by
  have hsub : (BitVec.ofNat 64 x - BitVec.ofNat 64 y).toInt = (x : Int) - y := by
    rw [BitVec.toInt_sub, toInt_ofNat_of_lt hx, toInt_ofNat_of_lt hy]
    exact Int.bmod_eq_of_le (by push_cast; omega) (by push_cast; omega)
  rw [BitVec.sle, decide_eq_true_iff, hsub]
  simp

theorem cmovle_sub (hx : x < 2 ^ 62) (hy : y < 2 ^ 62) :
    cmovle (.ofNat 64 x - .ofNat 64 y) (.ofNat 64 x) (.ofNat 64 y) = .ofNat 64 (min x y) := by
  unfold cmovle
  by_cases h : x ≤ y
  · rw [if_pos ((sle_sub_iff hx hy).mpr h), Nat.min_eq_left h]
  · rw [if_neg fun hsle => h ((sle_sub_iff hx hy).mp hsle), Nat.min_eq_right (by omega)]

theorem cmovle_self (hx : x < 2 ^ 62) (b : Quad) :
    cmovle (.ofNat 64 x) b (.ofNat 64 x) = if x = 0 then b else .ofNat 64 x := by
  have hsle : (BitVec.ofNat 64 x).sle 0 = true ↔ x = 0 := by
    rw [BitVec.sle, decide_eq_true_iff, toInt_ofNat_of_lt hx]
    simp
  unfold cmovle
  by_cases h : x = 0
  · rw [if_pos (hsle.mpr h), if_pos h]
  · rw [if_neg fun hx => h (hsle.mp hx), if_neg h]

theorem logicalShift_left (i : Quad) {k : Nat} (hpos : 0 < k) (hk : k ≤ 5) :
    logicalShift i (.ofNat 64 k) = i <<< k := by
  interval_cases k <;> rfl

theorem logicalShift_right (i : Quad) {k : Nat} (hk : k ≤ 5) :
    logicalShift i (-.ofNat 64 k) = i >>> k := by
  interval_cases k <;> rfl

/-- The shifts bring a number to the element size of the first array. -/
theorem logicalShift_eq (hbp : bp ≤ 5) (hpacking : packing ≤ 5) (hn : n < 2 ^ 32) :
    logicalShift (.ofNat 64 n) (.ofNat 64 bp - .ofNat 64 packing) =
      .ofNat 64 (scale bp n packing) := by
  unfold scale
  by_cases h : bp ≤ packing
  · have hpow : 2 ^ packing = 2 ^ bp * 2 ^ (packing - bp) := by
      rw [← Nat.pow_add, Nat.add_sub_cancel' h]
    have hsub : (BitVec.ofNat 64 bp - BitVec.ofNat 64 packing : Quad) =
        -.ofNat 64 (packing - bp) := by
      rw [← neg_sub, BitVec.ofNat_sub_ofNat_of_le _ _ (by omega) h]
    rw [hsub, logicalShift_right _ (by omega), hpow, Nat.mul_comm n,
      Nat.mul_div_mul_left _ _ (Nat.two_pow_pos _)]
    apply BitVec.eq_of_toNat_eq
    have hdiv : n / 2 ^ (packing - bp) ≤ n := Nat.div_le_self _ _
    rw [BitVec.toNat_ushiftRight, BitVec.toNat_ofNat, BitVec.toNat_ofNat,
      Nat.shiftRight_eq_div_pow, Nat.mod_eq_of_lt (by omega), Nat.mod_eq_of_lt (by omega)]
  · have hpow : 2 ^ bp = 2 ^ (bp - packing) * 2 ^ packing := by
      rw [← Nat.pow_add, Nat.sub_add_cancel (by omega)]
    have hsub : (BitVec.ofNat 64 bp - BitVec.ofNat 64 packing : Quad) = .ofNat 64 (bp - packing) :=
      BitVec.ofNat_sub_ofNat_of_le _ _ (by omega) (by omega)
    rw [hsub, logicalShift_left _ (by omega) (by omega), hpow, ← Nat.mul_assoc,
      Nat.mul_div_cancel _ (Nat.two_pow_pos _)]
    apply BitVec.eq_of_toNat_eq
    rw [BitVec.toNat_shiftLeft, BitVec.toNat_ofNat, BitVec.toNat_ofNat, Nat.shiftLeft_eq,
      Nat.mod_mul_mod]

theorem logicalShiftRight_eq (i : Quad) (hbp : bp ≤ 5) :
    logicalShiftRight i (.ofNat 64 bp) = i >>> bp := by
  interval_cases bp
  · simp [logicalShiftRight, cmovle]
  all_goals rfl

theorem ldb_eq (ss pp : Nat) (c : Integer) : ldb ss pp c = c.toNat / 2 ^ pp % 2 ^ ss := by
  rw [ldb, BitVec.extractLsb'_toNat, Nat.shiftRight_eq_div_pow]

theorem toNat_extend (c : Integer) : (extend c).toNat = c.toNat := by
  have hlt := c.isLt
  rw [extend, BitVec.toNat_setWidth, Nat.mod_eq_of_lt (by omega)]

theorem extend_eq (c : Integer) : extend c = .ofNat 64 c.toNat := by
  apply BitVec.eq_of_toNat_eq
  have hlt := c.isLt
  rw [toNat_extend, BitVec.toNat_ofNat, Nat.mod_eq_of_lt (by omega)]

theorem bytePacking_extend (c : Integer) :
    bytePacking (extend c) = .ofNat 64 (arrayBytePacking c) := by
  apply BitVec.eq_of_toNat_eq
  rw [bytePacking, show (7 : Quad) = .ofNat 64 (2 ^ 3 - 1) from rfl,
    BitFields.toNat_and_mask _ (by decide), BitVec.toNat_ushiftRight, toNat_extend,
    Nat.shiftRight_eq_div_pow, arrayBytePacking, ldb_eq, BitVec.toNat_ofNat]
  omega

theorem shortLength_extend (c : Integer) :
    extend c &&& 32767 = .ofNat 64 (arrayShortLength c) := by
  apply BitVec.eq_of_toNat_eq
  rw [show (32767 : Quad) = .ofNat 64 (2 ^ 15 - 1) from rfl,
    BitFields.toNat_and_mask _ (by decide), toNat_extend, arrayShortLength, ldb_eq,
    BitVec.toNat_ofNat]
  omega

section Leaf

variable (p : LongArrayArguments) (indirect : Quad) {length total : Nat}

/-- The bits of an element's place that are kept in the control word. -/
theorem byteOffset_eq (hbp : bp ≤ 5) (htotal : total < 2 ^ 62) :
    (BitVec.ofNat 64 total &&& ~~~((-1 : Quad) <<< (BitVec.ofNat 64 bp &&& 63))).toNat =
      total % 2 ^ bp := by
  have hmask : ~~~((-1 : Quad) <<< (BitVec.ofNat 64 bp &&& 63)) = .ofNat 64 (2 ^ bp - 1) := by
    interval_cases bp <;> rfl
  rw [hmask, BitFields.toNat_and_mask _ (by omega), BitVec.toNat_ofNat,
    Nat.mod_eq_of_lt (a := total) (by omega)]

theorem mod_two_pow_lt (total : Nat) (hbp : bp ≤ 5) : total % 2 ^ bp < 32 := by
  have hlt := Nat.mod_lt total (Nat.two_pow_pos bp)
  have hle := Nat.pow_le_pow_right (n := 2) (by decide) hbp
  omega

theorem toNat_control (hbp : bp ≤ 5) (htotal : total < 2 ^ 62) (hfits : Fits p) :
    (leafarray p (.ofNat 64 bp) indirect (.ofNat 64 length) (.ofNat 64 total)).control.toNat =
      p.header.toNat / 2 ^ 27 * 2 ^ 27 + total % 2 ^ bp * 2 ^ 22 + p.areventcount.toNat := by
  have hoffset := byteOffset_eq hbp htotal
  have hheader := p.header.isLt
  have hsmall := mod_two_pow_lt total hbp
  unfold Fits at hfits
  simp only [leafarray]
  rw [BitVec.toNat_setWidth, BitVec.toNat_add, BitVec.toNat_shiftLeft, hoffset, BitVec.toNat_add,
    BitVec.toNat_shiftLeft, BitVec.toNat_ushiftRight, toNat_extend, toNat_extend,
    Nat.shiftRight_eq_div_pow, Nat.shiftLeft_eq, Nat.shiftLeft_eq]
  omega

theorem leafarray_control (hbp : bp ≤ 5) (htotal : total < 2 ^ 62) (hfits : Fits p) :
    arrayBytePacking
        (leafarray p (.ofNat 64 bp) indirect (.ofNat 64 length) (.ofNat 64 total)).control =
      arrayBytePacking p.header ∧
    arrayRegisterByteOffset
        (leafarray p (.ofNat 64 bp) indirect (.ofNat 64 length) (.ofNat 64 total)).control =
      total % 2 ^ bp := by
  have hcontrol := @toNat_control bp p indirect length total hbp htotal hfits
  have hsmall := mod_two_pow_lt total hbp
  unfold Fits at hfits
  simp only [arrayBytePacking, arrayRegisterByteOffset, ldb_eq, hcontrol]
  omega

/-- What is left after the offsets, or nothing. -/
theorem left_eq (hlength : length < 2 ^ 62) (htotal : total < 2 ^ 62) :
    cmovle (.ofNat 64 length - .ofNat 64 total) 0 (.ofNat 64 length - .ofNat 64 total) =
      .ofNat 64 (length - total) := by
  unfold cmovle
  by_cases h : length ≤ total
  · rw [if_pos ((sle_sub_iff hlength htotal).mpr h), Nat.sub_eq_zero_of_le h]
    rfl
  · rw [if_neg fun hsle => h ((sle_sub_iff hlength htotal).mp hsle),
      BitVec.ofNat_sub_ofNat_of_le _ _ (by omega) (by omega)]

theorem leafarray_length (hlength : length < 2 ^ 62) (htotal : total < 2 ^ 62)
    (hle : length - total < 2 ^ 32) :
    (leafarray p (.ofNat 64 bp) indirect (.ofNat 64 length) (.ofNat 64 total)).length.toNat =
      length - total := by
  simp only [leafarray]
  rw [left_eq hlength (by omega), BitVec.toNat_setWidth, BitVec.toNat_ofNat]
  omega

/-- The words of the offsets are added to the address, unless nothing is left. -/
theorem leafarray_base (hbp : bp ≤ 5) (hlength : length < 2 ^ 62) (htotal : total < 2 ^ 62)
    (hpos : 0 < length - total) :
    (leafarray p (.ofNat 64 bp) indirect (.ofNat 64 length) (.ofNat 64 total)).base.toNat =
      (total / 2 ^ bp + indirect.toNat) % 2 ^ 32 := by
  have hne : BitVec.ofNat 64 (length - total) ≠ 0 := by
    intro hzero
    have hnat := congrArg BitVec.toNat hzero
    rw [BitVec.toNat_ofNat, Nat.mod_eq_of_lt (by omega)] at hnat
    exact hpos.ne' hnat
  have hdiv : total / 2 ^ bp ≤ total := Nat.div_le_self _ _
  simp only [leafarray]
  rw [left_eq hlength (by omega), if_neg hne, logicalShiftRight_eq _ hbp, BitVec.toNat_setWidth,
    BitVec.toNat_add, BitVec.toNat_ushiftRight, BitVec.toNat_ofNat, Nat.shiftRight_eq_div_pow,
    Nat.mod_eq_of_lt (a := total) (by omega)]
  omega

end Leaf

end Registers

/-! ### The set-up of a chain -/

section Chain

variable {read : MemoryRead} {p : LongArrayArguments} {bp n : Nat} {o : LispObj} {tail : Tail}
  {vma found : Quad} {r : ArrayRegister}

theorem memoryRead_some {cycle : Cycle} {cell : Quad × LispObj} (h : read cycle vma = some cell) :
    memoryRead read cycle vma = pure cell := by
  rw [memoryRead, h]

theorem readFixnum_of_holds (h : HoldsFixnum read vma found n) :
    readFixnum read vma = pure (found, .ofNat 64 n) := by
  obtain ⟨o, hread, htype, rfl⟩ := h
  have hfix : typeFixnumP o.tag = true := by simp [typeFixnumP, htype]
  rw [readFixnum, memoryRead_some hread]
  simp only [pure_bind, hfix, ← extend_eq]
  rfl

theorem lt_of_holds (h : HoldsFixnum read vma found n) : n < 2 ^ 32 := by
  obtain ⟨o, -, -, rfl⟩ := h
  exact o.data.isLt

theorem dispatchIndirect_address (h : IsAddress o) : dispatchIndirect o.tag = pure false :=
  if_pos h

theorem dispatchIndirect_array (h : IsArray o) : dispatchIndirect o.tag = pure true := by
  have hnot : ¬ (tagType o.tag = typeLocative ∨ tagType o.tag = typeFixnum) := by
    obtain h | h := h <;> rw [h] <;> decide
  exact (if_neg hnot).trans (if_pos h)

theorem Leads.isArray (h : Leads read o tail) : IsArray o := by
  cases h <;> assumption

/-- How long an array is in elements of the first, as the loop computes it. -/
theorem logicalShift_field {q : Integer} {n : Nat} (hbp : bp ≤ 5) (hpacking : arrayBytePacking q ≤ 5)
    (hn : n < 2 ^ 32) :
    logicalShift (.ofNat 64 n) (.ofNat 64 bp - bytePacking (extend q)) =
      .ofNat 64 (scale bp n (arrayBytePacking q)) := by
  rw [bytePacking_extend, logicalShift_eq hbp hpacking hn]

/-- The length that the loop goes on with. -/
def boundedLength (bp : Nat) (array : LongArray) (l : Nat) : Nat :=
  if scale bp array.length array.packing = 0 then l
  else min (scale bp array.length array.packing) l

theorem boundedLength_le (bp : Nat) (array : LongArray) (l : Nat) :
    boundedLength bp array l ≤ l := by
  unfold boundedLength
  split <;> omega

theorem boundedLength_sub (bp : Nat) (array : LongArray) (l total : Nat) :
    (boundedLength bp array l : Int) - total = Tail.bounded bp array (l - total) total := by
  unfold boundedLength Tail.bounded
  split <;> omega

theorem scale_lt (bp : Nat) (hbp : bp ≤ 5) (hn : n < 2 ^ 32) (packing : Nat) :
    scale bp n packing < 2 ^ 37 := by
  have hpow := Nat.pow_le_pow_right (n := 2) (by decide) hbp
  have hmul := Nat.mul_le_mul_left n hpow
  have hdiv := Nat.div_le_self (n * 2 ^ bp) (2 ^ packing)
  unfold scale
  omega

/-- One array with a long prefix. -/
theorem chaseloop_long {q next : LispObj} {found1 found2 : Quad} {array : LongArray}
    {fuel length offset total : Nat} (hheader : read .header (extend o.data) = some (vma, q))
    (hlong : arrayLongPrefixP q.data = true)
    (hfields : LongPrefix read q.data (vma + 1) (vma + 2) (vma + 3) array next found1 found2)
    (hbp : bp ≤ 5) (hpacking : array.packing ≤ 5) (hsmall : length + offset < 2 ^ 61) :
    chaseloop read p (.ofNat 64 bp) (fuel + 1) (extend o.data) (.ofNat 64 length)
        (.ofNat 64 offset) (.ofNat 64 total) =
      dispatchIndirect next.tag >>= fun further =>
        if further then
          chaseloop read p (.ofNat 64 bp) fuel (extend next.data)
            (.ofNat 64 (boundedLength bp array (length + offset)))
            (.ofNat 64 (scale bp array.offset array.packing))
            (.ofNat 64 (total + scale bp array.offset array.packing))
        else
          pure (leafarray p (.ofNat 64 bp) (extend next.data)
            (.ofNat 64 (boundedLength bp array (length + offset))) (.ofNat 64 total)) := by
  obtain ⟨found, hnext⟩ := hfields.next
  have hlength := lt_of_holds hfields.length
  have hoffset := lt_of_holds hfields.offset
  have hpacking' : arrayBytePacking q.data ≤ 5 := hfields.packing ▸ hpacking
  have hscaled := scale_lt bp hbp hlength array.packing
  have hbounded : ∀ sl : Quad, sl = .ofNat 64 (scale bp array.length array.packing) →
      cmovle (cmovle sl (.ofNat 64 (length + offset)) sl - .ofNat 64 (length + offset))
        (cmovle sl (.ofNat 64 (length + offset)) sl) (.ofNat 64 (length + offset)) =
      .ofNat 64 (boundedLength bp array (length + offset)) := by
    intro sl hsl
    unfold boundedLength
    rw [hsl, cmovle_self (by omega)]
    by_cases hzero : scale bp array.length array.packing = 0
    · rw [if_pos hzero, if_pos hzero, cmovle_sub (by omega) (by omega), Nat.min_self]
    · rw [if_neg hzero, if_neg hzero, cmovle_sub (by omega) (by omega)]
  rw [chaseloop]
  simp only [memoryRead_some hheader, memoryRead_some hnext, readFixnum_of_holds hfields.length,
    readFixnum_of_holds hfields.offset, pure_bind, hlong, ← BitVec.ofNat_add,
    logicalShift_field hbp hpacking' hlength, logicalShift_field hbp hpacking' hoffset,
    hfields.packing, hbounded _ rfl]
  rfl

/-- The loop comes to the end of the chain with what is remaining, in as many rounds as there
are arrays. -/
theorem chaseloop_eq (hleads : Leads read o tail) (hbp : bp ≤ 5) (hpacked : tail.Packed)
    {length offset total : Nat} (hsmall : length + offset + tail.counted bp < 2 ^ 61) :
    ∃ length' : Nat, length' < 2 ^ 61 ∧
      (length' : Int) - (total + tail.counted bp : Nat) =
        tail.remaining bp (length + offset - total) total ∧
      ∀ fuel, chaseloop read p (.ofNat 64 bp) fuel (extend o.data) (.ofNat 64 length)
          (.ofNat 64 offset) (.ofNat 64 total) =
        if tail.depth < fuel then
          pure (leafarray p (.ofNat 64 bp) tail.data (.ofNat 64 length')
            (.ofNat 64 (total + tail.counted bp)))
        else ExceptT.mk none := by
  induction hleads generalizing length offset total with
  | @short o q vma harray hheader hshort =>
      have hlength : arrayShortLength q.data < 2 ^ 15 := by
        rw [arrayShortLength, ldb_eq]
        exact Nat.mod_lt _ (by decide)
      have hscaled := scale_lt bp hbp (n := arrayShortLength q.data) (by omega)
        (arrayBytePacking q.data)
      unfold Tail.counted at hsmall
      refine ⟨min (length + offset) (scale bp (arrayShortLength q.data) (arrayBytePacking q.data)),
        by omega, ?_, fun fuel => ?_⟩
      · rw [Tail.remaining, Tail.counted]
        omega
      · cases fuel with
        | zero => rfl
        | succ fuel =>
            rw [Tail.depth, if_pos (Nat.zero_lt_succ fuel), chaseloop]
            simp only [memoryRead_some hheader, pure_bind, hshort, if_true, ← BitVec.ofNat_add,
              shortLength_extend]
            rw [logicalShift_field hbp hpacked (by omega), cmovle_sub (by omega) (by omega)]
            rfl
  | @displaced o q next vma found1 found2 array harray hheader hlong hfields haddress =>
      unfold Tail.counted at hsmall
      have hle := boundedLength_le bp array (length + offset)
      refine ⟨boundedLength bp array (length + offset), by omega, ?_, fun fuel => ?_⟩
      · rw [Tail.remaining, Tail.counted, Nat.add_zero, boundedLength_sub]
        push_cast
        rfl
      · cases fuel with
        | zero => rfl
        | succ fuel =>
            rw [Tail.depth, if_pos (Nat.zero_lt_succ fuel),
              chaseloop_long hheader hlong hfields hbp hpacked (by omega),
              dispatchIndirect_address haddress, pure_bind]
            rfl
  | @long o q next vma found1 found2 array tail harray hheader hlong hfields htail ih =>
      unfold Tail.counted at hsmall
      have hle := boundedLength_le bp array (length + offset)
      obtain ⟨length', hlt, hremaining, heq⟩ :=
        @ih hpacked.2 (boundedLength bp array (length + offset))
          (scale bp array.offset array.packing) (total + scale bp array.offset array.packing)
          (by omega)
      refine ⟨length', hlt, ?_, fun fuel => ?_⟩
      · rw [Tail.counted, ← Nat.add_assoc, hremaining, Tail.remaining]
        congr 1
        have hbounded := boundedLength_sub bp array (length + offset) total
        push_cast at hbounded ⊢
        rw [← hbounded]
        omega
      · cases fuel with
        | zero => rfl
        | succ fuel =>
            rw [chaseloop_long hheader hlong hfields hbp hpacked.1 (by omega),
              dispatchIndirect_array htail.isArray, pure_bind, if_pos rfl, heq fuel,
              Tail.counted, ← Nat.add_assoc]
            simp only [Tail.depth, Tail.data, Nat.add_lt_add_iff_right]

/-- `dodisp` is as `leafarray` without offsets. -/
theorem dodisp_eq_leafarray (indirect : Quad) {length : Nat} (hbp : bp ≤ 5)
    (hlength : length < 2 ^ 62) :
    dodisp p indirect (.ofNat 64 length) =
      leafarray p (.ofNat 64 bp) indirect (.ofNat 64 length) (.ofNat 64 0) := by
  have hleft := left_eq hlength (show 0 < 2 ^ 62 by decide)
  unfold dodisp leafarray
  simp only [hleft, Nat.sub_zero]
  rw [logicalShiftRight_eq _ hbp]
  simp

variable {first : LongArray} {target : Target}

/-- The set-up is given an array of one dimension, or is to take it for one. -/
def OneDimension (p : LongArrayArguments) (target : Target) : Prop :=
  match target with
  | .address _ => True
  | .array _ => extend p.header &&& 7 ≠ 1 → p.force1d = true

/-- **The registers of the set-up**, as the loop leaves them. -/
theorem setup1DLongArray_eq (hleads : LeadsFrom read p first target)
    (h : Summable first target) :
    ∃ length : Nat, length < 2 ^ 61 ∧ arrayBytePacking p.header = first.packing ∧
      first.length < 2 ^ 32 ∧ (length : Int) - (target.counted first : Nat) = target.left first ∧
      (OneDimension p target → ∀ fuel, target.depth ≤ fuel → setup1DLongArray read p fuel =
        pure (leafarray p (.ofNat 64 first.packing) target.data (.ofNat 64 length)
          (.ofNat 64 (target.counted first)))) ∧
      ∀ fuel r, (setup1DLongArray read p fuel).run = some (.ok r) →
        OneDimension p target ∧ target.depth ≤ fuel := by
  cases hleads with
  | @address next found1 found2 hfields haddress =>
      obtain ⟨found, hnext⟩ := hfields.next
      have hlength := lt_of_holds hfields.length
      refine ⟨first.length, by omega, hfields.packing, hlength, ?_, fun _ fuel _ => ?_,
        fun fuel r _ => ⟨trivial, Nat.zero_le _⟩⟩
      · rw [Target.counted, Target.left]
        omega
      · rw [setup1DLongArray]
        simp only [readFixnum_of_holds hfields.length, readFixnum_of_holds hfields.offset,
          memoryRead_some hnext, dispatchIndirect_address haddress, pure_bind]
        exact congrArg pure (dodisp_eq_leafarray _ h.packing (by omega))
  | @array next tail found1 found2 hfields htail =>
      obtain ⟨found, hnext⟩ := hfields.next
      have hlength := lt_of_holds hfields.length
      have hsum := h.sum
      have hcounted := Tail.counted_mul_le h.packing h.packed
      have hsize : 0 < bytePackingSize first.packing := by
        rw [bytePackingSize_eq h.packing]
        exact Nat.two_pow_pos _
      have hle := Nat.le_mul_of_pos_right (first.length + first.offset + tail.counted first.packing)
        hsize
      rw [Nat.add_mul] at hle
      change _ + tail.offsetBits < _ at hsum
      obtain ⟨length, hlt, hremaining, hloop⟩ :=
        @chaseloop_eq _ p _ _ _ htail h.packing h.packed first.length first.offset first.offset
          (by omega)
      have hsetup : ∀ fuel, setup1DLongArray read p fuel =
          if extend p.header &&& 7 ≠ 1 ∧ p.force1d = false then throw .exception
          else if tail.depth < fuel then
            pure (leafarray p (.ofNat 64 first.packing) tail.data (.ofNat 64 length)
              (.ofNat 64 (first.offset + tail.counted first.packing)))
          else ExceptT.mk none := by
        intro fuel
        rw [setup1DLongArray]
        simp only [readFixnum_of_holds hfields.length, readFixnum_of_holds hfields.offset,
          memoryRead_some hnext, dispatchIndirect_array htail.isArray, pure_bind, if_true]
        by_cases hexception : extend p.header &&& 7 ≠ 1 ∧ p.force1d = false
        · rw [if_pos hexception, if_pos hexception]
          rfl
        · rw [if_neg hexception, if_neg hexception, bytePacking_extend, hfields.packing]
          exact hloop fuel
      refine ⟨length, hlt, hfields.packing, hlength, hremaining.trans ?_, fun hone fuel hfuel => ?_,
        fun fuel r hreturn => ?_⟩
      · rw [Target.left]
        congr 1
        omega
      · rw [hsetup, if_neg (by
          intro hexception
          rw [hone hexception.1] at hexception
          exact Bool.noConfusion hexception.2), if_pos (Nat.lt_of_succ_le hfuel)]
        rfl
      · rw [hsetup] at hreturn
        by_cases hexception : extend p.header &&& 7 ≠ 1 ∧ p.force1d = false
        · rw [if_pos hexception] at hreturn
          cases hreturn
        · rw [if_neg hexception] at hreturn
          by_cases hfuel : tail.depth < fuel
          · exact ⟨fun hdimension => by
              simpa using fun hforce => hexception ⟨hdimension, hforce⟩, hfuel⟩
          · rw [if_neg hfuel] at hreturn
            cases hreturn

/-- The set-up returns, for an array of one dimension. -/
theorem setup1DLongArray_returns (hleads : LeadsFrom read p first target)
    (h : Summable first target) (hone : OneDimension p target) {fuel : Nat}
    (hfuel : target.depth ≤ fuel) :
    ∃ r, (setup1DLongArray read p fuel).run = some (.ok r) := by
  obtain ⟨length, -, -, -, -, hreturns, -⟩ := setup1DLongArray_eq hleads h
  exact ⟨_, congrArg ExceptT.run (hreturns hone fuel hfuel)⟩

end Chain

/-! ### When the registers are right -/

section Right

variable {p : LongArrayArguments} {bp i : Nat} {first : LongArray} {target : Target}

/-- The elements of the register, one after the other from the sum of the offsets on. -/
theorem registerPlace_eq (data : Quad) {length total : Nat} (hbp : bp ≤ 5)
    (hpacking : arrayBytePacking p.header = bp) (hlength : length < 2 ^ 62)
    (htotal : total < 2 ^ 62) (hfits : Fits p) (hpos : 0 < length - total) (i : Nat) :
    registerPlace (leafarray p (.ofNat 64 bp) data (.ofNat 64 length) (.ofNat 64 total)) i =
      (32 * data.toNat + (total + i) * bytePackingSize bp) % 2 ^ 37 := by
  obtain ⟨hpacked, hoffset⟩ := @leafarray_control bp p data length total hbp htotal hfits
  have hword : 2 ^ bp * bytePackingSize bp = 32 := by
    rw [bytePackingSize_eq hbp, ← Nat.pow_add, Nat.add_sub_cancel' hbp]
  have hsplit : total * bytePackingSize bp =
      32 * (total / 2 ^ bp) + total % 2 ^ bp * bytePackingSize bp := by
    calc total * bytePackingSize bp
        = (2 ^ bp * (total / 2 ^ bp) + total % 2 ^ bp) * bytePackingSize bp := by
          rw [Nat.div_add_mod]
      _ = 2 ^ bp * bytePackingSize bp * (total / 2 ^ bp) +
            total % 2 ^ bp * bytePackingSize bp := by ring
      _ = 32 * (total / 2 ^ bp) + total % 2 ^ bp * bytePackingSize bp := by rw [hword]
  rw [registerPlace, leafarray_base p data hbp hlength htotal hpos, hpacked, hoffset, hpacking,
    Nat.add_mul, Nat.add_mul, hsplit]
  omega

/-- What the set-up does, and the event count that does not fit aside, what it is to do. -/
def Sound (p : LongArrayArguments) (first : LongArray) (target : Target) : Prop :=
  (Fits p ∧ Whole first target ∧ Long first target) ∨ Closed first target

variable {length : Nat}

/-- The set-up's registers are right under the condition, and while the event count fits only
under it. -/
theorem right_leafarray_iff (h : Summable first target)
    (hpacking : arrayBytePacking p.header = first.packing) (hfirst : first.length < 2 ^ 32)
    (hlength : length < 2 ^ 61)
    (hleft : (length : Int) - (target.counted first : Nat) = target.left first) :
    (Sound p first target → Right first target (leafarray p (.ofNat 64 first.packing) target.data
      (.ofNat 64 length) (.ofNat 64 (target.counted first)))) ∧
    (Fits p → Right first target (leafarray p (.ofNat 64 first.packing) target.data
      (.ofNat 64 length) (.ofNat 64 (target.counted first))) → Sound p first target) := by
  have hsum := h.sum
  have hcounted := Target.counted_mul_le h
  have hleft_le := @Target.left_le first target
  have hsize : 0 < bytePackingSize first.packing := by
    rw [bytePackingSize_eq h.packing]
    exact Nat.two_pow_pos _
  have htotal := Nat.le_mul_of_pos_right (target.counted first) hsize
  rw [Nat.add_mul] at hsum
  set r := leafarray p (.ofNat 64 first.packing) target.data (.ofNat 64 length)
    (.ofNat 64 (target.counted first)) with hr
  have hrlength : r.length.toNat = length - target.counted first :=
    leafarray_length p _ (by omega) (by omega) (by omega)
  have hplace : Fits p → 0 < length - target.counted first → ∀ i,
      (registerPlace r i = chainPlace first target i ↔ Whole first target) := by
    intro hfits hpos i
    rw [← Target.counted_mul_eq_iff h, hr,
      registerPlace_eq _ h.packing hpacking (by omega) (by omega) hfits hpos, chainPlace,
      Nat.add_mul, Nat.add_mul]
    omega
  constructor
  · intro hsound
    rcases hsound with ⟨hfits, hwhole, hlong⟩ | hclosed
    · have hinside := Target.inside_iff h hwhole hlong
      have hpacked := (@leafarray_control _ p target.data length (target.counted first) h.packing
        (by omega) hfits).1
      refine ⟨fun i hi => ⟨?_, ?_, ?_⟩, ?_, fun l hl haddresses => ?_⟩
      · rw [hr, hpacked, hpacking]
      · exact (hplace hfits (by omega) i).mpr hwhole
      · rw [hinside]
        omega
      · omega
      · by_contra hgt
        have hlast := (haddresses r.length.toNat (by omega)).2.2
        rw [hinside] at hlast
        omega
    · have hzero : r.length.toNat = 0 := by
        have hnonpos := Target.left_nonpos_iff.mpr hclosed
        omega
      refine ⟨fun i hi => ?_, by omega, fun l hl haddresses => ?_⟩
      · omega
      · by_contra hgt
        exact Target.not_inside_of_closed h hclosed 0 (haddresses 0 (by omega)).2.2
  · intro hfits hright
    by_cases hclosed : Closed first target
    · exact .inr hclosed
    · have hpos : 0 < length - target.counted first := by
        have hnot := mt Target.left_nonpos_iff.mp hclosed
        omega
      obtain ⟨-, hzero, hinside⟩ := hright.addresses 0 (by omega)
      exact .inl ⟨hfits, (hplace hfits hpos 0).mp hzero, Target.long_of_inside h hinside⟩

end Right

/-- **The set-up of a register for a chain of arrays is right** for whole offsets and arrays of
one element at least, or when nothing is left, and otherwise it is not. -/
theorem setup1DLongArray_right_iff {read : MemoryRead} {p : LongArrayArguments}
    {first : LongArray} {target : Target} (hleads : LeadsFrom read p first target)
    (h : Summable first target) {fuel : Nat} {r : ArrayRegister}
    (hreturn : (setup1DLongArray read p fuel).run = some (.ok r)) :
    (Sound p first target → Right first target r) ∧
      (Fits p → Right first target r → Sound p first target) := by
  obtain ⟨length, hlength, hpacking, hfirst, hleft, hreturns, hnormal⟩ :=
    setup1DLongArray_eq hleads h
  obtain ⟨hone, hfuel⟩ := hnormal fuel r hreturn
  rw [hreturns hone fuel hfuel] at hreturn
  rw [← Except.ok.inj (Option.some_inj.mp hreturn)]
  exact right_leafarray_iff h hpacking hfirst hlength hleft

/-! ### Two memories -/

/-- The words from address 0 on. -/
def wordsFrom (words : List LispObj) : MemoryRead := fun _ vma =>
  words[vma.toNat]?.map (vma, ·)

/-- Ten bytes, indirected with offset 4 to five words, indirected with offset 2 to forty bytes. -/
def nestedArrays : List LispObj :=
  [⟨arrayHeaderTag, 0x10800001⟩, ⟨typeFixnum, 10⟩, ⟨typeFixnum, 4⟩, ⟨typeArray, 4⟩,
    ⟨arrayHeaderTag, 0x00800001⟩, ⟨typeFixnum, 5⟩, ⟨typeFixnum, 2⟩, ⟨typeArray, 8⟩,
    ⟨arrayHeaderTag, 0x10000028⟩]

/-- Ten bytes, displaced with offset 4 to the words from 4096 on. -/
def displacedArray : List LispObj :=
  [⟨arrayHeaderTag, 0x10800001⟩, ⟨typeFixnum, 10⟩, ⟨typeFixnum, 4⟩, ⟨typeLocative, 4096⟩]

def bytesArguments : LongArrayArguments where
  atag := typeArray
  adata := 0
  original := 0
  header := 0x10800001
  force1d := false
  areventcount := 0

theorem leadsFrom_nestedArrays : LeadsFrom (wordsFrom nestedArrays) bytesArguments ⟨2, 10, 4⟩
    (.array (.long ⟨0, 5, 2⟩ (.short 2 40 9))) := by
  refine @LeadsFrom.array _ _ _ ⟨typeArray, 4⟩ _ 1 2
    ⟨by decide, ⟨_, rfl, by decide, by decide⟩, ⟨_, rfl, by decide, by decide⟩, _, rfl⟩ ?_
  refine @Leads.long _ _ _ ⟨typeArray, 8⟩ 4 5 6 _ _ (.inl rfl) rfl (by decide)
    ⟨by decide, ⟨_, rfl, by decide, by decide⟩, ⟨_, rfl, by decide, by decide⟩, _, rfl⟩ ?_
  exact @Leads.short _ _ ⟨arrayHeaderTag, 0x10000028⟩ 8 (.inl rfl) rfl (by decide)

theorem setup1DLongArray_right_iff_nested :
    ∃ r, (setup1DLongArray (wordsFrom nestedArrays) bytesArguments 2).run = some (.ok r) ∧
      (Sound bytesArguments ⟨2, 10, 4⟩ (.array (.long ⟨0, 5, 2⟩ (.short 2 40 9))) →
        Right ⟨2, 10, 4⟩ (.array (.long ⟨0, 5, 2⟩ (.short 2 40 9))) r) ∧
      (Fits bytesArguments → Right ⟨2, 10, 4⟩ (.array (.long ⟨0, 5, 2⟩ (.short 2 40 9))) r →
        Sound bytesArguments ⟨2, 10, 4⟩ (.array (.long ⟨0, 5, 2⟩ (.short 2 40 9)))) := by
  have hsummable : Summable ⟨2, 10, 4⟩ (.array (.long ⟨0, 5, 2⟩ (.short 2 40 9))) :=
    ⟨by decide, ⟨by decide, show 2 ≤ 5 by decide⟩, by decide⟩
  obtain ⟨r, hreturn⟩ := setup1DLongArray_returns leadsFrom_nestedArrays hsummable
    (fun hdimension => absurd (by decide) hdimension) (show 2 ≤ 2 from le_rfl)
  exact ⟨r, hreturn, setup1DLongArray_right_iff leadsFrom_nestedArrays hsummable hreturn⟩

/-- The offset of an array that is displaced to an address is left out. -/
theorem not_right_displacedArray :
    LeadsFrom (wordsFrom displacedArray) bytesArguments ⟨2, 10, 4⟩ (.address 4096) ∧
      Summable ⟨2, 10, 4⟩ (.address 4096) ∧
      ∃ r, (setup1DLongArray (wordsFrom displacedArray) bytesArguments 0).run = some (.ok r) ∧
        ¬ Right ⟨2, 10, 4⟩ (.address 4096) r := by
  refine ⟨@LeadsFrom.address _ _ _ ⟨typeLocative, 4096⟩ 1 2
    ⟨by decide, ⟨_, rfl, by decide, by decide⟩, ⟨_, rfl, by decide, by decide⟩, _, rfl⟩ (.inl rfl),
    ⟨by decide, trivial, by decide⟩, _, rfl, fun hright => ?_⟩
  have hplace := (hright.addresses 0 (by decide)).2.1
  exact absurd hplace (by decide)

end Interpreter
