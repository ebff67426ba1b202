import OsxVlm.Interpreter.LongArrays

/-!
# Hidden array registers

`DoAref1` and `DoAset1` keep what they decoded of the header of an array in one of eight blocks,
which the address of the array picks.  A block is trusted when it has the address and the
event count; another path decodes the header and fills the block.
-/

namespace Interpreter.ArrayCaches

open Ivory
open ProcessorState (action forward)

/-- `TypeHeaderI`. -/
def typeHeaderI : Tag := 0x03

/-- What an illegal operand is reported for. -/
inductive ArrayError where
  | arrayAccessTypeCheck
  | subscriptBoundsError
  | byteArrayWordTypeCheck
  | characterArrayAsetTypeError
  | non8BitCharacter
  | fixnumArrayAsetTypeError
  deriving DecidableEq

/-- How an access ends when it does not return. -/
inductive ArrayExit where
  | illegalOperand (error : ArrayError)
  | exception
  | performMemoryAction (cycle : Cycle) (vma : Quad) (action : Byte)
  deriving DecidableEq

abbrev Exits := ExceptT ArrayExit Option

/-- Memory, with the cells that the stack cache has in its place. -/
abbrev Cells := Quad → LispObj

/-! ### Memory cycles -/

/-- The entry of the table; the VLM has cleared the transport bits. -/
def memoryAction (cycle : Cycle) (object : LispObj) : Byte :=
  action cycle object &&& ~~~memoryActionTransport

/-- The mask of the types that have an action. -/
def actionMask (cycle : Cycle) : Quad :=
  (List.range 64).foldl
    (fun mask j =>
      if (memoryActionTable cycle).getD j 0 &&& ~~~memoryActionTransport ≠ 0 then
        mask ||| 1 <<< j
      else mask)
    0

/-- The mask of the types that are followed, of data and of headers. -/
def indirectMask : Cycle → Quad
  | .header => 64
  | _ => 240

/-- A cell that was read, and what the register of the mask is left with. -/
structure Cell where
  vma : Quad
  object : LispObj
  left : Quad

/-- `memory-read`. -/
def memoryRead (memory : Cells) (cycle : Cycle) : Nat → Quad → Exits Cell
  | 0, _ => ExceptT.mk none
  | fuel + 1, vma =>
      let q := memory vma
      let mask := actionMask cycle >>> (tagType q.tag).toNat
      if mask &&& 1 = 0 then pure ⟨vma, q, mask⟩
      else if indirectMask cycle >>> (tagType q.tag).toNat &&& 1 ≠ 0 then
        memoryRead memory cycle fuel (extend q.data)
      else
        let action := memoryAction cycle q
        if action &&& memoryActionTransform ≠ 0 then
          pure ⟨vma, ⟨mergeCdr q.tag typeExternalValueCellPointer, q.data⟩, action.signExtend 64⟩
        else throw (.performMemoryAction cycle vma action)

/-! ### The blocks -/

/-- `ARRAYCACHE`. -/
structure ArrayCache where
  array : Quad
  arword : Quad
  locat : Quad
  length : Quad

/-- Memory, the event count, and the blocks by their distances from the first. -/
structure State where
  memory : Cells
  areventcount : Quad
  ac : Quad → ArrayCache

def autoArrayRegMask : Quad := 224

/-- `STL`: the low half of a quadword is stored. -/
def stl (old new : Quad) : Quad :=
  (old &&& 0xFFFFFFFF00000000) ||| (new &&& 0xFFFFFFFF)

namespace State

/-- The block of an array. -/
def block (s : State) (array : Quad) : ArrayCache := s.ac (array &&& autoArrayRegMask)

def setBlock (s : State) (array : Quad) (b : ArrayCache) : State :=
  { s with ac := Function.update s.ac (array &&& autoArrayRegMask) b }

end State

/-- What the accesses are told: the storage, its byte packing and offset, and the type of
its elements. -/
structure Decoded where
  base : Quad
  bp : Quad
  boffset : Quad
  etyp : Quad
  deriving DecidableEq

namespace ArrayCache

def decoded (b : ArrayCache) : Decoded where
  base := b.locat
  bp := b.arword >>> 27 &&& 7
  boffset := b.arword >>> 22 &&& 31
  etyp := b.arword >>> 30 &&& 3

/-- The event count of the time when the block was filled. -/
def eventCount (b : ArrayCache) : Quad := b.arword <<< 42 >>> 42

end ArrayCache

/-- `Aref1Bounds` and `Aset1Bounds`: the block is given up. -/
def bounds {α : Type} (s : State) (array : Quad) : Except ArrayExit α × State :=
  (.error (.illegalOperand .subscriptBoundsError),
    s.setBlock array { s.block array with array := 0 })

/-- `Aref1Regset` and `Aset1Regset`: the header is decoded, and the block is filled unless the
index is out of bounds. -/
def regset (fuel : Nat) (s : State) (array index : Quad) :
    Option (Except ArrayExit Decoded × State) :=
  (memoryRead s.memory .header fuel array).run.map fun
    | .error exit => (.error exit, s)
    | .ok cell =>
        let header := extend cell.object.data
        if tagType cell.object.tag ≠ typeHeaderI then
          (.error (.illegalOperand .arrayAccessTypeCheck), s)
        else if header >>> 23 &&& 1 ≠ 0 then (.error .exception, s)
        else if ¬ index < header &&& 32767 then bounds s array
        else
          (.ok ⟨cell.vma + 1, header >>> 27 &&& 7, 0, header >>> 30 &&& 3⟩,
            s.setBlock array {
              array := stl (s.block array).array array
              arword := stl (s.block array).arword (header >>> 27 <<< 27 + s.areventcount)
              locat := cell.vma + 1
              length := header &&& 32767 })

/-- `aref1merge` and `aset1merge`, up to the access itself. -/
def merge (fuel : Nat) (s : State) (array : LispObj) (index : Quad) :
    Option (Except ArrayExit Decoded × State) :=
  let adata := extend array.data
  let b := s.block adata
  if adata = 0 then regset fuel s adata index
  else if (array.tag - typeArray) &&& 62 ≠ 0 then some (.error .exception, s)
  else if adata ≠ b.array then regset fuel s adata index
  else if s.areventcount - b.eventCount ≠ 0 then regset fuel s adata index
  else if ¬ index < b.length then some (bounds s adata)
  else some (.ok b.decoded, s)

/-! ### Elements -/

/-- `EXTBL`. -/
def extbl (data temp : Quad) : Quad := data >>> ((temp &&& 7) * 8) &&& 0xFF

/-- `EXTWL`. -/
def extwl (data temp : Quad) : Quad := data >>> ((temp &&& 7) * 8) &&& 0xFFFF

/-- `generate-array-element-ldb`, with the case that a whole word is not moved at all. -/
def elementLdb (bp index data : Quad) : Quad :=
  match bp.toNat with
  | 0 => data
  | 1 => extwl data ((index &&& 1) + (index &&& 1))
  | 2 => extbl data (index &&& 3)
  | 3 => data >>> ((index &&& 7) <<< 2) &&& 15
  | 5 => data >>> (index &&& 31) &&& 1
  | _ => data >>> ((index &&& 15) <<< 1) &&& 3

/-- `byte-packing-mask`. -/
def byteMask (bp : Quad) : Quad := ~~~((~~~0 : Quad) <<< ((32 : Quad) >>> bp))

/-- `array-element-dpb`. -/
def elementDpb (element bp index word : Quad) : Quad :=
  let mask := byteMask bp
  let place := (index &&& ~~~((~~~0 : Quad) <<< bp)) <<< (5 - bp)
  if place = 0 then word &&& ~~~mask ||| element &&& mask
  else
    word <<< (64 - place) >>> (64 - place) |||
      (element &&& mask ||| ~~~mask &&& word >>> place) <<< place

namespace Decoded

/-- The index counts from the byte offset where elements are packed. -/
def place (r : Decoded) (index : Quad) : Quad := if r.bp ≠ 0 then r.boffset + index else index

/-- Where `new-aref-1-internal` reads. -/
def address (r : Decoded) (index : Quad) : Quad :=
  if r.bp ≠ 0 then r.place index >>> r.bp + r.base else r.base + index

/-- What `new-aref-1-internal` makes of the cell that it read. -/
def loaded (r : Decoded) (index : Quad) (cell : Cell) : Except ArrayExit LispObj :=
  if r.bp ≠ 0 ∧ tagType cell.object.tag ≠ typeFixnum then
    .error (.illegalOperand .byteArrayWordTypeCheck)
  else
    let data := elementLdb r.bp (r.place index) (extend cell.object.data)
    -- In the case of a whole word the data was not moved to the register that is tested.
    let tested := if r.bp = 0 then cell.left else data
    if r.etyp = 2 then .ok (if tested ≠ 0 then objectT else objectNIL)
    else
      let tag :=
        if 2 < r.etyp then tagType cell.object.tag
        else if r.etyp &&& 1 ≠ 0 then typeCharacter
        else typeFixnum
      .ok ⟨tag, data.setWidth 32⟩

/-- `new-aref-1-internal`. -/
def newAref1Internal (r : Decoded) (memory : Cells) (fuel : Nat) (index : Quad) :
    Exits LispObj := do
  let cell ← memoryRead memory .dataRead fuel (r.address index)
  ExceptT.mk (some (r.loaded index cell))

/-- The element checking of `aset-1-internal`. -/
def elementBits (r : Decoded) (value : LispObj) : Except ArrayExit Quad :=
  let vdata := extend value.data
  if r.etyp = 1 then
    if tagType value.tag ≠ typeCharacter then
      .error (.illegalOperand .characterArrayAsetTypeError)
    else if r.bp = 0 then .ok vdata
    else if vdata - (vdata &&& byteMask r.bp) ≠ 0 then
      .error (.illegalOperand .non8BitCharacter)
    else .ok vdata
  else if r.etyp = 0 then
    if tagType value.tag ≠ typeFixnum then .error (.illegalOperand .fixnumArrayAsetTypeError)
    else .ok vdata
  else if r.etyp = 2 then .ok (if tagType value.tag ≠ typeNIL then 1 else 0)
  else .ok vdata

/-- What `aset-1-internal` stores in the place of a cell that holds no object. -/
def stored (r : Decoded) (index vdata : Quad) (q : LispObj) : Except ArrayExit LispObj :=
  if tagType q.tag ≠ typeFixnum then .error (.illegalOperand .byteArrayWordTypeCheck)
  else
    let vdata := if r.bp = 0 then vdata else elementDpb vdata r.bp index (extend q.data)
    .ok ⟨q.tag, vdata.setWidth 32⟩

/-- `shovebits`: the bits are stored, and this is the memory that is left. -/
def shovebits (r : Decoded) (memory : Cells) (fuel : Nat) (index : Quad) (value : LispObj)
    (vdata : Quad) : Exits Cells :=
  if r.bp = 0 ∧ r.etyp = 3 then do
    let cell ← memoryRead memory .dataWrite fuel (r.base + index)
    return Function.update memory cell.vma ⟨mergeCdr cell.object.tag value.tag, vdata.setWidth 32⟩
  else do
    let index := r.boffset + index
    let cell ← memoryRead memory .dataRead fuel (index >>> r.bp + r.base)
    let q ← ExceptT.mk (some (r.stored index vdata cell.object))
    return Function.update memory cell.vma q

/-- `aset-1-internal`. -/
def aset1Internal (r : Decoded) (memory : Cells) (fuel : Nat) (index : Quad) (value : LispObj) :
    Exits Cells := do
  let vdata ← ExceptT.mk (some (r.elementBits value))
  r.shovebits memory fuel index value vdata

end Decoded

/-- An access with a decoded header; the state is that of the search. -/
def access {α : Type} (fuel : Nat) (s : State) (array index : LispObj)
    (perform : Decoded → State → Quad → Option (Except ArrayExit α × State)) :
    Option (Except ArrayExit α × State) :=
  if tagType index.tag ≠ typeFixnum then
    some (.error (.illegalOperand .arrayAccessTypeCheck), s)
  else
    match merge fuel s array (index.data.signExtend 64) with
    | none => none
    | some (.error exit, t) => some (.error exit, t)
    | some (.ok r, t) => perform r t (index.data.signExtend 64)

def doAref1 (fuel : Nat) (s : State) (array index : LispObj) :
    Option (Except ArrayExit LispObj × State) :=
  access fuel s array index fun r t index =>
    (r.newAref1Internal t.memory fuel index).run.map fun outcome => (outcome, t)

def doAset1 (fuel : Nat) (s : State) (array index value : LispObj) :
    Option (Except ArrayExit Unit × State) :=
  access fuel s array index fun r t index =>
    (r.aset1Internal t.memory fuel index value).run.map fun
      | .error exit => (.error exit, t)
      | .ok memory => (.ok (), { t with memory })

/-! ### What an access is to do -/

section Direct

variable (memory : Cells) (array index : Integer)

/-- The header of an array. -/
def headerOf : Integer := (memory (extend array)).data

/-- The elements of an array as its header has them. -/
def elementsOf : Elements where
  vma := array + 1
  packing := arrayBytePacking (headerOf memory array)
  offset := 0
  type := arrayElementType (headerOf memory array)

def lengthOf : Nat := arrayShortLength (headerOf memory array)

/-- The storage word of an element. -/
def wordOf : Quad := extend array + 1 + extend index >>> (elementsOf memory array).packing

/-- What a cycle has for a cell that does not forward. -/
def cellValue (cycle : Cycle) (vma : Quad) (q : LispObj) : Except ArrayExit LispObj :=
  if memoryAction cycle q = 0 then .ok q
  else if memoryAction cycle q &&& memoryActionTransform ≠ 0 then
    .ok ⟨mergeCdr q.tag typeExternalValueCellPointer, q.data⟩
  else .error (.performMemoryAction cycle vma (memoryAction cycle q))

/-- What the bits of an element mean. -/
def elementValue (type : ArrayElementType) (tag : Tag) (data : Integer) : LispObj :=
  match type with
  | .fixnum => ⟨typeFixnum, data⟩
  | .character => ⟨typeCharacter, data⟩
  | .boolean => if data ≠ 0 then objectT else objectNIL
  | .object => ⟨tagType tag, data⟩

/-- The bits that are to be stored for a value, if it is of the type of the elements. -/
def storedBits (a : Elements) (value : LispObj) : Except ArrayExit Integer :=
  match a.type with
  | .fixnum =>
      if tagType value.tag = typeFixnum then .ok value.data
      else .error (.illegalOperand .fixnumArrayAsetTypeError)
  | .character =>
      if tagType value.tag ≠ typeCharacter then
        .error (.illegalOperand .characterArrayAsetTypeError)
      else if value.data.toNat < a.range then .ok value.data
      else .error (.illegalOperand .non8BitCharacter)
  | .boolean => .ok (if tagType value.tag = typeNIL then 0 else 1)
  | .object => .ok value.data

/-- The element that the header gives is extracted. -/
def directAref1 : Except ArrayExit LispObj :=
  if lengthOf memory array ≤ index.toNat then .error (.illegalOperand .subscriptBoundsError)
  else
    (cellValue .dataRead (wordOf memory array index) (memory (wordOf memory array index))).map
      fun q => elementValue (elementsOf memory array).type q.tag
        ((elementsOf memory array).field index q.data)

/-- The word that a store leaves: an object is stored beside the cdr code of its cell. -/
def storedWord (value : LispObj) (bits : Integer) : Except ArrayExit LispObj :=
  let q := memory (wordOf memory array index)
  match (elementsOf memory array).type with
  | .object =>
      (cellValue .dataWrite (wordOf memory array index) q).map fun q =>
        ⟨mergeCdr q.tag value.tag, bits⟩
  | _ => .ok ⟨q.tag, (elementsOf memory array).setField bits index q.data⟩

/-- The value is deposited in the element that the header gives. -/
def directAset1 (value : LispObj) : Except ArrayExit Cells :=
  if lengthOf memory array ≤ index.toNat then .error (.illegalOperand .subscriptBoundsError)
  else
    (storedBits (elementsOf memory array) value).bind fun bits =>
      (storedWord memory array index value bits).map
        (Function.update memory (wordOf memory array index))

end Direct

/-- A memory of arrays with short prefixes, which neither forward nor share a word. -/
structure ShortArrays (arrays : Set Integer) (memory : Cells) : Prop where
  header : ∀ a ∈ arrays, tagType (memory (extend a)).tag = typeHeaderI
  short : ∀ a ∈ arrays, arrayLongPrefixP (headerOf memory a) = false
  packing : ∀ a ∈ arrays, (elementsOf memory a).packing ≤ 5
  objects : ∀ a ∈ arrays, (elementsOf memory a).type = .object → (elementsOf memory a).packing = 0
  fixnums : ∀ a ∈ arrays, ∀ i : Integer, i.toNat < lengthOf memory a →
    (elementsOf memory a).type ≠ .object →
      tagType (memory (wordOf memory a i)).tag = typeFixnum
  notForward : ∀ a ∈ arrays, ∀ i : Integer, i.toNat < lengthOf memory a →
    forward .dataRead (memory (wordOf memory a i)) = none
  apart : ∀ a ∈ arrays, ∀ b ∈ arrays, ∀ i : Integer, i.toNat < lengthOf memory a →
    wordOf memory a i ≠ extend b
  disjoint : ∀ a ∈ arrays, ∀ b ∈ arrays, ∀ i j : Integer, i.toNat < lengthOf memory a →
    j.toNat < lengthOf memory b → wordOf memory a i = wordOf memory b j → a = b

/-- The runs: accesses to the arrays of the time, and changes of the headers with an event
count that has not been there before. -/
inductive Run : Set Integer → List Quad → State → Prop
  | start {arrays s} (hempty : ∀ k, (s.ac k).array = 0) (hfits : s.areventcount.toNat < 2 ^ 22) :
      Run arrays [s.areventcount] s
  | aref {arrays seen s t fuel array index outcome} (h : Run arrays seen s)
      (harrays : ShortArrays arrays s.memory) (hmem : array.data ∈ arrays) (htype : IsArray array)
      (haref : doAref1 (fuel + 1) s array index = some (outcome, t)) :
      Run arrays seen t
  | aset {arrays seen s t fuel array index value outcome} (h : Run arrays seen s)
      (harrays : ShortArrays arrays s.memory) (hmem : array.data ∈ arrays) (htype : IsArray array)
      (haset : doAset1 (fuel + 1) s array index value = some (outcome, t)) :
      Run arrays seen t
  | change {arrays seen s} (arrays' : Set Integer) (memory : Cells) (count : Quad)
      (h : Run arrays seen s) (hnew : count ∉ seen) (hfits : count.toNat < 2 ^ 22) :
      Run arrays' (count :: seen) { s with memory, areventcount := count }

/-! ### Memory cycles -/

section Cycles

variable {memory : Cells} {cycle : Cycle} {vma : Quad}

/-- A cycle of the accesses. -/
def Accesses (cycle : Cycle) : Prop := cycle = .dataRead ∨ cycle = .dataWrite ∨ cycle = .header

theorem memoryAction_eq (cycle : Cycle) (q : LispObj) :
    memoryAction cycle q =
      (memoryActionTable cycle).getD (tagType q.tag).toNat 0 &&& ~~~memoryActionTransport := rfl

/-- A bit of the mask says whether the type has an action. -/
theorem actionMask_bit (cycle : Cycle) (q : LispObj) :
    actionMask cycle >>> (tagType q.tag).toNat &&& 1 = 0 ↔ memoryAction cycle q = 0 := by
  have htable : ∀ cycle : Cycle, ∀ n < 64, actionMask cycle >>> n &&& 1 = 0 ↔
      (memoryActionTable cycle).getD n 0 &&& ~~~memoryActionTransport = 0 := by
    intro cycle
    cases cycle <;> decide +kernel
  rw [memoryAction_eq]
  exact htable cycle _ (ProcessorState.tagType_lt q.tag)

theorem indirectMask_bit (hcycle : Accesses cycle) (q : LispObj) :
    indirectMask cycle >>> (tagType q.tag).toNat &&& 1 ≠ 0 ↔
      memoryAction cycle q = memoryActionIndirect := by
  have htable : ∀ n < 64, (indirectMask cycle >>> n &&& 1 ≠ 0 ↔
      (memoryActionTable cycle).getD n 0 &&& ~~~memoryActionTransport = memoryActionIndirect) := by
    obtain rfl | rfl | rfl := hcycle <;> decide +kernel
  rw [memoryAction_eq]
  exact htable _ (ProcessorState.tagType_lt q.tag)

theorem memoryAction_ne_indirect {q : LispObj} (h : forward cycle q = none) :
    memoryAction cycle q ≠ memoryActionIndirect := by
  intro hind
  rw [forward, if_pos (show action cycle q &&& _ = _ from hind)] at h
  cases h

/-- A cell that is not written through a pointer is not read through one either. -/
theorem forward_dataWrite {q : LispObj} (h : forward .dataRead q = none) :
    forward .dataWrite q = none := by
  have htable : ∀ n < 64,
      (memoryActionTable .dataWrite).getD n 0 &&& ~~~memoryActionTransport = memoryActionIndirect →
      (memoryActionTable .dataRead).getD n 0 &&& ~~~memoryActionTransport =
        memoryActionIndirect := by
    decide +kernel
  rw [forward, if_neg]
  intro hind
  exact memoryAction_ne_indirect h (htable _ (ProcessorState.tagType_lt q.tag) hind)

/-- What the register of the mask is left with at a cell that does not forward. -/
def leftOf (cycle : Cycle) (q : LispObj) : Quad :=
  if memoryAction cycle q = 0 then actionMask cycle >>> (tagType q.tag).toNat
  else (memoryAction cycle q).signExtend 64

theorem memoryRead_eq (hcycle : Accesses cycle) (hlast : forward cycle (memory vma) = none)
    (fuel : Nat) :
    memoryRead memory cycle (fuel + 1) vma = ExceptT.mk (some
      ((cellValue cycle vma (memory vma)).map fun q =>
        ⟨vma, q, leftOf cycle (memory vma)⟩)) := by
  have hmask := actionMask_bit cycle (memory vma)
  have hind := indirectMask_bit hcycle (memory vma)
  have hne := memoryAction_ne_indirect hlast
  unfold memoryRead cellValue leftOf
  by_cases hzero : memoryAction cycle (memory vma) = 0
  · simp only [if_pos (hmask.mpr hzero), if_pos hzero]
    rfl
  · simp only [if_neg (fun h => hzero (hmask.mp h)), if_neg (fun h => hne (hind.mp h)),
      if_neg hzero]
    split <;> rfl

/-- A fixnum is read as it is. -/
theorem cellValue_fixnum {q : LispObj} (h : tagType q.tag = typeFixnum) :
    cellValue .dataRead vma q = .ok q := by
  rw [cellValue, if_pos]
  rw [memoryAction_eq, h]
  rfl

/-- The mask is not used up at the bit of a fixnum. -/
theorem leftOf_fixnum {q : LispObj} (h : tagType q.tag = typeFixnum) :
    leftOf .dataRead q ≠ 0 := by
  have hzero : memoryAction .dataRead q = 0 := by
    rw [memoryAction_eq, h]
    rfl
  rw [leftOf, if_pos hzero, h]
  decide

end Cycles

/-! ### What is decoded -/

section Decode

variable (c : Integer)

/-- What is decoded of a header. -/
def headerDecoded (array header : Integer) : Decoded where
  base := extend array + 1
  bp := .ofNat 64 (arrayBytePacking header)
  boffset := 0
  etyp := .ofNat 64 (ldb 2 30 header)

theorem toNat_field (x : Quad) {n : Nat} (hn : n ≤ 64) (p : Nat) :
    (x >>> p &&& .ofNat 64 (2 ^ n - 1)).toNat = x.toNat / 2 ^ p % 2 ^ n := by
  rw [BitFields.toNat_and_mask _ hn, BitVec.toNat_ushiftRight, Nat.shiftRight_eq_div_pow]

theorem elementType_extend : extend c >>> 30 &&& 3 = .ofNat 64 (ldb 2 30 c) := by
  apply BitVec.eq_of_toNat_eq
  rw [show (3 : Quad) = .ofNat 64 (2 ^ 2 - 1) from rfl, toNat_field _ (by decide), toNat_extend,
    ldb_eq, BitVec.toNat_ofNat]
  omega

theorem longPrefix_extend : extend c >>> 23 &&& 1 ≠ 0 ↔ arrayLongPrefixP c = true := by
  have hone : (1 : Quad) = BitVec.twoPow 64 0 := rfl
  have hbit : (1 <<< 23 : Integer) = BitVec.twoPow 32 23 := rfl
  rw [arrayLongPrefixP, hone, hbit, BitVec.and_twoPow, BitVec.and_twoPow, decide_eq_true_iff,
    BitVec.getLsbD_ushiftRight, extend, BitVec.getLsbD_setWidth]
  cases c.getLsbD 23 <;> decide

theorem extend_inj {a b : Integer} (h : extend a = extend b) : a = b := by
  apply BitVec.eq_of_toNat_eq
  rw [← toNat_extend, h, toNat_extend]

/-- The low half is replaced. -/
theorem toNat_stl (old new : Quad) : (stl old new).toNat % 2 ^ 32 = new.toNat % 2 ^ 32 := by
  have hhigh : (0xFFFFFFFF00000000 : Quad).setWidth 32 = 0#32 := by decide
  have hlow : (0xFFFFFFFF : Quad).setWidth 32 = BitVec.allOnes 32 := by decide
  have hhalf : (stl old new).setWidth 32 = new.setWidth 32 := by
    rw [stl, BitVec.setWidth_or, BitVec.setWidth_and, BitVec.setWidth_and, hhigh, hlow,
      BitVec.and_allOnes, BitVec.and_zero, BitVec.zero_or]
  rw [← BitVec.toNat_setWidth, hhalf, BitVec.toNat_setWidth]

/-- Over an empty high half the low half is all. -/
theorem stl_extend {old : Quad} (h : old.toNat < 2 ^ 32) : stl old (extend c) = extend c := by
  have hold : old = extend (old.setWidth 32) := by
    apply BitVec.eq_of_toNat_eq
    rw [toNat_extend, BitVec.toNat_setWidth, Nat.mod_eq_of_lt h]
  have hlow (x : Integer) : extend x &&& 0xFFFFFFFF = extend x := by
    apply BitVec.eq_of_toNat_eq
    rw [show (0xFFFFFFFF : Quad) = .ofNat 64 (2 ^ 32 - 1) from rfl,
      BitFields.toNat_and_mask _ (by decide), toNat_extend, Nat.mod_eq_of_lt x.isLt]
  have hhigh (x : Integer) : extend x &&& 0xFFFFFFFF00000000 = 0 := by
    rw [← hlow x, BitVec.and_assoc]
    exact BitVec.and_zero
  rw [hold, stl, hhigh, hlow]
  exact BitVec.zero_or

theorem toNat_eventCount (b : ArrayCache) : b.eventCount.toNat = b.arword.toNat % 2 ^ 22 := by
  rw [ArrayCache.eventCount, BitVec.toNat_ushiftRight, BitVec.toNat_shiftLeft,
    Nat.shiftRight_eq_div_pow, Nat.shiftLeft_eq]
  omega

/-- The word of a block keeps the fields of the header and the event count apart. -/
theorem toNat_arword (old count : Quad) (hcount : count.toNat < 2 ^ 22) :
    (stl old (extend c >>> 27 <<< 27 + count)).toNat % 2 ^ 32 =
      c.toNat / 2 ^ 27 * 2 ^ 27 + count.toNat := by
  have hlt := c.isLt
  rw [toNat_stl, BitVec.toNat_add, BitVec.toNat_shiftLeft, BitVec.toNat_ushiftRight, toNat_extend,
    Nat.shiftRight_eq_div_pow, Nat.shiftLeft_eq]
  omega

/-- What `Regset` leaves in a block. -/
def filled (b : ArrayCache) (array header : Integer) (count : Quad) : ArrayCache where
  array := stl b.array (extend array)
  arword := stl b.arword (extend header >>> 27 <<< 27 + count)
  locat := extend array + 1
  length := extend header &&& 32767

theorem array_filled {b : ArrayCache} (h : b.array.toNat < 2 ^ 32) (array header : Integer)
    (count : Quad) : (filled b array header count).array = extend array := stl_extend array h

theorem eventCount_filled (b : ArrayCache) (array header : Integer) {count : Quad}
    (hcount : count.toNat < 2 ^ 22) : (filled b array header count).eventCount = count := by
  have hword := toNat_arword header b.arword count hcount
  apply BitVec.eq_of_toNat_eq
  rw [toNat_eventCount]
  change (stl b.arword (extend header >>> 27 <<< 27 + count)).toNat % 2 ^ 22 = _
  omega

theorem decoded_filled (b : ArrayCache) (array header : Integer) {count : Quad}
    (hcount : count.toNat < 2 ^ 22) :
    (filled b array header count).decoded = headerDecoded array header := by
  have hword := toNat_arword header b.arword count hcount
  have hheader := header.isLt
  have hbp : stl b.arword (extend header >>> 27 <<< 27 + count) >>> 27 &&& 7 =
      .ofNat 64 (arrayBytePacking header) := by
    apply BitVec.eq_of_toNat_eq
    rw [show (7 : Quad) = .ofNat 64 (2 ^ 3 - 1) from rfl, toNat_field _ (by decide),
      arrayBytePacking, ldb_eq, BitVec.toNat_ofNat]
    omega
  have hboffset : stl b.arword (extend header >>> 27 <<< 27 + count) >>> 22 &&& 31 = 0 := by
    apply BitVec.eq_of_toNat_eq
    rw [show (31 : Quad) = .ofNat 64 (2 ^ 5 - 1) from rfl, toNat_field _ (by decide)]
    change _ = 0
    omega
  have hetyp : stl b.arword (extend header >>> 27 <<< 27 + count) >>> 30 &&& 3 =
      .ofNat 64 (ldb 2 30 header) := by
    apply BitVec.eq_of_toNat_eq
    rw [show (3 : Quad) = .ofNat 64 (2 ^ 2 - 1) from rfl, toNat_field _ (by decide), ldb_eq,
      BitVec.toNat_ofNat]
    omega
  unfold filled ArrayCache.decoded headerDecoded
  simp only
  rw [hbp, hboffset, hetyp]

end Decode

/-! ### What the blocks hold -/

section Blocks

variable {arrays : Set Integer} {seen : List Quad} {s : State}

/-- A block holds what the header of an array says. -/
def Holds (arrays : Set Integer) (memory : Cells) (b : ArrayCache) : Prop :=
  ∃ a ∈ arrays, b.array = extend a ∧ b.decoded = headerDecoded a (headerOf memory a) ∧
    b.length = .ofNat 64 (lengthOf memory a)

/-- A block in use was filled at an event count that has been there, and holds what the
header says if that is the event count still. -/
structure Valid (arrays : Set Integer) (seen : List Quad) (s : State) : Prop where
  mem : s.areventcount ∈ seen
  fits : ∀ c ∈ seen, c.toNat < 2 ^ 22
  half : ∀ k, (s.ac k).array.toNat < 2 ^ 32
  holds : ∀ k, (s.ac k).array ≠ 0 → (s.ac k).eventCount ∈ seen ∧
    ((s.ac k).eventCount = s.areventcount → Holds arrays s.memory (s.ac k))

@[simp] theorem memory_setBlock (array : Quad) (b : ArrayCache) :
    (s.setBlock array b).memory = s.memory := rfl

@[simp] theorem areventcount_setBlock (array : Quad) (b : ArrayCache) :
    (s.setBlock array b).areventcount = s.areventcount := rfl

theorem ac_setBlock_self (array : Quad) (b : ArrayCache) :
    (s.setBlock array b).ac (array &&& autoArrayRegMask) = b := Function.update_self ..

theorem ac_setBlock_of_ne {array k : Quad} (hk : k ≠ array &&& autoArrayRegMask) (b : ArrayCache) :
    (s.setBlock array b).ac k = s.ac k := Function.update_of_ne hk ..

/-- A block is replaced by one that holds what it should. -/
theorem Valid.setBlock (h : Valid arrays seen s) (array : Quad) {b : ArrayCache}
    (hhalf : b.array.toNat < 2 ^ 32)
    (hholds : b.array ≠ 0 → b.eventCount = s.areventcount ∧ Holds arrays s.memory b) :
    Valid arrays seen (s.setBlock array b) where
  mem := h.mem
  fits := h.fits
  half k := by
    by_cases hk : k = array &&& autoArrayRegMask
    · rw [hk, ac_setBlock_self]
      exact hhalf
    · rw [ac_setBlock_of_ne hk]
      exact h.half k
  holds k := by
    by_cases hk : k = array &&& autoArrayRegMask
    · rw [hk, ac_setBlock_self]
      intro hne
      obtain ⟨hcount, hholds⟩ := hholds hne
      exact ⟨hcount ▸ h.mem, fun _ => hholds⟩
    · rw [ac_setBlock_of_ne hk]
      exact h.holds k

/-- The blocks do not hold anything of the words that are no headers. -/
theorem Valid.update (h : Valid arrays seen s) {memory : Cells}
    (hsame : ∀ a ∈ arrays, memory (extend a) = s.memory (extend a)) :
    Valid arrays seen { s with memory } where
  mem := h.mem
  fits := h.fits
  half := h.half
  holds k hk := by
    refine ⟨(h.holds k hk).1, fun hcount => ?_⟩
    obtain ⟨a, ha, harray, hdecoded, hlength⟩ := (h.holds k hk).2 hcount
    have hheader : headerOf memory a = headerOf s.memory a := by rw [headerOf, headerOf, hsame a ha]
    refine ⟨a, ha, harray, hdecoded.trans ?_, hlength.trans ?_⟩
    · rw [hheader]
    · rw [lengthOf, lengthOf, hheader]

/-- What a search for an array comes to. -/
def found (memory : Cells) (array : Integer) (index : Quad) : Except ArrayExit Decoded :=
  if index < .ofNat 64 (lengthOf memory array) then
    .ok (headerDecoded array (headerOf memory array))
  else .error (.illegalOperand .subscriptBoundsError)

theorem Valid.bounds (h : Valid arrays seen s) (array : Quad) :
    Valid arrays seen (s.setBlock array { s.block array with array := 0 }) :=
  h.setBlock array (Nat.two_pow_pos 32) fun hne => absurd rfl hne

theorem regset_eq (h : Valid arrays seen s) (harrays : ShortArrays arrays s.memory)
    {array : Integer} (hmem : array ∈ arrays) (fuel : Nat) (index : Quad) :
    ∃ t, regset (fuel + 1) s (extend array) index = some (found s.memory array index, t) ∧
      t.memory = s.memory ∧ Valid arrays seen t := by
  have hheader := harrays.header array hmem
  have hshort := harrays.short array hmem
  have hlast : forward .header (s.memory (extend array)) = none := by
    rw [forward, action, hheader]
    rfl
  have hread : memoryRead s.memory .header (fuel + 1) (extend array) =
      ExceptT.mk (some (.ok ⟨extend array, s.memory (extend array),
        leftOf .header (s.memory (extend array))⟩)) := by
    rw [memoryRead_eq (.inr (.inr rfl)) hlast, cellValue, if_pos]
    · rfl
    · rw [memoryAction_eq, hheader]
      rfl
  have hlength : extend (s.memory (extend array)).data &&& 32767 =
      .ofNat 64 (lengthOf s.memory array) := shortLength_extend _
  have hprefix : ¬ extend (s.memory (extend array)).data >>> 23 &&& 1 ≠ 0 := by
    rw [longPrefix_extend]
    simpa [headerOf] using hshort
  unfold regset found
  rw [hread]
  simp only [ExceptT.run_mk, Option.map_some, if_neg (not_not.mpr hheader), if_neg hprefix, hlength]
  by_cases hindex : index < .ofNat 64 (lengthOf s.memory array)
  · rw [if_neg (not_not.mpr hindex), if_pos hindex]
    have hcount := h.fits _ h.mem
    refine ⟨s.setBlock (extend array) (filled (s.block (extend array)) array
      (headerOf s.memory array) s.areventcount), ?_, rfl, ?_⟩
    · have hbp := bytePacking_extend (s.memory (extend array)).data
      have hetyp := elementType_extend (s.memory (extend array)).data
      rw [bytePacking] at hbp
      rw [hbp, hetyp, filled, ← hlength]
      rfl
    · have harray := array_filled (h.half (extend array &&& autoArrayRegMask)) array
        (headerOf s.memory array) s.areventcount
      refine h.setBlock _ ?_ fun _ => ⟨eventCount_filled _ _ _ hcount, array, hmem, harray,
        decoded_filled _ _ _ hcount, hlength⟩
      rw [State.block, harray, toNat_extend]
      exact array.isLt
  · rw [if_pos hindex, if_neg hindex]
    exact ⟨_, rfl, rfl, h.bounds _⟩

/-- A search comes to what the header says, on whichever path. -/
theorem merge_eq (h : Valid arrays seen s) (harrays : ShortArrays arrays s.memory)
    {array : LispObj} (hmem : array.data ∈ arrays) (htype : IsArray array) (fuel : Nat)
    (index : Quad) :
    ∃ t, merge (fuel + 1) s array index = some (found s.memory array.data index, t) ∧
      t.memory = s.memory ∧ Valid arrays seen t := by
  have hregset := regset_eq h harrays hmem fuel index
  have htag : ¬ (array.tag - typeArray) &&& 62 ≠ 0 := by
    have htable : ∀ tag : Tag, tagType tag = typeArray ∨ tagType tag = typeString →
        (tag - typeArray) &&& 62 = 0 := by decide +kernel
    exact not_not.mpr (htable array.tag htype)
  unfold merge
  simp only [if_neg htag]
  by_cases hzero : extend array.data = 0
  · rw [if_pos hzero]
    exact hregset
  rw [if_neg hzero]
  by_cases harray : extend array.data = (s.block (extend array.data)).array
  · rw [if_neg (not_not.mpr harray)]
    by_cases hcount : s.areventcount - (s.block (extend array.data)).eventCount = 0
    · rw [if_neg (not_not.mpr hcount)]
      have heq : (s.block (extend array.data)).eventCount = s.areventcount :=
        (sub_eq_zero.mp hcount).symm
      have hne : (s.block (extend array.data)).array ≠ 0 := harray ▸ hzero
      obtain ⟨a, -, ha, hdecoded, hlength⟩ := (h.holds _ hne).2 heq
      obtain rfl : array.data = a := extend_inj (harray.trans ha)
      have hlength' : (s.block (extend array.data)).length =
        .ofNat 64 (lengthOf s.memory array.data) := hlength
      have hdecoded' : (s.block (extend array.data)).decoded =
        headerDecoded array.data (headerOf s.memory array.data) := hdecoded
      rw [hlength', hdecoded', found]
      by_cases hindex : index < .ofNat 64 (lengthOf s.memory array.data)
      · rw [if_neg (not_not.mpr hindex), if_pos hindex]
        exact ⟨s, rfl, rfl, h⟩
      · rw [if_pos hindex, if_neg hindex]
        exact ⟨_, rfl, rfl, h.bounds _⟩
    · rw [if_pos hcount]
      exact hregset
  · rw [if_pos harray]
    exact hregset

end Blocks

end Interpreter.ArrayCaches
