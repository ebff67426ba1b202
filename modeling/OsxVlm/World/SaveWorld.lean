import Mathlib
import OsxVlm.World.IvoryPage
import OsxVlm.World.LoadMap
import OsxVlm.World.MergeMap

/-!
# Saving a world and opening it

The header and the load map are Qs at the beginning of the file.  Behind them come the tags
of the pages that are saved, one block for each page, and then their data, four blocks for
each.  The first four bytes of the file are the tags of its first four Qs; they are chosen so
that they tell what the file is.
-/

namespace VM

/-! ### Files -/

/-- A file that was just made; what lies behind the end of a file is zero. -/
def WorldFile.empty : WorldFile := ⟨fun _ => 0, 0⟩

def WorldFile.ftruncate (f : WorldFile) (size : Nat) : WorldFile where
  bytes := fun i => if i < size then f.bytes i else 0
  size := size

def WorldFile.write (f : WorldFile) (offset count : Nat) (bytes : Nat → BitVec 8) :
    WorldFile where
  bytes := fun i => if offset ≤ i ∧ i < offset + count then bytes (i - offset) else f.bytes i
  size := if count = 0 then f.size else max f.size (offset + count)

section Files

variable {f f' : WorldFile} {offset count : Nat} {bytes : Nat → BitVec 8}

theorem write_outside {i : Nat} (hi : i < offset ∨ offset + count ≤ i) :
    (f.write offset count bytes).bytes i = f.bytes i :=
  if_neg (by omega)

theorem write_inside {i : Nat} (hi : i < count) :
    (f.write offset count bytes).bytes (offset + i) = bytes i := by
  change (if offset ≤ offset + i ∧ offset + i < offset + count then bytes (offset + i - offset)
    else f.bytes (offset + i)) = bytes i
  rw [if_pos (by omega), Nat.add_sub_cancel_left]

theorem size_write : f.size ≤ (f.write offset count bytes).size := by
  unfold WorldFile.write
  dsimp only
  split
  · exact le_rfl
  · exact le_max_left _ _

theorem dataWord_congr (h : ∀ k, k < 4 → f.bytes (offset + k) = f'.bytes (offset + k)) :
    f.dataWord offset = f'.dataWord offset := by
  unfold WorldFile.dataWord
  rw [h 3 (by decide), h 2 (by decide), h 1 (by decide), show f.bytes offset = f'.bytes offset from
    h 0 (by decide)]

end Files

/-- The bytes of the data from an address on, low byte first. -/
def dataBytes (m : Memory) (vma : Nat) : Nat → BitVec 8 := fun i =>
  (m.dataSpace (vma + i / 4)).extractLsb' (8 * (i % 4)) 8

def tagBytes (m : Memory) (vma : Nat) : Nat → BitVec 8 := fun i => m.tagSpace (vma + i)

/-- The host may read the words: their wads are mapped and their pages are open. -/
def readable (m : Memory) (vma count : Nat) : Bool :=
  (List.range count).all fun i =>
    m.mapped (wadNumber (vma + i)) && decide (m.protection (pageNumber (vma + i)) ≠ .none)

/-- The offset of a page that takes so many blocks, computed in 32 bits. -/
def vlmOffset (pageBase pageNumber blocks : Nat) : Nat :=
  8192 * (pageBase + pageNumber * blocks) % 2 ^ 32

theorem vlmOffset_eq {pageBase page blocks : Nat} (h : pageBase + page * blocks < 2 ^ 19) :
    vlmOffset pageBase page blocks = 8192 * (pageBase + page * blocks) :=
  Nat.mod_eq_of_lt (by omega)

/-! ### Words of the load map -/

def LoadMapEntryOpcode.code : LoadMapEntryOpcode → Nat
  | .dataPages => 0
  | .constant => 1
  | .constantIncremented => 2
  | .copy => 3
  | .unknown code => code

def LoadMapEntryOpcode.ofCode : Nat → LoadMapEntryOpcode
  | 0 => .dataPages
  | 1 => .constant
  | 2 => .constantIncremented
  | 3 => .copy
  | code => .unknown code

/-- The word of a count of 24 bits and an opcode of eight. -/
def LoadMapEntry.op (e : LoadMapEntry) : Integer :=
  BitVec.ofNat 32 (e.count % 2 ^ 24 + 2 ^ 24 * (e.opcode.code % 2 ^ 8))

def opCount (op : Integer) : Nat := op.toNat % 2 ^ 24
def opOpcode (op : Integer) : LoadMapEntryOpcode := .ofCode (op.toNat / 2 ^ 24)

/-- `VLMPageBases`, 28 bits for the data and four for the tags. -/
def vlmPageBases (dataPageBase tagsPageBase : Nat) : Integer :=
  BitVec.ofNat 32 (dataPageBase % 2 ^ 28 + 2 ^ 28 * (tagsPageBase % 2 ^ 4))

/-! ### The header -/

/-- A type with `Cdr_Normal`. -/
def cdrNormal (type : Tag) : Tag := (2 <<< 6) + type

def typeSmallRatio : Tag := 0x09
def typeSingleFloat : Tag := 0x0A
def typeCharacter : Tag := 0x23
def tagLocative : Tag := 0x19

/-- The slots of `SystemComm` that lead from a world to its parents. -/
structure SystemComm where
  sysoutGenerationNumber : LispObj
  sysoutTimestamp1 : LispObj
  sysoutTimestamp2 : LispObj
  sysoutParentTimestamp1 : LispObj
  sysoutParentTimestamp2 : LispObj

/-- A world that is saved: its canonical map, and the blocks where data and tags begin. -/
structure VLMWorld where
  wiredMapEntries : List LoadMapEntry
  vlmDataPageBase : Nat
  vlmTagsPageBase : Nat

/-- `CanonicalizeVLMLoadMapEntries` with the bases it computes. -/
def canonicalWorld (virtualMemoryRead : Nat → LispObj) (malloc : Nat → LoadMapEntry)
    (a : MapEntries) : Option VLMWorld :=
  let s := Canonicalizing.loop virtualMemoryRead malloc ⟨a, 0, 0, true⟩
  let blockCount := headerBlocks s.wiredMapEntries.length
  if headerFits s.wiredMapEntries.length then
    some ⟨s.wiredMapEntries.toList, (blockCount + s.pageNumber) % 2 ^ 32, blockCount⟩
  else none

namespace VLMWorld

/-- The Qs of an entry. -/
def entryQs (e : LoadMapEntry) : List LispObj :=
  [⟨tagLocative, BitVec.ofNat 32 e.address⟩, ⟨typeFixnum, e.op⟩, e.data]

/-- The header and the map.  The fourth tag belongs to the cookie. -/
def headerQs (v : VLMWorld) (s : SystemComm) : List LispObj :=
  [⟨cdrNormal typeFixnum, 0o40000201⟩,
    ⟨cdrNormal typeSmallRatio, BitVec.ofNat 32 v.wiredMapEntries.length⟩,
    ⟨cdrNormal typeSingleFloat, vlmPageBases v.vlmDataPageBase v.vlmTagsPageBase⟩,
    ⟨cdrNormal typeCharacter, s.sysoutGenerationNumber.data⟩,
    s.sysoutTimestamp1, s.sysoutTimestamp2, s.sysoutParentTimestamp1, s.sysoutParentTimestamp2] ++
    v.wiredMapEntries.flatMap entryQs

/-- The blocks up to the data of the entry and one page more. -/
def nBlocks (v : VLMWorld) (e : LoadMapEntry) : Nat :=
  (v.vlmDataPageBase + (e.data.data.toNat + e.count / 8192 + 1) * 4) % 2 ^ 32

/-- Room on the disk for everything up to the last entry that has pages. -/
def preallocate (v : VLMWorld) (f : WorldFile) : WorldFile :=
  match v.wiredMapEntries.reverse.find? LoadMapEntry.isData with
  | none => f
  | some e => f.ftruncate (v.nBlocks e * 8192)

def writeVLMWorldFileHeader (v : VLMWorld) (s : SystemComm) (w : World) : Option World :=
  ({ w with file := v.preallocate w.file } : World).write (v.headerQs s)

/-! ### The pages -/

/-- The data of the entry and then its tags. -/
def writeEntry (v : VLMWorld) (m : Memory) (e : LoadMapEntry) (f : WorldFile) :
    Option WorldFile :=
  if readable m e.address e.count then
    let pageNumber := e.data.data.toNat
    let f := f.write (vlmOffset v.vlmDataPageBase pageNumber 4) (4 * e.count)
      (dataBytes m e.address)
    some (f.write (vlmOffset v.vlmTagsPageBase pageNumber 1) e.count (tagBytes m e.address))
  else none

/-- The loop of `WriteVLMWorldFilePages`. -/
def writeEntries (v : VLMWorld) (m : Memory) : List LoadMapEntry → WorldFile → Option WorldFile
  | [], f => some f
  | e :: es, f =>
      if e.isData then (v.writeEntry m e f).bind (v.writeEntries m es)
      else v.writeEntries m es f

def writeVLMWorldFilePages (v : VLMWorld) (m : Memory) (f : WorldFile) : Option WorldFile :=
  v.writeEntries m v.wiredMapEntries f

end VLMWorld

/-! ### The whole save -/

/-- An address and an extent that Lisp passes. -/
structure SaveWorldEntry where
  address : Nat
  extent : Nat

/-- The entry for it; the data is set later and the world never. -/
def SaveWorldEntry.mapEntry (allocated : LoadMapEntry) (e : SaveWorldEntry) : LoadMapEntry :=
  { allocated with
    address := e.address
    opcode := .dataPages
    count := e.extent % 2 ^ 24 }

def savedMap (malloc : Nat → LoadMapEntry) (entries : List SaveWorldEntry) : MapEntries where
  length := entries.length
  entry := fun i =>
    match entries[i]? with
    | some e => e.mapEntry (malloc i)
    | none => malloc i

/-- The file that `SaveWorld` leaves. -/
def saveWorld (m : Memory) (virtualMemoryRead : Nat → LispObj) (malloc : Nat → LoadMapEntry)
    (buffer : Nat → BitVec 8) (s : SystemComm) (entries : List SaveWorldEntry) :
    Option WorldFile := do
  let v ← canonicalWorld virtualMemoryRead malloc (savedMap malloc entries)
  let w ← v.writeVLMWorldFileHeader s ⟨.empty, buffer, -1, 0⟩
  v.writeVLMWorldFilePages m w.file

/-! ### Opening -/

/-- What is known of a world file that is open. -/
structure OpenedWorld where
  file : World
  format : LoadFileFormat
  byteSwapped : Bool
  vlmDataPageBase : Nat
  vlmTagsPageBase : Nat
  sysoutGeneration : Integer
  sysoutTimestamp1 : Integer
  sysoutTimestamp2 : Integer
  sysoutParentTimestamp1 : Integer
  sysoutParentTimestamp2 : Integer
  wiredMapEntries : List LoadMapEntry
  unwiredMapEntries : List LoadMapEntry

/-- The format, and whether the bytes are swapped. -/
def cookieFormat (cookie : Integer) : Option (LoadFileFormat × Bool) :=
  if cookie = 0o24342504610 then some (.vlm, false)
  else if cookie = 0o21042305243 then some (.vlm, true)
  else if cookie = 0o14322444510 then some (.ivory, false)
  else none

/-- The numbers of the Qs of a header; 0 for what it does not have. -/
structure HeaderLayout where
  wiredCountQ : Nat
  unwiredCountQ : Nat
  pagesBaseQ : Nat
  firstSysoutQ : Nat
  firstMapQ : Nat

/-- The layout by format and version; that of another version is not set. -/
def headerLayout (format : LoadFileFormat) (version : Integer) : Option HeaderLayout :=
  match format with
  | .ivory => some ⟨1, 2, 0, 0, 8⟩
  | .vlm =>
      if version = 0o40000200 then some ⟨1, 0, 3, 0, 8⟩
      else if version = 0o40000201 then some ⟨1, 0, 2, 3, 8⟩
      else none

/-- A count is an `int`; a map of negative length cannot be allocated. -/
def mapLength (count : Integer) : Option Nat :=
  if count.toNat < 2 ^ 31 then some count.toNat else none

/-- The Q with this number, if the header has one. -/
def World.headerQ (w : World) (qNumber : Nat) : Option Integer :=
  if qNumber = 0 then some 0 else (w.readIvoryWorldFileQ qNumber).map LispObj.data

/-- `ReadLoadMap`; `self` stands for the world the entries belong to. -/
def World.readLoadMap (self : Nat) : Nat → World → Option (List LoadMapEntry × World)
  | 0, w => some ([], w)
  | n + 1, w => do
      let (address, w) ← w.readIvoryWorldFileNextQ
      let (op, w) ← w.readIvoryWorldFileNextQ
      let (data, w) ← w.readIvoryWorldFileNextQ
      let (es, w) ← w.readLoadMap self n
      some (⟨address.data.toNat, opOpcode op.data, opCount op.data, data, self⟩ :: es, w)

/-- The five Qs of the sysout from this one on, or zeros. -/
def World.readSysout (w : World) (firstSysoutQ : Nat) : Option (List Integer × World) :=
  if firstSysoutQ = 0 then some (List.replicate 5 0, w)
  else
    (World.readQs 5 { w with currentQNumber := firstSysoutQ }).map fun r =>
      (r.1.map LispObj.data, r.2)

/-- `OpenWorldFile` of a file that exists, with a buffer of any contents. -/
def openWorldFile (self : Nat) (buffer : Nat → BitVec 8) (f : WorldFile) :
    Option OpenedWorld := do
  guard (f.holds 0 4)
  let (format, byteSwapped) ← cookieFormat (wordAt f.bytes 0)
  let w ← (⟨f, buffer, -1, 0⟩ : World).readIvoryWorldFilePage 0
  let version ← w.readIvoryWorldFileQ 0
  let layout ← headerLayout format version.data
  let nWired ← w.headerQ layout.wiredCountQ >>= mapLength
  let nUnwired ← w.headerQ layout.unwiredCountQ >>= mapLength
  let pageBases ← w.headerQ layout.pagesBaseQ
  let (sysout, w) ← w.readSysout layout.firstSysoutQ
  let w := { w with currentQNumber := layout.firstMapQ }
  let (wired, w) ← w.readLoadMap self nWired
  let (unwired, w) ← w.readLoadMap self nUnwired
  some
    { file := w
      format := format
      byteSwapped := byteSwapped
      vlmDataPageBase := pageBases.toNat % 2 ^ 28
      vlmTagsPageBase := pageBases.toNat / 2 ^ 28
      sysoutGeneration := sysout.getD 0 0
      sysoutTimestamp1 := sysout.getD 1 0
      sysoutTimestamp2 := sysout.getD 2 0
      sysoutParentTimestamp1 := sysout.getD 3 0
      sysoutParentTimestamp2 := sysout.getD 4 0
      wiredMapEntries := wired
      unwiredMapEntries := unwired }

end VM
