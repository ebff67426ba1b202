import Mathlib
import OsxVlm.Memory.BlockWords
import OsxVlm.World.CopyQs
import OsxVlm.World.SaveWorld

/-!
# Loading the entries of a world

Pages of a file in the byte order of the host are mapped or read at once.  Those of a
swapped file go through buffers of one page and those of an Ivory file through the buffer of
the header, a chunk of Qs at a time.  Constants and copies are stored into pages made for
them.
-/

namespace VM

/-! ### Memory -/

/-- Memory and the words of the stack cache. -/
structure Storage where
  memory : Memory
  stackcachedata : Nat → LispObj

namespace Storage

def words (s : Storage) : Words :=
  ⟨fun a => ⟨s.memory.tagSpace a, s.memory.dataSpace a⟩, s.stackcachedata⟩

def setWords (s : Storage) (w : Words) : Storage where
  memory :=
    { s.memory with
      dataSpace := fun a => (w.memory a).data
      tagSpace := fun a => (w.memory a).tag }
  stackcachedata := w.stackcachedata

/-- `EnsureVirtualAddressRange` with no page fault to take. -/
def ensure (s : Storage) (e : LoadMapEntry) : Storage :=
  { s with memory := (ensureVirtualAddressRange s.memory e.address e.count false).1 }

end Storage

/-! ### Chunks -/

section Chunks

variable {σ : Type} (next : σ → Option (LispObj × σ)) (c : StackCache)

/-- Fills `n` Qs of the chunk from number `j` on. -/
def readChunk : Nat → Nat → (Nat → LispObj) → σ → Option ((Nat → LispObj) × σ)
  | 0, _, chunk, r => some (chunk, r)
  | n + 1, j, chunk, r => do
      let (q, r) ← next r
      readChunk n (j + 1) (Function.update chunk j q) r

/-- The loop over the Qs of an entry, 256 at a time. -/
def loadChunks (theAddress count : Nat) (chunk : Nat → LispObj) (s : Storage) (r : σ) :
    Option (Storage × σ) :=
  if count = 0 then some (s, r)
  else do
    let n := min count 256
    let (chunk, r) ← readChunk next n 0 chunk r
    let s := s.setWords (virtualMemoryWriteBlock c s.words theAddress n chunk)
    loadChunks ((theAddress + n) % 2 ^ 32) (count - n) chunk s r
termination_by count
decreasing_by omega

end Chunks

/-! ### Pages of a swapped world -/

def bswap32 (w : Integer) : Integer :=
  w.extractLsb' 0 8 ++ w.extractLsb' 8 8 ++ w.extractLsb' 16 8 ++ w.extractLsb' 24 8

/-- A swapped file and the buffers of one page, if they were allocated. -/
structure SwappedPages where
  file : WorldFile
  vlmDataPageBase : Nat
  vlmTagsPageBase : Nat
  allocated : Bool
  vlmDataPage : Nat → BitVec 8
  vlmTagsPage : Nat → BitVec 8
  currentPageNumber : Int
  currentQNumber : Nat

namespace SwappedPages

/-- The offset of a page, computed in an `int`. -/
def seek (pageBase : Nat) (pageNumber : Int) (blocks : Nat) : Option Nat :=
  lseek (toInt32 (8192 * (pageBase + pageNumber * blocks)))

/-- The buffers are allocated once, and no page is in them then. -/
def allocate (p : SwappedPages) : SwappedPages :=
  if p.allocated then p else { p with allocated := true, currentPageNumber := -1 }

def readPage (p : SwappedPages) (pageNumber : Int) : Option SwappedPages :=
  if p.currentPageNumber = pageNumber then some p
  else do
    let dataOffset ← seek p.vlmDataPageBase pageNumber 4
    let tagsOffset ← seek p.vlmTagsPageBase pageNumber 1
    guard (p.file.holds dataOffset 32768)
    guard (p.file.holds tagsOffset 8192)
    some
      { p with
        vlmDataPage := fun i => p.file.bytes (dataOffset + i)
        vlmTagsPage := fun i => p.file.bytes (tagsOffset + i)
        currentPageNumber := pageNumber }

def readSwappedVLMWorldFilePage (p : SwappedPages) (pageNumber : Int) : Option SwappedPages :=
  p.allocate.readPage pageNumber

def readSwappedVLMWorldFileQ (p : SwappedPages) (qNumber : Nat) : Option LispObj :=
  if 8192 ≤ qNumber then none
  else some ⟨p.vlmTagsPage qNumber, bswap32 (wordAt p.vlmDataPage (4 * qNumber))⟩

/-- The loop that advances to the page of the next Q. -/
def advancePages : Nat → SwappedPages → Option SwappedPages
  | 0, p => some p
  | pages + 1, p => do
      let p ← p.readSwappedVLMWorldFilePage (p.currentPageNumber + 1)
      advancePages pages { p with currentQNumber := p.currentQNumber - 8192 }

def readSwappedVLMWorldFileNextQ (p : SwappedPages) : Option (LispObj × SwappedPages) := do
  let p ← advancePages (p.currentQNumber / 8192) p
  let q ← p.readSwappedVLMWorldFileQ p.currentQNumber
  some (q, { p with currentQNumber := p.currentQNumber + 1 })

end SwappedPages

/-! ### Entries -/

/-- The buffers that an open world begins with; they are not allocated yet. -/
def OpenedWorld.swappedPages (w : OpenedWorld) (page : Nat → BitVec 8) : SwappedPages where
  file := w.file.file
  vlmDataPageBase := w.vlmDataPageBase
  vlmTagsPageBase := w.vlmTagsPageBase
  allocated := false
  vlmDataPage := page
  vlmTagsPage := page
  currentPageNumber := w.file.currentPageNumber
  currentQNumber := w.file.currentQNumber

/-- The worlds whose entries are loaded, with their buffers. -/
structure MapWorld where
  world : OpenedWorld
  pages : SwappedPages

/-- What the loader works on. -/
structure Loader where
  storage : Storage
  worlds : Nat → MapWorld

section Load

variable (c : StackCache) (chunk : Nat → LispObj)

/-- What both formats do with an entry that has no pages. -/
def Storage.loadSpecial (s : Storage) (e : LoadMapEntry) : Option Storage :=
  match e.opcode with
  | .constant =>
      some (s.setWords (virtualMemoryWriteBlockConstant c s.words e.address e.count e.data 0))
  | .constantIncremented =>
      some (s.setWords (virtualMemoryWriteBlockConstant c s.words e.address e.count e.data 1))
  | .copy =>
      (loadMapCopyQs c e.address e.data.data.toNat e.count chunk s.words).map s.setWords
  | _ => none

namespace Loader

/-- `VLMLoadMapData`: the pages are those of the world that the entry names. -/
def vlmLoadMapData (l : Loader) (e : LoadMapEntry) : Option Loader :=
  match e.opcode with
  | .dataPages =>
      let mapWorld := l.worlds e.world
      let pageNumber := e.data.data.toNat
      if mapWorld.world.byteSwapped then do
        let s := l.storage.ensure e
        let p ← mapWorld.pages.readSwappedVLMWorldFilePage (toInt32 pageNumber)
        let p := { p with currentQNumber := 0 }
        let (s, p) ← loadChunks SwappedPages.readSwappedVLMWorldFileNextQ c e.address e.count
          chunk s p
        some ⟨s, Function.update l.worlds e.world { mapWorld with pages := p }⟩
      else do
        let dataOffset := vlmOffset mapWorld.world.vlmDataPageBase pageNumber 4
        let tagOffset := vlmOffset mapWorld.world.vlmTagsPageBase pageNumber 1
        let (m, _) ← mapWorldLoad l.storage.memory e.address e.count mapWorld.world.file.file
          dataOffset tagOffset
        some { l with storage := { l.storage with memory := m } }
  | _ => ((l.storage.ensure e).loadSpecial c chunk e).map fun s => { l with storage := s }

/-- `IvoryLoadMapData`: the pages are those of the world that is loaded. -/
def ivoryLoadMapData (self : Nat) (l : Loader) (e : LoadMapEntry) : Option Loader :=
  let s := l.storage.ensure e
  match e.opcode with
  | .dataPages => do
      let w := l.worlds self
      let p ← w.world.file.readIvoryWorldFilePage (toInt32 e.data.data.toNat)
      let p := { p with currentQNumber := 0 }
      let (s, p) ← loadChunks World.readIvoryWorldFileNextQ c e.address e.count chunk s p
      some
        ⟨s, Function.update l.worlds self { w with world := { w.world with file := p } }⟩
  | _ => (s.loadSpecial c chunk e).map fun s => { l with storage := s }

def loadMapData (self : Nat) (l : Loader) (e : LoadMapEntry) : Option Loader :=
  match (l.worlds self).world.format with
  | .vlm => l.vlmLoadMapData c chunk e
  | .ivory => l.ivoryLoadMapData c chunk self e

/-- The loop over the entries, and the words they count. -/
def loadEntries (self : Nat) : List LoadMapEntry → Loader → Option (Loader × Nat)
  | [], l => some (l, 0)
  | e :: es, l => do
      let l ← l.loadMapData c chunk self e
      let (l, size) ← loadEntries self es l
      some (l, (size + e.count) % 2 ^ 32)

end Loader

/-- `LoadWorld` for a world that has no parents; its entries are those it merges. -/
def loadWorld (s : Storage) (page : Nat → BitVec 8) (w : OpenedWorld) : Option (Loader × Nat) :=
  if w.sysoutGeneration = 0 then
    Loader.loadEntries c chunk 0 (w.wiredMapEntries ++ w.unwiredMapEntries)
      ⟨s, fun _ => ⟨w, w.swappedPages page⟩⟩
  else none

end Load

end VM
