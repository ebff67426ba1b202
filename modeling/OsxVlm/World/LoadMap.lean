import Mathlib
import OsxVlm.Memory.VirtualMemory

/-!
# The load map of a saved world

Only data that starts on a page boundary goes to the pages of the file.  An entry that
does not is replaced in the array by one constant for each of its words; the array
grows while the loop runs over it.
-/

namespace VM

/-- `LoadMapEntryOpcode`, of eight bits. -/
inductive LoadMapEntryOpcode where
  | dataPages
  | constant
  | constantIncremented
  | copy
  | unknown (code : Nat)
  deriving DecidableEq

structure LoadMapEntry where
  address : Nat
  opcode : LoadMapEntryOpcode
  count : Nat
  data : LispObj
  world : Nat
  deriving DecidableEq

/-- An array of `length` entries, and what lies behind it. -/
structure MapEntries where
  length : Nat
  entry : Nat → LoadMapEntry

def MapEntries.toList (a : MapEntries) : List LoadMapEntry := (List.range a.length).map a.entry

/-- `memcpy` of `n` entries from `start` on to `at_`. -/
def memcpyEntries (entry : Nat → LoadMapEntry) (at_ : Nat) (a : MapEntries) (start n : Nat) :
    Nat → LoadMapEntry := fun k =>
  if at_ ≤ k ∧ k < at_ + n then a.entry (start + (k - at_)) else entry k

def typeFixnum : Tag := 0x08

def LoadMapEntry.aligned (e : LoadMapEntry) : Prop := e.address % 8192 = 0

instance (e : LoadMapEntry) : Decidable e.aligned := by
  unfold LoadMapEntry.aligned
  infer_instance

/-- The pages of an entry in the file. -/
def LoadMapEntry.pageCount (e : LoadMapEntry) : Nat := (e.count + 8191) / 8192

/-- Where `CanonicalizeVLMLoadMapEntries` is. -/
structure Canonicalizing where
  wiredMapEntries : MapEntries
  pageNumber : Nat
  i : Nat
  /-- No element outside an array was read or written. -/
  inBounds : Bool

/-- The fields of a constant; the others are as they were allocated. -/
def setConstant (e : LoadMapEntry) (address : Nat) (data : LispObj) : LoadMapEntry :=
  { e with
    address := address
    opcode := .constant
    count := 1
    data := data }

/-- The entry that is not aligned is replaced in a new array, which `malloc` returns
with any contents. -/
def Canonicalizing.convert (virtualMemoryRead : Nat → LispObj) (malloc : Nat → LoadMapEntry)
    (s : Canonicalizing) : Canonicalizing :=
  let a := s.wiredMapEntries
  let mapEntry := a.entry s.i
  let newLength := a.length + mapEntry.count - 1
  let entry := memcpyEntries malloc 0 a 0 s.i
  let entry := memcpyEntries entry (s.i + mapEntry.count) a (s.i + 1) (a.length - s.i)
  let address (j : Nat) := (mapEntry.address + j) % 2 ^ 32
  let entry : Nat → LoadMapEntry := fun k =>
    if s.i ≤ k ∧ k < s.i + mapEntry.count then
      setConstant (entry k) (address (k - s.i)) (virtualMemoryRead (address (k - s.i)))
    else entry k
  { wiredMapEntries := ⟨newLength, entry⟩
    pageNumber := s.pageNumber
    i := s.i + mapEntry.count
    inBounds := s.inBounds &&
      decide (s.i + 1 + (a.length - s.i) ≤ a.length ∧
        s.i + mapEntry.count + (a.length - s.i) ≤ newLength) }

/-- The entry gets the next pages of the file. -/
def Canonicalizing.assign (s : Canonicalizing) : Canonicalizing :=
  let a := s.wiredMapEntries
  let mapEntry := a.entry s.i
  { s with
    wiredMapEntries :=
      ⟨a.length, Function.update a.entry s.i
        { mapEntry with data := ⟨typeFixnum, BitVec.ofNat 32 s.pageNumber⟩ }⟩
    pageNumber := (s.pageNumber + mapEntry.pageCount) % 2 ^ 32
    i := s.i + 1 }

/-- The loop. -/
def Canonicalizing.loop (virtualMemoryRead : Nat → LispObj) (malloc : Nat → LoadMapEntry)
    (s : Canonicalizing) : Canonicalizing :=
  if _h : s.i < s.wiredMapEntries.length then
    if (s.wiredMapEntries.entry s.i).aligned then loop virtualMemoryRead malloc s.assign
    else loop virtualMemoryRead malloc (s.convert virtualMemoryRead malloc)
  else s
termination_by s.wiredMapEntries.length - s.i
decreasing_by
  · simp only [Canonicalizing.assign]
    omega
  · simp only [Canonicalizing.convert]
    omega

/-- The blocks that the header takes. -/
def headerBlocks (nWiredMapEntries : Nat) : Nat :=
  let nQs := (8 + 3 * nWiredMapEntries) % 2 ^ 32
  let pageCount := (nQs + 255) % 2 ^ 32 / 256
  (pageCount * 1280 + 8191) % 2 ^ 32 / 8192

/-- The header has room for the load map; else the save punts. -/
def headerFits (nWiredMapEntries : Nat) : Prop := headerBlocks nWiredMapEntries ≤ 14

instance (n : Nat) : Decidable (headerFits n) := by
  unfold headerFits
  infer_instance

/-- The entries that are left, if the save goes on, and whether the arrays were kept to. -/
def canonicalizeVLMLoadMapEntries (virtualMemoryRead : Nat → LispObj)
    (malloc : Nat → LoadMapEntry) (a : MapEntries) : Option (List LoadMapEntry) × Bool :=
  let s := Canonicalizing.loop virtualMemoryRead malloc ⟨a, 0, 0, true⟩
  (if headerFits s.wiredMapEntries.length then some s.wiredMapEntries.toList else none, s.inBounds)

end VM
