import Mathlib
import OsxVlm.Memory.Attributes

/-!
# The virtual memory of the emulator

The attribute table says which pages exist; the host maps whole wads and
protects single pages of their data.  `mmap`, `munmap` and `mprotect` succeed.
A world is loaded page by page, or a run of whole wads at a time.
-/

namespace VM

structure LispObj where
  tag : Tag
  data : Integer
  deriving DecidableEq

structure Memory where
  /-- `VMAttributeTable`; entries from `2^19` on stand for what lies behind it. -/
  attributeTable : Nat → VMAttribute
  /-- The wads that are mapped; numbers from `2^16` on lie behind the windows. -/
  mapped : Nat → Bool
  /-- The protection in force on the data of each page. -/
  protection : Nat → Prot
  dataSpace : Nat → Integer
  tagSpace : Nat → Tag
  enableIDS : Bool

/-- The windows are reserved and no page exists. -/
def Memory.empty (enableIDS : Bool) : Memory where
  attributeTable := fun _ => 0
  mapped := fun _ => false
  protection := fun _ => .none
  dataSpace := fun _ => 0
  tagSpace := fun _ => 0
  enableIDS := enableIDS

/-- `Created` and `WadCreated`. -/
def created (m : Memory) (vma : Nat) : Bool := vmExists (m.attributeTable (pageNumber vma))

def wadCreated (m : Memory) (vma : Nat) : Bool :=
  (List.range 8).any fun i => vmExists (m.attributeTable (8 * wadNumber vma + i))

theorem wadCreated_iff {m : Memory} {vma : Nat} :
    wadCreated m vma = true ↔
      ∃ p, p / 8 = wadNumber vma ∧ vmExists (m.attributeTable p) = true := by
  unfold wadCreated
  rw [List.any_eq_true]
  constructor
  · intro h
    obtain ⟨i, hi, hex⟩ := h
    rw [List.mem_range] at hi
    exact ⟨8 * wadNumber vma + i, by omega, hex⟩
  · intro h
    obtain ⟨p, hp, hex⟩ := h
    refine ⟨p % 8, List.mem_range.mpr (Nat.mod_lt _ (by decide)), ?_⟩
    rw [← hp, Nat.div_add_mod]
    exact hex

theorem pageNumber_div (vma : Nat) : pageNumber vma / 8 = wadNumber vma := by
  unfold pageNumber wadNumber
  omega

theorem wadCreated_of_created {m : Memory} {vma : Nat} (h : created m vma = true) :
    wadCreated m vma = true :=
  wadCreated_iff.mpr ⟨pageNumber vma, pageNumber_div vma, h⟩

/-! ### The host -/

/-- `mprotect` of the data of a page. -/
def Memory.mprotect (m : Memory) (page : Nat) (prot : Prot) : Memory :=
  { m with protection := fun p => if p = page then prot else m.protection p }

def Memory.setAttribute (m : Memory) (page : Nat) (attr : VMAttribute) : Memory :=
  { m with attributeTable := fun p => if p = page then attr else m.attributeTable p }

/-- A fresh wad: data all ones, tags zero. -/
def Memory.mapWad (m : Memory) (wad : Nat) (prot : Prot) : Memory :=
  { m with
    mapped := fun w => if w = wad then true else m.mapped w
    protection := fun p => if p / 8 = wad then prot else m.protection p
    dataSpace := fun a => if wadNumber a = wad then 0xFFFFFFFF else m.dataSpace a
    tagSpace := fun a => if wadNumber a = wad then 0 else m.tagSpace a }

/-- The wad is reserved again and its contents are gone. -/
def Memory.unmapWad (m : Memory) (wad : Nat) : Memory :=
  { m with
    mapped := fun w => if w = wad then false else m.mapped w
    protection := fun p => if p / 8 = wad then .none else m.protection p
    dataSpace := fun a => if wadNumber a = wad then 0 else m.dataSpace a
    tagSpace := fun a => if wadNumber a = wad then 0 else m.tagSpace a }

/-- `count` words from `vma` on are replaced. -/
def Memory.writeWords (m : Memory) (vma count : Nat) (data : Nat → Integer) (tag : Nat → Tag) :
    Memory :=
  { m with
    dataSpace := fun a => if vma ≤ a ∧ a < vma + count then data (a - vma) else m.dataSpace a
    tagSpace := fun a => if vma ≤ a ∧ a < vma + count then tag (a - vma) else m.tagSpace a }

/-! ### Pages -/

def adjustProtection (m : Memory) (vma : Nat) (newAttr : VMAttribute) : Memory :=
  let page := pageNumber vma
  let oa := m.attributeTable page
  let new := computeProtection newAttr
  -- the creation of a page always reaches `mprotect`
  let old := if !vmExists oa && vmExists newAttr then none else some (computeProtection oa)
  (if old = some new then m else m.mprotect page new).setAttribute page newAttr

section AdjustProtection

variable (m : Memory) (vma : Nat) (a : VMAttribute)

/-- Either the host call is skipped, or it is made for the page. -/
theorem adjustProtection_cases :
    (adjustProtection m vma a = m.setAttribute (pageNumber vma) a ∧
      (vmExists a = true → vmExists (m.attributeTable (pageNumber vma)) = true ∧
        computeProtection (m.attributeTable (pageNumber vma)) = computeProtection a)) ∨
    adjustProtection m vma a =
      (m.mprotect (pageNumber vma) (computeProtection a)).setAttribute (pageNumber vma) a := by
  unfold adjustProtection
  dsimp only
  by_cases hsame : (if !vmExists (m.attributeTable (pageNumber vma)) && vmExists a then none
      else some (computeProtection (m.attributeTable (pageNumber vma)))) =
        some (computeProtection a)
  · left
    rw [if_pos hsame]
    refine ⟨rfl, fun ha => ?_⟩
    cases hoa : vmExists (m.attributeTable (pageNumber vma)) with
    | false =>
        rw [hoa, ha] at hsame
        cases hsame
    | true =>
        rw [hoa] at hsame
        exact ⟨rfl, Option.some_inj.mp hsame⟩
  · right
    rw [if_neg hsame]

@[simp] theorem adjustProtection_attributeTable (p : Nat) :
    (adjustProtection m vma a).attributeTable p =
      if p = pageNumber vma then a else m.attributeTable p := by
  obtain ⟨h, -⟩ | h := adjustProtection_cases m vma a <;> rw [h] <;> rfl

@[simp] theorem adjustProtection_mapped : (adjustProtection m vma a).mapped = m.mapped := by
  obtain ⟨h, -⟩ | h := adjustProtection_cases m vma a <;> rw [h] <;> rfl

@[simp] theorem adjustProtection_dataSpace :
    (adjustProtection m vma a).dataSpace = m.dataSpace := by
  obtain ⟨h, -⟩ | h := adjustProtection_cases m vma a <;> rw [h] <;> rfl

@[simp] theorem adjustProtection_tagSpace : (adjustProtection m vma a).tagSpace = m.tagSpace := by
  obtain ⟨h, -⟩ | h := adjustProtection_cases m vma a <;> rw [h] <;> rfl

theorem adjustProtection_protection_ne {p : Nat} (hp : p ≠ pageNumber vma) :
    (adjustProtection m vma a).protection p = m.protection p := by
  obtain ⟨h, -⟩ | h := adjustProtection_cases m vma a
  · rw [h]
    rfl
  · rw [h]
    exact if_neg hp

/-- A page that exists after it is at the protection of its attributes, if it was
when it existed before. -/
theorem adjustProtection_protection (ha : vmExists a = true)
    (hold : vmExists (m.attributeTable (pageNumber vma)) = true →
      m.protection (pageNumber vma) = computeProtection (m.attributeTable (pageNumber vma))) :
    (adjustProtection m vma a).protection (pageNumber vma) = computeProtection a := by
  obtain ⟨h, hsame⟩ | h := adjustProtection_cases m vma a
  · rw [h]
    exact (hold (hsame ha).1).trans (hsame ha).2
  · rw [h]
    exact if_pos rfl

end AdjustProtection

def setCreated (m : Memory) (vma : Nat) (faultp worldp : Bool) : Memory :=
  adjustProtection m vma (defaultAttributes m.enableIDS faultp worldp)

def clearCreated (m : Memory) (vma : Nat) : Memory := adjustProtection m vma 0

def ensureVirtualAddress (m : Memory) (vma : Nat) (faultp : Bool) : Memory × Nat :=
  let attr := m.attributeTable (pageNumber vma)
  if vmExists attr then
    (if vmModified attr then m else adjustProtection m vma (attr ||| .modified), 8192)
  else if wadCreated m vma then (setCreated m vma faultp false, 8192)
  else
    let attr := defaultAttributes m.enableIDS faultp false
    ((m.mapWad (wadNumber vma) (computeProtection attr)).setAttribute (pageNumber vma) attr, 8192)

def destroyVirtualAddress (m : Memory) (vma : Nat) : Memory × Nat :=
  let result := if created m vma then 8192 else 0
  let m := if created m vma then clearCreated m vma else m
  (if wadCreated m vma then m else m.unmapWad (wadNumber vma), result)

/-- The pages of a range, counted with 32 bits. -/
def rangePages (vma : Nat) (count : Int) : Nat :=
  ((count + pageOffset vma + 8191) % 2 ^ 32).toNat / 8192

def ensurePages (faultp : Bool) : Nat → Memory → Nat → Nat → Memory × Nat
  | 0, m, _, result => (m, result)
  | pages + 1, m, vma, result =>
      let (m, n) := ensureVirtualAddress m vma faultp
      ensurePages faultp pages m ((vma + 8192) % 2 ^ 32) ((result + n) % 2 ^ 32)

def ensureVirtualAddressRange (m : Memory) (vma : Nat) (count : Int) (faultp : Bool) :
    Memory × Nat :=
  ensurePages faultp (rangePages vma count) m vma 0

def destroyPages : Nat → Memory → Nat → Nat → Memory × Nat
  | 0, m, _, result => (m, result)
  | pages + 1, m, vma, result =>
      let (m, n) := if created m vma then destroyVirtualAddress m vma else (m, 0)
      destroyPages pages m ((vma + 8192) % 2 ^ 32) ((result + n) % 2 ^ 32)

def destroyVirtualAddressRange (m : Memory) (vma count : Nat) : Memory × Nat :=
  destroyPages (rangePages vma count) m vma 0

/-! ### Single words -/

/-- `VirtualMemoryReadUncached`; a page that may not be read is opened meanwhile. -/
def virtualMemoryReadUncached (m : Memory) (vma : Nat) : Memory × LispObj :=
  let page := pageNumber vma
  let prot := computeProtection (m.attributeTable page)
  let m' := if prot = .none then (m.mprotect page .read).mprotect page prot else m
  (m', ⟨m.tagSpace vma, m.dataSpace vma⟩)

def virtualMemoryWriteUncached (m : Memory) (vma : Nat) (object : LispObj) : Memory :=
  let page := pageNumber vma
  let prot := computeProtection (m.attributeTable page)
  let isProtected := decide (prot ≠ .readWrite)
  let m := if isProtected then m.mprotect page .readWrite else m
  let m := m.writeWords vma 1 (fun _ => object.data) (fun _ => object.tag)
  if isProtected then m.mprotect page prot else m

/-- One page of `EnsureVirtualMemoryAccessible`. -/
def makeAccessible (m : Memory) (vma : Nat) : Memory :=
  let attr := m.attributeTable (pageNumber vma)
  let newAttr := attr ||| (.ephemeral ||| .modified)
  if !vmExists attr || vmAccessFault attr then m
  else
    let newAttr := if vmTransportFault newAttr then setVMTransportDisable newAttr else newAttr
    if newAttr ≠ attr then adjustProtection m vma newAttr else m

def makePagesAccessible : Nat → Memory → Nat → Memory
  | 0, m, _ => m
  | pages + 1, m, vma => makePagesAccessible pages (makeAccessible m vma) ((vma + 8192) % 2 ^ 32)

def ensureVirtualMemoryAccessible (m : Memory) (vma : Nat) (count : Int) : Memory :=
  makePagesAccessible (rangePages vma (max count 0)) m (vma - pageOffset vma)

/-! ### Loading a world -/

/-- A file of `size` bytes. -/
structure WorldFile where
  bytes : Nat → BitVec 8
  size : Nat

/-- A data word, low byte first. -/
def WorldFile.dataWord (f : WorldFile) (offset : Nat) : Integer :=
  f.bytes (offset + 3) ++ f.bytes (offset + 2) ++ f.bytes (offset + 1) ++ f.bytes offset

/-- A read of `count` bytes at `offset` gets them all. -/
def WorldFile.holds (f : WorldFile) (offset count : Nat) : Bool := decide (offset + count ≤ f.size)

/-- Where `MapWorldLoad` is. -/
structure Load where
  memory : Memory
  vma : Nat
  length : Nat
  dataoffset : Nat
  tagoffset : Nat

/-- `words` words of the file are in memory. -/
def Load.advance (s : Load) (m : Memory) (words : Nat) : Load :=
  { memory := m
    vma := (s.vma + words) % 2 ^ 32
    length := s.length - words
    dataoffset := s.dataoffset + 4 * words
    tagoffset := s.tagoffset + words }

def Load.fill (s : Load) (f : WorldFile) (m : Memory) (words : Nat) : Memory :=
  m.writeWords s.vma words (fun i => f.dataWord (s.dataoffset + 4 * i))
    (fun i => f.bytes (s.tagoffset + i))

/-- A partial page, or one that may exist, is read; a short read punts. -/
def Load.readPage (s : Load) (f : WorldFile) : Option Load :=
  let words := min (8192 - pageOffset s.vma) s.length
  let m := (ensureVirtualAddress s.memory s.vma false).1
  if f.holds s.dataoffset (4 * words) && f.holds s.tagoffset words then
    some (s.advance (setCreated (s.fill f m words) s.vma false true) words)
  else none

/-- The attributes of the eight pages of a wad. -/
def setWadAttributes (m : Memory) (vma : Nat) (attr : VMAttribute) : Memory :=
  { m with
    attributeTable := fun p => if p / 8 = wadNumber vma then attr else m.attributeTable p }

/-- Takes in up to `wads` wads that are not mapped; returns also their words. -/
def markWads (attr : VMAttribute) (vma : Nat) : Nat → Memory → Nat → Memory × Nat
  | 0, m, words => (m, words)
  | wads + 1, m, words =>
      let wad := (vma + words) % 2 ^ 32
      if wadCreated m wad then (m, words)
      else markWads attr vma wads (setWadAttributes m wad attr) (words + 65536)

/-- A run of whole wads is mapped from the file; an empty run punts. -/
def Load.mapWads (s : Load) (f : WorldFile) : Option Load :=
  let attr := defaultAttributes s.memory.enableIDS false true
  let prot := computeProtection attr
  let limit := s.length - wadOffset s.length
  let (m, words) := markWads attr s.vma (limit / 65536) s.memory 0
  if 0 < words && f.holds s.dataoffset (4 * words) && f.holds s.tagoffset words then
    let m := s.fill f m words
    some (s.advance
      { m with
        mapped := fun w =>
          if s.vma / 65536 ≤ w ∧ w < (s.vma + words) / 65536 then true else m.mapped w
        protection := fun p =>
          if s.vma / 8192 ≤ p ∧ p < (s.vma + words) / 8192 then prot else m.protection p }
      words)
  else none

/-- The next piece of the world. -/
def Load.round (s : Load) (f : WorldFile) : Option Load :=
  if wadOffset s.vma ≠ 0 ∨ created s.memory s.vma = true ∨ s.length < 65536 then s.readPage f
  else s.mapWads f

theorem Load.round_length_lt {s s' : Load} {f : WorldFile} (hlen : s.length ≠ 0)
    (h : s.round f = some s') : s'.length < s.length := by
  unfold Load.round at h
  split at h
  · unfold Load.readPage pageOffset at h
    dsimp only at h
    split at h
    · cases h
      unfold Load.advance
      dsimp only
      omega
    · cases h
  · unfold Load.mapWads at h
    dsimp only at h
    split at h
    · next hcond =>
      cases h
      rw [Bool.and_eq_true, Bool.and_eq_true, decide_eq_true_eq] at hcond
      unfold Load.advance
      dsimp only
      omega
    · cases h

/-- The loop of `MapWorldLoad`. -/
def Load.loop (f : WorldFile) (s : Load) : Option Load :=
  if _hlen : s.length = 0 then some s
  else
    match _h : s.round f with
    | none => none
    | some s' => Load.loop f s'
termination_by s.length
decreasing_by exact Load.round_length_lt _hlen _h

def mapWorldLoad (m : Memory) (vma : Nat) (length : Int) (f : WorldFile)
    (dataoffset tagoffset : Nat) : Option (Memory × Nat) :=
  (Load.loop f ⟨m, vma, length.toNat, dataoffset, tagoffset⟩).map fun s => (s.memory, s.vma)

end VM
