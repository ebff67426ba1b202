import Mathlib
import OsxVlm.Library.BinarySearch
import OsxVlm.Memory.Attributes
import OsxVlm.Memory.VirtualMemory

/-!
# Memory faults

The interpreter reads and writes words without a look at their attributes, and the host stops it
where the protection of the page forbids the access.  The handler notes the first write to a page
and lets it be repeated; every other fault is handed to Lisp, on the edge that was recorded for
the instruction.  The host is the one that protects the data and never the tags.
-/

namespace VM

/-! ### Addresses of the host -/

/-- `TagSpace` and `DataSpace`. -/
def tagWindow : Nat := 2 ^ 40
def dataWindow : Nat := 2 ^ 42

def tagAddress (vma : Nat) : Nat := tagWindow + vma
def dataAddress (vma : Nat) : Nat := dataWindow + 4 * vma

/-- The word that a host address belongs to, if it lies in one of the windows. -/
def faultVma (address : Nat) : Option Nat :=
  let dataOff := (((address : Int) - dataWindow) / 4 % 2 ^ 64).toNat
  let tagOff := (((address : Int) - tagWindow) % 2 ^ 64).toNat
  let maybevma := if dataOff / 2 ^ 32 ≠ 0 then tagOff else dataOff
  if maybevma / 2 ^ 32 ≠ 0 then none else some maybevma

theorem faultVma_data {vma : Nat} (hv : vma < 2 ^ 32) : faultVma (dataAddress vma) = some vma := by
  have hoff : (((dataAddress vma : Int) - dataWindow) / 4 % 2 ^ 64).toNat = vma := by
    unfold dataAddress dataWindow
    omega
  have hlow : ¬ vma / 2 ^ 32 ≠ 0 := by omega
  unfold faultVma
  dsimp only
  rw [hoff, if_neg hlow, if_neg hlow]

theorem faultVma_tag {vma : Nat} (hv : vma < 2 ^ 32) : faultVma (tagAddress vma) = some vma := by
  have hoff : (((tagAddress vma : Int) - tagWindow) % 2 ^ 64).toNat = vma := by
    unfold tagAddress tagWindow
    omega
  have hbefore : (((tagAddress vma : Int) - dataWindow) / 4 % 2 ^ 64).toNat / 2 ^ 32 ≠ 0 := by
    unfold tagAddress tagWindow dataWindow
    omega
  have hlow : ¬ vma / 2 ^ 32 ≠ 0 := by omega
  unfold faultVma
  dsimp only
  rw [hoff, if_pos hbefore, if_neg hlow]

/-! ### The table of accesses -/

structure VMExtableEntry where
  insn : Nat
  target : Nat
  deriving DecidableEq

/-- `InitializeVMExtable`; the assembler may have emitted the entries in any order. -/
def initializeVMExtable (entries : List VMExtableEntry) : Array VMExtableEntry :=
  (entries.mergeSort fun a b => a.insn ≤ b.insn).toArray

/-- The loop of `VMExtableLookup`. -/
def lookupBetween (table : Array VMExtableEntry) (pc lo hi : Nat) : Nat :=
  if lo < hi then
    let mid := lo + (hi - lo) / 2
    let entry := table.getD mid ⟨0, 0⟩
    if entry.insn < pc then lookupBetween table pc (mid + 1) hi
    else if pc < entry.insn then lookupBetween table pc lo mid
    else entry.target
  else 0
termination_by hi - lo

def vmExtableLookup (table : Array VMExtableEntry) (pc : Nat) : Nat :=
  lookupBetween table pc 0 table.size

/-! ### Pages that were made writable -/

def residentPagesSize : Nat := 16384

/-- `ResidentPages` with its pointers, and whether it has gone over its end. -/
structure ResidentPages where
  pages : Nat → Nat
  pointer : Nat
  wrap : Bool
  scan : Nat

def ResidentPages.note (r : ResidentPages) (vma : Nat) : ResidentPages :=
  let pages := Function.update r.pages r.pointer vma
  if residentPagesSize ≤ r.pointer + 1 then { r with pages := pages, pointer := 0, wrap := true }
  else { r with pages := pages, pointer := r.pointer + 1 }

/-- The loop of `VirtualMemoryResidentScan`: the place of the first entry that is wanted. -/
def ResidentPages.find (m : Memory) (mask : VMAttribute) (sense : Bool) (pages : Nat → Nat) :
    Nat → Nat → Option Nat
  | 0, _ => none
  | left + 1, scan =>
      if decide (m.attributeTable (pageNumber (pages scan)) &&& mask = mask) == sense then some scan
      else find m mask sense pages left (scan + 1)

/-- The next page, and how many entries there were from it on.  At the end the ring is emptied. -/
def virtualMemoryResidentScan (m : Memory) (r : ResidentPages) (mask : VMAttribute)
    (sense : Bool) : Option (Nat × Nat) × ResidentPages :=
  let escan := if r.wrap then residentPagesSize else r.pointer
  match ResidentPages.find m mask sense r.pages (escan - r.scan) r.scan with
  | some scan => (some (r.pages scan, escan - scan), { r with scan := scan + 1 })
  | none => (none, { r with pointer := 0, scan := 0, wrap := false })

/-! ### The handler -/

/-- What the handler keeps between faults. -/
structure FaultState where
  memory : Memory
  residentPages : ResidentPages
  lastVma : Nat
  times : Nat

def faultMask : VMAttribute := .transportFault ||| .writeFault ||| .accessFault

/-- The cases that are no faults of Lisp. -/
def retryable (attr : VMAttribute) : Bool :=
  let cause := attr &&& (faultMask ||| .transportDisable ||| .exists)
  cause == .exists || cause == (.exists ||| .transportDisable) ||
    cause == (.exists ||| .transportDisable ||| .transportFault)

/-- What the handler has made out before it changes the table. -/
inductive Fault where
  /-- Not in Lisp space. -/
  | exit
  | retry (vma : Nat) (attr : VMAttribute)
  | lisp (vma : Nat)

/-- The first half of `segv_handler`; the attributes are read without the lock. -/
def FaultState.segvEnter (s : FaultState) (address : Nat) : FaultState × Fault :=
  match faultVma address with
  | none => (s, .exit)
  | some vma =>
      let attr := s.memory.attributeTable (pageNumber vma)
      let times := if s.lastVma = address then s.times + 1 else 1
      let s := { s with lastVma := address, times := times }
      -- the same fault again and again
      if 10 < times then (s, .lisp vma)
      else if retryable attr then (s, .retry vma attr)
      else (s, .lisp vma)

/-- The second half: the page is noted and marked, by the attributes read before. -/
def FaultState.segvRetry (s : FaultState) (vma : Nat) (attr : VMAttribute) : FaultState :=
  { s with
    residentPages := s.residentPages.note vma
    memory := adjustProtection s.memory vma (attr ||| (.ephemeral ||| .modified)) }

/-! ### Accesses -/

inductive Access where
  | read
  | write (q : LispObj)

/-- The instructions of an access that touch the tag and the data. -/
structure AccessSite where
  tagInsn : Nat
  dataInsn : Nat

/-- The address at which the host stops an access, and the instruction.  The tag is read first;
the data is written first, so that nothing of the word has changed. -/
def Access.fault (m : Memory) (vma : Nat) (site : AccessSite) : Access → Option (Nat × Nat)
  | .read =>
      if !m.mapped (wadNumber vma) then some (tagAddress vma, site.tagInsn)
      else if m.protection (pageNumber vma) = .none then some (dataAddress vma, site.dataInsn)
      else none
  | .write _ =>
      if !m.mapped (wadNumber vma) || decide (m.protection (pageNumber vma) ≠ .readWrite) then
        some (dataAddress vma, site.dataInsn)
      else none

def Access.perform (m : Memory) (vma : Nat) : Access → Memory
  | .read => m
  | .write q => m.writeWords vma 1 (fun _ => q.data) fun _ => q.tag

/-- What the protection lets through. -/
def Access.permits : Access → Prot → Bool
  | .read, prot => prot != .none
  | .write _, prot => prot == .readWrite

/-! ### The table is searched exactly -/

section Extable

variable {entries : List VMExtableEntry} {table : Array VMExtableEntry} {pc lo hi : Nat}

def insnAt (table : Array VMExtableEntry) (i : Nat) : Nat := (table.getD i ⟨0, 0⟩).insn

theorem lookupBetween_eq (table : Array VMExtableEntry) (pc lo hi : Nat) :
    lookupBetween table pc lo hi =
      ((BinarySearch.search (insnAt table) pc lo hi).map fun i =>
        (table.getD i ⟨0, 0⟩).target).getD 0 := by
  fun_induction lookupBetween table pc lo hi with
  | case1 lo hi hlt mid entry hbelow ih =>
      have hkey : insnAt table (lo + (hi - lo) / 2) < pc := hbelow
      rw [BinarySearch.search, if_pos hlt, ih]
      dsimp only
      rw [if_pos hkey]
  | case2 lo hi hlt mid entry hbelow habove ih =>
      have hkey : ¬ insnAt table (lo + (hi - lo) / 2) < pc := hbelow
      have hkey' : pc < insnAt table (lo + (hi - lo) / 2) := habove
      rw [BinarySearch.search, if_pos hlt, ih]
      dsimp only
      rw [if_neg hkey, if_pos hkey']
  | case3 lo hi hlt mid entry hbelow habove =>
      have hkey : ¬ insnAt table (lo + (hi - lo) / 2) < pc := hbelow
      have hkey' : ¬ pc < insnAt table (lo + (hi - lo) / 2) := habove
      rw [BinarySearch.search, if_pos hlt]
      dsimp only
      rw [if_neg hkey, if_neg hkey']
      rfl
  | case4 lo hi hempty =>
      rw [BinarySearch.search, if_neg hempty]
      rfl

theorem insnAt_ascending (entries : List VMExtableEntry) :
    BinarySearch.Ascending (insnAt (initializeVMExtable entries))
      (initializeVMExtable entries).size := by
  have hsorted : (entries.mergeSort fun a b => a.insn ≤ b.insn).Pairwise
      fun a b => a.insn ≤ b.insn := by
    have h : (entries.mergeSort fun a b => a.insn ≤ b.insn).Pairwise
        fun a b => decide (a.insn ≤ b.insn) = true :=
      List.pairwise_mergeSort
        (fun a b c => by simp only [decide_eq_true_eq]; omega)
        (fun a b => by simp only [Bool.or_eq_true, decide_eq_true_eq]; omega) entries
    simpa using h
  intro i j hij hj
  obtain rfl | hlt := Nat.eq_or_lt_of_le hij
  · exact le_rfl
  · unfold initializeVMExtable at hj
    rw [List.size_toArray] at hj
    have hle := List.pairwise_iff_getElem.mp hsorted i j (by omega) hj hlt
    rw [List.length_mergeSort] at hj
    unfold insnAt initializeVMExtable
    simpa [Array.getD, hj, Nat.lt_trans hlt hj] using hle

/-- **The lookup.**  The target of an entry for the instruction; 0 exactly when there is none. -/
theorem vmExtableLookup_spec (entries : List VMExtableEntry) (pc : Nat) :
    (∃ e ∈ entries, e.insn = pc ∧ vmExtableLookup (initializeVMExtable entries) pc = e.target) ∨
      (∀ e ∈ entries, e.insn ≠ pc) ∧ vmExtableLookup (initializeVMExtable entries) pc = 0 := by
  have hmem : ∀ e, e ∈ (initializeVMExtable entries).toList ↔ e ∈ entries := by
    intro e
    unfold initializeVMExtable
    simp
  unfold vmExtableLookup
  rw [lookupBetween_eq]
  cases hsearch : BinarySearch.search (insnAt (initializeVMExtable entries)) pc 0
      (initializeVMExtable entries).size with
  | some i =>
      left
      obtain ⟨-, hi, hkey⟩ := BinarySearch.search_some hsearch
      refine ⟨(initializeVMExtable entries).getD i ⟨0, 0⟩, ?_, hkey, rfl⟩
      rw [← hmem]
      simp [Array.getD, hi]
  | none =>
      right
      refine ⟨?_, rfl⟩
      intro e he hpc
      rw [BinarySearch.search_eq_none_iff (insnAt_ascending entries)] at hsearch
      obtain ⟨i, hi, hget⟩ := List.getElem_of_mem ((hmem e).mpr he)
      apply hsearch i (by simpa using hi)
      unfold insnAt
      rw [Array.getElem_toList] at hget
      simp only [Array.getD, show i < (initializeVMExtable entries).size by simpa using hi,
        dif_pos]
      exact (congrArg VMExtableEntry.insn hget).trans hpc

end Extable

/-! ### What the attributes let through -/

theorem retryable_exists {a : VMAttribute} (h : retryable a = true) : vmExists a = true := by
  revert a
  decide +kernel

/-- Where the host stops a read, the fault is one of Lisp. -/
theorem not_retryable_of_unreadable {a : VMAttribute} (h : computeProtection a = .none) :
    retryable a = false := by
  revert a
  decide +kernel

/-- A page that may be written has both marks. -/
theorem marked_of_writable {a : VMAttribute} (h : computeProtection a = .readWrite) :
    vmEphemeral a = true ∧ vmModified a = true := by
  revert a
  decide +kernel

/-- With both marks a page without a fault of Lisp may be written. -/
theorem writable_of_retryable {a : VMAttribute} (h : retryable a = true) :
    computeProtection (a ||| (.ephemeral ||| .modified)) = .readWrite := by
  revert a
  decide +kernel

end VM
