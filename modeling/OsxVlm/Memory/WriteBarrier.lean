import Mathlib
import OsxVlm.Library.PartialRun
import OsxVlm.Memory.Lockstep
import OsxVlm.Memory.LockstepRuns
import OsxVlm.Memory.FaultHandler
import OsxVlm.Memory.PageMarks

/-!
# The write barrier

The thread of the interpreter makes its accesses one after the other, with the commands of the
virtual memory in between.  The threads of the life support grant pages to the host at any time,
also while the handler of a fault works on attributes it has read before.  In every interleaving
a page without the ephemeral bit refers to nothing ephemeral, and a page without the modified bit
is as it was loaded.
-/

namespace VM

/-! ### The threads -/

/-- Where the thread of the interpreter is. -/
inductive Thread where
  | running
  /-- The next instruction touches the word. -/
  | accessing (vma : Integer) (a : Access) (site : AccessSite)
  /-- The handler has read the attributes of the page of `faulted`. -/
  | handling (vma : Integer) (a : Access) (site : AccessSite) (faulted : Nat)
      (attr : VMAttribute)
  | delivered (vma target : Nat)

structure Emulator where
  fault : FaultState
  thread : Thread

inductive Event where
  | access (vma : Integer) (a : Access) (site : AccessSite)
  | execute
  /-- The handler ends and the access is made again. -/
  | retry
  /-- Lisp takes the fault. -/
  | trap
  /-- `EnsureVirtualMemoryAccessible` by a thread of the life support. -/
  | grant (vma count : Integer)
  | op (op : Op)

namespace Emulator

def memory (s : Emulator) : Memory := s.fault.memory

def withMemory (s : Emulator) (m : Memory) : Emulator :=
  { s with fault := { s.fault with memory := m } }

/-- The handler after a fault; a fault that cannot be delivered punts. -/
def enterHandler (table : Array VMExtableEntry) (s : Emulator) (vma : Integer) (a : Access)
    (site : AccessSite) (address pc : Nat) : Option Emulator :=
  match s.fault.segvEnter address with
  | (_, .exit) => none
  | (f, .retry faulted attr) => some ⟨f, .handling vma a site faulted attr⟩
  | (f, .lisp faulted) =>
      let target := vmExtableLookup table pc
      if target = 0 then none else some ⟨f, .delivered faulted target⟩

def step (table : Array VMExtableEntry) (s : Emulator) : Event → Option Emulator
  | .access vma a site =>
      match s.thread with
      | .running => some { s with thread := .accessing vma a site }
      | _ => none
  | .execute =>
      match s.thread with
      | .accessing vma a site =>
          match a.fault s.memory vma.toNat site with
          | none => some { s.withMemory (a.perform s.memory vma.toNat) with thread := .running }
          | some (address, pc) => s.enterHandler table vma a site address pc
      | _ => none
  | .retry =>
      match s.thread with
      | .handling vma a site faulted attr =>
          some ⟨s.fault.segvRetry faulted attr, .accessing vma a site⟩
      | _ => none
  | .trap =>
      match s.thread with
      | .delivered _ _ => some { s with thread := .running }
      | _ => none
  | .grant vma count =>
      some (s.withMemory (ensureVirtualMemoryAccessible s.memory vma.toNat count.toInt))
  | .op op =>
      match s.thread with
      | .running => (op.apply s.memory).map s.withMemory
      | _ => none

end Emulator

/-! ### Grants -/

section Grants

variable {m : Memory} {vma p : Nat}

/-- What a grant makes of the attributes of a page. -/
def granted (a : VMAttribute) : VMAttribute :=
  if !vmExists a || vmAccessFault a then a
  else
    let newAttr := a ||| (.ephemeral ||| .modified)
    if vmTransportFault newAttr then setVMTransportDisable newAttr else newAttr

theorem makeAccessible_eq (m : Memory) (vma : Nat) :
    makeAccessible m vma =
      if granted (m.attributeTable (pageNumber vma)) ≠ m.attributeTable (pageNumber vma) then
        adjustProtection m vma (granted (m.attributeTable (pageNumber vma)))
      else m := by
  unfold makeAccessible granted
  dsimp only
  generalize m.attributeTable (pageNumber vma) = a
  by_cases hskip : (!vmExists a || vmAccessFault a) = true
  · rw [if_pos hskip, if_pos hskip, if_neg (not_not.mpr rfl)]
  · rw [if_neg hskip, if_neg hskip]

theorem makeAccessible_attributeTable (m : Memory) (vma p : Nat) :
    (makeAccessible m vma).attributeTable p =
      if p = pageNumber vma then granted (m.attributeTable p) else m.attributeTable p := by
  rw [makeAccessible_eq]
  split
  · rw [adjustProtection_attributeTable]
    split
    · next heq => rw [heq]
    · rfl
  · next hsame =>
    split
    · next heq =>
      rw [heq]
      exact (not_not.mp hsame).symm
    · rfl

theorem makeAccessible_spaces (m : Memory) (vma : Nat) :
    (makeAccessible m vma).dataSpace = m.dataSpace ∧
      (makeAccessible m vma).tagSpace = m.tagSpace := by
  rw [makeAccessible_eq]
  split
  · exact ⟨adjustProtection_dataSpace m vma _, adjustProtection_tagSpace m vma _⟩
  · exact ⟨rfl, rfl⟩

/-- What one grant keeps of every page is kept by a grant of any number of pages. -/
theorem makePagesAccessible_keeps {P : VMAttribute → Prop} (hgrant : ∀ a, P a → P (granted a))
    (pages : Nat) (h : P (m.attributeTable p)) :
    P ((makePagesAccessible pages m vma).attributeTable p) := by
  induction pages generalizing m vma with
  | zero => exact h
  | succ pages ih =>
      apply ih
      rw [makeAccessible_attributeTable]
      split
      · exact hgrant _ h
      · exact h

theorem makePagesAccessible_spaces (m : Memory) (pages vma : Nat) :
    (makePagesAccessible pages m vma).dataSpace = m.dataSpace ∧
      (makePagesAccessible pages m vma).tagSpace = m.tagSpace := by
  induction pages generalizing m vma with
  | zero => exact ⟨rfl, rfl⟩
  | succ pages ih =>
      obtain ⟨hdata, htag⟩ := makeAccessible_spaces m vma
      obtain ⟨hdata', htag'⟩ := ih (makeAccessible m vma) ((vma + 8192) % 2 ^ 32)
      exact ⟨hdata'.trans hdata, htag'.trans htag⟩

end Grants

/-! ### The invariant -/

/-- A page without the ephemeral bit refers to nothing ephemeral. -/
def Tracked (m : Memory) : Prop :=
  ∀ p, p < 2 ^ 19 → vmExists (m.attributeTable p) = true →
    vmEphemeral (m.attributeTable p) = false → RefersToNothingEphemeral m p

theorem Tracked.carries {m m' : Memory} (h : Tracked m)
    (hcarries : Carries vmEphemeral RefersToNothingEphemeral m m') : Tracked m' := by
  intro p hp hex hmark
  obtain hfine | ⟨hex', hmark', hpage⟩ := hcarries p hp hex hmark
  · exact hfine
  · exact marking_ephemeral.same m m' p hpage (h p hp hex' hmark')

/-- The attributes that the handler has read are those of the page, or a grant has added the
marks since. -/
def Fresh (attr now : VMAttribute) : Prop :=
  retryable attr = true ∧ (now = attr ∨ now = attr ||| (.ephemeral ||| .modified))

theorem Fresh.exists {attr now : VMAttribute} (h : Fresh attr now) : vmExists now = true := by
  obtain ⟨hretry, rfl | rfl⟩ := h
  · exact retryable_exists hretry
  · rw [vmExists_or, retryable_exists hretry, Bool.true_or]

theorem Fresh.granted {attr now : VMAttribute} (h : Fresh attr now) :
    Fresh attr (granted now) := by
  have hfirst : ∀ a : VMAttribute, retryable a = true →
      VM.granted a = a ||| (.ephemeral ||| .modified) := by
    decide +kernel
  have hagain : ∀ a : VMAttribute, retryable a = true →
      VM.granted (a ||| (.ephemeral ||| .modified)) = a ||| (.ephemeral ||| .modified) := by
    decide +kernel
  obtain ⟨hretry, rfl | rfl⟩ := h
  · exact ⟨hretry, Or.inr (hfirst _ hretry)⟩
  · exact ⟨hretry, Or.inr (hagain _ hretry)⟩

structure Emulator.Barrier (s : Emulator) : Prop where
  lockstep : Lockstep s.memory
  tracked : Tracked s.memory
  handling : ∀ vma a site faulted attr, s.thread = .handling vma a site faulted attr →
    faulted = vma.toNat ∧ Fresh attr (s.memory.attributeTable (pageNumber faulted))

/-- The operations keep inside the address space, and a mark that a page needs. -/
def Emulator.Barred (s : Emulator) : Event → Prop
  | .op op =>
      op.Stays s.memory ∧ op.Careful vmEphemeral RefersToNothingEphemeral s.memory
  | _ => True

/-- Nor do they write, without the modified bit, into a page. -/
def Emulator.Recorded (s : Emulator) : Event → Prop
  | .op op => op.Careful vmModified (fun _ _ => False) s.memory
  | _ => True

/-! ### Steps -/

section Steps

variable {table : Array VMExtableEntry} {s t : Emulator} {e : Event}
variable {mark : VMAttribute → Bool} {fine : Memory → Nat → Prop}

@[simp] theorem Emulator.memory_withMemory (s : Emulator) (m : Memory) :
    (s.withMemory m).memory = m := rfl

@[simp] theorem Emulator.thread_withMemory (s : Emulator) (m : Memory) :
    (s.withMemory m).thread = s.thread := rfl

theorem Access.fault_none {m : Memory} {vma : Nat} {site : AccessSite} {q : LispObj}
    (h : (Access.write q).fault m vma site = none) : m.protection (pageNumber vma) = .readWrite := by
  unfold Access.fault at h
  dsimp only at h
  split at h
  · cases h
  · next hcond =>
    rw [Bool.or_eq_true, not_or, decide_eq_true_eq, not_not] at hcond
    exact hcond.2

/-- What the host lets through is carried: a page that may be written has the marks. -/
theorem Marking.perform (hm : Marking mark fine)
    (hwritable : ∀ a, computeProtection a = .readWrite → mark a = true) {m : Memory}
    (hlock : Lockstep m) {vma : Integer} {site : AccessSite} {a : Access}
    (h : a.fault m vma.toNat site = none) : Carries mark fine m (a.perform m vma.toNat) := by
  cases a with
  | read => exact Carries.refl m
  | write q =>
      have hprot := Access.fault_none h
      unfold Access.perform
      dsimp only
      apply hm.writeWords
      intro b hle hlt hex
      obtain rfl : b = vma.toNat := by omega
      apply hwritable
      rw [← hlock.protection _ (page_lt vma.isLt) hex, hprot]

theorem Lockstep.perform {m : Memory} (hlock : Lockstep m) (vma : Nat) (a : Access) :
    Lockstep (a.perform m vma) := by
  cases a with
  | read => exact hlock
  | write q => exact hlock.writeWords vma 1 (fun _ => q.data) fun _ => q.tag

/-- The first half of the handler leaves the memory alone. -/
theorem FaultState.segvEnter_cases (f : FaultState) {address vma : Nat}
    (hvma : faultVma address = some vma) :
    (f.segvEnter address).1.memory = f.memory ∧
      (f.segvEnter address).1.residentPages = f.residentPages ∧
      ((f.segvEnter address).2 = .lisp vma ∨
        retryable (f.memory.attributeTable (pageNumber vma)) = true ∧
          (f.segvEnter address).2 =
            .retry vma (f.memory.attributeTable (pageNumber vma))) := by
  unfold FaultState.segvEnter
  rw [hvma]
  dsimp only
  generalize (if f.lastVma = address then f.times + 1 else 1) = times
  split
  · exact ⟨rfl, rfl, Or.inl rfl⟩
  · split
    · next hretry => exact ⟨rfl, rfl, Or.inr ⟨hretry, rfl⟩⟩
    · exact ⟨rfl, rfl, Or.inl rfl⟩

/-- A fault is one of the word that is accessed. -/
theorem Access.fault_vma {m : Memory} {vma : Integer} {site : AccessSite} {a : Access}
    {address pc : Nat} (h : a.fault m vma.toNat site = some (address, pc)) :
    faultVma address = some vma.toNat := by
  have hdata := faultVma_data vma.isLt
  have htag := faultVma_tag vma.isLt
  cases a with
  | read =>
      unfold Access.fault at h
      dsimp only at h
      split at h
      · cases h
        exact htag
      · split at h
        · cases h
          exact hdata
        · cases h
  | write q =>
      unfold Access.fault at h
      dsimp only at h
      split at h
      · cases h
        exact hdata
      · cases h

/-- The handler either has attributes to retry with, or delivers the fault. -/
theorem Emulator.enterHandler_cases {vma : Integer} {a : Access} {site : AccessSite}
    {address pc : Nat} (hvma : faultVma address = some vma.toNat)
    (h : s.enterHandler table vma a site address pc = some t) :
    t.memory = s.memory ∧ (t.thread = .delivered vma.toNat (vmExtableLookup table pc) ∨
      t.thread = .handling vma a site vma.toNat
          (s.memory.attributeTable (pageNumber vma.toNat)) ∧
        retryable (s.memory.attributeTable (pageNumber vma.toNat)) = true) := by
  obtain ⟨hmemory, -, hcase⟩ := s.fault.segvEnter_cases hvma
  unfold Emulator.enterHandler at h
  generalize s.fault.segvEnter address = r at *
  obtain ⟨f, fault⟩ := r
  dsimp only at hmemory hcase h
  obtain rfl | ⟨hretry, rfl⟩ := hcase
  · dsimp only at h
    split at h
    · cases h
    · cases h
      exact ⟨hmemory, Or.inl rfl⟩
  · cases h
    exact ⟨hmemory, Or.inr ⟨rfl, hretry⟩⟩

/-- The page of the word, once it exists, is protected by its attributes. -/
theorem Lockstep.fault_eq {m : Memory} {vma : Integer} (h : Lockstep m)
    (hex : created m vma.toNat = true)
    (a : Access) (site : AccessSite) :
    a.fault m vma.toNat site =
      if a.permits (computeProtection (m.attributeTable (pageNumber vma.toNat))) then none
      else some (dataAddress vma.toNat, site.dataInsn) := by
  have hv := vma.isLt
  have hmapped : m.mapped (wadNumber vma.toNat) = true :=
    (h.mapped_iff _ (by unfold wadNumber; omega)).mpr
      ⟨pageNumber vma.toNat, pageNumber_div _, hex⟩
  have hprot := h.protection _ (page_lt hv) hex
  cases a with
  | read =>
      unfold Access.fault Access.permits
      dsimp only
      rw [hmapped, hprot]
      cases computeProtection (m.attributeTable (pageNumber vma.toNat)) <;> rfl
  | write q =>
      unfold Access.fault Access.permits
      dsimp only
      rw [hmapped, hprot]
      cases computeProtection (m.attributeTable (pageNumber vma.toNat)) <;> rfl

/-- The same access has faulted ten times in a row. -/
def FaultState.Stuck (f : FaultState) (address : Nat) : Prop :=
  f.lastVma = address ∧ 10 ≤ f.times

theorem Emulator.step_execute {vma : Integer} {a : Access} {site : AccessSite}
    (hthread : s.thread = .accessing vma a site) :
    s.step table .execute =
      match a.fault s.memory vma.toNat site with
      | none => some { s.withMemory (a.perform s.memory vma.toNat) with thread := .running }
      | some (address, pc) => s.enterHandler table vma a site address pc := by
  unfold Emulator.step
  rw [hthread]

theorem FaultState.segvEnter_retry {f : FaultState} {address vma : Nat}
    (hvma : faultVma address = some vma) (hstuck : ¬ f.Stuck address)
    (hretry : retryable (f.memory.attributeTable (pageNumber vma)) = true) :
    (f.segvEnter address).2 = .retry vma (f.memory.attributeTable (pageNumber vma)) := by
  have htimes : ¬ 10 < (if f.lastVma = address then f.times + 1 else 1) := by
    intro hten
    split at hten
    · next hlast => exact hstuck ⟨hlast, by omega⟩
    · omega
  unfold FaultState.segvEnter
  rw [hvma]
  dsimp only
  rw [if_neg htimes, if_pos hretry]

/-- An access that the host stops for want of the marks. -/
theorem Emulator.step_fault {vma : Integer} {a : Access} {site : AccessSite}
    (hlock : Lockstep s.memory) (hthread : s.thread = .accessing vma a site)
    (hex : created s.memory vma.toNat = true)
    (hdenied : a.permits (computeProtection
      (s.memory.attributeTable (pageNumber vma.toNat))) = false)
    (hretry : retryable (s.memory.attributeTable (pageNumber vma.toNat)) = true)
    (hstuck : ¬ s.fault.Stuck (dataAddress vma.toNat)) :
    ∃ f : FaultState, f.memory = s.memory ∧ f.residentPages = s.fault.residentPages ∧
      s.step table .execute = some ⟨f, .handling vma a site vma.toNat
        (s.memory.attributeTable (pageNumber vma.toNat))⟩ := by
  have hvma := faultVma_data vma.isLt
  obtain ⟨hmemory, hpages, -⟩ := s.fault.segvEnter_cases hvma
  have henter := FaultState.segvEnter_retry hvma hstuck hretry
  have hstep := @Emulator.step_execute table s vma a site hthread
  rw [hlock.fault_eq hex, if_neg (by rw [hdenied]; exact Bool.false_ne_true)] at hstep
  refine ⟨(s.fault.segvEnter (dataAddress vma.toNat)).1, hmemory, hpages, ?_⟩
  rw [hstep]
  dsimp only
  unfold Emulator.enterHandler
  generalize s.fault.segvEnter (dataAddress vma.toNat) = r at *
  obtain ⟨f, fault⟩ := r
  dsimp only at henter ⊢
  subst henter
  rfl

/-- **The marks are carried.**  No step takes a mark from a page that needs it. -/
theorem Emulator.step_carries (hm : Marking mark fine)
    (hwritable : ∀ a, computeProtection a = .readWrite → mark a = true) (h : s.Barrier)
    (hop : ∀ op, e = .op op → op.Stays s.memory ∧ op.Careful mark fine s.memory)
    (hstep : s.step table e = some t) : Carries mark fine s.memory t.memory := by
  cases e with
  | access vma a site =>
      unfold Emulator.step at hstep
      dsimp only at hstep
      split at hstep
      · cases hstep
        exact Carries.refl _
      · cases hstep
  | execute =>
      unfold Emulator.step at hstep
      dsimp only at hstep
      split at hstep
      · next vma a site hthread =>
        split at hstep
        · next hfault =>
          cases hstep
          exact hm.perform hwritable h.lockstep hfault
        · next address pc hfault =>
          obtain ⟨hmemory, -⟩ := Emulator.enterHandler_cases (Access.fault_vma hfault) hstep
          rw [hmemory]
          exact Carries.refl _
      · cases hstep
  | retry =>
      unfold Emulator.step at hstep
      dsimp only at hstep
      split at hstep
      · cases hstep
        apply hm.adjust_marked
        rw [hm.or, hm.both, Bool.or_true]
      · cases hstep
  | trap =>
      unfold Emulator.step at hstep
      dsimp only at hstep
      split at hstep
      · cases hstep
        exact Carries.refl _
      · cases hstep
  | grant vma count =>
      cases hstep
      exact hm.makePagesAccessible _ _
  | op op =>
      unfold Emulator.step at hstep
      dsimp only at hstep
      split at hstep
      · obtain ⟨m, happly, rfl⟩ := Option.map_eq_some_iff.mp hstep
        obtain ⟨hstays, hcareful⟩ := hop op rfl
        exact hm.apply h.lockstep hstays hcareful happly
      · cases hstep

/-- The lockstep and the attributes of the handler. -/
theorem Emulator.Barrier.step_lockstep (h : s.Barrier) (hbarred : s.Barred e)
    (hstep : s.step table e = some t) :
    Lockstep t.memory ∧ ∀ vma a site faulted attr,
      t.thread = .handling vma a site faulted attr →
        faulted = vma.toNat ∧ Fresh attr (t.memory.attributeTable (pageNumber faulted)) := by
  cases e with
  | access vma a site =>
      unfold Emulator.step at hstep
      dsimp only at hstep
      split at hstep
      · cases hstep
        exact ⟨h.lockstep, fun _ _ _ _ _ hthread => by cases hthread⟩
      · cases hstep
  | execute =>
      unfold Emulator.step at hstep
      dsimp only at hstep
      split at hstep
      · next vma a site hthread =>
        split at hstep
        · cases hstep
          exact ⟨h.lockstep.perform _ _, fun _ _ _ _ _ hthread => by cases hthread⟩
        · next address pc hfault =>
          obtain ⟨hmemory, hcase⟩ := Emulator.enterHandler_cases (Access.fault_vma hfault) hstep
          rw [hmemory]
          refine ⟨h.lockstep, ?_⟩
          intro vma' a' site' faulted attr hthread'
          obtain hdelivered | ⟨hhandling, hretry⟩ := hcase
          · rw [hdelivered] at hthread'
            cases hthread'
          · rw [hhandling] at hthread'
            cases hthread'
            exact ⟨rfl, hretry, Or.inl rfl⟩
      · cases hstep
  | retry =>
      unfold Emulator.step at hstep
      dsimp only at hstep
      split at hstep
      · next vma a site faulted attr hthread =>
        cases hstep
        obtain ⟨-, hfresh⟩ := h.handling _ _ _ _ _ hthread
        refine ⟨h.lockstep.adjust_existing ?_ hfresh.exists, fun _ _ _ _ _ hthread => by
          cases hthread⟩
        rw [vmExists_or, retryable_exists hfresh.1, Bool.true_or]
      · cases hstep
  | trap =>
      unfold Emulator.step at hstep
      dsimp only at hstep
      split at hstep
      · cases hstep
        exact ⟨h.lockstep, fun _ _ _ _ _ hthread => by cases hthread⟩
      · cases hstep
  | grant vma count =>
      cases hstep
      refine ⟨h.lockstep.makePagesAccessible _ _, ?_⟩
      intro vma' a site faulted attr hthread
      obtain ⟨hfaulted, hfresh⟩ := h.handling vma' a site faulted attr hthread
      exact ⟨hfaulted, makePagesAccessible_keeps (P := Fresh attr) (fun _ => Fresh.granted) _ hfresh⟩
  | op op =>
      unfold Emulator.step at hstep
      dsimp only at hstep
      split at hstep
      · next hthread =>
        obtain ⟨m, happly, rfl⟩ := Option.map_eq_some_iff.mp hstep
        refine ⟨h.lockstep.apply hbarred.1 happly, ?_⟩
        intro vma' a site faulted attr hhandling
        rw [Emulator.thread_withMemory, hthread] at hhandling
        cases hhandling
      · cases hstep

theorem Emulator.Barrier.step (h : s.Barrier) (hbarred : s.Barred e)
    (hstep : s.step table e = some t) : t.Barrier := by
  obtain ⟨hlock, hhandling⟩ := h.step_lockstep hbarred hstep
  refine ⟨hlock, h.tracked.carries ?_, hhandling⟩
  apply Emulator.step_carries marking_ephemeral (fun _ ha => (marked_of_writable ha).1) h _ hstep
  rintro op rfl
  exact hbarred

end Steps

/-! ### Runs -/

/-- The modified marks are carried through a run. -/
theorem Emulator.run_carries {table : Array VMExtableEntry} {s t : Emulator} {es : List Event}
    (h : s.Barrier) (hbarred : PartialRun.Guarded (Emulator.step table) Emulator.Barred s es)
    (hrecorded : PartialRun.Guarded (Emulator.step table) Emulator.Recorded s es)
    (hrun : PartialRun.run (Emulator.step table) s es = some t) :
    Carries vmModified (fun _ _ => False) s.memory t.memory := by
  induction es generalizing s with
  | nil =>
      cases hrun
      exact Carries.refl _
  | cons e es ih =>
      cases hs : s.step table e with
      | none => simp [PartialRun.run, hs] at hrun
      | some u =>
          rw [PartialRun.run_cons hs] at hrun
          have hstep : Carries vmModified (fun _ _ => False) s.memory u.memory := by
            apply Emulator.step_carries marking_modified
              (fun _ ha => (marked_of_writable ha).2) h _ hs
            rintro op rfl
            exact ⟨hbarred.1.1, hrecorded.1⟩
          exact marking_modified.trans hstep
            (ih (h.step hbarred.1 hs) (hbarred.2 u hs) (hrecorded.2 u hs) hrun)

/-- **The write barrier.**  In every interleaving of accesses, faults, grants and commands the
protections follow the attributes, a page without the ephemeral bit refers to nothing ephemeral,
and a page without the modified bit has the words it had at the start. -/
theorem writeBarrier_runs (table : Array VMExtableEntry) {s t : Emulator} {es : List Event}
    (h : s.Barrier) (hbarred : PartialRun.Guarded (Emulator.step table) Emulator.Barred s es)
    (hrun : PartialRun.run (Emulator.step table) s es = some t) :
    Lockstep t.memory ∧ Tracked t.memory ∧
      (PartialRun.Guarded (Emulator.step table) Emulator.Recorded s es →
        ∀ p, p < 2 ^ 19 → vmExists (t.memory.attributeTable p) = true →
          vmModified (t.memory.attributeTable p) = false →
            vmModified (s.memory.attributeTable p) = false ∧ SamePage s.memory t.memory p) := by
  have hbarrier : t.Barrier :=
    PartialRun.run_guarded_invariant (fun s t e h hb hstep => h.step hb hstep) h hbarred hrun
  refine ⟨hbarrier.lockstep, hbarrier.tracked, ?_⟩
  intro hrecorded p hp hex hmark
  obtain hfine | ⟨-, hmark', hpage⟩ := Emulator.run_carries h hbarred hrecorded hrun p hp hex hmark
  · exact hfine.elim
  · exact ⟨hmark', hpage⟩

/-- A page that was loaded from a world, with neither mark. -/
def loadedMemory : Memory :=
  adjustProtection (ensureVirtualAddress (Memory.empty false) 0x12000 false).1 0x12000 .exists

def loadedEmulator (thread : Thread) : Emulator :=
  ⟨⟨loadedMemory, ⟨fun _ => 0, 0, false, 0⟩, 0, 0⟩, thread⟩

theorem loaded_attributeTable (p : Nat) :
    loadedMemory.attributeTable p = if p = 9 then .exists else 0 := by
  unfold loadedMemory
  rw [adjustProtection_attributeTable]
  split
  · next heq => exact (if_pos heq).symm
  · next hne =>
    rw [if_neg (show p ≠ 9 from hne)]
    exact if_neg hne

theorem loaded_lockstep : Lockstep loadedMemory :=
  ((Lockstep.empty false).ensureVirtualAddress 0x12000 false).adjust_existing (by decide)
    (by decide)

theorem loaded_tracked : Tracked loadedMemory := by
  intro p hp hex hmark a ha
  rw [loaded_attributeTable] at hex
  split at hex
  · next heq =>
    have hwad : wadNumber a = 1 := by
      rw [← pageNumber_div, ha, heq]
    have hdata : loadedMemory.dataSpace a = 0xFFFFFFFF := by
      unfold loadedMemory
      rw [adjustProtection_dataSpace]
      exact if_pos hwad
    unfold ephemeralReference
    rw [hdata, Bool.and_eq_false_iff]
    exact Or.inr (by decide)
  · cases hex

theorem loaded_barrier : (loadedEmulator .running).Barrier :=
  ⟨loaded_lockstep, loaded_tracked, fun _ _ _ _ _ hthread => by cases hthread⟩

/-- A store to the page; it is granted to the host while its fault is handled. -/
theorem writeBarrier_runs_sample :
    ∃ t, PartialRun.run (Emulator.step #[]) (loadedEmulator .running)
        [.access 0x12345 (.write ⟨0, 5⟩) ⟨4096, 4100⟩, .execute, .grant 0x12000 1, .retry] =
          some t ∧
      Lockstep t.memory ∧ Tracked t.memory ∧
        ∀ p, p < 2 ^ 19 → vmExists (t.memory.attributeTable p) = true →
          vmModified (t.memory.attributeTable p) = false →
            SamePage loadedMemory t.memory p := by
  have hattr : loadedMemory.attributeTable (pageNumber (0x12345 : Integer).toNat) = .exists :=
    loaded_attributeTable 9
  obtain ⟨f, -, -, hfault⟩ := @Emulator.step_fault #[]
    (loadedEmulator (.accessing 0x12345 (.write ⟨0, 5⟩) ⟨4096, 4100⟩)) 0x12345 (.write ⟨0, 5⟩)
    ⟨4096, 4100⟩ loaded_lockstep rfl
    ((congrArg vmExists hattr).trans (by decide))
    ((congrArg (fun b => (Access.write ⟨0, 5⟩).permits (computeProtection b)) hattr).trans
      (by decide))
    ((congrArg retryable hattr).trans (by decide))
    fun h => Nat.not_succ_le_zero _ h.2
  have hrun : ∃ t, PartialRun.run (Emulator.step #[]) (loadedEmulator .running)
      [.access 0x12345 (.write ⟨0, 5⟩) ⟨4096, 4100⟩, .execute, .grant 0x12000 1, .retry] =
        some t := by
    have haccess : Emulator.step #[] (loadedEmulator .running)
        (.access 0x12345 (.write ⟨0, 5⟩) ⟨4096, 4100⟩) =
          some (loadedEmulator (.accessing 0x12345 (.write ⟨0, 5⟩) ⟨4096, 4100⟩)) := rfl
    rw [PartialRun.run_cons haccess, PartialRun.run_cons hfault]
    exact ⟨_, rfl⟩
  obtain ⟨t, hrun⟩ := hrun
  have hbarred : PartialRun.Guarded (Emulator.step #[]) Emulator.Barred (loadedEmulator .running)
      [.access 0x12345 (.write ⟨0, 5⟩) ⟨4096, 4100⟩, .execute, .grant 0x12000 1, .retry] :=
    PartialRun.guarded_of_forall (by simp [Emulator.Barred])
  have hrecorded : PartialRun.Guarded (Emulator.step #[]) Emulator.Recorded
      (loadedEmulator .running)
      [.access 0x12345 (.write ⟨0, 5⟩) ⟨4096, 4100⟩, .execute, .grant 0x12000 1, .retry] :=
    PartialRun.guarded_of_forall (by simp [Emulator.Recorded])
  obtain ⟨hlock, htracked, hsame⟩ := writeBarrier_runs #[] loaded_barrier hbarred hrun
  exact ⟨t, hrun, hlock, htracked, fun p hp hex hmark => (hsame hrecorded p hp hex hmark).2⟩

end VM
