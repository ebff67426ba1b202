import Mathlib
import OsxVlm.Library.PartialRun
import OsxVlm.Memory.Lockstep
import OsxVlm.Memory.FaultHandler
import OsxVlm.Memory.PageMarks
import OsxVlm.Memory.WriteBarrier

/-!
# What becomes of an access

An access that the host stops is either made again, once, or handed to Lisp with the word as it
was.  The handler works on attributes that it has read without the lock; whatever is granted
before it is done, no grant is lost and the access goes through.
-/

namespace VM

/-! ### Grants along the way -/

/-- The grants of a list of ranges. -/
def grants (ranges : List (Integer × Integer)) : List Event :=
  ranges.map fun r => .grant r.1 r.2

/-- What grants leave of a memory. -/
structure Granted (m m' : Memory) : Prop where
  dataSpace : m'.dataSpace = m.dataSpace
  tagSpace : m'.tagSpace = m.tagSpace
  lockstep : Lockstep m → Lockstep m'
  keeps : ∀ (P : VMAttribute → Prop), (∀ a, P a → P (granted a)) →
    ∀ p, P (m.attributeTable p) → P (m'.attributeTable p)

section Grants

variable {table : Array VMExtableEntry} {m m' m'' : Memory}

theorem Granted.refl (m : Memory) : Granted m m := ⟨rfl, rfl, fun h => h, fun _ _ _ h => h⟩

theorem Granted.trans (h : Granted m m') (h' : Granted m' m'') : Granted m m'' where
  dataSpace := h'.dataSpace.trans h.dataSpace
  tagSpace := h'.tagSpace.trans h.tagSpace
  lockstep := fun hlock => h'.lockstep (h.lockstep hlock)
  keeps := fun P hgrant p hp => h'.keeps P hgrant p (h.keeps P hgrant p hp)

theorem granted_ensure (m : Memory) (vma : Nat) (count : Int) :
    Granted m (ensureVirtualMemoryAccessible m vma count) := by
  obtain ⟨hdata, htag⟩ := makePagesAccessible_spaces m (rangePages vma (max count 0))
    (vma - pageOffset vma)
  exact ⟨hdata, htag, fun hlock => hlock.makePagesAccessible _ _,
    fun P hgrant p hp => makePagesAccessible_keeps hgrant _ hp⟩

/-- Grants are made in any state of the interpreter. -/
theorem Emulator.run_grants (s : Emulator) (ranges : List (Integer × Integer)) :
    ∃ m', PartialRun.run (Emulator.step table) s (grants ranges) = some (s.withMemory m') ∧
      Granted s.memory m' := by
  induction ranges generalizing s with
  | nil => exact ⟨s.memory, rfl, Granted.refl _⟩
  | cons r ranges ih =>
      have hfirst := granted_ensure s.memory r.1.toNat r.2.toInt
      obtain ⟨m', hrun, hgranted⟩ :=
        ih (s.withMemory (ensureVirtualMemoryAccessible s.memory r.1.toNat r.2.toInt))
      exact ⟨m', hrun, hfirst.trans hgranted⟩

/-- A grant takes no attribute away. -/
theorem granted_grows (a b : VMAttribute) (h : a ||| b = b) : a ||| granted b = granted b := by
  have hgrown : ∀ b : VMAttribute, b ||| granted b = granted b := by
    decide +kernel
  rw [← hgrown b, ← BitVec.or_assoc, h]

end Grants

/-! ### Accesses -/

section Accesses

variable {table : Array VMExtableEntry} {s : Emulator} {vma : Integer} {a : Access}
  {site : AccessSite}

/-- The words are those after the access, and no attribute was taken away. -/
structure Accessed (s t : Emulator) (vma : Nat) (a : Access) : Prop where
  running : t.thread = .running
  dataSpace : t.memory.dataSpace = (a.perform s.memory vma).dataSpace
  tagSpace : t.memory.tagSpace = (a.perform s.memory vma).tagSpace
  grown : ∀ p, s.memory.attributeTable p ||| t.memory.attributeTable p = t.memory.attributeTable p
  noted : t.fault.residentPages = s.fault.residentPages.note vma

theorem Emulator.step_retry (f : FaultState) (m : Memory) (faulted : Nat) (attr : VMAttribute) :
    Emulator.step table (Emulator.withMemory ⟨f, .handling vma a site faulted attr⟩ m) .retry =
      some ⟨FaultState.segvRetry { f with memory := m } faulted attr, .accessing vma a site⟩ := rfl

/-- An access that the host stops for want of the marks is made after one fault, whatever is
granted meanwhile. -/
theorem Emulator.retried (h : Lockstep s.memory) (hthread : s.thread = .accessing vma a site)
    (hex : created s.memory vma.toNat = true) {attr : VMAttribute}
    (hattr : s.memory.attributeTable (pageNumber vma.toNat) = attr)
    (hpermits : a.permits (computeProtection attr) = false) (hretry : retryable attr = true)
    (hstuck : ¬ s.fault.Stuck (dataAddress vma.toNat)) (before after : List (Integer × Integer)) :
    ∃ t, PartialRun.run (Emulator.step table) s
        (.execute :: grants before ++ .retry :: grants after ++ [.execute]) = some t ∧
      Accessed s t vma.toNat a := by
  have hpermitted : ∀ prot, prot = .readWrite → a.permits prot = true := by
    rintro prot rfl
    cases a <;> rfl
  have hagain : ∀ b : VMAttribute, retryable b = true →
      granted (b ||| (.ephemeral ||| .modified)) = b ||| (.ephemeral ||| .modified) := by
    decide +kernel
  -- the fault
  obtain ⟨f, hmemory, hpages, hstep⟩ := @Emulator.step_fault table s vma a site h hthread hex
    (by rw [hattr, hpermits])
    (by rw [hattr, hretry])
    hstuck
  rw [hattr] at hstep
  -- grants to attributes that were read
  obtain ⟨m₁, hbefore, hgranted⟩ :=
    @Emulator.run_grants table ⟨f, .handling vma a site vma.toNat attr⟩ before
  have hsame : (⟨f, .handling vma a site vma.toNat attr⟩ : Emulator).memory = s.memory := hmemory
  rw [hsame] at hgranted
  have hfresh : Fresh attr (m₁.attributeTable (pageNumber vma.toNat)) :=
    hgranted.keeps (Fresh attr) (fun _ => Fresh.granted) _ ⟨hretry, Or.inl hattr⟩
  -- the end of the handler
  have hlock₁ : Lockstep
      (adjustProtection m₁ vma.toNat (attr ||| (.ephemeral ||| .modified))) := by
    apply (hgranted.lockstep h).adjust_existing _ hfresh.exists
    rw [vmExists_or, retryable_exists hretry, Bool.true_or]
  obtain ⟨m₂, hafter, hgranted'⟩ := @Emulator.run_grants table
    ⟨FaultState.segvRetry { f with memory := m₁ } vma.toNat attr, .accessing vma a site⟩ after
  have hgranted'' : Granted
      (adjustProtection m₁ vma.toNat (attr ||| (.ephemeral ||| .modified))) m₂ := hgranted'
  -- the access is made again
  have hnow : m₂.attributeTable (pageNumber vma.toNat) =
      attr ||| (.ephemeral ||| .modified) := by
    apply hgranted''.keeps (fun b => b = attr ||| (.ephemeral ||| .modified))
    · rintro b rfl
      exact hagain attr hretry
    · rw [adjustProtection_attributeTable, if_pos rfl]
  have hexists : created m₂ vma.toNat = true := by
    rw [created, hnow, vmExists_or, retryable_exists hretry, Bool.true_or]
  have hfault₂ := (hgranted''.lockstep hlock₁).fault_eq hexists a site
  rw [hnow, if_pos (hpermitted _ (writable_of_retryable hretry))] at hfault₂
  have hlast := @Emulator.step_execute table (Emulator.withMemory
    ⟨FaultState.segvRetry { f with memory := m₁ } vma.toNat attr, .accessing vma a site⟩ m₂)
    vma a site rfl
  rw [Emulator.memory_withMemory, hfault₂] at hlast
  refine ⟨⟨{ f with
    residentPages := f.residentPages.note vma.toNat
    memory := a.perform m₂ vma.toNat }, .running⟩, ?_, ?_⟩
  · rw [PartialRun.run_append, PartialRun.run_append, PartialRun.run_cons hstep, hbefore,
      Option.bind_some, PartialRun.run_cons (Emulator.step_retry f m₁ vma.toNat attr), hafter,
      Option.bind_some, PartialRun.run_cons hlast, PartialRun.run_nil]
    rfl
  · have hdata : m₂.dataSpace = s.memory.dataSpace := by
      rw [hgranted''.dataSpace, adjustProtection_dataSpace, hgranted.dataSpace]
    have htag : m₂.tagSpace = s.memory.tagSpace := by
      rw [hgranted''.tagSpace, adjustProtection_tagSpace, hgranted.tagSpace]
    have hgrown : ∀ p, s.memory.attributeTable p ||| m₂.attributeTable p =
        m₂.attributeTable p := by
      intro p
      apply hgranted''.keeps (fun b => s.memory.attributeTable p ||| b = b)
        (granted_grows _)
      rw [adjustProtection_attributeTable]
      split
      · next heq =>
        subst heq
        rw [hattr, ← BitVec.or_assoc, BitVec.or_self]
      · exact hgranted.keeps (fun b => s.memory.attributeTable p ||| b = b)
          (granted_grows _) p BitVec.or_self
    cases a with
    | read => exact ⟨rfl, hdata, htag, hgrown, congrArg (·.note vma.toNat) hpages⟩
    | write q =>
        refine ⟨rfl, ?_, ?_, hgrown, congrArg (·.note vma.toNat) hpages⟩
        · funext b
          exact if_congr Iff.rfl rfl (congrFun hdata b)
        · funext b
          exact if_congr Iff.rfl rfl (congrFun htag b)

/-- **The access.**  On a page that exists, an access that the attributes permit is made; one that
Lisp has to hear of is delivered with the memory as it was; and any other, unless it is stuck, is
made after one fault, whatever is granted meanwhile. -/
theorem access_outcome (table : Array VMExtableEntry) (h : Lockstep s.memory)
    (hthread : s.thread = .accessing vma a site) (hex : created s.memory vma.toNat = true) :
    let attr := s.memory.attributeTable (pageNumber vma.toNat)
    (a.permits (computeProtection attr) = true → s.step table .execute =
      some { s.withMemory (a.perform s.memory vma.toNat) with thread := .running }) ∧
    (a.permits (computeProtection attr) = false → retryable attr = false →
      ∀ t, s.step table .execute = some t →
        t.memory = s.memory ∧ t.thread = .delivered vma.toNat (vmExtableLookup table site.dataInsn)) ∧
    (a.permits (computeProtection attr) = false → retryable attr = true →
      ¬ s.fault.Stuck (dataAddress vma.toNat) → ∀ before after, ∃ t,
        PartialRun.run (Emulator.step table) s
          (.execute :: grants before ++ .retry :: grants after ++ [.execute]) = some t ∧
        Accessed s t vma.toNat a) := by
  have hfault := h.fault_eq hex a site
  have hstep := @Emulator.step_execute table s vma a site hthread
  have hvma := faultVma_data vma.isLt
  intro attr
  refine ⟨?_, ?_, ?_⟩
  · intro hpermits
    rw [hstep, hfault, if_pos hpermits]
  · intro hpermits hretry t ht
    rw [hstep, hfault, if_neg (by rw [hpermits]; exact Bool.false_ne_true)] at ht
    obtain ⟨hmemory, hdelivered | ⟨-, hretry'⟩⟩ := Emulator.enterHandler_cases hvma ht
    · exact ⟨hmemory, hdelivered⟩
    · rw [hretry] at hretry'
      cases hretry'
  · exact fun hpermits hretry hstuck before after =>
      Emulator.retried h hthread hex rfl hpermits hretry hstuck before after

/-- A store whose fault is handled while the page is granted to the host. -/
theorem access_outcome_sample :
    ∃ t, PartialRun.run (Emulator.step #[])
        (loadedEmulator (.accessing 0x12345 (.write ⟨0, 5⟩) ⟨4096, 4100⟩))
        (.execute :: grants [(0x12000, 1)] ++ .retry :: grants [] ++ [.execute]) = some t ∧
      Accessed (loadedEmulator (.accessing 0x12345 (.write ⟨0, 5⟩) ⟨4096, 4100⟩)) t
        (0x12345 : Integer).toNat (.write ⟨0, 5⟩) := by
  have hattr : loadedMemory.attributeTable (pageNumber (0x12345 : Integer).toNat) = .exists :=
    loaded_attributeTable 9
  have houtcome := @access_outcome
    (loadedEmulator (.accessing 0x12345 (.write ⟨0, 5⟩) ⟨4096, 4100⟩)) 0x12345 (.write ⟨0, 5⟩)
    ⟨4096, 4100⟩ #[] loaded_lockstep rfl ((congrArg vmExists hattr).trans (by decide))
  exact houtcome.2.2
    ((congrArg (fun b => (Access.write ⟨0, 5⟩).permits (computeProtection b)) hattr).trans
      (by decide))
    ((congrArg retryable hattr).trans (by decide)) (fun h => Nat.not_succ_le_zero _ h.2)
    [(0x12000, 1)] []

end Accesses

end VM
