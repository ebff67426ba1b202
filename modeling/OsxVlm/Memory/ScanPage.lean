import Mathlib
import OsxVlm.Memory.Attributes
import OsxVlm.Memory.VirtualMemory
import OsxVlm.Memory.Scan

/-!
# The fast scanner and the slow one

Both find the same first reference into oldspace.  When there is none the fast one
has looked at every word from the start of the page to the end of the last group of
the range, and sets the ephemeral bit by what it saw; the words behind are not
looked at.
-/

namespace VM

/-! ### References -/

/-- A pointer to an ephemeral address, and one into oldspace. -/
def ephemeralReference (m : Memory) (a : Nat) : Bool :=
  pointerP (m.tagSpace a) && ephemeralAddressP (m.dataSpace a)

def oldspaceReference (m : Memory) (proc : Processor) (a : Nat) : Bool :=
  pointerP (m.tagSpace a) && oldspaceP proc (m.dataSpace a)

/-- Some word of `[lo, hi)` refers to ephemeral space, or to oldspace. -/
def HoldsEphemeral (m : Memory) (lo hi : Nat) : Prop :=
  ∃ a, lo ≤ a ∧ a < hi ∧ ephemeralReference m a = true

def HoldsOldspace (m : Memory) (proc : Processor) (lo hi : Nat) : Prop :=
  ∃ a, lo ≤ a ∧ a < hi ∧ oldspaceReference m proc a = true

variable {m : Memory} {proc : Processor} {lo mid hi : Nat}

theorem HoldsEphemeral.split (hlo : lo ≤ mid) (hhi : mid ≤ hi) :
    HoldsEphemeral m lo hi ↔ HoldsEphemeral m lo mid ∨ HoldsEphemeral m mid hi := by
  constructor
  · intro h
    obtain ⟨a, hlo', hhi', ha⟩ := h
    by_cases hmid : a < mid
    · exact Or.inl ⟨a, hlo', hmid, ha⟩
    · exact Or.inr ⟨a, Nat.le_of_not_lt hmid, hhi', ha⟩
  · intro h
    obtain ⟨a, hlo', hhi', ha⟩ | ⟨a, hlo', hhi', ha⟩ := h
    · exact ⟨a, hlo', by omega, ha⟩
    · exact ⟨a, by omega, hhi', ha⟩

theorem HoldsEphemeral.single {a : Nat} :
    HoldsEphemeral m a (a + 1) ↔ ephemeralReference m a = true := by
  constructor
  · intro h
    obtain ⟨b, hlo, hhi, hb⟩ := h
    obtain rfl : b = a := by omega
    exact hb
  · intro h
    exact ⟨a, le_rfl, Nat.lt_succ_self a, h⟩

/-! ### The first reference -/

/-- `v` is the first address of `[lo, hi)` with the property. -/
structure First (P : Nat → Prop) (lo hi v : Nat) : Prop where
  le : lo ≤ v
  lt : v < hi
  holds : P v
  before : ∀ a, lo ≤ a → a < v → ¬ P a

theorem First.unique {P : Nat → Prop} {v w : Nat} (hv : First P lo hi v) (hw : First P lo hi w) :
    v = w := by
  obtain hlt | heq | hgt := Nat.lt_trichotomy v w
  · exact absurd hv.holds (hw.before v hv.le hlt)
  · exact heq
  · exact absurd hw.holds (hv.before w hw.le hgt)

/-- The first reference into oldspace of `[lo, hi)`, if there is one. -/
def Finds (m : Memory) (proc : Processor) (lo hi : Nat) : Option Nat → Prop
  | some v => First (fun a => oldspaceReference m proc a = true) lo hi v
  | none => ∀ a, lo ≤ a → a < hi → ¬ oldspaceReference m proc a = true

theorem Finds.unique {x y : Option Nat} (hx : Finds m proc lo hi x) (hy : Finds m proc lo hi y) :
    x = y := by
  cases x with
  | none =>
      cases y with
      | none => rfl
      | some w => exact absurd hy.holds (hx w hy.le hy.lt)
  | some v =>
      cases y with
      | none => exact absurd hx.holds (hy v hx.le hx.lt)
      | some w => rw [First.unique hx hy]

theorem slowScanPage_finds (m : Memory) (proc : Processor) (scanvma count : Nat) :
    Finds m proc scanvma (scanvma + count) (slowScanPage m proc scanvma count) := by
  induction count generalizing scanvma with
  | zero =>
      intro a hlo hhi
      omega
  | succ count ih =>
      have hrest := ih (scanvma + 1)
      rw [show scanvma + 1 + count = scanvma + (count + 1) by omega] at hrest
      unfold slowScanPage
      by_cases hhere : (pointerP (m.tagSpace scanvma) && oldspaceP proc (m.dataSpace scanvma)) = true
      · rw [if_pos hhere]
        exact ⟨le_rfl, by omega, hhere, fun a hlo hlt => by omega⟩
      · rw [if_neg hhere]
        have hnot : ∀ a, a = scanvma → ¬ oldspaceReference m proc a = true := by
          intro a ha
          rw [ha]
          exact hhere
        cases hslow : slowScanPage m proc (scanvma + 1) count with
        | some v =>
            rw [hslow] at hrest
            refine ⟨(Nat.le_succ scanvma).trans hrest.le, hrest.lt, hrest.holds, ?_⟩
            intro a hlo hlt
            by_cases heq : a = scanvma
            · exact hnot a heq
            · exact hrest.before a (by omega) hlt
        | none =>
            rw [hslow] at hrest
            intro a hlo hhi
            by_cases heq : a = scanvma
            · exact hnot a heq
            · exact hrest a (by omega) hhi

/-! ### Passes -/

/-- The reference is one that was asked for. -/
def Hit (m : Memory) (proc : Processor) (scanvma endvma a : Nat) : Prop :=
  oldspaceReference m proc a = true ∧ scanvma ≤ a ∧ a < endvma

/-- What a pass over `[lo, hi)` has found, if `ephemeral` was found before. -/
def Pass.Covers (m : Memory) (proc : Processor) (scanvma endvma : Nat) (update : Bool)
    (lo hi : Nat) (ephemeral : Bool) : Pass → Prop
  | .on found =>
      (update = false → ∀ a, lo ≤ a → a < hi → ¬ Hit m proc scanvma endvma a) ∧
        (found = true ↔ ephemeral = true ∨ HoldsEphemeral m lo hi)
  | .done => update = true ∧ (ephemeral = true ∨ HoldsEphemeral m lo hi)
  | .hit v => update = false ∧ First (Hit m proc scanvma endvma) lo hi v

variable {scanvma endvma : Nat} {update ephemeral found : Bool} {p : Pass}

/-- A pass goes on where another has ended. -/
theorem Pass.Covers.trans (hlo : lo ≤ mid) (hhi : mid ≤ hi)
    (h : (Pass.on found).Covers m proc scanvma endvma update lo mid ephemeral)
    (h' : p.Covers m proc scanvma endvma update mid hi found) :
    p.Covers m proc scanvma endvma update lo hi ephemeral := by
  obtain ⟨hno, hfound⟩ := h
  have heph := HoldsEphemeral.split (m := m) hlo hhi
  cases p with
  | on found' =>
      obtain ⟨hno', hfound'⟩ := h'
      refine ⟨?_, ?_⟩
      · intro hup a ha ha'
        by_cases hmid : a < mid
        · exact hno hup a ha hmid
        · exact hno' hup a (by omega) ha'
      · rw [hfound', hfound, heph, or_assoc]
  | done =>
      obtain ⟨hup, hfound'⟩ := h'
      refine ⟨hup, ?_⟩
      rw [heph, ← or_assoc, ← hfound]
      exact hfound'
  | hit v =>
      obtain ⟨hup, hfirst⟩ := h'
      refine ⟨hup, hlo.trans hfirst.le, hfirst.lt, hfirst.holds, ?_⟩
      intro a ha ha'
      by_cases hmid : a < mid
      · exact hno hup a ha hmid
      · exact hfirst.before a (by omega) ha'

/-- What has ended a pass has ended a longer one. -/
theorem Pass.Covers.widen (hhi : mid ≤ hi) (hp : ∀ found, p ≠ .on found)
    (h : p.Covers m proc scanvma endvma update lo mid ephemeral) :
    p.Covers m proc scanvma endvma update lo hi ephemeral := by
  cases p with
  | on found => exact absurd rfl (hp found)
  | done =>
      obtain ⟨hup, hfound | ⟨a, hlo, hlt, ha⟩⟩ := h
      · exact ⟨hup, Or.inl hfound⟩
      · exact ⟨hup, Or.inr ⟨a, hlo, hlt.trans_le hhi, ha⟩⟩
  | hit v =>
      obtain ⟨hup, hfirst⟩ := h
      exact ⟨hup, hfirst.le, hfirst.lt.trans_le hhi, hfirst.holds, hfirst.before⟩

theorem Pass.Covers.refl (lo : Nat) (ephemeral : Bool) :
    (Pass.on ephemeral).Covers m proc scanvma endvma update lo lo ephemeral := by
  refine ⟨?_, ?_⟩
  · intro hup a ha ha'
    omega
  · constructor
    · exact Or.inl
    · intro h
      obtain h | ⟨a, hlo, hhi, -⟩ := h
      · exact h
      · omega

theorem scanWords_covers (n thisvma : Nat) (ephemeral : Bool) :
    (scanWords m proc scanvma endvma update n thisvma ephemeral).Covers m proc scanvma endvma
      update thisvma (thisvma + n) ephemeral := by
  induction n generalizing thisvma ephemeral with
  | zero => exact Pass.Covers.refl thisvma ephemeral
  | succ n ih =>
      have hstep : ∀ found, (Pass.on found).Covers m proc scanvma endvma update thisvma
            (thisvma + 1) ephemeral →
          (scanWords m proc scanvma endvma update n (thisvma + 1) found).Covers m proc scanvma
            endvma update thisvma (thisvma + (n + 1)) ephemeral := by
        intro found hfound
        have hrest := ih (thisvma + 1) found
        rw [show thisvma + 1 + n = thisvma + (n + 1) by omega] at hrest
        exact hfound.trans (by omega) (by omega) hrest
      have hone : ∀ a, thisvma ≤ a → a < thisvma + 1 → a = thisvma := by
        intro a hlo hhi
        omega
      unfold scanWords
      dsimp only
      split
      · next htag =>
        apply hstep
        rw [Pass.Covers, HoldsEphemeral.single, ephemeralReference]
        rw [Bool.not_eq_true'] at htag
        refine ⟨?_, ?_⟩
        · intro hup a hlo hhi hhit
          rw [hone a hlo hhi, Hit, oldspaceReference, htag] at hhit
          simp at hhit
        · simp [htag]
      · next htag =>
        have htag : pointerP (m.tagSpace thisvma) = true := by simpa using htag
        have heph : (ephemeral || ephemeralAddressP (m.dataSpace thisvma)) = true ↔
            ephemeral = true ∨ HoldsEphemeral m thisvma (thisvma + 1) := by
          rw [HoldsEphemeral.single, ephemeralReference, htag, Bool.true_and, Bool.or_eq_true]
        split
        · next hup =>
          split
          · next hfound =>
            refine ⟨hup, ?_⟩
            have hsplit : HoldsEphemeral m thisvma (thisvma + (n + 1)) ↔
                HoldsEphemeral m thisvma (thisvma + 1) ∨
                  HoldsEphemeral m (thisvma + 1) (thisvma + (n + 1)) :=
              HoldsEphemeral.split (by omega) (by omega)
            rw [hsplit, ← or_assoc]
            exact Or.inl (heph.mp hfound)
          · next hfound =>
            apply hstep
            refine ⟨fun hno => ?_, heph⟩
            rw [hup] at hno
            cases hno
        · next hup =>
          have hup : update = false := by simpa using hup
          split
          · next hhit =>
            rw [Bool.and_eq_true, Bool.and_eq_true, decide_eq_true_eq, decide_eq_true_eq] at hhit
            obtain ⟨⟨hold, hlo⟩, hhi⟩ := hhit
            refine ⟨hup, le_rfl, by omega, ⟨?_, hlo, hhi⟩, ?_⟩
            · rw [oldspaceReference, htag, hold]
              rfl
            · intro a hle hlt
              omega
          · next hhit =>
            apply hstep
            refine ⟨?_, heph⟩
            intro _ a hle hlt hasked
            obtain ⟨hold, hlo, hhi⟩ := hasked
            rw [hone a hle hlt] at hold hlo hhi
            rw [oldspaceReference, htag, Bool.true_and] at hold
            rw [hold, decide_eq_true hlo, decide_eq_true hhi] at hhit
            exact hhit rfl

/-- The groups reach the end of the last one that is begun. -/
theorem scanGroups_covers {limitvma thisvma : Nat} (hthis : thisvma % 8 = 0)
    (ephemeral : Bool) :
    (scanGroups m proc scanvma endvma update limitvma thisvma ephemeral).Covers m proc scanvma
      endvma update thisvma (max thisvma (8 * ((limitvma + 7) / 8))) ephemeral := by
  induction hn : limitvma - thisvma using Nat.strong_induction_on generalizing thisvma ephemeral with
  | _ n ih =>
    subst hn
    unfold scanGroups
    split
    · next hlt =>
      have hgroup : (scanWords m proc scanvma endvma update 8 thisvma ephemeral).Covers m proc
          scanvma endvma update thisvma (thisvma + 8) ephemeral :=
        scanWords_covers 8 thisvma ephemeral
      have hend : max thisvma (8 * ((limitvma + 7) / 8)) =
          max (thisvma + 8) (8 * ((limitvma + 7) / 8)) := by omega
      rw [hend]
      split
      · next found hfound =>
        rw [hfound] at hgroup
        exact hgroup.trans (by omega) (by omega)
          (ih (limitvma - (thisvma + 8)) (by omega) (by omega) found rfl)
      · next p hp =>
        exact hgroup.widen (by omega) hp
    · next hge =>
      rw [max_eq_left (by omega)]
      exact Pass.Covers.refl thisvma ephemeral

/-! ### The page -/

/-- Where the fast scanner stops looking. -/
def scanned (scanvma count : Nat) : Nat := 8 * ((scanvma + count + 7) / 8)

theorem firstPass_covers (m : Memory) (proc : Processor) (scanvma count : Nat) :
    (scanGroups m proc scanvma (scanvma + count) false (scanvma + count)
      (scanvma - scanvma % 8) false).Covers m proc scanvma (scanvma + count) false
      (scanvma - scanvma % 8) (max (scanvma - scanvma % 8) (scanned scanvma count)) false :=
  scanGroups_covers (by omega) false

theorem secondPass_covers (m : Memory) (proc : Processor) (scanvma count : Nat) (found : Bool) :
    (scanGroups m proc scanvma (scanvma + count) true scanvma
      (scanvma - pageOffset scanvma) found).Covers m proc scanvma (scanvma + count) true
      (scanvma - pageOffset scanvma)
      (max (scanvma - pageOffset scanvma) (8 * ((scanvma + 7) / 8))) found :=
  scanGroups_covers (by unfold pageOffset; omega) found

/-- The first pass finds what the slow scanner finds, and ephemeral references from
the first group of the range to the last. -/
theorem firstPass_hit {count v : Nat}
    (h : scanGroups m proc scanvma (scanvma + count) false (scanvma + count)
      (scanvma - scanvma % 8) false = .hit v) :
    slowScanPage m proc scanvma count = some v := by
  have hcover := firstPass_covers m proc scanvma count
  rw [h] at hcover
  obtain ⟨-, hfirst⟩ := hcover
  obtain ⟨hold, hlo, hhi⟩ := hfirst.holds
  apply Finds.unique (slowScanPage_finds m proc scanvma count) (y := some v)
  refine ⟨hlo, hhi, hold, ?_⟩
  intro a ha hlt hold'
  exact hfirst.before a (by omega) hlt ⟨hold', ha, by omega⟩

theorem firstPass_on {count : Nat} {found : Bool}
    (h : scanGroups m proc scanvma (scanvma + count) false (scanvma + count)
      (scanvma - scanvma % 8) false = .on found) :
    slowScanPage m proc scanvma count = none ∧
      (found = true ↔ HoldsEphemeral m (scanvma - scanvma % 8)
        (max (scanvma - scanvma % 8) (scanned scanvma count))) := by
  have hcover := firstPass_covers m proc scanvma count
  rw [h] at hcover
  obtain ⟨hno, hfound⟩ := hcover
  refine ⟨?_, by simpa using hfound⟩
  apply Finds.unique (slowScanPage_finds m proc scanvma count) (y := none)
  intro a hlo hhi hold
  have hend : scanvma + count ≤ scanned scanvma count := by
    unfold scanned
    omega
  exact hno rfl a (by omega) (by omega) ⟨hold, hlo, hhi⟩

/-- No reference into oldspace: the page is updated by what was seen of it. -/
theorem scanPage_none {count : Nat} (h : slowScanPage m proc scanvma count = none) :
    ∃ ephemeral, scanPage m proc scanvma count false = (updatePage m scanvma ephemeral, none) ∧
      (ephemeral = true ↔
        HoldsEphemeral m (scanvma - pageOffset scanvma) (scanned scanvma count)) := by
  unfold scanPage
  dsimp only
  cases hfirst : scanGroups m proc scanvma (scanvma + count) false (scanvma + count)
      (scanvma - scanvma % 8) false with
  | hit v =>
      rw [firstPass_hit hfirst] at h
      cases h
  | done =>
      have hcover := firstPass_covers m proc scanvma count
      rw [hfirst] at hcover
      cases hcover.1
  | on found =>
      obtain ⟨-, hfound⟩ := firstPass_on hfirst
      have hstart : scanvma - pageOffset scanvma - (scanvma - pageOffset scanvma) % 8 =
          scanvma - pageOffset scanvma := by
        unfold pageOffset
        omega
      have hcover := secondPass_covers m proc scanvma count found
      have hboth : HoldsEphemeral m (scanvma - pageOffset scanvma) (scanned scanvma count) ↔
          found = true ∨ HoldsEphemeral m (scanvma - pageOffset scanvma)
            (max (scanvma - pageOffset scanvma) (8 * ((scanvma + 7) / 8))) := by
        rw [hfound]
        unfold scanned pageOffset
        constructor
        · intro h
          obtain ⟨a, hlo, hhi, ha⟩ := h
          by_cases hin : scanvma - scanvma % 8 ≤ a
          · exact Or.inl ⟨a, hin, by omega, ha⟩
          · exact Or.inr ⟨a, hlo, by omega, ha⟩
        · intro h
          obtain ⟨a, hlo, hhi, ha⟩ | ⟨a, hlo, hhi, ha⟩ := h
          · exact ⟨a, by omega, by omega, ha⟩
          · exact ⟨a, hlo, by omega, ha⟩
      rw [hstart]
      simp only [Bool.false_eq_true, if_false]
      cases hsecond : scanGroups m proc scanvma (scanvma + count) true scanvma
          (scanvma - pageOffset scanvma) found with
      | hit v =>
          rw [hsecond] at hcover
          cases hcover.1
      | done =>
          rw [hsecond] at hcover
          refine ⟨true, rfl, ?_⟩
          rw [hboth]
          exact iff_of_true rfl hcover.2
      | on found' =>
          rw [hsecond] at hcover
          refine ⟨found', rfl, ?_⟩
          rw [hboth]
          exact hcover.2

theorem scanPage_some {count v : Nat} (h : slowScanPage m proc scanvma count = some v) :
    scanPage m proc scanvma count false = (m, some v) := by
  unfold scanPage
  dsimp only
  cases hfirst : scanGroups m proc scanvma (scanvma + count) false (scanvma + count)
      (scanvma - scanvma % 8) false with
  | hit w =>
      have hslow := firstPass_hit hfirst
      rw [h] at hslow
      cases hslow
      rfl
  | done =>
      have hcover := firstPass_covers m proc scanvma count
      rw [hfirst] at hcover
      cases hcover.1
  | on found =>
      have hslow := (firstPass_on hfirst).1
      rw [h] at hslow
      cases hslow

/-! ### The attributes -/

theorem updatePage_attributeTable (ephemeral : Bool) :
    (updatePage m scanvma ephemeral).attributeTable (pageNumber scanvma) =
      if ephemeral then
        setVMEphemeral (clearVMTransportDisable (clearVMTransportFault
          (m.attributeTable (pageNumber scanvma))))
      else
        clearVMEphemeral (clearVMTransportDisable (clearVMTransportFault
          (m.attributeTable (pageNumber scanvma)))) := by
  have hset : ∀ a, (if a ≠ m.attributeTable (pageNumber scanvma) then adjustProtection m scanvma a
      else m).attributeTable (pageNumber scanvma) = a := by
    intro a
    split
    · rw [adjustProtection_attributeTable, if_pos rfl]
    · next hsame => exact (not_not.mp hsame).symm
  unfold updatePage
  dsimp only
  rw [hset]

/-- The attributes a scan decides. -/
def scanAttributes : VMAttribute := .ephemeral ||| .transportFault ||| .transportDisable

/-- The scan agrees with the slow one, and where it has rewritten the attributes of the
page they are right for the whole of it. -/
def ScanAgrees (m : Memory) (proc : Processor) (scanvma count : Nat) : Prop :=
  let (m', found) := scanPage m proc scanvma count false
  let a := m.attributeTable (pageNumber scanvma)
  let a' := m'.attributeTable (pageNumber scanvma)
  found = slowScanPage m proc scanvma count ∧
    (found = none →
      vmTransportFault a' = false ∧ vmTransportDisable a' = false ∧
      a' &&& ~~~scanAttributes = a &&& ~~~scanAttributes ∧
      (vmEphemeral a' = true ↔ HoldsEphemeral m (scanvma - pageOffset scanvma)
        (scanvma - pageOffset scanvma + 8192)))

theorem updated_attributes (a : VMAttribute) (ephemeral : Bool) :
    let a' := if ephemeral then
        setVMEphemeral (clearVMTransportDisable (clearVMTransportFault a))
      else clearVMEphemeral (clearVMTransportDisable (clearVMTransportFault a))
    vmTransportFault a' = false ∧ vmTransportDisable a' = false ∧
      a' &&& ~~~scanAttributes = a &&& ~~~scanAttributes ∧ vmEphemeral a' = ephemeral := by
  revert a ephemeral
  decide +kernel

/-- The two scanners agree always, and the ephemeral bit is right unless the only
ephemeral references of the page lie behind the groups of the range. -/
theorem scanPage_agrees_iff (m : Memory) (proc : Processor) {scanvma count : Nat}
    (hpage : pageOffset scanvma + count ≤ 8192) :
    ScanAgrees m proc scanvma count ↔
      HoldsOldspace m proc scanvma (scanvma + count) ∨
        HoldsEphemeral m (scanvma - pageOffset scanvma) (scanned scanvma count) ∨
        ¬ HoldsEphemeral m (scanned scanvma count) (scanvma - pageOffset scanvma + 8192) := by
  unfold ScanAgrees
  dsimp only
  have hfinds := slowScanPage_finds m proc scanvma count
  cases hslow : slowScanPage m proc scanvma count with
  | some v =>
      rw [hslow] at hfinds
      rw [scanPage_some hslow]
      apply iff_of_true
      · refine ⟨rfl, ?_⟩
        intro hnone
        cases hnone
      · exact Or.inl ⟨v, hfinds.le, hfinds.lt, hfinds.holds⟩
  | none =>
      rw [hslow] at hfinds
      obtain ⟨ephemeral, hscan, heph⟩ := scanPage_none hslow
      rw [hscan]
      dsimp only
      obtain ⟨hfault, hdisable, hothers, hbit⟩ :=
        updated_attributes (m.attributeTable (pageNumber scanvma)) ephemeral
      rw [← updatePage_attributeTable] at hfault hdisable hothers hbit
      have hno : ¬ HoldsOldspace m proc scanvma (scanvma + count) := by
        intro h
        obtain ⟨a, hlo, hhi, ha⟩ := h
        exact hfinds a hlo hhi ha
      -- the page is what was looked at and the words behind
      have hwhole : HoldsEphemeral m (scanvma - pageOffset scanvma)
            (scanvma - pageOffset scanvma + 8192) ↔
          HoldsEphemeral m (scanvma - pageOffset scanvma) (scanned scanvma count) ∨
            HoldsEphemeral m (scanned scanvma count) (scanvma - pageOffset scanvma + 8192) := by
        apply HoldsEphemeral.split
        · unfold scanned pageOffset
          omega
        · unfold scanned pageOffset at *
          omega
      rw [hbit, heph, hwhole]
      constructor
      · intro h
        obtain ⟨-, h⟩ := h
        have hiff := (h rfl).2.2.2
        by_cases hseen : HoldsEphemeral m (scanvma - pageOffset scanvma) (scanned scanvma count)
        · exact Or.inr (Or.inl hseen)
        · refine Or.inr (Or.inr ?_)
          intro hbehind
          exact hseen (hiff.mpr (Or.inr hbehind))
      · intro h
        refine ⟨rfl, fun _ => ⟨hfault, hdisable, hothers, Or.inl, ?_⟩⟩
        intro hany
        obtain hold | hseen | hnone := h
        · exact absurd hold hno
        · exact hseen
        · obtain hseen | hbehind := hany
          · exact hseen
          · exact absurd hbehind hnone

/-- Page 1 exists; one word is a pointer to an ephemeral address, the others are fixnums. -/
def pageWithReference (vma : Nat) : Memory :=
  { Memory.empty false with
    attributeTable := fun p => if p = 1 then 0x70 else 0
    tagSpace := fun a => if a = vma then 4 else 8 }

theorem scanPage_sample : ScanAgrees (pageWithReference 8200) ⟨0, 0xFFFFFFFF⟩ 8192 16 := by
  apply (scanPage_agrees_iff (pageWithReference 8200) ⟨0, 0xFFFFFFFF⟩ (by decide)).mpr
  exact Or.inr (Or.inl ⟨8200, by decide, by decide, by decide⟩)

/-- Two groups of the page are scanned; the reference is behind them, and the page is
taken for one without. -/
theorem reference_behind_range :
    ¬ ScanAgrees (pageWithReference 8300) ⟨0, 0xFFFFFFFF⟩ 8192 16 := by
  intro h
  have hnone : slowScanPage (pageWithReference 8300) ⟨0, 0xFFFFFFFF⟩ 8192 16 = none := by decide
  obtain ⟨ephemeral, hscan, heph⟩ := scanPage_none hnone
  have hbit := (updated_attributes ((pageWithReference 8300).attributeTable (pageNumber 8192))
    ephemeral).2.2.2
  rw [← updatePage_attributeTable] at hbit
  unfold ScanAgrees at h
  rw [hscan] at h
  obtain ⟨a, hlo, hhi, ha⟩ : HoldsEphemeral (pageWithReference 8300)
      (8192 - pageOffset 8192) (scanned 8192 16) := by
    rw [← heph, ← hbit]
    exact (h.2 rfl).2.2.2.mpr ⟨8300, by decide, by decide, by decide⟩
  have hnone : ∀ i < 16, ¬ ephemeralReference (pageWithReference 8300) (8192 + i) = true := by
    decide
  simp only [pageOffset, scanned] at hlo hhi
  apply hnone (a - 8192) (by omega)
  rw [Nat.add_sub_cancel' (by omega)]
  exact ha

end VM
