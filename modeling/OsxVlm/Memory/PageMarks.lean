import Mathlib
import OsxVlm.Memory.Attributes
import OsxVlm.Memory.VirtualMemory
import OsxVlm.Memory.Scan
import OsxVlm.Memory.ScanPage
import OsxVlm.Memory.WorldLoad
import OsxVlm.Memory.Lockstep
import OsxVlm.Memory.LockstepRuns
import OsxVlm.Memory.CreatePage

/-!
# The marks of a page

The ephemeral bit says that a page may refer to ephemeral space, the modified bit that it may
differ from its world.  Both are set when a page is created, and none of the operations loses a
mark that a page still needs: a page without the mark is fine without it, or it had no mark
before and not one of its words has changed.
-/

namespace VM

variable {m m' m'' : Memory} {p vma : Nat}

/-! ### Words of a page -/

def SamePage (m m' : Memory) (p : Nat) : Prop :=
  ∀ a, pageNumber a = p → m'.dataSpace a = m.dataSpace a ∧ m'.tagSpace a = m.tagSpace a

theorem SamePage.refl (m : Memory) (p : Nat) : SamePage m m p := fun _ _ => ⟨rfl, rfl⟩

theorem SamePage.trans (h : SamePage m m' p) (h' : SamePage m' m'' p) : SamePage m m'' p := by
  intro a ha
  obtain ⟨hdata, htag⟩ := h a ha
  obtain ⟨hdata', htag'⟩ := h' a ha
  exact ⟨hdata'.trans hdata, htag'.trans htag⟩

theorem SamePage.of_spaces (hdata : m'.dataSpace = m.dataSpace) (htag : m'.tagSpace = m.tagSpace)
    (p : Nat) : SamePage m m' p := fun a _ => ⟨congrFun hdata a, congrFun htag a⟩

theorem SamePage.ephemeralReference (h : SamePage m m' p) {a : Nat} (ha : pageNumber a = p) :
    ephemeralReference m' a = VM.ephemeralReference m a := by
  obtain ⟨hdata, htag⟩ := h a ha
  unfold VM.ephemeralReference
  rw [hdata, htag]

/-! ### Marks -/

/-- Nothing behind the range, up to the end of its last page, refers to ephemeral space. -/
def NothingBeyond (m : Memory) (endvma : Nat) : Prop :=
  ∀ a, endvma ≤ a → pageNumber a = pageNumber (endvma - 1) → ephemeralReference m a = false

/-- What one page of a scan is asked for: some of it, or when it is only updated the whole. -/
structure ScanAsks (m : Memory) (scanvma count : Nat) (update : Bool) : Prop where
  some : 0 < count
  inside : pageOffset scanvma + count ≤ 8192
  beyond : NothingBeyond m (scanvma + count)
  whole : update = true → pageOffset scanvma = 0 ∧ count = 8192

/-- A page without the mark is fine now, or it was without the mark and is as it was. -/
def Carries (mark : VMAttribute → Bool) (fine : Memory → Nat → Prop) (m m' : Memory) : Prop :=
  ∀ p, p < 2 ^ 19 → vmExists (m'.attributeTable p) = true → mark (m'.attributeTable p) = false →
    fine m' p ∨
      vmExists (m.attributeTable p) = true ∧ mark (m.attributeTable p) = false ∧ SamePage m m' p

/-- A mark that new pages have, and that only a scan may take away. -/
structure Marking (mark : VMAttribute → Bool) (fine : Memory → Nat → Prop) : Prop where
  or : ∀ a b, mark (a ||| b) = (mark a || mark b)
  default : ∀ enableIDS faultp, mark (defaultAttributes enableIDS faultp false) = true
  both : mark (.ephemeral ||| .modified) = true
  cleared : ∀ a, mark (clearVMTransportDisable (clearVMTransportFault a)) = mark a
  flipped : ∀ proc faultp a, mark (flip proc faultp a) = mark a
  same : ∀ m m' p, SamePage m m' p → fine m p → fine m' p
  scan : ∀ m proc scanvma count update, created m scanvma = true →
    ScanAsks m scanvma count update →
    Carries mark fine m (VM.scanPage m proc scanvma count update).1

variable {mark : VMAttribute → Bool} {fine : Memory → Nat → Prop}

theorem Carries.refl (m : Memory) : Carries mark fine m m :=
  fun p _ hex hmark => Or.inr ⟨hex, hmark, SamePage.refl m p⟩

/-- The spaces and the table are those of another memory. -/
theorem Carries.congr (h : Carries mark fine m m') (hsame : Marking mark fine)
    (ha : m''.attributeTable = m'.attributeTable) (hdata : m''.dataSpace = m'.dataSpace)
    (htag : m''.tagSpace = m'.tagSpace) : Carries mark fine m m'' := by
  intro p hp hex hmark
  rw [ha] at hex hmark
  have hpage := SamePage.of_spaces hdata htag p
  obtain hfine | ⟨hex', hmark', hkept⟩ := h p hp hex hmark
  · exact Or.inl (hsame.same m' m'' p hpage hfine)
  · exact Or.inr ⟨hex', hmark', hkept.trans hpage⟩

namespace Marking

variable (hm : Marking mark fine)
include hm

theorem trans (h : Carries mark fine m m') (h' : Carries mark fine m' m'') :
    Carries mark fine m m'' := by
  intro p hp hex hmark
  obtain hfine | ⟨hex', hmark', hkept⟩ := h' p hp hex hmark
  · exact Or.inl hfine
  · obtain hfine | ⟨hex'', hmark'', hkept'⟩ := h p hp hex' hmark'
    · exact Or.inl (hm.same m' m'' p hkept hfine)
    · exact Or.inr ⟨hex'', hmark'', hkept'.trans hkept⟩

/-- One page is given other attributes. -/
theorem adjust {a : VMAttribute}
    (ha : vmExists a = true → mark a = false → fine m (pageNumber vma) ∨
      vmExists (m.attributeTable (pageNumber vma)) = true ∧
        mark (m.attributeTable (pageNumber vma)) = false) :
    Carries mark fine m (adjustProtection m vma a) := by
  intro p hp hex hmark
  have hpage : SamePage m (adjustProtection m vma a) p :=
    SamePage.of_spaces (adjustProtection_dataSpace m vma a) (adjustProtection_tagSpace m vma a) p
  rw [adjustProtection_attributeTable] at hex hmark
  split at hex
  · next heq =>
    rw [if_pos heq] at hmark
    subst heq
    obtain hfine | ⟨hex', hmark'⟩ := ha hex hmark
    · exact Or.inl (hm.same m _ _ hpage hfine)
    · exact Or.inr ⟨hex', hmark', hpage⟩
  · next hne =>
    rw [if_neg hne] at hmark
    exact Or.inr ⟨hex, hmark, hpage⟩

/-- Attributes with the mark can be given to any page. -/
theorem adjust_marked {a : VMAttribute} (ha : mark a = true) :
    Carries mark fine m (adjustProtection m vma a) := by
  apply hm.adjust
  intro hex hmark
  rw [ha] at hmark
  cases hmark

/-- A page that exists gets more bits. -/
theorem adjust_or {b : VMAttribute} (hex : created m vma = true) :
    Carries mark fine m
      (adjustProtection m vma (m.attributeTable (pageNumber vma) ||| b)) := by
  apply hm.adjust
  intro _ hmark
  rw [hm.or, Bool.or_eq_false_iff] at hmark
  exact Or.inr ⟨hex, hmark.1⟩

/-! ### Creation and destruction -/

theorem setCreated (faultp : Bool) : Carries mark fine m (VM.setCreated m vma faultp false) :=
  hm.adjust_marked (hm.default _ faultp)

/-- The pages of a fresh wad do not exist, but for the one that is created. -/
theorem ensureVirtualAddress (vma : Nat) (faultp : Bool) :
    Carries mark fine m (VM.ensureVirtualAddress m vma faultp).1 := by
  unfold VM.ensureVirtualAddress
  dsimp only
  split
  · next hex =>
    split
    · exact Carries.refl m
    · exact hm.adjust_or hex
  · split
    · exact hm.setCreated faultp
    · next hwad =>
      intro p hp hex hmark
      simp only [Memory.setAttribute, Memory.mapWad] at hex hmark
      split at hex
      · next heq =>
        rw [if_pos heq, hm.default] at hmark
        cases hmark
      · next hne =>
        rw [if_neg hne] at hmark
        refine Or.inr ⟨hex, hmark, ?_⟩
        intro a ha
        have hother : wadNumber a ≠ wadNumber vma := by
          intro heq
          apply hwad
          refine wadCreated_iff.mpr ⟨p, ?_, hex⟩
          rw [← ha, pageNumber_div, heq]
        simp only [Memory.setAttribute, Memory.mapWad]
        rw [if_neg hother, if_neg hother]
        exact ⟨rfl, rfl⟩

theorem destroyVirtualAddress (vma : Nat) :
    Carries mark fine m (VM.destroyVirtualAddress m vma).1 := by
  have hcleared : Carries mark fine m (if created m vma = true then clearCreated m vma else m) := by
    split
    · apply hm.adjust
      intro hex
      exact absurd hex (by decide)
    · exact Carries.refl m
  unfold VM.destroyVirtualAddress
  dsimp only
  generalize (if created m vma = true then clearCreated m vma else m) = m₁ at *
  split
  · exact hcleared
  · next hwad =>
    -- the wad has no page any more
    apply hm.trans hcleared
    intro p hp hex hmark
    refine Or.inr ⟨hex, hmark, ?_⟩
    intro a ha
    have hother : wadNumber a ≠ wadNumber vma := by
      intro heq
      apply hwad
      refine wadCreated_iff.mpr ⟨p, ?_, hex⟩
      rw [← ha, pageNumber_div, heq]
    simp only [Memory.unmapWad]
    rw [if_neg hother, if_neg hother]
    exact ⟨rfl, rfl⟩

theorem ensurePages (faultp : Bool) (pages vma result : Nat) :
    Carries mark fine m (VM.ensurePages faultp pages m vma result).1 := by
  induction pages generalizing m vma result with
  | zero => exact Carries.refl m
  | succ pages ih => exact hm.trans (hm.ensureVirtualAddress vma faultp) (ih _ _)

theorem destroyPages (pages vma result : Nat) :
    Carries mark fine m (VM.destroyPages pages m vma result).1 := by
  induction pages generalizing m vma result with
  | zero => exact Carries.refl m
  | succ pages ih =>
      unfold VM.destroyPages
      dsimp only
      apply hm.trans _ (ih _ _)
      split
      · exact hm.destroyVirtualAddress vma
      · exact Carries.refl m

/-! ### Words and accessible pages -/

/-- Words are stored in a page with the mark, or in one that does not exist. -/
theorem writeWords {count : Nat} {data : Nat → Integer} {tag : Nat → Tag}
    (hpage : ∀ a, vma ≤ a → a < vma + count →
      vmExists (m.attributeTable (pageNumber a)) = true →
        mark (m.attributeTable (pageNumber a)) = true) :
    Carries mark fine m (m.writeWords vma count data tag) := by
  intro p hp hex hmark
  refine Or.inr ⟨hex, hmark, ?_⟩
  intro a ha
  have hout : ¬ (vma ≤ a ∧ a < vma + count) := by
    intro hin
    have hmarked := hpage a hin.1 hin.2 (by rw [ha]; exact hex)
    rw [ha] at hmarked
    exact absurd hmarked (by rw [show mark (m.attributeTable p) = false from hmark]; decide)
  simp only [Memory.writeWords]
  rw [if_neg hout, if_neg hout]
  exact ⟨rfl, rfl⟩

theorem readUncached (vma : Nat) : Carries mark fine m (virtualMemoryReadUncached m vma).1 := by
  unfold virtualMemoryReadUncached
  dsimp only
  split
  · exact (Carries.refl m).congr hm rfl rfl rfl
  · exact Carries.refl m

theorem writeUncached (object : LispObj)
    (hpage : created m vma = true → mark (m.attributeTable (pageNumber vma)) = true) :
    Carries mark fine m (virtualMemoryWriteUncached m vma object) := by
  have hwrite : Carries mark fine m
      (m.writeWords vma 1 (fun _ => object.data) fun _ => object.tag) := by
    apply hm.writeWords
    intro a hle hlt hex
    obtain rfl : a = vma := by omega
    exact hpage hex
  apply hwrite.congr hm
  · unfold virtualMemoryWriteUncached
    dsimp only
    split <;> rfl
  · unfold virtualMemoryWriteUncached
    dsimp only
    split <;> rfl
  · unfold virtualMemoryWriteUncached
    dsimp only
    split <;> rfl

theorem makeAccessible (vma : Nat) : Carries mark fine m (VM.makeAccessible m vma) := by
  have hmarked : ∀ a b, mark (a ||| (.ephemeral ||| .modified) ||| b) = true := by
    intro a b
    rw [hm.or, hm.or, hm.both, Bool.or_true, Bool.true_or]
  unfold VM.makeAccessible
  dsimp only
  split
  · exact Carries.refl m
  · split
    · split
      · exact hm.adjust_marked (hmarked _ _)
      · exact Carries.refl m
    · split
      · apply hm.adjust_marked
        rw [hm.or, hm.both, Bool.or_true]
      · exact Carries.refl m

theorem makePagesAccessible (pages vma : Nat) :
    Carries mark fine m (VM.makePagesAccessible pages m vma) := by
  induction pages generalizing m vma with
  | zero => exact Carries.refl m
  | succ pages ih => exact hm.trans (hm.makeAccessible vma) (ih _)

/-! ### Scans -/

theorem disableTransport (vma : Nat) :
    Carries mark fine m (VM.disableTransport m (pageNumber vma) vma) := by
  unfold VM.disableTransport
  dsimp only
  split
  · apply hm.adjust
    intro hex hmark
    unfold setVMTransportDisable at hex hmark
    rw [vmExists_or, show vmExists .transportDisable = false by decide, Bool.or_false] at hex
    rw [hm.or, Bool.or_eq_false_iff] at hmark
    exact Or.inr ⟨hex, hmark.1⟩
  · exact Carries.refl m

theorem clearTransport (attr : Nat) : Carries mark fine m (VM.clearTransport m attr) := by
  intro p hp hex hmark
  have hpage : SamePage m (VM.clearTransport m attr) p := SamePage.of_spaces rfl rfl p
  unfold VM.clearTransport Memory.setAttribute at hex hmark
  dsimp only at hex hmark
  split at hex
  · next heq =>
    rw [if_pos heq, hm.cleared] at hmark
    rw [vmExists_clearTransport] at hex
    subst heq
    exact Or.inr ⟨hex, hmark, hpage⟩
  · next hne =>
    rw [if_neg hne] at hmark
    exact Or.inr ⟨hex, hmark, hpage⟩

end Marking

theorem disableTransport_spaces (m : Memory) (attr vma : Nat) :
    (disableTransport m attr vma).dataSpace = m.dataSpace ∧
      (disableTransport m attr vma).tagSpace = m.tagSpace := by
  unfold disableTransport
  dsimp only
  split
  · exact ⟨adjustProtection_dataSpace m vma _, adjustProtection_tagSpace m vma _⟩
  · exact ⟨rfl, rfl⟩

theorem updatePage_spaces (m : Memory) (scanvma : Nat) (ephemeral : Bool) :
    (updatePage m scanvma ephemeral).dataSpace = m.dataSpace ∧
      (updatePage m scanvma ephemeral).tagSpace = m.tagSpace := by
  have hset : ∀ a b : VMAttribute,
      (if a ≠ b then adjustProtection m scanvma a else m).dataSpace = m.dataSpace ∧
        (if a ≠ b then adjustProtection m scanvma a else m).tagSpace = m.tagSpace := by
    intro a b
    split
    · exact ⟨adjustProtection_dataSpace m scanvma a, adjustProtection_tagSpace m scanvma a⟩
    · exact ⟨rfl, rfl⟩
  exact hset _ _

/-- A page that is scanned is left alone, or updated. -/
theorem scanPage_cases (m : Memory) (proc : Processor) (scanvma count : Nat) (update : Bool) :
    (scanPage m proc scanvma count update).1 = m ∨
      ∃ ephemeral, (scanPage m proc scanvma count update).1 = updatePage m scanvma ephemeral := by
  unfold scanPage
  dsimp only
  split
  · exact Or.inl rfl
  · exact Or.inr ⟨true, rfl⟩
  · split
    · exact Or.inr ⟨_, rfl⟩
    · split
      · exact Or.inl rfl
      · exact Or.inr ⟨true, rfl⟩
      · exact Or.inr ⟨_, rfl⟩

theorem scanPage_spaces (m : Memory) (proc : Processor) (scanvma count : Nat) (update : Bool) :
    (scanPage m proc scanvma count update).1.dataSpace = m.dataSpace ∧
      (scanPage m proc scanvma count update).1.tagSpace = m.tagSpace := by
  obtain h | ⟨ephemeral, h⟩ := scanPage_cases m proc scanvma count update
  · rw [h]
    exact ⟨rfl, rfl⟩
  · rw [h]
    exact updatePage_spaces m scanvma ephemeral

theorem NothingBeyond.congr {endvma : Nat} (h : NothingBeyond m endvma)
    (hdata : m'.dataSpace = m.dataSpace) (htag : m'.tagSpace = m.tagSpace) :
    NothingBeyond m' endvma := by
  intro a ha hpage
  rw [(SamePage.of_spaces hdata htag (pageNumber a)).ephemeralReference rfl]
  exact h a ha hpage

/-- The range of a scan, which may be all that is left of it. -/
theorem Marking.scanLoop (hm : Marking mark fine) {proc : Processor} (hlock : Lockstep m)
    {slowp update : Bool} {attrs : VMAttribute} (hattrs : attrs ≠ 0) {scanvma whack count : Nat}
    (hwhack : whack = min (8192 - pageOffset scanvma) count) (hend : scanvma + count ≤ 2 ^ 32)
    (hbeyond : slowp = false → NothingBeyond m (scanvma + count))
    (hwhole : update = true → pageOffset scanvma = 0 ∧ count = 8192) :
    Carries mark fine m
      (VM.scanLoop proc slowp update attrs m (pageNumber scanvma) scanvma whack count).1 := by
  induction count using Nat.strong_induction_on generalizing m scanvma whack with
  | _ count ih =>
    unfold VM.scanLoop
    split
    · next hcount =>
      have hv : scanvma < 2 ^ 32 := by omega
      dsimp only
      have hdis := hlock.disableTransport hv
      have hcarry := hm.disableTransport (m := m) scanvma
      obtain ⟨hdata, htag⟩ := disableTransport_spaces m (pageNumber scanvma) scanvma
      have hattr := disableTransport_attribute m scanvma
      have hover := disableTransport_overridden m scanvma
      rw [← hattr]
      generalize VM.disableTransport m (pageNumber scanvma) scanvma = m₁ at *
      -- the memory after the page
      have hpage : ∃ m₂ found,
          (if m₁.attributeTable (pageNumber scanvma) &&& attrs = attrs then
            if slowp = true then (m₁, slowScanPage m₁ proc scanvma whack)
            else VM.scanPage m₁ proc scanvma whack update
          else if slowp = true then (m₁, none)
          else (VM.clearTransport m₁ (pageNumber scanvma), none)) = (m₂, found) ∧
          Lockstep m₂ ∧ Carries mark fine m₁ m₂ ∧ m₂.dataSpace = m₁.dataSpace ∧
          m₂.tagSpace = m₁.tagSpace := by
        split
        · next hmasked =>
          split
          · exact ⟨m₁, _, rfl, hdis, Carries.refl m₁, rfl, rfl⟩
          · next hslow =>
            have hex : created m₁ scanvma = true := by
              apply hdis.exists_of_has (page_lt hv)
              rw [has, hmasked]
              simpa using hattrs
            have hasks : ScanAsks m₁ scanvma whack update := by
              refine ⟨hcount.2, by omega, ?_, ?_⟩
              · by_cases hlast : whack = count
                · rw [hlast]
                  exact (hbeyond (Bool.eq_false_iff.mpr hslow)).congr hdata htag
                · -- the range goes on with the next page
                  intro a ha hsame
                  unfold pageNumber pageOffset at *
                  omega
              · intro hup
                obtain ⟨hstart, hfull⟩ := hwhole hup
                exact ⟨hstart, by omega⟩
            obtain ⟨hdata', htag'⟩ := scanPage_spaces m₁ proc scanvma whack update
            exact ⟨_, _, rfl, hdis.scanPage hex whack update,
              hm.scan m₁ proc scanvma whack update hex hasks, hdata', htag'⟩
        · split
          · exact ⟨m₁, none, rfl, hdis, Carries.refl m₁, rfl, rfl⟩
          · exact ⟨_, none, rfl, hdis.clearTransport hover, hm.clearTransport _, rfl, rfl⟩
      obtain ⟨m₂, found, hfound, hlock', hcarry', hdata', htag'⟩ := hpage
      rw [hfound]
      have hboth := hm.trans hcarry hcarry'
      cases found with
      | some v => exact hboth
      | none =>
          dsimp only
          by_cases hleft : count - whack = 0
          · rw [hleft]
            unfold VM.scanLoop
            rw [dif_neg (by simp)]
            exact hboth
          · have hnext : pageNumber scanvma + 1 = pageNumber ((scanvma + whack) % 2 ^ 32) := by
              unfold pageNumber pageOffset at *
              omega
            have hstart : (scanvma + whack) % 2 ^ 32 = scanvma + whack :=
              Nat.mod_eq_of_lt (by omega)
            rw [hnext]
            apply hm.trans hboth
            apply ih _ (by omega) hlock'
            · rw [hstart]
              unfold pageOffset at *
              omega
            · omega
            · intro hslow
              rw [hstart, show scanvma + whack + (count - whack) = scanvma + count by omega]
              exact ((hbeyond hslow).congr hdata htag).congr hdata' htag'
            · intro hup
              obtain ⟨hstart, hfull⟩ := hwhole hup
              omega
    · exact Carries.refl m

/-- A scan that asks for whole pages, but for what refers to nothing ephemeral. -/
def ScanCareful (m : Memory) (vma : Nat) (count : Int) (slowp : Bool) : Prop :=
  slowp = false → 0 < count → NothingBeyond m (vma + count.toNat)

theorem Marking.virtualMemoryScan (hm : Marking mark fine) (hlock : Lockstep m)
    (proc : Processor) (hv : vma < 2 ^ 32) {count : Int}
    (hend : count ≤ 0 ∨ vma + count ≤ 2 ^ 32) {slowp : Bool}
    (hcareful : ScanCareful m vma count slowp) :
    Carries mark fine m (VM.virtualMemoryScan m proc vma count slowp).1 := by
  unfold VM.virtualMemoryScan
  dsimp only
  have hattrs : (if slowp = true then VMAttribute.exists
      else if proc.zoneoldspace = 0 then VMAttribute.ephemeral ||| VMAttribute.transportFault
      else VMAttribute.exists ||| VMAttribute.transportFault) ≠ 0 := by
    split
    · decide
    · split <;> decide
  by_cases hagain : count = 0 ∧ pageOffset vma = 0
  · -- the whole page before, or the last one
    simp only [hagain, and_self, decide_true, if_true]
    apply hm.scanLoop hlock hattrs
    · unfold pageOffset at *
      omega
    · unfold pageOffset at *
      omega
    · intro _ a ha hsame
      unfold pageNumber pageOffset at *
      omega
    · intro _
      unfold pageOffset at *
      omega
  · simp only [hagain, decide_false, Bool.false_eq_true, if_false]
    by_cases hpos : 0 < count
    · apply hm.scanLoop hlock hattrs rfl (by omega)
      · exact fun hslow => hcareful hslow hpos
      · intro hup
        cases hup
    · rw [show count.toNat = 0 by omega]
      unfold VM.scanLoop
      rw [dif_neg (by simp)]
      exact Carries.refl m

/-! ### Flips and commands -/

theorem Marking.enableLoop (hm : Marking mark fine) {proc : Processor} (faultp : Bool)
    {n attr : Nat} (hn : attr + n ≤ 2 ^ 19) (hattr : n ≠ 0 → attr = pageNumber vma) :
    Carries mark fine m (VM.enableLoop proc faultp n m attr vma) := by
  induction n generalizing m attr vma with
  | zero => exact Carries.refl m
  | succ n ih =>
      obtain rfl := hattr (by omega)
      have hpage : Carries mark fine m
          (if vmExists (m.attributeTable (pageNumber vma)) &&
              decide (flip proc faultp (m.attributeTable (pageNumber vma)) ≠
                m.attributeTable (pageNumber vma)) then
            adjustProtection m vma (flip proc faultp (m.attributeTable (pageNumber vma)))
          else m) := by
        split
        · apply hm.adjust
          intro hex hmark
          rw [vmExists_flip] at hex
          rw [hm.flipped] at hmark
          exact Or.inr ⟨hex, hmark⟩
        · exact Carries.refl m
      apply hm.trans hpage
      apply ih
      · omega
      · intro hmore
        unfold pageNumber at *
        omega

theorem Marking.virtualMemoryEnable (hm : Marking mark fine) {proc : Processor}
    (hv : vma < 2 ^ 32) (count : Int) (faultp : Bool) :
    Carries mark fine m (VM.virtualMemoryEnable m proc vma count faultp) := by
  have hp := page_lt hv
  unfold VM.virtualMemoryEnable
  apply hm.enableLoop
  · omega
  · intro _
    rfl

/-- What `WriteAttributes` makes of the attributes of a page. -/
def writtenAttributes (vm : VMState) (attr : VMAttribute) : VMAttribute :=
  (vm.attributesRegister.setWidth 8 &&& ~~~(.exists ||| .modified)) |||
    (attr &&& (.exists ||| .modified))

/-- A command takes a mark away only from a page that is fine without it. -/
def CommandCareful (mark : VMAttribute → Bool) (fine : Memory → Nat → Prop) (m : Memory)
    (vm : VMState) (opcode : VMOpcode) (operand : BitVec 19) : Prop :=
  match opcode with
  | .scan => ScanCareful m vm.addressRegister.toNat vm.extentRegister.toInt (operand != 0)
  | .writeAttributes =>
      created m (8192 * operand.toNat) = true →
        mark (m.attributeTable operand.toNat) = true →
          mark (writtenAttributes vm (m.attributeTable operand.toNat)) = false →
            fine m operand.toNat
  | _ => True

theorem Marking.vmCommand (hm : Marking mark fine) (hlock : Lockstep m) {proc : Processor}
    {vm : VMState} {opcode : VMOpcode} {operand : BitVec 19} (hscan : ScanStays vm opcode)
    (hcareful : CommandCareful mark fine m vm opcode operand) :
    Carries mark fine m (VM.vmCommand m proc vm opcode operand).1 := by
  have hv := vm.addressRegister.isLt
  cases opcode with
  | lookup => exact Carries.refl m
  | create =>
      simp only [VM.vmCommand]
      split
      · exact hm.setCreated _
      · exact hm.ensurePages _ _ _ _
  | destroy => exact hm.destroyPages _ _ _
  | readAttributes =>
      simp only [VM.vmCommand]
      split <;> exact Carries.refl m
  | writeAttributes =>
      simp only [VM.vmCommand]
      have hpage : pageNumber (8192 * operand.toNat) = operand.toNat :=
        Nat.mul_div_cancel_left _ (by decide)
      split
      · next hex =>
        split
        · apply hm.adjust
          intro _ hmark
          rw [hpage]
          cases hold : mark (m.attributeTable operand.toNat) with
          | false => exact Or.inr ⟨hex, rfl⟩
          | true =>
              refine Or.inl (hcareful ?_ hold hmark)
              rw [created, hpage]
              exact hex
        · exact Carries.refl m
      · exact Carries.refl m
  | scan =>
      simp only [VM.vmCommand]
      have hkeep := hm.virtualMemoryScan hlock proc hv (hscan rfl) hcareful
      split <;> next heq =>
        rw [heq] at hkeep
        exact hkeep
  | enable => exact hm.virtualMemoryEnable hv _ _
  | phtScan =>
      simp only [VM.vmCommand]
      split <;> exact Carries.refl m

/-! ### Loading a world -/

section World

variable {f : WorldFile} {s s' : Load}

/-- A page that is read is created anew. -/
theorem Marking.readPage (hm : Marking mark fine)
    (hworld : mark (defaultAttributes s.memory.enableIDS false true) = true)
    (hr : s.readPage f = some s') :
    Carries mark fine s.memory s'.memory ∧ s'.memory.enableIDS = s.memory.enableIDS := by
  unfold Load.readPage at hr
  dsimp only at hr
  split at hr
  · cases hr
    have hids := ensureVirtualAddress_enableIDS s.memory s.vma false
    have hensure := hm.ensureVirtualAddress (m := s.memory) s.vma false
    generalize (VM.ensureVirtualAddress s.memory s.vma false).1 = m₁ at *
    generalize hwords : min (8192 - pageOffset s.vma) s.length = words
    have hfill : (s.fill f m₁ words).enableIDS = m₁.enableIDS := rfl
    constructor
    · apply hm.trans hensure
      intro p hp hex hmark
      simp only [Load.advance, VM.setCreated, adjustProtection_attributeTable, hfill, hids]
        at hex hmark
      split at hex
      · next heq =>
        rw [if_pos heq, hworld] at hmark
        cases hmark
      · next hne =>
        rw [if_neg hne] at hmark
        refine Or.inr ⟨hex, hmark, ?_⟩
        -- only words of the page were read
        intro a ha
        have hout : ¬ (s.vma ≤ a ∧ a < s.vma + words) := by
          intro hin
          apply hne
          unfold pageNumber pageOffset at *
          omega
        simp only [Load.advance, VM.setCreated, adjustProtection_dataSpace,
          adjustProtection_tagSpace, Load.fill, Memory.writeWords, hout, if_false, and_self]
    · simp only [Load.advance, VM.setCreated, adjustProtection_enableIDS, hfill, hids]
  · cases hr

/-- The pages of the wads that are mapped are new. -/
theorem Marking.mapWads (hm : Marking mark fine)
    (hworld : mark (defaultAttributes s.memory.enableIDS false true) = true)
    (hend : s.vma + s.length ≤ 2 ^ 32) (hoff : wadOffset s.vma = 0) (hr : s.mapWads f = some s') :
    Carries mark fine s.memory s'.memory ∧ s'.memory.enableIDS = s.memory.enableIDS := by
  obtain ⟨words, table, hpos, hle, hmod, hnone, htable, rfl⟩ := Load.mapWads_some hoff hr
  refine ⟨?_, rfl⟩
  intro p hp hex hmark
  simp only [Load.advance, htable (by omega)] at hex hmark
  split at hex
  · next hin =>
    rw [if_pos hin, hworld] at hmark
    cases hmark
  · next hout =>
    rw [if_neg hout] at hmark
    refine Or.inr ⟨hex, hmark, ?_⟩
    intro a ha
    have houtside : ¬ (s.vma ≤ a ∧ a < s.vma + words) := by
      unfold wadOffset at hoff
      unfold pageNumber at ha
      omega
    simp only [Load.advance, Load.fill, Memory.writeWords, houtside, if_false, and_self]

theorem Marking.loadLoop (hm : Marking mark fine)
    (hworld : mark (defaultAttributes s.memory.enableIDS false true) = true)
    (hend : s.vma + s.length ≤ 2 ^ 32) (hr : Load.loop f s = some s') :
    Carries mark fine s.memory s'.memory := by
  induction hn : s.length using Nat.strong_induction_on generalizing s with
  | _ n ih =>
    subst hn
    unfold Load.loop at hr
    split at hr
    · cases hr
      exact Carries.refl _
    · next hlen =>
      split at hr
      · cases hr
      · next s₁ hround =>
        obtain ⟨words, hwords⟩ := Load.round_spec hend hlen hround
        have hlength := hwords.length
        have hvma := hwords.vma
        have hle := hwords.words_le
        have hpos := hwords.words_pos
        have hfirst : Carries mark fine s.memory s₁.memory ∧
            s₁.memory.enableIDS = s.memory.enableIDS := by
          unfold Load.round at hround
          split at hround
          · exact hm.readPage hworld hround
          · next htest =>
            apply hm.mapWads hworld hend _ hround
            by_contra hoff
            exact htest (Or.inl hoff)
        obtain ⟨hcarry, hids⟩ := hfirst
        by_cases hlast : s₁.length = 0
        · rw [Load.loop, dif_pos hlast] at hr
          cases hr
          exact hcarry
        · rw [← hids] at hworld
          exact hm.trans hcarry (ih s₁.length (by omega) hworld (by omega) hr rfl)

end World

/-! ### Operations -/

/-- What an operation has to respect: words are written past the protection, and marks cleared,
only where the mark is not needed; and a world ends with the address space. -/
def Op.Careful (mark : VMAttribute → Bool) (fine : Memory → Nat → Prop) (m : Memory) : Op → Prop
  | .mapWorldLoad vma length _ _ _ =>
      vma.toNat + length.toInt.toNat ≤ 2 ^ 32 ∧
        mark (defaultAttributes m.enableIDS false true) = true
  | .vmCommand _ vm opcode operand => CommandCareful mark fine m vm opcode operand
  | .virtualMemoryWriteUncached vma _ =>
      created m vma.toNat = true → mark (m.attributeTable (pageNumber vma.toNat)) = true
  | _ => True

theorem Marking.apply (hm : Marking mark fine) (hlock : Lockstep m) {op : Op}
    (hstays : op.Stays m) (hcareful : op.Careful mark fine m) (h : op.apply m = some m') :
    Carries mark fine m m' := by
  cases op with
  | ensureVirtualAddress vma faultp =>
      cases h
      exact hm.ensureVirtualAddress _ _
  | ensureVirtualAddressRange vma count faultp =>
      cases h
      exact hm.ensurePages _ _ _ _
  | destroyVirtualAddress vma =>
      cases h
      exact hm.destroyVirtualAddress _
  | destroyVirtualAddressRange vma count =>
      cases h
      exact hm.destroyPages _ _ _
  | mapWorldLoad vma length worldfile dataoffset tagoffset =>
      obtain ⟨⟨m₁, result⟩, hload, heq⟩ := Option.map_eq_some_iff.mp h
      cases heq
      obtain ⟨s', hs', heq⟩ := Option.map_eq_some_iff.mp hload
      cases heq
      exact hm.loadLoop hcareful.2 hcareful.1 hs'
  | vmCommand proc vm opcode operand =>
      cases h
      exact hm.vmCommand hlock hstays hcareful
  | virtualMemoryReadUncached vma =>
      cases h
      exact hm.readUncached _
  | virtualMemoryWriteUncached vma object =>
      cases h
      exact hm.writeUncached object hcareful
  | ensureVirtualMemoryAccessible vma count =>
      cases h
      exact hm.makePagesAccessible _ _

/-! ### The two marks -/

/-- The page refers to nothing ephemeral. -/
def RefersToNothingEphemeral (m : Memory) (p : Nat) : Prop :=
  ∀ a, pageNumber a = p → ephemeralReference m a = false

theorem updatePage_ephemeral {scanvma : Nat} (ephemeral : Bool) :
    vmEphemeral ((updatePage m scanvma ephemeral).attributeTable (pageNumber scanvma)) =
      ephemeral := by
  rw [updatePage_attributeTable]
  exact (updated_attributes _ ephemeral).2.2.2

theorem updatePage_modified {scanvma : Nat} (ephemeral : Bool) :
    vmModified ((updatePage m scanvma ephemeral).attributeTable (pageNumber scanvma)) =
      vmModified (m.attributeTable (pageNumber scanvma)) := by
  have hkept : ∀ (a : VMAttribute) (ephemeral : Bool), vmModified (if ephemeral then
        setVMEphemeral (clearVMTransportDisable (clearVMTransportFault a))
      else clearVMEphemeral (clearVMTransportDisable (clearVMTransportFault a))) =
        vmModified a := by
    decide +kernel
  rw [updatePage_attributeTable, hkept]

theorem updatePage_other {scanvma : Nat} (ephemeral : Bool) (hp : p ≠ pageNumber scanvma) :
    (updatePage m scanvma ephemeral).attributeTable p = m.attributeTable p := by
  have hset : ∀ a b : VMAttribute, (if a ≠ b then adjustProtection m scanvma a
      else m).attributeTable p = m.attributeTable p := by
    intro a b
    split
    · rw [adjustProtection_attributeTable, if_neg hp]
    · rfl
  exact hset _ _

/-- Before the page loses its mark, the scan has seen all of it that may refer to anything. -/
theorem scanPage_seen (proc : Processor) {scanvma count : Nat} {update : Bool}
    (hasks : ScanAsks m scanvma count update) :
    (scanPage m proc scanvma count update).1 = m ∨
      ∃ ephemeral, (scanPage m proc scanvma count update).1 = updatePage m scanvma ephemeral ∧
        (ephemeral = false → RefersToNothingEphemeral m (pageNumber scanvma)) := by
  obtain ⟨hsome, hinside, hbeyond, hwhole⟩ := hasks
  cases update with
  | false =>
      cases hslow : slowScanPage m proc scanvma count with
      | some v =>
          left
          rw [scanPage_some hslow]
      | none =>
          right
          obtain ⟨ephemeral, hscan, hseen⟩ := scanPage_none hslow
          refine ⟨ephemeral, by rw [hscan], ?_⟩
          intro hnone a ha
          rw [hnone] at hseen
          by_contra href
          rw [Bool.not_eq_false] at href
          have hend : scanvma + count ≤ scanned scanvma count := by
            unfold scanned
            omega
          by_cases hin : a < scanned scanvma count
          · refine absurd (hseen.mpr ⟨a, ?_, hin, href⟩) Bool.false_ne_true
            unfold pageNumber at ha
            unfold pageOffset
            omega
          · rw [hbeyond a (by omega) (by
              unfold pageNumber pageOffset at *
              omega)] at href
            cases href
  | true =>
      right
      obtain ⟨hstart, rfl⟩ := hwhole rfl
      have hcover : (scanGroups m proc scanvma (scanvma + 8192) true (scanvma + 8192)
          (scanvma - scanvma % 8) false).Covers m proc scanvma (scanvma + 8192) true
          (scanvma - scanvma % 8)
          (max (scanvma - scanvma % 8) (8 * ((scanvma + 8192 + 7) / 8))) false :=
        scanGroups_covers (by omega) false
      unfold scanPage
      dsimp only
      generalize scanGroups m proc scanvma (scanvma + 8192) true (scanvma + 8192)
        (scanvma - scanvma % 8) false = pass at *
      cases pass with
      | hit v => exact absurd hcover.1 (by decide)
      | done => exact ⟨true, rfl, fun h => Bool.noConfusion h⟩
      | on found =>
          refine ⟨found, rfl, ?_⟩
          intro hnone a ha
          by_contra href
          rw [Bool.not_eq_false] at href
          rw [hnone] at hcover
          refine absurd (hcover.2.mpr (Or.inr ⟨a, ?_, ?_, href⟩)) Bool.false_ne_true
          · unfold pageNumber pageOffset at *
            omega
          · unfold pageNumber pageOffset at *
            omega

/-- A flip is about the transport bits. -/
theorem mark_flip (hset : ∀ a, mark (setVMTransportDisable (setVMTransportFault a)) = mark a)
    (harm : ∀ a, mark (clearVMTransportDisable (setVMTransportFault a)) = mark a)
    (hclear : ∀ a, mark (clearVMTransportFault (clearVMTransportDisable a)) = mark a)
    (proc : Processor) (faultp : Bool) (a : VMAttribute) :
    mark (flip proc faultp a) = mark a := by
  unfold flip
  split
  · split
    · exact hset a
    · split
      · exact harm a
      · exact hclear a
  · split
    · exact hset a
    · exact harm a

theorem vmEphemeral_eq (a : VMAttribute) : vmEphemeral a = a.getLsbD 4 := by
  revert a
  decide +kernel

theorem vmModified_eq (a : VMAttribute) : vmModified a = a.getLsbD 5 := by
  revert a
  decide +kernel

theorem marking_ephemeral : Marking vmEphemeral RefersToNothingEphemeral := by
  constructor
  · intro a b
    rw [vmEphemeral_eq, vmEphemeral_eq, vmEphemeral_eq, BitVec.getLsbD_or]
  · decide
  · decide
  · decide +kernel
  · exact mark_flip (by decide +kernel) (by decide +kernel) (by decide +kernel)
  · intro m m' p hpage hfine a ha
    rw [hpage.ephemeralReference ha]
    exact hfine a ha
  · intro m proc scanvma count update hex hasks p hp hex' hmark
    obtain h | ⟨ephemeral, h, hseen⟩ := scanPage_seen proc hasks
    · rw [h] at hex' hmark ⊢
      exact Or.inr ⟨hex', hmark, SamePage.refl m p⟩
    · rw [h] at hex' hmark ⊢
      obtain ⟨hdata, htag⟩ := updatePage_spaces m scanvma ephemeral
      have hpage := SamePage.of_spaces hdata htag p
      by_cases heq : p = pageNumber scanvma
      · subst heq
        rw [updatePage_ephemeral] at hmark
        left
        intro a ha
        rw [hpage.ephemeralReference ha]
        exact hseen hmark a ha
      · rw [updatePage_other ephemeral heq] at hex' hmark
        exact Or.inr ⟨hex', hmark, hpage⟩

theorem marking_modified : Marking vmModified fun _ _ => False := by
  constructor
  · intro a b
    rw [vmModified_eq, vmModified_eq, vmModified_eq, BitVec.getLsbD_or]
  · decide
  · decide
  · decide +kernel
  · exact mark_flip (by decide +kernel) (by decide +kernel) (by decide +kernel)
  · intro m m' p hpage hfine
    exact hfine
  · intro m proc scanvma count update hex hasks p hp hex' hmark
    obtain h | ⟨ephemeral, h⟩ := scanPage_cases m proc scanvma count update
    · rw [h] at hex' hmark ⊢
      exact Or.inr ⟨hex', hmark, SamePage.refl m p⟩
    · rw [h] at hex' hmark ⊢
      obtain ⟨hdata, htag⟩ := updatePage_spaces m scanvma ephemeral
      have hpage := SamePage.of_spaces hdata htag p
      by_cases heq : p = pageNumber scanvma
      · subst heq
        rw [updatePage_modified] at hmark
        exact Or.inr ⟨hex, hmark, hpage⟩
      · rw [updatePage_other ephemeral heq] at hex' hmark
        exact Or.inr ⟨hex', hmark, hpage⟩

end VM
