import Mathlib
import OsxVlm.Library.Execution
import OsxVlm.Memory.Attributes
import OsxVlm.Memory.VirtualMemory
import OsxVlm.Memory.Scan
import OsxVlm.Memory.WorldLoad
import OsxVlm.Memory.Lockstep

/-!
# Every operation keeps the lockstep

The scanners and the flip walk the attribute table with one counter and the
address space with another; as long as both stay together, what they do to the
attributes is done to the page.  A world that is mapped over the end of the
address space marks the first wads and maps none of them.
-/

namespace VM

variable {m m' : Memory} {proc : Processor} {vma : Nat}

/-! ### Scans -/

/-- Attributes that are not zero belong to a page that exists. -/
theorem Lockstep.exists_of_has (h : Lockstep m) {p : Nat} (hp : p < 2 ^ 19) {bit : VMAttribute}
    (hbit : has (m.attributeTable p) bit = true) : vmExists (m.attributeTable p) = true := by
  by_contra hno
  rw [h.absent p hp (by simpa using hno)] at hbit
  simp [has] at hbit

theorem Lockstep.updatePage (h : Lockstep m) {scanvma : Nat} (hex : created m scanvma = true)
    (ephemeral : Bool) : Lockstep (updatePage m scanvma ephemeral) := by
  unfold VM.updatePage
  dsimp only
  split
  · apply h.adjust_changed _ hex
    rw [vmExists_setEphemeral, vmExists_clearTransport]
    exact hex
  · apply h.adjust_changed _ hex
    rw [vmExists_clearEphemeral, vmExists_clearTransport]
    exact hex

theorem Lockstep.scanPage (h : Lockstep m) {scanvma : Nat} (hex : created m scanvma = true)
    (count : Nat) (update : Bool) : Lockstep (scanPage m proc scanvma count update).1 := by
  unfold VM.scanPage
  dsimp only
  split
  · exact h
  · exact h.updatePage hex true
  · split
    · exact h.updatePage hex _
    · split
      · exact h
      · exact h.updatePage hex true
      · exact h.updatePage hex _

theorem Lockstep.disableTransport (h : Lockstep m) (hv : vma < 2 ^ 32) :
    Lockstep (disableTransport m (pageNumber vma) vma) := by
  unfold VM.disableTransport
  dsimp only
  split
  · next hcond =>
    rw [Bool.and_eq_true] at hcond
    have hex := h.exists_of_has (page_lt hv) hcond.1
    apply h.adjust_existing _ hex
    rw [setVMTransportDisable, vmExists_or, hex, Bool.true_or]
  · exact h

/-- After it, faults of the page are off or overridden. -/
theorem disableTransport_attribute (m : Memory) (vma : Nat) :
    (disableTransport m (pageNumber vma) vma).attributeTable (pageNumber vma) =
      if vmTransportFault (m.attributeTable (pageNumber vma)) &&
          !vmTransportDisable (m.attributeTable (pageNumber vma)) then
        setVMTransportDisable (m.attributeTable (pageNumber vma))
      else m.attributeTable (pageNumber vma) := by
  unfold VM.disableTransport
  dsimp only
  split
  · rw [adjustProtection_attributeTable, if_pos rfl]
  · rfl

theorem disableTransport_overridden (m : Memory) (vma : Nat)
    (hfault : vmTransportFault
      ((disableTransport m (pageNumber vma) vma).attributeTable (pageNumber vma)) = true) :
    vmTransportDisable
      ((disableTransport m (pageNumber vma) vma).attributeTable (pageNumber vma)) = true := by
  rw [disableTransport_attribute] at hfault ⊢
  split
  · exact vmTransportDisable_set _
  · next hcond =>
    rw [if_neg hcond] at hfault
    simpa [hfault] using hcond

/-- The store without `mprotect` is right where faults are overridden. -/
theorem Lockstep.clearTransport (h : Lockstep m) {attr : Nat}
    (hover : vmTransportFault (m.attributeTable attr) = true →
      vmTransportDisable (m.attributeTable attr) = true) :
    Lockstep (VM.clearTransport m attr) := by
  have hexists : ∀ p, vmExists ((VM.clearTransport m attr).attributeTable p) =
      vmExists (m.attributeTable p) := by
    intro p
    simp only [VM.clearTransport, Memory.setAttribute]
    split
    · next heq => rw [vmExists_clearTransport, heq]
    · rfl
  constructor
  · intro w hw
    simp only [hexists]
    exact h.mapped_iff w hw
  · intro p hp hex
    rw [hexists] at hex
    simp only [VM.clearTransport, Memory.setAttribute]
    split
    · next heq =>
      subst heq
      rw [computeProtection_clear _ hover]
      exact h.protection p hp hex
    · exact h.protection p hp hex
  · intro p hp hex
    rw [hexists] at hex
    simp only [VM.clearTransport, Memory.setAttribute]
    split
    · next heq =>
      subst heq
      rw [h.absent p hp hex]
      decide
    · exact h.absent p hp hex

/-- One page of a scan whose two counters are together. -/
theorem Lockstep.scanLoop (h : Lockstep m) {slowp update : Bool} {mask : VMAttribute}
    (hmask : mask ≠ 0) {scanvma whack count : Nat}
    (hwhack : whack = min (8192 - pageOffset scanvma) count)
    (hend : scanvma + count ≤ 2 ^ 32) :
    Lockstep (scanLoop proc slowp update mask m (pageNumber scanvma) scanvma whack count).1 := by
  induction count using Nat.strong_induction_on generalizing m scanvma whack with
  | _ count ih =>
    unfold VM.scanLoop
    split
    · next hcount =>
      have hv : scanvma < 2 ^ 32 := by omega
      dsimp only
      have hdis := h.disableTransport hv
      have hattr := disableTransport_attribute m scanvma
      have hover := disableTransport_overridden m scanvma
      rw [← hattr]
      generalize VM.disableTransport m (pageNumber scanvma) scanvma = m₁ at *
      -- the memory after the page
      have hpage : Lockstep
          (if m₁.attributeTable (pageNumber scanvma) &&& mask = mask then
            if slowp = true then (m₁, slowScanPage m₁ proc scanvma whack)
            else VM.scanPage m₁ proc scanvma whack update
          else if slowp = true then (m₁, none)
          else (VM.clearTransport m₁ (pageNumber scanvma), none)).1 := by
        split
        · next hmasked =>
          split
          · exact hdis
          · apply hdis.scanPage
            apply hdis.exists_of_has (page_lt hv)
            rw [has, hmasked]
            simpa using hmask
        · split
          · exact hdis
          · exact hdis.clearTransport hover
      split
      · exact hpage
      · by_cases hleft : count - whack = 0
        · rw [hleft]
          unfold VM.scanLoop
          rw [dif_neg (by simp)]
          exact hpage
        · have hnext : pageNumber scanvma + 1 = pageNumber ((scanvma + whack) % 2 ^ 32) := by
            unfold pageNumber pageOffset at *
            omega
          rw [hnext]
          apply ih _ (by omega) hpage
          · unfold pageOffset at *
            omega
          · omega
    · exact h

/-- A scan whose range ends inside the address space. -/
theorem Lockstep.virtualMemoryScan (h : Lockstep m) (proc : Processor) (hv : vma < 2 ^ 32)
    {count : Int} (hend : count ≤ 0 ∨ vma + count ≤ 2 ^ 32) (slowp : Bool) :
    Lockstep (virtualMemoryScan m proc vma count slowp).1 := by
  unfold VM.virtualMemoryScan
  dsimp only
  have hmask : (if slowp = true then VMAttribute.exists
      else if proc.zoneoldspace = 0 then VMAttribute.ephemeral ||| VMAttribute.transportFault
      else VMAttribute.exists ||| VMAttribute.transportFault) ≠ 0 := by
    split
    · decide
    · split <;> decide
  by_cases hagain : count = 0 ∧ pageOffset vma = 0
  · -- the page before, or the last one
    simp only [hagain, and_self, decide_true, if_true]
    apply h.scanLoop hmask
    · unfold pageOffset at *
      omega
    · unfold pageOffset at *
      omega
  · simp only [hagain, decide_false, Bool.false_eq_true, if_false]
    apply h.scanLoop hmask rfl
    omega

/-! ### Flips -/

theorem vmExists_flip (faultp : Bool) (a : VMAttribute) :
    vmExists (flip proc faultp a) = vmExists a := by
  have hset : ∀ a, vmExists (setVMTransportDisable (setVMTransportFault a)) = vmExists a := by
    decide +kernel
  have harm : ∀ a, vmExists (clearVMTransportDisable (setVMTransportFault a)) = vmExists a := by
    decide +kernel
  have hclear : ∀ a, vmExists (clearVMTransportFault (clearVMTransportDisable a)) = vmExists a := by
    decide +kernel
  unfold flip
  split
  · split
    · exact hset a
    · split
      · exact harm a
      · exact hclear a
  · split
    · exact hset a
    · exact harm a

/-- The loop stops at the end of the table, and with it of the address space. -/
theorem Lockstep.enableLoop (h : Lockstep m) (faultp : Bool) {n attr : Nat}
    (hn : attr + n ≤ 2 ^ 19) (hattr : n ≠ 0 → attr = pageNumber vma) :
    Lockstep (enableLoop proc faultp n m attr vma) := by
  induction n generalizing m attr vma with
  | zero => exact h
  | succ n ih =>
      obtain rfl := hattr (by omega)
      unfold VM.enableLoop
      dsimp only
      apply ih
      · split
        · next hcond =>
          rw [Bool.and_eq_true] at hcond
          apply h.adjust_existing _ hcond.1
          rw [vmExists_flip]
          exact hcond.1
        · exact h
      · omega
      · intro hmore
        unfold pageNumber at *
        omega

theorem Lockstep.virtualMemoryEnable (h : Lockstep m) (hv : vma < 2 ^ 32) (count : Int)
    (faultp : Bool) : Lockstep (virtualMemoryEnable m proc vma count faultp) := by
  have hp := page_lt hv
  unfold VM.virtualMemoryEnable
  apply h.enableLoop
  · omega
  · intro _
    rfl

/-! ### Commands -/

/-- Written attributes keep the exists bit. -/
theorem vmExists_kept (a attr : VMAttribute) :
    vmExists ((a &&& ~~~(.exists ||| .modified)) ||| (attr &&& (.exists ||| .modified))) =
      vmExists attr := by
  simp [vmExists_eq, VMAttribute.exists, VMAttribute.modified]

/-- A scan asks for nothing beyond the address space. -/
def ScanStays (vm : VMState) (opcode : VMOpcode) : Prop :=
  opcode = .scan → vm.extentRegister.toInt ≤ 0 ∨
    vm.addressRegister.toNat + vm.extentRegister.toInt ≤ 2 ^ 32

theorem Lockstep.vmCommand (h : Lockstep m) {vm : VMState} {opcode : VMOpcode}
    (hscan : ScanStays vm opcode) (operand : BitVec 19) :
    Lockstep (vmCommand m proc vm opcode operand).1 := by
  have hv := vm.addressRegister.isLt
  cases opcode with
  | lookup => exact h
  | create =>
      simp only [VM.vmCommand]
      split
      · next hcond =>
        rw [Bool.and_eq_true] at hcond
        exact h.setCreated hcond.1 _ _
      · exact h.ensurePages _ _ _ _
  | destroy => exact h.destroyPages hv _ _
  | readAttributes =>
      simp only [VM.vmCommand]
      split <;> exact h
  | writeAttributes =>
      simp only [VM.vmCommand]
      split
      · next hex =>
        have hpage : pageNumber (8192 * operand.toNat) = operand.toNat :=
          Nat.mul_div_cancel_left _ (by decide)
        split
        · apply h.adjust_existing
          · rw [vmExists_kept, hex]
          · rw [created, hpage, hex]
        · exact h
      · exact h
  | scan =>
      simp only [VM.vmCommand]
      have hkeep := h.virtualMemoryScan proc hv (hscan rfl) (operand != 0)
      split <;> next heq =>
        rw [heq] at hkeep
        exact hkeep
  | enable => exact h.virtualMemoryEnable hv _ _
  | phtScan =>
      simp only [VM.vmCommand]
      split <;> exact h

/-! ### Loading a world -/

variable {f : WorldFile} {s s' : Load}

theorem ensureVirtualAddress_created (faultp : Bool) :
    created (ensureVirtualAddress m vma faultp).1 vma = true := by
  unfold VM.ensureVirtualAddress
  dsimp only
  split
  · next hex =>
    split
    · exact hex
    · rw [created, adjustProtection_attributeTable, if_pos rfl, vmExists_or, hex, Bool.true_or]
  · split
    · rw [created, setCreated, adjustProtection_attributeTable, if_pos rfl]
      exact vmExists_default _ _ _
    · simp only [created, Memory.setAttribute, if_true]
      exact vmExists_default _ _ _

theorem wadCreated_mono (h : ∀ a, created m a = true → created m' a = true) {a : Nat}
    (ha : wadCreated m' a = false) : wadCreated m a = false := by
  by_contra hwad
  obtain ⟨p, hp, hex⟩ := wadCreated_iff.mp (by simpa using hwad)
  have hpage : pageNumber (8192 * p) = p := Nat.mul_div_cancel_left _ (by decide)
  have hkept := h (8192 * p) (by rw [created, hpage, hex])
  rw [created, hpage] at hkept
  rw [wadCreated_iff.mpr ⟨p, hp, hkept⟩] at ha
  cases ha

/-- The range goes on over the end of the address space through a last and a first
wad that have no page. -/
def CrossesEnd (m : Memory) (vma length : Nat) : Prop :=
  vma ≤ 0xFFFF0000 ∧ 2 ^ 32 + 65536 ≤ vma + length ∧
    wadCreated m 0xFFFF0000 = false ∧ wadCreated m 0 = false

/-- A piece up to the end does not bring a range over it. -/
theorem CrossesEnd.back {length words : Nat} (hkeeps : ∀ a, created m a = true → created m' a = true)
    (hlen : length < 2 ^ 31) (hend : vma + words ≤ 2 ^ 32) (hwords : words ≤ length)
    (h : CrossesEnd m' ((vma + words) % 2 ^ 32) (length - words)) : CrossesEnd m vma length := by
  obtain ⟨hvma, hover, hlast, hfirst⟩ := h
  refine ⟨by omega, by omega, wadCreated_mono hkeeps hlast, wadCreated_mono hkeeps hfirst⟩

/-- What is left to load after a piece inside the address space. -/
structure Loads (s : Load) : Prop where
  lockstep : Lockstep s.memory
  vma_lt : s.vma < 2 ^ 32
  length_lt : s.length < 2 ^ 31
  ends : ¬ CrossesEnd s.memory s.vma s.length

theorem Loads.advance (h : Loads s) {words : Nat} (hm : Lockstep m)
    (hkeeps : ∀ a, created s.memory a = true → created m a = true)
    (hend : s.vma + words ≤ 2 ^ 32) (hwords : words ≤ s.length) : Loads (s.advance m words) := by
  have hlen := h.length_lt
  constructor
  · exact hm
  · exact Nat.mod_lt _ (by decide)
  · simp only [Load.advance]
    omega
  · intro hcross
    exact h.ends (hcross.back hkeeps hlen hend hwords)

theorem Loads.readPage (h : Loads s) (hr : s.readPage f = some s') : Loads s' := by
  have hv := h.vma_lt
  unfold Load.readPage at hr
  dsimp only at hr
  split at hr
  · cases hr
    apply h.advance
    · apply ((h.lockstep.ensureVirtualAddress s.vma false).writeWords _ _ _ _).setCreated
      exact wadCreated_of_created (ensureVirtualAddress_created false)
    · intro a ha
      by_cases heq : pageNumber a = pageNumber s.vma
      · exact Load.read_created heq
      · rw [created, Load.read_attributeTable_ne heq]
        exact ha
    · unfold pageOffset
      omega
    · omega
  · cases hr

/-- A run of wads without pages is mapped at one protection. -/
theorem Lockstep.mapRun (h : Lockstep m) {words : Nat} {attr : VMAttribute}
    {table : Nat → VMAttribute} (hex : vmExists attr = true) (hoff : vma % 65536 = 0)
    (hwords : words % 65536 = 0)
    (htable : ∀ p, table p =
      if vma ≤ 8192 * p ∧ 8192 * p < vma + words then attr else m.attributeTable p)
    (ha : m'.attributeTable = table)
    (hm : m'.mapped = fun w =>
      if vma / 65536 ≤ w ∧ w < (vma + words) / 65536 then true else m.mapped w)
    (hp : m'.protection = fun p =>
      if vma / 8192 ≤ p ∧ p < (vma + words) / 8192 then computeProtection attr
      else m.protection p) : Lockstep m' := by
  constructor
  · intro w hw
    simp only [hm, ha, htable]
    split
    · next hin =>
      simp only [true_iff]
      refine ⟨8 * w, by omega, ?_⟩
      rw [if_pos (by omega)]
      exact hex
    · next hout =>
      rw [h.mapped_iff w hw]
      apply exists_congr
      intro p
      apply and_congr_right
      intro hpw
      rw [if_neg (by omega)]
  · intro p hlt hexp
    simp only [ha, hp, htable] at hexp ⊢
    by_cases hin : vma ≤ 8192 * p ∧ 8192 * p < vma + words
    · rw [if_pos hin, if_pos (by omega)]
    · rw [if_neg hin] at hexp ⊢
      rw [if_neg (by omega)]
      exact h.protection p hlt hexp
  · intro p hlt hexp
    simp only [ha, htable] at hexp ⊢
    split
    · next hin =>
      rw [if_pos hin, hex] at hexp
      cases hexp
    · next hout =>
      rw [if_neg hout] at hexp
      exact h.absent p hlt hexp

theorem Loads.mapWads (h : Loads s) (hoff : wadOffset s.vma = 0)
    (hr : s.mapWads f = some s') : Loads s' := by
  obtain ⟨words, table, hpos, hle, hmod, hnone, htable, rfl⟩ := Load.mapWads_some hoff hr
  have hv := h.vma_lt
  have hlen := h.length_lt
  unfold wadOffset at hoff
  have hex := vmExists_default s.memory.enableIDS false true
  -- a run over the end would have met no page in the last and in the first wad
  have hend : s.vma + words ≤ 2 ^ 32 := by
    by_contra hover
    apply h.ends
    refine ⟨by omega, by omega, ?_, ?_⟩
    · have hlast := hnone (0xFFFF0000 - s.vma) (by omega) (by omega)
      rw [Nat.add_sub_cancel' (by omega)] at hlast
      exact hlast
    · have hfirst := hnone (2 ^ 32 - s.vma) (by omega) (by omega)
      rw [Nat.add_sub_cancel' (by omega)] at hfirst
      exact hfirst
  have htable := htable hend
  apply h.advance
  · exact h.lockstep.mapRun hex hoff hmod htable rfl rfl rfl
  · intro a ha
    simp only [created, htable]
    split
    · exact hex
    · exact ha
  · exact hend
  · exact hle

theorem Loads.loop (h : Loads s) (hr : Load.loop f s = some s') : Loads s' := by
  induction hn : s.length using Nat.strong_induction_on generalizing s with
  | _ n ih =>
    subst hn
    unfold Load.loop at hr
    split at hr
    · cases hr
      exact h
    · next hlen =>
      split at hr
      · cases hr
      · next s₁ hround =>
        apply ih s₁.length (Load.round_length_lt hlen hround) _ hr rfl
        unfold Load.round at hround
        split at hround
        · exact h.readPage hround
        · next htest =>
          apply h.mapWads _ hround
          by_contra hoff
          exact htest (Or.inl hoff)

theorem Lockstep.mapWorldLoad (h : Lockstep m) (hv : vma < 2 ^ 32) {length : Int}
    (hlen : length < 2 ^ 31) (hends : ¬ CrossesEnd m vma length.toNat)
    {dataoffset tagoffset result : Nat}
    (hr : mapWorldLoad m vma length f dataoffset tagoffset = some (m', result)) : Lockstep m' := by
  obtain ⟨s', hs', heq⟩ := Option.map_eq_some_iff.mp hr
  cases heq
  have hlength : length.toNat < 2 ^ 31 := by omega
  exact (Loads.loop ⟨h, hv, hlength, hends⟩ hs').lockstep

/-! ### Runs -/

/-- What is done to the memory, with arguments of the widths of the source. -/
inductive Op where
  | ensureVirtualAddress (vma : Integer) (faultp : Bool)
  | ensureVirtualAddressRange (vma count : Integer) (faultp : Bool)
  | destroyVirtualAddress (vma : Integer)
  | destroyVirtualAddressRange (vma count : Integer)
  | mapWorldLoad (vma length : Integer) (worldfile : WorldFile) (dataoffset tagoffset : Nat)
  | vmCommand (proc : Processor) (vm : VMState) (opcode : VMOpcode) (operand : BitVec 19)
  | virtualMemoryReadUncached (vma : Integer)
  | virtualMemoryWriteUncached (vma : Integer) (object : LispObj)
  | ensureVirtualMemoryAccessible (vma count : Integer)

/-- The memory after an operation, if the emulator has not punted. -/
def Op.apply (m : Memory) : Op → Option Memory
  | .ensureVirtualAddress vma faultp => some (VM.ensureVirtualAddress m vma.toNat faultp).1
  | .ensureVirtualAddressRange vma count faultp =>
      some (VM.ensureVirtualAddressRange m vma.toNat count.toInt faultp).1
  | .destroyVirtualAddress vma => some (VM.destroyVirtualAddress m vma.toNat).1
  | .destroyVirtualAddressRange vma count =>
      some (VM.destroyVirtualAddressRange m vma.toNat count.toNat).1
  | .mapWorldLoad vma length worldfile dataoffset tagoffset =>
      (VM.mapWorldLoad m vma.toNat length.toInt worldfile dataoffset tagoffset).map Prod.fst
  | .vmCommand proc vm opcode operand => some (VM.vmCommand m proc vm opcode operand).1
  | .virtualMemoryReadUncached vma => some (VM.virtualMemoryReadUncached m vma.toNat).1
  | .virtualMemoryWriteUncached vma object =>
      some (VM.virtualMemoryWriteUncached m vma.toNat object)
  | .ensureVirtualMemoryAccessible vma count =>
      some (VM.ensureVirtualMemoryAccessible m vma.toNat count.toInt)

/-- The operation stays inside the address space. -/
def Op.Stays (m : Memory) : Op → Prop
  | .mapWorldLoad vma length _ _ _ => ¬ CrossesEnd m vma.toNat length.toInt.toNat
  | .vmCommand _ vm opcode _ => ScanStays vm opcode
  | _ => True

theorem Lockstep.apply (h : Lockstep m) {op : Op} (hstays : op.Stays m)
    (hm : op.apply m = some m') : Lockstep m' := by
  cases op with
  | ensureVirtualAddress vma faultp =>
      cases hm
      exact h.ensureVirtualAddress _ _
  | ensureVirtualAddressRange vma count faultp =>
      cases hm
      exact h.ensurePages _ _ _ _
  | destroyVirtualAddress vma =>
      cases hm
      exact h.destroyVirtualAddress vma.isLt
  | destroyVirtualAddressRange vma count =>
      cases hm
      exact h.destroyPages vma.isLt _ _
  | mapWorldLoad vma length worldfile dataoffset tagoffset =>
      obtain ⟨⟨m₁, result⟩, hload, heq⟩ := Option.map_eq_some_iff.mp hm
      cases heq
      exact h.mapWorldLoad vma.isLt BitVec.toInt_lt hstays hload
  | vmCommand proc vm opcode operand =>
      cases hm
      exact h.vmCommand hstays _
  | virtualMemoryReadUncached vma =>
      cases hm
      exact h.readUncached _
  | virtualMemoryWriteUncached vma object =>
      cases hm
      exact h.writeUncached _ _
  | ensureVirtualMemoryAccessible vma count =>
      cases hm
      exact h.makePagesAccessible _ _

/-- Nothing runs after a punt. -/
def step (s : Option Memory) (op : Op) : Option Memory := s.bind op.apply

/-- Every operation of a run stays inside the address space. -/
def Stays (s : Option Memory) (op : Op) : Prop := ∀ m, s = some m → op.Stays m

theorem Lockstep.empty (enableIDS : Bool) : Lockstep (Memory.empty enableIDS) := by
  have hno : ∀ p, vmExists ((Memory.empty enableIDS).attributeTable p) = false := by
    intro p
    change vmExists 0 = false
    decide
  constructor
  · intro w hw
    simp only [hno, Bool.false_eq_true, and_false, exists_false, iff_false]
    intro hmapped
    cases hmapped
  · intro p hp hex
    rw [hno] at hex
    cases hex
  · intro p hp hex
    rfl

/-- The attribute table and the host stay in lockstep as long as no scan and no world
goes over the end of the address space. -/
theorem lockstep_runs (enableIDS : Bool) {ops : List Op}
    (hok : Exec.Allowed step Stays (some (Memory.empty enableIDS)) ops) {m : Memory}
    (hm : Exec.run step (some (Memory.empty enableIDS)) ops = some m) : Lockstep m := by
  have hinv := Exec.run_invariant (I := fun s => ∀ m, s = some m → Lockstep m) ?_ hok ?_
  · exact hinv m hm
  · intro s op hstays hlock m' hm'
    obtain ⟨m, rfl, hop⟩ := Option.bind_eq_some_iff.mp hm'
    exact (hlock m rfl).apply (hstays m rfl) hop
  · intro m hm
    cases hm
    exact Lockstep.empty enableIDS

def sampleOps : List Op :=
  [.ensureVirtualAddress 0x12000 true,
    .vmCommand ⟨0, 0⟩ ⟨0x12000, 8192, 0⟩ .enable 0,
    .vmCommand ⟨0, 0⟩ ⟨0x12000, 8192, 0⟩ .scan 0,
    .destroyVirtualAddressRange 0x12000 8192]

theorem lockstep_sample :
    ∃ m, Exec.run step (some (Memory.empty false)) sampleOps = some m ∧ Lockstep m := by
  have hok : Exec.Allowed step Stays (some (Memory.empty false)) sampleOps := by
    simp only [sampleOps, Exec.Allowed]
    refine ⟨fun _ _ => trivial, ?_, ?_, fun _ _ => trivial, trivial⟩
    · intro m hm hscan
      cases hscan
    · intro m hm hscan
      exact Or.inr (by decide)
  exact ⟨_, rfl, lockstep_runs false hok rfl⟩

theorem Load.loop_one (hlen : s.length ≠ 0) (hr : s.round f = some s') (hdone : s'.length = 0) :
    Load.loop f s = some s' := by
  unfold Load.loop
  rw [dif_neg hlen]
  split
  · next h =>
    rw [hr] at h
    cases h
  · next h =>
    rw [hr] at h
    cases h
    unfold Load.loop
    rw [dif_pos hdone]

/-- Two wads from the last one on: the second is marked as the first wad of the address
space and mapped behind its end. -/
theorem world_over_the_end :
    ¬ ∀ (ops : List Op) (m : Memory),
      Exec.run step (some (Memory.empty false)) ops = some m → Lockstep m := by
  intro h
  have hload : ∃ s', Load.loop (zeroFile 1000000)
      ⟨Memory.empty false, 0xFFFF0000, 131072, 0, 600000⟩ = some s' ∧
        s'.memory.mapped 0 = false ∧ vmExists (s'.memory.attributeTable 0) = true :=
    ⟨_, Load.loop_one (by decide) rfl rfl, rfl, rfl⟩
  obtain ⟨s', hs', hunmapped, hexists⟩ := hload
  have hlock := h [.mapWorldLoad 0xFFFF0000 131072 (zeroFile 1000000) 0 600000] s'.memory (by
    simp [step, Op.apply, mapWorldLoad, hs'])
  have hmapped := (hlock.mapped_iff 0 (by decide)).mpr ⟨0, rfl, hexists⟩
  rw [hunmapped] at hmapped
  cases hmapped

end VM
