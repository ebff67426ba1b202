import Mathlib
import OsxVlm.Memory.Attributes
import OsxVlm.Memory.VirtualMemory

/-!
# Scans for pointers into oldspace, and the commands of the virtual memory

A page is scanned for the first pointer into oldspace of a range.  The fast
scanner takes eight tags at a time, and when it has found nothing it goes over
the page once more for references to ephemeral space.
-/

namespace VM

/-- The registers of the processor that the scanners read. -/
structure Processor where
  zoneoldspace : Integer
  ephemeraloldspace : Integer

/-- The registers of `VMState` that the commands below use. -/
structure VMState where
  addressRegister : Integer
  extentRegister : Integer
  attributesRegister : Integer

/-! ### Pointers -/

def pointertypes : BitVec 64 := 0x0000FFF4FFFFF8F7

def pointerP (tag : Tag) : Bool := pointertypes.getLsbD (tag &&& 0x3F).toNat

def ephemeralAddressP (vma : Integer) : Bool := vma >>> 27 == 0

/-- The register `ephemeraloldspace`, with its bits inverted in the low half. -/
def ephemeraloldbits (proc : Processor) : BitVec 64 :=
  proc.ephemeraloldspace ++ ~~~proc.ephemeraloldspace

def zoneOldspaceP (proc : Processor) (vma : Integer) : Bool :=
  proc.zoneoldspace.getLsbD ((vma >>> 27).toNat % 32)

/-- `EphemeralOldspaceP` of an ephemeral address, by its demilevel. -/
def ephemeralOldspaceP (proc : Processor) (vma : Integer) : Bool :=
  (ephemeraloldbits proc).getLsbD (vma >>> 21).toNat

/-- The address lies in an oldspace zone or an ephemeral oldspace level. -/
def oldspaceP (proc : Processor) (vma : Integer) : Bool :=
  if ephemeralAddressP vma then ephemeralOldspaceP proc vma else zoneOldspaceP proc vma

/-! ### The slow scanner -/

def slowScanPage (m : Memory) (proc : Processor) (scanvma : Nat) : Nat → Option Nat
  | 0 => none
  | count + 1 =>
      if pointerP (m.tagSpace scanvma) && oldspaceP proc (m.dataSpace scanvma) then some scanvma
      else slowScanPage m proc (scanvma + 1) count

/-! ### The fast scanner -/

/-- What a pass over tags has come to. -/
inductive Pass where
  /-- No hit so far; whether there was an ephemeral reference. -/
  | on (ephemeral : Bool)
  /-- An ephemeral reference ends the update pass. -/
  | done
  | hit (vma : Nat)
  deriving DecidableEq

/-- The loop over the words of a group. -/
def scanWords (m : Memory) (proc : Processor) (scanvma endvma : Nat) (update : Bool) :
    Nat → Nat → Bool → Pass
  | 0, _, ephemeral => .on ephemeral
  | n + 1, thisvma, ephemeral =>
      if !pointerP (m.tagSpace thisvma) then
        scanWords m proc scanvma endvma update n (thisvma + 1) ephemeral
      else
        let ephemeral := ephemeral || ephemeralAddressP (m.dataSpace thisvma)
        if update then
          if ephemeral then .done
          else scanWords m proc scanvma endvma update n (thisvma + 1) ephemeral
        -- no hit on addresses that were not asked for
        else if oldspaceP proc (m.dataSpace thisvma) && decide (scanvma ≤ thisvma) &&
            decide (thisvma < endvma) then .hit thisvma
        else scanWords m proc scanvma endvma update n (thisvma + 1) ephemeral

/-- The loop over the groups of eight up to `limitvma`. -/
def scanGroups (m : Memory) (proc : Processor) (scanvma endvma : Nat) (update : Bool)
    (limitvma thisvma : Nat) (ephemeral : Bool) : Pass :=
  if thisvma < limitvma then
    match scanWords m proc scanvma endvma update 8 thisvma ephemeral with
    | .on ephemeral => scanGroups m proc scanvma endvma update limitvma (thisvma + 8) ephemeral
    | found => found
  else .on ephemeral
termination_by limitvma - thisvma

/-- The page is done: the transport bits are cleared and the ephemeral bit is set
as found. -/
def updatePage (m : Memory) (scanvma : Nat) (ephemeral : Bool) : Memory :=
  let oa := m.attributeTable (pageNumber scanvma)
  let a := clearVMTransportDisable (clearVMTransportFault oa)
  let a := if ephemeral then setVMEphemeral a else clearVMEphemeral a
  if a ≠ oa then adjustProtection m scanvma a else m

/-- An oldspace reference of the range, or none and the page is updated. -/
def scanPage (m : Memory) (proc : Processor) (scanvma count : Nat) (update : Bool) :
    Memory × Option Nat :=
  let startvma := scanvma - pageOffset scanvma
  let endvma := scanvma + count
  match scanGroups m proc scanvma endvma update endvma (scanvma - scanvma % 8) false with
  | .hit vma => (m, some vma)
  | .done => (updatePage m scanvma true, none)
  | .on ephemeral =>
      if update then (updatePage m scanvma ephemeral, none)
      else
        -- wrapped to the start of the page
        match scanGroups m proc scanvma endvma true scanvma (startvma - startvma % 8)
            ephemeral with
        | .hit vma => (m, some vma)
        | .done => (updatePage m scanvma true, none)
        | .on ephemeral => (updatePage m scanvma ephemeral, none)

/-! ### Scans over pages -/

/-- Faults are disabled on a page that is about to be scanned. -/
def disableTransport (m : Memory) (attr scanvma : Nat) : Memory :=
  let a := m.attributeTable attr
  if vmTransportFault a && !vmTransportDisable a then
    adjustProtection m scanvma (setVMTransportDisable a)
  else m

/-- The transport bits are cleared without a look at the protection. -/
def clearTransport (m : Memory) (attr : Nat) : Memory :=
  m.setAttribute attr (clearVMTransportDisable (clearVMTransportFault (m.attributeTable attr)))

/-- The loop of `VirtualMemoryScan`; `attr` is the place in the table. -/
def scanLoop (proc : Processor) (slowp update : Bool) (mask : VMAttribute)
    (m : Memory) (attr scanvma : Nat) (whack count : Nat) : Memory × Option Nat :=
  if _h : 0 < count ∧ 0 < whack then
    let a := m.attributeTable attr
    let a := if vmTransportFault a && !vmTransportDisable a then setVMTransportDisable a else a
    let m := disableTransport m attr scanvma
    let (m, found) :=
      if a &&& mask = mask then
        if slowp then (m, slowScanPage m proc scanvma whack)
        else scanPage m proc scanvma whack update
      else if slowp then (m, none)
      else (clearTransport m attr, none)
    match found with
    | some vma => (m, some vma)
    | none =>
        scanLoop proc slowp update mask m (attr + 1) ((scanvma + whack) % 2 ^ 32)
          (min 8192 (count - whack)) (count - whack)
  else (m, none)
termination_by count

def virtualMemoryScan (m : Memory) (proc : Processor) (vma : Nat) (count : Int) (slowp : Bool) :
    Memory × Option Nat :=
  let mask : VMAttribute :=
    if slowp then .exists
    else if proc.zoneoldspace = 0 then .ephemeral ||| .transportFault
    else .exists ||| .transportFault
  -- called again after a hit on the last word of a chunk: only the update is left
  let again := decide (count = 0 ∧ pageOffset vma = 0)
  let scanvma := if again then (vma + 2 ^ 32 - 8192) % 2 ^ 32 else vma
  let count := if again then 8192 else count.toNat
  let whack := min (8192 - pageOffset vma) count
  scanLoop proc slowp again mask m (pageNumber scanvma) scanvma whack count

/-! ### Flips -/

/-- The attribute of an existing page after a flip. -/
def flip (proc : Processor) (faultp : Bool) (a : VMAttribute) : VMAttribute :=
  if proc.zoneoldspace = 0 then
    if !faultp then setVMTransportDisable (setVMTransportFault a)
    else if vmEphemeral a then clearVMTransportDisable (setVMTransportFault a)
    else clearVMTransportFault (clearVMTransportDisable a)
  else if !faultp then setVMTransportDisable (setVMTransportFault a)
  else clearVMTransportDisable (setVMTransportFault a)

def enableLoop (proc : Processor) (faultp : Bool) : Nat → Memory → Nat → Nat → Memory
  | 0, m, _, _ => m
  | n + 1, m, attr, vma =>
      let oa := m.attributeTable attr
      let m :=
        if vmExists oa && decide (flip proc faultp oa ≠ oa) then
          adjustProtection m vma (flip proc faultp oa)
        else m
      enableLoop proc faultp n m (attr + 1) ((vma + 8192) % 2 ^ 32)

/-- The end is computed with 64 bits and does not pass the table. -/
def virtualMemoryEnable (m : Memory) (proc : Processor) (vma : Nat) (count : Int)
    (faultp : Bool) : Memory :=
  let elimit := ((vma + count + 8191) % 2 ^ 64).toNat / 8192
  enableLoop proc faultp (min elimit (2 ^ 19) - pageNumber vma) m (pageNumber vma) vma

/-! ### Scans of the attribute table -/

/-- Skips the wads without a page; returns the wad and what is left of `n`. -/
def skipWads (m : Memory) : Nat → Nat → Int → Nat × Int
  | 0, wad, n => (wad, n)
  | left + 1, wad, n =>
      if 0 < n && !wadCreated m (65536 * wad) then skipWads m left (wad + 1) (n - 65536)
      else (wad, n)

def findPage (m : Memory) (mask : VMAttribute) (sense : Bool) : Nat → Nat → Int → Option Nat
  | 0, _, _ => none
  | left + 1, attr, n =>
      if n ≤ 0 then none
      else if decide (m.attributeTable attr &&& mask = mask) == sense then some (8192 * attr)
      else findPage m mask sense left (attr + 1) (n - 8192)

def virtualMemoryPHTScan (m : Memory) (vma count : Nat) (mask : VMAttribute) (sense : Bool) :
    Option Nat :=
  let (wad, n) := skipWads m (2 ^ 16 - wadNumber vma) (wadNumber vma) (count + pageOffset vma)
  let attr := max (pageNumber vma) (8 * wad)
  findPage m mask sense (2 ^ 19 - attr) attr n

/-! ### Commands -/

/-- The commands on attributes and protections; those on the contents of memory
are not among them. -/
inductive VMOpcode where
  | lookup
  | create
  | destroy
  | readAttributes
  | writeAttributes
  | scan
  | enable
  | phtScan

/-- `VMCommand`: the memory, the registers and whether it succeeded. -/
def vmCommand (m : Memory) (proc : Processor) (vm : VMState) (opcode : VMOpcode)
    (operand : BitVec 19) : Memory × VMState × Bool :=
  let vma := vm.addressRegister.toNat
  let faultp := operand != 0
  match opcode with
  | .lookup => (m, vm, created m vma)
  | .create =>
      let words := vm.extentRegister.toInt
      if wadCreated m vma && decide ((pageOffset vma + words) % 2 ^ 32 ≤ 8192) then
        (setCreated m vma faultp false, { vm with extentRegister := 8192 }, true)
      else
        let (m, extent) := ensureVirtualAddressRange m vma words faultp
        (m, { vm with extentRegister := extent }, true)
  | .destroy =>
      let (m, extent) := destroyVirtualAddressRange m vma vm.extentRegister.toNat
      (m, { vm with extentRegister := extent }, true)
  | .readAttributes =>
      let attr := m.attributeTable operand.toNat
      if vmExists attr then (m, { vm with attributesRegister := attr.setWidth 32 }, true)
      else (m, vm, false)
  | .writeAttributes =>
      let attr := m.attributeTable operand.toNat
      let kept : VMAttribute := .exists ||| .modified
      let nattr := (vm.attributesRegister.setWidth 8 &&& ~~~kept) ||| (attr &&& kept)
      if vmExists attr then
        (if attr ≠ nattr then adjustProtection m (8192 * operand.toNat) nattr else m, vm, true)
      else (m, vm, false)
  | .scan =>
      match virtualMemoryScan m proc vma vm.extentRegister.toInt faultp with
      | (m, some found) => (m, { vm with addressRegister := found }, true)
      | (m, none) => (m, vm, false)
  | .enable => (virtualMemoryEnable m proc vma vm.extentRegister.toInt faultp, vm, true)
  | .phtScan =>
      let mask := vm.attributesRegister.setWidth 8
      match virtualMemoryPHTScan m vma vm.extentRegister.toNat mask faultp with
      | some found => (m, { vm with addressRegister := found }, true)
      | none => (m, vm, false)

end VM
