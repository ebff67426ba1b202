import Mathlib

/-!
# Pages, wads and their attributes

An address is a natural number below `2^32`; a page has `MemoryPage_Size = 8192`
words and a wad eight pages.  The host protection of a page follows from its
attribute byte.  `PROT_EXEC` is 0 on this host, so three protections are left.
-/

namespace VM

abbrev Integer := BitVec 32
abbrev Tag := BitVec 8
abbrev VMAttribute := BitVec 8

namespace VMAttribute

def accessFault : VMAttribute := 1
def writeFault : VMAttribute := 2
def transportFault : VMAttribute := 4
def transportDisable : VMAttribute := 8
def ephemeral : VMAttribute := 16
def modified : VMAttribute := 32
def «exists» : VMAttribute := 64

end VMAttribute

/-- The protections of `mprotect`. -/
inductive Prot where
  | none
  | read
  | readWrite
  deriving DecidableEq

/-- `MemoryPageNumber`, `MemoryPageOffset` and the same for wads. -/
def pageNumber (vma : Nat) : Nat := vma / 8192
def pageOffset (vma : Nat) : Nat := vma % 8192
def wadNumber (vma : Nat) : Nat := vma / 65536
def wadOffset (vma : Nat) : Nat := vma % 65536

/-! ### Attribute bits -/

def has (a bit : VMAttribute) : Bool := a &&& bit != 0

def vmExists (a : VMAttribute) : Bool := has a .exists
def vmAccessFault (a : VMAttribute) : Bool := has a .accessFault
def vmTransportFault (a : VMAttribute) : Bool := has a .transportFault
def vmTransportDisable (a : VMAttribute) : Bool := has a .transportDisable
def vmEphemeral (a : VMAttribute) : Bool := has a .ephemeral
def vmModified (a : VMAttribute) : Bool := has a .modified

def setVMTransportFault (a : VMAttribute) : VMAttribute := a ||| .transportFault
def setVMTransportDisable (a : VMAttribute) : VMAttribute := a ||| .transportDisable
def setVMEphemeral (a : VMAttribute) : VMAttribute := a ||| .ephemeral
def clearVMTransportFault (a : VMAttribute) : VMAttribute := a &&& ~~~.transportFault
def clearVMTransportDisable (a : VMAttribute) : VMAttribute := a &&& ~~~.transportDisable
def clearVMEphemeral (a : VMAttribute) : VMAttribute := a &&& ~~~.ephemeral

/-- The protection of a page that exists, and of one that does not. -/
def computeProtection (attr : VMAttribute) : Prot :=
  -- transport faults that are overridden do not count
  let attr := if vmTransportDisable attr then clearVMTransportFault attr else attr
  if attr &&& (.exists ||| .transportFault ||| .accessFault) ≠ VMAttribute.exists then .none
  else if attr &&& (.modified ||| .ephemeral ||| .writeFault) ≠
      VMAttribute.modified ||| .ephemeral then .read
  else .readWrite

/-- `DefaultAttributes`; `enableIDS` says that changes to a world are recorded. -/
def defaultAttributes (enableIDS faultp worldp : Bool) : VMAttribute :=
  .exists ||| .ephemeral ||| (if faultp then .accessFault else 0) |||
    (if enableIDS && worldp then 0 else .modified)

theorem vmExists_eq (a : VMAttribute) : vmExists a = a.getLsbD 6 := by
  revert a
  decide +kernel

theorem vmExists_default (enableIDS faultp worldp : Bool) :
    vmExists (defaultAttributes enableIDS faultp worldp) = true := by
  revert enableIDS faultp worldp
  decide

/-- Clearing both transport bits leaves the protection, when an armed fault bit
was overridden. -/
theorem computeProtection_clear (a : VMAttribute)
    (h : vmTransportFault a = true → vmTransportDisable a = true) :
    computeProtection (clearVMTransportDisable (clearVMTransportFault a)) =
      computeProtection a := by
  revert a
  decide +kernel

theorem vmExists_clearTransport (a : VMAttribute) :
    vmExists (clearVMTransportDisable (clearVMTransportFault a)) = vmExists a := by
  revert a
  decide +kernel

theorem vmExists_setEphemeral (a : VMAttribute) : vmExists (setVMEphemeral a) = vmExists a := by
  revert a
  decide +kernel

theorem vmExists_clearEphemeral (a : VMAttribute) : vmExists (clearVMEphemeral a) = vmExists a := by
  revert a
  decide +kernel

theorem vmTransportDisable_set (a : VMAttribute) :
    vmTransportDisable (setVMTransportDisable a) = true := by
  revert a
  decide +kernel

theorem vmTransportFault_zero : vmTransportFault 0 = false := rfl

theorem vmExists_or (a b : VMAttribute) : vmExists (a ||| b) = (vmExists a || vmExists b) := by
  rw [vmExists_eq, vmExists_eq, vmExists_eq, BitVec.getLsbD_or]

end VM
