import OsxVlm.Interpreter.FakeFrames

/-!
# The internal registers

Life support reads and writes the internal registers of the processor by their numbers.
The registers that the switch for reading leaves out, and those that the one for writing
sends to another register by falling through, are accepted and not read back.
-/

namespace InternalRegisters

open FakeFrames (LispObjRecord typeFixnum typeEvenPC typeOddPC setIvoryWord)

inductive InternalRegister
  | ea | fp | lp | sp | macroSP | stackCacheLowerBound
  | bar0 | bar1 | bar2 | bar3
  | phtHash0 | phtHash1 | phtHash2 | phtHash3
  | epc | dpc | continuation | aluAndRotateControl | controlRegister | crArgumentSize
  | ephemeralOldspaceRegister | zoneOldspaceRegister | chipRevision | fpCoprocessorPresent
  | preemptRegister | icacheControl | prefetcherControl | mapCacheControl | memoryControl
  | eccLog | eccLogAddress
  | invalidateMap0 | invalidateMap1 | invalidateMap2 | invalidateMap3
  | loadMap0 | loadMap1 | loadMap2 | loadMap3
  | stackCacheOverflowLimit | ucodeROMContents | addressMask | entryMaximumArguments
  | lexicalVariable | instruction | memoryData | dataPins | extensionRegister
  | microsecondClock | arrayHeaderLength
  | loadBAR0 | loadBAR1 | loadBAR2 | loadBAR3
  | tos | eventCount | bindingStackPointer | catchBlockList
  | controlStackLimit | controlStackExtraLimit | bindingStackLimit
  | phtBase | phtMask | countMapReloads
  | listCacheArea | listCacheAddress | listCacheLength
  | structureCacheArea | structureCacheAddress | structureCacheLength
  | dynamicBindingCacheBase | dynamicBindingCacheMask
  | choicePointer | structureStackChoicePointer | fepModeTrapVectorAddress
  | mappingTableCache | mappingTableLength | stackFrameMaximumSize | stackCacheDumpQuantum
  | constantNIL | constantT
  /-- A number that is not one of a register. -/
  | other (number : Nat)
  deriving DecidableEq

def typeLocative : BitVec 32 := 25

/-- What of the processor state the registers are kept in; `fp`, `lp` and `sp` are
addresses in the stack cache. -/
structure ProcessorState where
  fp : BitVec 64
  lp : BitVec 64
  sp : BitVec 64
  stackcachedata : BitVec 64
  stackcachebasevma : BitVec 64
  stackcachetopvma : BitVec 64
  bar0 : LispObjRecord
  bar1 : LispObjRecord
  bar2 : LispObjRecord
  bar3 : LispObjRecord
  continuation : BitVec 64
  control : BitVec 64
  cslimit : BitVec 32
  csextralimit : BitVec 32

/-- What a read delivers. -/
inductive Reading
  | value (o : LispObjRecord)
  /-- The error result -1. -/
  | unimplemented
  /-- The variable for the result was never set. -/
  | undefined

namespace ProcessorState

/-- `SCAtoVMA`, cut to the data of a word. -/
def scaToVMA (s : ProcessorState) (sca : BitVec 64) : BitVec 32 :=
  ((sca - s.stackcachedata) >>> 3 + s.stackcachebasevma).setWidth 32

/-- `VMAtoSCA`. -/
def vmaToSCA (s : ProcessorState) (vma : BitVec 32) : BitVec 64 :=
  (vma.setWidth 64 - s.stackcachebasevma) <<< 3 + s.stackcachedata

/-- `HWPCtoPC`. -/
def hwpcToPC (hwpc : BitVec 64) : LispObjRecord :=
  setIvoryWord (if hwpc &&& 1 = 1 then typeOddPC else typeEvenPC) (hwpc >>> 1)

/-- `PCtoHWPC`. -/
def pcToHWPC (pc : LispObjRecord) : BitVec 64 :=
  (if pc.tag &&& 0x3F = typeOddPC then (1 : BitVec 64) else 0) ||| pc.data.setWidth 64 <<< 1

/-- `MakeLispObj`. -/
def makeLispObj (tag data : BitVec 32) : BitVec 64 :=
  tag.setWidth 64 <<< 32 ||| data.setWidth 64

/-- There is no state for the error result -1. -/
def writeInternalRegister (s : ProcessorState) (object : LispObjRecord) :
    InternalRegister → Option ProcessorState
  | .fp => some { s with fp := s.vmaToSCA object.data }
  | .lp => some { s with lp := s.vmaToSCA object.data }
  | .sp => some { s with sp := s.vmaToSCA object.data }
  | .stackCacheLowerBound => some { s with stackcachebasevma := object.data.setWidth 64 }
  | .bar0 => some { s with bar0 := object }
  | .bar1 => some { s with bar1 := object }
  | .bar2 => some { s with bar2 := object }
  | .bar3 => some { s with bar3 := object }
  | .continuation => some { s with continuation := pcToHWPC object }
  | .controlRegister => some { s with control := makeLispObj typeFixnum object.data }
  | .stackCacheOverflowLimit => some { s with stackcachetopvma := object.data.setWidth 64 }
  -- the first three fall through
  | .eventCount | .bindingStackPointer | .catchBlockList | .controlStackLimit =>
    some { s with cslimit := object.data }
  | .controlStackExtraLimit => some { s with csextralimit := object.data }
  -- the switch has no case for these
  | .macroSP | .other _ => some s
  | _ => none

def readInternalRegister (s : ProcessorState) : InternalRegister → Reading
  | .fp => .value ⟨typeLocative, s.scaToVMA s.fp⟩
  | .lp => .value ⟨typeLocative, s.scaToVMA s.lp⟩
  | .sp => .value ⟨typeLocative, s.scaToVMA s.sp⟩
  | .stackCacheLowerBound => .value ⟨typeLocative, s.stackcachebasevma.setWidth 32⟩
  | .bar0 => .value s.bar0
  | .bar1 => .value s.bar1
  | .bar2 => .value s.bar2
  | .bar3 => .value s.bar3
  | .continuation => .value (hwpcToPC s.continuation)
  | .controlRegister => .value ⟨typeFixnum, s.control.setWidth 32⟩
  | .stackCacheOverflowLimit => .value ⟨typeLocative, s.stackcachetopvma.setWidth 32⟩
  | .macroSP | .other _ => .undefined
  | _ => .unimplemented

/-- The tags of the values that a register holds. -/
def Holds (o : LispObjRecord) : InternalRegister → Prop
  | .fp | .lp | .sp | .stackCacheLowerBound | .stackCacheOverflowLimit => o.tag = typeLocative
  | .continuation => o.tag = typeEvenPC ∨ o.tag = typeOddPC
  | .controlRegister => o.tag = typeFixnum
  | _ => o.tag &&& 0xC0 = 0

/-- A value that is accepted is read back, and every other register reads as before. -/
def Faithful (s : ProcessorState) (object : LispObjRecord) (r : InternalRegister) : Prop :=
  ∀ s', s.writeInternalRegister object r = some s' →
    s'.readInternalRegister r = .value object ∧
      ∀ r' ≠ r, ∀ o, s.readInternalRegister r' = .value o → s'.readInternalRegister r' = .value o

/-- The registers that are accepted and cannot be read. -/
def Lost : InternalRegister → Prop
  | .eventCount | .bindingStackPointer | .catchBlockList | .controlStackLimit
  | .controlStackExtraLimit | .macroSP | .other _ => True
  | _ => False

/-! ### What is read back -/

theorem scaToVMA_vmaToSCA (s : ProcessorState) (vma : BitVec 32) :
    s.scaToVMA (s.vmaToSCA vma) = vma := by
  have hvma := vma.isLt
  have hbase := s.stackcachebasevma.isLt
  apply BitVec.eq_of_toNat_eq
  rw [scaToVMA, vmaToSCA, BitVec.add_sub_cancel, BitVec.toNat_setWidth, BitVec.toNat_add,
    BitVec.toNat_ushiftRight, BitVec.toNat_shiftLeft, Nat.shiftLeft_eq,
    Nat.shiftRight_eq_div_pow, BitVec.toNat_sub, BitVec.toNat_setWidth]
  omega

/-- The lowest bit of a halfword address is apart from the address of the word. -/
theorem halfword (b : BitVec 64) (hb : b = 0 ∨ b = 1) (data : BitVec 32) :
    (b ||| data.setWidth 64 <<< 1) &&& 1 = b ∧
      (b ||| data.setWidth 64 <<< 1) >>> 1 = data.setWidth 64 := by
  have hdata := data.isLt
  have hlow : (data.setWidth 64 : BitVec 64) <<< 1 &&& 1 = 0 := by
    rw [BitFields.shiftLeft_and]
    simp
  have hhigh : (data.setWidth 64 : BitVec 64) <<< 1 >>> 1 = data.setWidth 64 := by
    apply BitVec.eq_of_toNat_eq
    rw [BitVec.toNat_ushiftRight, BitVec.toNat_shiftLeft, Nat.shiftLeft_eq,
      Nat.shiftRight_eq_div_pow, BitVec.toNat_setWidth]
    omega
  constructor
  · rw [BitVec.and_or_distrib_right, hlow]
    rcases hb with rfl | rfl <;> decide
  · rw [BitVec.ushiftRight_or_distrib, hhigh]
    rcases hb with rfl | rfl
    · exact BitVec.zero_or
    · exact BitVec.zero_or

theorem hwpcToPC_pcToHWPC {pc : LispObjRecord} (h : pc.tag = typeEvenPC ∨ pc.tag = typeOddPC) :
    hwpcToPC (pcToHWPC pc) = pc := by
  obtain ⟨tag, data⟩ := pc
  rcases h with rfl | rfl
  · obtain ⟨hlow, hhigh⟩ := halfword 0 (Or.inl rfl) data
    have hval : pcToHWPC ⟨typeEvenPC, data⟩ =
        (0 : BitVec 64) ||| data.setWidth 64 <<< 1 := by
      exact congrArg (· ||| _) (if_neg (by decide : ¬ typeEvenPC &&& 0x3F = typeOddPC))
    rw [hwpcToPC, hval, hlow, hhigh, if_neg (by decide), FakeFrames.setIvoryWord_data]
  · obtain ⟨hlow, hhigh⟩ := halfword 1 (Or.inr rfl) data
    have hval : pcToHWPC ⟨typeOddPC, data⟩ =
        (1 : BitVec 64) ||| data.setWidth 64 <<< 1 := by
      exact congrArg (· ||| _) (if_pos (by decide : typeOddPC &&& 0x3F = typeOddPC))
    rw [hwpcToPC, hval, hlow, hhigh, if_pos rfl, FakeFrames.setIvoryWord_data]

theorem makeLispObj_data (tag data : BitVec 32) : (makeLispObj tag data).setWidth 32 = data :=
  congrArg LispObjRecord.data (FakeFrames.setIvoryWord_data tag data)

/-- The value comes back from the state that a write of it leaves. -/
theorem read_write {s s' : ProcessorState} {object : LispObjRecord} {r : InternalRegister}
    (h : Holds object r) (hlost : ¬ Lost r) (hw : s.writeInternalRegister object r = some s') :
    s'.readInternalRegister r = .value object := by
  obtain ⟨tag, data⟩ := object
  have hfits : ((data.setWidth 64 : BitVec 64).setWidth 32) = data := by simp
  have haddress := s.scaToVMA_vmaToSCA data
  cases r <;> simp only [writeInternalRegister, Option.some.injEq, reduceCtorEq] at hw <;>
    first | exact absurd trivial hlost | subst hw
  case fp | lp | sp =>
    obtain rfl : tag = typeLocative := h
    exact congrArg (fun d => Reading.value ⟨typeLocative, d⟩) haddress
  case stackCacheLowerBound | stackCacheOverflowLimit =>
    obtain rfl : tag = typeLocative := h
    exact congrArg (fun d => Reading.value ⟨typeLocative, d⟩) hfits
  case bar0 | bar1 | bar2 | bar3 => rfl
  case continuation => exact congrArg Reading.value (hwpcToPC_pcToHWPC h)
  case controlRegister =>
    obtain rfl : tag = typeFixnum := h
    exact congrArg (fun d => Reading.value ⟨typeFixnum, d⟩) (makeLispObj_data _ _)

/-- A write leaves alone what the other registers are kept in. -/
theorem read_other {s s' : ProcessorState} {object : LispObjRecord} {r r' : InternalRegister}
    (hbase : r ≠ .stackCacheLowerBound) (hne : r' ≠ r)
    (hw : s.writeInternalRegister object r = some s') :
    s'.readInternalRegister r' = s.readInternalRegister r' := by
  cases r <;> simp only [writeInternalRegister, Option.some.injEq, reduceCtorEq] at hw <;>
    first | exact absurd rfl hbase | subst hw
  all_goals
    unfold readInternalRegister
    split <;> first | exact absurd rfl hne | rfl

theorem faithful_iff {s : ProcessorState} {object : LispObjRecord} {r : InternalRegister}
    (hbase : r ≠ .stackCacheLowerBound) (h : Holds object r) :
    s.Faithful object r ↔ ¬ Lost r := by
  constructor
  · intro hf hlost
    cases r <;> try exact hlost
    all_goals exact absurd (hf _ rfl).1 (by simp [readInternalRegister])
  · intro hlost s' hw
    exact ⟨read_write h hlost hw, fun r' hne o ho => (read_other hbase hne hw).trans ho⟩

end ProcessorState

end InternalRegisters
