import OsxVlm.Emulator.MemoryCycles
import OsxVlm.Emulator.Operands
import OsxVlm.Library.BitFields

/-!
# Elements of arrays

The elements of an array are fields of its storage words, as many to a word as its byte
packing says, or whole words when they are objects.  The masks of `ldb` and `dpb` are made
by a shift of an int, which counts modulo 32.
-/

namespace Ivory

open BitFields (extract deposit low)
open Execute (typeFixnumP)

def typeCharacter : Tag := 0x23

inductive ArrayElementType where
  | fixnum
  | character
  | boolean
  | object
  deriving DecidableEq, Repr

/-- `BytePackingSize`. -/
def bytePackingSize (b : Nat) : Nat := 32 >>> b

/-- `BytePackingRotation`. -/
def bytePackingRotation (b : Nat) (i : Integer) : Nat :=
  ((~~~((-1 : Integer) <<< b) &&& i) <<< (5 - b)).toNat

/-- The mask of a field of `ss` bits. -/
def fieldMask (ss : Nat) : Integer := (1 <<< (ss % 32)) - 1

def arrayElementLdb (b : Nat) (i w : Integer) : Integer :=
  extract (fieldMask (bytePackingSize b)) (bytePackingRotation b i) w

def arrayElementDpb (e : Integer) (b : Nat) (i w : Integer) : Integer :=
  deposit e (fieldMask (bytePackingSize b)) (bytePackingRotation b i) w

/-- The traps of an access. -/
inductive ArrayTrap where
  | illegalOperand
  | instructionException
  | memory (outcome : MemoryOutcome)

abbrev Access := ExceptT ArrayTrap Option

/-- What the accesses are told of an array. -/
structure Elements where
  vma : Integer
  packing : Nat
  offset : Integer
  type : ArrayElementType

namespace ProcessorState

/-- `MemoryReadData`. -/
def memoryReadData (s : ProcessorState) (fuel : Nat) (vma : Integer) :
    Access (Integer × LispObj) :=
  ExceptT.mk <| (s.memoryReadInternal .dataRead fuel vma).map fun
    | .value vma q => .ok (vma, q)
    | outcome => .error (.memory outcome)

/-- `StoreContents` with `CycleDataWrite`. -/
def storeContents (s : ProcessorState) (fuel : Nat) (vma : Integer) (value : LispObj) :
    Access ProcessorState :=
  ExceptT.mk <| (s.storeContentsInternal .dataWrite fuel vma value).map fun
    | .stored t => .ok t
    | .failed outcome => .error (.memory outcome)

end ProcessorState

open ProcessorState

namespace Elements

/-- The objects of an array are not packed. -/
def Objects (a : Elements) : Prop := a.type = .object ∧ a.packing = 0

instance (a : Elements) : Decidable a.Objects := inferInstanceAs (Decidable (_ ∧ _))

/-- An element in its word; one that is not packed is the word. -/
def field (a : Elements) (index w : Integer) : Integer :=
  if a.packing ≠ 0 then arrayElementLdb a.packing index w else w

def setField (a : Elements) (data index w : Integer) : Integer :=
  if a.packing ≠ 0 then arrayElementDpb data a.packing index w else data

/-- What the bits of an element mean. -/
def valueOf (a : Elements) (data : Integer) : Access LispObj :=
  match a.type with
  | .fixnum => return ⟨typeFixnum, data⟩
  | .character => return ⟨typeCharacter, data⟩
  | .boolean => return if data ≠ 0 then objectT else objectNIL
  | .object => throw (.memory (.trap .error (a.vma - 1)))

/-- `Aref1Internal`. -/
def aref1Internal (a : Elements) (s : ProcessorState) (fuel : Nat) (index : Integer) :
    Access LispObj := do
  if a.Objects then
    let (_, q) ← s.memoryReadData fuel (a.vma + index)
    return q.cdrNext
  let index := index + a.offset
  let (_, q) ← s.memoryReadData fuel (a.vma + index.sshiftRight a.packing)
  if typeFixnumP q.tag = false then
    throw (.memory (.trap .error (a.vma + index.sshiftRight a.packing)))
  a.valueOf (a.field index q.data)

/-- The bits that `Aset1Internal` is to store, after its check of the value. -/
def fieldOf (a : Elements) (value : LispObj) : Access Integer :=
  match a.type with
  | .fixnum => if typeFixnumP value.tag = false then throw .illegalOperand else return value.data
  | .character =>
      if tagType value.tag ≠ typeCharacter ∨
          arrayElementLdb a.packing 0 value.data ≠ value.data then
        throw .illegalOperand
      else return value.data
  | .boolean => return if tagType value.tag = typeNIL then 0 else -1
  | .object => throw (.memory (.trap .error (a.vma - 1)))

/-- `Aset1Internal`. -/
def aset1Internal (a : Elements) (s : ProcessorState) (fuel : Nat) (index : Integer)
    (value : LispObj) : Access ProcessorState := do
  if a.Objects then
    return ← s.storeContents fuel (a.vma + index) value
  let data ← a.fieldOf value
  let index := index + a.offset
  let (vma, q) ← s.memoryReadData fuel (a.vma + index.sshiftRight a.packing)
  if typeFixnumP q.tag = false then throw (.memory (.trap .error vma))
  return s.writeVirtualMemory vma ⟨q.tag, a.setField data index q.data⟩

/-! ### What an access is to do -/

/-- The storage word of an element. -/
def word (a : Elements) (index : Integer) : Integer :=
  if a.Objects then a.vma + index else a.vma + (index + a.offset).sshiftRight a.packing

/-- How many values an element has. -/
def range (a : Elements) : Nat := 2 ^ (32 / 2 ^ a.packing)

/-- The values that are to be accepted. -/
def Accepts (a : Elements) (value : LispObj) : Prop :=
  match a.type with
  | .fixnum => tagType value.tag = typeFixnum
  | .character => tagType value.tag = typeCharacter ∧ value.data.toNat < a.range
  | .boolean | .object => True

/-- What is to be read after a value was stored. -/
def readBack (a : Elements) (value : LispObj) : LispObj :=
  match a.type with
  | .fixnum => ⟨typeFixnum, .ofNat 32 (value.data.toNat % a.range)⟩
  | .character => ⟨typeCharacter, value.data⟩
  | .boolean => if tagType value.tag = typeNIL then objectNIL else objectT
  | .object => value.cdrNext

/-- A store ends, its value is read back, and nothing else changes: no other element, unless
it forwards, and no other word. -/
def StoresExactly (a : Elements) (s : ProcessorState) (index : Integer) (value : LispObj) :
    Prop :=
  ∃ t, (∀ fuel, a.aset1Internal s (fuel + 1) index value = pure t) ∧
    (∀ fuel, a.aref1Internal t (fuel + 1) index = pure (a.readBack value)) ∧
    (∀ j, j ≠ index → forward .dataRead (s.readVirtualMemory (a.word j)) = none →
      ∀ fuel, a.aref1Internal t fuel j = a.aref1Internal s fuel j) ∧
    ∀ vma, vma ≠ a.word index → t.readVirtualMemory vma = s.readVirtualMemory vma

/-- A cycle returns the object as it is. -/
def Plain (cycle : Cycle) (object : LispObj) : Prop :=
  action cycle object &&& ~~~memoryActionTransport = 0

end Elements

/-! ### Fields of a word -/

section Packing

variable {b : Nat} (i j w e : Integer)

theorem bytePackingSize_eq (hb : b ≤ 5) : bytePackingSize b = 2 ^ (5 - b) := by
  interval_cases b <;> rfl

theorem packingMask_eq (hb : b ≤ 5) : ~~~((-1 : Integer) <<< b) = BitVec.ofNat 32 (2 ^ b - 1) := by
  interval_cases b <;> rfl

theorem bytePackingRotation_eq (hb : b ≤ 5) :
    bytePackingRotation b i = i.toNat % 2 ^ b * 2 ^ (5 - b) := by
  have hpow : 2 ^ b * 2 ^ (5 - b) = 32 := by rw [← Nat.pow_add, Nat.add_sub_cancel' hb]
  have hlt : i.toNat % 2 ^ b * 2 ^ (5 - b) < 2 ^ b * 2 ^ (5 - b) :=
    Nat.mul_lt_mul_of_pos_right (Nat.mod_lt _ (Nat.two_pow_pos b)) (Nat.two_pow_pos _)
  rw [bytePackingRotation, packingMask_eq hb, BitVec.and_comm, BitVec.toNat_shiftLeft,
    BitFields.toNat_and_mask i (by omega), Nat.shiftLeft_eq, Nat.mod_eq_of_lt (by omega)]

/-- A field lies in its word. -/
theorem rotation_add_size_le (hb : b ≤ 5) :
    bytePackingRotation b i + bytePackingSize b ≤ 32 := by
  have hpow : 2 ^ b * 2 ^ (5 - b) = 32 := by rw [← Nat.pow_add, Nat.add_sub_cancel' hb]
  have hlt := Nat.mod_lt i.toNat (Nat.two_pow_pos b)
  have hmul := Nat.mul_le_mul_right (2 ^ (5 - b)) (Nat.succ_le_of_lt hlt)
  rw [Nat.succ_mul] at hmul
  rw [bytePackingRotation_eq i hb, bytePackingSize_eq hb]
  omega

/-- Two fields of a word lie apart. -/
theorem rotation_apart (hb : b ≤ 5) (h : i.toNat % 2 ^ b ≠ j.toNat % 2 ^ b) :
    bytePackingRotation b i + bytePackingSize b ≤ bytePackingRotation b j ∨
      bytePackingRotation b j + bytePackingSize b ≤ bytePackingRotation b i := by
  have hstep : ∀ m n : Nat, m < n → m * 2 ^ (5 - b) + 2 ^ (5 - b) ≤ n * 2 ^ (5 - b) := by
    intro m n hmn
    have hmul := Nat.mul_le_mul_right (2 ^ (5 - b)) (Nat.succ_le_of_lt hmn)
    rwa [Nat.succ_mul] at hmul
  rw [bytePackingRotation_eq i hb, bytePackingRotation_eq j hb, bytePackingSize_eq hb]
  obtain hlt | hlt := Nat.lt_or_gt_of_ne h
  · exact .inl (hstep _ _ hlt)
  · exact .inr (hstep _ _ hlt)

/-- Below 32 bits the mask is that of the field. -/
theorem fieldMask_eq (hb : b ≤ 5) (h : b ≠ 0) :
    fieldMask (bytePackingSize b) = low 32 (bytePackingSize b) := by
  interval_cases b <;> first | exact absurd rfl h | rfl

/-- Of a whole word the mask keeps nothing. -/
theorem fieldMask_word : fieldMask (bytePackingSize 0) = 0 := by decide

theorem ldb_dpb_self (hb : b ≤ 5) (h : b ≠ 0) :
    arrayElementLdb b i (arrayElementDpb e b i w) = e &&& low 32 (bytePackingSize b) := by
  rw [arrayElementLdb, arrayElementDpb, fieldMask_eq hb h]
  exact BitFields.extract_deposit_self _ _ (rotation_add_size_le i hb)

theorem ldb_dpb_of_ne (hb : b ≤ 5) (h : b ≠ 0) (hne : i.toNat % 2 ^ b ≠ j.toNat % 2 ^ b) :
    arrayElementLdb b j (arrayElementDpb e b i w) = arrayElementLdb b j w := by
  rw [arrayElementLdb, arrayElementDpb, fieldMask_eq hb h, arrayElementLdb, fieldMask_eq hb h]
  exact BitFields.extract_deposit_of_apart _ _ (rotation_add_size_le j hb)
    (rotation_apart j i hb hne.symm)

/-- Elements of one word have different places in it. -/
theorem place_ne (hb : b ≤ 5) (hword : i.sshiftRight b = j.sshiftRight b) (hne : i ≠ j) :
    i.toNat % 2 ^ b ≠ j.toNat % 2 ^ b := by
  intro hplace
  apply hne
  apply BitVec.eq_of_toInt_eq
  have hdiv : i.toInt / 2 ^ b = j.toInt / 2 ^ b := by
    have hint := congrArg BitVec.toInt hword
    rwa [BitVec.toInt_sshiftRight, BitVec.toInt_sshiftRight, Int.shiftRight_eq_div_pow,
      Int.shiftRight_eq_div_pow] at hint
  have hmod : ∀ x : Integer, x.toInt % 2 ^ b = ((x.toNat % 2 ^ b : Nat) : Int) := by
    intro x
    have hdvd : ((2 : Int) ^ b) ∣ 2 ^ 32 := pow_dvd_pow 2 (by omega)
    rw [BitVec.toInt_eq_toNat_bmod, ← Int.emod_emod_of_dvd _ hdvd,
      show ((2 : Int) ^ 32) = ((2 ^ 32 : Nat) : Int) by norm_num, Int.bmod_emod,
      Int.emod_emod_of_dvd _ (by exact_mod_cast hdvd)]
    push_cast
    rfl
  rw [← Int.mul_ediv_add_emod i.toInt (2 ^ b), ← Int.mul_ediv_add_emod j.toInt (2 ^ b), hdiv,
    hmod, hmod, hplace]

end Packing

/-! ### Reads and writes -/

section Cycles

variable {s t : ProcessorState} {cycle : Cycle} {vma : Integer} {fuel : Nat}

/-- A read of a cell that does not forward is a matter of that cell. -/
theorem memoryReadInternal_congr (hsame : t.readVirtualMemory vma = s.readVirtualMemory vma)
    (hlast : forward cycle (s.readVirtualMemory vma) = none) (fuel : Nat) :
    t.memoryReadInternal cycle fuel vma = s.memoryReadInternal cycle fuel vma := by
  cases fuel with
  | zero => rfl
  | succ fuel =>
      rw [memoryReadInternal_succ, memoryReadInternal_succ, hsame]
      have hnot : action cycle (s.readVirtualMemory vma) &&& ~~~memoryActionTransport ≠
          memoryActionIndirect := by
        intro hind
        rw [forward, if_pos hind] at hlast
        cases hlast
      generalize action cycle (s.readVirtualMemory vma) &&& ~~~memoryActionTransport = a at hnot
      have hne : a.toNat ≠ 1 := fun h => hnot (BitVec.eq_of_toNat_eq h)
      split <;> first | rfl | exact absurd ‹a.toNat = 1› hne

theorem memoryReadInternal_plain (h : Elements.Plain cycle (s.readVirtualMemory vma))
    (fuel : Nat) :
    s.memoryReadInternal cycle (fuel + 1) vma = some (.value vma (s.readVirtualMemory vma)) := by
  rw [memoryReadInternal_succ, h]
  rfl

/-- Only a logic variable that is read as data is transformed. -/
theorem action_transform {object : LispObj} (h : action cycle object = 0o24) :
    cycle = .dataRead ∧ tagType object.tag = 0x24 := by
  have htable : ∀ cycle : Cycle, ∀ n < 64,
      (memoryActionTable cycle).getD n 0 = 0o24 → cycle = .dataRead ∧ n = 0x24 := by
    intro cycle
    cases cycle <;> decide +kernel
  obtain ⟨hcycle, hn⟩ := htable cycle _ (tagType_lt object.tag) h
  exact ⟨hcycle, BitVec.eq_of_toNat_eq hn⟩

/-- A read that returns what it finds finds a plain object, or follows a pointer. -/
theorem plain_of_value {a : Integer} {q : LispObj}
    (hlast : forward cycle (s.readVirtualMemory vma) = none)
    (hread : s.memoryReadInternal cycle (fuel + 1) vma = some (.value a q))
    (htype : cycle = .dataWrite ∨ q.cdrNext = (s.readVirtualMemory vma).cdrNext) :
    Elements.Plain cycle (s.readVirtualMemory vma) := by
  have hmem := action_mem cycle (s.readVirtualMemory vma)
  have htransform := @action_transform cycle (s.readVirtualMemory vma)
  unfold forward at hlast
  unfold Elements.Plain
  rw [memoryReadInternal_succ] at hread
  generalize action cycle (s.readVirtualMemory vma) = a at hmem hlast hread htransform
  simp only [List.mem_cons, List.not_mem_nil, or_false] at hmem
  obtain rfl | rfl | rfl | rfl | rfl | rfl | rfl | rfl := hmem
  · rfl
  · rfl
  · rw [if_pos (by decide)] at hlast
    cases hlast
  · cases hread
  · cases hread
  · cases hread
  · obtain ⟨rfl, htag⟩ := htransform rfl
    obtain hcycle | hobject := htype
    · cases hcycle
    · obtain ⟨-, rfl⟩ := MemoryOutcome.value.inj (Option.some.inj hread)
      have hmerge : ∀ tag : Tag, tagType (mergeCdr tag typeExternalValueCellPointer) = 4 := by
        decide +kernel
      have htype := congrArg LispObj.tag hobject
      simp only [LispObj.cdrNext, hmerge, htag] at htype
      exact absurd htype (by decide)
  · cases hread

theorem memoryReadData_plain (h : Elements.Plain .dataRead (s.readVirtualMemory vma))
    (fuel : Nat) :
    s.memoryReadData (fuel + 1) vma = pure (vma, s.readVirtualMemory vma) := by
  rw [memoryReadData, memoryReadInternal_plain h]
  rfl

theorem storeContents_plain (h : Elements.Plain .dataWrite (s.readVirtualMemory vma))
    (value : LispObj) (fuel : Nat) :
    s.storeContents (fuel + 1) vma value = pure (s.writeVirtualMemory vma
      ⟨mergeCdr (s.readVirtualMemory vma).tag value.tag, value.data⟩) := by
  rw [storeContents, storeContentsInternal, memoryReadInternal_plain h]
  rfl

theorem plain_of_fixnum {object : LispObj} (h : tagType object.tag = typeFixnum) :
    Elements.Plain .dataRead object := by
  rw [Elements.Plain, action, h]
  rfl

theorem forward_of_plain {object : LispObj} (h : Elements.Plain cycle object) :
    forward cycle object = none := by
  rw [forward, h]
  rfl

end Cycles

/-! ### Stores are read back -/

namespace Elements

section Fields

variable {a : Elements} {s t : ProcessorState} {index j : Integer} {value : LispObj}

/-- The bits that are stored for a value. -/
def bits (a : Elements) (value : LispObj) : Integer :=
  match a.type with
  | .boolean => if tagType value.tag = typeNIL then 0 else -1
  | _ => value.data

theorem field_setField (hpacking : a.packing ≤ 5) (data i w : Integer) :
    a.field i (a.setField data i w) = data &&& low 32 (bytePackingSize a.packing) := by
  unfold field setField
  by_cases h : a.packing = 0
  · rw [if_neg (by simpa using h), if_neg (by simpa using h), h]
    exact (BitVec.and_allOnes (x := data)).symm
  · rw [if_pos h, if_pos h, ldb_dpb_self _ _ _ hpacking h]

theorem field_setField_of_ne (hpacking : a.packing ≤ 5) {i k : Integer}
    (hword : i.sshiftRight a.packing = k.sshiftRight a.packing) (hne : i ≠ k)
    (data w : Integer) : a.field k (a.setField data i w) = a.field k w := by
  have hplace := place_ne i k hpacking hword hne
  have h : a.packing ≠ 0 := by
    intro h
    rw [h, Nat.pow_zero, Nat.mod_one, Nat.mod_one] at hplace
    exact hplace rfl
  unfold field setField
  rw [if_pos h, if_pos h, if_pos h, ldb_dpb_of_ne _ _ _ _ hpacking h hplace]

theorem range_eq (a : Elements) : a.range = 2 ^ bytePackingSize a.packing := by
  rw [range, bytePackingSize, Nat.shiftRight_eq_div_pow]

theorem bytePackingSize_le (b : Nat) : bytePackingSize b ≤ 32 := by
  rw [bytePackingSize, Nat.shiftRight_eq_div_pow]
  exact Nat.div_le_self _ _

theorem bytePackingSize_pos (hpacking : a.packing ≤ 5) : 0 < bytePackingSize a.packing := by
  rw [bytePackingSize_eq hpacking]
  exact Nat.two_pow_pos _

/-- What was stored means what is to be read back. -/
theorem valueOf_bits (hpacking : a.packing ≤ 5) (hobjects : a.type ≠ .object)
    (haccepts : a.Accepts value) :
    a.valueOf (a.bits value &&& low 32 (bytePackingSize a.packing)) = pure (a.readBack value) := by
  have hsize := bytePackingSize_le a.packing
  unfold Accepts at haccepts
  unfold valueOf bits readBack
  cases htype : a.type with
  | fixnum =>
      have hmod := BitFields.toNat_and_low value.data hsize
      simp only
      rw [range_eq, ← hmod, BitVec.ofNat_toNat, BitVec.setWidth_eq]
  | character =>
      rw [htype] at haccepts
      simp only
      rw [BitFields.and_low_of_lt _ hsize (by rw [← range_eq]; exact haccepts.2)]
  | boolean =>
      simp only
      split
      · have hzero : (0 : Integer) &&& low 32 (bytePackingSize a.packing) = 0 := BitVec.zero_and
        rw [hzero, if_neg (by simp)]
      · rw [if_pos]
        intro hzero
        have hbit := congrArg (BitVec.getLsbD · 0) hzero
        simp [BitFields.getElem_low, bytePackingSize_pos hpacking] at hbit
  | object => exact absurd htype hobjects

/-- The check of a character fails on every code but 0 when the characters are not packed. -/
theorem fieldOf_eq (hpacking : a.packing ≤ 5) (hobjects : a.type ≠ .object)
    (haccepts : a.Accepts value) :
    a.fieldOf value =
      if a.type = .character ∧ a.packing = 0 ∧ value.data ≠ 0 then throw .illegalOperand
      else pure (a.bits value) := by
  unfold Accepts at haccepts
  unfold fieldOf bits
  cases htype : a.type with
  | fixnum =>
      rw [htype] at haccepts
      simp [typeFixnumP, haccepts]
  | character =>
      rw [htype] at haccepts
      have hlow : a.packing ≠ 0 → arrayElementLdb a.packing 0 value.data = value.data := by
        intro h
        have hzero : bytePackingRotation a.packing 0 = 0 := by
          rw [bytePackingRotation_eq 0 hpacking]
          simp
        rw [arrayElementLdb, fieldMask_eq hpacking h, hzero, extract, BitVec.ushiftRight_zero]
        refine BitFields.and_low_of_lt _ (bytePackingSize_le _) ?_
        rw [← range_eq]
        exact haccepts.2
      have hword : a.packing = 0 → arrayElementLdb a.packing 0 value.data = 0 := by
        intro h
        rw [h, arrayElementLdb, fieldMask_word]
        exact BitVec.and_zero
      have hcheck : arrayElementLdb a.packing 0 value.data ≠ value.data ↔
          a.packing = 0 ∧ value.data ≠ 0 := by
        by_cases h : a.packing = 0
        · rw [hword h, ne_comm]
          exact ⟨fun hcode => ⟨h, hcode⟩, And.right⟩
        · rw [hlow h]
          exact ⟨fun hne => absurd rfl hne, fun hand => absurd hand.1 h⟩
      simp only [hcheck, haccepts.1, ne_eq, not_true_eq_false, false_or, true_and]
  | boolean => simp
  | object => exact absurd htype hobjects

theorem word_of_type (hobjects : a.type ≠ .object) (index : Integer) :
    a.word index = a.vma + (index + a.offset).sshiftRight a.packing :=
  if_neg fun h => hobjects h.1

/-- Reading an element of a fixnum word. -/
theorem aref1Internal_fixnum (hobjects : a.type ≠ .object)
    (hword : tagType (t.readVirtualMemory (a.word j)).tag = typeFixnum) (fuel : Nat) :
    a.aref1Internal t (fuel + 1) j =
      a.valueOf (a.field (j + a.offset) (t.readVirtualMemory (a.word j)).data) := by
  have hread := memoryReadData_plain (plain_of_fixnum hword) fuel
  rw [word_of_type hobjects] at hread hword ⊢
  have hfix : typeFixnumP (t.readVirtualMemory
      (a.vma + (j + a.offset).sshiftRight a.packing)).tag = true := by simp [typeFixnumP, hword]
  rw [aref1Internal, if_neg fun h => hobjects h.1]
  simp only [hread, pure_bind, hfix]
  rfl

theorem aset1Internal_fixnum (hobjects : a.type ≠ .object)
    (hword : tagType (s.readVirtualMemory (a.word index)).tag = typeFixnum) (fuel : Nat) :
    a.aset1Internal s (fuel + 1) index value =
      a.fieldOf value >>= fun data => pure (s.writeVirtualMemory (a.word index)
        ⟨(s.readVirtualMemory (a.word index)).tag,
          a.setField data (index + a.offset) (s.readVirtualMemory (a.word index)).data⟩) := by
  have hread := memoryReadData_plain (plain_of_fixnum hword) fuel
  rw [word_of_type hobjects] at hread hword ⊢
  have hfix : typeFixnumP (s.readVirtualMemory
      (a.vma + (index + a.offset).sshiftRight a.packing)).tag = true := by
    simp [typeFixnumP, hword]
  rw [aset1Internal, if_neg fun h => hobjects h.1]
  simp only [hread, pure_bind, hfix]
  rfl

/-- An access depends on no other word than its element's, unless that forwards. -/
theorem aref1Internal_congr
    (hsame : t.readVirtualMemory (a.word j) = s.readVirtualMemory (a.word j))
    (hlast : forward .dataRead (s.readVirtualMemory (a.word j)) = none) (fuel : Nat) :
    a.aref1Internal t fuel j = a.aref1Internal s fuel j := by
  have hread : t.memoryReadData fuel (a.word j) = s.memoryReadData fuel (a.word j) := by
    rw [memoryReadData, memoryReadData, memoryReadInternal_congr hsame hlast]
  unfold aref1Internal
  unfold word at hread
  split
  · rename_i h
    rw [if_pos h] at hread
    rw [hread]
  · rename_i h
    rw [if_neg h] at hread
    simp only [hread]

end Fields

/-! ### Objects -/

section Objects

variable {a : Elements} {s t : ProcessorState} {index : Integer} {value : LispObj} {fuel : Nat}

theorem cdrNext_mergeCdr (cdr : Tag) (value : LispObj) :
    LispObj.cdrNext ⟨mergeCdr cdr value.tag, value.data⟩ = value.cdrNext := by
  have hmerge : tagType (mergeCdr cdr value.tag) = tagType value.tag := by
    unfold tagType mergeCdr
    ext i hi
    interval_cases i <;> simp
  rw [LispObj.cdrNext, hmerge, LispObj.cdrNext]

theorem action_cdrNext (cycle : Cycle) (object : LispObj) :
    action cycle object.cdrNext = action cycle object := by
  have htwice : tagType (tagType object.tag) = tagType object.tag := by
    rw [tagType, tagType, BitVec.and_assoc, BitVec.and_self]
  rw [action, LispObj.cdrNext, htwice, action]

/-- The action of a stored object is that of the object. -/
theorem action_mergeCdr (cycle : Cycle) (cdr : Tag) (value : LispObj) :
    action cycle ⟨mergeCdr cdr value.tag, value.data⟩ = action cycle value := by
  rw [← action_cdrNext, cdrNext_mergeCdr, action_cdrNext]

theorem forward_mergeCdr (cycle : Cycle) (cdr : Tag) (value : LispObj) :
    forward cycle ⟨mergeCdr cdr value.tag, value.data⟩ = forward cycle value := by
  rw [forward, action_mergeCdr, forward]

theorem word_of_objects (h : a.Objects) (index : Integer) : a.word index = a.vma + index :=
  if_pos h

theorem aref1Internal_objects (h : a.Objects) :
    a.aref1Internal s fuel index =
      s.memoryReadData fuel (a.word index) >>= fun r => pure r.2.cdrNext := by
  rw [aref1Internal, if_pos h, word_of_objects h]

theorem aset1Internal_objects (h : a.Objects) :
    a.aset1Internal s fuel index value = s.storeContents fuel (a.word index) value := by
  rw [aset1Internal, if_pos h, word_of_objects h]

/-- Objects are stored over plain words only. -/
theorem plain_of_storeContents {vma : Integer}
    (hlast : forward .dataWrite (s.readVirtualMemory vma) = none)
    (h : s.storeContents (fuel + 1) vma value = pure t) :
    Plain .dataWrite (s.readVirtualMemory vma) := by
  rw [storeContents, storeContentsInternal] at h
  cases hread : s.memoryReadInternal .dataWrite (fuel + 1) vma with
  | none =>
      rw [hread] at h
      cases h
  | some outcome =>
      rw [hread] at h
      cases outcome with
      | value a q => exact plain_of_value hlast hread (.inl rfl)
      | trap vector a => cases h
      | badMemoryAction => cases h

/-- And read as they are when they are plain themselves. -/
theorem plain_of_memoryReadData {vma : Integer}
    (hlast : forward .dataRead (s.readVirtualMemory vma) = none)
    (h : (s.memoryReadData (fuel + 1) vma >>= fun r => pure r.2.cdrNext : Access LispObj) =
      pure (s.readVirtualMemory vma).cdrNext) :
    Plain .dataRead (s.readVirtualMemory vma) := by
  rw [memoryReadData] at h
  cases hread : s.memoryReadInternal .dataRead (fuel + 1) vma with
  | none =>
      rw [hread] at h
      cases h
  | some outcome =>
      rw [hread] at h
      cases outcome with
      | value a q =>
          have hobject : q.cdrNext = (s.readVirtualMemory vma).cdrNext :=
            Except.ok.inj (Option.some.inj h)
          exact plain_of_value hlast hread (.inr hobject)
      | trap vector a => cases h
      | badMemoryAction => cases h

end Objects

/-! ### Stores are exact -/

/-- An array as the accesses are given it, and a value for it.  Neither the word of an object
nor the object forwards. -/
structure Admissible (a : Elements) (s : ProcessorState) (index : Integer) (value : LispObj) :
    Prop where
  packing : a.packing ≤ 5
  unpacked : a.type = .object → a.packing = 0
  fixnums : a.type ≠ .object → tagType (s.readVirtualMemory (a.word index)).tag = typeFixnum
  unforwarded : a.type = .object →
    forward .dataWrite (s.readVirtualMemory (a.word index)) = none ∧
      forward .dataRead value = none
  accepts : a.Accepts value

/-- The stores that are exact. -/
structure Storable (a : Elements) (s : ProcessorState) (index : Integer) (value : LispObj) :
    Prop where
  code : a.type = .character → a.packing = 0 → value.data = 0
  plain : a.type = .object →
    Plain .dataWrite (s.readVirtualMemory (a.word index)) ∧ Plain .dataRead value

section Exact

variable {a : Elements} {s t : ProcessorState} {index : Integer} {value : LispObj}

theorem storesExactly_fixnum (h : a.Admissible s index value) (hobjects : a.type ≠ .object)
    (hstorable : a.Storable s index value) : a.StoresExactly s index value := by
  have hword := h.fixnums hobjects
  have hfield : a.fieldOf value = pure (a.bits value) := by
    rw [fieldOf_eq h.packing hobjects h.accepts, if_neg]
    exact fun hand => hand.2.2 (hstorable.code hand.1 hand.2.1)
  obtain ⟨q, hq⟩ : ∃ q, s.readVirtualMemory (a.word index) = q := ⟨_, rfl⟩
  let t := s.writeVirtualMemory (a.word index)
    ⟨q.tag, a.setField (a.bits value) (index + a.offset) q.data⟩
  have hself : t.readVirtualMemory (a.word index) =
      ⟨q.tag, a.setField (a.bits value) (index + a.offset) q.data⟩ := by
    rw [readVirtualMemory_write, if_pos rfl]
  have hother : ∀ vma, vma ≠ a.word index → t.readVirtualMemory vma = s.readVirtualMemory vma := by
    intro vma hne
    rw [readVirtualMemory_write, if_neg hne]
  rw [hq] at hword
  refine ⟨t, fun fuel => ?_, fun fuel => ?_, fun j hj hlast fuel => ?_, hother⟩
  · rw [aset1Internal_fixnum hobjects (by rw [hq, hword]), hfield, pure_bind, hq]
  · rw [aref1Internal_fixnum hobjects (by rw [hself, hword]), hself,
      field_setField h.packing, valueOf_bits h.packing hobjects h.accepts]
  · by_cases hsame : a.word j = a.word index
    · cases fuel with
      | zero =>
          rw [aref1Internal, aref1Internal, if_neg fun h => hobjects h.1,
            if_neg fun h => hobjects h.1]
          rfl
      | succ fuel =>
          have hne : index + a.offset ≠ j + a.offset := fun heq =>
            hj ((BitVec.add_left_inj _).mp heq).symm
          have hshift : (index + a.offset).sshiftRight a.packing =
              (j + a.offset).sshiftRight a.packing := by
            rw [word_of_type hobjects, word_of_type hobjects] at hsame
            exact ((BitVec.add_right_inj _).mp hsame).symm
          rw [aref1Internal_fixnum hobjects (by rw [hsame, hself, hword]),
            aref1Internal_fixnum hobjects (by rw [hsame, hq, hword]), hsame, hself, hq,
            field_setField_of_ne h.packing hshift hne]
    · exact aref1Internal_congr (hother _ hsame) hlast fuel

theorem storesExactly_objects (hobjects : a.Objects) (hstorable : a.Storable s index value) :
    a.StoresExactly s index value := by
  obtain ⟨hwrite, hread⟩ := hstorable.plain hobjects.1
  obtain ⟨q, hq⟩ : ∃ q, s.readVirtualMemory (a.word index) = q := ⟨_, rfl⟩
  let t := s.writeVirtualMemory (a.word index) ⟨mergeCdr q.tag value.tag, value.data⟩
  have hself : t.readVirtualMemory (a.word index) = ⟨mergeCdr q.tag value.tag, value.data⟩ := by
    rw [readVirtualMemory_write, if_pos rfl]
  have hother : ∀ vma, vma ≠ a.word index → t.readVirtualMemory vma = s.readVirtualMemory vma := by
    intro vma hne
    rw [readVirtualMemory_write, if_neg hne]
  have hplain : Plain .dataRead (t.readVirtualMemory (a.word index)) := by
    rw [hself, Plain, action_mergeCdr]
    exact hread
  refine ⟨t, fun fuel => ?_, fun fuel => ?_, fun j hj hlast fuel => ?_, hother⟩
  · rw [aset1Internal_objects hobjects, storeContents_plain hwrite, hq]
  · rw [aref1Internal_objects hobjects, memoryReadData_plain hplain, pure_bind, hself,
      cdrNext_mergeCdr, readBack, hobjects.1]
  · refine aref1Internal_congr (hother _ fun hsame => hj ?_) hlast fuel
    rw [word_of_objects hobjects, word_of_objects hobjects] at hsame
    exact (BitVec.add_right_inj _).mp hsame

/-- A character that is not packed is refused. -/
theorem not_storesExactly_of_code (h : a.Admissible s index value) (hchar : a.type = .character)
    (hpacking : a.packing = 0) (hcode : value.data ≠ 0) : ¬ a.StoresExactly s index value := by
  intro hexact
  have hobjects : a.type ≠ .object := by simp [hchar]
  obtain ⟨t, hset, -⟩ := hexact
  have hset := hset 0
  rw [aset1Internal_fixnum hobjects (h.fixnums hobjects), fieldOf_eq h.packing hobjects h.accepts,
    if_pos ⟨hchar, hpacking, hcode⟩] at hset
  cases hset

/-- **When an array store is exact.**  A value of the element type is stored, is read back
and leaves every other element and word as it was, exactly when it is not a character with a
code in an array of whole words; of objects, neither the one stored nor the one overwritten
may be special to the memory. -/
theorem storesExactly_iff (h : a.Admissible s index value) :
    a.StoresExactly s index value ↔ a.Storable s index value := by
  by_cases htype : a.type = .object
  · have hobjects : a.Objects := ⟨htype, h.unpacked htype⟩
    refine ⟨fun hexact => ⟨fun hchar => ?_, fun _ => ?_⟩, storesExactly_objects hobjects⟩
    · rw [htype] at hchar
      cases hchar
    · obtain ⟨t, hset, hget, -⟩ := hexact
      obtain ⟨hwriteLast, hreadLast⟩ := h.unforwarded htype
      have hset := hset 0
      have hget := hget 0
      rw [aset1Internal_objects hobjects] at hset
      have hwrite := plain_of_storeContents hwriteLast hset
      rw [storeContents_plain hwrite] at hset
      obtain rfl : _ = t := Except.ok.inj (Option.some.inj hset)
      generalize (s.readVirtualMemory (a.word index)).tag = cdr at hget
      have hstored : (s.writeVirtualMemory (a.word index)
          ⟨mergeCdr cdr value.tag, value.data⟩).readVirtualMemory (a.word index) =
            ⟨mergeCdr cdr value.tag, value.data⟩ := by
        rw [readVirtualMemory_write, if_pos rfl]
      rw [aref1Internal_objects hobjects, readBack, htype] at hget
      have hplain := plain_of_memoryReadData (by rw [hstored, forward_mergeCdr, hreadLast])
        (by rw [hstored, cdrNext_mergeCdr]; exact hget)
      rw [hstored, Plain, action_mergeCdr] at hplain
      exact ⟨hwrite, hplain⟩
  · refine ⟨fun hexact => ⟨fun hchar hpacking => ?_, fun hobject => absurd hobject htype⟩,
      storesExactly_fixnum h htype⟩
    by_contra hcode
    exact not_storesExactly_of_code h hchar hpacking hcode hexact

end Exact

/-- Four bits of a word of fixnums. -/
theorem storesExactly_iff_packed :
    (⟨0x1000, 3, 0, .fixnum⟩ : Elements).StoresExactly (uniform ⟨typeFixnum, 5⟩) 2
        ⟨typeFixnum, 0xFF⟩ ↔
      (⟨0x1000, 3, 0, .fixnum⟩ : Elements).Storable (uniform ⟨typeFixnum, 5⟩) 2
        ⟨typeFixnum, 0xFF⟩ :=
  storesExactly_iff
    { packing := by decide
      unpacked := by decide
      fixnums := fun _ => by rw [readVirtualMemory_uniform]; rfl
      unforwarded := by decide
      accepts := rfl }

/-- The character A in an array of whole words is an illegal operand. -/
theorem not_storesExactly_character :
    (⟨0x1000, 0, 0, .character⟩ : Elements).Admissible (uniform ⟨typeFixnum, 5⟩) 2
        ⟨typeCharacter, 65⟩ ∧
      ¬ (⟨0x1000, 0, 0, .character⟩ : Elements).StoresExactly (uniform ⟨typeFixnum, 5⟩) 2
        ⟨typeCharacter, 65⟩ := by
  have h : (⟨0x1000, 0, 0, .character⟩ : Elements).Admissible (uniform ⟨typeFixnum, 5⟩) 2
      ⟨typeCharacter, 65⟩ :=
    { packing := by decide
      unpacked := fun hobject => by cases hobject
      fixnums := fun _ => by rw [readVirtualMemory_uniform]; rfl
      unforwarded := fun hobject => by cases hobject
      accepts := ⟨rfl, by decide⟩ }
  exact ⟨h, not_storesExactly_of_code h rfl rfl (by decide)⟩

end Elements

end Ivory
