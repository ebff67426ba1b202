import OsxVlm.Emulator.ArrayElements
import OsxVlm.Emulator.Lists

/-!
# Array registers

An array register keeps what was decoded from the header of an array, with the low 22 bits
of the event count of that time.  A fast access tests its index against the length that is
kept, and decodes the header again when the bits differ from the event count, which has 32.
-/

namespace Ivory

open Execute (typeFixnumP)
open ProcessorState

def typeArrayInstance : Tag := 0x12
def typeStringInstance : Tag := 0x13
def typeArray : Tag := 0x16
def typeString : Tag := 0x17
def arrayHeaderTag : Tag := 0o103

def arrayLongPrefixP (a : Integer) : Bool := a &&& (1 <<< 23) ≠ 0
def arrayShortLength (a : Integer) : Nat := ldb 15 0 a
def arrayBytePacking (a : Integer) : Nat := ldb 3 27 a

def arrayElementType (a : Integer) : ArrayElementType :=
  match ldb 2 30 a with
  | 0 => .fixnum
  | 1 => .character
  | 2 => .boolean
  | _ => .object

def arrayRegisterByteOffset (r : Integer) : Nat := ldb 5 22 r
def arrayRegisterEventCount (r : Integer) : Nat := ldb 22 0 r

/-- Stores the event count and clears the byte offset. -/
def setArrayRegisterEventCount (c r : Integer) : Integer := dpb (ldb 22 0 c) 27 0 r

/-- The processor with its `ArrayEventCount`. -/
structure ArrayState extends ProcessorState where
  arrayEventCount : Integer

structure ArrayRegister where
  array : LispObj
  control : Integer
  base : Integer
  length : Integer

namespace ArrayState

variable {α : Type}

/-- What is checked of a header that was read. -/
def checkHeader : MemoryOutcome → Except ArrayTrap (Integer × Integer)
  | .value vma header =>
      if header.tag ≠ arrayHeaderTag then .error .illegalOperand
      else if arrayLongPrefixP header.data = true then .error .instructionException
      else .ok (vma, header.data)
  | outcome => .error (.memory outcome)

/-- The header of a short-prefix array and its address, as the accesses and
`RecomputeArrayRegister` find them. -/
def arrayHeader (s : ArrayState) (fuel : Nat) (array : LispObj) : Access (Integer × Integer) :=
  if tagType array.tag = typeArray ∨ tagType array.tag = typeString then
    ExceptT.mk ((s.memoryReadInternal .header fuel array.data).map checkHeader)
  else if tagType array.tag = typeArrayInstance ∨ tagType array.tag = typeStringInstance ∨
      typeSpareP array.tag = true then
    throw .instructionException
  else throw .illegalOperand

/-- An access by the header of the array. -/
def slowAccess (s : ArrayState) (fuel : Nat) (array index : LispObj)
    (access : Elements → Access α) : Access α := do
  if typeFixnumP index.tag = false then throw .illegalOperand
  let (vma, header) ← s.arrayHeader fuel array
  if arrayShortLength header ≤ index.data.toNat then throw .illegalOperand
  access ⟨vma + 1, arrayBytePacking header, 0, arrayElementType header⟩

/-- `ExecuteAref1`; the element is read with fuel of its own. -/
def aref1 (s : ArrayState) (fuel cells : Nat) (array index : LispObj) : Access LispObj :=
  s.slowAccess fuel array index fun a => a.aref1Internal s.toProcessorState cells index.data

/-- `ExecuteAset1`. -/
def aset1 (s : ArrayState) (fuel cells : Nat) (array index value : LispObj) :
    Access ProcessorState :=
  s.slowAccess fuel array index fun a => a.aset1Internal s.toProcessorState cells index.data value

/-- `ExecuteSetup1dArray`: the array is left with the address of its header. -/
def setup1DArray (s : ArrayState) (fuel : Nat) (array : LispObj) : Access ArrayRegister := do
  let (vma, header) ← s.arrayHeader fuel array
  return {
    array := ⟨tagType array.tag, vma⟩
    control := setArrayRegisterEventCount s.arrayEventCount header
    base := vma + 1
    length := .ofNat 32 (arrayShortLength header) }

/-- `RecomputeArrayRegister`. -/
def recomputeArrayRegister (s : ArrayState) (fuel : Nat) (r : ArrayRegister) :
    Access ArrayRegister := do
  let (vma, header) ← s.arrayHeader fuel r.array
  return { r with
    control := setArrayRegisterEventCount s.arrayEventCount header
    base := vma + 1
    length := .ofNat 32 (arrayShortLength header) }

/-- An access by the register, which starts again after the register was computed. -/
def fastAccess (s : ArrayState) (fuel : Nat) (index : LispObj) (access : Elements → Access α) :
    Nat → ArrayRegister → Option (ArrayRegister × Except ArrayTrap α)
  | 0, _ => none
  | rounds + 1, r =>
      if typeFixnumP index.tag = false then some (r, .error .illegalOperand)
      else if r.length.toNat ≤ index.data.toNat then some (r, .error .illegalOperand)
      else if arrayRegisterEventCount r.control ≠ s.arrayEventCount.toNat then
        match (s.recomputeArrayRegister fuel r).run with
        | none => none
        | some (.error trap) => some (r, .error trap)
        | some (.ok r) => fastAccess s fuel index access rounds r
      else
        (access ⟨r.base, arrayBytePacking r.control, .ofNat 32 (arrayRegisterByteOffset r.control),
          arrayElementType r.control⟩).run.map fun outcome => (r, outcome)

/-- `ExecuteFastAref1`. -/
def fastAref1 (s : ArrayState) (fuel cells : Nat) (index : LispObj) :
    Nat → ArrayRegister → Option (ArrayRegister × Except ArrayTrap LispObj) :=
  s.fastAccess fuel index fun a => a.aref1Internal s.toProcessorState cells index.data

/-- `ExecuteFastAset1`. -/
def fastAset1 (s : ArrayState) (fuel cells : Nat) (index value : LispObj) :
    Nat → ArrayRegister → Option (ArrayRegister × Except ArrayTrap ProcessorState) :=
  s.fastAccess fuel index fun a => a.aset1Internal s.toProcessorState cells index.data value

/-- The state that a store leaves. -/
def after (s : ArrayState) : Except ArrayTrap ProcessorState → ArrayState
  | .ok t => { s with toProcessorState := t }
  | .error _ => s

end ArrayState

/-- The histories of a register from its set-up on, with the states that they went through,
the last one first: the memory and the event count change in any way, and accesses are made
by the register. -/
inductive RegisterHistory : List ArrayState → ArrayRegister → Prop
  | setup {s fuel array r} (h : (s.setup1DArray fuel array).run = some (.ok r)) :
      RegisterHistory [s] r
  | change {ss r} (s : ArrayState) (h : RegisterHistory ss r) : RegisterHistory (s :: ss) r
  | aref {s ss r r' fuel cells index rounds outcome} (h : RegisterHistory (s :: ss) r)
      (haref : s.fastAref1 fuel cells index rounds r = some (r', outcome)) :
      RegisterHistory (s :: ss) r'
  | aset {s ss r r' fuel cells index value rounds outcome} (h : RegisterHistory (s :: ss) r)
      (haset : s.fastAset1 fuel cells index value rounds r = some (r', outcome)) :
      RegisterHistory (s.after outcome :: s :: ss) r'

namespace ArrayState

variable {α : Type}

/-- How a decoding of the header of an array ends. -/
def Decodes (s : ArrayState) (array : LispObj) (header : Except ArrayTrap (Integer × Integer)) :
    Prop :=
  ∃ fuel, (s.arrayHeader fuel array).run = some header

/-- The two ways end alike, in the same value or in a trap, or neither of them ends. -/
def AgreesOn (s : ArrayState) (r : ArrayRegister) (index : LispObj)
    (access : Elements → Access α) : Prop :=
  ∀ value : Option α,
    (∃ fuel outcome, (s.slowAccess fuel r.array index access).run = some outcome ∧
      outcome.toOption = value) ↔
    ∃ fuel rounds r' outcome, s.fastAccess fuel index access rounds r = some (r', outcome) ∧
      outcome.toOption = value

/-- The register is long enough for the index, or the array is too short for it as well. -/
def Covers (s : ArrayState) (r : ArrayRegister) (index : LispObj) : Prop :=
  index.data.toNat < r.length.toNat ∨
    ∃ decoded, s.Decodes r.array decoded ∧
      ∀ vma header, decoded = .ok (vma, header) → arrayShortLength header ≤ index.data.toNat

/-- No event count comes back with another header. -/
def Unrepeated (ss : List ArrayState) (array : LispObj) : Prop :=
  ∀ s ∈ ss, ∀ t ∈ ss, s.arrayEventCount = t.arrayEventCount →
    ∀ header, s.Decodes array header ↔ t.Decodes array header

/-- What the claim of the fast accesses asks in a state. -/
structure FastAgrees (s : ArrayState) (r : ArrayRegister) (index : LispObj) : Prop where
  aref (cells : Nat) : s.AgreesOn r index fun a =>
    a.aref1Internal s.toProcessorState cells index.data
  aset (cells : Nat) (value : LispObj) : s.AgreesOn r index fun a =>
    a.aset1Internal s.toProcessorState cells index.data value

end ArrayState

/-! ### The control word -/

section Control

variable (c header : Integer)

theorem getLsbD_setArrayRegisterEventCount {k : Nat} (hk : k < 32) :
    (setArrayRegisterEventCount c header).getLsbD k =
      if k < 22 then c.getLsbD k else if k < 27 then false else header.getLsbD k := by
  have hfield : ∀ k, (BitVec.ofInt 32 (ldb 22 0 c)).getLsbD k =
      (decide (k < 22) && c.getLsbD k) := by
    intro k
    have hext : (BitVec.ofInt 32 (ldb 22 0 c)) = (c.extractLsb' 0 22).setWidth 32 := by
      rw [ldb, BitVec.ofInt_natCast, BitVec.ofNat_toNat]
    rw [hext, BitVec.getLsbD_setWidth, BitVec.getLsbD_extractLsb']
    by_cases h : k < 22
    · simp [h, show k < 32 by omega]
    · simp [h]
  have hdeposit : setArrayRegisterEventCount c header =
      BitFields.deposit (.ofInt 32 (ldb 22 0 c)) (BitFields.low 32 27) 0 header := rfl
  rw [hdeposit, BitFields.getLsbD_deposit _ _ hk, hfield]
  by_cases h : k < 22
  · rw [if_pos (by omega), if_pos h]
    simp [h]
  · by_cases h' : k < 27
    · rw [if_pos (by omega), if_neg h, if_pos h']
      simp [h]
    · rw [if_neg (by omega), if_neg h, if_neg h']

/-- Only 22 bits of the count are kept. -/
theorem arrayRegisterEventCount_set :
    arrayRegisterEventCount (setArrayRegisterEventCount c header) = c.toNat % 2 ^ 22 := by
  have hldb : arrayRegisterEventCount (setArrayRegisterEventCount c header) = ldb 22 0 c := by
    refine ldb_congr fun i hi => ?_
    rw [Nat.zero_add, getLsbD_setArrayRegisterEventCount _ _ (by omega), if_pos hi]
  rw [hldb, ldb, BitVec.extractLsb'_toNat, Nat.shiftRight_zero]

theorem arrayRegisterByteOffset_set :
    arrayRegisterByteOffset (setArrayRegisterEventCount c header) = 0 := by
  have hldb : arrayRegisterByteOffset (setArrayRegisterEventCount c header) = ldb 5 22 0 := by
    refine ldb_congr fun i hi => ?_
    rw [getLsbD_setArrayRegisterEventCount _ _ (by omega), if_neg (by omega), if_pos (by omega)]
    simp
  rw [hldb]
  rfl

theorem arrayBytePacking_set :
    arrayBytePacking (setArrayRegisterEventCount c header) = arrayBytePacking header := by
  refine ldb_congr fun i hi => ?_
  rw [getLsbD_setArrayRegisterEventCount _ _ (by omega), if_neg (by omega), if_neg (by omega)]

theorem arrayElementType_set :
    arrayElementType (setArrayRegisterEventCount c header) = arrayElementType header := by
  have hldb : ldb 2 30 (setArrayRegisterEventCount c header) = ldb 2 30 header := by
    refine ldb_congr fun i hi => ?_
    rw [getLsbD_setArrayRegisterEventCount _ _ (by omega), if_neg (by omega), if_neg (by omega)]
  rw [arrayElementType, hldb, arrayElementType]

theorem arrayShortLength_lt : arrayShortLength header < 2 ^ 15 := by
  rw [arrayShortLength, ldb]
  exact BitVec.isLt _

end Control

/-! ### Decoding the header -/

namespace ProcessorState

variable {s : ProcessorState} {cycle : Cycle} {vma : Integer} {fuel fuel' : Nat}
  {outcome : MemoryOutcome}

/-- More fuel does not change how a read ends. -/
theorem memoryReadInternal_mono (h : s.memoryReadInternal cycle fuel vma = some outcome)
    (hle : fuel ≤ fuel') : s.memoryReadInternal cycle fuel' vma = some outcome := by
  induction fuel generalizing vma fuel' with
  | zero => cases h
  | succ fuel ih =>
      obtain ⟨fuel', rfl⟩ := Nat.exists_eq_add_one_of_ne_zero (show fuel' ≠ 0 by omega)
      rw [memoryReadInternal_succ] at h ⊢
      split at h <;> simp_all

/-- The cell where a read ended is read in the same way by itself. -/
theorem memoryReadInternal_again {a : Integer} {q : LispObj}
    (h : s.memoryReadInternal cycle fuel vma = some (.value a q)) :
    s.memoryReadInternal cycle fuel a = some (.value a q) := by
  induction fuel generalizing vma with
  | zero => cases h
  | succ fuel ih =>
      have hsucc := h
      rw [memoryReadInternal_succ] at h
      split at h
      · obtain ⟨rfl, rfl⟩ := MemoryOutcome.value.inj (Option.some.inj h)
        exact hsucc
      · cases h
      · obtain ⟨rfl, rfl⟩ := MemoryOutcome.value.inj (Option.some.inj h)
        exact hsucc
      · cases h
      · exact memoryReadInternal_mono (ih h) (Nat.le_succ fuel)
      · cases h

end ProcessorState

namespace ArrayState

section Decoding

variable {s t : ArrayState} {array : LispObj} {fuel fuel' : Nat}
  {decoded decoded' : Except ArrayTrap (Integer × Integer)}

theorem arrayHeader_mono (h : (s.arrayHeader fuel array).run = some decoded)
    (hle : fuel ≤ fuel') : (s.arrayHeader fuel' array).run = some decoded := by
  unfold arrayHeader at h ⊢
  split
  · rename_i htype
    rw [if_pos htype] at h
    obtain ⟨outcome, hread, hcheck⟩ := Option.map_eq_some_iff.mp h
    exact Option.map_eq_some_iff.mpr ⟨outcome, memoryReadInternal_mono hread hle, hcheck⟩
  · rename_i htype
    rwa [if_neg htype] at h

theorem Decodes.unique (h : s.Decodes array decoded) (h' : s.Decodes array decoded') :
    decoded = decoded' := by
  obtain ⟨fuel, h⟩ := h
  obtain ⟨fuel', h'⟩ := h'
  have hmore := arrayHeader_mono h (Nat.le_max_left fuel fuel')
  have hmore' := arrayHeader_mono h' (Nat.le_max_right fuel fuel')
  exact Option.some.inj (hmore.symm.trans hmore')

theorem checkHeader_ok {outcome : MemoryOutcome} {vma header : Integer}
    (h : checkHeader outcome = .ok (vma, header)) :
    ∃ q, outcome = .value vma q := by
  cases outcome with
  | value a q =>
      simp only [checkHeader] at h
      split_ifs at h
      obtain ⟨rfl, -⟩ := Prod.mk.inj (Except.ok.inj h)
      exact ⟨q, rfl⟩
  | trap vector a => cases h
  | badMemoryAction => cases h

/-- The array that a set-up leaves is decoded like the one that it was given. -/
theorem arrayHeader_again {vma header : Integer}
    (h : (s.arrayHeader fuel array).run = some (.ok (vma, header))) :
    (s.arrayHeader fuel ⟨tagType array.tag, vma⟩).run = some (.ok (vma, header)) := by
  have htwice : tagType (tagType array.tag) = tagType array.tag := by
    rw [tagType, tagType, BitVec.and_assoc, BitVec.and_self]
  unfold arrayHeader at h ⊢
  simp only [htwice]
  split at h
  · rename_i htype
    rw [if_pos htype]
    obtain ⟨outcome, hread, hcheck⟩ := Option.map_eq_some_iff.mp h
    obtain ⟨q, rfl⟩ := checkHeader_ok hcheck
    exact Option.map_eq_some_iff.mpr ⟨_, memoryReadInternal_again hread, hcheck⟩
  · split at h <;> cases h

end Decoding

/-! ### What a register holds -/

section Built

variable {s t : ArrayState} {r r' : ArrayRegister} {fuel rounds : Nat} {index : LispObj}
  {access : Elements → Access α} {outcome : Except ArrayTrap α}

/-- The register holds what the header of its array was decoded to. -/
def Built (s : ArrayState) (r : ArrayRegister) : Prop :=
  ∃ vma header, s.Decodes r.array (.ok (vma, header)) ∧
    r = { array := r.array
          control := setArrayRegisterEventCount s.arrayEventCount header
          base := vma + 1
          length := .ofNat 32 (arrayShortLength header) }

theorem setup1DArray_built {array : LispObj}
    (h : (s.setup1DArray fuel array).run = some (.ok r)) : s.Built r := by
  unfold setup1DArray at h
  cases hdecoded : (s.arrayHeader fuel array).run with
  | none =>
      rw [ExceptT.run_bind, hdecoded] at h
      cases h
  | some decoded =>
      rw [ExceptT.run_bind, hdecoded] at h
      cases decoded with
      | error trap => cases h
      | ok place =>
          obtain ⟨vma, header⟩ := place
          obtain rfl := Except.ok.inj (Option.some.inj h)
          exact ⟨vma, header, ⟨fuel, arrayHeader_again hdecoded⟩, rfl⟩

theorem recomputeArrayRegister_run (s : ArrayState) (fuel : Nat) (r : ArrayRegister) :
    (s.recomputeArrayRegister fuel r).run =
      (s.arrayHeader fuel r.array).run.map (Except.map fun (vma, header) =>
        { array := r.array
          control := setArrayRegisterEventCount s.arrayEventCount header
          base := vma + 1
          length := .ofNat 32 (arrayShortLength header) }) := by
  unfold recomputeArrayRegister
  rw [ExceptT.run_bind]
  cases (s.arrayHeader fuel r.array).run with
  | none => rfl
  | some decoded => cases decoded <;> rfl

theorem recomputeArrayRegister_built
    (h : (s.recomputeArrayRegister fuel r).run = some (.ok r')) :
    r'.array = r.array ∧ s.Built r' := by
  rw [recomputeArrayRegister_run] at h
  obtain ⟨decoded, hdecoded, hmap⟩ := Option.map_eq_some_iff.mp h
  cases decoded with
  | error trap => cases hmap
  | ok place =>
      obtain rfl := Except.ok.inj hmap
      exact ⟨rfl, place.1, place.2, ⟨fuel, hdecoded⟩, rfl⟩

/-- A fast access leaves its register as it was, or computed in this state. -/
theorem fastAccess_register
    (h : s.fastAccess fuel index access rounds r = some (r', outcome)) :
    r'.array = r.array ∧ (r' = r ∨ s.Built r') := by
  induction rounds generalizing r with
  | zero => cases h
  | succ rounds ih =>
      rw [fastAccess] at h
      split_ifs at h
      · obtain ⟨rfl, -⟩ := Prod.mk.inj (Option.some.inj h)
        exact ⟨rfl, .inl rfl⟩
      · obtain ⟨rfl, -⟩ := Prod.mk.inj (Option.some.inj h)
        exact ⟨rfl, .inl rfl⟩
      · split at h
        · cases h
        · obtain ⟨rfl, -⟩ := Prod.mk.inj (Option.some.inj h)
          exact ⟨rfl, .inl rfl⟩
        · rename_i hrecompute
          obtain ⟨harray, hbuilt⟩ := recomputeArrayRegister_built hrecompute
          obtain ⟨harray', hsame⟩ := ih h
          refine ⟨harray'.trans harray, .inr ?_⟩
          obtain rfl | hbuilt' := hsame
          · exact hbuilt
          · exact hbuilt'
      · obtain ⟨outcome', -, hpair⟩ := Option.map_eq_some_iff.mp h
        obtain ⟨rfl, -⟩ := Prod.mk.inj hpair
        exact ⟨rfl, .inl rfl⟩

/-- A register was built in a state of its history. -/
theorem built_of_history {ss : List ArrayState} (h : RegisterHistory ss r) :
    ∃ s ∈ ss, s.Built r := by
  induction h with
  | setup h => exact ⟨_, List.mem_cons_self, setup1DArray_built h⟩
  | change s h ih =>
      obtain ⟨t, ht, hbuilt⟩ := ih
      exact ⟨t, List.mem_cons_of_mem _ ht, hbuilt⟩
  | aref h haref ih =>
      obtain ⟨t, ht, hbuilt⟩ := ih
      obtain rfl | hbuilt' := (fastAccess_register haref).2
      · exact ⟨t, ht, hbuilt⟩
      · exact ⟨_, List.mem_cons_self, hbuilt'⟩
  | aset h haset ih =>
      obtain ⟨t, ht, hbuilt⟩ := ih
      obtain rfl | hbuilt' := (fastAccess_register haset).2
      · exact ⟨t, List.mem_cons_of_mem _ ht, hbuilt⟩
      · exact ⟨_, List.mem_cons_of_mem _ List.mem_cons_self, hbuilt'⟩

end Built

/-! ### How the two ways end -/

section Agreement

variable {s : ArrayState} {r : ArrayRegister} {array index : LispObj} {fuel rounds : Nat}
  {vma header c : Integer} {access : Elements → Access α} {outcome : Except ArrayTrap α}

/-- An access after its header was decoded. -/
def boundedAccess (index : LispObj) (access : Elements → Access α) (vma header : Integer) :
    Access α := do
  if arrayShortLength header ≤ index.data.toNat then throw .illegalOperand
  access ⟨vma + 1, arrayBytePacking header, 0, arrayElementType header⟩

/-- How an access ends after a decoding. -/
def EndsAfter (index : LispObj) (access : Elements → Access α)
    (decoded : Except ArrayTrap (Integer × Integer)) (outcome : Except ArrayTrap α) : Prop :=
  match decoded with
  | .error trap => outcome = .error trap
  | .ok (vma, header) => (boundedAccess index access vma header).run = some outcome

theorem slowAccess_iff (hindex : typeFixnumP index.tag = true) :
    (∃ fuel, (s.slowAccess fuel array index access).run = some outcome) ↔
      ∃ decoded, s.Decodes array decoded ∧ EndsAfter index access decoded outcome := by
  have hrun : ∀ fuel, (s.slowAccess fuel array index access).run =
      (s.arrayHeader fuel array).run.bind fun
        | .error trap => some (.error trap)
        | .ok (vma, header) => (boundedAccess index access vma header).run := by
    intro fuel
    unfold slowAccess
    rw [if_neg (by simp [hindex])]
    simp only [ExceptT.run_bind]
    cases (s.arrayHeader fuel array).run with
    | none => rfl
    | some decoded => cases decoded <;> rfl
  constructor
  · intro h
    obtain ⟨fuel, h⟩ := h
    rw [hrun] at h
    obtain ⟨decoded, hdecoded, hends⟩ := Option.bind_eq_some_iff.mp h
    refine ⟨decoded, ⟨fuel, hdecoded⟩, ?_⟩
    cases decoded with
    | error trap => exact (Option.some.inj hends).symm
    | ok place => exact hends
  · intro h
    obtain ⟨decoded, ⟨fuel, hdecoded⟩, hends⟩ := h
    refine ⟨fuel, ?_⟩
    rw [hrun, hdecoded]
    cases decoded with
    | error trap => exact congrArg some hends.symm
    | ok place => exact hends

theorem toNat_arrayShortLength (header : Integer) :
    (BitVec.ofNat 32 (arrayShortLength header)).toNat = arrayShortLength header := by
  have hlt := arrayShortLength_lt header
  rw [BitVec.toNat_ofNat, Nat.mod_eq_of_lt (by omega)]

/-- A register whose count is current gives the access that the header gives. -/
theorem fastAccess_current (hindex : typeFixnumP index.tag = true)
    (hcount : c.toNat % 2 ^ 22 = s.arrayEventCount.toNat) :
    s.fastAccess fuel index access (rounds + 1)
        ⟨array, setArrayRegisterEventCount c header, vma + 1, .ofNat 32 (arrayShortLength header)⟩ =
      (boundedAccess index access vma header).run.map fun outcome =>
        (⟨array, setArrayRegisterEventCount c header, vma + 1,
          .ofNat 32 (arrayShortLength header)⟩, outcome) := by
  rw [fastAccess, if_neg (by simp [hindex])]
  simp only [toNat_arrayShortLength, arrayRegisterEventCount_set, arrayRegisterByteOffset_set,
    arrayBytePacking_set, arrayElementType_set, hcount, ne_eq, not_true_eq_false, if_false]
  unfold boundedAccess
  split
  · rfl
  · rfl

/-- More rounds do not change how a fast access ends. -/
theorem fastAccess_mono {result : ArrayRegister × Except ArrayTrap α}
    (h : s.fastAccess fuel index access rounds r = some result) :
    s.fastAccess fuel index access (rounds + 1) r = some result := by
  induction rounds generalizing r with
  | zero => cases h
  | succ rounds ih =>
      rw [fastAccess] at h ⊢
      split_ifs at h ⊢
      · exact h
      · exact h
      · split at h
        · cases h
        · exact h
        · exact ih h
      · exact h

/-- A fast access ends with this outcome. -/
def FastEnds (s : ArrayState) (r : ArrayRegister) (index : LispObj) (access : Elements → Access α)
    (outcome : Except ArrayTrap α) : Prop :=
  ∃ fuel rounds r', s.fastAccess fuel index access rounds r = some (r', outcome)

theorem agreesOn_of_iff
    (h : ∀ outcome, (∃ fuel, (s.slowAccess fuel r.array index access).run = some outcome) ↔
      s.FastEnds r index access outcome) : s.AgreesOn r index access := by
  intro value
  constructor
  · intro hslow
    obtain ⟨fuel, outcome, hrun, hvalue⟩ := hslow
    obtain ⟨fuel, rounds, r', hfast⟩ := (h outcome).mp ⟨fuel, hrun⟩
    exact ⟨fuel, rounds, r', outcome, hfast, hvalue⟩
  · intro hfast
    obtain ⟨fuel, rounds, r', outcome, hrun, hvalue⟩ := hfast
    obtain ⟨fuel, hslow⟩ := (h outcome).mpr ⟨fuel, rounds, r', hrun⟩
    exact ⟨fuel, outcome, hslow, hvalue⟩

/-- A fast access that stops in its first round ends so only. -/
theorem fastEnds_iff_of_stops {trap : ArrayTrap}
    (h : ∀ fuel rounds, s.fastAccess fuel index access (rounds + 1) r = some (r, .error trap)) :
    s.FastEnds r index access outcome ↔ outcome = .error trap := by
  constructor
  · intro hends
    obtain ⟨fuel, rounds, r', hrun⟩ := hends
    have hmore := fastAccess_mono hrun
    rw [h] at hmore
    exact (Prod.mk.inj (Option.some.inj hmore)).2.symm
  · intro heq
    subst heq
    exact ⟨0, 1, r, h 0 0⟩

theorem agreesOn_of_not_fixnum (hindex : typeFixnumP index.tag = false) :
    s.AgreesOn r index access := by
  have hslow : ∀ fuel, (s.slowAccess fuel r.array index access).run =
      some (.error .illegalOperand) := by
    intro fuel
    unfold slowAccess
    rw [if_pos hindex]
    rfl
  have hfast : ∀ fuel rounds, s.fastAccess fuel index access (rounds + 1) r =
      some (r, .error .illegalOperand) := by
    intro fuel rounds
    rw [fastAccess, if_pos hindex]
  refine agreesOn_of_iff fun outcome => ?_
  rw [fastEnds_iff_of_stops hfast]
  constructor
  · intro h
    obtain ⟨fuel, hrun⟩ := h
    rw [hslow] at hrun
    exact (Option.some.inj hrun).symm
  · intro h
    subst h
    exact ⟨0, hslow 0⟩

/-- A current register agrees with the header. -/
theorem agreesOn_of_current (hindex : typeFixnumP index.tag = true)
    (hdecodes : s.Decodes r.array (.ok (vma, header)))
    (hr : r = ⟨r.array, setArrayRegisterEventCount c header, vma + 1,
      .ofNat 32 (arrayShortLength header)⟩)
    (hcount : c.toNat % 2 ^ 22 = s.arrayEventCount.toNat) : s.AgreesOn r index access := by
  have hfast : ∀ fuel rounds, s.fastAccess fuel index access (rounds + 1) r =
      (boundedAccess index access vma header).run.map fun outcome => (r, outcome) := by
    intro fuel rounds
    rw [hr]
    exact fastAccess_current hindex hcount
  refine agreesOn_of_iff fun outcome => ?_
  rw [slowAccess_iff hindex]
  constructor
  · intro h
    obtain ⟨decoded, hdecoded, hends⟩ := h
    obtain rfl := hdecoded.unique hdecodes
    exact ⟨0, 1, r, by rw [hfast, hends]; rfl⟩
  · intro h
    obtain ⟨fuel, rounds, r', hrun⟩ := h
    have hmore := fastAccess_mono hrun
    rw [hfast] at hmore
    obtain ⟨outcome', hbounded, hpair⟩ := Option.map_eq_some_iff.mp hmore
    obtain ⟨-, rfl⟩ := Prod.mk.inj hpair
    exact ⟨_, hdecodes, hbounded⟩

/-- A register that is computed again agrees, when its length lets the index through. -/
theorem agreesOn_of_recomputed (hindex : typeFixnumP index.tag = true)
    (hlength : index.data.toNat < r.length.toNat)
    (hstale : arrayRegisterEventCount r.control ≠ s.arrayEventCount.toNat)
    (hsmall : s.arrayEventCount.toNat < 2 ^ 22) : s.AgreesOn r index access := by
  have hcount : s.arrayEventCount.toNat % 2 ^ 22 = s.arrayEventCount.toNat :=
    Nat.mod_eq_of_lt hsmall
  have hfast : ∀ fuel rounds, s.fastAccess fuel index access (rounds + 2) r =
      (s.arrayHeader fuel r.array).run.bind fun
        | .error trap => some (r, .error trap)
        | .ok (vma, header) =>
            (boundedAccess index access vma header).run.map fun outcome =>
              (⟨r.array, setArrayRegisterEventCount s.arrayEventCount header, vma + 1,
                .ofNat 32 (arrayShortLength header)⟩, outcome) := by
    intro fuel rounds
    rw [fastAccess, if_neg (by simp [hindex]), if_neg (by omega), if_pos hstale,
      recomputeArrayRegister_run]
    cases (s.arrayHeader fuel r.array).run with
    | none => rfl
    | some decoded =>
        cases decoded with
        | error trap => rfl
        | ok place => exact fastAccess_current hindex hcount
  refine agreesOn_of_iff fun outcome => ?_
  rw [slowAccess_iff hindex]
  constructor
  · intro h
    obtain ⟨decoded, ⟨fuel, hdecoded⟩, hends⟩ := h
    cases decoded with
    | error trap =>
        obtain rfl : outcome = .error trap := hends
        exact ⟨fuel, 2, r, by rw [hfast, hdecoded]; rfl⟩
    | ok place =>
        refine ⟨fuel, 2, ⟨r.array, setArrayRegisterEventCount s.arrayEventCount place.2,
          place.1 + 1, .ofNat 32 (arrayShortLength place.2)⟩, ?_⟩
        rw [hfast, hdecoded]
        exact congrArg (Option.map _) hends
  · intro h
    obtain ⟨fuel, rounds, r', hrun⟩ := h
    have hmore := fastAccess_mono (fastAccess_mono hrun)
    rw [hfast] at hmore
    obtain ⟨decoded, hdecoded, hends⟩ := Option.bind_eq_some_iff.mp hmore
    refine ⟨decoded, ⟨fuel, hdecoded⟩, ?_⟩
    cases decoded with
    | error trap => exact (Prod.mk.inj (Option.some.inj hends)).2.symm
    | ok place =>
        obtain ⟨outcome', hbounded, hpair⟩ := Option.map_eq_some_iff.mp hends
        obtain ⟨-, rfl⟩ := Prod.mk.inj hpair
        exact hbounded

/-- An index that is beyond the register and beyond the array traps in both ways. -/
theorem agreesOn_of_beyond {decoded : Except ArrayTrap (Integer × Integer)}
    (hindex : typeFixnumP index.tag = true) (hlength : r.length.toNat ≤ index.data.toNat)
    (hdecodes : s.Decodes r.array decoded)
    (hbeyond : ∀ vma header, decoded = .ok (vma, header) →
      arrayShortLength header ≤ index.data.toNat) : s.AgreesOn r index access := by
  have hfast : ∀ fuel rounds, s.fastAccess fuel index access (rounds + 1) r =
      some (r, .error .illegalOperand) := by
    intro fuel rounds
    rw [fastAccess, if_neg (by simp [hindex]), if_pos hlength]
  obtain ⟨trap, htrap⟩ : ∃ trap, ∀ outcome : Except ArrayTrap α,
      EndsAfter index access decoded outcome ↔ outcome = .error trap := by
    cases decoded with
    | error trap => exact ⟨trap, fun outcome => Iff.rfl⟩
    | ok place =>
        refine ⟨.illegalOperand, fun outcome => ?_⟩
        have hbounded : (boundedAccess index access place.1 place.2).run =
            some (.error .illegalOperand) := by
          unfold boundedAccess
          rw [if_pos (hbeyond place.1 place.2 rfl)]
          rfl
        change (boundedAccess index access place.1 place.2).run = some outcome ↔ _
        rw [hbounded, Option.some.injEq, eq_comm]
  have hslow : ∀ outcome, (∃ fuel, (s.slowAccess fuel r.array index access).run = some outcome) ↔
      outcome = .error trap := by
    intro outcome
    rw [slowAccess_iff hindex]
    constructor
    · intro h
      obtain ⟨decoded', hdecoded, hends⟩ := h
      obtain rfl := hdecoded.unique hdecodes
      exact (htrap outcome).mp hends
    · exact fun h => ⟨decoded, hdecodes, (htrap outcome).mpr h⟩
  -- the two traps may be different ones
  intro value
  constructor
  · intro h
    obtain ⟨fuel, outcome, hrun, hvalue⟩ := h
    obtain rfl := (hslow outcome).mp ⟨fuel, hrun⟩
    exact ⟨0, 1, r, _, hfast 0 0, hvalue⟩
  · intro h
    obtain ⟨fuel, rounds, r', outcome, hrun, hvalue⟩ := h
    obtain rfl := (fastEnds_iff_of_stops hfast).mp ⟨fuel, rounds, r', hrun⟩
    obtain ⟨fuel, hrun⟩ := (hslow _).mpr rfl
    exact ⟨fuel, _, hrun, hvalue⟩

/-- In a history with small counts that do not come back, every access is right that its
register covers. -/
theorem agreesOn_of_history {ss : List ArrayState} (h : RegisterHistory (s :: ss) r)
    (hsmall : ∀ t ∈ s :: ss, t.arrayEventCount.toNat < 2 ^ 22)
    (hnew : Unrepeated (s :: ss) r.array) (hcovers : s.Covers r index) :
    s.AgreesOn r index access := by
  cases hindex : typeFixnumP index.tag with
  | false => exact agreesOn_of_not_fixnum hindex
  | true =>
      obtain ⟨t, ht, vma, header, hdecodes, hr⟩ := built_of_history h
      have hcount := Nat.mod_eq_of_lt (hsmall t ht)
      by_cases hcurrent : arrayRegisterEventCount r.control = s.arrayEventCount.toNat
      · have hcontrol : r.control = setArrayRegisterEventCount t.arrayEventCount header :=
          congrArg ArrayRegister.control hr
        rw [hcontrol, arrayRegisterEventCount_set] at hcurrent
        have hsame : t.arrayEventCount = s.arrayEventCount :=
          BitVec.eq_of_toNat_eq (hcount.symm.trans hcurrent)
        have hdecodes' := (hnew t ht s List.mem_cons_self hsame _).mp hdecodes
        exact agreesOn_of_current hindex hdecodes' hr hcurrent
      · obtain hlength | ⟨decoded, hdecoded, hbeyond⟩ := hcovers
        · exact agreesOn_of_recomputed hindex hlength hcurrent (hsmall s List.mem_cons_self)
        · by_cases hlength : index.data.toNat < r.length.toNat
          · exact agreesOn_of_recomputed hindex hlength hcurrent (hsmall s List.mem_cons_self)
          · exact agreesOn_of_beyond hindex (by omega) hdecoded hbeyond

/-- **When the fast array accesses agree with the slow ones.**  They do in every history of a
register in which the event count stays below 2²² and does not come back with another header,
for every index that the register covers. -/
theorem fastAgrees_of_history {ss : List ArrayState} (h : RegisterHistory (s :: ss) r)
    (hsmall : ∀ t ∈ s :: ss, t.arrayEventCount.toNat < 2 ^ 22)
    (hnew : Unrepeated (s :: ss) r.array) (hcovers : s.Covers r index) :
    s.FastAgrees r index :=
  ⟨fun _ => agreesOn_of_history h hsmall hnew hcovers,
    fun _ _ => agreesOn_of_history h hsmall hnew hcovers⟩

/-- With a count that its field cannot hold a register is computed for ever. -/
theorem fastAccess_of_large (hindex : typeFixnumP index.tag = true)
    (hlarge : 2 ^ 22 ≤ s.arrayEventCount.toNat)
    (hdecodes : s.Decodes r.array (.ok (vma, header)))
    (hheader : index.data.toNat < arrayShortLength header)
    (hlength : index.data.toNat < r.length.toNat) (fuel rounds : Nat) :
    s.fastAccess fuel index access rounds r = none := by
  induction rounds generalizing r with
  | zero => rfl
  | succ rounds ih =>
      have hstale : arrayRegisterEventCount r.control ≠ s.arrayEventCount.toNat := by
        have hlt : arrayRegisterEventCount r.control < 2 ^ 22 := BitVec.isLt _
        omega
      rw [fastAccess, if_neg (by simp [hindex]), if_neg (by omega), if_pos hstale,
        recomputeArrayRegister_run]
      cases hrun : (s.arrayHeader fuel r.array).run with
      | none => rfl
      | some decoded =>
          obtain rfl := Decodes.unique ⟨fuel, hrun⟩ hdecodes
          exact ih hdecodes (by rw [toNat_arrayShortLength]; exact hheader)

theorem not_agreesOn_of_large (hindex : typeFixnumP index.tag = true)
    (hlarge : 2 ^ 22 ≤ s.arrayEventCount.toNat)
    (hdecodes : s.Decodes r.array (.ok (vma, header)))
    (hheader : index.data.toNat < arrayShortLength header)
    (hlength : index.data.toNat < r.length.toNat)
    (haccess : EndsAfter index access (.ok (vma, header)) outcome) :
    ¬ s.AgreesOn r index access := by
  intro hagrees
  obtain ⟨fuel, hslow⟩ := (slowAccess_iff hindex).mpr ⟨_, hdecodes, haccess⟩
  obtain ⟨fuel, rounds, r', outcome', hfast, -⟩ := (hagrees _).mp ⟨fuel, outcome, hslow, rfl⟩
  rw [fastAccess_of_large hindex hlarge hdecodes hheader hlength] at hfast
  cases hfast

/-- An index in the gap between the lengths is refused by the register alone. -/
theorem not_agreesOn_of_gap {a : α} (hindex : typeFixnumP index.tag = true)
    (hdecodes : s.Decodes r.array (.ok (vma, header)))
    (hlength : r.length.toNat ≤ index.data.toNat)
    (haccess : EndsAfter index access (.ok (vma, header)) (.ok a)) :
    ¬ s.AgreesOn r index access := by
  intro hagrees
  have hfast : ∀ fuel rounds, s.fastAccess fuel index access (rounds + 1) r =
      some (r, .error .illegalOperand) := by
    intro fuel rounds
    rw [fastAccess, if_neg (by simp [hindex]), if_pos hlength]
  obtain ⟨fuel, hslow⟩ := (slowAccess_iff hindex).mpr ⟨_, hdecodes, haccess⟩
  obtain ⟨fuel, rounds, r', outcome, hends, hvalue⟩ := (hagrees _).mp ⟨fuel, _, hslow, rfl⟩
  obtain rfl := (fastEnds_iff_of_stops hfast).mp ⟨fuel, rounds, r', hends⟩
  cases hvalue

end Agreement

/-! ### An array of five fixnums -/

/-- The header of five words at 4096, and 7 everywhere else. -/
def fives (arrayEventCount : Integer) : ArrayState where
  toProcessorState := (uniform ⟨typeFixnum, 7⟩).writeVirtualMemory 0x1000 ⟨arrayHeaderTag, 5⟩
  arrayEventCount := arrayEventCount

def fivesRegister (arrayEventCount : Integer) : ArrayRegister where
  array := ⟨typeArray, 0x1000⟩
  control := setArrayRegisterEventCount arrayEventCount 5
  base := 0x1001
  length := 5

theorem arrayHeader_fives (c : Integer) :
    ((fives c).arrayHeader 1 ⟨typeArray, 0x1000⟩).run = some (.ok (0x1000, 5)) := by
  have hread : (fives c).readVirtualMemory 0x1000 = ⟨arrayHeaderTag, 5⟩ := by
    rw [fives, readVirtualMemory_write, if_pos rfl]
  have hplain : Elements.Plain .header ((fives c).readVirtualMemory 0x1000) := by
    rw [hread]
    rfl
  rw [arrayHeader, if_pos (.inl rfl), memoryReadInternal_plain hplain, hread]
  rfl

theorem history_fives (c : Integer) : RegisterHistory [fives c] (fivesRegister c) := by
  refine @RegisterHistory.setup _ 1 ⟨typeArray, 0x1000⟩ _ ?_
  rw [setup1DArray, ExceptT.run_bind, arrayHeader_fives]
  rfl

theorem fastAgrees_of_history_fives :
    (fives 9).FastAgrees (fivesRegister 9) ⟨typeFixnum, 2⟩ :=
  fastAgrees_of_history (history_fives 9) (by simp [fives])
    (by simp [Unrepeated]) (.inl (by decide))

/-- With the event count 2²² the fast access of the third element does not end. -/
theorem not_fastAgrees_large :
    RegisterHistory [fives 0x400000] (fivesRegister 0x400000) ∧
      ¬ (fives 0x400000).FastAgrees (fivesRegister 0x400000) ⟨typeFixnum, 2⟩ := by
  refine ⟨history_fives _, fun hagrees => ?_⟩
  have hword : (fives 0x400000).readVirtualMemory 0x1003 = ⟨typeFixnum, 7⟩ := by
    rw [fives, readVirtualMemory_write, if_neg (by decide), readVirtualMemory_uniform]
  have hfixnum : tagType ((fives 0x400000).readVirtualMemory
      ((⟨0x1001, 0, 0, .fixnum⟩ : Elements).word 2)).tag = typeFixnum := by
    rw [show (⟨0x1001, 0, 0, .fixnum⟩ : Elements).word 2 = 0x1003 by decide, hword]
    rfl
  have hdecodes : (fives 0x400000).Decodes ⟨typeArray, 0x1000⟩ (.ok (0x1000, 5)) :=
    ⟨1, arrayHeader_fives _⟩
  have haccess : EndsAfter ⟨typeFixnum, 2⟩
      (fun a => a.aref1Internal (fives 0x400000).toProcessorState 1 2) (.ok (0x1000, 5))
      (.ok ⟨typeFixnum, 7⟩) := by
    change (Elements.aref1Internal ⟨0x1001, 0, 0, .fixnum⟩ _ (0 + 1) 2).run = _
    rw [Elements.aref1Internal_fixnum (by decide) hfixnum,
      show (⟨0x1001, 0, 0, .fixnum⟩ : Elements).word 2 = 0x1003 by decide, hword]
    rfl
  exact not_agreesOn_of_large rfl (by decide) hdecodes (by decide) (by decide) haccess
    (hagrees.aref 1)

end ArrayState

end Ivory
