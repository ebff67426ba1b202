import OsxVlm.Interpreter.HiddenRegisters

/-!
# Accesses through hidden registers

With what a block holds, a read extracts and a store deposits the element that the header
gives.  In every run the accesses agree with direct accesses, but for one slip: where booleans
are not packed, the read tests a register that the word has not been moved to.
-/

namespace Interpreter.ArrayCaches

open Ivory
open ProcessorState (action forward)

/-! ### Elements of a word -/

section Fields

variable {b : Nat} (i w : Integer)

/-- A place in a word, that the index gives by its low bits. -/
theorem toNat_and_extend {k : Nat} (hk : k ≤ 64) :
    (extend i &&& .ofNat 64 (2 ^ k - 1)).toNat = i.toNat % 2 ^ k := by
  rw [BitFields.toNat_and_mask _ hk, toNat_extend]

/-- The field at a place of the word is the same in a quadword. -/
theorem extend_ldb (hb : b ≤ 5) (hne : b ≠ 0) {amount : Quad}
    (hamount : amount.toNat = bytePackingRotation b i) :
    extend w >>> amount &&& .ofNat 64 (2 ^ bytePackingSize b - 1) =
      extend (arrayElementLdb b i w) := by
  have hsize := Elements.bytePackingSize_le b
  apply BitVec.eq_of_toNat_eq
  rw [BitVec.ushiftRight_eq', toNat_field _ (by omega), toNat_extend, toNat_extend,
    arrayElementLdb, fieldMask_eq hb hne, BitFields.extract, BitFields.toNat_and_low _ hsize,
    BitVec.toNat_ushiftRight, Nat.shiftRight_eq_div_pow, hamount]

/-- The extraction of each byte packing takes the field that the index gives. -/
theorem elementLdb_eq (hb : b ≤ 5) (hne : b ≠ 0) :
    elementLdb (.ofNat 64 b) (extend i) (extend w) = extend (arrayElementLdb b i w) := by
  have hrotation := bytePackingRotation_eq i hb
  have h1 : (extend i &&& 1).toNat = i.toNat % 2 ^ 1 :=
    toNat_and_extend i (k := 1) (by decide)
  have h2 : (extend i &&& 3).toNat = i.toNat % 2 ^ 2 :=
    toNat_and_extend i (k := 2) (by decide)
  have h3 : (extend i &&& 7).toNat = i.toNat % 2 ^ 3 :=
    toNat_and_extend i (k := 3) (by decide)
  have h4 : (extend i &&& 15).toNat = i.toNat % 2 ^ 4 :=
    toNat_and_extend i (k := 4) (by decide)
  have h5 : (extend i &&& 31).toNat = i.toNat % 2 ^ 5 :=
    toNat_and_extend i (k := 5) (by decide)
  have h7 (t : Quad) : (t &&& 7).toNat = t.toNat % 2 ^ 3 :=
    BitFields.toNat_and_mask t (k := 3) (by decide)
  interval_cases b
  · exact absurd rfl hne
  · refine extend_ldb (b := 1) i w (by decide) (by decide) ?_
    rw [hrotation, BitVec.toNat_mul, h7, BitVec.toNat_add, h1,
      show (8 : Quad).toNat = 8 from rfl]
    omega
  · refine extend_ldb (b := 2) i w (by decide) (by decide) ?_
    rw [hrotation, BitVec.toNat_mul, h7, h2, show (8 : Quad).toNat = 8 from rfl]
    omega
  · refine extend_ldb (b := 3) i w (by decide) (by decide) ?_
    rw [hrotation, BitVec.toNat_shiftLeft, h3, Nat.shiftLeft_eq]
    omega
  · refine extend_ldb (b := 4) i w (by decide) (by decide) ?_
    rw [hrotation, BitVec.toNat_shiftLeft, h4, Nat.shiftLeft_eq]
    omega
  · refine extend_ldb (b := 5) i w (by decide) (by decide) ?_
    rw [hrotation, h5]
    omega

theorem byteMask_eq (hb : b ≤ 5) :
    byteMask (.ofNat 64 b) = BitFields.low 64 (bytePackingSize b) := by
  interval_cases b <;> rfl

/-- The place at which a field is inserted. -/
theorem toNat_place (hb : b ≤ 5) :
    ((extend i &&& ~~~((~~~0 : Quad) <<< (.ofNat 64 b : Quad))) <<< (5 - .ofNat 64 b : Quad)).toNat =
      bytePackingRotation b i := by
  have hmask : ~~~((~~~0 : Quad) <<< (.ofNat 64 b : Quad)) = .ofNat 64 (2 ^ b - 1) := by
    interval_cases b <;> rfl
  have hamount : (5 - .ofNat 64 b : Quad).toNat = 5 - b := by
    interval_cases b <;> rfl
  have hplace := rotation_add_size_le i hb
  rw [bytePackingRotation_eq i hb] at hplace ⊢
  rw [hmask, BitVec.shiftLeft_eq', hamount, BitVec.toNat_shiftLeft, toNat_and_extend i (by omega),
    Nat.shiftLeft_eq, Nat.mod_eq_of_lt (by omega)]

/-- The two ways to insert a field come to the same. -/
theorem insert_eq (e mask word : Quad) {place : Quad} (h : place.toNat < 64) :
    (if place = 0 then word &&& ~~~mask ||| e &&& mask
      else word <<< (64 - place) >>> (64 - place) |||
        (e &&& mask ||| ~~~mask &&& word >>> place) <<< place) =
      BitFields.deposit e mask place.toNat word := by
  by_cases hzero : place = 0
  · rw [if_pos hzero, hzero, BitFields.deposit, BitVec.or_comm]
    simp
  · have hback : (64 - place).toNat = 64 - place.toNat := by
      rw [BitVec.toNat_sub, show (64 : Quad).toNat = 64 from rfl]
      have hpos : place.toNat ≠ 0 := fun h => hzero (BitVec.eq_of_toNat_eq h)
      omega
    rw [if_neg hzero, BitFields.deposit_eq_rotate _ _ _ (by omega), BitVec.shiftLeft_eq',
      BitVec.ushiftRight_eq', hback, BitVec.ushiftRight_eq', BitVec.shiftLeft_eq']

/-- The insertion puts the element into the field that the index gives. -/
theorem elementDpb_eq (hb : b ≤ 5) (hne : b ≠ 0) (e : Quad) :
    (elementDpb e (.ofNat 64 b) (extend i) (extend w)).setWidth 32 =
      arrayElementDpb (e.setWidth 32) b i w := by
  have hplace := toNat_place i hb
  have hfits := rotation_add_size_le i hb
  unfold elementDpb
  simp only
  rw [insert_eq _ _ _ (by omega), hplace, byteMask_eq hb, extend,
    BitFields.setWidth_deposit w e (by decide) hfits, arrayElementDpb, fieldMask_eq hb hne]

/-- Without a packing a word is not moved. -/
theorem elementLdb_zero (index data : Quad) : elementLdb 0 index data = data := rfl

end Fields

/-! ### Accesses by what is decoded -/

/-- A read in bounds of an unpacked boolean that is stored as nothing. -/
def UnpackedNil (memory : Cells) (array index : Integer) : Prop :=
  index.toNat < lengthOf memory array ∧ (elementsOf memory array).type = .boolean ∧
    (elementsOf memory array).packing = 0 ∧ (memory (wordOf memory array index)).data = 0

instance (memory : Cells) (array index : Integer) : Decidable (UnpackedNil memory array index) :=
  inferInstanceAs (Decidable (_ ∧ _ ∧ _ ∧ _))

section Accesses

variable {arrays : Set Integer} {memory : Cells} {array index : Integer}

theorem setWidth_extend (c : Integer) : (extend c).setWidth 32 = c := by
  rw [extend, BitVec.setWidth_setWidth_of_le _ (by decide), BitVec.setWidth_eq]

theorem ofNat_packing {b : Nat} (hb : b ≤ 5) : BitVec.ofNat 64 b = 0 ↔ b = 0 := by
  interval_cases b <;> decide

/-- The types in the order of their codes. -/
theorem elementType_cases (header : Integer) :
    (arrayElementType header = .fixnum ∧ ldb 2 30 header = 0) ∨
      (arrayElementType header = .character ∧ ldb 2 30 header = 1) ∨
      (arrayElementType header = .boolean ∧ ldb 2 30 header = 2) ∨
      arrayElementType header = .object ∧ ldb 2 30 header = 3 := by
  have hlt : ldb 2 30 header < 4 := BitVec.isLt _
  unfold arrayElementType
  generalize ldb 2 30 header = n at hlt
  interval_cases n <;> simp

theorem etyp_eq_three : (headerDecoded array (headerOf memory array)).etyp = 3 ↔
    (elementsOf memory array).type = .object := by
  change BitVec.ofNat 64 (ldb 2 30 (headerOf memory array)) = 3 ↔
    arrayElementType (headerOf memory array) = .object
  obtain ⟨htype, hcode⟩ | ⟨htype, hcode⟩ | ⟨htype, hcode⟩ | ⟨htype, hcode⟩ :=
    elementType_cases (headerOf memory array)
  all_goals
    rw [htype, hcode]
    decide

theorem bp_eq_zero (hpacking : (elementsOf memory array).packing ≤ 5) :
    (headerDecoded array (headerOf memory array)).bp = 0 ↔ (elementsOf memory array).packing = 0 :=
  ofNat_packing hpacking

/-- A packed index counts from the beginning of the array. -/
theorem place_eq (index : Quad) :
    (headerDecoded array (headerOf memory array)).place index = index := by
  rw [Decoded.place, headerDecoded]
  split
  · exact zero_add index
  · rfl

theorem shifted_eq (hpacking : (elementsOf memory array).packing ≤ 5) :
    extend index >>> (headerDecoded array (headerOf memory array)).bp =
      extend index >>> (elementsOf memory array).packing := by
  rw [BitVec.ushiftRight_eq']
  congr 1
  rw [headerDecoded, BitVec.toNat_ofNat, Nat.mod_eq_of_lt]
  · rfl
  · exact lt_of_le_of_lt hpacking (by decide)

theorem address_packed (hpacking : (elementsOf memory array).packing ≤ 5) :
    extend index >>> (headerDecoded array (headerOf memory array)).bp +
      (headerDecoded array (headerOf memory array)).base = wordOf memory array index := by
  rw [shifted_eq hpacking, BitVec.add_comm]
  rfl

/-- The address that a read comes to, packed or not. -/
theorem address_eq (hpacking : (elementsOf memory array).packing ≤ 5) :
    (headerDecoded array (headerOf memory array)).address (extend index) =
      wordOf memory array index := by
  rw [Decoded.address, place_eq]
  by_cases hbp : (headerDecoded array (headerOf memory array)).bp = 0
  · rw [if_neg (not_not.mpr hbp), wordOf, (bp_eq_zero hpacking).mp hbp]
    rfl
  · rw [if_pos hbp, address_packed hpacking]

/-- The field that a read extracts. -/
theorem elementLdb_field (hpacking : (elementsOf memory array).packing ≤ 5) (w : Integer) :
    elementLdb (headerDecoded array (headerOf memory array)).bp (extend index) (extend w) =
      extend ((elementsOf memory array).field index w) := by
  by_cases hzero : (elementsOf memory array).packing = 0
  · rw [(bp_eq_zero hpacking).mpr hzero, Elements.field, if_neg (not_not.mpr hzero)]
    rfl
  · rw [Elements.field, if_pos hzero]
    exact elementLdb_eq index w hpacking hzero

/-- What is read of a cell: what is left of the mask where the elements are unpacked
booleans, and what the field means elsewhere. -/
theorem loaded_eq (hpacking : (elementsOf memory array).packing ≤ 5)
    (hobjects : (elementsOf memory array).type = .object → (elementsOf memory array).packing = 0)
    {cell : Cell} (hfixnum : (elementsOf memory array).type ≠ .object →
      tagType cell.object.tag = typeFixnum) :
    (headerDecoded array (headerOf memory array)).loaded (extend index) cell = .ok
      (if (elementsOf memory array).type = .boolean ∧ (elementsOf memory array).packing = 0 then
        if cell.left ≠ 0 then objectT else objectNIL
      else elementValue (elementsOf memory array).type cell.object.tag
        ((elementsOf memory array).field index cell.object.data)) := by
  have hbp := bp_eq_zero hpacking
  have hne (c : Integer) : extend c ≠ 0 ↔ c ≠ 0 := by
    rw [Ne, Ne, not_iff_not]
    exact ⟨fun h => extend_inj (b := 0) h, fun h => by rw [h]; rfl⟩
  have hword : ¬ ((headerDecoded array (headerOf memory array)).bp ≠ 0 ∧
      tagType cell.object.tag ≠ typeFixnum) := by
    intro ⟨hpacked, htag⟩
    exact hpacked (hbp.mpr (hobjects (by_contra fun h => htag (hfixnum h))))
  rw [Decoded.loaded, if_neg hword, place_eq]
  simp only [elementLdb_field hpacking, setWidth_extend]
  obtain ⟨htype, hcode⟩ | ⟨htype, hcode⟩ | ⟨htype, hcode⟩ | ⟨htype, hcode⟩ :=
    elementType_cases (headerOf memory array)
  all_goals
    have htype' : (elementsOf memory array).type = _ := htype
    have hetyp : (headerDecoded array (headerOf memory array)).etyp = .ofNat 64 _ :=
      congrArg (BitVec.ofNat 64) hcode
    rw [hetyp, htype']
  · rfl
  · rfl
  · by_cases hzero : (elementsOf memory array).packing = 0
    · have hunpacked : ArrayElementType.boolean = .boolean ∧
          (elementsOf memory array).packing = 0 := ⟨rfl, hzero⟩
      rw [if_pos (show (2#64 : Quad) = 2 from rfl), if_pos (hbp.mpr hzero), if_pos hunpacked]
    · have hunpacked : ¬ (ArrayElementType.boolean = .boolean ∧
          (elementsOf memory array).packing = 0) := fun h => hzero h.2
      rw [if_pos (show (2#64 : Quad) = 2 from rfl), if_neg (hbp.not.mpr hzero), if_neg hunpacked]
      simp only [hne]
      rfl
  · rfl

theorem mk_map_bind {α β γ : Type} (outcome : Except ArrayExit α) (f : α → β)
    (g : β → Except ArrayExit γ) :
    ((ExceptT.mk (some (outcome.map f)) : Exits β) >>= fun b => ExceptT.mk (some (g b))) =
      ExceptT.mk (some (outcome.bind fun a => g (f a))) := by
  cases outcome <;> rfl

/-- A read in bounds comes to what is to be read, except of an unpacked boolean that is
stored as nothing. -/
theorem newAref1Internal_eq (harrays : ShortArrays arrays memory) (hmem : array ∈ arrays)
    (hindex : index.toNat < lengthOf memory array) (fuel : Nat) :
    (headerDecoded array (headerOf memory array)).newAref1Internal memory (fuel + 1)
      (extend index) = ExceptT.mk (some (if UnpackedNil memory array index then .ok objectT
        else directAref1 memory array index)) := by
  have hpacking := harrays.packing array hmem
  have hloaded (q : LispObj) (hfixnum : (elementsOf memory array).type ≠ .object →
      tagType q.tag = typeFixnum) :=
    @loaded_eq memory array index hpacking (harrays.objects array hmem)
      ⟨wordOf memory array index, q, leftOf .dataRead (memory (wordOf memory array index))⟩ hfixnum
  rw [Decoded.newAref1Internal, address_eq hpacking,
    memoryRead_eq (.inl rfl) (harrays.notForward array hmem index hindex), mk_map_bind,
    directAref1, if_neg (Nat.not_le.mpr hindex)]
  refine congrArg (fun outcome => ExceptT.mk (some outcome)) ?_
  by_cases hobject : (elementsOf memory array).type = .object
  · have hnil : ¬ UnpackedNil memory array index := by
      intro h
      rw [UnpackedNil, hobject] at h
      exact absurd h.2.1 (by decide)
    have hboolean : ¬ ((elementsOf memory array).type = .boolean ∧
        (elementsOf memory array).packing = 0) := by
      rw [hobject]
      exact fun h => absurd h.1 (by decide)
    rw [if_neg hnil]
    cases cellValue .dataRead (wordOf memory array index) (memory (wordOf memory array index)) with
    | error exit => rfl
    | ok q =>
        refine (hloaded q fun h => absurd hobject h).trans ?_
        rw [if_neg hboolean]
        rfl
  · have hfixnum := harrays.fixnums array hmem index hindex hobject
    rw [cellValue_fixnum hfixnum]
    refine (hloaded _ fun _ => hfixnum).trans ?_
    rw [if_pos (leftOf_fixnum hfixnum)]
    by_cases hunpacked : (elementsOf memory array).type = .boolean ∧
        (elementsOf memory array).packing = 0
    · obtain ⟨htype, hzero⟩ := hunpacked
      have hfield (w : Integer) : (elementsOf memory array).field index w = w := by
        rw [Elements.field, if_neg (not_not.mpr hzero)]
      rw [if_pos ⟨htype, hzero⟩, htype]
      by_cases hnil : UnpackedNil memory array index
      · rw [if_pos hnil]
      · have hdata : (memory (wordOf memory array index)).data ≠ 0 :=
          fun h => hnil ⟨hindex, htype, hzero, h⟩
        rw [if_neg hnil, Except.map, hfield, elementValue, if_pos hdata]
    · rw [if_neg hunpacked, if_neg fun h => hunpacked ⟨h.2.1, h.2.2.1⟩]
      rfl

/-- The check of a packed character: its bits are those of a field. -/
theorem checked_eq (hpacking : (elementsOf memory array).packing ≤ 5) (c : Integer) :
    extend c - (extend c &&& byteMask (headerDecoded array (headerOf memory array)).bp) = 0 ↔
      c.toNat < (elementsOf memory array).range := by
  have hsize := Elements.bytePackingSize_le (elementsOf memory array).packing
  have hmask : byteMask (headerDecoded array (headerOf memory array)).bp =
      BitFields.low 64 (bytePackingSize (elementsOf memory array).packing) := byteMask_eq hpacking
  rw [sub_eq_zero, hmask, Elements.range_eq]
  constructor
  · intro h
    have hnat := congrArg BitVec.toNat h
    rw [BitFields.toNat_and_low _ (by omega), toNat_extend] at hnat
    rw [hnat]
    exact Nat.mod_lt _ (Nat.two_pow_pos _)
  · intro h
    rw [BitFields.and_low_of_lt _ (by omega) (by rwa [toNat_extend])]

/-- The bits that a store takes of its value. -/
theorem elementBits_eq (hpacking : (elementsOf memory array).packing ≤ 5) (value : LispObj) :
    (headerDecoded array (headerOf memory array)).elementBits value =
      (storedBits (elementsOf memory array) value).map extend := by
  have hbp := bp_eq_zero hpacking
  have hchecked := checked_eq hpacking value.data
  obtain ⟨htype, hcode⟩ | ⟨htype, hcode⟩ | ⟨htype, hcode⟩ | ⟨htype, hcode⟩ :=
    elementType_cases (headerOf memory array)
  all_goals
    have htype' : (elementsOf memory array).type = _ := htype
    have hetyp : (headerDecoded array (headerOf memory array)).etyp = .ofNat 64 _ :=
      congrArg (BitVec.ofNat 64) hcode
    rw [Decoded.elementBits, storedBits, hetyp, htype']
  · by_cases htag : tagType value.tag = typeFixnum
    · rw [if_pos htag]
      exact if_neg (not_not.mpr htag)
    · rw [if_neg htag]
      exact if_pos htag
  · rw [if_pos (show (1#64 : Quad) = 1 from rfl)]
    change _ = Except.map extend (if tagType value.tag ≠ typeCharacter then _ else _)
    by_cases htag : tagType value.tag = typeCharacter
    · rw [if_neg (not_not.mpr htag), if_neg (not_not.mpr htag)]
      by_cases hzero : (elementsOf memory array).packing = 0
      · have hlt : value.data.toNat < (elementsOf memory array).range := by
          rw [Elements.range, hzero]
          exact value.data.isLt
        rw [if_pos (hbp.mpr hzero), if_pos hlt]
        rfl
      · rw [if_neg (hbp.not.mpr hzero)]
        by_cases hlt : value.data.toNat < (elementsOf memory array).range
        · rw [if_neg (not_not.mpr (hchecked.mpr hlt)), if_pos hlt]
          rfl
        · rw [if_pos (hchecked.not.mpr hlt), if_neg hlt]
          rfl
    · rw [if_pos htag, if_pos htag]
      rfl
  · by_cases htag : tagType value.tag = typeNIL
    · rw [if_pos htag, if_neg (not_not.mpr htag)]
      rfl
    · rw [if_neg htag, if_pos htag]
      rfl
  · rfl

/-- The word that a store leaves where no object is. -/
theorem stored_eq (hpacking : (elementsOf memory array).packing ≤ 5) (bits : Integer)
    {q : LispObj} (hfixnum : tagType q.tag = typeFixnum) :
    (headerDecoded array (headerOf memory array)).stored (extend index) (extend bits) q =
      .ok ⟨q.tag, (elementsOf memory array).setField bits index q.data⟩ := by
  rw [Decoded.stored, if_neg (not_not.mpr hfixnum)]
  by_cases hzero : (elementsOf memory array).packing = 0
  · rw [if_pos ((bp_eq_zero hpacking).mpr hzero), Elements.setField, if_neg (not_not.mpr hzero)]
    exact congrArg (fun data => Except.ok (LispObj.mk q.tag data)) (setWidth_extend bits)
  · rw [if_neg ((bp_eq_zero hpacking).not.mpr hzero), Elements.setField, if_pos hzero]
    have hdpb := elementDpb_eq index q.data hpacking hzero (extend bits)
    rw [setWidth_extend] at hdpb
    exact congrArg (fun data => Except.ok (LispObj.mk q.tag data)) hdpb

theorem storedWord_object (hobject : (elementsOf memory array).type = .object) (value : LispObj)
    (bits : Integer) : storedWord memory array index value bits =
      (cellValue .dataWrite (wordOf memory array index) (memory (wordOf memory array index))).map
        fun q => ⟨mergeCdr q.tag value.tag, bits⟩ := by
  rw [storedWord, hobject]

theorem storedWord_field (hobject : (elementsOf memory array).type ≠ .object) (value : LispObj)
    (bits : Integer) : storedWord memory array index value bits =
      .ok ⟨(memory (wordOf memory array index)).tag, (elementsOf memory array).setField bits index
        (memory (wordOf memory array index)).data⟩ := by
  rw [storedWord]
  cases htype : (elementsOf memory array).type with
  | object => exact absurd htype hobject
  | fixnum => rfl
  | character => rfl
  | boolean => rfl

theorem shovebits_eq (harrays : ShortArrays arrays memory) (hmem : array ∈ arrays)
    (hindex : index.toNat < lengthOf memory array) (fuel : Nat) (value : LispObj)
    (bits : Integer) :
    (headerDecoded array (headerOf memory array)).shovebits memory (fuel + 1) (extend index) value
      (extend bits) = ExceptT.mk (some ((storedWord memory array index value bits).map
        (Function.update memory (wordOf memory array index)))) := by
  have hpacking := harrays.packing array hmem
  have hlast := harrays.notForward array hmem index hindex
  have hbp := bp_eq_zero hpacking
  have haddress := @address_eq memory array index hpacking
  rw [Decoded.shovebits]
  by_cases hobject : (elementsOf memory array).type = .object
  · have hzero := hbp.mpr (harrays.objects array hmem hobject)
    rw [Decoded.address, if_neg (not_not.mpr hzero)] at haddress
    rw [if_pos ⟨hzero, etyp_eq_three.mpr hobject⟩, haddress,
      memoryRead_eq (.inr (.inl rfl)) (forward_dataWrite hlast), storedWord_object hobject,
      setWidth_extend]
    cases cellValue .dataWrite (wordOf memory array index)
      (memory (wordOf memory array index)) <;> rfl
  · have hfixnum := harrays.fixnums array hmem index hindex hobject
    have hoffset : (headerDecoded array (headerOf memory array)).boffset + extend index =
      extend index := zero_add _
    rw [if_neg fun h => hobject (etyp_eq_three.mp h.2), storedWord_field hobject, hoffset]
    simp only [address_packed hpacking]
    rw [memoryRead_eq (.inl rfl) hlast, cellValue_fixnum hfixnum]
    have hstored := @stored_eq memory array index hpacking bits _ hfixnum
    change (ExceptT.mk (some _) >>= fun q =>
      pure (Function.update memory (wordOf memory array index) q)) = _
    rw [hstored]
    rfl

/-- A store in bounds comes to what is to be stored. -/
theorem aset1Internal_eq (harrays : ShortArrays arrays memory) (hmem : array ∈ arrays)
    (hindex : index.toNat < lengthOf memory array) (fuel : Nat) (value : LispObj) :
    (headerDecoded array (headerOf memory array)).aset1Internal memory (fuel + 1)
      (extend index) value = ExceptT.mk (some (directAset1 memory array index value)) := by
  rw [Decoded.aset1Internal, directAset1, elementBits_eq (harrays.packing array hmem),
    if_neg (Nat.not_le.mpr hindex)]
  cases hbits : storedBits (elementsOf memory array) value with
  | error exit => rfl
  | ok bits =>
      exact shovebits_eq harrays hmem hindex fuel value bits

end Accesses

/-! ### Stores are read back -/

section Stores

variable {arrays : Set Integer} {memory memory' : Cells} {array index : Integer} {value : LispObj}

/-- A store that is done is one of some bits, in bounds. -/
theorem directAset1_ok (hset : directAset1 memory array index value = .ok memory') :
    index.toNat < lengthOf memory array ∧ ∃ bits q,
      storedBits (elementsOf memory array) value = .ok bits ∧
        storedWord memory array index value bits = .ok q ∧
        memory' = Function.update memory (wordOf memory array index) q := by
  rw [directAset1] at hset
  split at hset
  · cases hset
  · rename_i hbounds
    refine ⟨Nat.not_le.mp hbounds, ?_⟩
    cases hbits : storedBits (elementsOf memory array) value with
    | error exit =>
        rw [hbits] at hset
        cases hset
    | ok bits =>
        rw [hbits] at hset
        change (storedWord memory array index value bits).map _ = _ at hset
        cases hword : storedWord memory array index value bits with
        | error exit =>
            rw [hword] at hset
            cases hset
        | ok q =>
            rw [hword] at hset
            exact ⟨bits, q, rfl, hword, (Except.ok.inj hset).symm⟩

/-- A store changes the word of its element only. -/
theorem directAset1_of_ne (hset : directAset1 memory array index value = .ok memory') {vma : Quad}
    (hvma : vma ≠ wordOf memory array index) : memory' vma = memory vma := by
  obtain ⟨-, bits, q, -, -, rfl⟩ := directAset1_ok hset
  exact Function.update_of_ne hvma ..

/-- No header is changed. -/
theorem headerOf_directAset1 (harrays : ShortArrays arrays memory) (hmem : array ∈ arrays)
    (hset : directAset1 memory array index value = .ok memory') {a : Integer} (ha : a ∈ arrays) :
    headerOf memory' a = headerOf memory a := by
  rw [headerOf, headerOf, directAset1_of_ne hset
    (harrays.apart array hmem a ha _ (directAset1_ok hset).1).symm]

/-- What is decoded is a matter of the header. -/
theorem elementsOf_congr {a : Integer} (h : headerOf memory' a = headerOf memory a) :
    elementsOf memory' a = elementsOf memory a ∧ lengthOf memory' a = lengthOf memory a ∧
      ∀ i, wordOf memory' a i = wordOf memory a i := by
  have helements : elementsOf memory' a = elementsOf memory a := by
    rw [elementsOf, elementsOf, h]
  refine ⟨helements, ?_, fun i => ?_⟩
  · rw [lengthOf, lengthOf, h]
  · rw [wordOf, wordOf, helements]

/-- The objects that a read returns as they are. -/
def Readable (a : Elements) (value : LispObj) : Prop :=
  a.type = .object → Elements.Plain .dataRead value

/-- The bits that were taken of a value mean the value that is to be read back. -/
theorem elementValue_bits {a : Elements} (hpacking : a.packing ≤ 5) (hobject : a.type ≠ .object)
    {bits : Integer} (hbits : storedBits a value = .ok bits) (tag : Tag) :
    elementValue a.type tag (bits &&& BitFields.low 32 (bytePackingSize a.packing)) =
      a.readBack value := by
  have hsize := Elements.bytePackingSize_le a.packing
  have hpos := Elements.bytePackingSize_pos hpacking
  have hlow := BitFields.toNat_and_low bits hsize
  unfold elementValue Elements.readBack
  rw [storedBits] at hbits
  cases htype : a.type with
  | object => exact absurd htype hobject
  | fixnum =>
      simp only [htype] at hbits
      split at hbits
      · obtain rfl := Except.ok.inj hbits
        simp only
        rw [Elements.range_eq, ← hlow, BitVec.ofNat_toNat, BitVec.setWidth_eq]
      · cases hbits
  | character =>
      simp only [htype] at hbits
      split at hbits
      · cases hbits
      · split at hbits
        · rename_i hlt
          obtain rfl := Except.ok.inj hbits
          simp only
          rw [BitFields.and_low_of_lt _ hsize (by rwa [← Elements.range_eq])]
        · cases hbits
  | boolean =>
      simp only [htype] at hbits
      simp only
      by_cases hnil : tagType value.tag = typeNIL
      · rw [if_pos hnil] at hbits
        obtain rfl := Except.ok.inj hbits
        have hzero : (0 : Integer) &&& BitFields.low 32 (bytePackingSize a.packing) = 0 :=
          BitVec.zero_and
        rw [hzero, if_neg (not_not.mpr rfl), if_pos hnil]
      · rw [if_neg hnil] at hbits
        obtain rfl := Except.ok.inj hbits
        have hone : (1 : Integer) &&& BitFields.low 32 (bytePackingSize a.packing) ≠ 0 := by
          intro hzero
          rw [hzero, show (1 : Integer).toNat = 1 from rfl, Nat.mod_eq_of_lt] at hlow
          · exact absurd hlow (by decide)
          · exact Nat.one_lt_two_pow (by omega)
        rw [if_pos hone, if_neg hnil]

theorem map_ok {α β : Type} {outcome : Except ArrayExit α} {f : α → β} {b : β}
    (h : outcome.map f = .ok b) : ∃ a, f a = b := by
  cases outcome with
  | error exit => cases h
  | ok a => exact ⟨a, Except.ok.inj h⟩

/-- What was stored is read back. -/
theorem directAref1_directAset1 (harrays : ShortArrays arrays memory) (hmem : array ∈ arrays)
    (hset : directAset1 memory array index value = .ok memory')
    (hvalue : Readable (elementsOf memory array) value) :
    directAref1 memory' array index = .ok ((elementsOf memory array).readBack value) := by
  have hpacking := harrays.packing array hmem
  obtain ⟨helements, hlength, hword⟩ :=
    elementsOf_congr (headerOf_directAset1 harrays hmem hset hmem)
  obtain ⟨hindex, bits, q, hbits, hq, rfl⟩ := directAset1_ok hset
  rw [directAref1, hlength, if_neg (Nat.not_le.mpr hindex), hword, helements]
  simp only [Function.update_self]
  by_cases hobject : (elementsOf memory array).type = .object
  · have hzero := harrays.objects array hmem hobject
    rw [storedBits, hobject] at hbits
    obtain rfl := Except.ok.inj hbits
    rw [storedWord_object hobject] at hq
    obtain ⟨q, rfl⟩ := map_ok hq
    have hplain : memoryAction .dataRead ⟨mergeCdr q.tag value.tag, value.data⟩ = 0 := by
      rw [memoryAction, Elements.action_mergeCdr]
      exact hvalue hobject
    rw [cellValue, if_pos hplain, Except.map, Elements.field, if_neg (not_not.mpr hzero), hobject,
      Elements.readBack, hobject]
    exact congrArg Except.ok (Elements.cdrNext_mergeCdr q.tag value)
  · rw [storedWord_field hobject] at hq
    have hfixnum := harrays.fixnums array hmem index hindex hobject
    have hcell : ∀ data, cellValue .dataRead (wordOf memory array index)
        ⟨(memory (wordOf memory array index)).tag, data⟩ = .ok ⟨_, data⟩ :=
      fun _ => cellValue_fixnum hfixnum
    obtain rfl := Except.ok.inj hq
    rw [hcell, Except.map, Elements.field_setField hpacking,
      elementValue_bits hpacking hobject hbits]

/-- The elements of one word have different places in it. -/
theorem place_ne_of_wordOf {i j : Integer} (hword : wordOf memory array i = wordOf memory array j)
    (hne : i ≠ j) :
    i.toNat % 2 ^ (elementsOf memory array).packing ≠
      j.toNat % 2 ^ (elementsOf memory array).packing := by
  intro hmod
  have hquot := congrArg BitVec.toNat (add_left_cancel hword)
  rw [BitVec.toNat_ushiftRight, BitVec.toNat_ushiftRight, toNat_extend, toNat_extend,
    Nat.shiftRight_eq_div_pow, Nat.shiftRight_eq_div_pow] at hquot
  apply hne
  apply BitVec.eq_of_toNat_eq
  rw [← Nat.div_add_mod i.toNat (2 ^ (elementsOf memory array).packing),
    ← Nat.div_add_mod j.toNat (2 ^ (elementsOf memory array).packing), hquot, hmod]

/-- No other element is changed. -/
theorem directAref1_of_ne (harrays : ShortArrays arrays memory) (hmem : array ∈ arrays)
    (hset : directAset1 memory array index value = .ok memory') {b j : Integer} (hb : b ∈ arrays)
    (hne : (b, j) ≠ (array, index)) : directAref1 memory' b j = directAref1 memory b j := by
  obtain ⟨helements, hlength, hword⟩ :=
    elementsOf_congr (headerOf_directAset1 harrays hmem hset hb)
  rw [directAref1, hlength, hword, helements, directAref1]
  by_cases hj : lengthOf memory b ≤ j.toNat
  · rw [if_pos hj, if_pos hj]
  rw [if_neg hj, if_neg hj]
  by_cases hplace : wordOf memory b j = wordOf memory array index
  · obtain ⟨hindex, bits, q, -, hq, rfl⟩ := directAset1_ok hset
    obtain rfl := harrays.disjoint b hb array hmem j index (Nat.not_le.mp hj) hindex hplace
    have hplaces := place_ne_of_wordOf hplace fun h => hne (by rw [h])
    have hpacked : (elementsOf memory b).packing ≠ 0 := by
      intro hzero
      rw [hzero, Nat.pow_zero, Nat.mod_one, Nat.mod_one] at hplaces
      exact hplaces rfl
    have hobject : (elementsOf memory b).type ≠ .object :=
      fun h => hpacked (harrays.objects b hb h)
    have hfixnum := harrays.fixnums b hb index hindex hobject
    have hcell : ∀ data, cellValue .dataRead (wordOf memory b index)
        ⟨(memory (wordOf memory b index)).tag, data⟩ = .ok ⟨_, data⟩ :=
      fun _ => cellValue_fixnum hfixnum
    rw [storedWord_field hobject] at hq
    obtain rfl := Except.ok.inj hq
    rw [hplace, Function.update_self, hcell, cellValue_fixnum hfixnum, Except.map, Except.map,
      Elements.field, if_pos hpacked, Elements.setField, if_pos hpacked,
      ldb_dpb_of_ne _ _ _ _ (harrays.packing b hb) hpacked hplaces.symm, Elements.field,
      if_pos hpacked]
  · rw [directAset1_of_ne hset hplace]

/-- The word of a store is one that its array may have. -/
theorem directAset1_word (harrays : ShortArrays arrays memory) (hmem : array ∈ arrays)
    (hset : directAset1 memory array index value = .ok memory')
    (hvalue : Readable (elementsOf memory array) value) :
    ((elementsOf memory array).type ≠ .object →
        tagType (memory' (wordOf memory array index)).tag = typeFixnum) ∧
      forward .dataRead (memory' (wordOf memory array index)) = none := by
  obtain ⟨hindex, bits, q, hbits, hq, rfl⟩ := directAset1_ok hset
  rw [Function.update_self]
  by_cases hobject : (elementsOf memory array).type = .object
  · rw [storedBits, hobject] at hbits
    obtain rfl := Except.ok.inj hbits
    rw [storedWord_object hobject] at hq
    obtain ⟨q, rfl⟩ := map_ok hq
    refine ⟨fun h => absurd hobject h, ?_⟩
    rw [Elements.forward_mergeCdr]
    exact forward_of_plain (hvalue hobject)
  · have hfixnum := harrays.fixnums array hmem index hindex hobject
    rw [storedWord_field hobject] at hq
    obtain rfl := Except.ok.inj hq
    exact ⟨fun _ => hfixnum, forward_of_plain (plain_of_fixnum hfixnum)⟩

/-- The memory remains one of such arrays. -/
theorem ShortArrays.directAset1 (harrays : ShortArrays arrays memory) (hmem : array ∈ arrays)
    (hset : directAset1 memory array index value = .ok memory')
    (hvalue : Readable (elementsOf memory array) value) : ShortArrays arrays memory' := by
  have hheader {a : Integer} (ha : a ∈ arrays) := headerOf_directAset1 harrays hmem hset ha
  have hindex := (directAset1_ok hset).1
  have hstored := directAset1_word harrays hmem hset hvalue
  refine ⟨fun a ha => ?_, fun a ha => ?_, fun a ha => ?_, fun a ha => ?_, fun a ha i hi => ?_,
    fun a ha i hi => ?_, fun a ha b hb i hi => ?_, fun a ha b hb i j hi hj => ?_⟩
  all_goals obtain ⟨helements, hlength, hword⟩ := elementsOf_congr (hheader ha)
  · rw [directAset1_of_ne hset (harrays.apart array hmem a ha _ hindex).symm]
    exact harrays.header a ha
  · rw [hheader ha]
    exact harrays.short a ha
  · rw [helements]
    exact harrays.packing a ha
  · rw [helements]
    exact harrays.objects a ha
  · rw [hlength] at hi
    rw [helements, hword]
    by_cases hplace : wordOf memory a i = wordOf memory array index
    · obtain rfl := harrays.disjoint a ha array hmem i index hi hindex hplace
      rw [hplace]
      exact hstored.1
    · rw [directAset1_of_ne hset hplace]
      exact harrays.fixnums a ha i hi
  · rw [hlength] at hi
    rw [hword]
    by_cases hplace : wordOf memory a i = wordOf memory array index
    · rw [hplace]
      exact hstored.2
    · rw [directAset1_of_ne hset hplace]
      exact harrays.notForward a ha i hi
  · rw [hlength] at hi
    rw [hword]
    exact harrays.apart a ha b hb i hi
  · obtain ⟨-, hlength', hword'⟩ := elementsOf_congr (hheader hb)
    rw [hlength] at hi
    rw [hlength'] at hj
    rw [hword, hword']
    exact harrays.disjoint a ha b hb i j hi hj

end Stores

/-! ### Accesses of a run -/

section Runs

variable {arrays : Set Integer} {seen : List Quad} {s t : State} {array index value : LispObj}

theorem lengthOf_lt (memory : Cells) (array : Integer) : lengthOf memory array < 2 ^ 15 :=
  BitVec.isLt _

/-- The comparison of an index that was extended by its sign with a length. -/
theorem signExtend_lt_iff {index : Integer} {length : Nat} (hlength : length < 2 ^ 15) :
    index.signExtend 64 < .ofNat 64 length ↔ index.toNat < length := by
  have hlt := index.isLt
  rw [BitVec.lt_def, BitVec.toNat_signExtend, BitVec.toNat_ofNat, BitVec.toNat_setWidth,
    BitVec.msb_eq_decide]
  by_cases hsign : 2 ^ (32 - 1) ≤ index.toNat
  · rw [decide_eq_true hsign, if_pos rfl]
    omega
  · rw [decide_eq_false hsign, if_neg (by decide)]
    omega

theorem signExtend_eq {index : Integer} {length : Nat} (hlength : length < 2 ^ 15)
    (hindex : index.toNat < length) : index.signExtend 64 = extend index := by
  apply BitVec.eq_of_toNat_eq
  have hsign : ¬ 2 ^ (32 - 1) ≤ index.toNat := by omega
  rw [BitVec.toNat_signExtend, BitVec.msb_eq_decide, decide_eq_false hsign, if_neg (by decide)]
  rfl

/-- What the search of an access comes to. -/
theorem merge_index (h : Valid arrays seen s) (harrays : ShortArrays arrays s.memory)
    (hmem : array.data ∈ arrays) (htype : IsArray array) (fuel : Nat) (index : Integer) :
    ∃ t, merge (fuel + 1) s array (index.signExtend 64) =
        some (if index.toNat < lengthOf s.memory array.data then
            .ok (headerDecoded array.data (headerOf s.memory array.data))
          else .error (.illegalOperand .subscriptBoundsError), t) ∧
      t.memory = s.memory ∧ Valid arrays seen t := by
  obtain ⟨t, hmerge, hmemory, hvalid⟩ := merge_eq h harrays hmem htype fuel (index.signExtend 64)
  refine ⟨t, ?_, hmemory, hvalid⟩
  rw [hmerge, found]
  simp only [signExtend_lt_iff (lengthOf_lt _ _)]

theorem doAref1_eq (h : Valid arrays seen s) (harrays : ShortArrays arrays s.memory)
    (hmem : array.data ∈ arrays) (htype : IsArray array)
    (hfixnum : tagType index.tag = typeFixnum) (fuel : Nat) :
    ∃ t, doAref1 (fuel + 1) s array index =
        some (if UnpackedNil s.memory array.data index.data then .ok objectT
          else directAref1 s.memory array.data index.data, t) ∧
      t.memory = s.memory ∧ Valid arrays seen t := by
  obtain ⟨t, hmerge, hmemory, hvalid⟩ := merge_index h harrays hmem htype fuel index.data
  refine ⟨t, ?_, hmemory, hvalid⟩
  rw [doAref1, access, if_neg (not_not.mpr hfixnum), hmerge]
  by_cases hindex : index.data.toNat < lengthOf s.memory array.data
  · rw [if_pos hindex]
    simp only
    rw [signExtend_eq (lengthOf_lt _ _) hindex, hmemory,
      newAref1Internal_eq harrays hmem hindex]
    rfl
  · rw [if_neg hindex, if_neg fun h => hindex h.1, directAref1, if_pos (Nat.not_lt.mp hindex)]

theorem doAset1_eq (h : Valid arrays seen s) (harrays : ShortArrays arrays s.memory)
    (hmem : array.data ∈ arrays) (htype : IsArray array)
    (hfixnum : tagType index.tag = typeFixnum) (fuel : Nat) (value : LispObj) :
    ∃ t, doAset1 (fuel + 1) s array index value =
        some ((directAset1 s.memory array.data index.data value).map fun _ => (), t) ∧
      t.memory = (directAset1 s.memory array.data index.data value).toOption.getD s.memory ∧
      Valid arrays seen t := by
  obtain ⟨t, hmerge, hmemory, hvalid⟩ := merge_index h harrays hmem htype fuel index.data
  rw [doAset1, access, if_neg (not_not.mpr hfixnum), hmerge]
  by_cases hindex : index.data.toNat < lengthOf s.memory array.data
  · rw [if_pos hindex]
    simp only
    rw [signExtend_eq (lengthOf_lt _ _) hindex, hmemory,
      aset1Internal_eq harrays hmem hindex]
    cases hset : directAset1 s.memory array.data index.data value with
    | error exit => exact ⟨t, rfl, hmemory, hvalid⟩
    | ok memory =>
        refine ⟨{ t with memory }, rfl, rfl, hvalid.update fun a ha => ?_⟩
        rw [hmemory, directAset1_of_ne hset (harrays.apart array.data hmem a ha _ hindex).symm]
  · rw [if_neg hindex, directAset1, if_pos (Nat.not_lt.mp hindex)]
    exact ⟨t, rfl, hmemory, hvalid⟩

/-- The blocks are valid in every run. -/
theorem Run.valid (h : Run arrays seen s) : Valid arrays seen s := by
  induction h with
  | start hempty hfits =>
      exact ⟨List.mem_singleton_self _, fun c hc => List.mem_singleton.mp hc ▸ hfits,
        fun k => by rw [hempty]; decide, fun k hk => absurd (hempty k) hk⟩
  | @aref arrays seen s t fuel array index outcome _ harrays hmem htype haref ih =>
      by_cases hfixnum : tagType index.tag = typeFixnum
      · obtain ⟨u, hu, -, hvalid⟩ := doAref1_eq ih harrays hmem htype hfixnum fuel
        obtain ⟨-, rfl⟩ := Prod.mk.inj (Option.some.inj (haref.symm.trans hu))
        exact hvalid
      · rw [doAref1, access, if_pos hfixnum] at haref
        obtain ⟨-, rfl⟩ := Prod.mk.inj (Option.some.inj haref)
        exact ih
  | @aset arrays seen s t fuel array index value outcome _ harrays hmem htype haset ih =>
      by_cases hfixnum : tagType index.tag = typeFixnum
      · obtain ⟨u, hu, -, hvalid⟩ := doAset1_eq ih harrays hmem htype hfixnum fuel value
        obtain ⟨-, rfl⟩ := Prod.mk.inj (Option.some.inj (haset.symm.trans hu))
        exact hvalid
      · rw [doAset1, access, if_pos hfixnum] at haset
        obtain ⟨-, rfl⟩ := Prod.mk.inj (Option.some.inj haset)
        exact ih
  | change arrays' memory count _ hnew hfits ih =>
      refine ⟨List.mem_cons_self, fun c hc => ?_, ih.half, fun k hk => ?_⟩
      · obtain rfl | hc := List.mem_cons.mp hc
        · exact hfits
        · exact ih.fits c hc
      · have hseen := (ih.holds k hk).1
        refine ⟨List.mem_cons_of_mem _ hseen, fun hcount => ?_⟩
        have hold : count ∈ _ := (show _ = count from hcount) ▸ hseen
        exact absurd hold hnew

end Runs

/-! ### Accesses agree with direct accesses -/

section Agree

variable {arrays : Set Integer} {seen : List Quad} {s : State} {array index : LispObj}

/-- A read has the outcome of the direct access, and changes no memory. -/
def ReadsElement (fuel : Nat) (s : State) (array index : LispObj) : Prop :=
  ∃ t, doAref1 fuel s array index = some (directAref1 s.memory array.data index.data, t) ∧
    t.memory = s.memory

/-- A store has the outcome of the direct access, and leaves its memory. -/
def StoresElement (fuel : Nat) (s : State) (array index value : LispObj) : Prop :=
  ∃ t, doAset1 fuel s array index value =
      some ((directAset1 s.memory array.data index.data value).map fun _ => (), t) ∧
    t.memory = (directAset1 s.memory array.data index.data value).toOption.getD s.memory

/-- A value that was stored is read back. -/
def ReadsBack (fuel : Nat) (s : State) (array index value : LispObj) : Prop :=
  ∀ t, doAset1 fuel s array index value = some (.ok (), t) →
    ∃ u, doAref1 fuel t array index =
      some (.ok ((elementsOf s.memory array.data).readBack value), u)

/-- No other element of the arrays and no other word is changed by a store. -/
def KeepsOthers (arrays : Set Integer) (fuel : Nat) (s : State) (array index value : LispObj) :
    Prop :=
  ∀ t outcome, doAset1 fuel s array index value = some (outcome, t) →
    (∀ vma, vma ≠ wordOf s.memory array.data index.data → t.memory vma = s.memory vma) ∧
      ∀ b ∈ arrays, ∀ j, (b, j) ≠ (array.data, index.data) →
        directAref1 t.memory b j = directAref1 s.memory b j

/-- A store of NIL in bounds to an array of unpacked booleans. -/
def StoresNil (memory : Cells) (array index : Integer) (value : LispObj) : Prop :=
  index.toNat < lengthOf memory array ∧ (elementsOf memory array).type = .boolean ∧
    (elementsOf memory array).packing = 0 ∧ tagType value.tag = typeNIL

theorem readsElement_iff (h : Valid arrays seen s) (harrays : ShortArrays arrays s.memory)
    (hmem : array.data ∈ arrays) (htype : IsArray array)
    (hfixnum : tagType index.tag = typeFixnum) (fuel : Nat) :
    ReadsElement (fuel + 1) s array index ↔ ¬ UnpackedNil s.memory array.data index.data := by
  obtain ⟨t, haref, hmemory, -⟩ := doAref1_eq h harrays hmem htype hfixnum fuel
  constructor
  · intro hreads hnil
    obtain ⟨u, hu, -⟩ := hreads
    rw [if_pos hnil] at haref
    have houtcome := (Prod.mk.inj (Option.some.inj (haref.symm.trans hu))).1
    obtain ⟨hindex, hboolean, hzero, hdata⟩ := hnil
    have hword := harrays.fixnums array.data hmem index.data hindex (by rw [hboolean]; decide)
    rw [directAref1, if_neg (Nat.not_le.mpr hindex), cellValue_fixnum hword, Except.map,
      Elements.field, if_neg (not_not.mpr hzero), hboolean, hdata] at houtcome
    have hne : objectT ≠ objectNIL := by decide
    exact hne (Except.ok.inj houtcome)
  · intro hnil
    rw [if_neg hnil] at haref
    exact ⟨t, haref, hmemory⟩

theorem keepsOthers (h : Valid arrays seen s) (harrays : ShortArrays arrays s.memory)
    (hmem : array.data ∈ arrays) (htype : IsArray array)
    (hfixnum : tagType index.tag = typeFixnum) (fuel : Nat) (value : LispObj) :
    KeepsOthers arrays (fuel + 1) s array index value := by
  intro t outcome haset
  obtain ⟨u, hu, hmemory, -⟩ := doAset1_eq h harrays hmem htype hfixnum fuel value
  obtain ⟨-, rfl⟩ := Prod.mk.inj (Option.some.inj (haset.symm.trans hu))
  rw [hmemory]
  cases hset : directAset1 s.memory array.data index.data value with
  | error exit => exact ⟨fun _ _ => rfl, fun _ _ _ _ => rfl⟩
  | ok memory =>
      exact ⟨fun vma hvma => directAset1_of_ne hset hvma,
        fun b hb j hne => directAref1_of_ne harrays hmem hset hb hne⟩

/-- After a store an unpacked boolean is stored as nothing if NIL was stored. -/
theorem unpackedNil_iff (harrays : ShortArrays arrays s.memory) (hmem : array.data ∈ arrays)
    {memory : Cells} {value : LispObj}
    (hset : directAset1 s.memory array.data index.data value = .ok memory) :
    UnpackedNil memory array.data index.data ↔
      StoresNil s.memory array.data index.data value := by
  obtain ⟨helements, hlength, hword⟩ :=
    elementsOf_congr (headerOf_directAset1 harrays hmem hset hmem)
  obtain ⟨hindex, bits, q, hbits, hq, rfl⟩ := directAset1_ok hset
  rw [UnpackedNil, StoresNil, helements, hlength, hword, Function.update_self]
  refine and_congr_right fun _ => and_congr_right fun hboolean => and_congr_right fun hzero => ?_
  rw [storedWord_field (by rw [hboolean]; decide)] at hq
  rw [storedBits, hboolean] at hbits
  obtain rfl := Except.ok.inj hq
  obtain rfl := Except.ok.inj hbits
  rw [Elements.setField, if_neg (not_not.mpr hzero)]
  by_cases hnil : tagType value.tag = typeNIL
  · rw [if_pos hnil]
    exact iff_of_true rfl hnil
  · rw [if_neg hnil]
    exact iff_of_false (fun h => absurd (show (1 : Integer) = 0 from h) (by decide)) hnil

/-- A store of NIL is done. -/
theorem directAset1_of_storesNil {memory : Cells} {array index : Integer} {value : LispObj}
    (h : StoresNil memory array index value) :
    directAset1 memory array index value = .ok (Function.update memory (wordOf memory array index)
      ⟨(memory (wordOf memory array index)).tag, 0⟩) := by
  obtain ⟨hindex, hboolean, hzero, hnil⟩ := h
  rw [directAset1, if_neg (Nat.not_le.mpr hindex), storedBits, hboolean]
  simp only [if_pos hnil]
  change (storedWord memory array index value 0).map _ = _
  rw [storedWord_field (by rw [hboolean]; decide), Elements.setField, if_neg (not_not.mpr hzero)]
  rfl

theorem readsBack_iff (h : Valid arrays seen s) (harrays : ShortArrays arrays s.memory)
    (hmem : array.data ∈ arrays) (htype : IsArray array)
    (hfixnum : tagType index.tag = typeFixnum) (fuel : Nat) {value : LispObj}
    (hvalue : Readable (elementsOf s.memory array.data) value) :
    ReadsBack (fuel + 1) s array index value ↔
      ¬ StoresNil s.memory array.data index.data value := by
  obtain ⟨t, haset, hmemory, hvalid⟩ := doAset1_eq h harrays hmem htype hfixnum fuel value
  cases hset : directAset1 s.memory array.data index.data value with
  | error exit =>
      rw [hset] at haset
      refine iff_of_true (fun u hu => ?_) fun hnil => ?_
      · cases (Prod.mk.inj (Option.some.inj (haset.symm.trans hu))).1
      · rw [directAset1_of_storesNil hnil] at hset
        cases hset
  | ok memory =>
      rw [hset] at haset hmemory
      obtain rfl : t.memory = memory := hmemory
      have hnil := unpackedNil_iff harrays hmem hset
      have hback := directAref1_directAset1 harrays hmem hset hvalue
      obtain ⟨u, haref, -, -⟩ := doAref1_eq hvalid (harrays.directAset1 hmem hset hvalue) hmem htype
        hfixnum fuel
      rw [hback] at haref
      constructor
      · intro hreads hstores
        obtain ⟨v, hv⟩ := hreads t haset
        rw [if_pos (hnil.mpr hstores)] at haref
        have houtcome := (Prod.mk.inj (Option.some.inj (haref.symm.trans hv))).1
        obtain ⟨-, hboolean, -, hvalue⟩ := hstores
        rw [Elements.readBack, hboolean] at houtcome
        simp only [if_pos hvalue] at houtcome
        have hne : objectT ≠ objectNIL := by decide
        exact hne (Except.ok.inj houtcome)
      · intro hstores v hv
        obtain ⟨-, rfl⟩ := Prod.mk.inj (Option.some.inj (haset.symm.trans hv))
        rw [if_neg (hnil.not.mpr hstores)] at haref
        exact ⟨u, haref⟩

end Agree

/-- Accesses agree with direct accesses in every run, and exactly the reads of unpacked
booleans that are stored as nothing, and of NIL where it was stored among them, do not. -/
theorem accesses_agree_iff {arrays : Set Integer} {seen : List Quad} {s : State}
    {array index : LispObj} (hrun : Run arrays seen s) (harrays : ShortArrays arrays s.memory)
    (hmem : array.data ∈ arrays) (htype : IsArray array)
    (hfixnum : tagType index.tag = typeFixnum) (fuel : Nat) :
    (ReadsElement (fuel + 1) s array index ↔ ¬ UnpackedNil s.memory array.data index.data) ∧
      ∀ value, StoresElement (fuel + 1) s array index value ∧
        KeepsOthers arrays (fuel + 1) s array index value ∧
        (Readable (elementsOf s.memory array.data) value →
          (ReadsBack (fuel + 1) s array index value ↔
            ¬ StoresNil s.memory array.data index.data value)) := by
  have hvalid := hrun.valid
  refine ⟨readsElement_iff hvalid harrays hmem htype hfixnum fuel, fun value => ⟨?_, ?_, ?_⟩⟩
  · obtain ⟨t, haset, hmemory, -⟩ := doAset1_eq hvalid harrays hmem htype hfixnum fuel value
    exact ⟨t, haset, hmemory⟩
  · exact keepsOthers hvalid harrays hmem htype hfixnum fuel value
  · exact readsBack_iff hvalid harrays hmem htype hfixnum fuel

/-! ### An array of one word -/

/-- A memory of fixnums and a header. -/
def sampleMemory (header : Integer) : Cells := fun vma =>
  if vma = 100 then ⟨typeHeaderI, header⟩ else ⟨typeFixnum, 0⟩

def sampleState (header : Integer) : State where
  memory := sampleMemory header
  areventcount := 0
  ac _ := ⟨0, 0, 0, 0⟩

theorem run_sampleState (header : Integer) : Run {100} [0] (sampleState header) :=
  @Run.start {100} (sampleState header) (fun _ => rfl) (Nat.two_pow_pos 22)

theorem shortArrays_sampleMemory {header : Integer} (hshort : arrayLongPrefixP header = false)
    (hpacking : arrayBytePacking header ≤ 5) (hobject : arrayElementType header ≠ .object) :
    ShortArrays {100} (sampleMemory header) := by
  have hword {i : Integer} (hi : i.toNat < lengthOf (sampleMemory header) 100) :
      wordOf (sampleMemory header) 100 i ≠ 100 := by
    intro h
    have hnat := congrArg BitVec.toNat h
    have hlength := lengthOf_lt (sampleMemory header) 100
    rw [wordOf, BitVec.toNat_add, BitVec.toNat_ushiftRight, toNat_extend] at hnat
    have hle := Nat.shiftRight_le i.toNat (elementsOf (sampleMemory header) 100).packing
    rw [show (extend 100 + 1 : Quad).toNat = 101 from rfl, show (100 : Quad).toNat = 100 from rfl]
      at hnat
    generalize i.toNat >>> (elementsOf (sampleMemory header) 100).packing = n at hnat hle
    omega
  have hcell {i : Integer} (hi : i.toNat < lengthOf (sampleMemory header) 100) :
      sampleMemory header (wordOf (sampleMemory header) 100 i) = ⟨typeFixnum, 0⟩ :=
    if_neg (hword hi)
  refine ⟨fun a ha => ?_, fun a ha => ?_, fun a ha => ?_, fun a ha => ?_, fun a ha i hi _ => ?_,
    fun a ha i hi => ?_, fun a ha b hb i hi => ?_, fun a ha b hb i j _ _ _ => ?_⟩
  all_goals obtain rfl := Set.mem_singleton_iff.mp ha
  · rw [sampleMemory, if_pos (by rfl)]
    exact (by decide : tagType typeHeaderI = typeHeaderI)
  · exact hshort
  · exact hpacking
  · exact fun h => absurd h hobject
  · rw [hcell hi]
    rfl
  · rw [hcell hi]
    rfl
  · obtain rfl := Set.mem_singleton_iff.mp hb
    exact hword hi
  · exact (Set.mem_singleton_iff.mp hb).symm

/-- The second of three bytes. -/
theorem accesses_agree_iff_bytes :
    (ReadsElement 1 (sampleState 0x10000003) ⟨typeArray, 100⟩ ⟨typeFixnum, 1⟩ ↔
        ¬ UnpackedNil (sampleMemory 0x10000003) 100 1) ∧
      ∀ value, StoresElement 1 (sampleState 0x10000003) ⟨typeArray, 100⟩ ⟨typeFixnum, 1⟩ value ∧
        KeepsOthers {100} 1 (sampleState 0x10000003) ⟨typeArray, 100⟩ ⟨typeFixnum, 1⟩ value ∧
        (Readable (elementsOf (sampleMemory 0x10000003) 100) value →
          (ReadsBack 1 (sampleState 0x10000003) ⟨typeArray, 100⟩ ⟨typeFixnum, 1⟩ value ↔
            ¬ StoresNil (sampleMemory 0x10000003) 100 1 value)) :=
  accesses_agree_iff (run_sampleState 0x10000003)
    (shortArrays_sampleMemory (by decide) (by decide) (by decide)) (Set.mem_singleton 100)
    (.inl rfl) rfl 0

/-- An unpacked boolean that is nothing is read as T, and so is NIL after it was stored. -/
theorem not_accesses_agree_unpacked :
    Run {100} [0] (sampleState 0x80000001) ∧ ShortArrays {100} (sampleMemory 0x80000001) ∧
      ¬ ReadsElement 1 (sampleState 0x80000001) ⟨typeArray, 100⟩ ⟨typeFixnum, 0⟩ ∧
      ¬ ReadsBack 1 (sampleState 0x80000001) ⟨typeArray, 100⟩ ⟨typeFixnum, 0⟩ objectNIL := by
  have hrun := run_sampleState 0x80000001
  have harrays : ShortArrays {100} (sampleMemory 0x80000001) :=
    shortArrays_sampleMemory (by decide) (by decide) (by decide)
  refine ⟨hrun, harrays, ?_, ?_⟩
  · rw [readsElement_iff hrun.valid harrays (Set.mem_singleton 100) (.inl rfl) rfl, not_not]
    decide
  · have hvalue : Readable (elementsOf (sampleMemory 0x80000001) 100) objectNIL :=
      fun h => absurd h (by decide)
    have hback : ReadsBack 1 (sampleState 0x80000001) ⟨typeArray, 100⟩ ⟨typeFixnum, 0⟩
        objectNIL ↔ _ :=
      readsBack_iff hrun.valid harrays (Set.mem_singleton 100) (.inl rfl) rfl 0 hvalue
    rw [hback, not_not]
    exact ⟨by decide, by decide, by decide, by decide⟩

end Interpreter.ArrayCaches
