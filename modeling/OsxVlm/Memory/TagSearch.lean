import Mathlib
import OsxVlm.Memory.Attributes
import OsxVlm.Memory.VirtualMemory

/-!
# Searches for a tag

`VirtualMemorySearchCDR` and `VirtualMemorySearchType` read the tags eight at a
time and shift the word, one way or the other.  The addresses have 32 bits: the
group at either end of the address space is passed over where its neighbour
would lie outside, and the search goes on outside of the tags.
-/

namespace VM

/-! ### The searches -/

/-- The group `g` of eight tags, as the little-endian word it is read as. -/
def tagWord (m : Memory) (g : Nat) : BitVec 64 :=
  m.tagSpace (8 * g + 7) ++ m.tagSpace (8 * g + 6) ++ m.tagSpace (8 * g + 5) ++
    m.tagSpace (8 * g + 4) ++ m.tagSpace (8 * g + 3) ++ m.tagSpace (8 * g + 2) ++
    m.tagSpace (8 * g + 1) ++ m.tagSpace (8 * g)

/-- The loop over a group, upwards; a group has no more than `n` addresses before the
next. -/
def searchGroupForward (test : BitVec 64 → Bool) (startvma limitvma nextvma : Nat) :
    Nat → BitVec 64 → Nat → Option Nat
  | 0, _, _ => none
  | n + 1, tagbits, thisvma =>
      if thisvma < nextvma then
        if test tagbits && decide (startvma ≤ thisvma) && decide (thisvma < limitvma) then
          some thisvma
        else searchGroupForward test startvma limitvma nextvma n (tagbits >>> 8) (thisvma + 1)
      else none

/-- The loop over a group, downwards. -/
def searchGroupBackward (test : BitVec 64 → Bool) (startvma limitvma nextvma : Nat) :
    Nat → BitVec 64 → Nat → Option Nat
  | 0, _, _ => none
  | n + 1, tagbits, thisvma =>
      if thisvma > nextvma then
        if test (tagbits >>> 56) && decide (startvma ≥ thisvma) && decide (thisvma > limitvma) then
          some thisvma
        else searchGroupBackward test startvma limitvma nextvma n (tagbits <<< 8) (thisvma - 1)
      else none

/-- Eight words before an address, with 32 bits. -/
def eightBefore (vma : Nat) : Nat := if vma < 8 then vma + 0xFFFFFFF8 else vma - 8

/-- The loop over the groups, upwards.  `none` while it has not ended after `fuel`
groups, and where it reads behind the last. -/
def searchForward (m : Memory) (load : BitVec 64 → BitVec 64) (test : BitVec 64 → Bool)
    (startvma limitvma : Nat) : Nat → Nat → Nat → Nat → Option (Option Nat)
  | 0, _, _, _ => none
  | fuel + 1, tags8, thisvma, nextvma =>
      if thisvma < limitvma then
        if 2 ^ 29 ≤ tags8 then none
        else
          match searchGroupForward test startvma limitvma nextvma 8 (load (tagWord m tags8))
              thisvma with
          | some vma => some (some vma)
          | none =>
              searchForward m load test startvma limitvma fuel (tags8 + 1) nextvma
                ((nextvma + 8) % 2 ^ 32)
      else some none

/-- The loop over the groups, downwards; `none` also where it reads before the first. -/
def searchBackward (m : Memory) (load : BitVec 64 → BitVec 64) (test : BitVec 64 → Bool)
    (startvma limitvma : Nat) : Nat → Int → Nat → Nat → Option (Option Nat)
  | 0, _, _, _ => none
  | fuel + 1, tags8, thisvma, nextvma =>
      if thisvma > limitvma then
        if tags8 < 0 then none
        else
          match searchGroupBackward test startvma limitvma nextvma 8 (load (tagWord m tags8.toNat))
              thisvma with
          | some vma => some (some vma)
          | none =>
              searchBackward m load test startvma limitvma fuel (tags8 - 1) nextvma
                (eightBefore nextvma)
      else some none

/-- Both loops start at the group of the start address. -/
def searchTags (m : Memory) (load : BitVec 64 → BitVec 64) (test : BitVec 64 → Bool) (fuel : Nat)
    (vma : Integer) (count : Int) : Option (Option Nat) :=
  let startvma := vma.toNat
  let limitvma := ((startvma + count) % 2 ^ 32).toNat
  if 0 < count then
    let thisvma := startvma - startvma % 8
    searchForward m load test startvma limitvma fuel (thisvma / 8) thisvma
      ((thisvma + 8) % 2 ^ 32)
  else
    let thisvma := startvma - startvma % 8 + 7
    searchBackward m load test startvma limitvma fuel (thisvma / 8 : Nat) thisvma
      (eightBefore thisvma)

def virtualMemorySearchCDR (m : Memory) (fuel : Nat) (vma : Integer) (count : Int)
    (cdrMask : BitVec 32) : Option (Option Nat) :=
  searchTags m (fun tags => tags.sshiftRight 6)
    (fun tagbits => cdrMask.getLsbD (tagbits &&& 3#64).toNat) fuel vma count

def virtualMemorySearchType (m : Memory) (fuel : Nat) (vma : Integer) (count : Int)
    (typeMask : BitVec 64) : Option (Option Nat) :=
  searchTags m id (fun tagbits => typeMask.getLsbD (tagbits &&& 0x3F#64).toNat) fuel vma count

/-! ### One tag of a group -/

theorem getLsbD_tagWord (m : Memory) (g : Nat) {i b : Nat} (hi : i < 8) (hb : b < 8) :
    (tagWord m g).getLsbD (8 * i + b) = (m.tagSpace (8 * g + i)).getLsbD b := by
  unfold tagWord
  simp only [BitVec.getLsbD_append]
  interval_cases i <;> grind

/-- A mask of `width` ones keeps the low bits. -/
theorem low_eq {t : BitVec 64} {tag : Tag} {b width : Nat} (hle : b + width ≤ 8)
    (h : ∀ k < width, t.getLsbD k = tag.getLsbD (b + k)) :
    (t &&& BitVec.ofNat 64 (2 ^ width - 1)).toNat =
      ((tag >>> b) &&& BitVec.ofNat 8 (2 ^ width - 1)).toNat := by
  apply Nat.eq_of_testBit_eq
  intro k
  rw [← BitVec.getLsbD, ← BitVec.getLsbD, BitVec.getLsbD_and, BitVec.getLsbD_and,
    BitVec.getLsbD_ushiftRight, BitVec.getLsbD_ofNat, BitVec.getLsbD_ofNat,
    Nat.testBit_two_pow_sub_one]
  by_cases hk : k < width
  · have h8 : k < 8 := by omega
    have h64 : k < 64 := by omega
    rw [h k hk]
    simp [hk, h8, h64]
  · simp [hk]

/-- What a search reads of a word is the field of the tag it stands at. -/
structure Reads (load : BitVec 64 → BitVec 64) (test : BitVec 64 → Bool) (selects : Tag → Bool) :
    Prop where
  forward : ∀ m g, ∀ i < 8,
    test (load (tagWord m g) >>> (8 * i)) = selects (m.tagSpace (8 * g + i))
  backward : ∀ m g, ∀ i < 8,
    test (load (tagWord m g) <<< (8 * i) >>> 56) = selects (m.tagSpace (8 * g + 7 - i))

/-- The mask selects the cdr code of the tag. -/
def selectsCDR (cdrMask : BitVec 32) (tag : Tag) : Bool := cdrMask.getLsbD (tag >>> 6).toNat

/-- The mask selects the data type of the tag. -/
def selectsType (typeMask : BitVec 64) (tag : Tag) : Bool :=
  typeMask.getLsbD (tag &&& 0x3F).toNat

theorem reads_cdr (cdrMask : BitVec 32) :
    Reads (fun tags => tags.sshiftRight 6)
      (fun tagbits => cdrMask.getLsbD (tagbits &&& 3#64).toNat) (selectsCDR cdrMask) := by
  have hcode : ∀ tag : Tag, (tag >>> 6) &&& 3#8 = tag >>> 6 := by decide
  constructor
  case forward =>
    intro m g i hi
    have hlow := @low_eq ((tagWord m g).sshiftRight 6 >>> (8 * i)) (m.tagSpace (8 * g + i)) 6 2
      (by omega) (by
        intro k hk
        have hbit := getLsbD_tagWord m g hi (b := 6 + k) (by omega)
        have hplace : 6 + (8 * i + k) = 8 * i + (6 + k) := by omega
        rw [BitVec.getLsbD_ushiftRight, BitVec.getLsbD_sshiftRight, ← hbit, hplace, if_pos (by omega)]
        simpa using by omega)
    show cdrMask.getLsbD _ = cdrMask.getLsbD _
    rw [← hcode]
    exact congrArg _ hlow
  case backward =>
    intro m g i hi
    have hlow := @low_eq ((tagWord m g).sshiftRight 6 <<< (8 * i) >>> 56)
      (m.tagSpace (8 * g + 7 - i)) 6 2 (by omega) (by
        intro k hk
        have hbit := getLsbD_tagWord m g (i := 7 - i) (b := 6 + k) (by omega) (by omega)
        have hplace : 6 + (56 + k - 8 * i) = 8 * (7 - i) + (6 + k) := by omega
        have haddr : 8 * g + (7 - i) = 8 * g + 7 - i := by omega
        rw [haddr] at hbit
        rw [BitVec.getLsbD_ushiftRight, BitVec.getLsbD_shiftLeft, BitVec.getLsbD_sshiftRight,
          ← hbit, hplace, if_pos (show 8 * (7 - i) + (6 + k) < 64 by omega),
          decide_eq_true (show 56 + k < 64 by omega),
          decide_eq_false (show ¬ 56 + k < 8 * i by omega),
          decide_eq_false (show ¬ 64 ≤ 56 + k - 8 * i by omega)]
        rfl)
    show cdrMask.getLsbD _ = cdrMask.getLsbD _
    rw [← hcode]
    exact congrArg _ hlow

theorem reads_type (typeMask : BitVec 64) :
    Reads id (fun tagbits => typeMask.getLsbD (tagbits &&& 0x3F#64).toNat)
      (selectsType typeMask) := by
  have hzero : ∀ tag : Tag, (tag >>> 0) &&& 0x3F#8 = tag &&& 0x3F := by decide
  constructor
  case forward =>
    intro m g i hi
    have hlow := @low_eq (tagWord m g >>> (8 * i)) (m.tagSpace (8 * g + i)) 0 6 (by omega) (by
        intro k hk
        have hbit := getLsbD_tagWord m g hi (b := 0 + k) (by omega)
        rw [BitVec.getLsbD_ushiftRight, ← hbit, Nat.zero_add])
    show typeMask.getLsbD _ = typeMask.getLsbD _
    rw [← hzero]
    exact congrArg _ hlow
  case backward =>
    intro m g i hi
    have hlow := @low_eq (tagWord m g <<< (8 * i) >>> 56) (m.tagSpace (8 * g + 7 - i)) 0 6
      (by omega) (by
        intro k hk
        have hbit := getLsbD_tagWord m g (i := 7 - i) (b := 0 + k) (by omega) (by omega)
        have hplace : 56 + k - 8 * i = 8 * (7 - i) + (0 + k) := by omega
        have haddr : 8 * g + (7 - i) = 8 * g + 7 - i := by omega
        rw [haddr] at hbit
        rw [BitVec.getLsbD_ushiftRight, BitVec.getLsbD_shiftLeft, ← hbit, hplace]
        simpa using by omega)
    show typeMask.getLsbD _ = typeMask.getLsbD _
    rw [← hzero]
    exact congrArg _ hlow

/-! ### One group -/

section Groups

variable {test : BitVec 64 → Bool} {sel : Nat → Bool} {startvma limitvma nextvma : Nat}

theorem searchGroupForward_eq_some_iff {n thisvma : Nat} {tagbits : BitVec 64}
    (hnext : thisvma + n ≤ nextvma)
    (hsel : ∀ i < n, test (tagbits >>> (8 * i)) = sel (thisvma + i)) (a : Nat) :
    searchGroupForward test startvma limitvma nextvma n tagbits thisvma = some a ↔
      IsLeast {a | thisvma ≤ a ∧ a < thisvma + n ∧ startvma ≤ a ∧ a < limitvma ∧ sel a = true} a := by
  induction n generalizing thisvma tagbits with
  | zero =>
      constructor
      · intro h
        cases h
      · rintro ⟨⟨hlow, hhigh, -⟩, -⟩
        omega
  | succ n ih =>
      have hhead : test tagbits = sel thisvma := by simpa using hsel 0 (Nat.succ_pos n)
      unfold searchGroupForward
      rw [if_pos (by omega), hhead]
      by_cases hhit : (sel thisvma && decide (startvma ≤ thisvma) &&
          decide (thisvma < limitvma)) = true
      · rw [if_pos hhit]
        simp only [Bool.and_eq_true, decide_eq_true_eq] at hhit
        constructor
        · intro h
          cases h
          exact ⟨⟨le_refl _, by omega, hhit.1.2, hhit.2, hhit.1.1⟩, fun b hb => hb.1⟩
        · intro h
          have hle : a ≤ thisvma := h.2 ⟨le_refl _, by omega, hhit.1.2, hhit.2, hhit.1.1⟩
          have heq : a = thisvma := Nat.le_antisymm hle h.1.1
          rw [heq]
      · rw [if_neg hhit, ih (by omega) (by
          intro i hi
          rw [← BitVec.shiftRight_add, Nat.add_assoc, Nat.add_comm 1 i, ← hsel (i + 1) (by omega)]
          congr 2
          omega)]
        simp only [Bool.and_eq_true, decide_eq_true_eq] at hhit
        have hset : {a | thisvma + 1 ≤ a ∧ a < thisvma + 1 + n ∧ startvma ≤ a ∧ a < limitvma ∧
            sel a = true} =
            {a | thisvma ≤ a ∧ a < thisvma + (n + 1) ∧ startvma ≤ a ∧ a < limitvma ∧
              sel a = true} := by
          ext b
          constructor
          · rintro ⟨hlow, hhigh, hrest⟩
            exact ⟨by omega, by omega, hrest⟩
          · rintro ⟨hlow, hhigh, hstart, hlimit, hb⟩
            have hne : b ≠ thisvma := by
              rintro rfl
              exact hhit ⟨⟨hb, hstart⟩, hlimit⟩
            exact ⟨by omega, by omega, hstart, hlimit, hb⟩
        rw [hset]

theorem searchGroupBackward_eq_some_iff {n thisvma : Nat} {tagbits : BitVec 64}
    (hnext : nextvma + n ≤ thisvma)
    (hsel : ∀ i < n, test (tagbits <<< (8 * i) >>> 56) = sel (thisvma - i)) (a : Nat) :
    searchGroupBackward test startvma limitvma nextvma n tagbits thisvma = some a ↔
      IsGreatest {a | a ≤ thisvma ∧ thisvma < a + n ∧ a ≤ startvma ∧ limitvma < a ∧
        sel a = true} a := by
  induction n generalizing thisvma tagbits with
  | zero =>
      constructor
      · intro h
        cases h
      · rintro ⟨⟨hhigh, hlow, -⟩, -⟩
        omega
  | succ n ih =>
      have hhead : test (tagbits >>> 56) = sel thisvma := by simpa using hsel 0 (Nat.succ_pos n)
      unfold searchGroupBackward
      rw [if_pos (by omega), hhead]
      by_cases hhit : (sel thisvma && decide (startvma ≥ thisvma) &&
          decide (thisvma > limitvma)) = true
      · rw [if_pos hhit]
        simp only [Bool.and_eq_true, decide_eq_true_eq] at hhit
        constructor
        · intro h
          cases h
          exact ⟨⟨le_refl _, by omega, hhit.1.2, hhit.2, hhit.1.1⟩, fun b hb => hb.1⟩
        · intro h
          have hle : thisvma ≤ a := h.2 ⟨le_refl _, by omega, hhit.1.2, hhit.2, hhit.1.1⟩
          have heq : a = thisvma := Nat.le_antisymm h.1.1 hle
          rw [heq]
      · rw [if_neg hhit, ih (by omega) (by
          intro i hi
          have hback : thisvma - 1 - i = thisvma - (i + 1) := by omega
          rw [← BitVec.shiftLeft_add, hback, ← hsel (i + 1) (by omega)]
          congr 3
          omega)]
        simp only [Bool.and_eq_true, decide_eq_true_eq] at hhit
        have hset : {a | a ≤ thisvma - 1 ∧ thisvma - 1 < a + n ∧ a ≤ startvma ∧ limitvma < a ∧
            sel a = true} =
            {a | a ≤ thisvma ∧ thisvma < a + (n + 1) ∧ a ≤ startvma ∧ limitvma < a ∧
              sel a = true} := by
          ext b
          constructor
          · rintro ⟨hhigh, hlow, hrest⟩
            exact ⟨by omega, by omega, hrest⟩
          · rintro ⟨hhigh, hlow, hstart, hlimit, hb⟩
            have hne : b ≠ thisvma := by
              rintro rfl
              exact hhit ⟨⟨hb, hstart⟩, hlimit⟩
            exact ⟨by omega, by omega, hstart, hlimit, hb⟩
        rw [hset]

end Groups

/-! ### The loop over the groups -/

section Loops

variable {m : Memory} {load : BitVec 64 → BitVec 64} {test : BitVec 64 → Bool}
variable {selects : Tag → Bool} {startvma limitvma : Nat}

/-- The addresses that a search upwards still has to look at before group `g`, short of
the last group. -/
def ahead (m : Memory) (selects : Tag → Bool) (startvma limitvma g : Nat) : Set Nat :=
  {a | 8 * g ≤ a ∧ a < 2 ^ 32 - 8 ∧ startvma ≤ a ∧ a < limitvma ∧
    selects (m.tagSpace a) = true}

/-- The same downwards, short of the first group. -/
def behind (m : Memory) (selects : Tag → Bool) (startvma limitvma g : Nat) : Set Nat :=
  {a | a ≤ 8 * g + 7 ∧ 8 ≤ a ∧ a ≤ startvma ∧ limitvma < a ∧ selects (m.tagSpace a) = true}

/-- A group in front of the last is searched, and the loop goes on with the next. -/
theorem searchForward_step (hreads : Reads load test selects) (fuel : Nat) {g : Nat} (hg : g + 1 < 2 ^ 29)
    (hlimit : 8 * g < limitvma) {found : Option Nat}
    (hfound : searchGroupForward test startvma limitvma (8 * g + 8) 8 (load (tagWord m g)) (8 * g) =
      found) :
    searchForward m load test startvma limitvma (fuel + 1) g (8 * g) ((8 * g + 8) % 2 ^ 32) =
        found.elim
          (searchForward m load test startvma limitvma fuel (g + 1) (8 * (g + 1))
            ((8 * (g + 1) + 8) % 2 ^ 32))
          (fun vma => some (some vma)) ∧
      ∀ a, found = some a ↔ IsLeast {a | 8 * g ≤ a ∧ a < 8 * g + 8 ∧ startvma ≤ a ∧ a < limitvma ∧
        selects (m.tagSpace a) = true} a := by
  have hnext : (8 * g + 8) % 2 ^ 32 = 8 * (g + 1) := by omega
  constructor
  · conv_lhs => unfold searchForward
    rw [if_pos hlimit, if_neg (by omega), hnext]
    have heq : 8 * (g + 1) = 8 * g + 8 := by omega
    rw [heq, hfound]
    cases found <;> rfl
  · intro a
    rw [← hfound]
    exact @searchGroupForward_eq_some_iff test (fun a => selects (m.tagSpace a)) _ _ _ _ _ _
      (by omega) (fun i hi => hreads.forward m g i hi) a

theorem searchForward_found (hreads : Reads load test selects) {d g a : Nat}
    (hg : g + d + 1 = 2 ^ 29) (ha : IsLeast (ahead m selects startvma limitvma g) a) :
    ∃ fuel, searchForward m load test startvma limitvma fuel g (8 * g) ((8 * g + 8) % 2 ^ 32) =
      some (some a) := by
  induction d generalizing g with
  | zero =>
      obtain ⟨⟨hlow, hhigh, -⟩, -⟩ := ha
      omega
  | succ d ih =>
      obtain ⟨⟨hlow, hhigh, hstart, hlimit, hsel⟩, hleast⟩ := ha
      cases hfound : searchGroupForward test startvma limitvma (8 * g + 8) 8 (load (tagWord m g))
          (8 * g) with
      | some b =>
          obtain ⟨hloop, hiff⟩ :=
            searchForward_step hreads 0 (by omega) (by omega) hfound
          obtain ⟨⟨hlowb, hhighb, hrestb⟩, hleastb⟩ := (hiff b).mp rfl
          have hab : a ≤ b := hleast ⟨hlowb, by omega, hrestb⟩
          have hba : b ≤ a := hleastb ⟨hlow, by omega, hstart, hlimit, hsel⟩
          have heq : a = b := Nat.le_antisymm hab hba
          rw [heq]
          exact ⟨1, hloop⟩
      | none =>
          obtain ⟨-, hiff⟩ := searchForward_step hreads 0 (by omega) (by omega) hfound
          have hout : 8 * (g + 1) ≤ a := by
            by_contra hin
            have hmem := (hiff a).mpr
              ⟨⟨hlow, by omega, hstart, hlimit, hsel⟩, fun b hb => hleast ⟨hb.1, by
                have := hb.2.1
                omega, hb.2.2⟩⟩
            cases hmem
          obtain ⟨fuel, hfuel⟩ := ih (g := g + 1) (by omega)
            ⟨⟨hout, hhigh, hstart, hlimit, hsel⟩, fun b hb => hleast ⟨by
              have := hb.1
              omega, hb.2⟩⟩
          exact ⟨fuel + 1, (searchForward_step hreads fuel (by omega) (by omega) hfound).1.trans hfuel⟩

/-- A group without a hit, where none is ahead. -/
theorem searchGroupForward_none (hreads : Reads load test selects) {g : Nat} (hg : g + 1 < 2 ^ 29)
    (hno : ahead m selects startvma limitvma g = ∅) :
    searchGroupForward test startvma limitvma (8 * g + 8) 8 (load (tagWord m g)) (8 * g) = none ∧
      ahead m selects startvma limitvma (g + 1) = ∅ := by
  rw [Set.eq_empty_iff_forall_notMem] at hno
  constructor
  · cases hfound : searchGroupForward test startvma limitvma (8 * g + 8) 8 (load (tagWord m g))
        (8 * g) with
    | none => rfl
    | some b =>
        obtain ⟨⟨hlow, hhigh, hrest⟩, -⟩ := (@searchGroupForward_eq_some_iff test
          (fun a => selects (m.tagSpace a)) _ _ _ _ _ _ (by omega)
          (fun i hi => hreads.forward m g i hi) b).mp hfound
        exact absurd ⟨hlow, by omega, hrest⟩ (hno b)
  · rw [Set.eq_empty_iff_forall_notMem]
    rintro b ⟨hlow, hrest⟩
    exact hno b ⟨by omega, hrest⟩

theorem searchForward_exhausted (hreads : Reads load test selects) {d g : Nat}
    (hg : g + d + 1 = 2 ^ 29) (hno : ahead m selects startvma limitvma g = ∅)
    (hlimit : limitvma ≤ 2 ^ 32 - 8) :
    ∃ fuel, searchForward m load test startvma limitvma fuel g (8 * g) ((8 * g + 8) % 2 ^ 32) =
      some none := by
  by_cases hend : 8 * g < limitvma
  · induction d generalizing g with
    | zero => omega
    | succ d ih =>
        obtain ⟨hnone, hno'⟩ := searchGroupForward_none hreads (by omega) hno
        have hstep := fun fuel =>
          (searchForward_step hreads fuel (by omega) hend hnone).1
        by_cases hend' : 8 * (g + 1) < limitvma
        · obtain ⟨fuel, hfuel⟩ := ih (by omega) hno' hend'
          exact ⟨fuel + 1, (hstep fuel).trans hfuel⟩
        · refine ⟨2, (hstep 1).trans ?_⟩
          unfold searchForward
          exact if_neg hend'
  · refine ⟨1, ?_⟩
    unfold searchForward
    exact if_neg hend

/-- Before a limit in the last group the loop does not stop, passes over that group and
reads behind it. -/
theorem searchForward_stuck (hreads : Reads load test selects) {d g : Nat}
    (hg : g + d + 1 = 2 ^ 29) (hno : ahead m selects startvma limitvma g = ∅)
    (hlimit : 2 ^ 32 - 8 < limitvma) (fuel : Nat) :
    searchForward m load test startvma limitvma fuel g (8 * g) ((8 * g + 8) % 2 ^ 32) = none := by
  induction d generalizing g fuel with
  | zero =>
      have hnext : (8 * g + 8) % 2 ^ 32 = 0 := by omega
      rw [hnext]
      cases fuel with
      | zero => rfl
      | succ fuel =>
          unfold searchForward
          rw [if_pos (by omega), if_neg (by omega)]
          have hskip : searchGroupForward test startvma limitvma 0 8 (load (tagWord m g)) (8 * g) =
              none := by
            unfold searchGroupForward
            exact if_neg (by omega)
          rw [hskip]
          cases fuel with
          | zero => rfl
          | succ fuel =>
              show searchForward m load test startvma limitvma (fuel + 1) (g + 1) 0 _ = none
              unfold searchForward
              rw [if_pos (by omega), if_pos (by omega)]
  | succ d ih =>
      cases fuel with
      | zero => rfl
      | succ fuel =>
          obtain ⟨hnone, hno'⟩ := searchGroupForward_none hreads (by omega) hno
          exact (searchForward_step hreads fuel (by omega) (by omega) hnone).1.trans
            (ih (by omega) hno' fuel)

/-- A group behind the first is searched, and the loop goes on with the one before. -/
theorem searchBackward_step (hreads : Reads load test selects) (fuel : Nat) {g : Nat} (hg : g + 1 < 2 ^ 29)
    (hlimit : limitvma < 8 * (g + 1) + 7) {found : Option Nat}
    (hfound : searchGroupBackward test startvma limitvma (8 * g + 7) 8 (load (tagWord m (g + 1)))
      (8 * (g + 1) + 7) = found) :
    searchBackward m load test startvma limitvma (fuel + 1) (g + 1 : Nat) (8 * (g + 1) + 7)
          (eightBefore (8 * (g + 1) + 7)) =
        found.elim
          (searchBackward m load test startvma limitvma fuel g (8 * g + 7)
            (eightBefore (8 * g + 7)))
          (fun vma => some (some vma)) ∧
      ∀ a, found = some a ↔ IsGreatest {a | a ≤ 8 * (g + 1) + 7 ∧ 8 * (g + 1) + 7 < a + 8 ∧
        a ≤ startvma ∧ limitvma < a ∧ selects (m.tagSpace a) = true} a := by
  have hnext : eightBefore (8 * (g + 1) + 7) = 8 * g + 7 := by
    unfold eightBefore
    rw [if_neg (by omega)]
    omega
  constructor
  · conv_lhs => unfold searchBackward
    have hgroup : ((g + 1 : Nat) : Int) - 1 = g := by omega
    rw [if_pos hlimit, if_neg (by omega), hnext, hgroup, Int.toNat_natCast, hfound]
    cases found <;> rfl
  · intro a
    rw [← hfound]
    exact @searchGroupBackward_eq_some_iff test (fun a => selects (m.tagSpace a)) _ _ _ _ _ _
      (by omega) (fun i hi => hreads.backward m (g + 1) i hi) a

theorem searchBackward_found (hreads : Reads load test selects) {g a : Nat} (hg : g < 2 ^ 29)
    (ha : IsGreatest (behind m selects startvma limitvma g) a) :
    ∃ fuel, searchBackward m load test startvma limitvma fuel g (8 * g + 7)
      (eightBefore (8 * g + 7)) = some (some a) := by
  induction g with
  | zero =>
      obtain ⟨⟨hhigh, hlow, -⟩, -⟩ := ha
      omega
  | succ g ih =>
      obtain ⟨⟨hhigh, hlow, hstart, hlimit, hsel⟩, hgreatest⟩ := ha
      cases hfound : searchGroupBackward test startvma limitvma (8 * g + 7) 8
          (load (tagWord m (g + 1))) (8 * (g + 1) + 7) with
      | some b =>
          obtain ⟨hloop, hiff⟩ := searchBackward_step hreads 0 hg (by omega) hfound
          obtain ⟨⟨hhighb, hlowb, hrestb⟩, hgreatestb⟩ := (hiff b).mp rfl
          have hba : b ≤ a := hgreatest ⟨hhighb, by omega, hrestb⟩
          have hab : a ≤ b := by
            by_contra hgt
            exact hgt (hgreatestb ⟨hhigh, by omega, hstart, hlimit, hsel⟩)
          have heq : a = b := Nat.le_antisymm hab hba
          rw [heq]
          exact ⟨1, hloop⟩
      | none =>
          obtain ⟨-, hiff⟩ := searchBackward_step hreads 0 hg (by omega) hfound
          have hout : a ≤ 8 * g + 7 := by
            by_contra hin
            have hmem := (hiff a).mpr
              ⟨⟨hhigh, by omega, hstart, hlimit, hsel⟩, fun b hb => hgreatest ⟨hb.1, by
                have := hb.2.1
                omega, hb.2.2⟩⟩
            cases hmem
          obtain ⟨fuel, hfuel⟩ := ih (by omega)
            ⟨⟨hout, hlow, hstart, hlimit, hsel⟩, fun b hb => hgreatest ⟨by
              have := hb.1
              omega, hb.2⟩⟩
          exact ⟨fuel + 1, (searchBackward_step hreads fuel hg (by omega) hfound).1.trans hfuel⟩

/-- A group without a hit, where none is behind. -/
theorem searchGroupBackward_none (hreads : Reads load test selects) {g : Nat}
    (hno : behind m selects startvma limitvma (g + 1) = ∅) :
    searchGroupBackward test startvma limitvma (8 * g + 7) 8 (load (tagWord m (g + 1)))
        (8 * (g + 1) + 7) = none ∧
      behind m selects startvma limitvma g = ∅ := by
  rw [Set.eq_empty_iff_forall_notMem] at hno
  constructor
  · cases hfound : searchGroupBackward test startvma limitvma (8 * g + 7) 8
        (load (tagWord m (g + 1))) (8 * (g + 1) + 7) with
    | none => rfl
    | some b =>
        obtain ⟨⟨hhigh, hlow, hrest⟩, -⟩ := (@searchGroupBackward_eq_some_iff test
          (fun a => selects (m.tagSpace a)) _ _ _ _ _ _ (by omega)
          (fun i hi => hreads.backward m (g + 1) i hi) b).mp hfound
        exact absurd ⟨hhigh, by omega, hrest⟩ (hno b)
  · rw [Set.eq_empty_iff_forall_notMem]
    rintro b ⟨hhigh, hrest⟩
    exact hno b ⟨by omega, hrest⟩

theorem searchBackward_exhausted (hreads : Reads load test selects) {g : Nat} (hg : g < 2 ^ 29)
    (hno : behind m selects startvma limitvma g = ∅) (hlimit : 7 ≤ limitvma) :
    ∃ fuel, searchBackward m load test startvma limitvma fuel g (8 * g + 7)
      (eightBefore (8 * g + 7)) = some none := by
  by_cases hend : limitvma < 8 * g + 7
  · induction g with
    | zero => omega
    | succ g ih =>
        obtain ⟨hnone, hno'⟩ := searchGroupBackward_none hreads hno
        have hstep := fun fuel => (searchBackward_step hreads fuel hg hend hnone).1
        by_cases hend' : limitvma < 8 * g + 7
        · obtain ⟨fuel, hfuel⟩ := ih (by omega) hno' hend'
          exact ⟨fuel + 1, (hstep fuel).trans hfuel⟩
        · refine ⟨2, (hstep 1).trans ?_⟩
          unfold searchBackward
          exact if_neg hend'
  · refine ⟨1, ?_⟩
    unfold searchBackward
    exact if_neg hend

/-- Before a limit in the first group the loop does not stop, passes over that group and
reads before it. -/
theorem searchBackward_stuck (hreads : Reads load test selects) {g : Nat} (hg : g < 2 ^ 29)
    (hno : behind m selects startvma limitvma g = ∅) (hlimit : limitvma < 7) (fuel : Nat) :
    searchBackward m load test startvma limitvma fuel g (8 * g + 7)
      (eightBefore (8 * g + 7)) = none := by
  induction g generalizing fuel with
  | zero =>
      have hnext : eightBefore (8 * 0 + 7) = 4294967295 := rfl
      rw [hnext]
      cases fuel with
      | zero => rfl
      | succ fuel =>
          have hskip : searchGroupBackward test startvma limitvma 4294967295 8
              (load (tagWord m ((0 : Nat) : Int).toNat)) (8 * 0 + 7) = none := by
            unfold searchGroupBackward
            rw [if_neg (by omega)]
          unfold searchBackward
          rw [if_pos (by omega), if_neg (by omega), hskip]
          dsimp only
          cases fuel with
          | zero => rfl
          | succ fuel =>
              unfold searchBackward
              rw [if_pos (by omega), if_pos (by omega)]
  | succ g ih =>
      cases fuel with
      | zero => rfl
      | succ fuel =>
          obtain ⟨hnone, hno'⟩ := searchGroupBackward_none hreads hno
          exact (searchBackward_step hreads fuel hg (by omega) hnone).1.trans
            (ih (by omega) hno' fuel)

end Loops

/-! ### The searches and the scan word by word -/

/-- The words of the range, and which way it is gone through. -/
def rangeOf (vma : Integer) (count : Int) : Set Nat :=
  {a | if 0 < count then vma.toNat ≤ a ∧ (a : Int) < vma.toNat + count
    else a ≤ vma.toNat ∧ (vma.toNat : Int) + count < a}

/-- A search ends with the first word of the range that is selected, or with none. -/
def FindsFirst (search : Nat → Option (Option Nat)) (selected : Set Nat) (count : Int) : Prop :=
  ∃ fuel result, search fuel = some result ∧
    (∀ a, result = some a ↔ if 0 < count then IsLeast selected a else IsGreatest selected a) ∧
    (result = none ↔ selected = ∅)

/-- The range does not end in the group at its end of the address space, or it does and
the search stops all the same. -/
def StopsInTime (selected : Set Nat) (vma : Integer) (count : Int) : Prop :=
  if 0 < count then
    vma.toNat + count ≤ 2 ^ 32 - 8 ∨ vma.toNat + count = 2 ^ 32 ∧ selected = ∅ ∨
      vma.toNat + count < 2 ^ 32 ∧ ∃ a ∈ selected, a < 2 ^ 32 - 8
  else
    8 ≤ vma.toNat + count + 1 ∨ vma.toNat + count + 1 = 0 ∧ selected = ∅ ∨
      1 ≤ vma.toNat + count + 1 ∧ ∃ a ∈ selected, 8 ≤ a

/-- The words of the range that are selected. -/
def selectedIn (m : Memory) (selects : Tag → Bool) (vma : Integer) (count : Int) : Set Nat :=
  {a | a ∈ rangeOf vma count ∧ selects (m.tagSpace a) = true}

/-- The range is not empty and stays within the address space. -/
def InSpace (vma : Integer) (count : Int) : Prop :=
  count ≠ 0 ∧ 0 ≤ vma.toNat + count + 1 ∧ vma.toNat + count ≤ 2 ^ 32

variable {m : Memory} {load : BitVec 64 → BitVec 64} {test : BitVec 64 → Bool}
variable {selects : Tag → Bool} {vma : Integer} {count : Int}

/-- A search that has found a word has found the first. -/
theorem findsFirst_some {search : Nat → Option (Option Nat)} {selected : Set Nat} {fuel a : Nat}
    (hsearch : search fuel = some (some a))
    (ha : if 0 < count then IsLeast selected a else IsGreatest selected a) :
    FindsFirst search selected count := by
  refine ⟨fuel, some a, hsearch, ?_, ?_⟩
  · intro b
    constructor
    · intro h
      cases h
      exact ha
    · intro hb
      congr 1
      split at ha
      · next hpos =>
          rw [if_pos hpos] at hb
          exact ha.unique hb
      · next hneg =>
          rw [if_neg hneg] at hb
          exact ha.unique hb
  · have hmem : a ∈ selected := by
      split at ha
      · exact ha.1
      · exact ha.1
    refine iff_of_false (by simp) ?_
    rintro rfl
    exact hmem

/-- A search that has found none is right where there is none. -/
theorem findsFirst_none {search : Nat → Option (Option Nat)} {selected : Set Nat} {fuel : Nat}
    (hsearch : search fuel = some none) (hempty : selected = ∅) :
    FindsFirst search selected count := by
  refine ⟨fuel, none, hsearch, ?_, iff_of_true rfl hempty⟩
  intro a
  subst hempty
  refine iff_of_false (by simp) ?_
  intro ha
  split at ha
  · exact ha.1
  · exact ha.1

theorem searchTags_forward (hreads : Reads load test selects) (hcount : 0 < count)
    (hend : vma.toNat + count ≤ 2 ^ 32) :
    FindsFirst (fun fuel => searchTags m load test fuel vma count) (selectedIn m selects vma count)
        count ↔
      StopsInTime (selectedIn m selects vma count) vma count := by
  have hvma := vma.isLt
  have hgroup : (vma.toNat - vma.toNat % 8) / 8 = vma.toNat / 8 := by omega
  have hstart : vma.toNat - vma.toNat % 8 = 8 * (vma.toNat / 8) := by omega
  have hsearch : ∀ fuel, searchTags m load test fuel vma count =
      searchForward m load test vma.toNat ((vma.toNat + count) % 2 ^ 32).toNat fuel (vma.toNat / 8)
        (8 * (vma.toNat / 8)) ((8 * (vma.toNat / 8) + 8) % 2 ^ 32) := by
    intro fuel
    unfold searchTags
    dsimp only
    rw [if_pos hcount, hgroup, hstart]
  have hmem : ∀ a, a ∈ selectedIn m selects vma count ↔
      (vma.toNat ≤ a ∧ (a : Int) < vma.toNat + count) ∧ selects (m.tagSpace a) = true := by
    intro a
    show (if 0 < count then _ else _) ∧ _ ↔ _
    rw [if_pos hcount]
  have hahead : ∀ a, a ∈ ahead m selects vma.toNat ((vma.toNat + count) % 2 ^ 32).toNat
      (vma.toNat / 8) ↔
      a < 2 ^ 32 - 8 ∧ a < ((vma.toNat + count) % 2 ^ 32).toNat ∧
        a ∈ selectedIn m selects vma count := by
    intro a
    rw [hmem]
    constructor
    · rintro ⟨-, hlast, hlow, hlimit, hsel⟩
      exact ⟨hlast, hlimit, ⟨hlow, by omega⟩, hsel⟩
    · rintro ⟨hlast, hlimit, ⟨hlow, -⟩, hsel⟩
      exact ⟨by omega, hlast, hlow, hlimit, hsel⟩
  -- the lowest word ahead of the last group is the lowest of the range
  have hleast : ∀ {a}, IsLeast (selectedIn m selects vma count) a → a < 2 ^ 32 - 8 →
      vma.toNat + count < 2 ^ 32 →
      IsLeast (ahead m selects vma.toNat ((vma.toNat + count) % 2 ^ 32).toNat (vma.toNat / 8)) a := by
    intro a ha hlast hlt
    have hin := (hmem a).mp ha.1
    exact ⟨(hahead a).mpr ⟨hlast, by omega, ha.1⟩, fun b hb => ha.2 ((hahead b).mp hb).2.2⟩
  have hgroups : vma.toNat / 8 + (2 ^ 29 - 1 - vma.toNat / 8) + 1 = 2 ^ 29 := by omega
  have hzero : vma.toNat + count = 2 ^ 32 → ∀ fuel, searchForward m load test vma.toNat
      ((vma.toNat + count) % 2 ^ 32).toNat (fuel + 1) (vma.toNat / 8) (8 * (vma.toNat / 8))
      ((8 * (vma.toNat / 8) + 8) % 2 ^ 32) = some none := by
    intro heq fuel
    unfold searchForward
    rw [if_neg (by omega)]
  unfold StopsInTime
  rw [if_pos hcount]
  simp only [hsearch]
  constructor
  · rintro ⟨fuel, result, hfound, -, hnone⟩
    dsimp only at hfound
    rcases Int.lt_trichotomy (vma.toNat + count) (2 ^ 32) with hlt | heq | hgt
    · by_cases hle : vma.toNat + count ≤ 2 ^ 32 - 8
      · exact .inl hle
      · refine .inr (.inr ⟨hlt, ?_⟩)
        by_contra hlast
        push Not at hlast
        have hno : ahead m selects vma.toNat ((vma.toNat + count) % 2 ^ 32).toNat (vma.toNat / 8) =
            ∅ := by
          rw [Set.eq_empty_iff_forall_notMem]
          intro a ha
          obtain ⟨hlow, -, hin⟩ := (hahead a).mp ha
          have hhigh := hlast a hin
          omega
        rw [searchForward_stuck hreads hgroups hno (by omega) fuel] at hfound
        cases hfound
    · refine .inr (.inl ⟨heq, hnone.mp ?_⟩)
      cases fuel with
      | zero => cases hfound
      | succ fuel =>
          rw [hzero heq fuel] at hfound
          cases hfound
          rfl
    · omega
  · rintro (hle | ⟨heq, hempty⟩ | ⟨hlt, a, ha, hlast⟩)
    · rcases Set.eq_empty_or_nonempty (selectedIn m selects vma count) with hempty | hsome
      · have hno : ahead m selects vma.toNat ((vma.toNat + count) % 2 ^ 32).toNat (vma.toNat / 8) =
            ∅ := by
          rw [Set.eq_empty_iff_forall_notMem] at hempty ⊢
          exact fun a ha => hempty a ((hahead a).mp ha).2.2
        obtain ⟨fuel, hfuel⟩ := searchForward_exhausted hreads hgroups hno (by omega)
        exact findsFirst_none hfuel hempty
      · obtain ⟨a, ha⟩ := (OrderBot.bddBelow _).exists_isLeast_of_nonempty hsome
        have hin := (hmem a).mp ha.1
        obtain ⟨fuel, hfuel⟩ :=
          searchForward_found hreads hgroups (hleast ha (by omega) (by omega))
        exact findsFirst_some hfuel (by rwa [if_pos hcount])
    · exact findsFirst_none (hzero heq 0) hempty
    · obtain ⟨b, hb⟩ := (OrderBot.bddBelow _).exists_isLeast_of_nonempty ⟨a, ha⟩
      have hle := hb.2 ha
      obtain ⟨fuel, hfuel⟩ := searchForward_found hreads hgroups (hleast hb (by omega) hlt)
      exact findsFirst_some hfuel (by rwa [if_pos hcount])

theorem searchTags_backward (hreads : Reads load test selects) (hcount : count < 0)
    (hend : 0 ≤ vma.toNat + count + 1) :
    FindsFirst (fun fuel => searchTags m load test fuel vma count) (selectedIn m selects vma count)
        count ↔
      StopsInTime (selectedIn m selects vma count) vma count := by
  have hvma := vma.isLt
  have hneg : ¬ 0 < count := by omega
  have hgroup : (vma.toNat - vma.toNat % 8 + 7) / 8 = vma.toNat / 8 := by omega
  have hstart : vma.toNat - vma.toNat % 8 + 7 = 8 * (vma.toNat / 8) + 7 := by omega
  have hgroups : vma.toNat / 8 < 2 ^ 29 := by omega
  have hsearch : ∀ fuel, searchTags m load test fuel vma count =
      searchBackward m load test vma.toNat ((vma.toNat + count) % 2 ^ 32).toNat fuel
        (vma.toNat / 8 : Nat) (8 * (vma.toNat / 8) + 7) (eightBefore (8 * (vma.toNat / 8) + 7)) := by
    intro fuel
    unfold searchTags
    dsimp only
    rw [if_neg hneg, hgroup, hstart]
  have hmem : ∀ a, a ∈ selectedIn m selects vma count ↔
      (a ≤ vma.toNat ∧ (vma.toNat : Int) + count < a) ∧ selects (m.tagSpace a) = true := by
    intro a
    show (if 0 < count then _ else _) ∧ _ ↔ _
    rw [if_neg hneg]
  have hbehind : ∀ a, a ∈ behind m selects vma.toNat ((vma.toNat + count) % 2 ^ 32).toNat
      (vma.toNat / 8) ↔
      8 ≤ a ∧ ((vma.toNat + count) % 2 ^ 32).toNat < a ∧ a ∈ selectedIn m selects vma count := by
    intro a
    rw [hmem]
    constructor
    · rintro ⟨-, hfirst, hhigh, hlimit, hsel⟩
      exact ⟨hfirst, hlimit, ⟨hhigh, by omega⟩, hsel⟩
    · rintro ⟨hfirst, hlimit, ⟨hhigh, -⟩, hsel⟩
      exact ⟨by omega, hfirst, hhigh, hlimit, hsel⟩
  have hbounded : BddAbove (selectedIn m selects vma count) :=
    ⟨vma.toNat, fun a ha => ((hmem a).mp ha).1.1⟩
  -- the highest word behind the first group is the highest of the range
  have hgreatest : ∀ {a}, IsGreatest (selectedIn m selects vma count) a → 8 ≤ a →
      1 ≤ vma.toNat + count + 1 →
      IsGreatest (behind m selects vma.toNat ((vma.toNat + count) % 2 ^ 32).toNat (vma.toNat / 8))
        a := by
    intro a ha hfirst hge
    have hin := (hmem a).mp ha.1
    exact ⟨(hbehind a).mpr ⟨hfirst, by omega, ha.1⟩, fun b hb => ha.2 ((hbehind b).mp hb).2.2⟩
  have hzero : vma.toNat + count + 1 = 0 → ∀ fuel, searchBackward m load test vma.toNat
      ((vma.toNat + count) % 2 ^ 32).toNat (fuel + 1) (vma.toNat / 8 : Nat) (8 * (vma.toNat / 8) + 7)
      (eightBefore (8 * (vma.toNat / 8) + 7)) = some none := by
    intro heq fuel
    unfold searchBackward
    rw [if_neg (by omega)]
  unfold StopsInTime
  rw [if_neg hneg]
  simp only [hsearch]
  constructor
  · rintro ⟨fuel, result, hfound, -, hnone⟩
    dsimp only at hfound
    by_cases hfirst : vma.toNat + count + 1 = 0
    · refine .inr (.inl ⟨hfirst, hnone.mp ?_⟩)
      cases fuel with
      | zero => cases hfound
      | succ fuel =>
          rw [hzero hfirst fuel] at hfound
          cases hfound
          rfl
    · by_cases hge : 8 ≤ vma.toNat + count + 1
      · exact .inl hge
      · refine .inr (.inr ⟨by omega, ?_⟩)
        by_contra hlast
        push Not at hlast
        have hno : behind m selects vma.toNat ((vma.toNat + count) % 2 ^ 32).toNat
            (vma.toNat / 8) = ∅ := by
          rw [Set.eq_empty_iff_forall_notMem]
          intro a ha
          obtain ⟨hlow, -, hin⟩ := (hbehind a).mp ha
          have hhigh := hlast a hin
          omega
        rw [searchBackward_stuck hreads hgroups hno (by omega) fuel] at hfound
        cases hfound
  · rintro (hge | ⟨heq, hempty⟩ | ⟨hge, a, ha, hfirst⟩)
    · rcases Set.eq_empty_or_nonempty (selectedIn m selects vma count) with hempty | hsome
      · have hno : behind m selects vma.toNat ((vma.toNat + count) % 2 ^ 32).toNat
            (vma.toNat / 8) = ∅ := by
          rw [Set.eq_empty_iff_forall_notMem] at hempty ⊢
          exact fun a ha => hempty a ((hbehind a).mp ha).2.2
        obtain ⟨fuel, hfuel⟩ := searchBackward_exhausted hreads hgroups hno (by omega)
        exact findsFirst_none hfuel hempty
      · obtain ⟨a, ha⟩ := hbounded.exists_isGreatest_of_nonempty hsome
        have hin := (hmem a).mp ha.1
        obtain ⟨fuel, hfuel⟩ :=
          searchBackward_found hreads hgroups (hgreatest ha (by omega) (by omega))
        exact findsFirst_some hfuel (by rwa [if_neg hneg])
    · exact findsFirst_none (hzero heq 0) hempty
    · obtain ⟨b, hb⟩ := hbounded.exists_isGreatest_of_nonempty ⟨a, ha⟩
      have hle := hb.2 ha
      obtain ⟨fuel, hfuel⟩ := searchBackward_found hreads hgroups (hgreatest hb (by omega) hge)
      exact findsFirst_some hfuel (by rwa [if_neg hneg])

theorem searchTags_iff (hreads : Reads load test selects) (hspace : InSpace vma count) :
    FindsFirst (fun fuel => searchTags m load test fuel vma count) (selectedIn m selects vma count)
        count ↔
      StopsInTime (selectedIn m selects vma count) vma count := by
  obtain ⟨hne, hlow, hhigh⟩ := hspace
  rcases Int.lt_or_gt_of_ne hne with hneg | hpos
  · exact searchTags_backward hreads hneg hlow
  · exact searchTags_forward hreads hpos hhigh

/-- Both searches find the first selected word of a range just when they stop in time. -/
theorem virtualMemorySearch_findsFirst_iff (hspace : InSpace vma count) (m : Memory)
    (cdrMask : BitVec 32) (typeMask : BitVec 64) :
    (FindsFirst (fun fuel => virtualMemorySearchCDR m fuel vma count cdrMask)
          (selectedIn m (selectsCDR cdrMask) vma count) count ↔
        StopsInTime (selectedIn m (selectsCDR cdrMask) vma count) vma count) ∧
      (FindsFirst (fun fuel => virtualMemorySearchType m fuel vma count typeMask)
          (selectedIn m (selectsType typeMask) vma count) count ↔
        StopsInTime (selectedIn m (selectsType typeMask) vma count) vma count) :=
  ⟨searchTags_iff (reads_cdr cdrMask) hspace, searchTags_iff (reads_type typeMask) hspace⟩

theorem virtualMemorySearch_findsFirst_low :
    (FindsFirst (fun fuel => virtualMemorySearchCDR (Memory.empty false) fuel 64 (-10) 1)
          (selectedIn (Memory.empty false) (selectsCDR 1) 64 (-10)) (-10) ↔
        StopsInTime (selectedIn (Memory.empty false) (selectsCDR 1) 64 (-10)) 64 (-10)) ∧
      (FindsFirst (fun fuel => virtualMemorySearchType (Memory.empty false) fuel 64 (-10) 1)
          (selectedIn (Memory.empty false) (selectsType 1) 64 (-10)) (-10) ↔
        StopsInTime (selectedIn (Memory.empty false) (selectsType 1) 64 (-10)) 64 (-10)) :=
  virtualMemorySearch_findsFirst_iff ⟨by decide, by decide, by decide⟩ (Memory.empty false) 1 1

/-- The last word of the address space is selected, and the search for it finds none. -/
theorem virtualMemorySearchType_last :
    InSpace 0xFFFFFFFF 1 ∧
      virtualMemorySearchType (Memory.empty false) 1 0xFFFFFFFF 1 1 = some none ∧
      0xFFFFFFFF ∈ selectedIn (Memory.empty false) (selectsType 1) 0xFFFFFFFF 1 ∧
      ¬ FindsFirst (fun fuel => virtualMemorySearchType (Memory.empty false) fuel 0xFFFFFFFF 1 1)
        (selectedIn (Memory.empty false) (selectsType 1) 0xFFFFFFFF 1) 1 := by
  have hspace : InSpace 0xFFFFFFFF 1 := ⟨by decide, by decide, by decide⟩
  have hin : 0xFFFFFFFF ∈ selectedIn (Memory.empty false) (selectsType 1) 0xFFFFFFFF 1 :=
    ⟨⟨by decide, by decide⟩, by decide⟩
  refine ⟨hspace, by decide, hin, ?_⟩
  intro hfinds
  rcases (searchTags_iff (reads_type 1) hspace).mp hfinds with hle | ⟨-, hempty⟩ | ⟨hlt, -⟩
  · exact absurd hle (by decide)
  · rw [hempty] at hin
    exact hin
  · exact absurd hlt (by decide)

end VM
