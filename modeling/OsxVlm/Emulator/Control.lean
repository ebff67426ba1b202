import Mathlib

/-!
# The control register

The control register of the processor is packed from fields, read with `ldb` and
written with `dpb`.  A call clears a set of fields and adds its sizes and its value
disposition with an or; this is right as long as the sizes fit.
-/

namespace Ivory

abbrev Integer := BitVec 32
abbrev Tag := BitVec 8

def ldb (ss pp : Nat) (source : Integer) : Nat := (source.extractLsb' pp ss).toNat

def dpb (field : Int) (ss pp : Nat) (background : Integer) : Integer :=
  ((BitVec.ofInt 32 field &&& BitVec.ofNat 32 (2 ^ ss - 1)) <<< pp) |||
    (background &&& ~~~(BitVec.ofNat 32 (2 ^ ss - 1) <<< pp))

inductive ValueDisposition where
  | effect
  | value
  | return
  | multiple
  deriving DecidableEq

def valueDisposition : Nat → ValueDisposition
  | 0 => .effect
  | 1 => .value
  | 2 => .return
  | _ => .multiple

def readControlArgumentSize (c : Integer) : Nat := ldb 8 0 c
def readControlExtraArgument (c : Integer) : Nat := ldb 1 8 c
def readControlCallerFrameSize (c : Integer) : Nat := ldb 8 9 c
def readControlValueDisposition (c : Integer) : ValueDisposition := valueDisposition (ldb 2 18 c)
def readControlCleanupBits (c : Integer) : Nat := ldb 3 24 c
def readControlInstructionTrace (c : Integer) : Nat := ldb 1 29 c
def readControlTrapMode (c : Integer) : Nat := ldb 2 30 c

def controlArgumentSize : Integer := 0x000000FF
def controlExtraArgument : Integer := 0x00000100
def controlCallerFrameSize : Integer := 0x0001FE00
def controlApply : Integer := 0x00020000
def controlValueDisposition : Integer := 0x000C0000
def controlCallStarted : Integer := 0x00400000
def controlCleanupBits : Integer := 0x07000000
def controlTraceBits : Integer := 0x38000000

def writeControlArgumentSize (c : Integer) (x : Int) : Integer := dpb x 8 0 c
def writeControlTracePending (c : Integer) (x : Int) : Integer := dpb x 1 27 c
def writeControlTrapMode (c : Integer) (x : Int) : Integer := dpb x 2 30 c

/-! ### What a call leaves of it -/

/-- The fields in `cleared` are cleared, sizes and disposition are added. -/
def packControl (cleared control : Integer) (argumentSize : Int) (disposition : Integer)
    (callerFrameSize : Int) : Integer :=
  (control &&& ~~~cleared) ||| BitVec.ofInt 32 argumentSize ||| disposition |||
    (BitVec.ofInt 32 callerFrameSize <<< 9)

/-- The fields that `FinishCallN` and `FinishCallTos` clear. -/
def finishCleared : Integer :=
  controlApply ||| controlCleanupBits ||| controlExtraArgument ||| controlCallStarted |||
    controlArgumentSize ||| controlValueDisposition ||| controlCallerFrameSize

/-- The disposition moves from bits 9:8 of the operand to 19:18. -/
def finishControl (control operand : Integer) (argumentSize callerFrameSize : Int) : Integer :=
  packControl finishCleared control argumentSize ((operand &&& 0x300) <<< 10) callerFrameSize

/-- A size that fits a field has no bits beyond it. -/
theorem getLsbD_ofInt {n : Int} (h0 : 0 ≤ n) (h : n < 256) {i : Nat} (hi : 8 ≤ i) :
    (BitVec.ofInt 32 n).getLsbD i = false := by
  obtain ⟨k, rfl⟩ := Int.eq_ofNat_of_zero_le h0
  rw [BitVec.ofInt_natCast, BitVec.getLsbD_ofNat]
  rw [Nat.testBit_lt_two_pow, Bool.and_false]
  calc k < 2 ^ 8 := by omega
    _ ≤ 2 ^ i := Nat.pow_le_pow_right (by decide) hi

theorem toNat_extract_ofInt {n : Int} (h0 : 0 ≤ n) (h : n < 256) :
    ((BitVec.ofInt 32 n).extractLsb' 0 8).toNat = n.toNat := by
  obtain ⟨k, rfl⟩ := Int.eq_ofNat_of_zero_le h0
  simp
  omega

section PackControl

variable {cleared control disposition : Integer} {argumentSize callerFrameSize : Int}

/-- Fields of a word agree when their bits do. -/
theorem ldb_congr {ss pp pp' : Nat} {c c' : Integer}
    (h : ∀ i, i < ss → c.getLsbD (pp + i) = c'.getLsbD (pp' + i)) : ldb ss pp c = ldb ss pp' c' := by
  unfold ldb
  congr 1
  apply BitVec.eq_of_getLsbD_eq
  intro i hi
  simp only [BitVec.getLsbD_extractLsb', hi, decide_true, Bool.true_and]
  exact h i hi

/-- Bits of the disposition stay in its field. -/
def DispositionBits (disposition : Integer) : Prop :=
  ∀ i, i < 32 → i < 18 ∨ 20 ≤ i → disposition.getLsbD i = false

theorem ldb_packControl_argumentSize (hcleared : ∀ i, i < 8 → cleared.getLsbD i = true)
    (hdisp : DispositionBits disposition) (h0 : 0 ≤ argumentSize) (h : argumentSize < 256) :
    ldb 8 0 (packControl cleared control argumentSize disposition callerFrameSize) =
      argumentSize.toNat := by
  rw [← toNat_extract_ofInt h0 h]
  apply ldb_congr
  intro i hi
  simp [packControl, hcleared i hi, hdisp i (by omega) (by omega), show i < 9 by omega]

theorem ldb_packControl_callerFrameSize
    (hcleared : ∀ i, i < 8 → cleared.getLsbD (9 + i) = true) (hdisp : DispositionBits disposition)
    (h0 : 0 ≤ argumentSize) (h : argumentSize < 256) (hf0 : 0 ≤ callerFrameSize)
    (hf : callerFrameSize < 256) :
    ldb 8 9 (packControl cleared control argumentSize disposition callerFrameSize) =
      callerFrameSize.toNat := by
  rw [← toNat_extract_ofInt hf0 hf]
  apply ldb_congr
  intro i hi
  have hlt : 9 + i < 32 := by omega
  simp only [packControl, BitVec.getLsbD_or, BitVec.getLsbD_and, BitVec.getLsbD_not,
    BitVec.getLsbD_shiftLeft, hcleared i hi, hdisp (9 + i) hlt (by omega),
    getLsbD_ofInt h0 h (show 8 ≤ 9 + i by omega), hlt]
  simp

theorem ldb_packControl_valueDisposition
    (hcleared : ∀ i, i < 2 → cleared.getLsbD (18 + i) = true)
    (h0 : 0 ≤ argumentSize) (h : argumentSize < 256) (hf0 : 0 ≤ callerFrameSize)
    (hf : callerFrameSize < 256) :
    ldb 2 18 (packControl cleared control argumentSize disposition callerFrameSize) =
      ldb 2 18 disposition := by
  apply ldb_congr
  intro i hi
  simp [packControl, hcleared i hi, getLsbD_ofInt h0 h (show 8 ≤ 18 + i by omega),
    getLsbD_ofInt hf0 hf (show 8 ≤ 18 + i - 9 by omega)]

theorem ldb_packControl_cleanupBits
    (hcleared : ∀ i, i < 3 → cleared.getLsbD (24 + i) = true) (hdisp : DispositionBits disposition)
    (h0 : 0 ≤ argumentSize) (h : argumentSize < 256) (hf0 : 0 ≤ callerFrameSize)
    (hf : callerFrameSize < 256) :
    ldb 3 24 (packControl cleared control argumentSize disposition callerFrameSize) = 0 := by
  have hzero : ldb 3 24 0 = 0 := by decide
  rw [← hzero]
  apply ldb_congr
  intro i hi
  simp [packControl, hcleared i hi, hdisp (24 + i) (by omega) (by omega),
    getLsbD_ofInt h0 h (show 8 ≤ 24 + i by omega),
    getLsbD_ofInt hf0 hf (show 8 ≤ 24 + i - 9 by omega)]

end PackControl

theorem dispositionBits_operand (operand : Integer) :
    DispositionBits ((operand &&& 0x300) <<< 10) := by
  intro i hi hout
  interval_cases i <;> simp <;> omega

/-! ### Instructions that leave a frame linked -/

/-- What a return reads of the control register. -/
structure Linkage where
  callerFrameSize : Nat
  disposition : ValueDisposition
  cleanupBits : Nat

def linkage (c : Integer) : Linkage :=
  ⟨readControlCallerFrameSize c, readControlValueDisposition c, readControlCleanupBits c⟩

theorem linkage_congr {c c' : Integer}
    (h : ∀ i, 9 ≤ i → i < 20 ∨ 24 ≤ i ∧ i < 27 → c.getLsbD i = c'.getLsbD i) :
    linkage c = linkage c' := by
  have hsize : ldb 8 9 c = ldb 8 9 c' :=
    ldb_congr fun i hi => h _ (by omega) (by omega)
  have hdisp : ldb 2 18 c = ldb 2 18 c' :=
    ldb_congr fun i hi => h _ (by omega) (by omega)
  have hclean : ldb 3 24 c = ldb 3 24 c' :=
    ldb_congr fun i hi => h _ (by omega) (by omega)
  simp only [linkage, readControlCallerFrameSize, readControlValueDisposition,
    readControlCleanupBits, hsize, hdisp, hclean]

theorem linkage_finishControl {control operand : Integer} {argumentSize callerFrameSize : Int}
    (h0 : 0 ≤ argumentSize) (h : argumentSize < 256) (hf0 : 0 ≤ callerFrameSize)
    (hf : callerFrameSize < 256) :
    linkage (finishControl control operand argumentSize callerFrameSize) =
      ⟨callerFrameSize.toNat, valueDisposition (ldb 2 8 operand), 0⟩ := by
  have hbits := dispositionBits_operand operand
  have hdisp : ldb 2 18 ((operand &&& 0x300) <<< 10) = ldb 2 8 operand := by
    apply ldb_congr
    intro i hi
    interval_cases i <;> simp
  simp only [linkage, readControlCallerFrameSize, readControlValueDisposition,
    readControlCleanupBits, finishControl]
  rw [ldb_packControl_callerFrameSize (by decide) hbits h0 h hf0 hf,
    ldb_packControl_valueDisposition (by decide) h0 h hf0 hf, hdisp,
    ldb_packControl_cleanupBits (by decide) hbits h0 h hf0 hf]

/-- The control register after the start of a call, with or without an extra argument. -/
def startControl (control : Integer) (extraArgument : Bool) : Integer :=
  if extraArgument then control ||| controlCallStarted ||| controlExtraArgument
  else (control ||| controlCallStarted) &&& ~~~controlExtraArgument

theorem linkage_startControl (control : Integer) (extraArgument : Bool) :
    linkage (startControl control extraArgument) = linkage control := by
  apply linkage_congr
  intro i hi hin
  have hlt : i < 32 := by omega
  have hstarted : controlCallStarted.getLsbD i = false := by
    interval_cases i <;> first | rfl | omega
  have hextra : controlExtraArgument.getLsbD i = false := by
    interval_cases i <;> rfl
  unfold startControl
  split
  · rw [BitVec.getLsbD_or, BitVec.getLsbD_or, hstarted, hextra, Bool.or_false, Bool.or_false]
  · rw [BitVec.getLsbD_and, BitVec.getLsbD_or, BitVec.getLsbD_not, hstarted, hextra,
      Bool.or_false, decide_eq_true hlt, Bool.not_false, Bool.and_true, Bool.and_true]

theorem extra_startControl (control : Integer) (extraArgument : Bool) :
    readControlExtraArgument (startControl control extraArgument) = extraArgument.toNat := by
  have hextra : ∀ b : Bool, ldb 1 8 (if b then controlExtraArgument else 0) = b.toNat := by decide
  rw [← hextra, readControlExtraArgument]
  apply ldb_congr
  intro i hi
  obtain rfl : i = 0 := by omega
  unfold startControl
  split <;> simp [controlExtraArgument]

/-- The bits outside a field stay when it is written. -/
theorem getLsbD_dpb (x : Int) {ss pp i : Nat} (c : Integer) (hlt : i < 32)
    (hi : i < pp ∨ pp + ss ≤ i) : (dpb x ss pp c).getLsbD i = c.getLsbD i := by
  have hmask : (BitVec.ofNat 32 (2 ^ ss - 1) <<< pp).getLsbD i = false := by
    rw [BitVec.getLsbD_shiftLeft, BitVec.getLsbD_ofNat, Nat.testBit_two_pow_sub_one]
    simp only [Bool.and_eq_false_iff, Bool.not_eq_false', decide_eq_false_iff_not,
      decide_eq_true_eq]
    omega
  unfold dpb
  rw [BitVec.shiftLeft_and_distrib, BitVec.getLsbD_or, BitVec.getLsbD_and, BitVec.getLsbD_and,
    BitVec.getLsbD_not, hmask, Bool.and_false, Bool.false_or, decide_eq_true hlt, Bool.not_false,
    Bool.and_true, Bool.and_true]

theorem linkage_writeArgumentSize (c : Integer) (x : Int) :
    linkage (writeControlArgumentSize c x) = linkage c :=
  linkage_congr fun _ hi hin => getLsbD_dpb x c (by omega) (by omega)

theorem extra_writeArgumentSize (c : Integer) (x : Int) :
    readControlExtraArgument (writeControlArgumentSize c x) = readControlExtraArgument c :=
  ldb_congr fun _ hi => getLsbD_dpb x c (by omega) (by omega)

theorem linkage_writeTrapMode (c : Integer) (x : Int) :
    linkage (writeControlTrapMode c x) = linkage c :=
  linkage_congr fun _ hi hin => getLsbD_dpb x c (by omega) (by omega)

theorem argumentSize_writeTracePending (c : Integer) (x : Int) :
    readControlArgumentSize (writeControlTracePending c x) = readControlArgumentSize c :=
  ldb_congr fun _ hi => getLsbD_dpb x c (by omega) (by omega)

end Ivory
