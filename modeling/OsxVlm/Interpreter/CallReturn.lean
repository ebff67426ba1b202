import Mathlib
import OsxVlm.Interpreter.FunctionCalls

/-!
# Call and return are inverse

Every call of a run that was not returned from yet is on a list, with the processor
as it was before its frame was pushed.  The frames are linked through the words they
save and through the sizes in the control register, so that a return finds that
processor again.
-/

namespace Interpreter

open Ivory

/-! ### Fields of the control register -/

theorem getLsbD_eq_false {x : Quad} {k i : Nat} (hx : x.toNat < 2 ^ k) (hi : k ≤ i) :
    x.getLsbD i = false := by
  apply Nat.testBit_lt_two_pow
  exact hx.trans_le (Nat.pow_le_pow_right (by decide) hi)

/-- A longword that is loaded is stored again. -/
theorem setWidth_signExtend (c : Integer) : (c.signExtend 64).setWidth 32 = c := by
  apply BitVec.eq_of_getLsbD_eq
  intro i hi
  rw [BitVec.getLsbD_setWidth, BitVec.getLsbD_signExtend, if_pos hi,
    decide_eq_true (show i < 64 by omega), decide_eq_true hi, Bool.true_and, Bool.true_and]

/-- A field that is shifted down and masked. -/
theorem toNat_field (c : Integer) {ss pp : Nat} (h : pp + ss ≤ 32) :
    (c.signExtend 64 >>> pp &&& BitVec.ofNat 64 (2 ^ ss - 1)).toNat = ldb ss pp c := by
  have hfield : c.signExtend 64 >>> pp &&& BitVec.ofNat 64 (2 ^ ss - 1) =
      (c.extractLsb' pp ss).setWidth 64 := by
    apply BitVec.eq_of_getLsbD_eq
    intro i hi
    rw [BitVec.getLsbD_and, BitVec.getLsbD_ushiftRight, BitVec.getLsbD_ofNat,
      Nat.testBit_two_pow_sub_one, BitVec.getLsbD_setWidth, BitVec.getLsbD_extractLsb',
      BitVec.getLsbD_signExtend]
    by_cases hlt : i < ss
    · simp [hi, hlt, show pp + i < 64 by omega, show pp + i < 32 by omega]
    · simp [hlt]
  have hlt := (c.extractLsb' pp ss).isLt
  have hpow : 2 ^ ss ≤ 2 ^ 64 := Nat.pow_le_pow_right (by decide) (by omega)
  rw [hfield, BitVec.toNat_setWidth, Nat.mod_eq_of_lt (by omega), ldb]

theorem extraArgument_field (c : Integer) :
    (c.signExtend 64 >>> 5 &&& 8).toNat = 8 * readControlExtraArgument c := by
  have height : (8 : Quad) = BitVec.twoPow 64 3 := by decide
  have hbit : readControlExtraArgument c = (c.getLsbD 8).toNat := by
    have hext : (c.extractLsb' 8 1) = BitVec.ofBool (c.getLsbD 8) := by
      apply BitVec.eq_of_getLsbD_eq
      intro i hi
      obtain rfl : i = 0 := by omega
      simp
    rw [readControlExtraArgument, ldb, hext]
    cases c.getLsbD 8 <;> rfl
  rw [hbit, height, BitVec.and_twoPow, BitVec.getLsbD_ushiftRight, BitVec.getLsbD_signExtend]
  cases c.getLsbD 8 <;> simp

theorem cleanup_eq_zero {c : Integer} (h : readControlCleanupBits c = 0) :
    c.signExtend 64 &&& crCleanupBits = 0 := by
  have hout : ∀ i, i < 64 → i < 24 ∨ 27 ≤ i → crCleanupBits.getLsbD i = false := by decide
  apply BitVec.eq_of_getLsbD_eq
  intro i hi
  have hzero : (0 : Quad).getLsbD i = false := BitVec.getLsbD_zero
  rw [BitVec.getLsbD_and, hzero]
  by_cases hin : i < 24 ∨ 27 ≤ i
  · rw [hout i hi hin, Bool.and_false]
  · have hfield : c.extractLsb' 24 3 = 0#3 := BitVec.eq_of_toNat_eq h
    have hbit := congrArg (fun x => BitVec.getLsbD x (i - 24)) hfield
    simp only [BitVec.getLsbD_extractLsb', BitVec.getLsbD_zero] at hbit
    rw [show 24 + (i - 24) = i by omega, decide_eq_true (show i - 24 < 3 by omega),
      Bool.true_and] at hbit
    rw [BitVec.getLsbD_signExtend, if_pos (show i < 32 by omega), hbit, Bool.and_false,
      Bool.false_and]

/-- The bits that `finish-call-guts` puts together. -/
def newBits (applyp callerFrameSize disp argumentSize : Quad) : Quad :=
  applyp <<< 14 ||| (callerFrameSize <<< 9 ||| (disp <<< 18 ||| argumentSize))

def finishedControl (c : Integer) (new : Quad) : Quad :=
  let cr := (c.signExtend 64 &&& fccrmask) ||| new
  cr ||| (crCallTrace &&& cr) >>> 1

/-- In the fields that are masked off stand the new bits. -/
theorem getLsbD_finishedControl (c : Integer) (new : Quad) {i : Nat}
    (hi : i < 20 ∨ 24 ≤ i ∧ i < 27) :
    ((finishedControl c new).setWidth 32).getLsbD i = new.getLsbD i := by
  have hmask : ∀ i, i < 32 → i < 20 ∨ 24 ≤ i ∧ i < 27 →
      fccrmask.getLsbD i = false ∧ crCallTrace.getLsbD (1 + i) = false := by decide
  obtain ⟨hfccr, htrace⟩ := hmask i (by omega) hi
  simp only [finishedControl, BitVec.getLsbD_setWidth, BitVec.getLsbD_or, BitVec.getLsbD_and,
    BitVec.getLsbD_ushiftRight, hfccr, htrace, decide_eq_true (show i < 32 by omega)]
  simp

section NewBits

variable {opcode callerFrameSize disp argumentSize : Quad}

theorem getLsbD_newBits (hdisp : disp.toNat < 2 ^ 2)
    (hargs : argumentSize.toNat < 2 ^ 8) {i : Nat} (hi : i < 64) (hin : i < 17 ∨ 20 ≤ i) :
    (newBits (opcode >>> 7 &&& 8) callerFrameSize disp argumentSize).getLsbD i =
      if i < 9 then argumentSize.getLsbD i else callerFrameSize.getLsbD (i - 9) := by
  have height : (8 : Quad) = BitVec.twoPow 64 3 := by decide
  have happly : ((opcode >>> 7 &&& 8) <<< 14).getLsbD i = false := by
    rw [BitVec.getLsbD_shiftLeft, BitVec.getLsbD_and, height, BitVec.getLsbD_twoPow,
      decide_eq_false (show ¬ 3 = i - 14 by omega)]
    simp
  have hvalue : (disp <<< 18).getLsbD i = false := by
    rw [BitVec.getLsbD_shiftLeft]
    by_cases h : i < 18
    · simp [h]
    · rw [getLsbD_eq_false hdisp (by omega), Bool.and_false]
  rw [newBits, BitVec.getLsbD_or, BitVec.getLsbD_or, BitVec.getLsbD_or, happly, hvalue,
    Bool.false_or, Bool.false_or, BitVec.getLsbD_shiftLeft]
  split
  · next h => simp [h]
  · next h =>
    rw [getLsbD_eq_false hargs (by omega)]
    simp [h, hi]

/-- What a return reads of the new control register. -/
theorem finishedControl_fields (c : Integer) (hframe : callerFrameSize.toNat < 2 ^ 8)
    (hdisp : disp.toNat < 2 ^ 2) (hargs : argumentSize.toNat < 2 ^ 8) :
    let c' := (finishedControl c
      (newBits (opcode >>> 7 &&& 8) callerFrameSize disp argumentSize)).setWidth 32
    ldb 8 0 c' = argumentSize.toNat ∧ ldb 8 9 c' = callerFrameSize.toNat ∧ ldb 3 24 c' = 0 := by
  have hfield {ss pp : Nat} {x : Quad} (hx : x.toNat < 2 ^ ss) (hss : ss ≤ 32) :
      ldb ss 0 (x.setWidth 32) = x.toNat := by
    have hpow : 2 ^ ss ≤ 2 ^ 32 := Nat.pow_le_pow_right (by decide) hss
    rw [ldb, BitVec.extractLsb'_toNat, BitVec.toNat_setWidth, Nat.shiftRight_zero,
      Nat.mod_eq_of_lt (show x.toNat < 2 ^ 32 by omega), Nat.mod_eq_of_lt hx]
  have hnew : ∀ i, i < 17 ∨ 24 ≤ i ∧ i < 27 →
      ((finishedControl c (newBits (opcode >>> 7 &&& 8) callerFrameSize disp
        argumentSize)).setWidth 32).getLsbD i =
      if i < 9 then argumentSize.getLsbD i else callerFrameSize.getLsbD (i - 9) := by
    intro i hi
    rw [getLsbD_finishedControl c _ (by omega),
      getLsbD_newBits hdisp hargs (by omega) (by omega)]
  refine ⟨?_, ?_, ?_⟩
  · rw [← @hfield 8 0 argumentSize hargs (by decide)]
    apply ldb_congr
    intro i hi
    rw [hnew _ (by omega), if_pos (by omega), BitVec.getLsbD_setWidth,
      decide_eq_true (by omega), Bool.true_and]
  · rw [← @hfield 8 0 callerFrameSize hframe (by decide)]
    apply ldb_congr
    intro i hi
    rw [hnew _ (by omega), if_neg (by omega), BitVec.getLsbD_setWidth,
      decide_eq_true (by omega), Bool.true_and]
    congr 1
    omega
  · have hzero : ldb 3 24 0#32 = 0 := by decide
    rw [← hzero]
    apply ldb_congr
    intro i hi
    rw [hnew _ (by omega), if_neg (by omega), getLsbD_eq_false hframe (by omega),
      BitVec.getLsbD_zero]

end NewBits

/-! ### What the macros leave alone -/

namespace Processor

variable (p : Processor) (o : LispObj)

@[simp] theorem stackPushWithCdr_iSP : (p.stackPushWithCdr o).iSP = p.iSP + 8 := rfl
@[simp] theorem stackPushWithCdr_iFP : (p.stackPushWithCdr o).iFP = p.iFP := rfl
@[simp] theorem stackPushWithCdr_iLP : (p.stackPushWithCdr o).iLP = p.iLP := rfl
@[simp] theorem stackPushWithCdr_control : (p.stackPushWithCdr o).control = p.control := rfl
@[simp] theorem stackPushWithCdr_continuation :
    (p.stackPushWithCdr o).continuation = p.continuation := rfl

/-- Pushing `n` bytes more does not wrap around. -/
def Room (n : Nat) : Prop := p.iSP.toNat + n < 2 ^ 64

@[simp] theorem stackPushWithCdr_top : (p.stackPushWithCdr o).stack (p.iSP + 8) = o :=
  Function.update_self _ _ _

variable {p}

theorem Room.toNat_add {n : Nat} (h : p.Room n) {k : Quad} (hk : k.toNat ≤ n) :
    (p.iSP + k).toNat = p.iSP.toNat + k.toNat := by
  unfold Room at h
  rw [BitVec.toNat_add, Nat.mod_eq_of_lt (by omega)]

theorem stackPushWithCdr_le (h : p.Room 8) {a : Quad} (ha : a ≤ p.iSP) :
    (p.stackPushWithCdr o).stack a = p.stack a := by
  apply Function.update_of_ne
  rintro rfl
  have hadd := h.toNat_add (k := 8) (by decide)
  rw [BitVec.le_def, hadd] at ha
  change p.iSP.toNat + 8 ≤ _ at ha
  omega

end Processor

/-! ### The words of a frame -/

/-- The words that the start of a call saves, above a stack that is untouched. -/
structure Saved (before p : Processor) : Prop where
  room : before.Room 16
  below : ∀ a, a ≤ before.iSP → p.stack a = before.stack a
  continuation : p.stack (before.iSP + 8) =
    ⟨before.continuation.tag ||| 0xC0, before.continuation.data⟩
  control : (p.stack (before.iSP + 16)).data = before.control

theorem Saved.stay {before p p' : Processor} (h : Saved before p)
    {top : Quad} (htop : before.iSP.toNat + 16 ≤ top.toNat)
    (hstack : ∀ a, a ≤ top → p'.stack a = p.stack a) : Saved before p' := by
  have hroom := h.room
  have h8 := hroom.toNat_add (k := 8) (by decide)
  have h16 := hroom.toNat_add (k := 16) (by decide)
  change _ = _ + 8 at h8
  change _ = _ + 16 at h16
  refine ⟨hroom, ?_, ?_, ?_⟩
  · intro a ha
    rw [hstack a (by rw [BitVec.le_def] at ha ⊢; omega)]
    exact h.below a ha
  · rw [hstack _ (by rw [BitVec.le_def]; omega)]
    exact h.continuation
  · rw [hstack _ (by rw [BitVec.le_def]; omega)]
    exact h.control

/-- The two words of a frame, without the new state of the control register. -/
def Processor.withFrame (p : Processor) : Processor :=
  (p.stackPushWithCdr ⟨p.continuation.tag ||| 0xC0, p.continuation.data⟩).stackPushWithCdr
    ⟨typeFixnum + 0xC0, p.control⟩

theorem Processor.withFrame_iSP (p : Processor) : p.withFrame.iSP = p.iSP + 16 := by
  simp only [withFrame, stackPushWithCdr_iSP, add_assoc]
  rfl

theorem Processor.pushFrame_none (p : Processor) :
    p.pushFrame none = p.withFrame.setControlRegister
      ((p.getControlRegister ||| crCallStarted) &&& ~~~crExtraArgument) := by
  have h8 : p.iSP + 16 - 8 = p.iSP + 8 := by bv_omega
  have h16 : p.iSP + 8 + 8 = p.iSP + 16 := by bv_omega
  simp only [pushFrame, withFrame, stackPushWithCdr, stackWrite, setControlRegister,
    getControlRegister, setWidth_signExtend, h8, h16]

theorem Processor.pushFrame_some (p : Processor) (o : LispObj) :
    p.pushFrame (some o) = (p.withFrame.stackPush2 o).setControlRegister
      (p.getControlRegister ||| crCallStarted ||| crExtraArgument) := by
  have h8 : p.iSP + 16 - 8 = p.iSP + 8 := by bv_omega
  have h16 : p.iSP + 8 + 8 = p.iSP + 16 := by bv_omega
  simp only [pushFrame, withFrame, stackPush2, stackPushWithCdr, stackWrite, setControlRegister,
    getControlRegister, setWidth_signExtend, h8, h16]

/-- The two tails of `start-call-dispatch` are the two forms of `push-frame`. -/
theorem Processor.startCall_eq (p : Processor) (line : CacheLine) (function extra : LispObj) :
    p.startCall line function extra =
      { p.pushFrame (if extra.tag ≠ 0 then some extra else none) with
        iPC := line.nextpcdata
        iCP := line.nextcp
        continuation := function
        continuationcp := 0 } := by
  unfold startCall
  split
  · have hcr : (((((p.getControlRegister ||| crCallStarted) &&& ~~~crExtraArgument).setWidth
        32).signExtend 64) ||| crExtraArgument).setWidth 32 =
        (p.getControlRegister ||| crCallStarted ||| crExtraArgument).setWidth 32 := by
      rw [BitVec.setWidth_or, setWidth_signExtend, ← BitVec.setWidth_or]
      congr 1
      apply BitVec.eq_of_getLsbD_eq
      intro i hi
      simp only [BitVec.getLsbD_or, BitVec.getLsbD_and, BitVec.getLsbD_not, hi]
      cases crExtraArgument.getLsbD i <;> simp
    rw [p.pushFrame_none, p.pushFrame_some]
    simp only [stackPush2, stackPushWithCdr, stackWrite, setControlRegister, getControlRegister]
    simp only [getControlRegister] at hcr
    rw [hcr]
  · rfl

/-! ### Linked frames -/

def Processor.argumentSize (p : Processor) : Quad := p.getControlRegister &&& crArgumentSize

def Processor.callerFrameSize (p : Processor) : Quad := p.getControlRegister >>> 9 &&& 0xFF

theorem Processor.toNat_argumentSize (p : Processor) :
    p.argumentSize.toNat = ldb 8 0 p.control := by
  rw [← @toNat_field p.control 8 0 (by decide), BitVec.ushiftRight_zero]
  rfl

theorem Processor.toNat_callerFrameSize (p : Processor) :
    p.callerFrameSize.toNat = ldb 8 9 p.control := @toNat_field p.control 8 9 (by decide)

/-- The locals begin behind the arguments, and the stack registers address words. -/
structure Proper (p : Processor) : Prop where
  iLP : p.iLP = p.argumentSize <<< 3 + p.iFP
  aligned : p.iSP.toNat % 8 = p.iFP.toNat % 8

/-- A call of the run, with the processor before its frame was pushed. -/
inductive Call where
  /-- Arguments are being pushed. -/
  | started (before : Processor)
  /-- Its function runs, and returns to `next`. -/
  | frame (before : Processor) (next : PC)

structure Started (before p : Processor) : Prop where
  saved : Saved before p
  iFP : p.iFP = before.iFP
  above : before.iSP.toNat + 16 + 8 * readControlExtraArgument p.control ≤ p.iSP.toNat

structure Framed (before p : Processor) (next : PC) : Prop where
  saved : Saved before p
  iFP : p.iFP = before.iSP + 8
  size : p.iFP - p.callerFrameSize <<< 3 = before.iFP
  cleanup : readControlCleanupBits p.control = 0
  continuation : continuationToPC p.continuation = next
  above : before.iSP.toNat + 16 ≤ p.iSP.toNat

/-- The processor is linked to all calls that are under way. -/
def Linked (p : Processor) : List Call → Prop
  | [] => Proper p
  | .started before :: rest => Proper p ∧ Started before p ∧ Linked before rest
  | .frame before next :: rest => Proper p ∧ Framed before p next ∧ Linked before rest

variable {p p' before : Processor} {calls rest : List Call} {next : PC}

theorem Linked.proper (h : Linked p calls) : Proper p := by
  cases calls with
  | nil => exact h
  | cons call rest => cases call <;> exact h.1

/-- The calls stay linked while the frame and the words up to the stack pointer are as
they were. -/
theorem Linked.stay (h : Linked p calls) (hproper : Proper p') (hfp : p'.iFP = p.iFP)
    (hlinkage : linkage p'.control = linkage p.control)
    (hcontinuation : continuationToPC p'.continuation = continuationToPC p.continuation)
    (hsp : p.iSP.toNat ≤ p'.iSP.toNat)
    (hextra : p.iSP.toNat + 8 * readControlExtraArgument p'.control ≤
      p'.iSP.toNat + 8 * readControlExtraArgument p.control)
    (hstack : ∀ a, a ≤ p.iSP → p'.stack a = p.stack a) : Linked p' calls := by
  cases calls with
  | nil => exact hproper
  | cons call rest =>
      cases call with
      | started before =>
          obtain ⟨-, hstarted, hrest⟩ := h
          have habove := hstarted.above
          refine ⟨hproper, ?_, hrest⟩
          constructor
          · exact hstarted.saved.stay (by omega) hstack
          · exact hfp.trans hstarted.iFP
          · omega
      | frame before next =>
          obtain ⟨-, hframed, hrest⟩ := h
          have habove := hframed.above
          have hsize : p'.callerFrameSize = p.callerFrameSize := by
            apply BitVec.eq_of_toNat_eq
            rw [p'.toNat_callerFrameSize, p.toNat_callerFrameSize]
            exact congrArg Linkage.callerFrameSize hlinkage
          refine ⟨hproper, ?_, hrest⟩
          constructor
          · exact hframed.saved.stay habove hstack
          · exact hfp.trans hframed.iFP
          · rw [hfp, hsize]
            exact hframed.size
          · rw [← hframed.cleanup]
            exact congrArg Linkage.cleanupBits hlinkage
          · rw [hcontinuation]
            exact hframed.continuation
          · omega

/-! ### Pushing -/

theorem Proper.congr (h : Proper p) (hlp : p'.iLP = p.iLP) (hfp : p'.iFP = p.iFP)
    (hsize : ldb 8 0 p'.control = ldb 8 0 p.control)
    (hsp : p'.iSP.toNat % 8 = p.iSP.toNat % 8) : Proper p' := by
  have hargs : p'.argumentSize = p.argumentSize := by
    apply BitVec.eq_of_toNat_eq
    rw [p'.toNat_argumentSize, p.toNat_argumentSize, hsize]
  constructor
  · rw [hlp, hargs, hfp]
    exact h.iLP
  · rw [hsp, hfp]
    exact h.aligned

theorem Processor.Room.push (h : p.Room 8) (o : LispObj) :
    (p.stackPushWithCdr o).iSP.toNat = p.iSP.toNat + 8 := h.toNat_add (k := 8) (by decide)

theorem Linked.push (h : Linked p calls) (hroom : p.Room 8) (o : LispObj) :
    Linked (p.stackPushWithCdr o) calls := by
  have hsp := hroom.push o
  apply h.stay
  · apply h.proper.congr
    · rfl
    · rfl
    · rfl
    · rw [hsp]
      omega
  · rfl
  · rfl
  · rfl
  · omega
  · simp only [Processor.stackPushWithCdr_control]
    omega
  · intro a ha
    exact Processor.stackPushWithCdr_le o hroom ha

/-! ### Starting a call -/

theorem Processor.pushFrame_control (p : Processor) (extra : Option LispObj) :
    (p.pushFrame extra).control = startControl p.control extra.isSome := by
  cases extra with
  | none =>
      rw [p.pushFrame_none]
      simp only [setControlRegister, getControlRegister, startControl, Option.isSome_none]
      rw [BitVec.setWidth_and, BitVec.setWidth_or, setWidth_signExtend]
      rfl
  | some o =>
      rw [p.pushFrame_some]
      simp only [setControlRegister, getControlRegister, startControl, Option.isSome_some]
      rw [BitVec.setWidth_or, BitVec.setWidth_or, setWidth_signExtend]
      rfl

theorem argumentSize_startControl (c : Integer) (extra : Bool) :
    ldb 8 0 (startControl c extra) = ldb 8 0 c := by
  have hbits : ∀ i, i < 8 → controlCallStarted.getLsbD (0 + i) = false ∧
      controlExtraArgument.getLsbD (0 + i) = false := by decide
  apply ldb_congr
  intro i hi
  obtain ⟨hstarted, hextra⟩ := hbits i hi
  unfold startControl
  split
  · rw [BitVec.getLsbD_or, BitVec.getLsbD_or, hstarted, hextra, Bool.or_false, Bool.or_false]
  · rw [BitVec.getLsbD_and, BitVec.getLsbD_or, BitVec.getLsbD_not, hstarted, hextra,
      Bool.or_false, decide_eq_true (show 0 + i < 32 by omega), Bool.not_false, Bool.and_true,
      Bool.and_true]

theorem Saved.withFrame (hroom : p.Room 16) : Saved p p.withFrame := by
  have h8 : p.Room 8 := by
    unfold Processor.Room at hroom ⊢
    omega
  have hsp := h8.push ⟨p.continuation.tag ||| 0xC0, p.continuation.data⟩
  have h8' : (p.stackPushWithCdr
      ⟨p.continuation.tag ||| 0xC0, p.continuation.data⟩).Room 8 := by
    unfold Processor.Room at hroom ⊢
    omega
  have h16 : p.iSP + 8 + 8 = p.iSP + 16 := by bv_omega
  refine ⟨hroom, ?_, ?_, ?_⟩
  · intro a ha
    have hle : a ≤ (p.stackPushWithCdr
        ⟨p.continuation.tag ||| 0xC0, p.continuation.data⟩).iSP := by
      rw [BitVec.le_def] at ha ⊢
      omega
    rw [Processor.withFrame, Processor.stackPushWithCdr_le _ h8' hle,
      Processor.stackPushWithCdr_le _ h8 ha]
  · have hle : p.iSP + 8 ≤ (p.stackPushWithCdr
        ⟨p.continuation.tag ||| 0xC0, p.continuation.data⟩).iSP := BitVec.le_refl _
    rw [Processor.withFrame, Processor.stackPushWithCdr_le _ h8' hle]
    exact p.stackPushWithCdr_top _
  · rw [← h16]
    exact congrArg LispObj.data (Processor.stackPushWithCdr_top _ _)

/-- The stack after `push-frame`, with or without the extra argument. -/
theorem Saved.pushFrame (extra : Option LispObj) (hroom : p.Room 24) :
    Saved p (p.pushFrame extra) ∧
      (p.pushFrame extra).iSP.toNat = p.iSP.toNat + 16 + 8 * extra.isSome.toNat := by
  have hroom16 : p.Room 16 := by
    unfold Processor.Room at hroom ⊢
    omega
  have hsaved := Saved.withFrame hroom16
  have hsp : p.withFrame.iSP.toNat = p.iSP.toNat + 16 := by
    rw [p.withFrame_iSP]
    exact hroom.toNat_add (k := 16) (by decide)
  cases extra with
  | none =>
      rw [p.pushFrame_none]
      refine ⟨hsaved.stay (le_of_eq hsp.symm) fun a _ => rfl, ?_⟩
      exact hsp
  | some o =>
      have h8 : p.withFrame.Room 8 := by
        unfold Processor.Room at hroom ⊢
        omega
      have hpush := h8.push o.cdrNext
      rw [p.pushFrame_some]
      refine ⟨hsaved.stay (le_of_eq hsp.symm) fun a ha =>
        Processor.stackPushWithCdr_le _ h8 ha, ?_⟩
      change (p.withFrame.stackPushWithCdr o.cdrNext).iSP.toNat = _
      rw [hpush, hsp]
      rfl

theorem Processor.pushFrame_iFP (p : Processor) (extra : Option LispObj) :
    (p.pushFrame extra).iFP = p.iFP := by cases extra <;> rfl

theorem Processor.pushFrame_iLP (p : Processor) (extra : Option LispObj) :
    (p.pushFrame extra).iLP = p.iLP := by cases extra <;> rfl

/-- The frame words of a call are pushed, whatever its function is. -/
theorem Linked.pushFrame (h : Linked p calls) (extra : Option LispObj) (hroom : p.Room 24)
    (iPC : PC) (iCP : Quad) (continuation : LispObj) (continuationcp : Quad) :
    Linked { p.pushFrame extra with iPC, iCP, continuation, continuationcp }
      (.started p :: calls) := by
  obtain ⟨hsaved, hsp⟩ := Saved.pushFrame extra hroom
  have hcontrol := p.pushFrame_control extra
  have hfp := p.pushFrame_iFP extra
  refine ⟨?_, ?_, h⟩
  · apply h.proper.congr
    · exact p.pushFrame_iLP extra
    · exact hfp
    · dsimp only
      rw [hcontrol, argumentSize_startControl]
    · dsimp only
      rw [hsp]
      omega
  · constructor
    · exact hsaved.stay (show _ ≤ (p.pushFrame extra).iSP.toNat by omega) fun a _ => rfl
    · exact hfp
    · dsimp only
      rw [hcontrol, extra_startControl, hsp]

/-! ### Sizes -/

/-- Addresses of words that are subtracted are a number of words apart. -/
theorem toNat_sub_mod {a b : Quad} (h : a.toNat % 8 = b.toNat % 8) : (a - b).toNat % 8 = 0 := by
  rw [BitVec.toNat_sub]
  omega

/-- Converted to words and back. -/
theorem shift_back {x : Quad} (h : x.toNat % 8 = 0) : (x >>> 3) <<< 3 = x := by
  apply BitVec.eq_of_toNat_eq
  have hlt := x.isLt
  rw [BitVec.toNat_shiftLeft, BitVec.toNat_ushiftRight, Nat.shiftRight_eq_div_pow,
    Nat.shiftLeft_eq]
  omega

theorem getLsbD_locatedControl (c : Integer) {size : Quad} (hsize : size.toNat < 2 ^ 8) {i : Nat}
    (hi : i < 32) :
    (((c.signExtend 64 &&& ~~~crArgumentSize) ||| size).setWidth 32).getLsbD i =
      if i < 8 then size.getLsbD i else c.getLsbD i := by
  have hmask : ∀ i, i < 32 → crArgumentSize.getLsbD i = decide (i < 8) := by decide
  have hlt : i < 64 := by omega
  simp only [BitVec.getLsbD_setWidth, BitVec.getLsbD_or, BitVec.getLsbD_and, BitVec.getLsbD_not,
    BitVec.getLsbD_signExtend, hmask i hi, hi, hlt, decide_true, Bool.true_and, if_true]
  split
  · next h => simp [h]
  · next h =>
    rw [getLsbD_eq_false hsize (by omega)]
    simp [h]

theorem Linked.locateLocals (h : Linked p calls) (hroom : p.Room 8)
    (hsize : ((p.iSP - p.iFP) >>> 3).toNat < 256) : Linked p.locateLocals calls := by
  have hbits {i : Nat} (hi : i < 32) := @getLsbD_locatedControl p.control _ hsize i hi
  have hcontrol : p.locateLocals.control = (((p.control.signExtend 64 &&& ~~~crArgumentSize) |||
      (p.iSP - p.iFP) >>> 3).setWidth 32) := rfl
  have hsp : p.locateLocals.iSP.toNat = p.iSP.toNat + 8 := hroom.toNat_add (k := 8) (by decide)
  have haligned := h.proper.aligned
  apply h.stay
  · have hargs : p.locateLocals.argumentSize = (p.iSP - p.iFP) >>> 3 := by
      apply BitVec.eq_of_toNat_eq
      rw [Processor.toNat_argumentSize, hcontrol]
      have hlow : ldb 8 0 (((p.iSP - p.iFP) >>> 3).setWidth 32) =
          ((p.iSP - p.iFP) >>> 3).toNat := by
        rw [ldb, BitVec.extractLsb'_toNat, BitVec.toNat_setWidth, Nat.shiftRight_zero]
        omega
      rw [← hlow]
      apply ldb_congr
      intro i hi
      rw [hbits (by omega), if_pos (by omega), BitVec.getLsbD_setWidth,
        decide_eq_true (by omega), Bool.true_and]
    constructor
    · rw [hargs, shift_back (toNat_sub_mod haligned)]
      exact (BitVec.sub_add_cancel _ _).symm
    · rw [hsp]
      change _ = p.iFP.toNat % 8
      omega
  · rfl
  · rw [hcontrol]
    apply linkage_congr
    intro i hi hin
    rw [hbits (by omega), if_neg (by omega)]
  · rfl
  · omega
  · have hextra : readControlExtraArgument p.locateLocals.control =
        readControlExtraArgument p.control := by
      rw [hcontrol]
      apply ldb_congr
      intro i hi
      rw [hbits (by omega), if_neg (by omega)]
    omega
  · intro a ha
    have hlocals : Processor.Room { p with iLP := p.iSP } 8 := hroom
    exact Processor.stackPushWithCdr_le _ hlocals ha

/-! ### Finishing a call -/

theorem continuationToPC_pcToContinuation (pc : PC) :
    continuationToPC (pcToContinuation pc) = pc := by
  have htag : ∀ b : BitVec 8, b = 0 ∨ b = 1 →
      ((b + typeEvenPC) &&& 1).setWidth 33 = b.setWidth 33 := by decide
  have hhalf : (pc &&& 1).toNat = pc.toNat % 2 := by
    rw [BitVec.toNat_and]
    exact Nat.and_one_is_mod _
  have hlow : ((pc &&& 1).setWidth 8).toNat = pc.toNat % 2 := by
    rw [BitVec.toNat_setWidth, hhalf]
    omega
  have hbit : (pc &&& 1).setWidth 8 = 0 ∨ (pc &&& 1).setWidth 8 = 1 := by
    rcases Nat.mod_two_eq_zero_or_one pc.toNat with h | h
    · exact .inl (BitVec.eq_of_toNat_eq (hlow.trans h))
    · exact .inr (BitVec.eq_of_toNat_eq (hlow.trans h))
  apply BitVec.eq_of_toNat_eq
  have hlt := pc.isLt
  rw [continuationToPC, pcToContinuation, htag _ hbit]
  simp only [BitVec.toNat_add, BitVec.toNat_setWidth, BitVec.toNat_ushiftRight, hhalf,
    Nat.shiftRight_eq_div_pow]
  omega

/-- The locals of the callee. -/
def Processor.calleeLP (p : Processor) (opcode : Quad) : Quad := p.iSP + 8 - (opcode >>> 7 &&& 8)

/-- What `finish-call-guts` leaves. -/
structure Finished (p : Processor) (line : CacheLine) (nargs disp opcode : Quad)
    (p' : Processor) : Prop where
  stack : p'.stack = p.stack
  iSP : p'.iSP = p.iSP
  iFP : p'.iFP = p.iSP - nargs - (p.getControlRegister >>> 5 &&& 8)
  iLP : p'.iLP = p.calleeLP opcode
  continuation : p'.continuation = pcToContinuation line.nextpcdata
  control : p'.control = (finishedControl p.control (newBits (opcode >>> 7 &&& 8)
    ((p'.iFP - p.iFP) >>> 3) disp ((p'.iLP - p'.iFP) >>> 3))).setWidth 32

theorem finished_of_finishCallGuts {line : CacheLine} {nargs disp opcode : Quad}
    (h : p.finishCallGuts line nargs disp opcode = some p') :
    Finished p line nargs disp opcode p' := by
  unfold Processor.finishCallGuts at h
  dsimp only at h
  split at h
  · cases h
  · split at h
    · cases h
    · cases h
      constructor <;> rfl

/-- The call is finished with all the words that were pushed, and its sizes fit the
fields of the control register. -/
structure Finishes (before p : Processor) (nargs disp opcode : Quad) : Prop where
  arguments : p.iSP.toNat =
    before.iSP.toNat + 8 + 8 * readControlExtraArgument p.control + nargs.toNat
  disposition : disp.toNat < 4
  argumentSize : ((p.calleeLP opcode - (before.iSP + 8)) >>> 3).toNat < 256
  callerFrameSize : ((before.iSP + 8 - before.iFP) >>> 3).toNat < 256

theorem Linked.finishCall (h : Linked p (.started before :: rest)) {line : CacheLine}
    {nargs disp opcode : Quad} (hfinish : Finishes before p nargs disp opcode)
    (hp' : Finished p line nargs disp opcode p') :
    Linked p' (.frame before line.nextpcdata :: rest) := by
  obtain ⟨hproper, hstarted, hrest⟩ := h
  have hsaved := hstarted.saved
  have h8 := hsaved.room.toNat_add (k := 8) (by decide)
  change _ = _ + 8 at h8
  have habove := hstarted.above
  have haligned := hproper.aligned
  have hbefore := hrest.proper.aligned
  -- the new frame begins where the continuation was pushed
  have hfp : p'.iFP = before.iSP + 8 := by
    have hargs := hfinish.arguments
    have hlt := p.iSP.isLt
    rw [hp'.iFP]
    apply BitVec.eq_of_toNat_eq
    rw [BitVec.toNat_sub, BitVec.toNat_sub, Processor.getControlRegister,
      extraArgument_field p.control, h8]
    omega
  rw [hstarted.iFP] at haligned
  have hframe : (p'.iFP - p.iFP).toNat % 8 = 0 := by
    apply toNat_sub_mod
    rw [hfp, hstarted.iFP, h8]
    omega
  have hlocals : (p'.iLP - p'.iFP).toNat % 8 = 0 := by
    have happly : (opcode >>> 7 &&& 8).toNat % 8 = 0 := by
      have height : (8 : Quad) = BitVec.twoPow 64 3 := by decide
      rw [height, BitVec.and_twoPow]
      split <;> rfl
    apply toNat_sub_mod
    rw [hp'.iLP, Processor.calleeLP, BitVec.toNat_sub, BitVec.toNat_add, hfp, h8]
    change (_ + (_ + 8) % 2 ^ 64) % 2 ^ 64 % 8 = _
    omega
  obtain ⟨hargField, hframeField, hclean⟩ := @finishedControl_fields opcode
    ((p'.iFP - p.iFP) >>> 3) disp ((p'.iLP - p'.iFP) >>> 3) p.control
    (by rw [hfp, hstarted.iFP]; exact hfinish.callerFrameSize) hfinish.disposition
    (by rw [hp'.iLP, hfp]; exact hfinish.argumentSize)
  rw [← hp'.control] at hargField hframeField hclean
  refine ⟨?_, ?_, hrest⟩
  · constructor
    · have hargs : p'.argumentSize = (p'.iLP - p'.iFP) >>> 3 :=
        BitVec.eq_of_toNat_eq (p'.toNat_argumentSize.trans hargField)
      rw [hargs, shift_back hlocals]
      exact (BitVec.sub_add_cancel _ _).symm
    · rw [hp'.iSP, hfp, h8]
      omega
  · constructor
    · apply hsaved.stay (show _ ≤ p.iSP.toNat by omega)
      intro a ha
      rw [hp'.stack]
    · exact hfp
    · have hsize : p'.callerFrameSize = (p'.iFP - p.iFP) >>> 3 :=
        BitVec.eq_of_toNat_eq (p'.toNat_callerFrameSize.trans hframeField)
      rw [hsize, shift_back hframe, hstarted.iFP]
      exact sub_sub_cancel _ _
    · exact hclean
    · rw [hp'.continuation]
      exact continuationToPC_pcToContinuation _
    · rw [hp'.iSP]
      omega

/-! ### Returning -/

/-- The processor is back where the frame of the call was pushed. -/
structure Returned (before p : Processor) : Prop where
  iSP : p.iSP = before.iSP
  iFP : p.iFP = before.iFP
  iLP : p.iLP = before.iLP
  /-- Pending traces stay pending. -/
  control : p.control = before.control ∨
    p.control = before.control ||| crTracePending.setWidth 32
  continuation : p.continuation.cdrNext = before.continuation.cdrNext
  below : ∀ a, a ≤ before.iSP → p.stack a = before.stack a

theorem cdrNext_saved (c : LispObj) :
    LispObj.cdrNext (LispObj.cdrNext ⟨c.tag ||| 0xC0, c.data⟩) = c.cdrNext := by
  have htag : ∀ t : Tag, tagType (tagType (t ||| 0xC0)) = tagType t := by decide +kernel
  rw [LispObj.cdrNext, LispObj.cdrNext, htag, LispObj.cdrNext]

/-- A program counter is found in a continuation whatever its cdr code. -/
theorem continuationToPC_congr {c c' : LispObj} (h : c.cdrNext = c'.cdrNext) :
    continuationToPC c = continuationToPC c' := by
  have hlow : ∀ t : Tag, tagType t &&& 1 = t &&& 1 := by decide +kernel
  obtain ⟨htag, hdata⟩ := LispObj.mk.inj h
  rw [continuationToPC, continuationToPC, hdata, ← hlow c.tag, ← hlow c'.tag, htag]

/-- The fields that frames are linked by, where only traces were made pending. -/
theorem Returned.fields (h : Returned before p) :
    ldb 8 0 p.control = ldb 8 0 before.control ∧ linkage p.control = linkage before.control ∧
      readControlExtraArgument p.control = readControlExtraArgument before.control := by
  have hpending : ∀ i, i < 27 → (crTracePending.setWidth 32).getLsbD i = false := by decide
  have hbit : ∀ i, i < 27 → p.control.getLsbD i = before.control.getLsbD i := by
    intro i hi
    rcases h.control with hc | hc
    · rw [hc]
    · rw [hc, BitVec.getLsbD_or, hpending i hi, Bool.or_false]
  refine ⟨ldb_congr fun i hi => hbit _ (by omega), linkage_congr fun i _ hi => hbit i (by omega),
    ldb_congr fun i hi => hbit _ (by omega)⟩

theorem Returned.linked (h : Returned before p) (hrest : Linked before rest) : Linked p rest := by
  obtain ⟨hargs, hlinkage, hextra⟩ := h.fields
  apply hrest.stay
  · apply hrest.proper.congr
    · exact h.iLP
    · exact h.iFP
    · exact hargs
    · rw [h.iSP]
  · exact h.iFP
  · exact hlinkage
  · exact continuationToPC_congr h.continuation
  · rw [h.iSP]
  · rw [h.iSP, hextra]
  · exact h.below

/-- The frame that is left brings the processor back. -/
theorem Framed.returned (h : Framed before p next) (hproper : Proper before) (restorepc : Bool) :
    ∃ p' nextcp, p.abandonFrameSimple restorepc = some (p', nextcp) ∧ Returned before p' ∧
      (restorepc = true → p'.iPC = next) := by
  have hroom := h.saved.room
  have hcontinuation : p.stack p.iFP = ⟨before.continuation.tag ||| 0xC0, before.continuation.data⟩ := by
    rw [h.iFP]
    exact h.saved.continuation
  have hcontrol : (p.stack (p.iFP + 8)).data = before.control := by
    have h16 : before.iSP + 8 + 8 = before.iSP + 16 := by bv_omega
    rw [h.iFP, h16]
    exact h.saved.control
  have hclean : ¬ p.getControlRegister &&& crCleanupBits ≠ 0 := by
    rw [not_not]
    exact cleanup_eq_zero h.cleanup
  unfold Processor.abandonFrameSimple
  dsimp only
  rw [if_neg hclean]
  refine ⟨_, _, rfl, ?_, ?_⟩
  · constructor
    · dsimp only
      rw [h.iFP]
      exact add_sub_cancel_right _ _
    · exact h.size
    · have hlow : ((crTracePending &&& p.getControlRegister) ||| before.control.signExtend 64) &&& 0xFF =
          before.argumentSize := by
        have hapart : crTracePending &&& 0xFF = 0#64 := by decide
        rw [BitVec.and_or_distrib_right, BitVec.and_comm crTracePending, BitVec.and_assoc, hapart,
          BitVec.and_zero, BitVec.zero_or]
        rfl
      dsimp only
      rw [hcontrol, hlow, hproper.iLP]
      congr 1
      exact h.size
    · have hpending : crTracePending = BitVec.twoPow 64 27 := by decide
      dsimp only [Processor.setControlRegister]
      rw [hcontrol, BitVec.setWidth_or, setWidth_signExtend, BitVec.and_comm, hpending,
        BitVec.and_twoPow]
      split
      · exact .inr (BitVec.or_comm _ _)
      · left
        exact BitVec.zero_or
    · dsimp only
      rw [hcontinuation]
      exact cdrNext_saved _
    · exact h.saved.below
  · rintro rfl
    exact h.continuation

/-! ### Runs -/

/-- The macros of calls, and pushes and pops. -/
inductive Action where
  | pushFrame (extra : Option LispObj)
  | startCall (line : CacheLine) (memoryRead : Integer → LispObj) (trapvecbase : Integer)
      (fuel : Nat) (function : LispObj)
  | push (object : LispObj)
  | pop
  | finishCall (line : CacheLine) (nargs disp opcode : Quad)
  | locateLocals
  | abandonFrame (restorepc : Bool)

def Processor.execute (p : Processor) : Action → Option Processor
  | .pushFrame extra => some (p.pushFrame extra)
  | .startCall line memoryRead trapvecbase fuel function =>
      (startCallDispatch memoryRead trapvecbase fuel function).map fun r =>
        p.startCall line r.1 r.2
  | .push object => some (p.stackPushWithCdr object)
  | .pop => some { p with iSP := p.iSP - 8 }
  | .finishCall line nargs disp opcode => p.finishCallGuts line nargs disp opcode
  | .locateLocals => some p.locateLocals
  | .abandonFrame restorepc => (p.abandonFrameSimple restorepc).map Prod.fst

/-- Calls are properly nested: words are pushed and popped above those of the call, and
every call is finished and returned from before the one it was started in. -/
def Permits (p : Processor) (calls : List Call) : Action → Prop
  | .pushFrame _ => p.Room 24
  | .startCall _ _ _ _ _ => p.Room 24
  | .push _ => p.Room 8
  | .pop =>
      match calls with
      | [] => True
      | .started before :: _ =>
          before.iSP.toNat + 24 + 8 * readControlExtraArgument p.control ≤ p.iSP.toNat
      | .frame before _ :: _ => before.iSP.toNat + 24 ≤ p.iSP.toNat
  | .finishCall _ nargs disp opcode =>
      ∃ before rest, calls = .started before :: rest ∧ Finishes before p nargs disp opcode
  | .locateLocals => p.Room 8 ∧ ((p.iSP - p.iFP) >>> 3).toNat < 256
  | .abandonFrame _ => ∃ before next rest, calls = .frame before next :: rest

/-- The calls under way after an action. -/
def callsAfter (p : Processor) : List Call → Action → List Call
  | calls, .pushFrame _ => .started p :: calls
  | calls, .startCall _ _ _ _ _ => .started p :: calls
  | .started before :: rest, .finishCall line _ _ _ => .frame before line.nextpcdata :: rest
  | _ :: rest, .abandonFrame _ => rest
  | calls, _ => calls

/-- The properly nested runs, with the calls under way at their end. -/
inductive Nested (p₀ : Processor) : Processor → List Call → Prop where
  | start : Nested p₀ p₀ []
  | step {p p' : Processor} {calls : List Call} {a : Action} (h : Nested p₀ p calls)
      (hpermits : Permits p calls a) (hexecute : p.execute a = some p') :
      Nested p₀ p' (callsAfter p calls a)

theorem Linked.pop (h : Linked p calls) (hpermits : Permits p calls .pop) :
    Linked { p with iSP := p.iSP - 8 } calls := by
  have hproper : Proper { p with iSP := p.iSP - 8 } := by
    refine h.proper.congr ?_ ?_ ?_ ?_
    · rfl
    · rfl
    · rfl
    dsimp only
    have hlt := p.iSP.isLt
    rw [BitVec.toNat_sub]
    change (2 ^ 64 - 8 + _) % 2 ^ 64 % 8 = _
    omega
  have hpop (habove : 8 ≤ p.iSP.toNat) : (p.iSP - 8).toNat = p.iSP.toNat - 8 :=
    BitVec.toNat_sub_of_le habove
  cases calls with
  | nil => exact hproper
  | cons call rest =>
      cases call with
      | started before =>
          obtain ⟨-, hstarted, hrest⟩ := h
          simp only [Permits] at hpermits
          refine ⟨hproper, ?_, hrest⟩
          constructor
          · exact hstarted.saved.stay (show _ ≤ p.iSP.toNat by omega) fun a _ => rfl
          · exact hstarted.iFP
          · dsimp only
            rw [hpop (by omega)]
            omega
      | frame before next =>
          obtain ⟨-, hframed, hrest⟩ := h
          simp only [Permits] at hpermits
          refine ⟨hproper, ?_, hrest⟩
          constructor
          · exact hframed.saved.stay (show _ ≤ p.iSP.toNat by omega) fun a _ => rfl
          · exact hframed.iFP
          · exact hframed.size
          · exact hframed.cleanup
          · exact hframed.continuation
          · dsimp only
            rw [hpop (by omega)]
            omega

theorem Linked.step {a : Action} (h : Linked p calls) (hpermits : Permits p calls a)
    (hexecute : p.execute a = some p') : Linked p' (callsAfter p calls a) := by
  cases a with
  | pushFrame extra =>
      cases hexecute
      exact h.pushFrame extra hpermits _ _ _ _
  | startCall line memoryRead trapvecbase fuel function =>
      obtain ⟨r, -, rfl⟩ := Option.map_eq_some_iff.mp hexecute
      rw [Processor.startCall_eq]
      exact h.pushFrame _ hpermits _ _ _ _
  | push object =>
      cases hexecute
      exact h.push hpermits object
  | pop =>
      cases hexecute
      exact h.pop hpermits
  | finishCall line nargs disp opcode =>
      obtain ⟨before, rest, rfl, hfinish⟩ := hpermits
      exact h.finishCall hfinish (finished_of_finishCallGuts hexecute)
  | locateLocals =>
      cases hexecute
      exact h.locateLocals hpermits.1 hpermits.2
  | abandonFrame restorepc =>
      obtain ⟨before, next, rest, rfl⟩ := hpermits
      obtain ⟨-, hframed, hrest⟩ := h
      obtain ⟨q, nextcp, habandon, hreturned, -⟩ := hframed.returned hrest.proper restorepc
      simp only [Processor.execute, habandon, Option.map_some] at hexecute
      cases hexecute
      exact hreturned.linked hrest

theorem Nested.linked {p₀ : Processor} (hp₀ : Proper p₀) (h : Nested p₀ p calls) :
    Linked p calls := by
  induction h with
  | start => exact hp₀
  | step h hpermits hexecute ih => exact ih.step hpermits hexecute

/-- **Call and return are inverse.**  Every return of a properly nested run brings the
processor back to where the frame was pushed, and its program counter, when it is
restored, behind the instruction that finished the call. -/
theorem call_return_inverse {p₀ : Processor} (hp₀ : Proper p₀)
    (h : Nested p₀ p (.frame before next :: rest)) (restorepc : Bool) :
    ∃ p' nextcp, p.abandonFrameSimple restorepc = some (p', nextcp) ∧ Returned before p' ∧
      (restorepc = true → p'.iPC = next) ∧ Nested p₀ p' rest := by
  obtain ⟨-, hframed, hrest⟩ := h.linked hp₀
  obtain ⟨p', nextcp, habandon, hreturned, hnext⟩ := hframed.returned hrest.proper restorepc
  refine ⟨p', nextcp, habandon, hreturned, hnext, ?_⟩
  have hexecute : p.execute (.abandonFrame restorepc) = some p' := by
    rw [Processor.execute, habandon, Option.map_some]
  have hpermits : Permits p (.frame before next :: rest) (.abandonFrame restorepc) :=
    ⟨before, next, rest, rfl⟩
  exact h.step hpermits hexecute

def sampleLine : CacheLine := ⟨0x2001, 0x4000⟩

/-- A frame without arguments, its locals behind it or elsewhere. -/
def sampleProcessor (elsewhere : Bool) : Processor where
  stack := fun _ => objectNIL
  iSP := 0x1010
  iFP := 0x1000
  iLP := if elsewhere then 0 else 0x1010
  iPC := 0x2000
  iCP := 0
  control := 2
  continuation := ⟨typeEvenPC, 0x3000⟩
  continuationcp := 0
  stackcachedata := 0x1000
  stackcachebasevma := 0xF8000000
  scovlimit := 1792
  cslimit := 0xF8010000
  csextralimit := 0xF8010000
  interruptreg := 0
  please_stop := 0
  stop_interpreter := 0

def sampleCallee (elsewhere : Bool) : Processor :=
  (((sampleProcessor elsewhere).pushFrame none).finishCallGuts sampleLine 8 1 0).getD
    (sampleProcessor elsewhere)

theorem sample_nested (elsewhere : Bool) :
    Nested (sampleProcessor elsewhere) (sampleCallee elsewhere)
      [.frame (sampleProcessor elsewhere) 0x2001] := by
  have hroom : (sampleProcessor elsewhere).Room 24 := by
    change 0x1010 + 24 < 2 ^ 64
    decide
  have hstarted : Nested (sampleProcessor elsewhere) ((sampleProcessor elsewhere).pushFrame none)
      [.started (sampleProcessor elsewhere)] :=
    Nested.start.step (a := .pushFrame none) hroom rfl
  have hpermits : Permits ((sampleProcessor elsewhere).pushFrame none)
      [.started (sampleProcessor elsewhere)] (.finishCall sampleLine 8 1 0) := by
    refine ⟨_, _, rfl, ?_⟩
    cases elsewhere <;> constructor <;> decide
  have hsome : (((sampleProcessor elsewhere).pushFrame none).finishCallGuts sampleLine 8 1
      0).isSome = true := by
    cases elsewhere <;> decide
  obtain ⟨callee, hcallee⟩ := Option.isSome_iff_exists.mp hsome
  have heq : sampleCallee elsewhere = callee := by rw [sampleCallee, hcallee, Option.getD_some]
  rw [heq]
  exact hstarted.step hpermits hcallee

theorem call_return_inverse_sample :
    ∃ p' nextcp, (sampleCallee false).abandonFrameSimple true = some (p', nextcp) ∧
      Returned (sampleProcessor false) p' ∧ (true = true → p'.iPC = 0x2001) ∧
      Nested (sampleProcessor false) p' [] :=
  call_return_inverse ⟨by decide, by decide⟩ (sample_nested false) true

/-- Where the locals began elsewhere the run is the same, and the return does not find
`iLP` again. -/
theorem return_moves_iLP :
    ∃ p' nextcp, (sampleCallee true).abandonFrameSimple true = some (p', nextcp) ∧
      Nested (sampleProcessor true) (sampleCallee true) [.frame (sampleProcessor true) 0x2001] ∧
      p'.iLP ≠ (sampleProcessor true).iLP :=
  ⟨_, _, rfl, sample_nested true, by decide⟩

end Interpreter
