import OsxVlm.Library.BitFields

/-!
# The fake frames of the startup

The emulator is started with fake frames on its stack, which `PopOneFakeFrame` takes off
again.  A pop never reads the control word that the push saved and leaves the marks on
the tag of the continuation, so only some states come back.  The words of the
stack are numbered from the start of the stack cache.
-/

namespace FakeFrames

structure LispObjRecord where
  tag : BitVec 32
  data : BitVec 32
  deriving DecidableEq

/-- What of the processor state the two functions use. -/
structure ProcessorState where
  stack : Int → LispObjRecord
  fp : Int
  sp : Int
  lp : Int
  epc : BitVec 64
  continuation : LispObjRecord
  control : BitVec 64

def typeFixnum : BitVec 32 := 8
def typeEvenPC : BitVec 32 := 38
def typeOddPC : BitVec 32 := 39

/-- `SetIvoryWord`. -/
def setIvoryWord (tag : BitVec 32) (data : BitVec 64) : LispObjRecord :=
  let word := tag.setWidth 64 <<< 32 ||| data
  ⟨(word >>> 32).setWidth 32, word.setWidth 32⟩

def writeControlArgumentSize (c argsize : BitVec 64) : BitVec 64 :=
  c &&& ~~~(0xFF : BitVec 64) ||| argsize

def writeControlCallerFrameSize (c : BitVec 64) (cfs : Int) : BitVec 64 :=
  c &&& ~~~(0x1FE00 : BitVec 64) ||| BitVec.ofInt 64 cfs <<< 9

def readControlArgumentSize (c : BitVec 64) : Int := ((c &&& 0xFF).toNat : Int)

/-- The mask is a bit shorter than the one for writing. -/
def readControlCallerFrameSize (c : BitVec 64) : Int := (((c &&& 0xFE00) >>> 9).toNat : Int)

/-- The control word of a fake frame. -/
def fakeControl (cfs : Int) : BitVec 64 :=
  writeControlCallerFrameSize (writeControlArgumentSize 0xC0000000 2) cfs

/-- `SetIvoryWord` of a word of the stack. -/
theorem setIvoryWord_data (tag data : BitVec 32) :
    setIvoryWord tag (data.setWidth 64) = ⟨tag, data⟩ := by
  have htag : ((tag.setWidth 64 <<< 32 ||| data.setWidth 64) >>> 32).setWidth 32 = tag := by
    ext i hi
    simp
    grind
  have hdata : (tag.setWidth 64 <<< 32 ||| data.setWidth 64).setWidth 32 = data := by
    ext i hi
    simp
  simp only [setIvoryWord, htag, hdata]

theorem fakeControl_eq (cfs : Int) :
    fakeControl cfs = 0xC0000002 ||| BitVec.ofInt 64 cfs <<< 9 := rfl

/-- The two words of a frame are its arguments. -/
theorem argumentSize_fakeControl (cfs : Int) :
    readControlArgumentSize (fakeControl cfs) = 2 := by
  have hfield : fakeControl cfs &&& 0xFF = 2 := by
    rw [fakeControl_eq, BitVec.and_or_distrib_right, BitFields.shiftLeft_and]
    simp
  rw [readControlArgumentSize, hfield]
  rfl

/-- Seven bits of the size are read. -/
theorem callerFrameSize_fakeControl (cfs : Int) :
    readControlCallerFrameSize (fakeControl cfs) = cfs % 128 := by
  have hfield : fakeControl cfs &&& (0xFE00 : BitVec 64) = (BitVec.ofInt 64 cfs &&& 0x7F) <<< 9 := by
    rw [fakeControl_eq, BitVec.and_or_distrib_right, BitFields.shiftLeft_and]
    simp
  have hmask : (BitVec.ofInt 64 cfs &&& 0x7F).toNat = (BitVec.ofInt 64 cfs).toNat % 128 :=
    BitFields.toNat_and_mask (k := 7) _ (by decide)
  rw [BitVec.toNat_ofInt] at hmask
  rw [readControlCallerFrameSize, hfield, BitVec.toNat_ushiftRight, BitVec.toNat_shiftLeft,
    Nat.shiftLeft_eq, Nat.shiftRight_eq_div_pow, hmask]
  omega

/-- A size that can be read back is in the control word as it is. -/
theorem fakeControl_field {cfs : Int} (h0 : 0 ≤ cfs) (h : cfs < 128) :
    ((fakeControl cfs &&& 0x3FFFFFFF).toNat : Int) = 2 + 512 * cfs := by
  have hall : ∀ c : Fin 128, (fakeControl c &&& 0x3FFFFFFF).toNat = 2 + 512 * c := by
    decide +kernel
  have hc := hall ⟨cfs.toNat, by omega⟩
  simp only [Int.toNat_of_nonneg h0] at hc
  omega

namespace ProcessorState

def pushOneFakeFrame (s : ProcessorState) : ProcessorState :=
  let fp := s.sp + 1
  let stack := Function.update s.stack fp ⟨s.continuation.tag ||| 0xC0, s.continuation.data⟩
  { s with
    stack := Function.update stack (fp + 1)
      ⟨0xC0 ||| typeFixnum, s.control.setWidth 32 &&& 0x3FFFFFFF ||| 3 <<< 30⟩
    control := fakeControl (fp - s.fp)
    continuation :=
      setIvoryWord (if s.epc &&& 1 = 1 then typeOddPC else typeEvenPC) (s.epc.sshiftRight 1)
    fp := fp
    sp := fp + 1
    lp := fp + 2 }

def popOneFakeFrame (s : ProcessorState) : ProcessorState :=
  let fp := s.fp - readControlCallerFrameSize s.control
  { s with
    sp := s.fp - 1
    fp := fp
    epc := (s.continuation.data.setWidth 64 <<< 1 : BitVec 64) +
      if s.continuation.tag = typeOddPC then 1 else 0
    continuation := setIvoryWord (s.stack s.fp).tag ((s.stack s.fp).data.setWidth 64)
    lp := fp + readControlArgumentSize s.control }

/-- The machine is as it was, apart from the trap mode. -/
structure Restored (s s' : ProcessorState) : Prop where
  epc : s'.epc = s.epc
  continuation : s'.continuation = s.continuation
  control : s'.control &&& 0x3FFFFFFF = s.control &&& 0x3FFFFFFF
  fp : s'.fp = s.fp
  sp : s'.sp = s.sp
  lp : s'.lp = s.lp
  stack : ∀ i ≤ s.sp, s'.stack i = s.stack i

/-- The registers are those of a frame. -/
structure Framed (s : ProcessorState) : Prop where
  lp : s.lp = s.fp + readControlArgumentSize s.control
  sp : s.fp ≤ s.sp

/-- One frame that is pushed and popped leaves the state as it was. -/
structure OneFrame (s : ProcessorState) : Prop where
  tag : s.continuation.tag &&& 0xC0 = 0xC0
  control : ((s.control &&& 0x3FFFFFFF).toNat : Int) = 2 + 512 * (s.sp + 1 - s.fp)
  size : s.sp + 1 - s.fp < 128
  epc : s.epc.toNat < 2 ^ 33

/-- More than one do. -/
structure ManyFrames (s : ProcessorState) : Prop extends s.OneFrame where
  two : s.sp = s.fp + 1
  even : s.epc.toNat % 2 = 0

/-! ### One push and one pop -/

@[simp] theorem pushOneFakeFrame_fp (s : ProcessorState) :
    s.pushOneFakeFrame.fp = s.sp + 1 := rfl

@[simp] theorem pushOneFakeFrame_sp (s : ProcessorState) :
    s.pushOneFakeFrame.sp = s.sp + 2 := by
  show s.sp + 1 + 1 = s.sp + 2
  omega

@[simp] theorem pushOneFakeFrame_control (s : ProcessorState) :
    s.pushOneFakeFrame.control = fakeControl (s.sp + 1 - s.fp) := rfl

theorem pushOneFakeFrame_saved (s : ProcessorState) :
    s.pushOneFakeFrame.stack (s.sp + 1) =
      ⟨s.continuation.tag ||| 0xC0, s.continuation.data⟩ := by
  simp [pushOneFakeFrame]

theorem pushOneFakeFrame_stack (s : ProcessorState) {i : Int} (h : i ≤ s.sp) :
    s.pushOneFakeFrame.stack i = s.stack i := by
  have hsaved : i ≠ s.sp + 1 := by omega
  have hcontrol : i ≠ s.sp + 1 + 1 := by omega
  simp [pushOneFakeFrame, hsaved, hcontrol]

/-- A pop of a frame whose size is two, as all fake frames above another are. -/
theorem popOneFakeFrame_registers (s : ProcessorState) {cfs : Int}
    (h : s.control = fakeControl cfs) :
    s.popOneFakeFrame.sp = s.fp - 1 ∧
      s.popOneFakeFrame.fp = s.fp - cfs % 128 ∧
      s.popOneFakeFrame.lp = s.fp - cfs % 128 + 2 ∧
      s.popOneFakeFrame.control = fakeControl cfs ∧
      s.popOneFakeFrame.continuation = s.stack s.fp ∧
      s.popOneFakeFrame.stack = s.stack := by
  refine ⟨rfl, ?_, ?_, h, setIvoryWord_data _ _, rfl⟩
  · simp only [popOneFakeFrame, h, callerFrameSize_fakeControl]
  · simp only [popOneFakeFrame, h, callerFrameSize_fakeControl, argumentSize_fakeControl]

/-- The state after frames were pushed on a fake frame and popped. -/
structure Settled (t t' : ProcessorState) : Prop where
  sp : t'.sp = t.sp
  fp : t'.fp = t.fp
  control : t'.control = fakeControl 2
  continuation : t'.continuation = ⟨t.continuation.tag ||| 0xC0, t.continuation.data⟩
  stack : ∀ i ≤ t.sp, t'.stack i = t.stack i

/-- What one pop leaves above a settled state. -/
theorem Settled.pop {t t' : ProcessorState} (h : t.pushOneFakeFrame.Settled t') :
    t'.popOneFakeFrame.sp = t.sp ∧
      t'.popOneFakeFrame.fp = t.sp - 1 ∧
      t'.popOneFakeFrame.lp = t.sp + 1 ∧
      t'.popOneFakeFrame.control = fakeControl 2 ∧
      t'.popOneFakeFrame.continuation =
        ⟨t.continuation.tag ||| 0xC0, t.continuation.data⟩ ∧
      ∀ i ≤ t.sp, t'.popOneFakeFrame.stack i = t.stack i := by
  obtain ⟨hsp, hfp, hlp, hcontrol, hcont, hstack⟩ := t'.popOneFakeFrame_registers h.control
  have hframe : t'.fp = t.sp + 1 := h.fp
  refine ⟨by omega, by omega, by omega, hcontrol, ?_, ?_⟩
  · rw [hcont, hframe, h.stack _ (by simp), pushOneFakeFrame_saved]
  · intro i hi
    rw [hstack, h.stack i (by simp; omega), pushOneFakeFrame_stack t hi]

/-- Any number of frames pushed on a fake frame and popped. -/
theorem settled_iterate (n : Nat) (t : ProcessorState) (h : t.sp = t.fp + 1) :
    t.Settled (popOneFakeFrame^[n + 1] (pushOneFakeFrame^[n + 1] t)) := by
  induction n generalizing t with
  | zero =>
    have hsize : t.pushOneFakeFrame.control = fakeControl 2 := by
      rw [pushOneFakeFrame_control]
      congr 1
      omega
    obtain ⟨hsp, hfp, -, hcontrol, hcont, hstack⟩ :=
      t.pushOneFakeFrame.popOneFakeFrame_registers hsize
    simp only [pushOneFakeFrame_fp] at hsp hfp hcont
    refine ⟨?_, ?_, hcontrol, ?_, ?_⟩
    · simpa using hsp
    · show t.pushOneFakeFrame.popOneFakeFrame.fp = t.fp
      omega
    · show t.pushOneFakeFrame.popOneFakeFrame.continuation = _
      rw [hcont, pushOneFakeFrame_saved]
    · intro i hi
      show t.pushOneFakeFrame.popOneFakeFrame.stack i = t.stack i
      rw [hstack, pushOneFakeFrame_stack t hi]
  | succ n ih =>
    have hpushed : t.pushOneFakeFrame.sp = t.pushOneFakeFrame.fp + 1 := rfl
    obtain ⟨hsp, hfp, -, hcontrol, hcont, hstack⟩ := (ih t.pushOneFakeFrame hpushed).pop
    rw [Function.iterate_succ_apply' popOneFakeFrame, Function.iterate_succ_apply pushOneFakeFrame]
    exact ⟨hsp, by omega, hcontrol, hcont, hstack⟩

/-! ### Which states come back -/

theorem or_eq_self_iff {w : Nat} (x m : BitVec w) : x ||| m = x ↔ x &&& m = m := by
  constructor
  · intro h
    rw [← h]
    ext i hi
    simp
    grind
  · intro h
    rw [← h]
    ext i hi
    simp
    grind

/-- A program counter that fits is pushed as it is. -/
theorem pushOneFakeFrame_continuation (s : ProcessorState) (h : s.epc.toNat < 2 ^ 33) :
    s.pushOneFakeFrame.continuation =
      ⟨if s.epc.toNat % 2 = 1 then typeOddPC else typeEvenPC, (s.epc >>> 1).setWidth 32⟩ := by
  have hsign : s.epc.sshiftRight 1 = s.epc >>> 1 := by
    apply BitVec.sshiftRight_eq_of_msb_false
    rw [BitVec.msb_eq_false_iff_two_mul_lt]
    omega
  have hfits : ((s.epc >>> 1).setWidth 32).setWidth 64 = s.epc >>> 1 := by
    apply BitVec.eq_of_toNat_eq
    simp only [BitVec.toNat_setWidth, BitVec.toNat_ushiftRight, Nat.shiftRight_eq_div_pow]
    omega
  have hodd : s.epc &&& 1 = 1 ↔ s.epc.toNat % 2 = 1 := by
    rw [← BitVec.toNat_inj]
    exact (BitFields.toNat_and_mask (k := 1) s.epc (by decide)).congr_left
  have hword := setIvoryWord_data (if s.epc.toNat % 2 = 1 then typeOddPC else typeEvenPC)
    ((s.epc >>> 1).setWidth 32)
  rw [hfits] at hword
  simp only [pushOneFakeFrame, hsign, hodd, hword]

theorem popOneFakeFrame_epc (s : ProcessorState) :
    s.popOneFakeFrame.epc.toNat =
      2 * s.continuation.data.toNat + if s.continuation.tag = typeOddPC then 1 else 0 := by
  have hdata := s.continuation.data.isLt
  simp only [popOneFakeFrame, BitVec.toNat_add, BitVec.toNat_shiftLeft, BitVec.toNat_setWidth,
    Nat.shiftLeft_eq]
  split <;> simp <;> omega

theorem pc_data (s : ProcessorState) (h : s.epc.toNat < 2 ^ 33) :
    ((s.epc >>> 1).setWidth 32).toNat = s.epc.toNat / 2 := by
  simp only [BitVec.toNat_setWidth, BitVec.toNat_ushiftRight, Nat.shiftRight_eq_div_pow]
  omega

/-- The mode bits apart, the control word of a pop is the one of the push below it. -/
theorem control_field {s : ProcessorState} (h : s.OneFrame) :
    (s.control &&& 0x3FFFFFFF).toNat = 2 + 512 * (s.sp + 1 - s.fp).toNat ∧
      readControlArgumentSize s.control = 2 := by
  have hfield := h.control
  have hmask : (s.control &&& 0x3FFFFFFF).toNat = s.control.toNat % 2 ^ 30 :=
    BitFields.toNat_and_mask (k := 30) s.control (by decide)
  have hsize : (s.control &&& 0xFF).toNat = s.control.toNat % 2 ^ 8 :=
    BitFields.toNat_and_mask (k := 8) s.control (by decide)
  unfold readControlArgumentSize
  omega

/-- One push and pop: the tag has its marks, the control word is the one the push makes,
and the sizes fit their fields. -/
theorem restored_one_iff (s : ProcessorState) (h : s.Framed) :
    s.Restored s.pushOneFakeFrame.popOneFakeFrame ↔ s.OneFrame := by
  obtain ⟨hsp, hfp, hlp, hcontrol, hcont, hstack⟩ :=
    s.pushOneFakeFrame.popOneFakeFrame_registers s.pushOneFakeFrame_control
  simp only [pushOneFakeFrame_fp] at hsp hfp hlp hcont
  rw [pushOneFakeFrame_saved] at hcont
  have hepc := s.pushOneFakeFrame.popOneFakeFrame_epc
  have hframe := h.sp
  constructor
  · intro hr
    have hsize : s.sp + 1 - s.fp < 128 := by
      have := hr.fp
      omega
    have hfield := @fakeControl_field (s.sp + 1 - s.fp) (by omega) hsize
    refine ⟨?_, ?_, hsize, ?_⟩
    · have htag := congrArg LispObjRecord.tag (hcont.symm.trans hr.continuation)
      exact (or_eq_self_iff _ _).1 htag
    · rw [← hr.control, hcontrol, hfield]
    · rw [← hr.epc, hepc]
      have := s.pushOneFakeFrame.continuation.data.isLt
      split <;> omega
  · intro ho
    have hsize := ho.size
    obtain ⟨hfield, hargs⟩ := control_field ho
    refine ⟨?_, ?_, ?_, by omega, by omega, ?_, ?_⟩
    · rw [← BitVec.toNat_inj, hepc, pushOneFakeFrame_continuation s ho.epc]
      have hhalf := pc_data s ho.epc
      by_cases hodd : s.epc.toNat % 2 = 1
      · simp only [hodd, if_true]
        omega
      · have htag : typeEvenPC ≠ typeOddPC := by decide
        simp only [hodd, if_false, htag]
        omega
    · rw [hcont, (or_eq_self_iff _ _).2 ho.tag]
    · rw [hcontrol, ← BitVec.toNat_inj, hfield]
      have := @fakeControl_field (s.sp + 1 - s.fp) (by omega) hsize
      omega
    · rw [hlp, h.lp, hargs]
      omega
    · intro i hi
      rw [hstack, pushOneFakeFrame_stack s hi]

/-- More pushes and pops: the frame has two words and the program counter is even too. -/
theorem restored_many_iff (s : ProcessorState) (h : s.Framed) (n : Nat) :
    s.Restored (popOneFakeFrame^[n + 2] (pushOneFakeFrame^[n + 2] s)) ↔ s.ManyFrames := by
  have hset := settled_iterate n s.pushOneFakeFrame rfl
  obtain ⟨hsp, hfp, hlp, hcontrol, hcont, hstack⟩ := hset.pop
  have hepc := popOneFakeFrame_epc (popOneFakeFrame^[n + 1] (pushOneFakeFrame^[n + 1]
    s.pushOneFakeFrame))
  rw [hset.continuation] at hepc
  -- the marks on the tag of the saved program counter hide that it is odd
  have hmarked : s.pushOneFakeFrame.continuation.tag ||| 0xC0 ≠ typeOddPC := by
    intro heq
    have := (or_eq_self_iff typeOddPC 0xC0).1 (by rw [← heq, BitVec.or_assoc, BitVec.or_self])
    exact absurd this (by decide)
  simp only [hmarked, if_false] at hepc
  have htwo : ((fakeControl 2 &&& 0x3FFFFFFF).toNat : Int) = 2 + 512 * 2 :=
    fakeControl_field (by decide) (by decide)
  rw [Function.iterate_succ_apply' popOneFakeFrame, Function.iterate_succ_apply pushOneFakeFrame]
  constructor
  · intro hr
    have hframe := hr.fp
    have hepc' := congrArg BitVec.toNat hr.epc
    have hdata := s.pushOneFakeFrame.continuation.data.isLt
    refine ⟨⟨?_, ?_, by omega, by omega⟩, by omega, by omega⟩
    · have htag := congrArg LispObjRecord.tag (hcont.symm.trans hr.continuation)
      exact (or_eq_self_iff _ _).1 htag
    · rw [← hr.control, hcontrol, htwo]
      omega
  · intro hm
    have hframe := hm.two
    have heven := hm.even
    obtain ⟨hfield, hargs⟩ := control_field hm.toOneFrame
    refine ⟨?_, ?_, ?_, by omega, hsp, ?_, hstack⟩
    · rw [← BitVec.toNat_inj, hepc, pushOneFakeFrame_continuation s hm.epc]
      have := pc_data s hm.epc
      simp only
      omega
    · rw [hcont, (or_eq_self_iff _ _).2 hm.tag]
    · rw [hcontrol, ← BitVec.toNat_inj, hfield]
      omega
    · rw [hlp, h.lp, hargs]
      omega

/-- Every number of fake frames is popped without a trace from exactly the states whose frame
has two words, whose control word is the one of such a frame and whose return address is
marked; for a single one the size of the frame is free. -/
theorem popOneFakeFrame_undoes (s : ProcessorState) (h : s.Framed) :
    (s.Restored s.pushOneFakeFrame.popOneFakeFrame ↔ s.OneFrame) ∧
      ((∀ n, s.Restored (popOneFakeFrame^[n] (pushOneFakeFrame^[n] s))) ↔ s.ManyFrames) := by
  refine ⟨restored_one_iff s h, fun hall => (restored_many_iff s h 0).1 (hall 2), fun hm n => ?_⟩
  match n with
  | 0 => exact ⟨rfl, rfl, rfl, rfl, rfl, rfl, fun _ _ => rfl⟩
  | 1 => exact (restored_one_iff s h).2 hm.toOneFrame
  | n + 2 => exact (restored_many_iff s h n).2 hm

/-- A frame of three words with one argument that was called from an even program counter. -/
def called : ProcessorState where
  stack := fun _ => ⟨0, 0⟩
  fp := 0
  sp := 2
  lp := 1
  epc := 0x1000
  continuation := ⟨typeEvenPC, 0x800⟩
  control := 1

theorem popOneFakeFrame_undoes_called :
    (called.Restored called.pushOneFakeFrame.popOneFakeFrame ↔ called.OneFrame) ∧
      ((∀ n, called.Restored (popOneFakeFrame^[n] (pushOneFakeFrame^[n] called))) ↔
        called.ManyFrames) :=
  popOneFakeFrame_undoes called ⟨by decide, by decide⟩

/-- After a push and a pop the frame has two arguments and the return address is marked. -/
theorem not_popOneFakeFrame_undoes_called :
    called.Framed ∧ ¬ called.Restored called.pushOneFakeFrame.popOneFakeFrame := by
  refine ⟨⟨by decide, by decide⟩, fun h => ?_⟩
  exact absurd h.continuation (by decide)

end ProcessorState

end FakeFrames
