import Mathlib
import OsxVlm.Emulator.Control
import OsxVlm.Emulator.Calls
import OsxVlm.Emulator.CallDiscipline

/-!
# Traps

A trap builds the frame of a call for effect by hand: one before an instruction above
`restartsp`, one after an instruction below its operands, which are moved up.  A
handler that returns leaves this frame like any other.
-/

namespace Ivory

def arithmeticInstructionExceptionVector : Integer := 0
def instructionExceptionVector : Integer := 0x800
def fepModeTrapVector : Integer := 0xA47

def typeLocative : Tag := 0x19

def tagCdr (tag : Tag) : Nat := (tag >>> 6).toNat

/-- The processor, with what traps use beyond calls. -/
structure Processor extends Cpu where
  restartsp : Int
  stackCacheBase : Integer
  /-- The words of `DataSpace` and `TagSpace`. -/
  memory : Integer → LispObj

/-! ### The stack cache -/

/-- A page of the stack cache is copied from the one above it. -/
def copyPage (stack : Int → LispObj) (page : Int) : Int → LispObj := fun i =>
  if 256 * page ≤ i ∧ i < 256 * page + 256 then stack (i + 256) else stack i

/-- `VirtualMemoryWriteBlock`; the end of the block is computed before the loop, so a block
that reaches the end of the address space is not written at all. -/
def virtualMemoryWriteBlock (memory : Integer → LispObj) (vma : Integer) (object : Int → LispObj)
    (count : Nat) : Integer → LispObj := fun a =>
  if vma.toNat ≤ a.toNat ∧ a.toNat < (vma + BitVec.ofNat 32 count).toNat then
    object (a - vma).toNat
  else memory a

/-- `StackCacheScrollUp`; the pages are copied from the last one down. -/
def Processor.stackCacheScrollUp (s : Processor) : Processor :=
  { s with
    memory := virtualMemoryWriteBlock s.memory s.stackCacheBase s.stack 256
    stack := copyPage (copyPage (copyPage s.stack 2) 1) 0
    fp := s.fp - 256
    sp := s.sp - 256
    lp := s.lp - 256
    stackCacheBase := s.stackCacheBase + 256 }

/-- So every page ends as a copy of the last one. -/
theorem stackCacheScrollUp_stack (s : Processor) {page i : Int} (h0 : 0 ≤ page) (hpage : page < 4)
    (hi0 : 0 ≤ i) (hi : i < 256) :
    s.stackCacheScrollUp.stack (256 * page + i) = s.stack (768 + i) := by
  have hcases : page = 0 ∨ page = 1 ∨ page = 2 ∨ page = 3 := by omega
  simp only [Processor.stackCacheScrollUp, copyPage]
  obtain rfl | rfl | rfl | rfl := hcases
  · rw [if_pos (by omega), if_pos (by omega), if_pos (by omega)]
    congr 1
    omega
  · rw [if_neg (by omega), if_pos (by omega), if_pos (by omega)]
    congr 1
    omega
  · rw [if_neg (by omega), if_neg (by omega), if_pos (by omega)]
    congr 1
    omega
  · rw [if_neg (by omega), if_neg (by omega), if_neg (by omega)]
    congr 1

/-! ### The trap vector -/

def isPC (o : LispObj) : Prop := tagType o.tag = typeOddPC ∨ tagType o.tag = typeEvenPC

instance (o : LispObj) : Decidable (isPC o) := by
  unfold isPC
  infer_instance

/-- The entry, and the control register after it was read in trap mode 3.  Where the
entry is no PC the one for the FEP is read, unless it was that already. -/
def fetchTrapVectorEntry (memoryReadData : Integer → LispObj) (control index : Integer) :
    Option (LispObj × Integer) :=
  let previous := readControlTrapMode control
  let control := writeControlTrapMode control 3
  let entry := memoryReadData
    (trapVectorBase + if previous < 3 then index else fepModeTrapVector)
  if isPC entry then some (entry, writeControlTrapMode control previous)
  else if previous = 3 then none
  else
    let entry := memoryReadData (trapVectorBase + fepModeTrapVector)
    if isPC entry then
      some (entry, writeControlTrapMode (writeControlTrapMode control 3) previous)
    else none

/-- The fields that a trap clears; its disposition is 0. -/
def trapCleared : Integer := finishCleared ||| controlTraceBits

def trapControl (control : Integer) (argumentSize callerFrameSize : Int) : Integer :=
  packControl trapCleared control argumentSize 0 callerFrameSize

/-- The end of a trap: its handler is entered, at least in the mode of its entry. -/
def Cpu.enterTrap (memoryReadData : Integer → LispObj) (index : Integer) (s : Cpu) :
    Option Cpu :=
  match fetchTrapVectorEntry memoryReadData s.control index with
  | none => none
  | some (entry, control) =>
      some
        { s with
          control :=
            if readControlTrapMode control < tagCdr entry.tag then
              writeControlTrapMode control (tagCdr entry.tag)
            else control
          pc := entry }

/-! ### The traps -/

def Cpu.pushExtra (s : Cpu) : Option LispObj → Cpu
  | some extra => s.pushObject extra
  | none => s

/-- The frame words, the vector, the pc and the extra arguments. -/
def Cpu.pushTrap (s : Cpu) (index : Integer) (extra1 extra2 : Option LispObj) : Cpu :=
  (((((s.pushContinuation s.continuation).pushControl s.control).pushFixnum index).pushObject
    s.pc).pushExtra extra1).pushExtra extra2

def takePreTrap (memoryReadData : Integer → LispObj) (index : Integer)
    (extra1 extra2 : Option LispObj) (s : Processor) : Option Processor :=
  let oldfp := s.fp
  let restartsp := s.restartsp
  let s : Processor := { s with sp := restartsp }
  let s := if s.stackCacheLimit < s.sp + 8 then s.stackCacheScrollUp else s
  let cpu := s.toCpu.pushTrap index extra1 extra2
  let fp := restartsp + 1
  let lp := cpu.sp + 1
  let cpu : Cpu :=
    { cpu with
      fp := fp
      lp := lp
      control := trapControl s.control (lp - fp) (fp - oldfp)
      continuation := s.pc }
  (cpu.enterTrap memoryReadData index).map fun cpu => { s with toCpu := cpu }

/-- The operands are moved up by four words, the last one first. -/
def moveOperands (stack : Int → LispObj) (sp : Int) (arity : Nat) : Int → LispObj :=
  (List.range arity).foldl
    (fun stack (i : Nat) => Function.update stack (sp + 4 - i) (stack (sp - i))) stack

/-- The control register that a trap after an instruction saves. -/
def savedControl (control : Integer) : Integer :=
  if readControlInstructionTrace control ≠ 0 then writeControlTracePending control 1 else control

def takePostTrap (memoryReadData : Integer → LispObj) (index : Integer) (arity : Nat)
    (nextpc : LispObj) (s : Processor) : Option Processor :=
  let oldfp := s.fp
  let s := if s.stackCacheLimit < s.sp + 8 then s.stackCacheScrollUp else s
  let stack := moveOperands s.stack s.sp arity
  let fp := s.sp - ((arity : Int) - 1)
  let sp := s.sp + 4
  let stack := Function.update stack fp ⟨s.continuation.tag ||| 0xC0, s.continuation.data⟩
  let stack := Function.update stack (fp + 1) ⟨typeFixnum ||| 0xC0, savedControl s.control⟩
  let stack := Function.update stack (fp + 2) ⟨typeFixnum, index⟩
  let stack := Function.update stack (fp + 3) s.pc.cdrNext
  let lp := sp + 1
  let cpu : Cpu :=
    { s.toCpu with
      stack := stack
      sp := sp
      fp := fp
      lp := lp
      control := trapControl s.control (lp - fp) (fp - oldfp)
      continuation := nextpc }
  (cpu.enterTrap memoryReadData index).map fun cpu => { s with toCpu := cpu }

/-- An entry of `InstructionExceptionInfo`. -/
structure ExceptionInfo where
  arity : Nat
  stackp : Bool
  arithp : Bool

/-- The operand of an instruction that does not take it from the stack is pushed. -/
def exceptionOperand (ei : ExceptionInfo) (instruction : Integer) (op2 : LispObj) (place : Int)
    (s : Processor) : Processor :=
  let s : Processor := { s with sp := s.restartsp }
  if ei.stackp then s
  else if ldb 2 15 instruction = 3 then
    { s with
      toCpu := s.toCpu.push ⟨typeLocative, s.stackCacheBase + BitVec.ofInt 32 place⟩ }
  else if ldb 10 0 instruction ≠ 0x200 then { s with toCpu := s.toCpu.pushObject op2 }
  else s

def exceptionVector (ei : ExceptionInfo) (instruction : Integer) (s : Cpu) : Integer :=
  let opcode := ldb 8 10 instruction
  let tag (i : Int) : Integer := (s.stack i).tag.setWidth 32
  if !ei.arithp then instructionExceptionVector + BitVec.ofNat 32 opcode
  else if 1 < ei.arity then
    arithmeticInstructionExceptionVector +
      dpb opcode 5 6 (dpb (tag (s.sp - 1)).toInt 3 3 (tag s.sp))
  else arithmeticInstructionExceptionVector + dpb opcode 5 6 (dpb (tag s.sp).toInt 3 3 0)

/-- The operand `op2` lies in the stack cache at `place`. -/
def takeInstructionException (memoryReadData : Integer → LispObj) (ei : ExceptionInfo)
    (instruction : Integer) (op2 : LispObj) (place : Int) (nextpc : LispObj) (s : Processor) :
    Option Processor :=
  let s := exceptionOperand ei instruction op2 place s
  takePostTrap memoryReadData (exceptionVector ei instruction s.toCpu) ei.arity nextpc s

/-! ### Transparency -/

/-- The handler is about to return, and has changed nothing outside its frame. -/
structure Leaves (s₁ s₂ : Cpu) : Prop where
  fp : s₂.fp = s₁.fp
  linkage : linkage s₂.control = linkage s₁.control
  continuation : s₂.continuation.cdrNext = s₁.continuation.cdrNext
  below : ∀ i, i ≤ s₁.fp + 1 → s₂.stack i = s₁.stack i
  above : s₁.fp + 1 ≤ s₂.sp

/-- The program goes on at `next` with its registers, and the stack up to `top`. -/
structure Resumes (s : Cpu) (next : LispObj) (restored : Integer) (top : Int) (s' : Cpu) :
    Prop where
  pc : s'.pc.cdrNext = next.cdrNext
  fp : s'.fp = s.fp
  lp : s'.lp = s.lp
  control : s'.control = restored
  continuation : s'.continuation.cdrNext = s.continuation.cdrNext
  sp : s'.sp = top
  below : ∀ i, i ≤ top → s'.stack i = s.stack i

/-- Whatever its handler did in its frame and returns, the trap is not seen. -/
def Transparent (s : Cpu) (taken : Option Processor) (next : LispObj) (restored : Integer)
    (top : Int) : Prop :=
  ∀ s₁, taken = some s₁ → ∀ s₂ scratch, Leaves s₁.toCpu s₂ →
    ∃ s', (∀ fuel, 0 < fuel → Cpu.returnSingle scratch fuel s₂ = some s') ∧
      Resumes s next restored top s'

variable {memoryReadData : Integer → LispObj} {index : Integer}

theorem linkage_fetchTrapVectorEntry {control control' : Integer} {entry : LispObj}
    (h : fetchTrapVectorEntry memoryReadData control index = some (entry, control')) :
    linkage control' = linkage control := by
  unfold fetchTrapVectorEntry at h
  dsimp only at h
  generalize memoryReadData (trapVectorBase +
    if readControlTrapMode control < 3 then index else fepModeTrapVector) = first at h
  split at h
  · cases h
    rw [linkage_writeTrapMode, linkage_writeTrapMode]
  · split at h
    · cases h
    · split at h
      · cases h
        rw [linkage_writeTrapMode, linkage_writeTrapMode, linkage_writeTrapMode]
      · cases h

/-- Entering the handler leaves the frame. -/
theorem Cpu.enterTrap_some {s s' : Cpu} (h : s.enterTrap memoryReadData index = some s') :
    ∃ control pc, s' = { s with control := control, pc := pc } ∧
      linkage control = linkage s.control := by
  unfold Cpu.enterTrap at h
  split at h
  · cases h
  · next entry control hfetch =>
    cases h
    refine ⟨_, _, rfl, ?_⟩
    split
    · rw [linkage_writeTrapMode]
      exact linkage_fetchTrapVectorEntry hfetch
    · exact linkage_fetchTrapVectorEntry hfetch

theorem linkage_trapControl {control : Integer} {argumentSize callerFrameSize : Int}
    (h0 : 0 ≤ argumentSize) (h : argumentSize < 256) (hf0 : 0 ≤ callerFrameSize)
    (hf : callerFrameSize < 256) :
    linkage (trapControl control argumentSize callerFrameSize) =
      ⟨callerFrameSize.toNat, .effect, 0⟩ := by
  have hbits : DispositionBits 0 := fun i _ _ => BitVec.getLsbD_zero
  have hdisp : ldb 2 18 (0 : Integer) = 0 := by decide
  simp only [linkage, readControlCallerFrameSize, readControlValueDisposition,
    readControlCleanupBits, trapControl]
  rw [ldb_packControl_callerFrameSize (by decide) hbits h0 h hf0 hf,
    ldb_packControl_valueDisposition (by decide) h0 h hf0 hf, hdisp,
    ldb_packControl_cleanupBits (by decide) hbits h0 h hf0 hf]
  rfl

/-- A trap frame is left like the frame of a call for effect. -/
theorem Framed.resumes {before s₁ s₂ : Cpu} (h : Framed before s₁ .effect)
    (hfp : 0 ≤ before.fp) (hlp : before.lp = before.fp + readControlArgumentSize before.control)
    (hleaves : Leaves s₁ s₂) (scratch : LispObj) :
    ∃ s', (∀ fuel, 0 < fuel → Cpu.returnSingle scratch fuel s₂ = some s') ∧
      Resumes before s₁.continuation before.control before.sp s' := by
  have hfp₁ := h.fp
  have hframed : Framed before s₂ .effect := by
    have habove := hleaves.above
    constructor
    · apply h.saved.stay le_rfl
      intro i hi
      exact hleaves.below i (by omega)
    · rw [hleaves.fp]
      exact h.fp
    · rw [hleaves.fp]
      exact h.fp_le
    · rw [hleaves.linkage, hleaves.fp]
      exact h.linkage
    · omega
  have hframe : s₂.returnSingleFrame scratch = s₂.returnFrame := by
    rw [Cpu.returnSingleFrame, hframed.valueDisposition]
  have hback := hframed.back
  refine ⟨s₂.returnFrame, ?_, ?_⟩
  · intro fuel hfuel
    obtain ⟨n, rfl⟩ : ∃ n, fuel = n + 1 := ⟨fuel - 1, by omega⟩
    unfold Cpu.returnSingle
    rw [hframed.cleanupBits, hframed.valueDisposition, hframe, hback.fp, if_neg (by omega),
      if_neg (by decide)]
  · constructor
    · simp only [Cpu.returnFrame]
      rw [hframed.valueDisposition, if_neg (by decide)]
      exact hleaves.continuation
    · exact hback.fp
    · rw [hback.lp, hback.fp, hback.control, hlp]
    · exact hback.control
    · exact hback.continuation
    · exact hframed.returnFrame_sp
    · exact hback.below

/-! ### Before an instruction -/

theorem Saved.pushExtra {before s : Cpu} (h : Saved before s) (hsp : before.sp + 2 ≤ s.sp)
    (extra : Option LispObj) :
    Saved before (s.pushExtra extra) ∧ s.sp ≤ (s.pushExtra extra).sp ∧
      (s.pushExtra extra).sp ≤ s.sp + 1 := by
  cases extra with
  | none => exact ⟨h, le_rfl, by simp [Cpu.pushExtra]⟩
  | some extra =>
      refine ⟨h.push hsp _, ?_, le_rfl⟩
      simp [Cpu.pushExtra, Cpu.pushObject]

/-- The frame of a trap saves the registers over an untouched stack. -/
theorem Saved.pushTrap (s : Cpu) (index : Integer) (extra1 extra2 : Option LispObj) :
    Saved s (s.pushTrap index extra1 extra2) ∧ s.sp + 4 ≤ (s.pushTrap index extra1 extra2).sp ∧
      (s.pushTrap index extra1 extra2).sp ≤ s.sp + 6 := by
  have hsp := s.pushFrame_sp
  have hfixnum : Saved s (s.pushFrame.pushFixnum index) :=
    (Saved.pushFrame s).push (le_of_eq hsp.symm) _
  have hpc : Saved s ((s.pushFrame.pushFixnum index).pushObject s.pc) := by
    apply hfixnum.push
    simp only [Cpu.pushFixnum, Cpu.push_sp]
    omega
  have hsp' : ((s.pushFrame.pushFixnum index).pushObject s.pc).sp = s.sp + 4 := by
    simp only [Cpu.pushFixnum, Cpu.pushObject, Cpu.push_sp]
    omega
  obtain ⟨hextra1, hle1, hge1⟩ := hpc.pushExtra (by omega) extra1
  obtain ⟨hextra2, hle2, hge2⟩ := hextra1.pushExtra (by omega) extra2
  refine ⟨hextra2, ?_, ?_⟩
  · change _ ≤ ((((s.pushFrame.pushFixnum index).pushObject s.pc).pushExtra extra1).pushExtra
      extra2).sp
    omega
  · change ((((s.pushFrame.pushFixnum index).pushObject s.pc).pushExtra extra1).pushExtra
      extra2).sp ≤ _
    omega

theorem takePreTrap_framed {s s₁ : Processor} {extra1 extra2 : Option LispObj}
    (hroom : s.restartsp + 8 ≤ s.stackCacheLimit) (hle : s.fp ≤ s.restartsp + 1)
    (hsize : s.restartsp + 1 - s.fp < 256)
    (h : takePreTrap memoryReadData index extra1 extra2 s = some s₁) :
    Framed { s.toCpu with sp := s.restartsp } s₁.toCpu .effect ∧ s₁.continuation = s.pc := by
  unfold takePreTrap at h
  dsimp only at h
  rw [if_neg (by omega)] at h
  obtain ⟨cpu, hcpu, rfl⟩ := Option.map_eq_some_iff.mp h
  obtain ⟨control, pc, rfl, hlinkage⟩ := Cpu.enterTrap_some hcpu
  obtain ⟨hsaved, hlow, hhigh⟩ :=
    Saved.pushTrap { s.toCpu with sp := s.restartsp } index extra1 extra2
  dsimp only at *
  refine ⟨?_, rfl⟩
  constructor
  · exact hsaved.stay le_rfl fun i _ => rfl
  · rfl
  · exact hle
  · dsimp only
    rw [hlinkage, linkage_trapControl (by omega) (by omega) (by omega) (by omega)]
  · dsimp only
    omega

/-! ### After an instruction -/

/-- Words below the operands are not moved. -/
theorem moveOperands_below (stack : Int → LispObj) (sp : Int) (arity : Nat) {i : Int}
    (hi : i ≤ sp - arity) : moveOperands stack sp arity i = stack i := by
  unfold moveOperands
  induction arity with
  | zero => rfl
  | succ arity ih =>
      rw [List.range_succ, List.foldl_append, List.foldl_cons, List.foldl_nil,
        Function.update_of_ne (by omega)]
      exact ih (by omega)

theorem takePostTrap_framed {s s₁ : Processor} {arity : Nat} {nextpc : LispObj}
    (hroom : s.sp + 8 ≤ s.stackCacheLimit) (hle : s.fp ≤ s.sp - arity + 1)
    (hsize : s.sp - arity + 1 - s.fp < 256) (harity : arity < 252)
    (h : takePostTrap memoryReadData index arity nextpc s = some s₁) :
    Framed { s.toCpu with sp := s.sp - arity, control := savedControl s.control } s₁.toCpu
      .effect ∧ s₁.continuation = nextpc := by
  unfold takePostTrap at h
  dsimp only at h
  rw [if_neg (by omega)] at h
  obtain ⟨cpu, hcpu, rfl⟩ := Option.map_eq_some_iff.mp h
  obtain ⟨control, pc, rfl, hlinkage⟩ := Cpu.enterTrap_some hcpu
  dsimp only at *
  refine ⟨?_, rfl⟩
  have hfp : s.sp - ((arity : Int) - 1) = s.sp - arity + 1 := by ring
  constructor
  · constructor
    · intro i hi
      dsimp only at hi ⊢
      rw [Function.update_of_ne (by omega), Function.update_of_ne (by omega),
        Function.update_of_ne (by omega), Function.update_of_ne (by omega)]
      exact moveOperands_below _ _ _ hi
    · dsimp only
      rw [hfp, Function.update_of_ne (by omega), Function.update_of_ne (by omega),
        Function.update_of_ne (by omega), Function.update_self]
    · dsimp only
      rw [hfp, Function.update_of_ne (by omega), Function.update_of_ne (by omega),
        show s.sp - arity + 2 = s.sp - arity + 1 + 1 by ring, Function.update_self]
  · exact hfp
  · dsimp only
    omega
  · dsimp only
    rw [hlinkage, linkage_trapControl (by omega) (by omega) (by omega) (by omega)]
  · dsimp only
    omega

theorem argumentSize_savedControl (control : Integer) :
    readControlArgumentSize (savedControl control) = readControlArgumentSize control := by
  unfold savedControl
  split
  · exact argumentSize_writeTracePending control 1
  · rfl

theorem exceptionOperand_same (ei : ExceptionInfo) (instruction : Integer) (op2 : LispObj)
    (place : Int) (s : Processor) :
    (exceptionOperand ei instruction op2 place s).fp = s.fp ∧
      (exceptionOperand ei instruction op2 place s).lp = s.lp ∧
      (exceptionOperand ei instruction op2 place s).control = s.control ∧
      (exceptionOperand ei instruction op2 place s).continuation = s.continuation ∧
      ∀ i, i ≤ s.restartsp →
        (exceptionOperand ei instruction op2 place s).stack i = s.stack i := by
  unfold exceptionOperand
  dsimp only
  split
  · exact ⟨rfl, rfl, rfl, rfl, fun _ _ => rfl⟩
  · split
    · exact ⟨rfl, rfl, rfl, rfl, fun _ hi => Cpu.push_stack_le _ _ hi⟩
    · split
      · exact ⟨rfl, rfl, rfl, rfl, fun _ hi => Cpu.push_stack_le _ _ hi⟩
      · exact ⟨rfl, rfl, rfl, rfl, fun _ _ => rfl⟩

/-! ### Every trap -/

theorem takePreTrap_transparent (s : Processor) (extra1 extra2 : Option LispObj)
    (hfp : 0 ≤ s.fp) (hlp : s.lp = s.fp + readControlArgumentSize s.control)
    (hroom : s.restartsp + 8 ≤ s.stackCacheLimit) (hle : s.fp ≤ s.restartsp + 1)
    (hsize : s.restartsp + 1 - s.fp < 256) :
    Transparent s.toCpu (takePreTrap memoryReadData index extra1 extra2 s) s.pc s.control
      s.restartsp := by
  intro s₁ htaken s₂ scratch hleaves
  obtain ⟨hframed, hpc⟩ := takePreTrap_framed hroom hle hsize htaken
  obtain ⟨s', hs', hresumes⟩ := hframed.resumes hfp hlp hleaves scratch
  rw [hpc] at hresumes
  exact ⟨s', hs', hresumes.pc, hresumes.fp, hresumes.lp, hresumes.control, hresumes.continuation,
    hresumes.sp, hresumes.below⟩

theorem takePostTrap_transparent (s : Processor) {arity : Nat} (nextpc : LispObj)
    (hfp : 0 ≤ s.fp) (hlp : s.lp = s.fp + readControlArgumentSize s.control)
    (hroom : s.sp + 8 ≤ s.stackCacheLimit) (hle : s.fp ≤ s.sp - arity + 1)
    (hsize : s.sp - arity + 1 - s.fp < 256) (harity : arity < 252) :
    Transparent s.toCpu (takePostTrap memoryReadData index arity nextpc s) nextpc
      (savedControl s.control) (s.sp - arity) := by
  intro s₁ htaken s₂ scratch hleaves
  obtain ⟨hframed, hpc⟩ := takePostTrap_framed hroom hle hsize harity htaken
  obtain ⟨s', hs', hresumes⟩ := hframed.resumes hfp (by
    dsimp only
    rw [argumentSize_savedControl]
    exact hlp) hleaves scratch
  rw [hpc] at hresumes
  exact ⟨s', hs', hresumes.pc, hresumes.fp, hresumes.lp, hresumes.control, hresumes.continuation,
    hresumes.sp, hresumes.below⟩

/-- Room for the trap frame above `top`, and a caller frame that its field holds. -/
structure Room (s : Processor) (top base : Int) : Prop where
  scroll : top + 8 ≤ s.stackCacheLimit
  fp_le : s.fp ≤ base + 1
  frameSize : base + 1 - s.fp < 256

/-- **Traps are transparent** where the stack cache does not scroll: the program goes on
with its registers, at the trapped instruction or behind it without its operands.  A
trap behind an instruction that is traced leaves the trace pending. -/
theorem traps_transparent (memoryReadData : Integer → LispObj) (index : Integer) (s : Processor)
    (hfp : 0 ≤ s.fp) (hlp : s.lp = s.fp + readControlArgumentSize s.control) :
    (∀ extra1 extra2, Room s s.restartsp s.restartsp →
      Transparent s.toCpu (takePreTrap memoryReadData index extra1 extra2 s) s.pc s.control
        s.restartsp) ∧
    (∀ (arity : Nat) nextpc, arity < 252 → Room s s.sp (s.sp - arity) →
      Transparent s.toCpu (takePostTrap memoryReadData index arity nextpc s) nextpc
        (savedControl s.control) (s.sp - arity)) ∧
    (∀ ei instruction op2 place nextpc s', s' = exceptionOperand ei instruction op2 place s →
      ei.arity < 252 → Room s' s'.sp (s'.sp - ei.arity) →
      Transparent s'.toCpu
        (takeInstructionException memoryReadData ei instruction op2 place nextpc s) nextpc
        (savedControl s.control) (s'.sp - ei.arity)) := by
  refine ⟨?_, ?_, ?_⟩
  · intro extra1 extra2 hroom
    exact takePreTrap_transparent s extra1 extra2 hfp hlp hroom.scroll hroom.fp_le
      hroom.frameSize
  · intro arity nextpc harity hroom
    exact takePostTrap_transparent s nextpc hfp hlp hroom.scroll hroom.fp_le hroom.frameSize
      harity
  · intro ei instruction op2 place nextpc s' hs' harity hroom
    obtain ⟨hfp', hlp', hcontrol', -, -⟩ := exceptionOperand_same ei instruction op2 place s
    rw [← hs'] at hfp' hlp' hcontrol'
    unfold takeInstructionException
    dsimp only
    rw [← hs', ← hcontrol']
    apply takePostTrap_transparent s' nextpc _ _ hroom.scroll hroom.fp_le hroom.frameSize harity
    · omega
    · rw [hlp', hfp', hcontrol']
      exact hlp

/-- A processor in a frame from `fp` to `sp`, where every vector entry is a PC. -/
def sampleProcessor (fp lp sp : Int) (control : Integer) : Processor where
  stack := fun _ => objectNIL
  sp := sp
  fp := fp
  lp := lp
  pc := ⟨typeEvenPC, 0x1000⟩
  continuation := ⟨typeEvenPC, 0x2000⟩
  control := control
  stackCacheLimit := 896
  restartsp := sp
  stackCacheBase := 0xF8000000
  memory := fun _ => objectNIL

def sampleRead : Integer → LispObj := fun _ => ⟨typeEvenPC, 0x3000⟩

theorem traps_transparent_sample :
    Transparent (sampleProcessor 8 10 12 2).toCpu
      (takePreTrap sampleRead 0xA40 (some objectNIL) none (sampleProcessor 8 10 12 2))
      ⟨typeEvenPC, 0x1000⟩ 2 12 :=
  (traps_transparent sampleRead 0xA40 (sampleProcessor 8 10 12 2) (by decide) (by decide)).1 _ _
    (by constructor <;> decide)

theorem Leaves.refl {s : Cpu} (h : s.fp + 1 ≤ s.sp) : Leaves s s :=
  ⟨rfl, rfl, rfl, fun _ _ => rfl, h⟩

/-- A traced instruction, a trap frame that makes the stack cache scroll, a frame of more
than 255 words and locals that are not where the control register says: the program
does not go on as it was. -/
theorem traps_seen :
    ¬ Transparent (sampleProcessor 8 10 12 0x20000002).toCpu
        (takePostTrap sampleRead 0x800 1 ⟨typeOddPC, 0x1000⟩
          (sampleProcessor 8 10 12 0x20000002)) ⟨typeOddPC, 0x1000⟩ 0x20000002 11 ∧
      ¬ Transparent (sampleProcessor 800 802 890 2).toCpu
        (takePreTrap sampleRead 0xA40 none none (sampleProcessor 800 802 890 2))
        ⟨typeEvenPC, 0x1000⟩ 2 890 ∧
      ¬ Transparent (sampleProcessor 8 10 308 2).toCpu
        (takePreTrap sampleRead 0xA40 none none (sampleProcessor 8 10 308 2))
        ⟨typeEvenPC, 0x1000⟩ 2 308 ∧
      ¬ Transparent (sampleProcessor 8 11 12 2).toCpu
        (takePreTrap sampleRead 0xA40 none none (sampleProcessor 8 11 12 2))
        ⟨typeEvenPC, 0x1000⟩ 2 12 := by
  refine ⟨?_, ?_, ?_, ?_⟩
  · intro h
    obtain ⟨s', hs', hresumes⟩ := h _ rfl _ objectNIL (Leaves.refl (by decide))
    have hcontrol := congrArg (Option.map Cpu.control) (hs' 1 (by decide))
    rw [Option.map_some, hresumes.control] at hcontrol
    exact absurd hcontrol (by decide)
  · -- The handler has pushed words up to 1000.
    intro h
    obtain ⟨s', hs', hresumes⟩ := h _ rfl
      { ((takePreTrap sampleRead 0xA40 none none (sampleProcessor 800 802 890 2)).get rfl).toCpu with
        sp := 1000 } objectNIL ⟨rfl, rfl, rfl, fun _ _ => rfl, by decide⟩
    have hcontrol := congrArg (Option.map Cpu.control) (hs' 1 (by decide))
    rw [Option.map_some, hresumes.control] at hcontrol
    exact absurd hcontrol (by decide)
  · intro h
    obtain ⟨s', hs', hresumes⟩ := h _ rfl _ objectNIL (Leaves.refl (by decide))
    have hfp := congrArg (Option.map Cpu.fp) (hs' 1 (by decide))
    rw [Option.map_some, hresumes.fp] at hfp
    exact absurd hfp (by decide)
  · intro h
    obtain ⟨s', hs', hresumes⟩ := h _ rfl _ objectNIL (Leaves.refl (by decide))
    have hlp := congrArg (Option.map Cpu.lp) (hs' 1 (by decide))
    rw [Option.map_some, hresumes.lp] at hlp
    exact absurd hlp (by decide)

end Ivory
