import Mathlib
import OsxVlm.Emulator.InstructionCache
import OsxVlm.Library.Simulation

/-!
# The instruction sequencer

The sequencer goes from line to line: an instruction ends with the next one, whose line the
cache has linked, with a branch, or with another pc that is looked up.  Beside it stands a
sequencer that decodes the word at every pc anew.  What an instruction does to the rest of
the processor is a parameter.
-/

namespace Ivory

/-- What an instruction finds in its line. -/
structure Instruction where
  code : Nat
  operand : Integer
  instruction : Integer
  nextPc : PC

/-- How an instruction ends: it goes to the label of this name, or the emulator halts. -/
inductive Ending (σ : Type) where
  | nextInstruction (s : σ)
  | branchTaken (s : σ)
  | instructionCacheLookup (s : σ) (pc : PC)
  | halt

/-- The rest of the processor.  A trap leads to a pc or halts. -/
structure Emulation (σ : Type) where
  memory : σ → Integer → LispObj
  execute : σ → PC → Instruction → Ending σ
  unimplementedInstruction : σ → PC → Option (σ × PC)
  illegalOperand : σ → PC → Option (σ × PC)

variable {σ : Type}

/-- `BranchTaken`, with an operand other than 0. -/
def PC.branchTaken (pc : PC) (operand : Integer) : PC :=
  let data := pc.data + operand.sshiftRight 1
  if pc.odd then
    if operand &&& 1 = 1 then ⟨false, data + 1⟩ else ⟨true, data⟩
  else
    if operand &&& 1 = 1 then ⟨true, data⟩ else ⟨false, data⟩

/-- A dispatch on the code.  What comes after is the pc that is looked up, if any, or else the
next instruction. -/
def Emulation.dispatch (e : Emulation σ) (t : DecodeTables) (s : σ) (pc : PC) (i : Instruction) :
    Option (σ × Option PC) :=
  if i.code = t.illegalInstructionDecoder then
    (e.unimplementedInstruction s pc).map fun p => (p.1, some p.2)
  else
    match e.execute s pc i with
    | .nextInstruction s => some (s, none)
    | .branchTaken s =>
        if i.operand = 0 then (e.illegalOperand s pc).map fun p => (p.1, some p.2)
        else some (s, some (pc.branchTaken i.operand))
    | .instructionCacheLookup s pc => some (s, some pc)
    | .halt => none

/-- The state at `Dispatch`. -/
structure Sequencer (σ : Type) where
  state : σ
  cache : InstructionCache
  pc : PC
  cp : CachePointer

namespace Sequencer

variable (t : DecodeTables) (e : Emulation σ)

/-- The cache and the line when the dispatch is on an instruction: `InstructionCacheLookup`
goes back to `Dispatch`. -/
def instructionCacheLookup (q : Sequencer σ) : InstructionCache × Int :=
  match q.cp with
  | .line i => (q.cache, i)
  | .lookup =>
      if (q.cache (lookupLine q.pc)).pc = q.pc.data then (q.cache, lookupLine q.pc)
      else (instructionCacheMiss t (e.memory q.state) q.cache q.pc.data, lookupLine q.pc)

/-- The line of the instruction that comes. -/
def line (q : Sequencer σ) : InstructionCacheLine :=
  (q.instructionCacheLookup t e).1 (q.instructionCacheLookup t e).2

/-- One instruction. -/
def step (q : Sequencer σ) : Option (Sequencer σ) :=
  let line := q.line t e
  let cache := (q.instructionCacheLookup t e).1
  match e.dispatch t q.state q.pc ⟨line.code, line.operand, line.instruction, line.nextPc⟩ with
  | some (s, none) => some ⟨s, cache, line.nextPc, line.nextCp⟩
  | some (s, some pc) => some ⟨s, cache, pc, .lookup⟩
  | none => none

/-- The state before an instruction, its pc and what it was decoded to. -/
def executes (q : Sequencer σ) : σ × PC × Nat × Integer × Integer :=
  (q.state, q.pc, (q.line t e).code, (q.line t e).operand, (q.line t e).instruction)

end Sequencer

/-- The state of the sequencer without a cache. -/
structure Decoder (σ : Type) where
  state : σ
  pc : PC

namespace Decoder

variable (t : DecodeTables) (e : Emulation σ)

def word (d : Decoder σ) : LispObj := e.memory d.state d.pc.data

/-- One instruction, decoded from memory. -/
def step (d : Decoder σ) : Option (Decoder σ) :=
  let (code, operand, instruction) := decoded t (d.word e) d.pc.odd
  let next := successor (d.word e) d.pc
  match e.dispatch t d.state d.pc ⟨code, operand, instruction, next⟩ with
  | some (s, none) => some ⟨s, next⟩
  | some (s, some pc) => some ⟨s, pc⟩
  | none => none

def executes (d : Decoder σ) : σ × PC × Nat × Integer × Integer :=
  (d.state, d.pc, decoded t (d.word e) d.pc.odd)

end Decoder

/-! ### Runs while the code words do not change -/

/-- The lines that the cache has of code words are as a miss is to leave them. -/
def Coherent (t : DecodeTables) (code : Integer → LispObj) (R : Integer → Prop)
    (cache : InstructionCache) : Prop :=
  ∀ pc : PC, R pc.data → (cache (lookupLine pc)).pc = pc.data → LineRight t code cache pc

/-- A miss meets an operand that is not decoded only where the line has the operand 0. -/
def MissDecodes (t : DecodeTables) (code : Integer → LispObj) (R : Integer → Prop)
    (q : Sequencer σ) : Prop :=
  q.cp = .lookup → (q.cache (lookupLine q.pc)).pc ≠ q.pc.data →
    ∀ pc : PC, R pc.data → blockVma pc.data = blockVma q.pc.data →
      UndecodedReturn t (code pc.data) pc.odd → (q.cache (lookupLine pc)).operand = 0

/-- The words at which instructions are executed, which hold `code`. -/
structure InCode (e : Emulation σ) (code : Integer → LispObj) (R : Integer → Prop)
    (d : Decoder σ) : Prop where
  pc : R d.pc.data
  unchanged : ∀ a, R a → e.memory d.state a = code a

end Ivory
