import Mathlib
import OsxVlm.Emulator.Lists

/-!
# The instruction cache

A miss decodes a block of 32 words into 64 lines of the cache and links each of them to the
line of its successor.  The links are computed by adding to pointers, and those that may
leave the block are repaired afterwards.  A pointer to a line is its index; the tables of
the decoder are a parameter.
-/

namespace Ivory

/-- The decoders of operands. -/
inductive OperandDecoder where
  | none
  | unsigned8
  | signed8
  | unsigned10
  | unsigned12
  | fp
  | lp
  | sp
  | branch
  | return
  | entry
  deriving DecidableEq

structure DecodeTables where
  returnInstructionDecoder : Nat → Nat
  wordInstructionDecoder : Nat → Nat
  popInstructionDecoder : Nat → Nat
  packedInstructionDecoder : Nat → Nat × OperandDecoder
  illegalInstructionDecoder : Nat

/-- A pc, which is odd or even. -/
structure PC where
  odd : Bool
  data : Integer
  deriving DecidableEq

/-- A pointer to a line of the cache or to `InstructionCacheLookupCPRepresentation`. -/
inductive CachePointer where
  | line (i : Int)
  | lookup
  deriving DecidableEq

structure InstructionCacheLine where
  pc : Integer
  nextPc : PC
  code : Nat
  operand : Integer
  instruction : Integer
  nextCp : CachePointer

abbrev InstructionCache := Int → InstructionCacheLine

def packedInstructionP (tag : Tag) : Bool := tag &&& 0o60 = 0o60

namespace InstructionCacheLine

variable (t : DecodeTables)

def decodeSPOperand (i : Integer) (cp : InstructionCacheLine) : InstructionCacheLine :=
  let offset := i &&& 0o377
  if offset = 0 then { cp with code := t.popInstructionDecoder (ldb 8 10 i), operand := 0 }
  else { cp with operand := offset - 255 }

/-- An operand other than these leaves the line as it is. -/
def decodeReturnOperand (i : Integer) (cp : InstructionCacheLine) : InstructionCacheLine :=
  if i &&& 0o1777 = 0o1000 then { cp with code := t.returnInstructionDecoder 2, operand := 0 }
  else if i &&& 0o1777 = 0o1040 then { cp with code := t.returnInstructionDecoder 0, operand := 0 }
  else if i &&& 0o1777 = 0o1041 then { cp with code := t.returnInstructionDecoder 1, operand := 0 }
  else cp

def decode (i : Integer) (cp : InstructionCacheLine) : OperandDecoder → InstructionCacheLine
  | .none => { cp with operand := 0 }
  | .unsigned8 => { cp with operand := i &&& 0o377 }
  | .signed8 => { cp with operand := (i.setWidth 8).signExtend 32 }
  | .unsigned10 => { cp with operand := i &&& 0o1777 }
  | .unsigned12 => { cp with operand := i &&& 0o7777 }
  | .fp => { cp with operand := i &&& 0o377 }
  | .lp => { cp with operand := i &&& 0o377 }
  | .sp => cp.decodeSPOperand t i
  | .branch => { cp with operand := (i.setWidth 10).signExtend 32 }
  | .return => cp.decodeReturnOperand t i
  | .entry => { cp with operand := dpb (ldb 8 18 i) 8 8 (i &&& 0o377) }

/-- A half of a packed word; the decoder is given `i`, which may be more than the half. -/
def packed (instruction i : Integer) (cp : InstructionCacheLine) : InstructionCacheLine :=
  let p := t.packedInstructionDecoder (instruction >>> 8).toNat
  ({ cp with
    instruction := instruction
    code := p.1 }.decode t i p.2)

def whole (code : Nat) (operand : Integer) (cp : InstructionCacheLine) : InstructionCacheLine :=
  { cp with
    code := code
    operand := operand
    instruction := 0 }

def illegal (cp : InstructionCacheLine) : InstructionCacheLine :=
  cp.whole t.illegalInstructionDecoder 0

/-! ### One word -/

/-- The half-word instructions of a word. -/
def evenHalf (word : LispObj) : Integer := word.data &&& 0o777777
def oddHalf (word : LispObj) : Integer :=
  ((word.tag &&& 0o17).setWidth 32 <<< 14) ||| BitVec.ofNat 32 (ldb 14 18 word.data)

/-- `DecodePackedWord` is for every word with the cdr code 0. -/
def isPackedWord (word : LispObj) : Bool := tagCdr word.tag = 0 || packedInstructionP word.tag

/-- The code, the operand and the instruction of the line for this half of the word. -/
def decodeHalf (word : LispObj) (odd : Bool) (cp : InstructionCacheLine) : InstructionCacheLine :=
  if tagCdr word.tag = 1 then cp.illegal t
  else if isPackedWord word then
    if odd then cp.packed t (oddHalf word) (oddHalf word)
    else cp.packed t (evenHalf word) word.data
  else if odd then cp.illegal t
  else cp.whole (t.wordInstructionDecoder (tagType word.tag).toNat) word.data

/-- The links of the even line, whose index is `evenCp`, and of the odd one; they are left as
they are at a word with the cdr code 1. -/
def link (word : LispObj) (vma : Integer) (evenCp : Int) (odd : Bool)
    (cp : InstructionCacheLine) : InstructionCacheLine :=
  match tagCdr word.tag, odd with
  | 0, false => { cp with nextPc := ⟨true, vma⟩, nextCp := .line (evenCp + 1) }
  | 0, true => { cp with nextPc := ⟨false, vma + 1⟩, nextCp := .line (evenCp + 2) }
  | 3, false => { cp with nextPc := ⟨false, vma + 1⟩, nextCp := .line (evenCp + 2) }
  | 3, true => { cp with nextPc := ⟨false, vma + 2⟩, nextCp := .line (evenCp + 4) }
  | 2, false => { cp with nextPc := ⟨true, vma - 1⟩, nextCp := .line (evenCp + 1 - 2) }
  | 2, true => { cp with nextPc := ⟨false, vma⟩, nextCp := .lookup }
  | _, _ => cp

/-- What the loop body makes of one of the two lines. -/
def fill (word : LispObj) (vma : Integer) (evenCp : Int) (odd : Bool)
    (cp : InstructionCacheLine) : InstructionCacheLine :=
  (({ cp with pc := vma } : InstructionCacheLine).link word vma evenCp odd).decodeHalf t word odd

end InstructionCacheLine

/-! ### A miss -/

/-- One word of the block fills two lines. -/
def fillWord (t : DecodeTables) (word : LispObj) (vma : Integer) (evenCp : Int)
    (cache : InstructionCache) : InstructionCache :=
  let cache := Function.update cache evenCp ((cache evenCp).fill t word vma evenCp false)
  Function.update cache (evenCp + 1) ((cache (evenCp + 1)).fill t word vma evenCp true)

/-- The loop over the words below `boundVma`. -/
def fillLoop (t : DecodeTables) (memory : Integer → LispObj) (boundVma : Integer) :
    Nat → Integer → Int → InstructionCache → InstructionCache
  | 0, _, _, cache => cache
  | n + 1, vma, evenCp, cache =>
      if vma < boundVma then
        fillLoop t memory boundVma n (vma + 1) (evenCp + 2)
          (fillWord t (memory vma) vma evenCp cache)
      else cache

/-- A line is made to look its successor up. -/
def forceLookup (i : Int) (errant : Integer → Bool) (cache : InstructionCache) :
    InstructionCache :=
  if errant (cache i).nextPc.data then
    Function.update cache i { cache i with nextCp := .lookup }
  else cache

def blockVma (vma : Integer) : Integer := vma &&& ~~~(31 : Integer)

/-- The first line of a block. -/
def blockCp (vma : Integer) : Int := (((blockVma vma <<< 1) &&& 2047).toNat : Int)

/-- `InstructionCacheMiss`; the block is read before the loop. -/
def instructionCacheMiss (t : DecodeTables) (memory : Integer → LispObj) (cache : InstructionCache)
    (vma : Integer) : InstructionCache :=
  let block := blockVma vma
  let cp := blockCp vma
  let bound := block + 32
  let cache := fillLoop t memory bound 32 block cp cache
  let cache := forceLookup cp (fun next => next < block) cache
  let cache := forceLookup (cp + 60) (fun next => bound ≤ next) cache
  let cache := forceLookup (cp + 61) (fun next => bound ≤ next) cache
  let cache := forceLookup (cp + 62) (fun next => bound ≤ next) cache
  forceLookup (cp + 63) (fun next => bound ≤ next) cache

/-! ### What a miss is to leave -/

/-- What decoding gives, from a line with nothing in it. -/
def decoded (t : DecodeTables) (word : LispObj) (odd : Bool) : Nat × Integer × Integer :=
  let line := InstructionCacheLine.decodeHalf t word odd ⟨0, ⟨false, 0⟩, 0, 0, 0, .lookup⟩
  (line.code, line.operand, line.instruction)

/-- The successor that the cdr code prescribes. -/
def successor (word : LispObj) (pc : PC) : PC :=
  match tagCdr word.tag, pc.odd with
  | 0, false => ⟨true, pc.data⟩
  | 0, true => ⟨false, pc.data + 1⟩
  | 3, false => ⟨false, pc.data + 1⟩
  | 3, true => ⟨false, pc.data + 2⟩
  | 2, false => ⟨true, pc.data - 1⟩
  | _, _ => ⟨false, pc.data⟩

/-- The line in which a pc is looked up. -/
def lookupLine (pc : PC) : Int :=
  (((pc.data <<< 1) &&& 2047).toNat : Int) + if pc.odd then 1 else 0

/-- The line of a pc carries what decoding gives, and leads to its successor: by a lookup, or
by the line that its block has for exactly that. -/
structure LineRight (t : DecodeTables) (memory : Integer → LispObj) (cache : InstructionCache)
    (pc : PC) : Prop where
  address : (cache (lookupLine pc)).pc = pc.data
  decoding : ((cache (lookupLine pc)).code, (cache (lookupLine pc)).operand,
    (cache (lookupLine pc)).instruction) = decoded t (memory pc.data) pc.odd
  nextPc : (cache (lookupLine pc)).code ≠ t.illegalInstructionDecoder →
    (cache (lookupLine pc)).nextPc = successor (memory pc.data) pc
  nextCp : (cache (lookupLine pc)).code ≠ t.illegalInstructionDecoder →
    (cache (lookupLine pc)).nextCp = .lookup ∨
      (cache (lookupLine pc)).nextCp = .line (lookupLine (successor (memory pc.data) pc)) ∧
        blockVma (successor (memory pc.data) pc).data = blockVma pc.data ∧
        (cache (lookupLine (successor (memory pc.data) pc))).pc =
          (successor (memory pc.data) pc).data

/-- The block of the address is neither at 0 nor at the very top. -/
def InnerBlock (vma : Integer) : Prop := blockVma vma ≠ 0 ∧ blockVma vma ≠ 0xFFFFFFE0

instance (vma : Integer) : Decidable (InnerBlock vma) := inferInstanceAs (Decidable (_ ∧ _))

/-- A miss leaves all lines of the block as they are to be. -/
def BlockRight (t : DecodeTables) (memory : Integer → LispObj) (vma : Integer)
    (cache : InstructionCache) : Prop :=
  ∀ pc : PC, blockVma pc.data = blockVma vma →
    LineRight t memory (instructionCacheMiss t memory cache vma) pc

/-- The half-word instruction of a packed word. -/
def halfOf (word : LispObj) (odd : Bool) : Integer :=
  if odd then InstructionCacheLine.oddHalf word else InstructionCacheLine.evenHalf word

/-- The operands that `DecodeReturnOperandFunction` decodes: for the top of the stack, NIL and T. -/
def KnownReturn (i : Integer) : Prop :=
  i &&& 0o1777 = 0o1000 ∨ i &&& 0o1777 = 0o1040 ∨ i &&& 0o1777 = 0o1041

instance (i : Integer) : Decidable (KnownReturn i) := inferInstanceAs (Decidable (_ ∨ _))

/-- A half-word instruction with another operand for it. -/
structure UndecodedReturn (t : DecodeTables) (word : LispObj) (odd : Bool) : Prop where
  cdr : tagCdr word.tag ≠ 1
  packed : InstructionCacheLine.isPackedWord word = true
  decoder : (t.packedInstructionDecoder (halfOf word odd >>> 8).toNat).2 = .return
  unknown : ¬ KnownReturn (halfOf word odd)

end Ivory
