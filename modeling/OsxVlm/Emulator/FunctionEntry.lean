import Mathlib
import OsxVlm.Emulator.Lists

/-!
# Function entry

The entry instruction of a function looks at how many arguments its frame has, spreads
the list of an apply over the stack until that is exhausted or the maximum is reached, and looks
again.  The sizes in the instruction and in the control register count the two
frame words.
-/

namespace Ivory

def readControlApply (c : Integer) : Nat := ldb 1 17 c
def writeControlApply (c : Integer) (x : Int) : Integer := dpb x 1 17 c

/-- `SetTagCdr`. -/
def setTagCdr (tag : Tag) (cdr : Nat) : Tag := tag ||| BitVec.ofNat 8 (cdr <<< 6)

/-- How an entry instruction ends. -/
inductive EntryOutcome where
  | enter (s : Processor)
  | illegalOperand
  | pullApplyArgsTrap (count : Nat) (s : Processor)

namespace Processor

def push (s : Processor) (o : LispObj) : Processor := { s with toCpu := s.toCpu.push o }

def inStackCache (s : Processor) (o : LispObj) : Prop := (o.data - s.stackCacheBase).toNat < 4 * 256

instance (s : Processor) (o : LispObj) : Decidable (s.inStackCache o) := by
  unfold inStackCache
  infer_instance

def stackIndex (s : Processor) (o : LispObj) : Int := ((o.data - s.stackCacheBase).toNat : Int)

/-! ### The instructions -/

/-- The end of `PullApplyArgsQuickly` where the list is exhausted with its element `i`. -/
def exhausted (s : Processor) (supplied i : Nat) : Processor :=
  { s with
    control := writeControlArgumentSize (writeControlApply s.control 0) (supplied + i + 1)
    lp := s.lp + (i + 1) }

/-- Its label `trap`, with what it returns. -/
def pullTrap (s : Processor) (supplied count i : Nat) (rest : Int) : Processor × Nat :=
  let t := s.push ⟨typeList, s.stackAddress rest⟩
  ({ t with
      control := writeControlArgumentSize s.control (supplied + i)
      lp := s.lp + i }, count - i)

/-- The loop of `PullApplyArgsQuickly`, with `n` of its `count` rounds to go. -/
def pullLoop (supplied count : Nat) : Nat → Processor → Int → Processor × Nat
  | 0, s, rest => s.pullTrap supplied count count rest
  | n + 1, s, rest =>
      let i := count - (n + 1)
      let rest := if s.stackCacheLimit ≤ s.sp then rest - 256 else rest
      let s := if s.stackCacheLimit ≤ s.sp then s.stackCacheScrollUp else s
      let t := s.push (s.stack rest).cdrNext
      match tagCdr (s.stack rest).tag with
      | 0 => pullLoop supplied count n t (rest + 1)
      | 1 => (t.exhausted supplied i, 0)
      | 2 =>
          let tail := t.stack (rest + 1)
          if tagType tail.tag = typeNIL then (t.exhausted supplied i, 0)
          else if tagType tail.tag = typeList ∧ t.inStackCache tail then
            -- the break leaves the inner switch only
            t.pullTrap supplied count i (t.stackIndex tail)
          else
            ({ t.push tail.cdrNext with
                control := writeControlArgumentSize t.control (supplied + i + 1)
                lp := t.lp + (i + 1) }, count - (i + 1))
      | _ => s.pullTrap supplied count i rest

def dropTop (s : Processor) : Processor := { s with sp := s.sp - 1 }

def pullApplyArgsQuickly (s : Processor) (count : Nat) : Processor × Nat :=
  pullLoop (readControlArgumentSize s.control) count count s.dropTop (s.stackIndex (s.stack s.sp))

/-- The pc moves on by some words. -/
def advance (s : Processor) (n : Int) : Processor :=
  { s with pc := ⟨s.pc.tag, s.pc.data + BitVec.ofInt 32 n⟩ }

/-- NIL is dropped from the top of the stack, and nothing is left to apply. -/
def applyNil (s : Processor) : Processor :=
  { s.dropTop with control := writeControlApply s.control 0 }

def setCdr (s : Processor) (i : Int) (cdr : Nat) : Processor :=
  { s with
    stack := Function.update s.stack i ⟨setTagCdr (s.stack i).tag cdr, (s.stack i).data⟩ }

/-- The list on the top of the stack is pulled, in the cache, before another look. -/
def pullApply (s : Processor) (count : Nat) (retry : Processor → Option EntryOutcome) :
    Option EntryOutcome :=
  if tagType (s.stack s.sp).tag = typeList then
    let (s, i) := if s.inStackCache (s.stack s.sp) then s.pullApplyArgsQuickly count else (s, count)
    if i ≠ 0 then some (.pullApplyArgsTrap i s) else retry s
  else some (.pullApplyArgsTrap count s)

/-- `EntryRestAccepted`, where nothing is left to apply. -/
def restAccepted (minimum maximum : Nat) (s : Processor) : EntryOutcome :=
  let supplied := readControlArgumentSize s.control
  if maximum < supplied then
    .enter (((s.setCdr s.sp 1).push ⟨typeList, s.stackAddress (s.fp + maximum)⟩).advance
      (maximum - minimum + 2))
  else if supplied < minimum then .illegalOperand
  else .enter (s.advance (supplied - minimum + 1))

def entryRestAccepted (operand : Integer) : Nat → Processor → Option EntryOutcome
  | 0, _ => none
  | fuel + 1, s =>
      let minimum := ldb 8 0 operand
      let maximum := ldb 8 8 operand
      let supplied := readControlArgumentSize s.control
      if readControlApply s.control ≠ 0 then
        if tagType (s.stack s.sp).tag = typeNIL then some (restAccepted minimum maximum s.applyNil)
        else if maximum < supplied then
          let t := ((s.setCdr s.sp 1).setCdr (s.sp - 1) 2).push
            ⟨typeList, s.stackAddress (s.fp + maximum)⟩
          some (.enter ({ t with
            lp := s.lp + 1
            control := writeControlArgumentSize s.control (1 + supplied) }.advance
              (maximum - minimum + 2)))
        else if supplied < maximum then
          s.pullApply (maximum - supplied) (entryRestAccepted operand fuel)
        else some (.enter (s.advance (supplied - minimum + 2)))
      else some (restAccepted minimum maximum s)

/-- `EntryRestNotAccepted`, where nothing is left to apply. -/
def restNotAccepted (minimum maximum : Nat) (s : Processor) : EntryOutcome :=
  let supplied := readControlArgumentSize s.control
  if minimum ≤ supplied ∧ supplied ≤ maximum then .enter (s.advance (supplied - minimum + 1))
  else .illegalOperand

def entryRestNotAccepted (operand : Integer) : Nat → Processor → Option EntryOutcome
  | 0, _ => none
  | fuel + 1, s =>
      let minimum := ldb 8 0 operand
      let maximum := ldb 8 8 operand
      let supplied := readControlArgumentSize s.control
      if readControlApply s.control ≠ 0 then
        if tagType (s.stack s.sp).tag = typeNIL then
          some (restNotAccepted minimum maximum s.applyNil)
        else if maximum ≤ supplied then some .illegalOperand
        else s.pullApply (maximum - supplied) (entryRestNotAccepted operand fuel)
      else some (restNotAccepted minimum maximum s)

/-! ### Frames and lists in the stack cache -/

/-- A cell of a list: its element, and whether it is cdr-normal with more of the list behind. -/
structure StackCell where
  element : LispObj
  branches : Bool

/-- A list in the words of the stack cache below `top`, from this word on. -/
inductive OnStack (s : Processor) (top : Int) : Int → List StackCell → Prop
  | cdrNil {i : Int} (hi : i < top) (h : tagCdr (s.stack i).tag = 1) :
      OnStack s top i [⟨(s.stack i).cdrNext, false⟩]
  | cdrNext {i : Int} {cs : List StackCell} (hi : i < top) (h : tagCdr (s.stack i).tag = 0)
      (tail : OnStack s top (i + 1) cs) : OnStack s top i (⟨(s.stack i).cdrNext, false⟩ :: cs)
  | normalNil {i : Int} (hi : i + 1 < top) (h : tagCdr (s.stack i).tag = 2)
      (hnil : tagType (s.stack (i + 1)).tag = typeNIL) :
      OnStack s top i [⟨(s.stack i).cdrNext, false⟩]
  | normalList {i : Int} {cs : List StackCell} (hi : i + 1 < top)
      (h : tagCdr (s.stack i).tag = 2)
      (hlist : tagType (s.stack (i + 1)).tag = typeList)
      (hcache : s.inStackCache (s.stack (i + 1)))
      (tail : OnStack s top (s.stackIndex (s.stack (i + 1))) cs) :
      OnStack s top i (⟨(s.stack i).cdrNext, true⟩ :: cs)

/-- A list object whose cells are in the stack cache below `top`. -/
structure ListBelow (s : Processor) (top : Int) (o : LispObj) (cs : List StackCell) : Prop where
  isList : tagType o.tag = typeList
  inCache : s.inStackCache o
  cells : s.OnStack top (s.stackIndex o) cs

/-- The arguments of a frame, as pushes store them. -/
structure Frame (s : Processor) (args : List LispObj) : Prop where
  words : ∀ (k : Nat) a, args[k]? = some a → s.stack (s.fp + 2 + k) = a
  pushed : ∀ a ∈ args, a.cdrNext = a
  size : readControlArgumentSize s.control = args.length + 2
  lp : s.lp = s.fp + 2 + args.length
  bottom : 0 ≤ s.fp

/-- Nothing is left to apply. -/
structure Plain (s : Processor) (args : List LispObj) : Prop extends s.Frame args where
  apply : readControlApply s.control = 0
  sp : s.sp = s.fp + 1 + args.length

/-- A list with elements is left to apply, on the top of the stack. -/
structure Applied (s : Processor) (args : List LispObj) (cs : List StackCell) : Prop
    extends s.Frame args where
  apply : readControlApply s.control ≠ 0
  sp : s.sp = s.fp + 2 + args.length
  list : s.ListBelow s.sp (s.stack s.sp) cs

/-- A frame at the entry of its function; NIL may be left to apply. -/
inductive EntryFrame (s : Processor) (args : List LispObj) : List StackCell → Prop
  | plain (h : s.Plain args) : EntryFrame s args []
  | applyNil (h : s.applyNil.Plain args) (apply : readControlApply s.control ≠ 0)
      (hnil : tagType (s.stack s.sp).tag = typeNIL) : EntryFrame s args []
  | applied {cs : List StackCell} (h : s.Applied args cs) : EntryFrame s args cs

/-! ### What an entry is to do -/

/-- All arguments lie on the stack, and the entry for their number is taken. -/
structure Spread (s t : Processor) (all : List LispObj) (minimum : Nat) : Prop
    extends t.Plain all where
  fp : t.fp = s.fp
  pc : t.pc = (s.advance (all.length - minimum + 1)).pc

/-- The arguments up to the maximum lie on the stack, with the list of the others on its top. -/
structure Rest (s t : Processor) (all : List LispObj) (minimum maximum : Nat) : Prop where
  words : ∀ (k : Nat) a, (all.take maximum)[k]? = some a → t.stack (t.fp + 2 + k) = a
  list : ∃ cs, t.ListBelow t.sp (t.stack t.sp) cs ∧ cs.map StackCell.element = all.drop maximum
  lp : t.lp = t.sp
  fp : t.fp = s.fp
  pc : t.pc = (s.advance (maximum - minimum + 2)).pc

def AcceptedRight (s : Processor) (all : List LispObj) (minimum maximum : Nat) :
    EntryOutcome → Prop
  | .illegalOperand => all.length < minimum
  | .enter t =>
      minimum ≤ all.length ∧
        if all.length ≤ maximum then s.Spread t all minimum else s.Rest t all minimum maximum
  | .pullApplyArgsTrap _ _ => False

def NotAcceptedRight (s : Processor) (all : List LispObj) (minimum maximum : Nat) :
    EntryOutcome → Prop
  | .illegalOperand => ¬ (minimum ≤ all.length ∧ all.length ≤ maximum)
  | .enter t => minimum ≤ all.length ∧ all.length ≤ maximum ∧ s.Spread t all minimum
  | .pullApplyArgsTrap _ _ => False

/-- The rounds of the loop: it ends with the list, and at a cell that branches. -/
def rounds : Nat → List StackCell → Nat
  | 0, _ => 0
  | _ + 1, [] => 0
  | n + 1, c :: cs => if c.branches then 1 else rounds n cs + 1

/-- No cell that is pulled branches. -/
def Direct (count : Nat) (cs : List StackCell) : Prop := ∀ c ∈ cs.take count, c.branches = false

end Processor

end Ivory
