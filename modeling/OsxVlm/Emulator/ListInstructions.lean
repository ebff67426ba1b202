import Mathlib
import OsxVlm.Emulator.Lists

/-!
# Lists in memory

A list is conses in memory, of any mixture of cdr codes and with any forwarding pointers
in between.  Car and Cdr walk it, and Member, Assoc and Rgetf find in it what is to be found,
as long as the result of a read is not left in a word that the read has still to visit.
-/

namespace Ivory

namespace ProcessorState

/-! ### What is in memory -/

/-- A read visits these cells and returns an object without a trap. -/
structure Reads (s : ProcessorState) (cycle : Cycle) (vma : Integer) (cells : List Integer)
    (final : Integer) (object : LispObj) : Prop where
  chain : s.Chain cycle (vma :: cells)
  last : (vma :: cells).getLast (List.cons_ne_nil _ _) = final
  value : s.plainOutcome cycle final = .value final object

/-- The rest of a list, by the cdr code of the word that the cdr cycle comes to, and the
cells that are read for it. -/
inductive Tail (s : ProcessorState) (vma : Integer) (word : LispObj) :
    LispObj → List Integer → Prop
  | cdrNil (h : tagCdr word.tag = 1) : Tail s vma word objectNIL []
  | cdrNext (h : tagCdr word.tag = 0) : Tail s vma word ⟨typeList, vma + 1⟩ []
  | cdrNormal {cells : List Integer} {final : Integer} {object : LispObj}
      (h : tagCdr word.tag = 2) (reads : s.Reads .dataRead (vma + 1) cells final object) :
      Tail s vma word object.cdrNext ((vma + 1) :: cells)

/-- A cons: its pointer, its car, the cells behind the first that are read for the car and for
the cdr code, and those that are read for the rest of the list. -/
structure ConsCell where
  object : LispObj
  car : LispObj
  carCells : List Integer
  cdrCells : List Integer
  tailCells : List Integer

def ConsCell.cells (c : ConsCell) : List Integer :=
  c.object.data :: (c.carCells ++ c.cdrCells ++ c.tailCells)

/-- The cons is in memory, with this rest. -/
structure Cons (s : ProcessorState) (c : ConsCell) (rest : LispObj) : Prop where
  isList : tagType c.object.tag = typeList
  car : ∃ final object, s.Reads .dataRead c.object.data c.carCells final object ∧
    object.cdrNext = c.car
  cdr : ∃ vma word, s.Reads .cdr c.object.data c.cdrCells vma word ∧
    s.Tail vma word rest c.tailCells

/-- The object is a proper list of these conses. -/
inductive Represents (s : ProcessorState) : LispObj → List ConsCell → Prop
  | nil {x : LispObj} (h : tagType x.tag = typeNIL) : Represents s x []
  | cons {c : ConsCell} {rest : LispObj} {cs : List ConsCell} (h : s.Cons c rest)
      (tail : Represents s rest cs) : Represents s c.object (c :: cs)

/-! ### What the instructions are to return -/

def headOf (cs : List ConsCell) : LispObj := (cs.head?.map ConsCell.car).getD objectNIL

/-- The first tail whose car is the key. -/
def memberOf (key : LispObj) (cs : List ConsCell) : LispObj :=
  ((cs.find? fun c => objectEqP c.car key).map fun c => c.object.cdrNext).getD objectNIL

/-- The first pair whose car is the key, where NIL has no car. -/
def assocOf (keyOf : LispObj → Option LispObj) (key : LispObj) (cs : List ConsCell) : LispObj :=
  (((cs.map ConsCell.car).find? fun pair => (keyOf pair).any (objectEqP · key))).getD objectNIL

/-- The cons of the value after the first key at an even position. -/
def getf (key : LispObj) : List ConsCell → Option ConsCell
  | indicator :: value :: cs => if objectEqP indicator.car key then some value else getf key cs
  | _ => none

/-- An element of an association list, with the car of a cons. -/
inductive PairKey (s : ProcessorState) (pair : LispObj) : Option LispObj → Prop
  | nil (h : tagType pair.tag = typeNIL) : PairKey s pair none
  | cons {cells : List Integer} {final : Integer} {object : LispObj}
      (h : tagType pair.tag = typeList) (reads : s.Reads .dataRead pair.data cells final object) :
      PairKey s pair (some object.cdrNext)

/-- A program that has a list on the top of the stack: it takes the car, and puts the cdr in the
place of the list, until that is NIL. -/
def walk (fuel : Nat) : Nat → ProcessorState → Option (List LispObj × ProcessorState)
  | 0, _ => none
  | n + 1, s =>
      if tagType (s.stack s.sp).tag = typeNIL then some ([], s)
      else
        match s.car fuel (.sp 0) with
        | some (.next t) =>
            match ({ t with sp := t.sp - 1 } : ProcessorState).cdr fuel .pop with
            | some (.next u) =>
                (walk fuel n u).map fun (objects, final) => (t.stack t.sp :: objects, final)
            | _ => none
        | _ => none

/-- What the list instructions do with an object that represents a list: they end, with enough
fuel, and so.  The operand may be any word of the stack. -/
structure ListSemantics (s : ProcessorState) (x : LispObj) (cs : List ConsCell) : Prop where
  car : ∀ mode, s.stack (s.operandWord mode) = x →
    let t := s.addressOperand mode
    (∀ c ∈ cs.head?, t.Clear (.word (t.sp + 1)) c.carCells) →
    ∀ᶠ fuel in Filter.atTop, s.car fuel mode = some (.next (t.push (headOf cs)))
  cdr : ∃ rest, s.Represents rest cs.tail ∧
    ∀ mode, s.stack (s.operandWord mode) = x →
    let t := s.addressOperand mode
    (∀ c ∈ cs.head?, t.Clear (.word (t.sp + 1)) c.tailCells.tail) →
    ∀ᶠ fuel in Filter.atTop, s.cdr fuel mode = some (.next (t.push rest))
  walk : s.stack s.sp = x →
    (∀ c ∈ cs, s.Clear (.word s.sp) c.cells ∧ s.Clear (.word (s.sp + 1)) c.cells) →
    ∀ᶠ fuel in Filter.atTop, ∃ t, s.walk fuel fuel = some (cs.map ConsCell.car, t) ∧
      tagType (t.stack t.sp).tag = typeNIL
  member : ∀ mode, s.stack (s.operandWord mode) = x →
    let t := s.addressOperand mode
    eqlKey (t.stack t.sp) = false →
    ∀ᶠ fuel in Filter.atTop,
      s.member fuel mode = some (.next (t.setTop (memberOf (t.stack t.sp) cs)))
  assoc : ∀ mode, s.stack (s.operandWord mode) = x →
    let t := s.addressOperand mode
    eqlKey (t.stack t.sp) = false →
    ∀ keyOf : LispObj → Option LispObj, (∀ c ∈ cs, s.PairKey c.car (keyOf c.car)) →
    ∀ᶠ fuel in Filter.atTop,
      s.assoc fuel mode = some (.next (t.setTop (assocOf keyOf (t.stack t.sp) cs)))
  rgetf : ∀ mode, s.stack (s.operandWord mode) = x →
    let t := s.addressOperand mode
    eqlKey (t.stack t.sp) = false → Even cs.length →
    (∀ c ∈ getf (t.stack t.sp) cs, t.Clear (.word t.sp) c.carCells) →
    ∀ᶠ fuel in Filter.atTop, s.rgetf fuel mode = some (.next
      (match getf (t.stack t.sp) cs with
      | some c => (t.setTop c.car).push c.object.cdrNext
      | none => (t.setTop objectNIL).push objectNIL))

/-! ### The memory that matters -/

section Memory

variable {s t : ProcessorState} {cycle : Cycle} {vma final : Integer} {cells : List Integer}
  {object x rest : LispObj} {c : ConsCell} {cs : List ConsCell}

theorem Reads.congr (h : s.Reads cycle vma cells final object)
    (heq : ∀ a ∈ vma :: cells, t.readVirtualMemory a = s.readVirtualMemory a) :
    t.Reads cycle vma cells final object := by
  refine ⟨h.chain.congr heq, h.last, ?_⟩
  have hfinal : final ∈ vma :: cells := h.last ▸ List.getLast_mem _
  rw [plainOutcome, heq final hfinal]
  exact h.value

/-- A cell without a forwarding pointer is read by itself. -/
theorem Reads.single (hlast : forward cycle (s.readVirtualMemory vma) = none)
    (hbind : action cycle (s.readVirtualMemory vma) &&& memoryActionBinding = 0)
    (hvalue : s.plainOutcome cycle vma = .value vma object) : s.Reads cycle vma [] vma object :=
  ⟨⟨hlast, fun _ ha => List.mem_singleton.mp ha ▸ hbind⟩, rfl, hvalue⟩

/-- A cell that forwards to one that is read. -/
theorem Reads.forward {vma' : Integer} (h : s.Reads cycle vma' cells final object)
    (hnext : forward cycle (s.readVirtualMemory vma) = some vma')
    (hbind : action cycle (s.readVirtualMemory vma) &&& memoryActionBinding = 0) :
    s.Reads cycle vma (vma' :: cells) final object := by
  refine ⟨⟨⟨hnext, h.chain.linked⟩, fun a ha => ?_⟩, ?_, h.value⟩
  · obtain rfl | ha := List.mem_cons.mp ha
    · exact hbind
    · exact h.chain.notBinding a ha
  · rw [List.getLast_cons (List.cons_ne_nil _ _)]
    exact h.last

theorem Tail.congr {word : LispObj} (h : s.Tail vma word rest cells)
    (heq : ∀ a ∈ cells, t.readVirtualMemory a = s.readVirtualMemory a) :
    t.Tail vma word rest cells := by
  cases h with
  | cdrNil h => exact .cdrNil h
  | cdrNext h => exact .cdrNext h
  | cdrNormal h reads => exact .cdrNormal h (reads.congr heq)

theorem Cons.congr (h : s.Cons c rest)
    (heq : ∀ a ∈ c.cells, t.readVirtualMemory a = s.readVirtualMemory a) : t.Cons c rest := by
  obtain ⟨final, object, hcar, hobject⟩ := h.car
  obtain ⟨vma, word, hcdr, htail⟩ := h.cdr
  simp only [ConsCell.cells, List.mem_cons, List.mem_append] at heq
  refine ⟨h.isList, ⟨final, object, hcar.congr fun a ha => heq a ?_, hobject⟩,
    ⟨vma, word, hcdr.congr fun a ha => heq a ?_, htail.congr fun a ha => heq a (by tauto)⟩⟩
  · obtain rfl | ha := List.mem_cons.mp ha <;> tauto
  · obtain rfl | ha := List.mem_cons.mp ha <;> tauto

theorem Represents.congr (h : s.Represents x cs)
    (heq : ∀ c ∈ cs, ∀ a ∈ c.cells, t.readVirtualMemory a = s.readVirtualMemory a) :
    t.Represents x cs := by
  induction h with
  | nil h => exact .nil h
  | cons h tail ih =>
      exact .cons (h.congr (heq _ List.mem_cons_self))
        (ih fun c hc => heq c (List.mem_cons_of_mem _ hc))

/-- A result that is left in none of the cells changes nothing of the list. -/
theorem Represents.leave {result : Result} (h : s.Represents x cs)
    (hclear : ∀ c ∈ cs, s.Clear result c.cells) : (s.leave result object).Represents x cs :=
  h.congr fun c hc a ha => readVirtualMemory_leave (hclear c hc a ha)

theorem Represents.addressOperand (h : s.Represents x cs) (mode : OperandMode) :
    (s.addressOperand mode).Represents x cs := by
  cases mode <;> exact h.congr fun _ _ _ _ => rfl

theorem PairKey.addressOperand {pair : LispObj} {key : Option LispObj} (h : s.PairKey pair key)
    (mode : OperandMode) : (s.addressOperand mode).PairKey pair key := by
  cases h with
  | nil h => exact .nil h
  | cons h reads =>
      refine .cons h (reads.congr fun a _ => ?_)
      cases mode <;> rfl

@[simp] theorem stack_addressOperand (s : ProcessorState) (mode : OperandMode) :
    (s.addressOperand mode).stack = s.stack := by
  cases mode <;> rfl

end Memory

/-! ### The internal functions -/

section Internals

variable {s : ProcessorState} {result : Result} {vma final : Integer} {cells : List Integer}
  {object x rest : LispObj} {c : ConsCell} {cs : List ConsCell}

theorem clear_temporary (s : ProcessorState) (cells : List Integer) : s.Clear .temporary cells :=
  fun _ _ h => h

theorem readData_reads (h : s.Reads .dataRead vma cells final object)
    (hclear : s.Clear result cells) : ∀ᶠ fuel in Filter.atTop,
    s.readData fuel vma result =
      some (.returned (s.leave result object.cdrNext, object.cdrNext)) := by
  filter_upwards [Filter.eventually_gt_atTop cells.length] with fuel hfuel
  rw [readData, readInto_chain h.chain hclear h.last h.value hfuel]
  simp

theorem carInternal_nil (h : tagType x.tag = typeNIL) (fuel : Nat) :
    s.carInternal fuel x result = some (.returned (s.leave result objectNIL, objectNIL)) := by
  rw [carInternal, if_neg (by rw [h]; decide), if_pos h]

theorem cdrInternal_nil (h : tagType x.tag = typeNIL) (fuel : Nat) :
    s.cdrInternal fuel x result = some (.returned (s.leave result objectNIL, objectNIL)) := by
  rw [cdrInternal, if_neg (by rw [h]; decide), if_pos h]

theorem Cons.carInternal (h : s.Cons c rest) (hclear : s.Clear result c.carCells) :
    ∀ᶠ fuel in Filter.atTop,
      s.carInternal fuel c.object result = some (.returned (s.leave result c.car, c.car)) := by
  obtain ⟨final, object, hreads, hobject⟩ := h.car
  filter_upwards [readData_reads hreads hclear] with fuel hread
  rw [ProcessorState.carInternal, if_pos h.isList, hread, hobject]

theorem Cons.cdrInternal (h : s.Cons c rest) (hclear : s.Clear result c.tailCells.tail) :
    ∀ᶠ fuel in Filter.atTop,
      s.cdrInternal fuel c.object result = some (.returned (s.leave result rest, rest)) := by
  obtain ⟨vma, word, hreads, htail⟩ := h.cdr
  have hcdr : ∀ᶠ fuel in Filter.atTop,
      s.memoryReadInternal .cdr fuel c.object.data = some (.value vma word) := by
    filter_upwards [Filter.eventually_gt_atTop c.cdrCells.length] with fuel hfuel
    rw [memoryReadInternal_chain hreads.chain, if_pos hfuel, hreads.last, hreads.value]
  generalize c.tailCells = cells at htail hclear
  cases htail with
  | cdrNil hcode =>
      filter_upwards [hcdr] with fuel hread
      simp only [ProcessorState.cdrInternal, h.isList, if_true, hread, Option.bind_some, hcode]
  | cdrNext hcode =>
      filter_upwards [hcdr] with fuel hread
      simp only [ProcessorState.cdrInternal, h.isList, if_true, hread, Option.bind_some, hcode]
  | cdrNormal hcode reads =>
      filter_upwards [hcdr, readData_reads reads hclear] with fuel hread hdata
      simp only [ProcessorState.cdrInternal, h.isList, if_true, hread, Option.bind_some, hcode,
        hdata]

/-- A car has lost its cdr code. -/
theorem Cons.car_cdrNext (h : s.Cons c rest) : c.car.cdrNext = c.car := by
  obtain ⟨final, object, -, hobject⟩ := h.car
  rw [← hobject]
  simp [LispObj.cdrNext, tagType, BitVec.and_assoc]

theorem Cons.carCdrInternal (h : s.Cons c rest) : ∀ᶠ fuel in Filter.atTop,
    s.carCdrInternal fuel c.object = some (.returned (c.car, rest)) := by
  filter_upwards [h.carInternal (clear_temporary s _), h.cdrInternal (clear_temporary s _)]
    with fuel hcar hcdr
  have hnot : ¬ tagType c.object.tag = typeLocative := by
    rw [h.isList]
    decide
  rw [ProcessorState.carCdrInternal, if_neg hnot, hcar, Option.bind_some]
  simp only [leave, hcdr, Option.map_some]

/-- The first cons of a list, or NIL, has a car. -/
theorem Represents.carInternal (h : s.Represents x cs)
    (hclear : ∀ c ∈ cs.head?, s.Clear result c.carCells) : ∀ᶠ fuel in Filter.atTop,
    s.carInternal fuel x result = some (.returned (s.leave result (headOf cs), headOf cs)) := by
  cases h with
  | nil h => exact .of_forall (carInternal_nil h)
  | cons h tail => exact h.carInternal (hclear _ rfl)

/-- And a cdr, in this state and in every other with the same memory. -/
theorem Represents.cdrInternal (h : s.Represents x cs) : ∃ rest, s.Represents rest cs.tail ∧
    ∀ t : ProcessorState, (∀ a, t.readVirtualMemory a = s.readVirtualMemory a) → ∀ result,
      (∀ c ∈ cs.head?, t.Clear result c.tailCells.tail) → ∀ᶠ fuel in Filter.atTop,
        t.cdrInternal fuel x result = some (.returned (t.leave result rest, rest)) := by
  cases h with
  | nil h => exact ⟨objectNIL, .nil rfl, fun t _ _ _ => .of_forall (cdrInternal_nil h)⟩
  | @cons c rest cs h tail =>
      exact ⟨rest, tail, fun t heq result hclear =>
        (h.congr fun a _ => heq a).cdrInternal (hclear c rfl)⟩

end Internals

/-! ### The loops -/

section Loops

variable {s : ProcessorState} {x : LispObj} {cs : List ConsCell}

/-- A round of Member: the car is the key, or the rest of the list is searched. -/
theorem memberLoop_spec (h : s.Represents x cs) : ∀ᶠ fuel in Filter.atTop, ∀ n, cs.length < n →
    s.memberLoop fuel n x = some (.next (s.setTop (memberOf (s.stack s.sp) cs))) := by
  induction h with
  | nil h =>
      refine .of_forall fun fuel n hn => ?_
      obtain ⟨n, rfl⟩ := Nat.exists_eq_add_one_of_ne_zero (Nat.ne_zero_of_lt hn)
      rw [memberLoop, if_pos h]
      rfl
  | @cons c rest cs h tail ih =>
      filter_upwards [h.carCdrInternal, ih] with fuel hcons hrest n hn
      obtain ⟨n, rfl⟩ := Nat.exists_eq_add_one_of_ne_zero (Nat.ne_zero_of_lt hn)
      rw [memberLoop, if_neg (by rw [h.isList]; decide), hcons, Option.bind_some]
      simp only [memberOf, List.find?_cons]
      cases hkey : objectEqP c.car (s.stack s.sp) with
      | true => rfl
      | false => exact hrest n (Nat.lt_of_succ_lt_succ hn)

/-- A round of Assoc, with the car of the element where it is a cons. -/
theorem assocLoop_spec {keyOf : LispObj → Option LispObj} (h : s.Represents x cs)
    (hkeys : ∀ c ∈ cs, s.PairKey c.car (keyOf c.car)) :
    ∀ᶠ fuel in Filter.atTop, ∀ n, cs.length < n →
      s.assocLoop fuel n x = some (.next (s.setTop (assocOf keyOf (s.stack s.sp) cs))) := by
  induction h with
  | nil h =>
      refine .of_forall fun fuel n hn => ?_
      obtain ⟨n, rfl⟩ := Nat.exists_eq_add_one_of_ne_zero (Nat.ne_zero_of_lt hn)
      rw [assocLoop, if_pos h]
      rfl
  | @cons c rest cs h tail ih =>
      have hrest := ih fun c hc => hkeys c (List.mem_cons_of_mem _ hc)
      have hkey := hkeys c List.mem_cons_self
      generalize hk : keyOf c.car = k at hkey
      cases hkey with
      | nil hnil =>
          filter_upwards [h.carCdrInternal, hrest] with fuel hcons hrest n hn
          obtain ⟨n, rfl⟩ := Nat.exists_eq_add_one_of_ne_zero (Nat.ne_zero_of_lt hn)
          rw [assocLoop, if_neg (by rw [h.isList]; decide), hcons, Option.bind_some]
          simp only [assocOf, List.map_cons, List.find?_cons, hk, Option.any_none, hnil, if_true]
          exact hrest n (Nat.lt_of_succ_lt_succ hn)
      | @cons cells final object hlist reads =>
          filter_upwards [h.carCdrInternal, hrest,
            readData_reads reads (clear_temporary s _)] with fuel hcons hrest hread n hn
          obtain ⟨n, rfl⟩ := Nat.exists_eq_add_one_of_ne_zero (Nat.ne_zero_of_lt hn)
          have hcar : s.carInternal fuel c.car .temporary =
              some (.returned (s, object.cdrNext)) := by
            rw [carInternal, if_pos hlist, hread]
            rfl
          rw [assocLoop, if_neg (by rw [h.isList]; decide), hcons, Option.bind_some]
          simp only [assocOf, List.map_cons, List.find?_cons, hk, Option.any_some]
          rw [if_neg (by rw [hlist]; decide), if_pos hlist, hcar, Option.bind_some]
          cases hfound : objectEqP object.cdrNext (s.stack s.sp) with
          | true => simp only [hfound, if_true, h.car_cdrNext, Option.getD_some]
          | false =>
              simp only [hfound, Bool.false_eq_true, if_false]
              exact hrest n (Nat.lt_of_succ_lt_succ hn)

/-- Two rounds of the reads of Rgetf are one round of its loop. -/
theorem rgetfLoop_spec (cs : List ConsCell) {x : LispObj} (h : s.Represents x cs)
    (heven : Even cs.length)
    (hclear : ∀ c ∈ getf (s.stack s.sp) cs, s.Clear (.word s.sp) c.carCells) :
    ∀ᶠ fuel in Filter.atTop, ∀ n, cs.length < n →
      s.rgetfLoop fuel n x = some (.next
        (match getf (s.stack s.sp) cs with
        | some c => (s.setTop c.car).push c.object.cdrNext
        | none => (s.setTop objectNIL).push objectNIL)) := by
  match cs, h with
  | [], .nil h =>
      refine .of_forall fun fuel n hn => ?_
      obtain ⟨n, rfl⟩ := Nat.exists_eq_add_one_of_ne_zero (Nat.ne_zero_of_lt hn)
      rw [rgetfLoop, if_pos h]
      rfl
  | [c], _ => exact absurd heven (by simp)
  | indicator :: value :: cs, .cons hind (.cons hval tail) =>
      rw [getf] at hclear ⊢
      cases hkey : objectEqP indicator.car (s.stack s.sp) with
      | true =>
          rw [hkey, if_pos rfl] at hclear
          filter_upwards [hind.carCdrInternal, hval.carInternal (hclear value rfl)]
            with fuel hcons hcar n hn
          obtain ⟨n, rfl⟩ := Nat.exists_eq_add_one_of_ne_zero (Nat.ne_zero_of_lt hn)
          rw [rgetfLoop, if_neg (by rw [hind.isList]; decide), hcons, Option.bind_some]
          simp only [hkey, if_true, foundProperty, hval.isList, hcar, Option.map_some]
          rfl
      | false =>
          rw [hkey] at hclear
          have hrest := rgetfLoop_spec cs tail (by
            simpa [Nat.even_add_one] using heven) hclear
          filter_upwards [hind.carCdrInternal, hval.cdrInternal (clear_temporary s _), hrest]
            with fuel hcons hcdr hrest n hn
          obtain ⟨n, rfl⟩ := Nat.exists_eq_add_one_of_ne_zero (Nat.ne_zero_of_lt hn)
          rw [rgetfLoop, if_neg (by rw [hind.isList]; decide), hcons, Option.bind_some]
          simp only [hkey, Bool.false_eq_true, if_false, hcdr, Option.bind_some]
          exact hrest n (by simp only [List.length_cons] at hn; omega)

/-- A search starts with the list of its operand. -/
theorem searching_spec {loop : ProcessorState → Nat → Nat → LispObj → Option ListOutcome}
    {s : ProcessorState} {mode : OperandMode} {out : ListOutcome} {k : Nat}
    (hx : s.stack (s.operandWord mode) = x)
    (hkey : eqlKey ((s.addressOperand mode).stack (s.addressOperand mode).sp) = false)
    (h : ∀ᶠ fuel in Filter.atTop, ∀ n, k < n →
      loop (s.addressOperand mode) fuel n x = some out) :
    ∀ᶠ fuel in Filter.atTop, searching loop s fuel mode = some out := by
  filter_upwards [h, Filter.eventually_gt_atTop k] with fuel hloop hfuel
  simp only [searching, hkey, Bool.false_eq_true, if_false]
  rw [stack_addressOperand, hx]
  exact hloop fuel hfuel

end Loops

/-! ### The instructions -/

section Instructions

variable {s : ProcessorState} {x : LispObj} {cs : List ConsCell}

theorem car_spec (h : s.Represents x cs) (mode : OperandMode)
    (hx : s.stack (s.operandWord mode) = x)
    (hclear : ∀ c ∈ cs.head?,
      (s.addressOperand mode).Clear (.word ((s.addressOperand mode).sp + 1)) c.carCells) :
    ∀ᶠ fuel in Filter.atTop,
      s.car fuel mode = some (.next ((s.addressOperand mode).push (headOf cs))) := by
  filter_upwards [(h.addressOperand mode).carInternal hclear] with fuel hcar
  simp only [car, stack_addressOperand, hx, hcar, Option.map_some]
  rfl

theorem cdr_spec (h : s.Represents x cs) : ∃ rest, s.Represents rest cs.tail ∧
    ∀ t : ProcessorState, (∀ a, t.readVirtualMemory a = s.readVirtualMemory a) → ∀ mode,
      t.stack (t.operandWord mode) = x →
      (∀ c ∈ cs.head?, (t.addressOperand mode).Clear (.word ((t.addressOperand mode).sp + 1))
        c.tailCells.tail) →
      ∀ᶠ fuel in Filter.atTop,
        t.cdr fuel mode = some (.next ((t.addressOperand mode).push rest)) := by
  obtain ⟨rest, htail, hcdr⟩ := h.cdrInternal
  refine ⟨rest, htail, fun t heq mode hx hclear => ?_⟩
  have hsame : ∀ a, (t.addressOperand mode).readVirtualMemory a = s.readVirtualMemory a := by
    intro a
    rw [← heq a]
    cases mode <;> rfl
  filter_upwards [hcdr _ hsame _ hclear] with fuel hcdr
  simp only [cdr, stack_addressOperand, hx, hcdr, Option.map_some]
  rfl

/-- The state behind one round of a walk. -/
def afterRound (s : ProcessorState) (car rest : LispObj) : ProcessorState :=
  (s.leave (.word (s.sp + 1)) car).leave (.word s.sp) rest

/-- A round of a walk takes the car and leaves the rest of the list, which is still in memory
where the walk has written none of its cells. -/
theorem walk_round {c : ConsCell} (h : s.Represents x (c :: cs)) (hx : s.stack s.sp = x)
    (hclear : ∀ d ∈ c :: cs, s.Clear (.word s.sp) d.cells ∧ s.Clear (.word (s.sp + 1)) d.cells) :
    ∃ rest, (s.afterRound c.car rest).Represents rest cs ∧
      ∀ᶠ fuel in Filter.atTop, ∀ n, s.walk fuel (n + 1) =
        ((s.afterRound c.car rest).walk fuel n).map fun (objects, final) =>
          (c.car :: objects, final) := by
  let t := s.leave (.word (s.sp + 1)) c.car
  have ht : t.Represents x (c :: cs) := h.leave fun d hd => (hclear d hd).2
  have htop : t.stack (t.operandWord .pop) = x := by
    rw [← hx]
    exact Function.update_of_ne (show s.sp ≠ s.sp + 1 by omega) c.car s.stack
  have hcells : ∀ d ∈ (c :: cs).head?, s.Clear (.word s.sp) d.tailCells.tail ∧
      s.Clear (.word (s.sp + 1)) d.carCells := by
    intro d hd
    obtain rfl : c = d := Option.some.inj hd
    have hmem := hclear c List.mem_cons_self
    constructor
    · intro a ha
      refine hmem.1 a ?_
      simp [ConsCell.cells, List.mem_of_mem_tail ha]
    · intro a ha
      refine hmem.2 a ?_
      simp [ConsCell.cells, ha]
  obtain ⟨rest, htail, hcdr⟩ := cdr_spec ht
  refine ⟨rest, htail.leave fun d hd => ?_, ?_⟩
  · exact fun a ha => (isWord_leave ..).not.mpr ((hclear d (List.mem_cons_of_mem _ hd)).1 a ha)
  · have hcar := car_spec h (.sp 0) (by rw [operandWord, add_zero]; exact hx)
      fun d hd => (hcells d hd).2
    have hcdr := hcdr t (fun _ => rfl) .pop htop fun d hd a ha => by
      have hword := (hcells d hd).1 a ha
      simpa [addressOperand, IsWord, t, leave] using hword
    filter_upwards [hcar, hcdr] with fuel hcar hcdr n
    have hlist : ¬ tagType (s.stack s.sp).tag = typeNIL := by
      cases h with
      | cons h tail =>
          rw [hx, h.isList]
          decide
    have hpop : ({ s.push c.car with sp := (s.push c.car).sp - 1 } : ProcessorState) = t := by
      simp [push, t, leave]
    have hround : (t.addressOperand .pop).push rest = s.afterRound c.car rest := by
      simp [push, addressOperand, afterRound, t, leave]
    have htaken : (s.push c.car).stack (s.push c.car).sp = c.car := Function.update_self ..
    rw [walk, if_neg hlist, hcar]
    simp only [addressOperand, headOf, List.head?_cons, Option.map_some, Option.getD_some, hpop,
      hcdr, htaken]
    rw [← hround]
    rfl

theorem walk_spec (h : s.Represents x cs) (hx : s.stack s.sp = x)
    (hclear : ∀ c ∈ cs, s.Clear (.word s.sp) c.cells ∧ s.Clear (.word (s.sp + 1)) c.cells) :
    ∀ᶠ fuel in Filter.atTop, ∀ n, cs.length < n →
      ∃ t, s.walk fuel n = some (cs.map ConsCell.car, t) ∧
        tagType (t.stack t.sp).tag = typeNIL := by
  induction cs generalizing s x with
  | nil =>
      cases h with
      | nil h =>
          refine .of_forall fun fuel n hn => ?_
          obtain ⟨n, rfl⟩ := Nat.exists_eq_add_one_of_ne_zero (Nat.ne_zero_of_lt hn)
          exact ⟨s, by rw [walk, if_pos (hx ▸ h)]; rfl, hx ▸ h⟩
  | cons c cs ih =>
      obtain ⟨rest, hrest, hround⟩ := walk_round h hx hclear
      have htail := ih hrest (Function.update_self ..) fun d hd => by
        have hd := hclear d (List.mem_cons_of_mem _ hd)
        exact ⟨fun a ha => (hd.1 a ha), fun a ha => (hd.2 a ha)⟩
      filter_upwards [hround, htail] with fuel hround htail n hn
      obtain ⟨n, rfl⟩ := Nat.exists_eq_add_one_of_ne_zero (Nat.ne_zero_of_lt hn)
      obtain ⟨t, hwalk, hnil⟩ := htail n (Nat.lt_of_succ_lt_succ hn)
      exact ⟨t, by rw [hround n, hwalk]; rfl, hnil⟩

end Instructions

/-- A list of one fixnum, whose cell has the cdr code for NIL. -/
theorem represents_uniform : (uniform ⟨0x48, 5⟩).Represents ⟨typeList, 0x1000⟩
    [⟨⟨typeList, 0x1000⟩, ⟨typeFixnum, 5⟩, [], [], []⟩] := by
  have hreads : ∀ cycle, cycle = .dataRead ∨ cycle = .cdr →
      (uniform ⟨0x48, 5⟩).Reads cycle 0x1000 [] 0x1000 ⟨0x48, 5⟩ := by
    intro cycle hcycle
    obtain rfl | rfl := hcycle
    · exact .single (by decide) (by decide) (by decide)
    · exact .single (by decide) (by decide) (by decide)
  have hcons : (uniform ⟨0x48, 5⟩).Cons
      ⟨⟨typeList, 0x1000⟩, ⟨typeFixnum, 5⟩, [], [], []⟩ objectNIL :=
    ⟨rfl, ⟨0x1000, _, hreads .dataRead (.inl rfl), by decide⟩,
      ⟨0x1000, _, hreads .cdr (.inr rfl), .cdrNil (by decide)⟩⟩
  exact .cons hcons (.nil rfl)

/-- A property list on the top of the stack above the key; the cell of its value is forwarded to
the word of the key. -/
def forwarded : ProcessorState where
  stack := fun i => if i = 11 then ⟨typeList, 0x10001000⟩ else ⟨typeFixnum, 7⟩
  sp := 11
  fp := 0
  lp := 0
  pc := objectNIL
  continuation := objectNIL
  control := 0
  stackCacheLimit := 896
  restartsp := 11
  stackCacheBase := 0xF8000000
  memory := fun a => if a = 0x10001001 then ⟨0x45, 0xF800000A⟩ else ⟨typeFixnum, 7⟩
  ephemeralOldspaceRegister := 0
  zoneOldspaceRegister := 0

def forwardedIndicator : ConsCell :=
  ⟨⟨typeList, 0x10001000⟩, ⟨typeFixnum, 7⟩, [], [], []⟩

def forwardedValue : ConsCell :=
  ⟨⟨typeList, 0x10001001⟩, ⟨typeFixnum, 7⟩, [0xF800000A], [], []⟩

theorem represents_forwarded : forwarded.Represents ⟨typeList, 0x10001000⟩
    [forwardedIndicator, forwardedValue] := by
  have hkey : forwarded.Reads .dataRead 0xF800000A [] 0xF800000A ⟨typeFixnum, 7⟩ :=
    .single (by decide) (by decide) (by decide)
  have hvalue : forwarded.Cons forwardedValue objectNIL :=
    ⟨by decide, ⟨_, _, hkey.forward (by decide) (by decide), by decide⟩,
      ⟨0x10001001, ⟨0x45, 0xF800000A⟩, .single (by decide) (by decide) (by decide),
        .cdrNil (by decide)⟩⟩
  have hindicator : forwarded.Cons forwardedIndicator ⟨typeList, 0x10001001⟩ :=
    ⟨by decide, ⟨0x10001000, ⟨typeFixnum, 7⟩, .single (by decide) (by decide) (by decide),
        by decide⟩,
      ⟨0x10001000, ⟨typeFixnum, 7⟩, .single (by decide) (by decide) (by decide),
        .cdrNext (by decide)⟩⟩
  exact .cons hindicator (.cons hvalue (.nil rfl))

instance (cycle : Cycle) (object : LispObj) : Decidable (Transportable cycle object) :=
  inferInstanceAs (Decidable (_ = _))

theorem oldspaceAddressP_forwarded : forwarded.oldspaceAddressP 0xF800000A = false := by
  have hzone : ldb 5 27 (0xF800000A : Integer) ≠ 0 := by decide
  rw [oldspaceAddressP]
  simp only [if_neg hzone]
  simp [forwarded]

theorem noneDue_forwarded : ∀ c ∈ [forwardedIndicator, forwardedValue],
    forwarded.NoneDue .dataRead c.cells ∧ forwarded.NoneDue .cdr c.cells := by
  have hcells : ∀ c ∈ [forwardedIndicator, forwardedValue],
      ∀ vma ∈ c.cells, vma ∈ ([0x10001000, 0x10001001, 0xF800000A] : List Integer) := by
    simp [forwardedIndicator, forwardedValue, ConsCell.cells]
  have hdue : ∀ vma ∈ ([0x10001000, 0x10001001, 0xF800000A] : List Integer),
      ¬ forwarded.TransportDue .dataRead vma ∧ ¬ forwarded.TransportDue .cdr vma := by
    intro vma hvma
    simp only [List.mem_cons, List.not_mem_nil, or_false] at hvma
    obtain rfl | rfl | rfl := hvma
    · exact ⟨fun h => absurd h.1 (by decide), fun h => absurd h.1 (by decide)⟩
    · exact ⟨fun h => absurd (oldspaceAddressP_forwarded.symm.trans h.2) (by decide),
        fun h => absurd h.1 (by decide)⟩
    · exact ⟨fun h => absurd h.1 (by decide), fun h => absurd h.1 (by decide)⟩
  exact fun c hc => ⟨fun vma hvma => (hdue vma (hcells c hc vma hvma)).1,
    fun vma hvma => (hdue vma (hcells c hc vma hvma)).2⟩

end ProcessorState

end Ivory
