import Mathlib
import OsxVlm.Emulator.FunctionEntry

/-!
# Arguments are spread exactly

The loop of an entry pushes the elements of the list one by one.  It goes wrong at a
cdr-normal cell with more of the list behind it: the break that was to go on with the next
round leaves an inner switch only, and the instruction traps.  Without such a cell
among those that are pulled the entry does what it is to do.
-/

namespace Ivory

/-! ### Words and control registers -/

theorem argumentSize_writeArgumentSize (c : Integer) {n : Nat} (h : n < 256) :
    readControlArgumentSize (writeControlArgumentSize c n) = n := by
  have hmask : ∀ i, i < 8 → (BitVec.ofNat 32 (2 ^ 8 - 1)).getLsbD i = true := by decide
  calc readControlArgumentSize (writeControlArgumentSize c n)
      = ldb 8 0 (BitVec.ofInt 32 n) := by
        refine ldb_congr fun i hi => ?_
        simp only [writeControlArgumentSize, dpb, BitVec.shiftLeft_zero, BitVec.getLsbD_or,
          BitVec.getLsbD_and, BitVec.getLsbD_not, Nat.zero_add, hmask i hi, Bool.not_true,
          Bool.and_false, Bool.and_true, Bool.or_false]
    _ = n := toNat_extract_ofInt (n := (n : Int)) (Int.natCast_nonneg n) (by omega)

theorem apply_writeArgumentSize (c : Integer) (x : Int) :
    readControlApply (writeControlArgumentSize c x) = readControlApply c :=
  ldb_congr fun _ hi => getLsbD_dpb x c (by omega) (by omega)

theorem argumentSize_writeApply (c : Integer) (x : Int) :
    readControlArgumentSize (writeControlApply c x) = readControlArgumentSize c :=
  ldb_congr fun _ hi => getLsbD_dpb x c (by omega) (by omega)

theorem apply_writeApply_zero (c : Integer) : readControlApply (writeControlApply c 0) = 0 := by
  have hzero : readControlApply 0 = 0 := by decide
  rw [← hzero, readControlApply, readControlApply]
  refine ldb_congr fun i hi => ?_
  obtain rfl : i = 0 := by omega
  simp [writeControlApply, dpb]

/-- A word without a cdr code takes the one that is set. -/
theorem tagCdr_setTagCdr {tag : Tag} (h : tagType tag = tag) :
    tagCdr tag = 0 ∧ tagCdr (setTagCdr tag 1) = 1 ∧ tagCdr (setTagCdr tag 2) = 2 := by
  revert h
  revert tag
  decide

theorem tagType_setTagCdr (tag : Tag) :
    tagType (setTagCdr tag 1) = tagType tag ∧ tagType (setTagCdr tag 2) = tagType tag := by
  revert tag
  decide

theorem LispObj.cdrNext_cdrNext (o : LispObj) : o.cdrNext.cdrNext = o.cdrNext := by
  simp [LispObj.cdrNext, tagType, BitVec.and_assoc]

theorem tagType_of_cdrNext {o : LispObj} (h : o.cdrNext = o) : tagType o.tag = o.tag :=
  congrArg LispObj.tag h

namespace Processor

/-! ### Lists and the words they are in -/

section Lists

variable {s t : Processor} {top i : Int} {cs : List StackCell} {o : LispObj}

theorem OnStack.ne_nil (h : s.OnStack top i cs) : cs ≠ [] := by
  cases h <;> simp

theorem OnStack.lt_top (h : s.OnStack top i cs) : i < top := by
  cases h <;> omega

/-- The words below `top` are the same; only the cdr code of the last of them may have changed,
and it was the one for the next word. -/
def SameBelow (s t : Processor) (top : Int) : Prop :=
  t.stackCacheBase = s.stackCacheBase ∧ ∀ j < top, t.stack j = s.stack j ∨
    j + 1 = top ∧ tagCdr (s.stack j).tag = 0 ∧ (t.stack j).cdrNext = (s.stack j).cdrNext

theorem SameBelow.cdrNext (h : s.SameBelow t top) (hi : i < top) :
    (t.stack i).cdrNext = (s.stack i).cdrNext := by
  obtain heq | ⟨-, -, heq⟩ := h.2 i hi
  · rw [heq]
  · exact heq

theorem SameBelow.tagType (h : s.SameBelow t top) (hi : i < top) :
    Ivory.tagType (t.stack i).tag = Ivory.tagType (s.stack i).tag :=
  congrArg LispObj.tag (h.cdrNext hi)

theorem SameBelow.data (h : s.SameBelow t top) (hi : i < top) :
    (t.stack i).data = (s.stack i).data := by
  have hdata := congrArg LispObj.data (h.cdrNext hi)
  exact hdata

/-- The last word is the first word of no cell, as its cdr code asks for another one. -/
theorem OnStack.stack_eq (h : s.OnStack top i cs) (hsame : s.SameBelow t top) :
    t.stack i = s.stack i := by
  obtain heq | ⟨htop, hcode, -⟩ := hsame.2 i h.lt_top
  · exact heq
  · cases h with
    | cdrNil hi h => omega
    | cdrNext hi h tail => exact absurd tail.lt_top (by omega)
    | normalNil hi h hnil => omega
    | normalList hi h hlist hcache tail => omega

theorem OnStack.congr (h : s.OnStack top i cs) (hsame : s.SameBelow t top) :
    t.OnStack top i cs := by
  induction h with
  | @cdrNil i hi h =>
      have heq := (OnStack.cdrNil hi h).stack_eq hsame
      rw [← heq] at h ⊢
      exact .cdrNil hi h
  | @cdrNext i cs hi h tail ih =>
      have heq := (OnStack.cdrNext hi h tail).stack_eq hsame
      rw [← heq] at h ⊢
      exact .cdrNext hi h ih
  | @normalNil i hi h hnil =>
      have heq := (OnStack.normalNil hi h hnil).stack_eq hsame
      rw [← heq] at h ⊢
      exact .normalNil hi h ((hsame.tagType hi).trans hnil)
  | @normalList i cs hi h hlist hcache tail ih =>
      have heq := (OnStack.normalList hi h hlist hcache tail).stack_eq hsame
      have hpointer : t.stackIndex (t.stack (i + 1)) = s.stackIndex (s.stack (i + 1)) := by
        rw [stackIndex, stackIndex, hsame.data hi, hsame.1]
      rw [← heq] at h ⊢
      refine .normalList hi h ((hsame.tagType hi).trans hlist) ?_ (hpointer ▸ ih)
      rw [inStackCache, hsame.data hi, hsame.1]
      exact hcache

theorem ListBelow.congr (h : s.ListBelow top o cs) (hsame : s.SameBelow t top) :
    t.ListBelow top o cs := by
  have hindex : t.stackIndex o = s.stackIndex o := by rw [stackIndex, stackIndex, hsame.1]
  refine ⟨h.isList, ?_, ?_⟩
  · rw [inStackCache, hsame.1]
    exact h.inCache
  · rw [hindex]
    exact h.cells.congr hsame

theorem OnStack.mono {top' : Int} (h : s.OnStack top i cs) (hle : top ≤ top') :
    s.OnStack top' i cs := by
  induction h with
  | cdrNil hi h => exact .cdrNil (by omega) h
  | cdrNext hi h _ ih => exact .cdrNext (by omega) h ih
  | normalNil hi h hnil => exact .normalNil (by omega) h hnil
  | normalList hi h hlist hcache _ ih => exact .normalList (by omega) h hlist hcache ih

end Lists

/-! ### The loop -/

/-- Elements are pushed, one after the other. -/
def pushAll (s : Processor) (os : List LispObj) : Processor := os.foldl push s

section Pushes

variable {s : Processor} {os : List LispObj} {top i : Int} {cs : List StackCell}

theorem sp_pushAll (s : Processor) (os : List LispObj) :
    (s.pushAll os).sp = s.sp + os.length := by
  induction os generalizing s with
  | nil => simp [pushAll]
  | cons o os ih =>
      rw [pushAll, List.foldl_cons, ← pushAll, ih]
      simp only [push, Cpu.push_sp, List.length_cons]
      omega

theorem stack_pushAll_le {j : Int} (h : j ≤ s.sp) : (s.pushAll os).stack j = s.stack j := by
  induction os generalizing s with
  | nil => rfl
  | cons o os ih =>
      rw [pushAll, List.foldl_cons, ← pushAll, ih]
      · exact Cpu.push_stack_le _ _ h
      · simp only [push, Cpu.push_sp]
        omega

theorem stack_pushAll {k : Nat} {o : LispObj} (h : os[k]? = some o) :
    (s.pushAll os).stack (s.sp + 1 + k) = o := by
  induction os generalizing s k with
  | nil => simp at h
  | cons o' os ih =>
      rw [pushAll, List.foldl_cons, ← pushAll]
      cases k with
      | zero =>
          obtain rfl : o' = o := by simpa using h
          rw [stack_pushAll_le (by simp [push])]
          simp [push]
      | succ k =>
          have htail := ih (s := s.push o') (k := k) (by simpa using h)
          rw [← htail]
          congr 1
          simp only [push, Cpu.push_sp]
          omega

/-- Pushes change nothing but the words they push and the stack pointer. -/
theorem pushAll_eq (s : Processor) (os : List LispObj) : s.pushAll os =
    { s with
      stack := (s.pushAll os).stack
      sp := s.sp + os.length } := by
  induction os generalizing s with
  | nil => simp [pushAll]
  | cons o os ih =>
      rw [pushAll, List.foldl_cons, ← pushAll, ih]
      simp only [push, Cpu.push, List.length_cons, Nat.cast_add, Nat.cast_one]
      congr 2
      omega

@[simp] theorem fp_pushAll (s : Processor) (os : List LispObj) : (s.pushAll os).fp = s.fp := by
  rw [pushAll_eq]

@[simp] theorem lp_pushAll (s : Processor) (os : List LispObj) : (s.pushAll os).lp = s.lp := by
  rw [pushAll_eq]

@[simp] theorem pc_pushAll (s : Processor) (os : List LispObj) : (s.pushAll os).pc = s.pc := by
  rw [pushAll_eq]

@[simp] theorem control_pushAll (s : Processor) (os : List LispObj) :
    (s.pushAll os).control = s.control := by
  rw [pushAll_eq]

@[simp] theorem stackCacheBase_pushAll (s : Processor) (os : List LispObj) :
    (s.pushAll os).stackCacheBase = s.stackCacheBase := by
  rw [pushAll_eq]

theorem sameBelow_pushAll (h : top ≤ s.sp + 1) : s.SameBelow (s.pushAll os) top := by
  refine ⟨?_, fun j hj => .inl (stack_pushAll_le (by omega))⟩
  rw [pushAll_eq]

end Pushes

section Loop

variable {s : Processor} {top rest : Int} {cs : List StackCell} {supplied count n : Nat}

/-- A round that finds room and goes on. -/
theorem pullLoop_next (hroom : s.sp < s.stackCacheLimit) (h : tagCdr (s.stack rest).tag = 0) :
    pullLoop supplied count (n + 1) s rest =
      pullLoop supplied count n (s.push (s.stack rest).cdrNext) (rest + 1) := by
  rw [pullLoop]
  simp only [if_neg (Int.not_le.mpr hroom), h]

/-- A round that comes to the end of the list. -/
theorem pullLoop_last (hroom : s.sp < s.stackCacheLimit)
    (h : tagCdr (s.stack rest).tag = 1 ∨
      tagCdr (s.stack rest).tag = 2 ∧ rest + 1 ≤ s.sp ∧ tagType (s.stack (rest + 1)).tag = typeNIL) :
    pullLoop supplied count (n + 1) s rest =
      ((s.push (s.stack rest).cdrNext).exhausted supplied (count - (n + 1)), 0) := by
  rw [pullLoop]
  obtain h | ⟨h, hle, hnil⟩ := h
  · simp only [if_neg (Int.not_le.mpr hroom), h]
  · have htail : (s.push (s.stack rest).cdrNext).stack (rest + 1) = s.stack (rest + 1) :=
      Cpu.push_stack_le _ _ hle
    simp only [if_neg (Int.not_le.mpr hroom), h, htail, hnil, if_true]

/-- A round at a cell that branches. -/
theorem pullLoop_branch (hroom : s.sp < s.stackCacheLimit) (h : tagCdr (s.stack rest).tag = 2)
    (hle : rest + 1 ≤ s.sp) (hlist : tagType (s.stack (rest + 1)).tag = typeList)
    (hcache : s.inStackCache (s.stack (rest + 1))) :
    pullLoop supplied count (n + 1) s rest = (s.push (s.stack rest).cdrNext).pullTrap supplied count
      (count - (n + 1)) (s.stackIndex (s.stack (rest + 1))) := by
  have htail : (s.push (s.stack rest).cdrNext).stack (rest + 1) = s.stack (rest + 1) :=
    Cpu.push_stack_le _ _ hle
  have hnot : ¬ tagType (s.stack (rest + 1)).tag = typeNIL := by
    rw [hlist]
    decide
  rw [pullLoop]
  simp only [if_neg (Int.not_le.mpr hroom), h, htail]
  rw [if_neg hnot, if_pos ⟨hlist, hcache⟩]
  rfl

theorem Direct.tail {c : StackCell} (h : Direct (n + 1) (c :: cs)) : Direct n cs :=
  fun d hd => h d (List.mem_cons_of_mem _ hd)

theorem Direct.head {c : StackCell} (h : Direct (n + 1) (c :: cs)) : c.branches = false :=
  h c List.mem_cons_self

/-- There is room for the rounds to go. -/
def Room (s : Processor) (n : Nat) (cs : List StackCell) : Prop :=
  ∀ i < rounds n cs, s.sp + i < s.stackCacheLimit

theorem Room.now {c : StackCell} (h : s.Room (n + 1) (c :: cs)) : s.sp < s.stackCacheLimit := by
  have hpos : 0 < rounds (n + 1) (c :: cs) := by
    rw [rounds]
    split <;> omega
  simpa using h 0 hpos

theorem Room.push {c : StackCell} {o : LispObj} (h : s.Room (n + 1) (c :: cs))
    (hc : c.branches = false) : (s.push o).Room n cs := by
  intro i hi
  have hnext := h (i + 1) (by rw [rounds, hc]; simpa using hi)
  have hsp : (s.push o).sp = s.sp + 1 := rfl
  have hlimit : (s.push o).stackCacheLimit = s.stackCacheLimit := rfl
  rw [hsp, hlimit]
  push_cast at hnext
  omega

theorem pushAll_cons (s : Processor) (o : LispObj) (os : List LispObj) :
    s.pushAll (o :: os) = (s.push o).pushAll os := rfl

theorem sameBelow_push {o : LispObj} (h : top ≤ s.sp + 1) : s.SameBelow (s.push o) top :=
  show s.SameBelow (s.pushAll [o]) top from sameBelow_pushAll h

variable (supplied) in
/-- The list is exhausted in the rounds to go. -/
theorem pullLoop_exhausted (h : s.OnStack top rest cs) (htop : top ≤ s.sp + 1)
    (hdirect : Direct n cs) (hlen : cs.length ≤ n) (hn : n ≤ count) (hroom : s.Room n cs) :
    pullLoop supplied count n s rest =
      ((s.pushAll (cs.map StackCell.element)).exhausted supplied (count - n + cs.length - 1), 0) := by
  induction n generalizing s rest cs with
  | zero => exact absurd (List.length_eq_zero_iff.mp (Nat.le_zero.mp hlen)) h.ne_nil
  | succ n ih =>
      cases h with
      | cdrNil hi hcode =>
          rw [pullLoop_last hroom.now (.inl hcode)]
          rfl
      | cdrNext hi hcode tail =>
          have hsp : (s.push (s.stack rest).cdrNext).sp = s.sp + 1 := rfl
          rw [pullLoop_next hroom.now hcode, ih (tail.congr (sameBelow_push htop))
            (by rw [hsp]; omega) hdirect.tail (Nat.le_of_succ_le_succ hlen) (by omega)
            (hroom.push rfl), List.map_cons, pushAll_cons, List.length_cons]
          congr 2
          omega
      | normalNil hi hcode hnil =>
          rw [pullLoop_last hroom.now (.inr ⟨hcode, by omega, hnil⟩)]
          rfl
      | normalList hi hcode hlist hcache tail => cases hdirect.head

variable (supplied) in
/-- The rounds end before the list. -/
theorem pullLoop_full (h : s.OnStack top rest cs) (htop : top ≤ s.sp + 1) (hrest : 0 ≤ rest)
    (hdirect : Direct n cs) (hlen : n < cs.length) (hroom : s.Room n cs) :
    ∃ rest', 0 ≤ rest' ∧
      (s.pushAll ((cs.take n).map StackCell.element)).OnStack top rest' (cs.drop n) ∧
      pullLoop supplied count n s rest =
        (s.pushAll ((cs.take n).map StackCell.element)).pullTrap supplied count count rest' := by
  induction n generalizing s rest cs with
  | zero => exact ⟨rest, hrest, h, rfl⟩
  | succ n ih =>
      cases h with
      | cdrNil hi hcode => simp at hlen
      | cdrNext hi hcode tail =>
          have hsp : (s.push (s.stack rest).cdrNext).sp = s.sp + 1 := rfl
          rw [pullLoop_next hroom.now hcode]
          exact ih (tail.congr (sameBelow_push htop)) (by rw [hsp]; omega) (by omega)
            hdirect.tail (Nat.lt_of_succ_lt_succ hlen) (hroom.push rfl)
      | normalNil hi hcode hnil => simp at hlen
      | normalList hi hcode hlist hcache tail => cases hdirect.head

variable (supplied) in
/-- A cell that branches ends the loop too early. -/
theorem pullLoop_trap (h : s.OnStack top rest cs) (htop : top ≤ s.sp + 1)
    (hdirect : ¬ Direct n cs) (hn : n ≤ count) (hroom : s.Room n cs) :
    (pullLoop supplied count n s rest).2 ≠ 0 := by
  induction n generalizing s rest cs with
  | zero => exact absurd (fun c hc => by simp at hc) hdirect
  | succ n ih =>
      cases h with
      | cdrNil hi hcode =>
          refine absurd (fun c hc => ?_) hdirect
          obtain rfl := List.mem_singleton.mp (List.mem_of_mem_take hc)
          rfl
      | cdrNext hi hcode tail =>
          have hsp : (s.push (s.stack rest).cdrNext).sp = s.sp + 1 := rfl
          rw [pullLoop_next hroom.now hcode]
          refine ih (tail.congr (sameBelow_push htop)) (by rw [hsp]; omega) (fun hall => ?_)
            (by omega) (hroom.push rfl)
          refine hdirect fun c hc => ?_
          obtain rfl | hc := List.mem_cons.mp hc
          · rfl
          · exact hall c hc
      | normalNil hi hcode hnil =>
          refine absurd (fun c hc => ?_) hdirect
          obtain rfl := List.mem_singleton.mp (List.mem_of_mem_take hc)
          rfl
      | normalList hi hcode hlist hcache tail =>
          rw [pullLoop_branch hroom.now hcode (by omega) hlist hcache]
          simp only [pullTrap]
          omega

end Loop

/-! ### The frame behind the loop -/

section Frames

variable {s t : Processor} {args os : List LispObj} {cs : List StackCell} {top i : Int}
  {count minimum maximum : Nat}

theorem OnStack.pushed (h : s.OnStack top i cs) : ∀ c ∈ cs, c.element.cdrNext = c.element := by
  induction h with
  | cdrNil hi h => simp [LispObj.cdrNext_cdrNext]
  | cdrNext hi h tail ih => simpa [LispObj.cdrNext_cdrNext] using ih
  | normalNil hi h hnil => simp [LispObj.cdrNext_cdrNext]
  | normalList hi h hlist hcache tail ih => simpa [LispObj.cdrNext_cdrNext] using ih

/-- Arguments that are pushed lie behind those that are there. -/
theorem words_pushAll (hwords : ∀ (k : Nat) a, args[k]? = some a → s.stack (s.fp + 2 + k) = a)
    (hsp : s.sp = s.fp + 1 + args.length) (k : Nat) (a : LispObj)
    (h : (args ++ os)[k]? = some a) : (s.pushAll os).stack (s.fp + 2 + k) = a := by
  rw [List.getElem?_append] at h
  split at h
  · rw [stack_pushAll_le (by omega)]
    exact hwords k a h
  · have hplace : s.fp + 2 + (k : Int) = s.sp + 1 + ((k - args.length : Nat) : Int) := by omega
    rw [hplace]
    exact stack_pushAll h

/-- The top of the stack makes room for elements of its list. -/
theorem Applied.sp_dropTop (h : s.Applied args cs) :
    s.dropTop.sp = s.dropTop.fp + 1 + args.length := by
  change s.sp - 1 = s.fp + 1 + args.length
  rw [h.sp]
  omega

theorem Applied.cells_dropTop (h : s.Applied args cs) :
    s.dropTop.OnStack s.sp (s.stackIndex (s.stack s.sp)) cs :=
  h.list.cells.congr ⟨rfl, fun _ _ => .inl rfl⟩

/-- A frame with more arguments, once these are pushed and counted. -/
theorem Applied.frame {u : Processor} {c : Integer} {n : Nat} (h : s.Applied args cs)
    (hpushed : ∀ o ∈ os, o.cdrNext = o)
    (hstack : ∀ j ≤ s.dropTop.sp + os.length, u.stack j = (s.dropTop.pushAll os).stack j)
    (hfp : u.fp = s.fp) (hcontrol : u.control = writeControlArgumentSize c n)
    (hn : n = args.length + os.length + 2) (hfit : n < 256) (hlp : u.lp = s.lp + os.length) :
    u.Frame (args ++ os) := by
  refine ⟨fun k a ha => ?_, fun a ha => ?_, ?_, ?_, ?_⟩
  · have hk : k < (args ++ os).length := (List.getElem?_eq_some_iff.mp ha).1
    rw [hfp, hstack _ (by rw [h.sp_dropTop]; simp only [List.length_append] at hk; simp only [dropTop]; omega)]
    exact words_pushAll (s := s.dropTop) h.words h.sp_dropTop k a ha
  · obtain ha | ha := List.mem_append.mp ha
    · exact h.pushed a ha
    · exact hpushed a ha
  · rw [hcontrol, argumentSize_writeArgumentSize _ hfit, hn, List.length_append]
  · rw [hlp, hfp, h.lp, List.length_append]
    omega
  · rw [hfp]
    exact h.bottom

/-- The list is exhausted: all arguments lie on the stack. -/
theorem pullApplyArgsQuickly_exhausted (h : s.Applied args cs) (hdirect : Direct count cs)
    (hlen : cs.length ≤ count) (hfit : args.length + count + 2 < 256)
    (hroom : s.dropTop.Room count cs) :
    ∃ t, s.pullApplyArgsQuickly count = (t, 0) ∧
      t.Plain (args ++ cs.map StackCell.element) ∧ t.fp = s.fp ∧ t.pc = s.pc := by
  have hpos : 0 < cs.length := List.length_pos_of_ne_nil h.list.cells.ne_nil
  have hloop := pullLoop_exhausted (readControlArgumentSize s.control)
    h.cells_dropTop (show s.sp ≤ s.sp - 1 + 1 by omega) hdirect hlen (Nat.le_refl count) hroom
  refine ⟨_, hloop, ⟨?_, ?_, ?_⟩, ?_, ?_⟩
  · refine h.frame (c := writeControlApply s.control 0) (n := args.length + cs.length + 2) ?_
      (fun _ _ => rfl) ?_ ?_ (by rw [List.length_map]) (by omega) ?_
    · intro o ho
      obtain ⟨c, hc, rfl⟩ := List.mem_map.mp ho
      exact h.list.cells.pushed c hc
    · simp [exhausted, dropTop]
    · simp only [exhausted, control_pushAll, h.size]
      change writeControlArgumentSize (writeControlApply s.control 0) _ = _
      congr 1
      omega
    · simp only [exhausted, lp_pushAll, List.length_map]
      change s.lp + _ = _
      omega
  · simp only [exhausted]
    rw [apply_writeArgumentSize, apply_writeApply_zero]
  · simp only [exhausted, fp_pushAll, sp_pushAll, List.length_append, List.length_map]
    rw [h.sp_dropTop]
    omega
  · simp [exhausted, dropTop]
  · simp [exhausted, dropTop]

/-- The address of a word of the stack cache leads back to it. -/
theorem toNat_stackAddress (s : Processor) {i : Int} (h0 : 0 ≤ i) (hi : i < 4 * 256) :
    ((s.stackAddress i - s.stackCacheBase).toNat : Int) = i := by
  obtain ⟨k, rfl⟩ := Int.eq_ofNat_of_zero_le h0
  have hdiff : s.stackAddress (k : Int) - s.stackCacheBase = BitVec.ofNat 32 k := by
    unfold stackAddress
    rw [BitVec.ofInt_natCast]
    bv_omega
  rw [hdiff, BitVec.toNat_ofNat]
  omega

/-- A list object that is pushed for the cells from a word on. -/
theorem listBelow_push {rest : Int} (h : s.OnStack top rest cs) (htop : top ≤ s.sp + 1)
    (h0 : 0 ≤ rest) (hrest : rest < 4 * 256) :
    (s.push ⟨typeList, s.stackAddress rest⟩).ListBelow (s.sp + 1)
      ((s.push ⟨typeList, s.stackAddress rest⟩).stack (s.sp + 1)) cs := by
  have hword : (s.push ⟨typeList, s.stackAddress rest⟩).stack (s.sp + 1) =
      ⟨typeList, s.stackAddress rest⟩ := Cpu.push_stack_top ..
  have htype : tagType typeList = typeList := by decide
  have hindex := s.toNat_stackAddress h0 hrest
  have hcells : (s.push ⟨typeList, s.stackAddress rest⟩).OnStack (s.sp + 1) rest cs :=
    (h.congr (sameBelow_push htop)).mono htop
  rw [hword]
  refine ⟨htype, ?_, ?_⟩
  · change (s.stackAddress rest - s.stackCacheBase).toNat < 4 * 256
    omega
  · change OnStack _ _ ((s.stackAddress rest - s.stackCacheBase).toNat : Int) cs
    rw [hindex]
    exact hcells

/-- The count is reached: the rest of the list is left to apply. -/
theorem pullApplyArgsQuickly_full (h : s.Applied args cs) (hcache : s.sp < 4 * 256)
    (hdirect : Direct count cs) (hlen : count < cs.length) (hfit : args.length + count + 2 < 256)
    (hroom : s.dropTop.Room count cs) :
    ∃ t, s.pullApplyArgsQuickly count = (t, 0) ∧
      t.Applied (args ++ (cs.take count).map StackCell.element) (cs.drop count) ∧
      t.fp = s.fp ∧ t.pc = s.pc := by
  obtain ⟨rest, hrest, hleft, hloop⟩ := pullLoop_full
    (readControlArgumentSize s.control) (n := count) h.cells_dropTop
    (show s.sp ≤ s.sp - 1 + 1 by omega) (Int.natCast_nonneg _) hdirect hlen hroom
  have hcount : ((cs.take count).map StackCell.element).length = count := by
    rw [List.length_map, List.length_take, Nat.min_eq_left (Nat.le_of_lt hlen)]
  generalize hos : (cs.take count).map StackCell.element = os at hleft hloop hcount
  refine ⟨_, hloop.trans (Prod.ext rfl (Nat.sub_self count)), ⟨?_, ?_, ?_, ?_⟩, ?_, ?_⟩
  · refine h.frame (c := s.control) (n := args.length + count + 2) ?_ ?_ ?_ ?_ (by rw [hcount])
      (by omega) ?_
    · intro o ho
      rw [← hos] at ho
      obtain ⟨c, hc, rfl⟩ := List.mem_map.mp ho
      exact h.list.cells.pushed c (List.mem_of_mem_take hc)
    · intro j hj
      refine Cpu.push_stack_le _ _ ?_
      rw [sp_pushAll]
      exact hj
    · simp [pullTrap, push, Cpu.push, dropTop]
    · simp only [pullTrap, control_pushAll, h.size]
      change writeControlArgumentSize s.control _ = _
      congr 1
      omega
    · simp only [pullTrap, lp_pushAll, hcount]
      rfl
  · simp only [pullTrap, control_pushAll]
    rw [apply_writeArgumentSize]
    exact h.apply
  · simp only [pullTrap, push, Cpu.push, fp_pushAll, sp_pushAll, List.length_append, hcount]
    rw [h.sp_dropTop]
    omega
  · have hlist := listBelow_push hleft (by rw [sp_pushAll]; simp only [dropTop]; omega) hrest
      (by have hlt := hleft.lt_top; omega)
    exact hlist.congr ⟨rfl, fun _ _ => .inl rfl⟩
  · simp [pullTrap, push, Cpu.push, dropTop]
  · simp [pullTrap, push, Cpu.push, dropTop]

/-! ### The list of the other arguments -/

/-- Words without a cdr code run on into the cells behind them. -/
theorem onStack_run {j : Int} (hwords : ∀ (k : Nat) a, os[k]? = some a → t.stack (j + k) = a)
    (hpushed : ∀ a ∈ os, a.cdrNext = a) (tail : t.OnStack top (j + os.length) cs) :
    t.OnStack top j (os.map (fun o => ⟨o, false⟩) ++ cs) := by
  induction os generalizing j with
  | nil => simpa using tail
  | cons o os ih =>
      have hword : t.stack j = o := by simpa using hwords 0 o rfl
      have ho := hpushed o List.mem_cons_self
      have hrest : t.OnStack top (j + 1) (os.map (fun o => ⟨o, false⟩) ++ cs) := by
        refine ih (fun k a ha => ?_) (fun a ha => hpushed a (List.mem_cons_of_mem _ ha)) ?_
        · rw [← hwords (k + 1) a (by simpa using ha)]
          congr 1
          push_cast
          omega
        · rw [List.length_cons] at tail
          rw [show j + 1 + (os.length : Int) = j + ((os.length + 1 : Nat) : Int) by omega]
          exact tail
      have hlt := tail.lt_top
      have hcell := OnStack.cdrNext (i := j) (by omega)
        (by rw [hword]; exact (tagCdr_setTagCdr (tagType_of_cdrNext ho)).1) hrest
      rw [hword, ho] at hcell
      exact hcell

/-- The arguments of a frame from one on, in front of a cell that holds the last. -/
theorem Frame.run {front : List LispObj} {last : LispObj} {k : Nat} {u : Processor}
    (h : t.Frame (front ++ [last])) (hk : k ≤ front.length)
    (hsame : ∀ j < t.fp + 2 + front.length, u.stack j = t.stack j)
    (tail : u.OnStack top (t.fp + 2 + front.length) cs) :
    u.OnStack top (t.fp + 2 + k) ((front.drop k).map (fun o => ⟨o, false⟩) ++ cs) := by
  refine onStack_run (fun i a ha => ?_) (fun a ha => ?_) ?_
  · rw [List.getElem?_drop] at ha
    have hlt : k + i < front.length := (List.getElem?_eq_some_iff.mp ha).1
    rw [hsame _ (by omega), ← h.words (k + i) a (by rw [List.getElem?_append_left hlt, ha])]
    congr 1
    push_cast
    omega
  · exact h.pushed a (List.mem_append_left _ (List.mem_of_mem_drop ha))
  · rw [List.length_drop, show t.fp + 2 + (k : Int) + ((front.length - k : Nat) : Int) =
      t.fp + 2 + front.length by omega]
    exact tail

/-- The last argument ends the list. -/
theorem Plain.lastCell {front : List LispObj} {last : LispObj} (h : t.Plain (front ++ [last])) :
    (t.setCdr t.sp 1).OnStack (t.sp + 1) (t.fp + 2 + front.length) [⟨last, false⟩] := by
  have hlast : last.cdrNext = last := h.pushed last (by simp)
  have hplace : t.fp + 2 + (front.length : Int) = t.sp := by
    rw [h.sp, List.length_append, List.length_singleton]
    omega
  have hword : t.stack t.sp = last := by
    rw [← hplace]
    exact h.words front.length last (by simp)
  have hset : (t.setCdr t.sp 1).stack t.sp = ⟨setTagCdr last.tag 1, last.data⟩ := by
    simp [setCdr, hword]
  have hcell : (t.setCdr t.sp 1).OnStack (t.sp + 1) t.sp
      [⟨((t.setCdr t.sp 1).stack t.sp).cdrNext, false⟩] := .cdrNil (by omega) (by
    rw [hset]
    exact (tagCdr_setTagCdr (tagType_of_cdrNext hlast)).2.1)
  have helement : ((t.setCdr t.sp 1).stack t.sp).cdrNext = last := by
    rw [hset, LispObj.cdrNext, (tagType_setTagCdr last.tag).1, ← LispObj.cdrNext, hlast]
  rw [helement] at hcell
  rw [hplace]
  exact hcell

/-- The list that is left to apply goes on behind the last argument. -/
theorem Applied.lastCell {front : List LispObj} {last : LispObj}
    (h : t.Applied (front ++ [last]) cs) :
    ((t.setCdr t.sp 1).setCdr (t.sp - 1) 2).OnStack (t.sp + 1) (t.fp + 2 + front.length)
      (⟨last, true⟩ :: cs) := by
  let u := (t.setCdr t.sp 1).setCdr (t.sp - 1) 2
  have hlast : last.cdrNext = last := h.pushed last (by simp)
  have hplace : t.fp + 2 + (front.length : Int) = t.sp - 1 := by
    rw [h.sp, List.length_append, List.length_singleton]
    omega
  have hword : t.stack (t.sp - 1) = last := by
    rw [← hplace]
    exact h.words front.length last (by simp)
  have hset : u.stack (t.sp - 1) = ⟨setTagCdr last.tag 2, last.data⟩ := by
    simp [u, setCdr, hword]
  have htop : u.stack t.sp = ⟨setTagCdr (t.stack t.sp).tag 1, (t.stack t.sp).data⟩ := by
    exact Function.update_of_ne (show t.sp ≠ t.sp - 1 by omega) _ _ |>.trans
      (Function.update_self ..)
  have helement : (u.stack (t.sp - 1)).cdrNext = last := by
    rw [hset, LispObj.cdrNext, (tagType_setTagCdr last.tag).2, ← LispObj.cdrNext, hlast]
  have hcode := tagCdr_setTagCdr (tagType_of_cdrNext hlast)
  have hsame : t.SameBelow u t.sp := by
    refine ⟨rfl, fun j hj => ?_⟩
    by_cases hj' : j = t.sp - 1
    · subst hj'
      refine .inr ⟨by omega, ?_, ?_⟩
      · rw [hword]
        exact hcode.1
      · rw [helement, hword, hlast]
    · left
      change Function.update (Function.update t.stack _ _) _ _ j = _
      rw [Function.update_of_ne hj', Function.update_of_ne (by omega)]
  have hindex : u.stackIndex (u.stack t.sp) = t.stackIndex (t.stack t.sp) := by
    rw [htop]
    rfl
  have hnext : t.sp - 1 + 1 = t.sp := by omega
  have hcell : u.OnStack (t.sp + 1) (t.sp - 1) (⟨(u.stack (t.sp - 1)).cdrNext, true⟩ :: cs) :=
    .normalList (by omega)
    (by rw [hset]; exact hcode.2.2)
    (by rw [hnext, htop]; exact (tagType_setTagCdr _).1.trans h.list.isList)
    (by rw [hnext, htop]; exact h.list.inCache)
    (by
      rw [hnext, hindex]
      exact (h.list.cells.congr hsame).mono (by omega))
  rw [helement] at hcell
  rw [hplace]
  exact hcell

/-- The list object for the arguments from the maximum on. -/
def restObject (s : Processor) (maximum : Nat) : LispObj :=
  ⟨typeList, s.stackAddress (s.fp + (maximum + 2 : Nat))⟩

/-- Where there are more arguments than the maximum, a list of the others is pushed. -/
theorem Frame.restList {v : Processor} {front : List LispObj} {last : LispObj}
    {tail : List StackCell} (h : t.Frame (front ++ [last])) (hk : maximum ≤ front.length)
    (hsp : v.sp = t.sp) (hfp : v.fp = t.fp) (hin : t.fp + 2 + front.length ≤ t.sp)
    (hcache : t.sp < 4 * 256) (hsame : ∀ j < t.fp + 2 + front.length, v.stack j = t.stack j)
    (hcell : v.OnStack (t.sp + 1) (t.fp + 2 + front.length) tail) :
    ∃ cs, (v.push (v.restObject maximum)).ListBelow (v.sp + 1)
        ((v.push (v.restObject maximum)).stack (v.sp + 1)) cs ∧
      cs.map StackCell.element = front.drop maximum ++ tail.map StackCell.element := by
  have hbottom := h.bottom
  have hplace : v.fp + ((maximum + 2 : Nat) : Int) = t.fp + 2 + maximum := by omega
  have hcells := h.run hk hsame hcell
  refine ⟨(front.drop maximum).map (fun o => ⟨o, false⟩) ++ tail, ?_, ?_⟩
  · rw [restObject, hplace]
    exact listBelow_push hcells (by omega) (by omega) (by omega)
  · rw [List.map_append, List.map_map]
    simp [Function.comp_def]

/-- The words up to the maximum stay. -/
theorem Frame.restWords {v : Processor} {front : List LispObj} {last o : LispObj}
    (h : t.Frame (front ++ [last])) (hk : maximum ≤ front.length) (hsp : v.sp = t.sp)
    (hfp : v.fp = t.fp) (hin : t.fp + 2 + front.length ≤ t.sp)
    (hsame : ∀ j < t.fp + 2 + front.length, v.stack j = t.stack j) {k : Nat} {a : LispObj}
    (ha : (front.take maximum)[k]? = some a) : (v.push o).stack (v.fp + 2 + k) = a := by
  have hlt : k < maximum := by
    have hlt := (List.getElem?_eq_some_iff.mp ha).1
    rw [List.length_take] at hlt
    omega
  rw [List.getElem?_take, if_pos hlt] at ha
  have hword := h.words k a (by rw [List.getElem?_append_left (by omega), ha])
  rw [← hword, hfp, ← hsame _ (by omega)]
  exact Cpu.push_stack_le _ _ (by omega)

end Frames

/-! ### The entries -/

section Entries

variable {s t : Processor} {args : List LispObj} {cs : List StackCell} {minimum maximum : Nat}

theorem advance_pc (h : t.pc = s.pc) (n : Int) : (t.advance n).pc = (s.advance n).pc := by
  simp only [advance, h]

/-- A nonempty list of arguments, with its last one apart. -/
theorem exists_last (h : maximum < args.length) :
    ∃ front last, args = front ++ [last] ∧ maximum ≤ front.length := by
  obtain rfl | ⟨front, last, rfl⟩ := args.eq_nil_or_concat
  · simp at h
  · exact ⟨front, last, List.concat_eq_append, by simpa [Nat.lt_succ_iff] using h⟩

/-- Nothing is left to apply, with more arguments than the maximum. -/
theorem rest_plain (h : t.Plain args) (hfp : t.fp = s.fp) (hpc : t.pc = s.pc)
    (hcache : t.sp < 4 * 256) (hover : maximum < args.length) :
    s.Rest ((((t.setCdr t.sp 1).push (t.restObject maximum)).advance
      (maximum - minimum + 2))) args minimum maximum := by
  obtain ⟨front, last, rfl, hk⟩ := exists_last hover
  have hplace : t.fp + 2 + (front.length : Int) = t.sp := by
    rw [h.sp, List.length_append, List.length_singleton]
    omega
  have hsame : ∀ j < t.fp + 2 + front.length, (t.setCdr t.sp 1).stack j = t.stack j :=
    fun j hj => Function.update_of_ne (by omega) _ _
  obtain ⟨cs, hlist, hcs⟩ := h.toFrame.restList hk (v := t.setCdr t.sp 1) rfl rfl (by omega) hcache
    hsame h.lastCell
  have hdrop : (front ++ [last]).drop maximum = front.drop maximum ++ [last] :=
    List.drop_append_of_le_length hk
  refine ⟨fun k a ha => ?_, ⟨cs, hlist.congr ⟨rfl, fun _ _ => .inl rfl⟩, hcs.trans hdrop.symm⟩,
    ?_, hfp, advance_pc hpc _⟩
  · rw [List.take_append_of_le_length hk] at ha
    exact h.toFrame.restWords hk (v := t.setCdr t.sp 1) rfl rfl (by omega) hsame ha
  · have hlp := h.lp
    rw [List.length_append, List.length_singleton] at hlp
    change t.lp = t.sp + 1
    omega

/-- A list is left to apply, with more arguments than the maximum already. -/
theorem rest_applied (h : s.Applied args cs) (hcache : s.sp < 4 * 256)
    (hover : maximum < args.length) :
    s.Rest ({ ((s.setCdr s.sp 1).setCdr (s.sp - 1) 2).push (s.restObject maximum) with
      lp := s.lp + 1
      control := writeControlArgumentSize s.control (1 + (args.length + 2 : Nat)) }.advance
        (maximum - minimum + 2)) (args ++ cs.map StackCell.element) minimum maximum := by
  obtain ⟨front, last, rfl, hk⟩ := exists_last hover
  let v := (s.setCdr s.sp 1).setCdr (s.sp - 1) 2
  have hplace : s.fp + 2 + (front.length : Int) = s.sp - 1 := by
    rw [h.sp, List.length_append, List.length_singleton]
    omega
  have hsame : ∀ j < s.fp + 2 + front.length, v.stack j = s.stack j := by
    intro j hj
    change Function.update (Function.update s.stack _ _) _ _ j = _
    rw [Function.update_of_ne (by omega), Function.update_of_ne (by omega)]
  obtain ⟨ds, hlist, hds⟩ := h.toFrame.restList hk (v := v) rfl rfl (by omega) hcache hsame
    h.lastCell
  have hdrop : (front ++ [last] ++ cs.map StackCell.element).drop maximum =
      front.drop maximum ++ (last :: cs.map StackCell.element) := by
    rw [List.append_assoc, List.drop_append_of_le_length hk]
    rfl
  refine ⟨fun k a ha => ?_, ⟨ds, hlist.congr ⟨rfl, fun _ _ => .inl rfl⟩, hds.trans hdrop.symm⟩,
    ?_, rfl, rfl⟩
  · rw [List.append_assoc, List.take_append_of_le_length hk] at ha
    exact h.toFrame.restWords hk (v := v) rfl rfl (by omega) hsame ha
  · have hlp := h.lp
    have hsp := h.sp
    change s.lp + 1 = s.sp + 1
    omega

/-- A list is left to apply, with as many arguments as the maximum. -/
theorem rest_full (h : t.Applied args cs) (hfp : t.fp = s.fp) (hpc : t.pc = s.pc)
    (hfull : args.length = maximum) :
    s.Rest (t.advance (maximum - minimum + 2)) (args ++ cs.map StackCell.element) minimum
      maximum := by
  refine ⟨fun k a ha => ?_, ⟨cs, h.list.congr ⟨rfl, fun _ _ => .inl rfl⟩, ?_⟩, ?_, hfp,
    advance_pc hpc _⟩
  · rw [List.take_append_of_le_length (by omega), List.take_of_length_le (by omega)] at ha
    exact h.words k a ha
  · rw [List.drop_append_of_le_length (by omega), List.drop_of_length_le (by omega)]
    rfl
  · exact h.lp.trans h.sp.symm

/-- `EntryRestAccepted` with nothing left to apply does what it is to do. -/
theorem restAccepted_right (h : t.Plain args) (hfp : t.fp = s.fp) (hpc : t.pc = s.pc)
    (hcache : maximum < args.length → t.sp < 4 * 256) (hle : minimum ≤ maximum) :
    s.AcceptedRight args minimum maximum (restAccepted (minimum + 2) (maximum + 2) t) := by
  unfold restAccepted
  rw [h.size]
  have hmore : ((maximum + 2 : Nat) : Int) - (minimum + 2 : Nat) + 2 = maximum - minimum + 2 := by
    omega
  have hcount : ((args.length + 2 : Nat) : Int) - (minimum + 2 : Nat) + 1 =
      args.length - minimum + 1 := by omega
  by_cases hover : maximum < args.length
  · simp only [if_pos (Nat.add_lt_add_right hover 2), hmore]
    refine ⟨by omega, ?_⟩
    rw [if_neg (Nat.not_le.mpr hover)]
    exact rest_plain h hfp hpc (hcache hover) hover
  · simp only [if_neg (show ¬ maximum + 2 < args.length + 2 by omega), hcount]
    by_cases hshort : args.length < minimum
    · rw [if_pos (Nat.add_lt_add_right hshort 2)]
      exact hshort
    · rw [if_neg (show ¬ args.length + 2 < minimum + 2 by omega)]
      refine ⟨by omega, ?_⟩
      rw [if_pos (Nat.not_lt.mp hover)]
      exact ⟨⟨⟨h.words, h.pushed, h.size, h.lp, h.bottom⟩, h.apply, h.sp⟩, hfp, advance_pc hpc _⟩

/-- And so does `EntryRestNotAccepted`. -/
theorem restNotAccepted_right (h : t.Plain args) (hfp : t.fp = s.fp) (hpc : t.pc = s.pc) :
    s.NotAcceptedRight args minimum maximum (restNotAccepted (minimum + 2) (maximum + 2) t) := by
  unfold restNotAccepted
  rw [h.size]
  have hcount : ((args.length + 2 : Nat) : Int) - (minimum + 2 : Nat) + 1 =
      args.length - minimum + 1 := by omega
  by_cases hin : minimum ≤ args.length ∧ args.length ≤ maximum
  · simp only [if_pos (show minimum + 2 ≤ args.length + 2 ∧ args.length + 2 ≤ maximum + 2 by omega),
      hcount]
    exact ⟨hin.1, hin.2, ⟨⟨h.words, h.pushed, h.size, h.lp, h.bottom⟩, h.apply, h.sp⟩, hfp,
      advance_pc hpc _⟩
  · simp only [if_neg (show ¬ (minimum + 2 ≤ args.length + 2 ∧ args.length + 2 ≤ maximum + 2) by
      omega)]
    exact hin

/-! ### A list to be spread -/

/-- The list is pulled, and the entry looks again. -/
theorem pullApply_retry {count : Nat} {retry : Processor → Option EntryOutcome}
    (h : s.Applied args cs) (hpull : s.pullApplyArgsQuickly count = (t, 0)) :
    s.pullApply count retry = retry t := by
  rw [pullApply, if_pos h.list.isList]
  simp only [if_pos h.list.inCache, hpull]
  simp

theorem pullApply_trap {count : Nat} (retry : Processor → Option EntryOutcome)
    (h : s.Applied args cs) (hpull : (s.pullApplyArgsQuickly count).2 ≠ 0) :
    ∃ n t, s.pullApply count retry = some (.pullApplyArgsTrap n t) := by
  refine ⟨(s.pullApplyArgsQuickly count).2, (s.pullApplyArgsQuickly count).1, ?_⟩
  rw [pullApply, if_pos h.list.isList]
  simp only [if_pos h.list.inCache]
  rw [if_pos hpull]

variable {operand : Integer}

/-- What the entries do with a list to apply. -/
theorem entry_applied (h : s.Applied args cs) (hmin : ldb 8 0 operand = minimum + 2)
    (hmax : ldb 8 8 operand = maximum + 2) (fuel : Nat) :
    (args.length < maximum →
      entryRestAccepted operand (fuel + 1) s =
          s.pullApply (maximum - args.length) (entryRestAccepted operand fuel) ∧
        entryRestNotAccepted operand (fuel + 1) s =
          s.pullApply (maximum - args.length) (entryRestNotAccepted operand fuel)) ∧
    (maximum ≤ args.length → entryRestNotAccepted operand (fuel + 1) s = some .illegalOperand) := by
  have hnil : ¬ tagType (s.stack s.sp).tag = typeNIL := by
    rw [h.list.isList]
    decide
  have hcount : maximum + 2 - (args.length + 2) = maximum - args.length := by omega
  refine ⟨fun hlt => ⟨?_, ?_⟩, fun hge => ?_⟩
  · rw [entryRestAccepted]
    simp only [hmin, hmax, h.size]
    rw [if_pos h.apply, if_neg hnil, if_neg (by omega), if_pos (by omega), hcount]
  · rw [entryRestNotAccepted]
    simp only [hmin, hmax, h.size]
    rw [if_pos h.apply, if_neg hnil, if_neg (by omega), hcount]
  · rw [entryRestNotAccepted]
    simp only [hmin, hmax, h.size]
    rw [if_pos h.apply, if_neg hnil, if_pos (by omega)]

/-- A list of the others is right where there are more than the maximum. -/
theorem acceptedRight_rest {all : List LispObj} {u : Processor} (hle : minimum ≤ maximum)
    (hlong : maximum < all.length) (h : s.Rest u all minimum maximum) :
    s.AcceptedRight all minimum maximum (.enter u) := by
  refine ⟨by omega, ?_⟩
  rw [if_neg (Nat.not_le.mpr hlong)]
  exact h

theorem notAcceptedRight_illegal {all : List LispObj} (hlong : maximum < all.length) :
    s.NotAcceptedRight all minimum maximum .illegalOperand :=
  fun hin => absurd hin.2 (Nat.not_le.mpr hlong)

/-- With the maximum reached, the list to apply becomes the rest. -/
theorem entryRestAccepted_over (h : t.Applied args cs) (hmin : ldb 8 0 operand = minimum + 2)
    (hmax : ldb 8 8 operand = maximum + 2) (hle : minimum ≤ maximum) (hfp : t.fp = s.fp)
    (hpc : t.pc = s.pc) (hfull : maximum ≤ args.length)
    (hover : maximum < args.length → t = s ∧ t.sp < 4 * 256) :
    ∃ out, (∀ fuel, entryRestAccepted operand (fuel + 1) t = some out) ∧
      s.AcceptedRight (args ++ cs.map StackCell.element) minimum maximum out := by
  have hnil : ¬ tagType (t.stack t.sp).tag = typeNIL := by
    rw [h.list.isList]
    decide
  have hpos : 0 < cs.length := List.length_pos_of_ne_nil h.list.cells.ne_nil
  have hmore : ((maximum + 2 : Nat) : Int) - (minimum + 2 : Nat) + 2 = maximum - minimum + 2 := by
    omega
  have hlong : maximum < (args ++ cs.map StackCell.element).length := by
    rw [List.length_append, List.length_map]
    omega
  by_cases hlt : maximum < args.length
  · obtain ⟨rfl, hcache⟩ := hover hlt
    refine ⟨_, fun fuel => ?_, acceptedRight_rest hle hlong (rest_applied h hcache hlt)⟩
    rw [entryRestAccepted]
    simp only [hmin, hmax, h.size]
    rw [if_pos h.apply, if_neg hnil, if_pos (by omega), hmore]
    rfl
  · have heq : args.length = maximum := by omega
    refine ⟨_, fun fuel => ?_, acceptedRight_rest hle hlong (rest_full h hfp hpc heq)⟩
    rw [entryRestAccepted]
    simp only [hmin, hmax, h.size]
    rw [if_pos h.apply, if_neg hnil, if_neg (by omega), if_neg (by omega), heq, hmore]

/-- What the entries do with nothing left to apply. -/
theorem entry_plain (h : t.Plain args) (hmin : ldb 8 0 operand = minimum + 2)
    (hmax : ldb 8 8 operand = maximum + 2) (fuel : Nat) :
    entryRestAccepted operand (fuel + 1) t = some (restAccepted (minimum + 2) (maximum + 2) t) ∧
      entryRestNotAccepted operand (fuel + 1) t =
        some (restNotAccepted (minimum + 2) (maximum + 2) t) := by
  have hnot : ¬ readControlApply t.control ≠ 0 := not_not.mpr h.apply
  constructor
  · rw [entryRestAccepted]
    simp only [hmin, hmax]
    rw [if_neg hnot]
  · rw [entryRestNotAccepted]
    simp only [hmin, hmax]
    rw [if_neg hnot]

/-- With NIL left to apply, that is dropped. -/
theorem entry_applyNil (apply : readControlApply s.control ≠ 0)
    (hnil : tagType (s.stack s.sp).tag = typeNIL) (hmin : ldb 8 0 operand = minimum + 2)
    (hmax : ldb 8 8 operand = maximum + 2) (fuel : Nat) :
    entryRestAccepted operand (fuel + 1) s =
        some (restAccepted (minimum + 2) (maximum + 2) s.applyNil) ∧
      entryRestNotAccepted operand (fuel + 1) s =
        some (restNotAccepted (minimum + 2) (maximum + 2) s.applyNil) := by
  constructor
  · rw [entryRestAccepted]
    simp only [hmin, hmax]
    rw [if_pos apply, if_pos hnil]
  · rw [entryRestNotAccepted]
    simp only [hmin, hmax]
    rw [if_pos apply, if_pos hnil]

/-- Both entries of a frame with these arguments are right, after two looks at most. -/
def EntriesRight (s : Processor) (operand : Integer) (all : List LispObj)
    (minimum maximum : Nat) : Prop :=
  (∃ out, (∀ fuel, 2 ≤ fuel → entryRestAccepted operand fuel s = some out) ∧
    s.AcceptedRight all minimum maximum out) ∧
  ∃ out, (∀ fuel, 2 ≤ fuel → entryRestNotAccepted operand fuel s = some out) ∧
    s.NotAcceptedRight all minimum maximum out

/-- An outcome of one look and of every later one. -/
theorem entriesRight_of {all : List LispObj} {accepted notAccepted : EntryOutcome}
    (haccepted : ∀ fuel, entryRestAccepted operand (fuel + 2) s = some accepted)
    (hnotAccepted : ∀ fuel, entryRestNotAccepted operand (fuel + 2) s = some notAccepted)
    (hright : s.AcceptedRight all minimum maximum accepted)
    (hnotRight : s.NotAcceptedRight all minimum maximum notAccepted) :
    s.EntriesRight operand all minimum maximum := by
  refine ⟨⟨accepted, fun fuel hfuel => ?_, hright⟩, ⟨notAccepted, fun fuel hfuel => ?_, hnotRight⟩⟩
  · obtain ⟨fuel, rfl⟩ := Nat.exists_eq_add_of_le' hfuel
    exact haccepted fuel
  · obtain ⟨fuel, rfl⟩ := Nat.exists_eq_add_of_le' hfuel
    exact hnotAccepted fuel

/-- Without a cell that branches the list is spread, and the second look is the last. -/
theorem entriesRight_applied (h : s.Applied args cs) (hmin : ldb 8 0 operand = minimum + 2)
    (hmax : ldb 8 8 operand = maximum + 2) (hle : minimum ≤ maximum) (hcache : s.sp < 4 * 256)
    (hroom : s.dropTop.Room (maximum - args.length) cs)
    (hdirect : Direct (maximum - args.length) cs) :
    s.EntriesRight operand (args ++ cs.map StackCell.element) minimum maximum := by
  have hlong : args.length < (args ++ cs.map StackCell.element).length := by
    have hpos : 0 < cs.length := List.length_pos_of_ne_nil h.list.cells.ne_nil
    rw [List.length_append, List.length_map]
    omega
  have hfit : maximum + 2 < 256 := hmax ▸ BitVec.isLt _
  by_cases hlt : args.length < maximum
  · have hfit : args.length + (maximum - args.length) + 2 < 256 := by omega
    have hlook := fun fuel => (entry_applied h hmin hmax (fuel + 1)).1 hlt
    by_cases hends : cs.length ≤ maximum - args.length
    · obtain ⟨t, hpull, ht, hfp, hpc⟩ :=
        pullApplyArgsQuickly_exhausted h hdirect hends hfit hroom
      have hall : ¬ maximum < (args ++ cs.map StackCell.element).length := by
        rw [List.length_append, List.length_map]
        omega
      refine entriesRight_of (fun fuel => ?_) (fun fuel => ?_)
        (restAccepted_right ht hfp hpc (fun hover => absurd hover hall) hle)
        (restNotAccepted_right ht hfp hpc)
      · rw [(hlook fuel).1, pullApply_retry h hpull, (entry_plain ht hmin hmax fuel).1]
      · rw [(hlook fuel).2, pullApply_retry h hpull, (entry_plain ht hmin hmax fuel).2]
    · obtain ⟨t, hpull, ht, hfp, hpc⟩ := pullApplyArgsQuickly_full h hcache hdirect
        (Nat.not_le.mp hends) hfit hroom
      have hlength : (args ++ (cs.take (maximum - args.length)).map StackCell.element).length =
          maximum := by
        rw [List.length_append, List.length_map, List.length_take]
        omega
      have hall : args ++ (cs.take (maximum - args.length)).map StackCell.element ++
          (cs.drop (maximum - args.length)).map StackCell.element =
          args ++ cs.map StackCell.element := by
        rw [List.append_assoc, ← List.map_append, List.take_append_drop]
      obtain ⟨out, hout, hright⟩ := entryRestAccepted_over (s := s) ht hmin hmax hle hfp hpc
        (Nat.le_of_eq hlength.symm) (fun hover => absurd hover (by omega))
      have hmore : maximum < (args ++ cs.map StackCell.element).length := by
        rw [List.length_append, List.length_map]
        omega
      refine entriesRight_of (fun fuel => ?_) (fun fuel => ?_) (hall ▸ hright)
        (notAcceptedRight_illegal hmore)
      · rw [(hlook fuel).1, pullApply_retry h hpull, hout fuel]
      · rw [(hlook fuel).2, pullApply_retry h hpull,
          (entry_applied ht hmin hmax fuel).2 (Nat.le_of_eq hlength.symm)]
  · have hfull : maximum ≤ args.length := Nat.not_lt.mp hlt
    obtain ⟨out, hout, hright⟩ := entryRestAccepted_over (s := s) h hmin hmax hle rfl rfl hfull
      (fun _ => ⟨rfl, hcache⟩)
    exact entriesRight_of (fun fuel => hout (fuel + 1))
      (fun fuel => (entry_applied h hmin hmax (fuel + 1)).2 hfull) hright
      (notAcceptedRight_illegal (by omega))

/-- A cell that branches makes an entry trap. -/
theorem not_entriesRight (h : s.Applied args cs) (hmin : ldb 8 0 operand = minimum + 2)
    (hmax : ldb 8 8 operand = maximum + 2)
    (hroom : s.dropTop.Room (maximum - args.length) cs)
    (hdirect : ¬ Direct (maximum - args.length) cs) {all : List LispObj} :
    ¬ s.EntriesRight operand all minimum maximum := by
  intro ⟨⟨out, hout, hright⟩, _⟩
  have hlt : args.length < maximum := by
    by_contra hge
    rw [Nat.sub_eq_zero_of_le (Nat.not_lt.mp hge)] at hdirect
    exact hdirect fun c hc => by simp at hc
  have htrap := pullLoop_trap (readControlArgumentSize s.control) h.cells_dropTop
    (show s.sp ≤ s.sp - 1 + 1 by omega) hdirect (Nat.le_refl _) hroom
  obtain ⟨n, t, hpull⟩ := pullApply_trap (entryRestAccepted operand 1) h htrap
  have hlook := hout 2 (Nat.le_refl 2)
  rw [((entry_applied h hmin hmax 1).1 hlt).1, hpull] at hlook
  obtain rfl := Option.some.inj hlook
  exact hright

end Entries

/-- A frame without arguments that is to apply the list from the word 5 on, and word 6 behind
it; word 7 ends a list. -/
def applying (first second : LispObj) : Processor where
  stack := fun i =>
    if i = 5 then first else if i = 6 then second else if i = 7 then ⟨0x48, 2⟩
    else ⟨typeList, 0xF8000005⟩
  sp := 12
  fp := 10
  lp := 12
  pc := ⟨typeEvenPC, 0x1000⟩
  continuation := objectNIL
  control := 0x20002
  stackCacheLimit := 896
  restartsp := 12
  stackCacheBase := 0xF8000000
  memory := fun _ => objectNIL

theorem applied_applying {first second : LispObj} {cs : List StackCell}
    (h : (applying first second).OnStack 12 5 cs) : (applying first second).Applied [] cs := by
  refine ⟨⟨fun k a ha => by simp at ha, fun a ha => by simp at ha, ?_, rfl, ?_⟩, ?_, rfl, ?_⟩
  · change ldb 8 0 0x20002 = _
    decide
  · change (0 : Int) ≤ 10
    omega
  · change ldb 1 17 0x20002 ≠ 0
    decide
  · have hindex : (applying first second).stackIndex ⟨typeList, 0xF8000005⟩ = 5 := by
      change ((((0xF8000005 : Integer) - 0xF8000000).toNat : Nat) : Int) = 5
      decide
    refine ⟨?_, ?_, hindex ▸ h⟩
    · change tagType typeList = typeList
      decide
    · change ((0xF8000005 : Integer) - 0xF8000000).toNat < 4 * 256
      decide

/-- Two elements, one cell behind the other. -/
theorem onStack_applying_next : (applying ⟨typeFixnum, 1⟩ ⟨0x48, 2⟩).OnStack 12 5
    [⟨⟨typeFixnum, 1⟩, false⟩, ⟨⟨typeFixnum, 2⟩, false⟩] :=
  .cdrNext (i := 5) (by decide) (by decide) (.cdrNil (i := 6) (by decide) (by decide))

end Processor

end Ivory
