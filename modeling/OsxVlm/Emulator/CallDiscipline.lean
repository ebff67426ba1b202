import Mathlib
import OsxVlm.Emulator.Control
import OsxVlm.Emulator.Calls

/-!
# The call discipline

Every call that was started and not returned from yet is on a list, with the
processor as it was before the start.  The frames on the stack are linked through
the words they save and the sizes in the control register, and a return brings the
processor back to where the call was started.
-/

namespace Ivory

/-- A call of the run, with the processor before it was started. -/
inductive Call where
  /-- Arguments are being pushed. -/
  | started (before : Cpu)
  /-- Its function runs. -/
  | frame (before : Cpu) (disposition : ValueDisposition)

/-- Where a return ends: frames that were called for return are left with it. -/
def landing : List Call → Option (Cpu × ValueDisposition × List Call)
  | [] => none
  | .started _ :: rest => landing rest
  | .frame before disposition :: rest =>
      if disposition = .return then landing rest else some (before, disposition, rest)

/-! ### Frames on the stack -/

/-- The words that the start of a call saves, above a stack that is untouched. -/
structure Saved (before s : Cpu) : Prop where
  below : ∀ i, i ≤ before.sp → s.stack i = before.stack i
  continuation : s.stack (before.sp + 1) =
    ⟨before.continuation.tag ||| 0xC0, before.continuation.data⟩
  control : (s.stack (before.sp + 2)).data = before.control

structure Started (before s : Cpu) : Prop where
  saved : Saved before s
  fp : s.fp = before.fp
  linkage : linkage s.control = linkage before.control
  above : before.sp + 2 + readControlExtraArgument s.control ≤ s.sp

structure Framed (before s : Cpu) (disposition : ValueDisposition) : Prop where
  saved : Saved before s
  fp : s.fp = before.sp + 1
  fp_le : before.fp ≤ s.fp
  linkage : linkage s.control = ⟨(s.fp - before.fp).toNat, disposition, 0⟩
  above : before.sp + 2 ≤ s.sp

/-- The processor is linked to all calls that are under way. -/
def Linked (s : Cpu) : List Call → Prop
  | [] => 0 ≤ s.fp
  | .started before :: rest => Started before s ∧ Linked before rest
  | .frame before disposition :: rest =>
      Framed before s disposition ∧ Linked before rest ∧
        (disposition = .return → (landing rest).isSome)

variable {s s' before : Cpu} {calls rest : List Call} {disposition : ValueDisposition}

theorem Linked.fp_nonneg (h : Linked s calls) : 0 ≤ s.fp := by
  induction calls generalizing s with
  | nil => exact h
  | cons call rest ih =>
      cases call with
      | started before =>
          obtain ⟨hstarted, hrest⟩ := h
          rw [hstarted.fp]
          exact ih hrest
      | frame before disposition =>
          obtain ⟨hframed, hrest, -⟩ := h
          exact (ih hrest).trans hframed.fp_le

/-- The words of a call stay while the stack is as it was up to them. -/
theorem Saved.stay (h : Saved before s) {top : Int} (htop : before.sp + 2 ≤ top)
    (hstack : ∀ i, i ≤ top → s'.stack i = s.stack i) : Saved before s' := by
  constructor
  · intro i hi
    rw [hstack i (by omega)]
    exact h.below i hi
  · rw [hstack _ (by omega)]
    exact h.continuation
  · rw [hstack _ (by omega)]
    exact h.control

/-- Words pushed on the stack leave the calls linked. -/
theorem Linked.stay (h : Linked s calls) (hfp : s'.fp = s.fp)
    (hlinkage : linkage s'.control = linkage s.control) (hsp : s.sp ≤ s'.sp)
    (hextra : s.sp + readControlExtraArgument s'.control ≤
      s'.sp + readControlExtraArgument s.control)
    (hstack : ∀ i, i ≤ s.sp → s'.stack i = s.stack i) : Linked s' calls := by
  cases calls with
  | nil =>
      unfold Linked at h ⊢
      omega
  | cons call rest =>
      cases call with
      | started before =>
          obtain ⟨hstarted, hrest⟩ := h
          have habove := hstarted.above
          refine ⟨?_, hrest⟩
          constructor
          · exact hstarted.saved.stay (by omega) hstack
          · exact hfp.trans hstarted.fp
          · exact hlinkage.trans hstarted.linkage
          · omega
      | frame before disposition =>
          obtain ⟨hframed, hrest, hreturn⟩ := h
          have habove := hframed.above
          refine ⟨?_, hrest, hreturn⟩
          constructor
          · exact hframed.saved.stay habove hstack
          · exact hfp.trans hframed.fp
          · rw [hfp]
            exact hframed.fp_le
          · rw [hfp, hlinkage]
            exact hframed.linkage
          · omega

theorem extraArgument_le (c : Integer) : readControlExtraArgument c ≤ 1 := by
  have := (c.extractLsb' 8 1).isLt
  unfold readControlExtraArgument ldb
  omega

/-- A call that is only started stands over the frame of its caller. -/
theorem Linked.skip (h : Linked s (.started before :: rest)) : Linked s rest := by
  obtain ⟨hstarted, hrest⟩ := h
  have habove := hstarted.above
  have hextra := extraArgument_le s.control
  apply hrest.stay hstarted.fp hstarted.linkage
  · omega
  · omega
  · exact hstarted.saved.below

/-! ### Values -/

/-- What a disposition leaves of the values. -/
def pushed : ValueDisposition → List LispObj → List LispObj
  | .effect, _ => []
  | .value, values => [(values.head?.getD objectNIL).cdrNext]
  | .multiple, values => values.map LispObj.cdrNext ++ [⟨typeFixnum, BitVec.ofNat 32 values.length⟩]
  | .return, _ => []

/-- The words of the stack from `start` on. -/
def HoldsAt (s : Cpu) (start : Int) (values : List LispObj) : Prop :=
  ∀ i (hi : i < values.length), s.stack (start + i) = values[i]

/-- The processor is back where the call was started, whatever was pushed since. -/
structure Back (before s : Cpu) : Prop where
  fp : s.fp = before.fp
  control : s.control = before.control
  continuation : s.continuation.cdrNext = before.continuation.cdrNext
  lp : s.lp = s.fp + readControlArgumentSize s.control
  below : ∀ i, i ≤ before.sp → s.stack i = before.stack i

/-- It is back with what the disposition of the call asks of the values. -/
structure Returned (before : Cpu) (disposition : ValueDisposition) (values : List LispObj)
    (s : Cpu) : Prop extends Back before s where
  sp : s.sp = before.sp + (pushed disposition values).length
  values : HoldsAt s (before.sp + 1) (pushed disposition values)

theorem Back.push (h : Back before s) (hsp : before.sp ≤ s.sp) (o : LispObj) :
    Back before (s.push o) := by
  constructor
  · exact h.fp
  · exact h.control
  · exact h.continuation
  · exact h.lp
  · intro i hi
    rw [s.push_stack_le o (by omega)]
    exact h.below i hi

theorem HoldsAt.push {start : Int} {values : List LispObj} (h : HoldsAt s start values)
    (hsp : s.sp + 1 = start + values.length) (o : LispObj) :
    HoldsAt (s.push o) start (values ++ [o]) := by
  intro i hi
  rw [List.length_append, List.length_singleton] at hi
  by_cases hlt : i < values.length
  · rw [s.push_stack_le o (by omega), List.getElem_append_left hlt]
    exact h i hlt
  · obtain rfl : i = values.length := by omega
    rw [← hsp, Cpu.push_stack_top]
    simp

/-- The one word that was pushed last. -/
theorem HoldsAt.single {start : Int} (hsp : s.sp + 1 = start) (o : LispObj) :
    HoldsAt (s.push o) start [o] := by
  intro i hi
  obtain rfl : i = 0 := by simpa using hi
  rw [← hsp]
  simp

/-- Values that lie above the place they are pushed to are copied as they were. -/
theorem pushValues_spec (store : LispObj → LispObj) {values : List LispObj} {valueblock : Int}
    (hvalues : HoldsAt s valueblock values) (habove : s.sp + 1 ≤ valueblock) :
    HoldsAt (Cpu.pushValues store values.length valueblock s) (s.sp + 1) (values.map store) ∧
      (Cpu.pushValues store values.length valueblock s).sp = s.sp + values.length ∧
      (∀ i, i ≤ s.sp →
        (Cpu.pushValues store values.length valueblock s).stack i = s.stack i) := by
  induction values generalizing s valueblock with
  | nil =>
      refine ⟨?_, ?_, fun i hi => rfl⟩
      · intro i hi
        cases hi
      · simp [Cpu.pushValues]
  | cons value values ih =>
      have hhead : s.stack valueblock = value := by
        have := hvalues 0 (by simp)
        simpa using this
      have htail : HoldsAt (s.push (store value)) (valueblock + 1) values := by
        intro i hi
        rw [s.push_stack_ne _ (by omega)]
        have := hvalues (i + 1) (by simpa using hi)
        rw [List.getElem_cons_succ] at this
        rw [← this]
        congr 1
        push_cast
        ring
      obtain ⟨hcopied, hsp, hbelow⟩ := ih htail (by
        rw [Cpu.push_sp]
        omega)
      simp only [Cpu.pushValues, List.length_cons, hhead]
      rw [Cpu.push_sp] at hcopied hsp hbelow
      refine ⟨?_, ?_, ?_⟩
      · intro i hi
        cases i with
        | zero =>
            rw [hbelow _ (by omega)]
            simp
        | succ i =>
            have := hcopied i (by simpa using hi)
            simp only [List.map_cons, List.getElem_cons_succ]
            rw [← this]
            congr 1
            push_cast
            ring
      · rw [hsp]
        push_cast
        ring
      · intro i hi
        rw [hbelow i (by omega), s.push_stack_le _ hi]

theorem Back.pushValues (store : LispObj → LispObj) (n : Nat) (valueblock : Int)
    (h : Back before s) (hsp : before.sp ≤ s.sp) :
    Back before (Cpu.pushValues store n valueblock s) := by
  induction n generalizing s valueblock with
  | zero => exact h
  | succ n ih =>
      apply ih _ (h.push hsp _)
      rw [Cpu.push_sp]
      omega

/-! ### One frame -/

theorem Framed.valueDisposition (h : Framed before s disposition) :
    readControlValueDisposition s.control = disposition := congrArg Linkage.disposition h.linkage

theorem Framed.cleanupBits (h : Framed before s disposition) :
    readControlCleanupBits s.control = 0 := congrArg Linkage.cleanupBits h.linkage

theorem Framed.callerFrameSize (h : Framed before s disposition) :
    (readControlCallerFrameSize s.control : Int) = s.fp - before.fp := by
  have hsize : readControlCallerFrameSize s.control = (s.fp - before.fp).toNat :=
    congrArg Linkage.callerFrameSize h.linkage
  have := h.fp_le
  omega

theorem cdrNext_saved (o : LispObj) : LispObj.cdrNext ⟨o.tag ||| 0xC0, o.data⟩ = o.cdrNext := by
  have htag : ∀ t : Tag, tagType (t ||| 0xC0) = tagType t := by decide +kernel
  rw [LispObj.cdrNext, LispObj.cdrNext, htag]

/-- The frame that is left brings the processor back. -/
theorem Framed.back (h : Framed before s disposition) : Back before s.returnFrame := by
  have hcontrol : (s.stack (s.fp + 1)).data = before.control := by
    rw [h.fp, add_assoc]
    exact h.saved.control
  have hsize := h.callerFrameSize
  constructor
  · simp only [Cpu.returnFrame]
    omega
  · exact hcontrol
  · simp only [Cpu.returnFrame]
    rw [h.fp, h.saved.continuation]
    exact cdrNext_saved _
  · rfl
  · exact h.saved.below

theorem Framed.returnFrame_sp (h : Framed before s disposition) :
    s.returnFrame.sp = before.sp := by
  simp only [Cpu.returnFrame, h.fp]
  ring

/-- The caller's calls are linked again. -/
theorem Back.linked (h : Back before s) (hsp : before.sp ≤ s.sp) (hrest : Linked before rest) :
    Linked s rest := by
  apply hrest.stay h.fp
  · rw [h.control]
  · exact hsp
  · rw [h.control]
    omega
  · exact h.below

/-! ### Returns -/

/-- A frame that was not called for return pushes what its disposition asks. -/
theorem Framed.returnSingleFrame (h : Framed before s disposition)
    (hne : disposition ≠ .return) (scratch : LispObj) :
    Returned before disposition [scratch] (s.returnSingleFrame scratch) := by
  have hback := h.back
  have hsp := h.returnFrame_sp
  unfold Cpu.returnSingleFrame
  rw [h.valueDisposition]
  have hone : HoldsAt (s.returnFrame.pushObject scratch) (before.sp + 1) [scratch.cdrNext] :=
    HoldsAt.single (by rw [hsp]) _
  cases disposition with
  | effect => exact ⟨hback, by simp [pushed, hsp], fun i hi => by cases hi⟩
  | value =>
      refine ⟨hback.push (by omega) _, ?_, hone⟩
      simp [pushed, Cpu.pushObject, hsp]
  | multiple =>
      refine ⟨(hback.push (by omega) _).push ?_ _, ?_, hone.push ?_ _⟩
      · rw [Cpu.push_sp]
        omega
      · simp only [Cpu.pushFixnum, Cpu.pushObject, Cpu.push_sp, hsp, pushed]
        simp [add_assoc]
      · simp only [Cpu.pushObject, Cpu.push_sp, hsp]
        simp
  | «return» => exact absurd rfl hne

/-- A return of a single value from any number of frames. -/
theorem Linked.returnSingle (h : Linked s calls) (scratch : LispObj)
    (hland : landing calls = some (before, disposition, rest)) :
    ∃ s', (∀ fuel, calls.length ≤ fuel → Cpu.returnSingle scratch fuel s = some s') ∧
      Returned before disposition [scratch] s' ∧ Linked before rest := by
  induction calls generalizing s with
  | nil => cases hland
  | cons call calls ih =>
      cases call with
      | started start =>
          obtain ⟨s', hs', hreturned⟩ := ih h.skip hland
          refine ⟨s', fun fuel hfuel => hs' fuel ?_, hreturned⟩
          rw [List.length_cons] at hfuel
          omega
      | frame start disp =>
          obtain ⟨hframed, hrest, -⟩ := h
          unfold landing at hland
          split at hland
          · next hdisp =>
            -- handed on to the caller's own return
            have hframe : s.returnSingleFrame scratch = s.returnFrame := by
              rw [Cpu.returnSingleFrame, hframed.valueDisposition, hdisp]
            have hlinked := hframed.back.linked (le_of_eq hframed.returnFrame_sp.symm) hrest
            have hfp := hlinked.fp_nonneg
            obtain ⟨s', hs', hreturned⟩ := ih hlinked hland
            refine ⟨s', fun fuel hfuel => ?_, hreturned⟩
            rw [List.length_cons] at hfuel
            cases fuel with
            | zero => omega
            | succ fuel =>
                unfold Cpu.returnSingle
                rw [hframed.cleanupBits, hframed.valueDisposition, hframe, if_neg (by omega),
                  if_pos hdisp]
                exact hs' fuel (by omega)
          · next hdisp =>
            cases hland
            have hreturned := hframed.returnSingleFrame hdisp scratch
            have hfp := hrest.fp_nonneg
            refine ⟨s.returnSingleFrame scratch, fun fuel hfuel => ?_, hreturned, hrest⟩
            rw [List.length_cons] at hfuel
            cases fuel with
            | zero => omega
            | succ fuel =>
                unfold Cpu.returnSingle
                rw [hframed.cleanupBits, hframed.valueDisposition, hreturned.fp,
                  if_neg (by omega), if_neg hdisp]

/-- The values of a return lie above the words that the frame saved, and pass the size
check of every frame that hands them on. -/
def Fits (count : Nat) (s : Cpu) : List Call → Prop
  | [] => True
  | .started before :: rest => Fits count before rest
  | .frame before disposition :: rest =>
      (disposition = .multiple ∨ disposition = .return →
        s.fp - before.fp + count + 1 ≤ 112) ∧
      (disposition = .return → Fits count before rest)

theorem Fits.congr {count : Nat} (h : Fits count s calls) (hfp : s'.fp = s.fp) :
    Fits count s' calls := by
  cases calls with
  | nil => trivial
  | cons call rest =>
      cases call with
      | started before => exact h
      | frame before disposition =>
          unfold Fits at h ⊢
          rw [hfp]
          exact h

/-- In a frame the stack is above the words it saved. -/
theorem Linked.fp_lt (h : Linked s calls) (hland : (landing calls).isSome) : s.fp + 1 ≤ s.sp := by
  induction calls generalizing s with
  | nil => cases hland
  | cons call calls ih =>
      cases call with
      | started start =>
          obtain ⟨hstarted, hrest⟩ := h
          have hlt := ih hrest hland
          have habove := hstarted.above
          rw [hstarted.fp]
          omega
      | frame start disp =>
          obtain ⟨hframed, -, -⟩ := h
          have habove := hframed.above
          rw [hframed.fp]
          omega

theorem toNat_count {count : Integer} {n : Nat} (h : count.toInt = n) : count.toNat = n := by
  have hcond := BitVec.toInt_eq_toNat_cond count
  have hlt := count.isLt
  split at hcond <;> omega

theorem Framed.returnMultipleFrame (h : Framed before s disposition)
    (hne : disposition ≠ .return) {count : Integer} {values : List LispObj}
    (hcount : count.toInt = values.length)
    (hvalues : HoldsAt s (s.sp - values.length + 1) values)
    (habove : s.fp + 1 ≤ s.sp - values.length) :
    Returned before disposition values (s.returnMultipleFrame count) := by
  have hback := h.back
  have hsp := h.returnFrame_sp
  have hfp := h.fp
  have hblock : s.sp - (count.toInt - 1) = s.sp - values.length + 1 := by omega
  unfold Cpu.returnMultipleFrame
  dsimp only
  rw [h.valueDisposition, hblock, toNat_count hcount]
  cases disposition with
  | effect => exact ⟨hback, by simp [pushed, hsp], fun i hi => by cases hi⟩
  | value =>
      dsimp only
      have hone : ∀ o, HoldsAt (s.returnFrame.push o) (before.sp + 1) [o] := by
        intro o
        apply HoldsAt.single
        rw [hsp]
      cases values with
      | nil =>
          rw [if_neg (by simp [hcount])]
          refine ⟨hback.push (by omega) _, by simp [pushed, hsp], ?_⟩
          exact hone objectNIL
      | cons value values =>
          have hfirst := hvalues 0 (by simp)
          rw [if_pos (by simp [hcount])]
          refine ⟨hback.push (by omega) _, by simp [pushed, hsp, Cpu.pushObject], ?_⟩
          have hhead : s.stack (s.sp - (value :: values).length + 1) = value := by
            simpa using hfirst
          rw [hhead]
          exact hone value.cdrNext
  | multiple =>
      dsimp only
      obtain ⟨hcopied, hsp', hbelow⟩ := pushValues_spec (s := s.returnFrame) LispObj.cdrNext
        hvalues (by omega)
      have hfixnum : count = BitVec.ofNat 32 values.length := by
        rw [← toNat_count hcount, BitVec.ofNat_toNat, BitVec.setWidth_eq]
      rw [hsp] at hsp' hcopied
      refine ⟨(hback.pushValues _ _ _ (by omega)).push (by omega) _, ?_, ?_⟩
      · simp only [Cpu.pushFixnum, Cpu.push_sp, hsp', pushed]
        simp [add_assoc]
      · rw [pushed, ← hfixnum]
        apply hcopied.push
        rw [hsp', List.length_map]
        ring
  | «return» => exact absurd rfl hne

/-- A return of several values from any number of frames. -/
theorem Linked.returnMultiple (h : Linked s calls) {count : Integer} {values : List LispObj}
    (hcount : count.toInt = values.length)
    (hvalues : HoldsAt s (s.sp - values.length + 1) values)
    (habove : s.fp + 1 ≤ s.sp - values.length) (hfits : Fits values.length s calls)
    (hland : landing calls = some (before, disposition, rest)) :
    ∃ s', (∀ fuel, calls.length ≤ fuel → Cpu.returnMultiple count fuel s = some s') ∧
      Returned before disposition values s' ∧ Linked before rest := by
  induction calls generalizing s with
  | nil => cases hland
  | cons call calls ih =>
      cases call with
      | started start =>
          obtain ⟨s', hs', hreturned⟩ :=
            ih h.skip hvalues habove (Fits.congr hfits h.1.fp) hland
          refine ⟨s', fun fuel hfuel => hs' fuel ?_, hreturned⟩
          rw [List.length_cons] at hfuel
          omega
      | frame start disp =>
          obtain ⟨hframed, hrest, -⟩ := h
          obtain ⟨hsize, hcaller⟩ := hfits
          have hfit : ¬ s.returnTooLarge count := by
            unfold Cpu.returnTooLarge
            rw [hframed.valueDisposition, hframed.callerFrameSize, hcount]
            intro htoo
            have := hsize htoo.1
            omega
          unfold landing at hland
          split at hland
          · next hdisp =>
            -- the values are moved down to the caller and handed on
            have hblock : s.sp - (count.toInt - 1) = s.sp - values.length + 1 := by omega
            have hfp := hframed.fp
            have hsp := hframed.returnFrame_sp
            obtain ⟨hcopied, hsp', hbelow⟩ := pushValues_spec (s := s.returnFrame) id hvalues
              (by omega)
            have hback := hframed.back.pushValues id values.length
              (s.sp - values.length + 1) (le_of_eq hsp.symm)
            have hframe : s.returnMultipleFrame count =
                Cpu.pushValues id values.length (s.sp - values.length + 1) s.returnFrame := by
              unfold Cpu.returnMultipleFrame
              dsimp only
              rw [hframed.valueDisposition, hdisp, hblock, toNat_count hcount]
            generalize Cpu.pushValues id values.length (s.sp - values.length + 1)
              s.returnFrame = s₁ at *
            rw [List.map_id, hsp] at hcopied
            have hlinked := hback.linked (by omega) hrest
            have hnonneg := hlinked.fp_nonneg
            have hlt := hrest.fp_lt (by rw [hland]; rfl)
            obtain ⟨s', hs', hreturned⟩ := ih hlinked (by
              rw [hsp', hsp, show start.sp + values.length - values.length + 1 =
                start.sp + 1 by ring]
              exact hcopied) (by
              rw [hsp', hsp, hback.fp]
              omega) (Fits.congr (hcaller hdisp) hback.fp) hland
            refine ⟨s', fun fuel hfuel => ?_, hreturned⟩
            rw [List.length_cons] at hfuel
            cases fuel with
            | zero => omega
            | succ fuel =>
                have hgo : ¬ (s.returnTooLarge count ∨ 0 ≠ 0 ∨ s₁.fp < 0) := by
                  simp only [hfit, ne_eq, not_true_eq_false, false_or]
                  omega
                unfold Cpu.returnMultiple
                rw [hframed.cleanupBits, hframed.valueDisposition, hframe, if_neg hgo,
                  if_pos hdisp]
                exact hs' fuel (by omega)
          · next hdisp =>
            cases hland
            have hreturned := hframed.returnMultipleFrame hdisp hcount hvalues habove
            have hfp := hrest.fp_nonneg
            refine ⟨s.returnMultipleFrame count, fun fuel hfuel => ?_, hreturned, hrest⟩
            rw [List.length_cons] at hfuel
            cases fuel with
            | zero => omega
            | succ fuel =>
                have hgo : ¬ (s.returnTooLarge count ∨ 0 ≠ 0 ∨
                    (s.returnMultipleFrame count).fp < 0) := by
                  simp only [hfit, ne_eq, not_true_eq_false, false_or, hreturned.fp]
                  omega
                unfold Cpu.returnMultiple
                rw [hframed.cleanupBits, hframed.valueDisposition, if_neg hgo, if_neg hdisp]

/-! ### Runs -/

/-- The values that a return has on the stack, under its count. -/
structure Values (count : Integer) (s : Cpu) (calls : List Call) (values : List LispObj) :
    Prop where
  count : count.toInt = values.length
  holds : HoldsAt s (s.sp - values.length + 1) values
  above : s.fp + 1 ≤ s.sp - values.length
  fits : Fits values.length s calls

def Cpu.popped (s : Cpu) : Cpu := { s with sp := s.sp - 1 }

/-- The instruction returns these values from the frame. -/
def Returns (s : Cpu) (calls : List Call) : Action → List LispObj → Prop
  | .returnSingle single, values => values = [single.object s]
  | .returnMultiple (.immediate n), values => Values n s calls values
  | .returnMultiple .pop, values =>
      tagType (s.stack s.sp).tag = typeFixnum ∧
        Values (s.stack s.sp).data s.popped calls values
  | _, _ => False

/-- The call is finished with all the arguments that were pushed, and its sizes fit the
fields of the control register. -/
structure Finishes (before s : Cpu) (rest : List Call) (operand : Integer) (arguments : Int) :
    Prop where
  arguments_nonneg : 0 ≤ arguments
  arguments : s.sp = before.sp + 2 + readControlExtraArgument s.control + arguments
  argumentSize : s.sp - before.sp < 256
  fp_le : before.fp ≤ before.sp + 1
  callerFrameSize : before.sp + 1 - before.fp < 256
  handed : valueDisposition (ldb 2 8 operand) = .return → (landing rest).isSome

/-- Calls are properly nested: arguments are pushed and popped above the words of the
call, frames end in returns. -/
def Permits (s : Cpu) (calls : List Call) : Action → Prop
  | .pop =>
      match calls with
      | [] => True
      | .started before :: _ => before.sp + 2 + readControlExtraArgument s.control < s.sp
      | .frame before _ :: _ => before.sp + 2 < s.sp
  | .finishCallN operand _ =>
      ∃ before rest, calls = .started before :: rest ∧
        Finishes before s rest operand (ldb 8 0 operand - 1)
  | .finishCallTos operand _ =>
      ∃ before rest, calls = .started before :: rest ∧
        Finishes before s.popped rest operand (s.stack s.sp).data.toInt
  | .returnSingle _ => ∃ before disposition rest, calls = .frame before disposition :: rest
  | .returnMultiple operand =>
      (∃ before disposition rest, calls = .frame before disposition :: rest) ∧
        ∃ values, Returns s calls (.returnMultiple operand) values
  | _ => True

/-- The calls under way after an instruction. -/
def callsAfter (s : Cpu) (calls : List Call) : Action → List Call
  | .startCall _ _ => .started s :: calls
  | .callCompiled _ _ => .started s :: calls
  | .finishCallN operand _ => finish operand
  | .finishCallTos operand _ => finish operand
  | .returnSingle _ => landed
  | .returnMultiple _ => landed
  | _ => calls
where
  finish (operand : Integer) : List Call :=
    match calls with
    | .started before :: rest => .frame before (valueDisposition (ldb 2 8 operand)) :: rest
    | calls => calls
  landed : List Call :=
    match landing calls with
    | some (_, _, rest) => rest
    | none => []

/-- The instruction comes to an end. -/
def Executes (s : Cpu) (a : Action) (s' : Cpu) : Prop :=
  ∃ n, ∀ fuel, n ≤ fuel → s.execute fuel a = some s'

/-- The properly nested runs, with the calls under way at their end. -/
inductive Nested (s₀ : Cpu) : Cpu → List Call → Prop where
  | start (h : 0 ≤ s₀.fp) : Nested s₀ s₀ []
  | step {s s' : Cpu} {calls : List Call} {a : Action} (h : Nested s₀ s calls)
      (hpermits : Permits s calls a) (hexecutes : Executes s a s') :
      Nested s₀ s' (callsAfter s calls a)

theorem Executes.unique {a : Action} {s₁ s₂ : Cpu} (h₁ : Executes s a s₁)
    (h₂ : Executes s a s₂) : s₁ = s₂ := by
  obtain ⟨n₁, h₁⟩ := h₁
  obtain ⟨n₂, h₂⟩ := h₂
  have := (h₁ (max n₁ n₂) (le_max_left _ _)).symm.trans (h₂ (max n₁ n₂) (le_max_right _ _))
  exact Option.some.inj this

/-! ### Every instruction keeps the calls linked -/

theorem Saved.push {before s : Cpu} (h : Saved before s) (hsp : before.sp + 2 ≤ s.sp)
    (o : LispObj) : Saved before (s.push o) :=
  h.stay hsp fun _ hi => s.push_stack_le o hi

/-- The two words of a frame. -/
def Cpu.pushFrame (s : Cpu) : Cpu := (s.pushContinuation s.continuation).pushControl s.control

theorem Cpu.pushFrame_sp (s : Cpu) : s.pushFrame.sp = s.sp + 2 := by
  simp [Cpu.pushFrame, Cpu.pushControl, Cpu.pushContinuation, add_assoc]

theorem Saved.pushFrame (s : Cpu) : Saved s s.pushFrame := by
  unfold Cpu.pushFrame Cpu.pushControl Cpu.pushContinuation
  constructor
  · intro i hi
    rw [Cpu.push_stack_le _ _ (by rw [Cpu.push_sp]; omega), Cpu.push_stack_le _ _ hi]
  · rw [Cpu.push_stack_le _ _ (by rw [Cpu.push_sp])]
    exact Cpu.push_stack_top _ _
  · rw [show s.sp + 2 = (s.push ⟨s.continuation.tag ||| 0xC0, s.continuation.data⟩).sp + 1 by
      simp [add_assoc]]
    rw [Cpu.push_stack_top]

/-- The words of a call are pushed, and with a closure its environment. -/
theorem Linked.startCall (h : Linked s calls) (extraArgument : Option LispObj)
    (function : LispObj) :
    Linked (s.startCall extraArgument function) (.started s :: calls) := by
  refine ⟨?_, h⟩
  have hframe := Saved.pushFrame s
  have hsp := s.pushFrame_sp
  unfold Cpu.pushFrame at hframe hsp
  cases extraArgument with
  | none =>
      constructor
      · exact hframe.stay (le_of_eq hsp.symm) fun i _ => rfl
      · rfl
      · exact linkage_startControl _ _
      · simp only [Cpu.startCall, extra_startControl, hsp]
        simp
  | some argument =>
      constructor
      · apply hframe.stay (le_of_eq hsp.symm)
        intro i hi
        exact Cpu.push_stack_le _ _ hi
      · rfl
      · exact linkage_startControl _ _
      · simp only [Cpu.startCall, extra_startControl, Cpu.pushObject, Cpu.push_sp, hsp]
        simp

theorem Linked.startCallDispatch (h : Linked s calls) {memoryReadData : Integer → LispObj}
    {scratch : LispObj} (hs : s.startCallDispatch memoryReadData scratch = some s') :
    Linked s' (.started s :: calls) := by
  unfold Cpu.startCallDispatch at hs
  dsimp only at hs
  split at hs
  · cases hs
    exact h.startCall _ _
  · split at hs
    · cases hs
      exact h.startCall _ _
    · split at hs
      · cases hs
        exact h.startCall _ _
      · cases hs

theorem Linked.finishCall {operand : Integer} {arguments : Int}
    (h : Linked s (.started before :: rest)) (hfinish : Finishes before s rest operand arguments)
    (nextPc : LispObj)
    (hs : s.finishCall operand (s.sp - (arguments + 1) - readControlExtraArgument s.control)
      (s.sp + 1) nextPc = some s') :
    Linked s' (.frame before (valueDisposition (ldb 2 8 operand)) :: rest) := by
  obtain ⟨hstarted, hrest⟩ := h
  have hop1 : s.sp - (arguments + 1) - readControlExtraArgument s.control = before.sp + 1 := by
    have := hfinish.arguments
    omega
  rw [hop1] at hs
  unfold Cpu.finishCall at hs
  dsimp only at hs
  split at hs
  · cases hs
  · cases hs
    have habove := hstarted.above
    have hsize := hfinish.argumentSize
    have hframe := hfinish.callerFrameSize
    have hle := hfinish.fp_le
    have hfp := hstarted.fp
    refine ⟨?_, hrest, hfinish.handed⟩
    constructor
    · exact hstarted.saved.stay (show before.sp + 2 ≤ s.sp by omega) fun i _ => rfl
    · rfl
    · exact hle
    · dsimp only
      rw [linkage_finishControl (by omega) (by omega) (by omega) (by omega), hfp]
    · dsimp only
      omega

theorem Linked.landing_isSome {disp : ValueDisposition}
    (h : Linked s (.frame before disp :: rest)) :
    (landing (.frame before disp :: rest)).isSome := by
  obtain ⟨-, -, hreturn⟩ := h
  unfold landing
  split
  · next hdisp => exact hreturn hdisp
  · rfl

/-- A return ends, and the processor is back. -/
theorem Linked.returns (h : Linked s calls) {a : Action} {values : List LispObj}
    (hcalls : ∃ start disp rest, calls = .frame start disp :: rest) (ha : Returns s calls a values)
    (hland : landing calls = some (before, disposition, rest)) :
    ∃ s', Executes s a s' ∧ Returned before disposition values s' ∧ Linked before rest := by
  cases a with
  | returnSingle single =>
      obtain rfl : values = [single.object s] := ha
      obtain ⟨s', hs', hreturned⟩ := h.returnSingle (single.object s) hland
      exact ⟨s', ⟨calls.length, hs'⟩, hreturned⟩
  | returnMultiple operand =>
      cases operand with
      | immediate n =>
          obtain ⟨hcount, hholds, habove, hfits⟩ := ha
          obtain ⟨s', hs', hreturned⟩ := h.returnMultiple hcount hholds habove hfits hland
          exact ⟨s', ⟨calls.length, hs'⟩, hreturned⟩
      | pop =>
          obtain ⟨hfixnum, hcount, hholds, habove, hfits⟩ := ha
          have hpopped : Linked s.popped calls := by
            obtain ⟨start, disp, rest, rfl⟩ := hcalls
            obtain ⟨hframed, hrest, hreturn⟩ := h
            have hfp := hframed.fp
            refine ⟨?_, hrest, hreturn⟩
            constructor
            · exact hframed.saved.stay le_rfl fun i _ => rfl
            · exact hframed.fp
            · exact hframed.fp_le
            · exact hframed.linkage
            · simp only [Cpu.popped] at habove ⊢
              omega
          obtain ⟨s', hs', hreturned⟩ := hpopped.returnMultiple hcount hholds habove hfits hland
          refine ⟨s', ⟨calls.length, fun fuel hfuel => ?_⟩, hreturned⟩
          simp only [Cpu.execute]
          rw [if_pos hfixnum]
          exact hs' fuel hfuel
  | _ => exact absurd ha (by simp [Returns])

theorem Linked.popped (h : Linked s calls) (hpermits : Permits s calls .pop) :
    Linked s.popped calls := by
  cases calls with
  | nil => exact h
  | cons call rest =>
      cases call with
      | started before =>
          obtain ⟨hstarted, hrest⟩ := h
          simp only [Permits] at hpermits
          refine ⟨?_, hrest⟩
          constructor
          · exact hstarted.saved.stay le_rfl fun i _ => rfl
          · exact hstarted.fp
          · exact hstarted.linkage
          · simp only [Cpu.popped]
            omega
      | frame before disp =>
          obtain ⟨hframed, hrest, hreturn⟩ := h
          simp only [Permits] at hpermits
          refine ⟨?_, hrest, hreturn⟩
          constructor
          · exact hframed.saved.stay le_rfl fun i _ => rfl
          · exact hframed.fp
          · exact hframed.fp_le
          · exact hframed.linkage
          · simp only [Cpu.popped]
            omega

theorem Linked.locateLocals (h : Linked s calls) : Linked s.locateLocals calls := by
  apply h.stay
  · rfl
  · exact linkage_writeArgumentSize _ _
  · simp [Cpu.locateLocals, Cpu.pushFixnum]
  · simp [Cpu.locateLocals, Cpu.pushFixnum, extra_writeArgumentSize]
  · intro i hi
    exact Cpu.push_stack_le _ _ hi

/-- A return of the run ends in the processor that the calls say. -/
theorem Linked.returned (h : Linked s calls) {a : Action} {values : List LispObj}
    (hcalls : ∃ start disp rest, calls = .frame start disp :: rest) (ha : Returns s calls a values)
    (hs : Executes s a s') : Linked s' (callsAfter.landed calls) := by
  obtain ⟨start, disp, outer, rfl⟩ := hcalls
  obtain ⟨⟨before, disposition, rest⟩, hland⟩ := Option.isSome_iff_exists.mp h.landing_isSome
  obtain ⟨s'', hs'', hreturned, hrest⟩ := h.returns ⟨start, disp, outer, rfl⟩ ha hland
  obtain rfl := hs.unique hs''
  rw [callsAfter.landed, hland]
  apply hreturned.toBack.linked _ hrest
  have := hreturned.sp
  omega

theorem Linked.step {a : Action} (h : Linked s calls) (hpermits : Permits s calls a)
    (hexecutes : Executes s a s') : Linked s' (callsAfter s calls a) := by
  have hexec := hexecutes
  obtain ⟨n, hn⟩ := hexec
  have hs := hn n le_rfl
  cases a with
  | startCall memoryReadData function => exact h.startCallDispatch hs
  | callCompiled pcType operand =>
      cases hs
      exact h.startCall _ _
  | push object =>
      cases hs
      change Linked (s.push object) calls
      apply h.stay
      · rfl
      · rfl
      · simp
      · simp
      · intro i hi
        exact Cpu.push_stack_le _ _ hi
  | pop =>
      cases hs
      exact h.popped hpermits
  | finishCallN operand nextPc =>
      obtain ⟨before, rest, rfl, hfinish⟩ := hpermits
      apply h.finishCall hfinish nextPc
      rw [sub_add_cancel]
      exact hs
  | finishCallTos operand nextPc =>
      obtain ⟨before, rest, rfl, hfinish⟩ := hpermits
      have hpopped : Linked s.popped (.started before :: rest) := by
        apply h.popped
        have hnonneg := hfinish.arguments_nonneg
        have hsp := hfinish.arguments
        simp only [Cpu.popped] at hsp
        simp only [Permits]
        omega
      exact hpopped.finishCall hfinish nextPc hs
  | locateLocals =>
      cases hs
      exact h.locateLocals
  | returnSingle single =>
      have ha : Returns s calls (.returnSingle single) [single.object s] := rfl
      exact h.returned hpermits ha hexecutes
  | returnMultiple operand =>
      obtain ⟨hcalls, values, ha⟩ := hpermits
      exact h.returned hcalls ha hexecutes

/-- The processor of a nested run is linked to the calls under way. -/
theorem Nested.linked {s₀ : Cpu} (h : Nested s₀ s calls) : Linked s calls := by
  induction h with
  | start h => exact h
  | step h hpermits hexecutes ih => exact ih.step hpermits hexecutes

/-- **Call discipline.**  A return of any nested run ends, and brings the processor back
to where the call it lands on was started, with the values its disposition asks for. -/
theorem call_discipline {s₀ : Cpu} (h : Nested s₀ s calls) {a : Action} {values : List LispObj}
    (hpermits : Permits s calls a) (ha : Returns s calls a values) :
    ∃ before disposition rest s', landing calls = some (before, disposition, rest) ∧
      Executes s a s' ∧ Returned before disposition values s' ∧ Nested s₀ s' rest := by
  have hlinked := h.linked
  have hcalls : ∃ start disp rest, calls = .frame start disp :: rest := by
    cases a with
    | returnSingle single => exact hpermits
    | returnMultiple operand => exact hpermits.1
    | _ => exact absurd ha (by simp [Returns])
  have hisSome : (landing calls).isSome := by
    obtain ⟨start, disp, rest, rfl⟩ := hcalls
    exact hlinked.landing_isSome
  obtain ⟨⟨before, disposition, rest⟩, hland⟩ := Option.isSome_iff_exists.mp hisSome
  obtain ⟨s', hs', hreturned, hrest⟩ := hlinked.returns hcalls ha hland
  have hafter : callsAfter s calls a = rest := by
    cases a with
    | returnSingle single => simp [callsAfter, callsAfter.landed, hland]
    | returnMultiple operand => simp [callsAfter, callsAfter.landed, hland]
    | _ => exact absurd ha (by simp [Returns])
  have hnested := Nested.step h hpermits hs'
  rw [hafter] at hnested
  exact ⟨before, disposition, rest, s', hland, hs', hreturned, hnested⟩

def sampleCpu : Cpu where
  stack := fun _ => objectNIL
  sp := 10
  fp := 8
  lp := 10
  pc := ⟨typeEvenPC, 0x1000⟩
  continuation := ⟨typeEvenPC, 0x2000⟩
  control := 2
  stackCacheLimit := 896

def sampleStarted : Cpu := (sampleCpu.callCompiled typeOddPC 0x3000).push objectNIL

/-- The function runs and has pushed its value. -/
def sampleCallee : Cpu :=
  (((sampleStarted.finishCallN 0x102 ⟨typeOddPC, 0x1000⟩).getD sampleStarted).locateLocals).push
    objectT

theorem sample_nested : Nested sampleCpu sampleCallee [.frame sampleCpu .value] := by
  have hstarted : Nested sampleCpu sampleStarted [.started sampleCpu] := by
    apply Nested.step (a := .push objectNIL) _ trivial ⟨0, fun _ _ => rfl⟩
    exact Nested.step (a := .callCompiled typeOddPC 0x3000) (Nested.start (by decide)) trivial
      ⟨0, fun _ _ => rfl⟩
  have hfinished : Nested sampleCpu
      ((sampleStarted.finishCallN 0x102 ⟨typeOddPC, 0x1000⟩).getD sampleStarted)
      [.frame sampleCpu .value] := by
    apply Nested.step (a := .finishCallN 0x102 ⟨typeOddPC, 0x1000⟩) hstarted
    · refine ⟨sampleCpu, [], rfl, ?_⟩
      constructor <;> decide
    · exact ⟨0, fun _ _ => rfl⟩
  apply Nested.step (a := .push objectT) _ trivial ⟨0, fun _ _ => rfl⟩
  exact Nested.step (a := .locateLocals) hfinished trivial ⟨0, fun _ _ => rfl⟩

theorem call_discipline_sample :
    ∃ before disposition rest s',
      landing [.frame sampleCpu .value] = some (before, disposition, rest) ∧
      Executes sampleCallee (.returnSingle .tos) s' ∧
      Returned before disposition [objectT] s' ∧ Nested sampleCpu s' rest :=
  call_discipline sample_nested ⟨_, _, _, rfl⟩ rfl

end Ivory
