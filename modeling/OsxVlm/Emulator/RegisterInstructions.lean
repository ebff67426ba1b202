import OsxVlm.Emulator.Operands
import OsxVlm.Emulator.Traps
import OsxVlm.Interpreter.InternalRegisters

/-!
# Instructions for the internal registers

`ReadInternalRegister` pushes a register and `WriteInternalRegister` pops the word that
goes into one.  Every read of a block address register delivers the first of them.
-/

namespace Ivory.Execute

open InternalRegisters (InternalRegister)

/-- What of the processor state the registers are kept in. -/
structure RegisterState extends Stack where
  fp : Int
  lp : Int
  stackCacheLimit : Int
  stackCacheBase : Integer
  bar : Fin 4 → LispObj
  continuation : LispObj
  aluAndRotateControl : Integer
  aluFunctionClass : Nat
  byteSize : Nat
  byteRotate : Nat
  control : Integer
  ephemeralOldspaceRegister : Integer
  zoneOldspaceRegister : Integer
  preemptRegister : Integer
  arrayEventCount : Integer
  bindingStackPointer : Integer
  bindingStackLimit : Integer
  catchBlockPointer : LispObj
  controlStackLimit : Integer
  controlStackExtraLimit : Integer
  listCacheArea : LispObj
  listCacheAddress : LispObj
  listCacheLength : Integer
  structureCacheArea : LispObj
  structureCacheAddress : LispObj
  structureCacheLength : Integer
  dynamicBindingCacheBase : Integer
  dynamicBindingCacheMask : Integer
  fepModeTrapVectorAddress : Integer
  mappingTableCache : Integer
  mappingTableLength : Integer

namespace RegisterState

def locative (address : Integer) : LispObj := ⟨typeLocative, address⟩
def fixnum (n : Integer) : LispObj := ⟨typeFixnum, n⟩

/-- The address of a word of the stack cache. -/
def stackAddress (s : RegisterState) (place : Int) : LispObj :=
  locative (s.stackCacheBase + .ofInt 32 place)

/-- What `ReadInternalRegister` pushes, where it does not take an exception; `clock` is the
time of the host. -/
def registerValue (clock : Integer) (s : RegisterState) : InternalRegister → Option LispObj
  | .fp => some (s.stackAddress s.fp)
  | .lp => some (s.stackAddress s.lp)
  | .macroSP | .sp => some (s.stackAddress s.sp)
  | .stackCacheLowerBound => some (locative s.stackCacheBase)
  | .bar1 => some (s.bar 1).cdrNext
  | .bar2 => some (s.bar 1).cdrNext
  | .bar3 => some (s.bar 1).cdrNext
  | .continuation => some s.continuation.cdrNext
  | .aluAndRotateControl => some (fixnum s.aluAndRotateControl)
  | .controlRegister => some (fixnum s.control)
  | .crArgumentSize => some (fixnum 3)
  | .ephemeralOldspaceRegister => some (fixnum s.ephemeralOldspaceRegister)
  | .zoneOldspaceRegister => some (fixnum s.zoneOldspaceRegister)
  | .chipRevision => some (fixnum 5)
  | .fpCoprocessorPresent => some (fixnum 0)
  | .preemptRegister => some (fixnum s.preemptRegister)
  | .stackCacheOverflowLimit => some (s.stackAddress s.stackCacheLimit)
  | .microsecondClock => some (fixnum clock)
  | .tos => some s.top.cdrNext
  | .eventCount => some (fixnum s.arrayEventCount)
  | .bindingStackPointer => some (locative s.bindingStackPointer)
  | .bindingStackLimit => some (locative s.bindingStackLimit)
  | .catchBlockList => some s.catchBlockPointer.cdrNext
  | .controlStackLimit => some (locative s.controlStackLimit)
  | .controlStackExtraLimit => some (locative s.controlStackExtraLimit)
  | .listCacheArea => some s.listCacheArea.cdrNext
  | .listCacheAddress => some s.listCacheAddress.cdrNext
  | .listCacheLength => some (fixnum s.listCacheLength)
  | .structureCacheArea => some s.structureCacheArea.cdrNext
  | .structureCacheAddress => some s.structureCacheAddress.cdrNext
  | .structureCacheLength => some (fixnum s.structureCacheLength)
  | .dynamicBindingCacheBase => some (locative s.dynamicBindingCacheBase)
  | .dynamicBindingCacheMask => some (fixnum s.dynamicBindingCacheMask)
  | .fepModeTrapVectorAddress => some (locative s.fepModeTrapVectorAddress)
  | .mappingTableCache => some (locative s.mappingTableCache)
  | .mappingTableLength => some (fixnum s.mappingTableLength)
  | .stackCacheDumpQuantum => some (fixnum 0x100)
  | .constantNIL => some objectNIL
  | .constantT => some objectT
  | _ => none

def readInternalRegister (clock : Integer) (s : RegisterState) (r : InternalRegister) :
    Outcome RegisterState :=
  match s.registerValue clock r with
  | some o => .next { s with toStack := s.toStack.push o }
  | none => .instructionException s

/-- The register that `WriteInternalRegister` sets, where it does not take an exception. -/
def setRegister (s : RegisterState) (o : LispObj) : InternalRegister → Option RegisterState
  | .bar1 => some { s with bar := Function.update s.bar 1 o }
  | .bar2 => some { s with bar := Function.update s.bar 2 o }
  | .bar3 => some { s with bar := Function.update s.bar 3 o }
  | .continuation => some { s with continuation := o }
  | .aluAndRotateControl =>
    some { s with
      aluAndRotateControl := o.data
      aluFunctionClass := ldb 2 14 o.data
      byteSize := ldb 5 5 o.data
      byteRotate := ldb 5 0 o.data }
  | .controlRegister => some { s with control := o.data }
  | .ephemeralOldspaceRegister => some { s with ephemeralOldspaceRegister := o.data }
  | .zoneOldspaceRegister => some { s with zoneOldspaceRegister := o.data }
  | .fpCoprocessorPresent => some s
  | .preemptRegister => some { s with preemptRegister := o.data }
  | .microsecondClock => some s
  | .tos => some s
  | .eventCount => some { s with arrayEventCount := o.data }
  | .bindingStackPointer => some { s with bindingStackPointer := o.data }
  | .bindingStackLimit => some { s with bindingStackLimit := o.data }
  | .catchBlockList => some { s with catchBlockPointer := o }
  | .controlStackLimit => some { s with controlStackLimit := o.data }
  | .controlStackExtraLimit => some { s with controlStackExtraLimit := o.data }
  | .listCacheArea => some { s with listCacheArea := o }
  | .listCacheAddress => some { s with listCacheAddress := o }
  | .listCacheLength => some { s with listCacheLength := o.data }
  | .structureCacheArea => some { s with structureCacheArea := o }
  | .structureCacheAddress => some { s with structureCacheAddress := o }
  | .structureCacheLength => some { s with structureCacheLength := o.data }
  | .dynamicBindingCacheBase => some { s with dynamicBindingCacheBase := o.data }
  | .dynamicBindingCacheMask => some { s with dynamicBindingCacheMask := o.data }
  | .fepModeTrapVectorAddress => some { s with fepModeTrapVectorAddress := o.data }
  | .mappingTableCache => some { s with mappingTableCache := o.data }
  | .mappingTableLength => some { s with mappingTableLength := o.data }
  | _ => none

def writeInternalRegister (s : RegisterState) (r : InternalRegister) : Outcome RegisterState :=
  match s.setRegister s.top r with
  | some s' => .next { s' with sp := s'.sp - 1 }
  | none => .instructionException s

/-- The word that reading a register leaves on the stack. -/
def reading (clock : Integer) (s : RegisterState) (r : InternalRegister) : Option LispObj :=
  match s.readInternalRegister clock r with
  | .next s' => some s'.top
  | _ => none

/-- The values with the tag that a register holds. -/
def Holds (o : LispObj) : InternalRegister → Prop
  | .bindingStackPointer | .bindingStackLimit | .controlStackLimit | .controlStackExtraLimit
  | .dynamicBindingCacheBase | .fepModeTrapVectorAddress | .mappingTableCache =>
    o.tag = typeLocative
  | .bar1 | .bar2 | .bar3 | .continuation | .catchBlockList | .listCacheArea
  | .listCacheAddress | .structureCacheArea | .structureCacheAddress => o.cdrNext = o
  | _ => o.tag = typeFixnum

/-- A value that is pushed and written is read back, and every other register reads as before. -/
def Faithful (clock : Integer) (s : RegisterState) (o : LispObj) (r : InternalRegister) : Prop :=
  ∀ s', { s with toStack := s.toStack.push o }.writeInternalRegister r = .next s' →
    s'.reading clock r = some o ∧
      ∀ r' ≠ r, ∀ o', s.reading clock r' = some o' → s'.reading clock r' = some o'

def BlockAddress : InternalRegister → Prop
  | .bar1 | .bar2 | .bar3 => True
  | _ => False

theorem reading_eq (clock : Integer) (s : RegisterState) (r : InternalRegister) :
    s.reading clock r = s.registerValue clock r := by
  rw [reading, readInternalRegister]
  cases s.registerValue clock r with
  | none => rfl
  | some o => exact congrArg some (s.toStack.push_words_top o)

/-! ### The stack below a write -/

theorem registerValue_of_stack (clock : Integer) (s : RegisterState) (stack : Stack)
    (hsp : stack.sp = s.sp) (htop : stack.top = s.top) (r : InternalRegister) :
    { s with toStack := stack }.registerValue clock r = s.registerValue clock r := by
  unfold registerValue
  split <;>
    first
    | rfl
    | exact congrArg (fun o : LispObj => some o.cdrNext) htop
    | exact congrArg (fun sp => some (s.stackAddress sp)) hsp

theorem setRegister_of_stack (s : RegisterState) (stack : Stack) (o : LispObj)
    (r : InternalRegister) :
    { s with toStack := stack }.setRegister o r =
      (s.setRegister o r).map (fun s' => { s' with toStack := stack }) := by
  unfold setRegister
  split <;> rfl

theorem setRegister_stack {s s' : RegisterState} {o : LispObj} {r : InternalRegister}
    (h : s.setRegister o r = some s') : s'.sp = s.sp ∧ s'.top = s.top := by
  unfold setRegister at h
  split at h <;> first | (obtain rfl := Option.some.inj h; exact ⟨rfl, rfl⟩) | cases h

/-- What a write does to the readings is what the assignment does to the values. -/
theorem faithful_iff_set (clock : Integer) (s : RegisterState) (o : LispObj)
    (r : InternalRegister) :
    s.Faithful clock o r ↔
      ∀ s', s.setRegister o r = some s' →
        s'.registerValue clock r = some o ∧
          ∀ r' ≠ r, ∀ o', s.registerValue clock r' = some o' →
            s'.registerValue clock r' = some o' := by
  have hwrite : { s with toStack := s.toStack.push o }.writeInternalRegister r =
      match s.setRegister o r with
      | some s' => .next { s' with toStack := { s.toStack.push o with sp := s.sp + 1 - 1 } }
      | none => .instructionException { s with toStack := s.toStack.push o } := by
    rw [writeInternalRegister, setRegister_of_stack]
    have htop : (s.toStack.push o).top = o := s.toStack.push_words_top o
    simp only [htop]
    cases s.setRegister o r <;> rfl
  rw [Faithful, hwrite]
  cases hset : s.setRegister o r with
  | none => simp
  | some s₁ =>
    obtain ⟨hsp, htop⟩ := setRegister_stack hset
    have hstack : ∀ r', { s₁ with
        toStack := { s.toStack.push o with sp := s.sp + 1 - 1 } }.registerValue clock r' =
          s₁.registerValue clock r' := by
      apply registerValue_of_stack clock s₁
      · show s.sp + 1 - 1 = s₁.sp
        omega
      · have hplace : s.sp + 1 - 1 = s.sp := by omega
        rw [htop]
        show (s.toStack.push o).words (s.sp + 1 - 1) = s.words s.sp
        rw [hplace, Stack.push_words_of_ne _ _ (by omega)]
    constructor
    · intro h s' heq
      obtain rfl := Option.some.inj heq
      have := h _ rfl
      simpa only [reading_eq, hstack] using this
    · intro h s' heq
      obtain rfl := Outcome.next.inj heq
      simpa only [reading_eq, hstack] using h s₁ rfl

/-! ### The registers -/

theorem eq_of_cdrNext {o : LispObj} {tag : Tag} (h : o.tag = tag) : o = ⟨tag, o.data⟩ := by
  rw [← h]

/-- The value comes back from the register. -/
theorem value_set (clock : Integer) {s s' : RegisterState} {o : LispObj} {r : InternalRegister}
    (hbar : ¬ BlockAddress r)
    (hr : r ≠ .tos ∧ r ≠ .fpCoprocessorPresent ∧ r ≠ .microsecondClock) (h : Holds o r)
    (hset : s.setRegister o r = some s') : s'.registerValue clock r = some o := by
  cases r <;> simp only [setRegister, Option.some.injEq, reduceCtorEq] at hset <;>
    first
    | exact absurd trivial hbar
    | exact absurd rfl hr.1
    | exact absurd rfl hr.2.1
    | exact absurd rfl hr.2.2
    | subst hset
  all_goals
    first
    | exact congrArg some h
    | exact congrArg some (eq_of_cdrNext h).symm

/-- The other registers are kept elsewhere. -/
theorem value_other (clock : Integer) {s s' : RegisterState} {o : LispObj}
    {r r' : InternalRegister} (hbar : ¬ BlockAddress r) (hne : r' ≠ r)
    (hset : s.setRegister o r = some s') :
    s'.registerValue clock r' = s.registerValue clock r' := by
  cases r <;> simp only [setRegister, Option.some.injEq, reduceCtorEq] at hset <;>
    first | exact absurd trivial hbar | subst hset
  all_goals
    unfold registerValue
    split <;> first | exact absurd rfl hne | rfl

/-- Every block address register reads as the first of them. -/
theorem registerValue_bar {clock : Integer} {s : RegisterState} {bar : Fin 4 → LispObj}
    {r : InternalRegister} :
    (BlockAddress r → { s with bar := bar }.registerValue clock r = some (bar 1).cdrNext) ∧
      (¬ BlockAddress r → { s with bar := bar }.registerValue clock r = s.registerValue clock r) := by
  constructor
  · intro hbar
    cases r <;> first | rfl | exact hbar.elim
  · intro hbar
    unfold registerValue
    split <;> first | exact absurd trivial hbar | rfl

/-- Setting a block address register is faithful when the first of them has the value. -/
theorem blockAddress_iff (clock : Integer) {s : RegisterState} {o : LispObj}
    {r : InternalRegister} (hbar : BlockAddress r) (h : o.cdrNext = o) :
    s.Faithful clock o r ↔ (s.bar 1).cdrNext = o := by
  obtain ⟨bar, hset, hfirst⟩ : ∃ bar, s.setRegister o r = some { s with bar := bar } ∧
      (bar 1 = o ∧ r = .bar1 ∨ bar 1 = s.bar 1 ∧ r ≠ .bar1) := by
    cases r <;> first
      | exact ⟨_, rfl, Or.inl ⟨Function.update_self _ _ _, rfl⟩⟩
      | exact ⟨_, rfl, Or.inr ⟨Function.update_of_ne (by decide) _ _, by simp⟩⟩
      | exact hbar.elim
  have hvalue : ∀ r', BlockAddress r' → s.registerValue clock r' = some (s.bar 1).cdrNext :=
    fun r' => (@registerValue_bar clock s s.bar r').1
  rw [faithful_iff_set, hset]
  constructor
  · intro hf
    obtain ⟨hself, hothers⟩ := hf _ rfl
    rw [registerValue_bar.1 hbar] at hself
    obtain ⟨hbar1, rfl⟩ | ⟨hbar1, -⟩ := hfirst
    · have hsecond := hothers .bar2 (by simp) _ (hvalue .bar2 trivial)
      rw [registerValue_bar.1 (show BlockAddress .bar2 from trivial), hbar1, h] at hsecond
      exact (Option.some.inj hsecond).symm
    · rw [hbar1] at hself
      exact Option.some.inj hself
  · intro hold s' heq
    obtain rfl := Option.some.inj heq
    have hnew : (bar 1).cdrNext = o := by
      obtain ⟨hbar1, -⟩ | ⟨hbar1, -⟩ := hfirst
      · rw [hbar1, h]
      · rw [hbar1, hold]
    refine ⟨by rw [registerValue_bar.1 hbar, hnew], fun r' _ o' ho => ?_⟩
    by_cases hbar' : BlockAddress r'
    · rw [hvalue r' hbar', hold] at ho
      rw [registerValue_bar.1 hbar', hnew, ho]
    · rw [registerValue_bar.2 hbar', ho]

theorem faithful_iff (clock : Integer) {s : RegisterState} {o : LispObj} {r : InternalRegister}
    (hr : r ≠ .tos ∧ r ≠ .fpCoprocessorPresent ∧ r ≠ .microsecondClock) (h : Holds o r) :
    s.Faithful clock o r ↔ (BlockAddress r → (s.bar 1).cdrNext = o) := by
  by_cases hbar : BlockAddress r
  · have hcdr : o.cdrNext = o := by
      cases r <;> first | exact h | exact hbar.elim
    simp only [hbar, true_imp_iff]
    exact blockAddress_iff clock hbar hcdr
  · simp only [hbar, false_imp_iff, iff_true]
    rw [faithful_iff_set]
    exact fun s' hset => ⟨value_set clock hbar hr h hset,
      fun r' hne o' ho => (value_other clock hbar hne hset).trans ho⟩

end RegisterState

/-- In the virtual machine writes are faithful except for the registers that are accepted and
cannot be read, and in the emulator except for the block address registers, which are only
when the first of them has the value. -/
theorem internalRegisters_faithful_iff (r : InternalRegister)
    (hr : r ≠ .tos ∧ r ≠ .fpCoprocessorPresent ∧ r ≠ .microsecondClock)
    (hbase : r ≠ .stackCacheLowerBound) :
    (∀ (s : InternalRegisters.ProcessorState) (o : FakeFrames.LispObjRecord),
      InternalRegisters.ProcessorState.Holds o r →
        (s.Faithful o r ↔ ¬ InternalRegisters.ProcessorState.Lost r)) ∧
      ∀ (clock : Integer) (s : RegisterState) (o : LispObj), RegisterState.Holds o r →
        (s.Faithful clock o r ↔ (RegisterState.BlockAddress r → (s.bar 1).cdrNext = o)) :=
  ⟨fun _ _ h => InternalRegisters.ProcessorState.faithful_iff hbase h,
    fun clock _ _ h => RegisterState.faithful_iff clock hr h⟩

theorem internalRegisters_faithful_iff_fp :
    (∀ (s : InternalRegisters.ProcessorState) (o : FakeFrames.LispObjRecord),
      InternalRegisters.ProcessorState.Holds o .fp →
        (s.Faithful o .fp ↔ ¬ InternalRegisters.ProcessorState.Lost .fp)) ∧
      ∀ (clock : Integer) (s : RegisterState) (o : LispObj), RegisterState.Holds o .fp →
        (s.Faithful clock o .fp ↔ (RegisterState.BlockAddress .fp → (s.bar 1).cdrNext = o)) :=
  internalRegisters_faithful_iff .fp (by decide) (by decide)

/-- All registers are clear. -/
def cleared : RegisterState where
  words := fun _ => ⟨typeFixnum, 0⟩
  sp := 0
  fp := 0
  lp := 0
  stackCacheLimit := 0
  stackCacheBase := 0
  bar := fun _ => ⟨typeLocative, 0⟩
  continuation := ⟨typeEvenPC, 0⟩
  aluAndRotateControl := 0
  aluFunctionClass := 0
  byteSize := 0
  byteRotate := 0
  control := 0
  ephemeralOldspaceRegister := 0
  zoneOldspaceRegister := 0
  preemptRegister := 0
  arrayEventCount := 0
  bindingStackPointer := 0
  bindingStackLimit := 0
  catchBlockPointer := ⟨typeLocative, 0⟩
  controlStackLimit := 0
  controlStackExtraLimit := 0
  listCacheArea := ⟨typeFixnum, 0⟩
  listCacheAddress := ⟨typeLocative, 0⟩
  listCacheLength := 0
  structureCacheArea := ⟨typeFixnum, 0⟩
  structureCacheAddress := ⟨typeLocative, 0⟩
  structureCacheLength := 0
  dynamicBindingCacheBase := 0
  dynamicBindingCacheMask := 0
  fepModeTrapVectorAddress := 0
  mappingTableCache := 0
  mappingTableLength := 0

/-- The limit of the control stack is not read back in the virtual machine, nor the second
block address register in the emulator. -/
theorem not_internalRegisters_faithful :
    (∀ s : InternalRegisters.ProcessorState, ¬ s.Faithful ⟨25, 0⟩ .controlStackLimit) ∧
      ¬ cleared.Faithful 0 ⟨typeLocative, 4⟩ .bar2 := by
  constructor
  · intro s h
    exact (@InternalRegisters.ProcessorState.faithful_iff s ⟨25, 0⟩ .controlStackLimit
      (by decide) (show (25 : BitVec 32) &&& 0xC0 = 0 by decide)).1 h trivial
  · intro h
    have hfirst := (RegisterState.blockAddress_iff 0
      (show RegisterState.BlockAddress .bar2 from trivial) (by decide)).1 h
    exact absurd hfirst (by decide)

end Ivory.Execute
