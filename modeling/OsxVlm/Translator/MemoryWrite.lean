import Mathlib
import OsxVlm.Translator.AccessSpecs

/-!
# What `memory-write` does

The raw write is interleaved with the check whether the word is in the stack cache.
The check is made early or late, with or without memoized registers; in the end the
branch register holds what it found.
-/

namespace VMAccess

open Alpha
open Faulting (Ends)

def MemoryWrite.allTemps (o : MemoryWrite) : List Register := o.temp5.toList ++ o.temps

theorem MemoryWrite.checkWrite (o : MemoryWrite) :
    CheckTemporaries [o.vma, o.tag, o.data] o.temps := by
  constructor
  · exact o.check.apart.sublist (List.sublist_append_right _ _)
  · intro r hr hlive
    refine o.check.notLive r (List.mem_append_right _ hr) ?_
    simp only [List.mem_cons, List.cons_append, List.nil_append, List.not_mem_nil, or_false] at hlive ⊢
    tauto

theorem MemoryWrite.live (o : MemoryWrite) {r : Register}
    (hr : r = ivory ∨ r = .zero ∨ r = o.vma ∨ r = o.tag ∨ r = o.data) : r ∉ o.allTemps := by
  intro hmem
  apply o.check.notLive r hmem
  simp only [List.mem_cons, List.cons_append, List.nil_append]
  tauto

theorem MemoryWrite.memoized (o : MemoryWrite) (hcache : o.cantBeInCache = false) {r : Register}
    (hr : o.memoizedBase = some r ∨ o.memoizedLimit = some r) : r ∉ o.allTemps := by
  intro hmem
  apply o.check.notLive r hmem
  rw [hcache]
  simp only [List.mem_cons, List.mem_append, Option.mem_toList, Bool.false_eq_true, if_false]
  tauto

theorem MemoryWrite.temp5_apart (o : MemoryWrite) {temp5 : Register} (h : o.temp5 = some temp5) :
    temp5 ∉ o.temps := by
  have hapart := o.check.apart
  rw [h] at hapart
  exact (List.nodup_cons.mp hapart).1

def MemoryWrite.baseValue (o : MemoryWrite) (s : State) : BitVec 64 :=
  match o.memoizedBase with
  | some base => s.regs base
  | none => s.memory.stackCacheBaseVMA

/-- Without a fifth temporary, a memoized limit is not used. -/
def MemoryWrite.limitValue (o : MemoryWrite) (s : State) : BitVec 64 :=
  match o.temp5, o.memoizedLimit with
  | some _, some limit => s.regs limit
  | _, _ => s.memory.scovLimit.signExtend 64

/-- A memoized register is none of the temporaries. -/
theorem MemoryWrite.memoized_ne (o : MemoryWrite) (hcache : o.cantBeInCache = false) {r : Register}
    (hr : o.memoizedBase = some r ∨ o.memoizedLimit = some r) :
    r ≠ o.temp ∧ r ≠ o.temp2 ∧ r ≠ o.temp3 ∧ r ≠ o.temp4 ∧ o.temp5 ≠ some r := by
  have h := o.memoized hcache hr
  simp only [MemoryWrite.allTemps, WriteRegisters.temps, List.mem_append, Option.mem_toList,
    List.mem_cons, List.not_mem_nil, or_false, not_or] at h
  tauto

theorem MemoryWrite.temp5_ne (o : MemoryWrite) {temp5 : Register} (h : o.temp5 = some temp5) :
    temp5 ≠ o.temp ∧ temp5 ≠ o.temp2 ∧ temp5 ≠ o.temp3 ∧ temp5 ≠ o.temp4 ∧
      temp5 ≠ o.vma ∧ temp5 ≠ .zero ∧ temp5 ≠ ivory ∧ temp5 ≠ o.tag ∧ temp5 ≠ o.data := by
  have htemps := o.temp5_apart h
  have hmem : temp5 ∈ o.allTemps := by simp [MemoryWrite.allTemps, h]
  have hlive {r : Register} (hr : r = ivory ∨ r = .zero ∨ r = o.vma ∨ r = o.tag ∨ r = o.data) :
      temp5 ≠ r := by
    rintro rfl
    exact o.live hr hmem
  simp only [WriteRegisters.temps, List.mem_cons, List.not_mem_nil, or_false, not_or] at htemps
  obtain ⟨h1, h2, h3, h4⟩ := htemps
  exact ⟨h1, h2, h3, h4, hlive (by simp), hlive (by simp), hlive (by simp), hlive (by simp),
    hlive (by simp)⟩

theorem MemoryWrite.not_temp5 (o : MemoryWrite) {r : Register} (hr : r ∈ o.temps ∨ r ∉ o.allTemps) :
    r ∉ o.temp5.toList := by
  intro hmem
  rcases hr with hr | hr
  · exact List.disjoint_of_nodup_append o.check.apart hmem hr
  · exact hr (List.mem_append_left _ hmem)

/-- The base, where no register keeps it. -/
theorem run_loadBase (p : Pages) (o : MemoryWrite) (c : Bool) (s : State) :
    ∃ s', run p (when c [.ldqField o.temp2 .stackCacheBaseVMA]) s = .ok s' ∧
      s.Agrees [o.temp2] s' ∧
      (c = !o.memoizedBase.isSome → (∀ base, o.memoizedBase = some base → base ≠ o.temp2) →
        s'.regs o.base = o.baseValue s) := by
  cases c with
  | false =>
      refine ⟨s, rfl, State.Agrees.refl _ s, fun hc _ => ?_⟩
      cases hbase : o.memoizedBase with
      | none => simp [hbase] at hc
      | some base => simp only [MemoryWrite.base, MemoryWrite.baseValue, hbase, Option.getD_some]
  | true =>
      refine ⟨_, rfl, (State.Agrees.refl _ s).set (List.mem_singleton.mpr rfl) _, fun hc _ => ?_⟩
      cases hbase : o.memoizedBase with
      | none =>
          simp only [MemoryWrite.base, MemoryWrite.baseValue, hbase, Option.getD_none,
            State.set_self]
          rfl
      | some base => simp [hbase] at hc

/-- The limit, where no register keeps it. -/
theorem run_loadLimit (p : Pages) (o : MemoryWrite) (s : State) :
    ∃ s', run p (loadLimit o) s = .ok s' ∧ s.Agrees o.temp5.toList s' ∧
      ∀ temp5, o.temp5 = some temp5 → o.cantBeInCache = false →
        s'.regs (o.memoizedLimit.getD temp5) = o.limitValue s := by
  cases h5 : o.temp5 with
  | none =>
      refine ⟨s, by simp only [loadLimit, h5]; rfl, State.Agrees.refl _ s, fun _ h => ?_⟩
      cases h
  | some temp5 =>
      simp only [loadLimit, MemoryWrite.limitValue, h5]
      cases hload : !(o.cantBeInCache || o.memoizedLimit.isSome) with
      | false =>
          refine ⟨s, rfl, State.Agrees.refl _ s, ?_⟩
          rintro _ ⟨⟩ hcache
          cases hlimit : o.memoizedLimit with
          | none => simp [hcache, hlimit] at hload
          | some limit => rfl
      | true =>
          refine ⟨s.set temp5 (s.memory.scovLimit.signExtend 64), rfl,
            (State.Agrees.refl _ s).set (by simp) _, ?_⟩
          rintro _ ⟨⟩ _
          cases hlimit : o.memoizedLimit with
          | none => rw [Option.getD_none, State.set_self]
          | some limit => simp [hlimit] at hload

/-- A memoized register is read through the temporaries. -/
theorem State.Agrees.baseValue {o : MemoryWrite} {s s' : State} (h : s.Agrees o.allTemps s')
    (hcache : o.cantBeInCache = false) : o.baseValue s' = o.baseValue s := by
  unfold MemoryWrite.baseValue
  cases hbase : o.memoizedBase with
  | none => exact congrArg Memory.stackCacheBaseVMA h.memory
  | some base => exact h.regs _ (o.memoized hcache (.inl hbase))

theorem State.Agrees.limitValue {o : MemoryWrite} {s s' : State} (h : s.Agrees o.allTemps s')
    (hcache : o.cantBeInCache = false) : o.limitValue s' = o.limitValue s := by
  unfold MemoryWrite.limitValue
  cases h5 : o.temp5 with
  | none => simp only [h.memory]
  | some temp5 =>
      cases hlimit : o.memoizedLimit with
      | none => simp only [h.memory]
      | some limit => exact h.regs _ (o.memoized hcache (.inr hlimit))

/-- The base is not touched by what does not touch `temp2`. -/
theorem State.Agrees.base {o : MemoryWrite} {s s' : State} (h : s.Agrees o.allTemps s')
    (hcache : o.cantBeInCache = false) (htemp2 : s'.regs o.temp2 = s.regs o.temp2) :
    s'.regs o.base = s.regs o.base := by
  unfold MemoryWrite.base
  cases hbase : o.memoizedBase with
  | none => exact htemp2
  | some base => exact h.regs _ (o.memoized hcache (.inl hbase))

/-- The addresses, and what the range check of a fifth temporary needs. -/
theorem run_addresses (p : Pages) (o : MemoryWrite) (s : State) :
    ∃ s', run p (when o.loadsBaseEarly [.ldqField o.temp2 .stackCacheBaseVMA] ++
        [addq o.vma ivory o.temp] ++ loadLimit o ++ [s4addq o.temp .zero o.temp4]) s = .ok s' ∧
      s.Agrees o.allTemps s' ∧ s'.regs o.temp = s.tagAddress o.vma ∧
      s'.regs o.temp4 = s.dataAddress o.vma ∧
      ∀ temp5, o.temp5 = some temp5 → o.cantBeInCache = false →
        s'.regs o.base = o.baseValue s ∧
          s'.regs (o.memoizedLimit.getD temp5) = o.limitValue s := by
  obtain ⟨⟨h12, h13, h14⟩, ⟨h23, h24⟩, h34, hlive⟩ := o.checkWrite.apart_write
  have hzero := hlive .zero (by simp)
  have hvma := hlive o.vma (by simp)
  have hivory := hlive ivory (by simp)
  obtain ⟨s1, hrun1, hagrees1, hbase⟩ := run_loadBase p o o.loadsBaseEarly s
  obtain ⟨s3, hrun3, hagrees3, hlimit⟩ := run_loadLimit p o
    (s1.set o.temp (s1.regs o.vma + s1.regs ivory))
  have hmem : [o.temp2] ⊆ o.allTemps ∧ o.temp ∈ o.allTemps ∧ o.temp5.toList ⊆ o.allTemps ∧
      o.temp4 ∈ o.allTemps := by
    simp [MemoryWrite.allTemps, WriteRegisters.temps]
  have hfive {r : Register} (hr : r ∈ o.temps ∨ r ∉ o.allTemps) := o.not_temp5 hr
  have hagrees2 := (hagrees1.mono hmem.1).set hmem.2.1 (s1.regs o.vma + s1.regs ivory)
  have hagrees4 := (hagrees2.trans (hagrees3.mono hmem.2.2.1)).set hmem.2.2.2
    (s3.regs o.temp <<< 2 + s3.regs .zero)
  have ht : s3.regs o.temp = s.tagAddress o.vma := by
    rw [hagrees3.regs _ (hfive (.inl (by simp [WriteRegisters.temps]))), State.set_self,
      hagrees1.regs _ (by simp [hvma]), hagrees1.regs _ (by simp [hivory])]
    rfl
  refine ⟨s3.set o.temp4 (s3.regs o.temp <<< 2 + s3.regs .zero), ?_, hagrees4, ?_, ?_, ?_⟩
  · simp only [run_append, hrun1, hrun3, run_one, execute_addq, execute_s4addq, except_bind_ok]
  · rw [State.set_regs, if_neg h14, ht]
  · rw [State.set_self, ht, hagrees3.regs _ (hfive (.inr (o.live (by simp)))), State.set_regs,
      if_neg hzero.1, hagrees1.regs _ (by simp [hzero])]
    rfl
  · intro temp5 h5 hcache
    have hfrom : s1.Agrees o.allTemps (s3.set o.temp4 (s3.regs o.temp <<< 2 + s3.regs .zero)) :=
      (((State.Agrees.refl _ s1).set hmem.2.1 _).trans (hagrees3.mono hmem.2.2.1)).set hmem.2.2.2 _
    constructor
    · rw [hfrom.base hcache, hbase]
      · simp [MemoryWrite.loadsBaseEarly, h5, hcache]
      · intro base hmemo
        exact (o.memoized_ne hcache (.inl hmemo)).2.1
      · rw [State.set_regs, if_neg h24, hagrees3.regs _ (hfive (.inl (by simp [WriteRegisters.temps]))),
          State.set_regs, if_neg h12.symm]
    · rw [State.set_regs, if_neg, hlimit temp5 h5 hcache, hagrees2.limitValue hcache]
      cases hmemo : o.memoizedLimit with
      | none => exact (o.temp5_ne h5).2.2.2.1
      | some limit => exact (o.memoized_ne hcache (.inr hmemo)).2.2.2.1

/-- With a fifth temporary, what the range check finds. -/
theorem run_compareEarly (p : Pages) (o : MemoryWrite) (s : State) :
    ∃ s', run p (compareEarly o) s = .ok s' ∧ s.Agrees (o.temp2 :: o.temp5.toList) s' ∧
      ∀ temp5, o.temp5 = some temp5 → o.cantBeInCache = false →
        s'.regs temp5 =
          truth (s.regs o.vma - s.regs o.base < s.regs (o.memoizedLimit.getD temp5)) := by
  cases h5 : o.temp5 with
  | none =>
      refine ⟨s, by simp only [compareEarly, h5]; rfl, State.Agrees.refl _ s, fun _ h => ?_⟩
      cases h
  | some temp5 =>
      simp only [compareEarly, h5]
      cases hcache : o.cantBeInCache with
      | true =>
          refine ⟨s, rfl, State.Agrees.refl _ s, fun _ _ h => ?_⟩
          cases h
      | false =>
          simp only [Bool.not_false, when_true, run_cons, run_nil, execute_subq, execute_cmpult,
            except_bind_ok]
          refine ⟨_, rfl, ((State.Agrees.refl _ s).set (by simp) _).set (by simp) _, ?_⟩
          rintro _ ⟨⟩ _
          have hlimit : o.memoizedLimit.getD temp5 ≠ o.temp2 := by
            cases hmemo : o.memoizedLimit with
            | none => exact (o.temp5_ne h5).2.1
            | some limit => exact (o.memoized_ne hcache (.inr hmemo)).2.1
          rw [State.set_self, State.set_self, State.set_regs, if_neg hlimit]

/-- Without it, the range check comes behind the store of the tag. -/
theorem run_compareLate (p : Pages) (o : MemoryWrite) (s : State) :
    ∃ s', run p (compareLate o) s = .ok s' ∧ s.Agrees [o.temp, o.temp2] s' ∧
      (o.temp5.isSome → s' = s) ∧
      (o.temp5 = none → o.cantBeInCache = false →
        s'.regs o.temp = truth (s.regs o.vma - s.regs o.base < s.memory.scovLimit.signExtend 64) ∧
          s'.regs o.temp2 = s.regs o.vma - s.regs o.base) := by
  cases h5 : o.temp5 with
  | some temp5 =>
      refine ⟨s, by simp only [compareLate, h5]; rfl, State.Agrees.refl _ s, fun _ => rfl, fun h => ?_⟩
      cases h
  | none =>
      simp only [compareLate, h5]
      cases hcache : o.cantBeInCache with
      | true =>
          refine ⟨s, rfl, State.Agrees.refl _ s, fun _ => rfl, fun _ h => ?_⟩
          cases h
      | false =>
          obtain ⟨⟨h12, -⟩, -, -, hlive⟩ := o.checkWrite.apart_write
          have hvma := hlive o.vma (by simp)
          have hbase : o.base ≠ o.temp := by
            unfold MemoryWrite.base
            cases hmemo : o.memoizedBase with
            | none => exact h12.symm
            | some base => exact (o.memoized_ne hcache (.inl hmemo)).1
          simp only [Bool.not_false, when_true, run_cons, run_nil, execute_ldlLimit, execute_subq,
            execute_cmpult, except_bind_ok]
          refine ⟨_, rfl, (((State.Agrees.refl _ s).set (by simp) _).set (by simp) _).set
            (by simp) _, ?_, fun _ _ => ⟨?_, ?_⟩⟩
          · intro h
            cases h
          · simp only [State.set_self, State.set_regs s, State.set_regs (s.set o.temp _), if_neg h12,
              if_neg hvma.1, if_neg hbase]
          · simp only [State.set_self, State.set_regs _ o.temp, if_neg h12.symm, if_neg hvma.1,
              if_neg hbase]

/-- The word in the stack cache at a host address. -/
def Memory.storeStack (m : Memory) (a tag data : BitVec 64) : Memory :=
  (m.storeCache a data).storeCache (a + 4) tag

/-- The word in the stack cache, at an offset from its base. -/
theorem run_storeStack (p : Pages) (o : MemoryWrite) {s : State} {offset : BitVec 64}
    (hoffset : s.regs o.temp2 = offset) (hdata : s.regs o.temp = s.memory.stackCacheData) :
    ∃ s', run p [s8addq o.temp2 o.temp o.temp, .stlCache o.data 0 o.temp,
        .stlCache o.tag 4 o.temp] s = .ok s' ∧
      State.Agrees o.allTemps { s with
        memory := s.memory.storeStack (offset <<< 3 + s.memory.stackCacheData)
          (s.regs o.tag) (s.regs o.data) } s' := by
  obtain ⟨-, -, -, hlive⟩ := o.checkWrite.apart_write
  have htag := hlive o.tag (by simp)
  have hvalue := hlive o.data (by simp)
  simp only [run_cons, run_nil, execute_s8addq, execute_stlCache, except_bind_ok, State.set_self,
    State.set_memory, hoffset, hdata]
  refine ⟨_, rfl, ?_, ?_⟩
  · rw [State.set_regs s, if_neg hvalue.1, State.set_regs s, if_neg htag.1, add_zero]
    rfl
  · intro r hr
    have hne : r ≠ o.temp := by
      rintro rfl
      exact hr (by simp [MemoryWrite.allTemps, WriteRegisters.temps])
    exact (State.set_regs s o.temp r _).trans (if_neg hne)

/-- The state after a word of the stack cache is written as well. -/
def State.storeStack (s : State) (o : MemoryWrite) : State :=
  { s with
    memory := s.memory.storeStack ((s.regs o.vma - o.baseValue s) <<< 3 + s.memory.stackCacheData)
      (s.regs o.tag) (s.regs o.data) }

theorem State.Agrees.storeStack {o : MemoryWrite} {s s' : State} (h : s.Agrees o.allTemps s')
    (hcache : o.cantBeInCache = false) :
    (s.storeStack o).Agrees o.allTemps (s'.storeStack o) := by
  refine ⟨?_, h.regs⟩
  simp only [State.storeStack]
  rw [h.baseValue hcache, h.memory, h.regs _ (o.live (by simp)), h.regs o.tag (o.live (by simp)),
    h.regs o.data (o.live (by simp))]

/-- The block out of line finds the offset again where it was overwritten. -/
theorem run_inCache (p : Pages) {o : MemoryWrite} {s : State} (hcache : o.cantBeInCache = false)
    (hoffset : o.temp5 = none → s.regs o.temp2 = s.regs o.vma - o.baseValue s) :
    ∃ s', run p (inCache o) s = .ok s' ∧ (s.storeStack o).Agrees o.allTemps s' := by
  obtain ⟨⟨h12, -⟩, -, -, hlive⟩ := o.checkWrite.apart_write
  have hvma := hlive o.vma (by simp)
  have hmem : o.temp ∈ o.allTemps ∧ o.temp2 ∈ o.allTemps ∧ [o.temp2] ⊆ o.allTemps := by
    simp [MemoryWrite.allTemps, WriteRegisters.temps]
  unfold inCache
  cases h5 : o.temp5 with
  | none =>
      have hstart := (State.Agrees.refl o.allTemps s).set hmem.1 s.memory.stackCacheData
      obtain ⟨s', hrun, hagrees⟩ := @run_storeStack p o
        (s.set o.temp s.memory.stackCacheData) (s.regs o.vma - o.baseValue s)
        (by rw [State.set_regs, if_neg h12.symm, hoffset h5]) (State.set_self s o.temp _)
      refine ⟨s', hrun, (hstart.storeStack hcache).trans ?_⟩
      rw [State.storeStack, hstart.baseValue hcache, hstart.regs _ (o.live (by simp))]
      exact hagrees
  | some temp5 =>
      have hbase {base : Register} (h : o.memoizedBase = some base) := o.memoized_ne hcache (.inl h)
      obtain ⟨s1, hrun1, hagrees1, hvalue⟩ := run_loadBase p o o.memoizedBase.isNone s
      have hvalue := hvalue (by simp) fun _ h => (hbase h).2.1
      have hlabel : run p (when o.memoizedBase.isNone [.label]) = .ok := by
        cases o.memoizedBase.isNone <;> rfl
      have hne : o.base ≠ o.temp := by
        unfold MemoryWrite.base
        cases h : o.memoizedBase with
        | none => exact h12.symm
        | some base => exact (hbase h).1
      have hload := (hagrees1.mono hmem.2.2).set hmem.1 s1.memory.stackCacheData
      have hstart := hload.set hmem.2.1 (s.regs o.vma - o.baseValue s)
      obtain ⟨s', hrun, hagrees⟩ := run_storeStack p o
        (s := (s1.set o.temp s1.memory.stackCacheData).set o.temp2 (s.regs o.vma - o.baseValue s))
        (State.set_self _ o.temp2 _) (by rw [State.set_regs, if_neg h12, State.set_self]; rfl)
      have hpair : run p [.ldqField o.temp .stackCacheData, subq o.vma o.base o.temp2] s1 =
          .ok ((s1.set o.temp s1.memory.stackCacheData).set o.temp2
            (s.regs o.vma - o.baseValue s)) := by
        simp only [run_cons, run_nil, execute_ldqField, execute_subq, except_bind_ok,
          State.set_regs s1, if_neg hvma.1, if_neg hne, hvalue,
          hagrees1.regs o.vma (by simp [hvma])]
        rfl
      refine ⟨s', ?_, (hstart.storeStack hcache).trans ?_⟩
      · have hsplit := when_append o.memoizedBase.isNone
          [.ldqField o.temp2 .stackCacheBaseVMA] [.label]
        rw [List.singleton_append] at hsplit
        simp only [hsplit, List.append_assoc, run_append _ _ _ s, hrun1, except_bind_ok]
        rw [run_append, hlabel, except_bind_ok, run_append, hpair, except_bind_ok, hrun]
      · rw [State.storeStack, hstart.baseValue hcache, hstart.regs _ (o.live (by simp))]
        exact hagrees

/-- The state after `memory-write`. -/
def State.write (s : State) (o : MemoryWrite) : State :=
  let stored := s.store o.toWriteRegisters
  if !o.cantBeInCache && decide (s.regs o.vma - o.baseValue s < o.limitValue s) then
    stored.storeStack o
  else stored

/-- What `memory-write` does before it stores, in the parts that are looked at. -/
def prepareMemoryWrite (f : Modes) (o : MemoryWrite) : List Instr :=
  (when o.loadsBaseEarly [.ldqField o.temp2 .stackCacheBaseVMA] ++
    [addq o.vma ivory o.temp] ++ loadLimit o ++ [s4addq o.temp .zero o.temp4]) ++
  (when (!f.explicitFaultEdges) [vmLdqU f o.temp3 o.temp] ++
  (compareEarly o ++
  ((when (!f.explicitFaultEdges) [insbl o.tag o.temp o.temp2, mskbl o.temp3 o.temp o.temp3] ++
    [.label] ++ when (!f.explicitFaultEdges) [bis o.temp3 o.temp2 o.temp3]) ++
  when o.loadsBaseLate [.ldqField o.temp2 .stackCacheBaseVMA])))

/-- The state that the stores of `memory-write` start in. -/
structure Compared (f : Modes) (o : MemoryWrite) (s s' : State) : Prop
    extends Prepared f o.toWriteRegisters o.allTemps s s' where
  early : ∀ temp5, o.temp5 = some temp5 → o.cantBeInCache = false →
    s'.regs temp5 = truth (s.regs o.vma - o.baseValue s < o.limitValue s)
  late : o.temp5 = none → o.cantBeInCache = false → s'.regs o.base = o.baseValue s

theorem prepareMemoryWrite_ends (p : Pages) (f : Modes) (o : MemoryWrite) (s : State) :
    Ends (Compared f o s)
      (fun s' => ¬ p.mapped (s.tagAddress o.vma) ∧ s.Agrees o.allTemps s')
      (run p (prepareMemoryWrite f o) s) := by
  obtain ⟨⟨h12, h13, h14⟩, ⟨h23, h24⟩, h34, hlive⟩ := o.checkWrite.apart_write
  have htag := hlive o.tag (by simp)
  have hfive {r : Register} (hr : r ∈ o.temps) := o.not_temp5 (.inl hr)
  unfold WriteRegisters.temps at hfive
  have hmem : [o.temp3] ⊆ o.allTemps ∧ o.temp2 :: o.temp5.toList ⊆ o.allTemps ∧
      [o.temp2, o.temp3] ⊆ o.allTemps ∧ [o.temp2] ⊆ o.allTemps := by
    simp [MemoryWrite.allTemps, WriteRegisters.temps]
  obtain ⟨s1, hrun1, hagrees1, ht1, hd1, hcompare⟩ := run_addresses p o s
  rw [prepareMemoryWrite, run_append, hrun1, except_bind_ok, run_append]
  refine ((run_loadQuad p f o.toWriteRegisters s1).mono (fun _ h => h) ?_).bind ?_
  · rintro s2 ⟨rfl, hmapped⟩
    rw [ht1] at hmapped
    exact ⟨hmapped, hagrees1⟩
  · rintro s2 ⟨hload, hquad⟩
    obtain ⟨s3, hrun3, hagrees3, hearly⟩ := run_compareEarly p o s2
    have h23' : s1.Agrees (o.temp3 :: o.temp2 :: o.temp5.toList) s3 :=
      (hload.mono (by simp)).trans (hagrees3.mono (List.subset_cons_self _ _))
    have htemp3 : o.temp3 ∉ o.temp2 :: o.temp5.toList := by
      rw [List.mem_cons, not_or]
      exact ⟨h23.symm, hfive (by simp)⟩
    have htemp : o.temp ∉ o.temp3 :: o.temp2 :: o.temp5.toList := by
      rw [List.mem_cons, List.mem_cons, not_or, not_or]
      exact ⟨h13, h12, hfive (by simp)⟩
    obtain ⟨s4, hrun4, hagrees4, hready⟩ := run_pack p f o.checkWrite (s := s3) (i := .label)
      (fun _ => rfl) (by
        rw [hagrees3.regs _ htemp3, h23'.memory, h23'.regs _ htemp]
        exact hquad)
    obtain ⟨s5, hrun5, hagrees5, hlate⟩ := run_loadBase p o o.loadsBaseLate s4
    rw [run_append, hrun3, except_bind_ok, run_append, hrun4, except_bind_ok, hrun5]
    have h15 : s1.Agrees (o.temp3 :: o.temp2 :: o.temp5.toList) s5 :=
      h23'.trans ((hagrees4.mono (by simp)).trans (hagrees5.mono (by simp)))
    have hsub : o.temp3 :: o.temp2 :: o.temp5.toList ⊆ o.allTemps :=
      List.cons_subset.mpr ⟨hmem.1 (List.mem_singleton.mpr rfl), hmem.2.1⟩
    have hagrees := hagrees1.trans (h15.mono hsub)
    have htemp4 : o.temp4 ∉ o.temp3 :: o.temp2 :: o.temp5.toList := by
      rw [List.mem_cons, List.mem_cons, not_or, not_or]
      exact ⟨h34.symm, h24.symm, hfive (by simp)⟩
    refine .ok ⟨⟨hagrees, by rw [h15.regs _ htemp, ht1], by rw [h15.regs _ htemp4, hd1], ?_⟩, ?_, ?_⟩
    · intro hexplicit
      rw [hagrees5.regs _ (by simp [h23.symm]), hagrees5.regs o.temp (by simp [h12]),
        hagrees5.regs o.tag (by simp [htag]), hagrees5.memory]
      exact hready hexplicit
    · intro temp5 h5 hcache
      obtain ⟨hbase1, hlimit1⟩ := hcompare temp5 h5 hcache
      have hload' : s1.Agrees o.allTemps s2 := hload.mono hmem.1
      have hne := o.temp5_ne h5
      have hlimit : o.memoizedLimit.getD temp5 ≠ o.temp3 := by
        cases hmemo : o.memoizedLimit with
        | none => exact hne.2.2.1
        | some limit => exact (o.memoized_ne hcache (.inr hmemo)).2.2.1
      rw [hagrees5.regs temp5 (by simp [hne]), hagrees4.regs temp5 (by simp [hne]),
        hearly temp5 h5 hcache, hload.regs (o.memoizedLimit.getD temp5) (by simp [hlimit]), hlimit1,
        hload'.base hcache (hload.regs o.temp2 (by simp [h23])), hbase1,
        (hagrees1.trans hload').regs o.vma (o.live (by simp))]
    · intro h5 hcache
      have h4 : s.Agrees o.allTemps s4 :=
        hagrees1.trans ((h23'.mono hsub).trans (hagrees4.mono hmem.2.2.1))
      rw [hlate, h4.baseValue hcache]
      · simp [MemoryWrite.loadsBaseLate, h5, hcache]
      · intro base hmemo
        exact (o.memoized_ne hcache (.inl hmemo)).2.1

/-- Where the stores and the late range check lead, before the branch. -/
structure Branching (o : MemoryWrite) (s s' : State) : Prop where
  agrees : (s.store o.toWriteRegisters).Agrees o.allTemps s'
  found : o.cantBeInCache = false →
    s'.regs (o.temp5.getD o.temp) = truth (s.regs o.vma - o.baseValue s < o.limitValue s)
  offset : o.cantBeInCache = false → o.temp5 = none →
    s'.regs o.temp2 = s.regs o.vma - o.baseValue s

/-- The branch goes to the block for a word in the stack cache. -/
theorem Branching.ends (p : Pages) {o : MemoryWrite} {s s' : State} (h : Branching o s s') :
    Ends (fun s'' => (s.write o).Agrees o.allTemps s'') (fun _ => False)
      (match o.branch with
        | some (r, block) => if s'.regs r = 0 then .ok s' else run p block s'
        | none => .ok s') := by
  unfold MemoryWrite.branch State.write
  cases hcache : o.cantBeInCache with
  | true => exact .ok h.agrees
  | false =>
      have hbase : o.baseValue s' = o.baseValue s := h.agrees.baseValue hcache
      have hvma : s'.regs o.vma = s.regs o.vma := h.agrees.regs _ (o.live (by simp))
      simp only [Bool.not_false, Bool.true_and, Bool.false_eq_true, if_false, h.found hcache]
      cases hfound : decide (s.regs o.vma - o.baseValue s < o.limitValue s) with
      | false => exact .ok h.agrees
      | true =>
          obtain ⟨s'', hrun, hagrees⟩ := run_inCache p (s := s') hcache (fun h5 => by
            rw [h.offset hcache h5, hbase, hvma])
          rw [if_neg (show ¬ truth true = 0 by decide), hrun]
          exact .ok ((h.agrees.storeStack hcache).trans hagrees)

theorem Memory.storeTag_scovLimit (m : Memory) (t tag : BitVec 64) :
    (m.storeTag t tag).scovLimit = m.scovLimit := rfl

theorem Memory.storeWord_scovLimit (m : Memory) (t d tag data : BitVec 64) :
    (m.storeWord t d tag data).scovLimit = m.scovLimit := rfl

/-- The range check does not see what the stores did to the emulated memory. -/
theorem Compared.late_found (p : Pages) {f : Modes} {o : MemoryWrite} {s s' : State}
    (h : Compared f o s s') {m : Memory} (hm : m.scovLimit = s.memory.scovLimit) :
    ∃ s'', run p (compareLate o) { s' with memory := m } = .ok s'' ∧
      State.Agrees [o.temp, o.temp2] { s' with memory := m } s'' ∧
      (o.cantBeInCache = false →
        s''.regs (o.temp5.getD o.temp) =
          truth (s.regs o.vma - o.baseValue s < o.limitValue s)) ∧
      (o.cantBeInCache = false → o.temp5 = none →
        s''.regs o.temp2 = s.regs o.vma - o.baseValue s) := by
  obtain ⟨s'', hrun, hagrees, hsame, hlate⟩ := run_compareLate p o { s' with memory := m }
  have hvma : s'.regs o.vma = s.regs o.vma := h.agrees.regs _ (o.live (by simp))
  refine ⟨s'', hrun, hagrees, fun hcache => ?_, fun hcache h5 => ?_⟩
  · cases h5 : o.temp5 with
    | none =>
        have hlimit : o.limitValue s = s.memory.scovLimit.signExtend 64 := by
          simp only [MemoryWrite.limitValue, h5]
        rw [Option.getD_none, (hlate h5 hcache).1, h.late h5 hcache, hvma, hlimit, hm]
    | some temp5 =>
        rw [hsame (by rw [h5]; rfl)]
        exact h.early temp5 h5 hcache
  · rw [(hlate h5 hcache).2, h.late h5 hcache, hvma]

theorem memoryWrite_ends (p : Pages) (f : Modes) (o : MemoryWrite) (s : State) :
    Ends (fun s' => Writable p s o.vma ∧ (s.write o).Agrees o.allTemps s')
      (fun s' => ¬ Writable p s o.vma ∧
        (f.dataStoreFirst → Orderly p s o.vma → s.Agrees o.allTemps s'))
      ((memoryWrite f o).run p s) := by
  have hsplit : (memoryWrite f o).main = prepareMemoryWrite f o ++
      ((if f.dataStoreFirst then storeDataFirst f o.toWriteRegisters
        else [storeTag f o.toWriteRegisters]) ++
      (compareLate o ++ when (!f.dataStoreFirst) [vmStl f o.data o.temp4])) := by
    simp only [memoryWrite, prepareMemoryWrite, List.append_assoc]
  obtain ⟨⟨h12, h13, h14⟩, ⟨h23, h24⟩, h34, hlive⟩ := o.checkWrite.apart_write
  have hdata := hlive o.data (by simp)
  have hmem : [o.temp, o.temp2] ⊆ o.allTemps := by simp [MemoryWrite.allTemps, WriteRegisters.temps]
  have hmain : Ends (fun s' => Writable p s o.vma ∧ Branching o s s')
      (fun s' => ¬ Writable p s o.vma ∧
        (f.dataStoreFirst → Orderly p s o.vma → s.Agrees o.allTemps s'))
      (run p (memoryWrite f o).main s) := by
    rw [hsplit, run_append]
    refine ((prepareMemoryWrite_ends p f o s).mono (fun _ h => h) ?_).bind ?_
    · rintro s' ⟨hmapped, hagrees⟩
      exact ⟨fun h => hmapped h.1, fun _ _ => hagrees⟩
    · intro s' hcompared
      have hstored := hcompared.stored (o.live (by simp)) (o.live (by simp))
      unfold Writable Orderly
      rw [← hcompared.tagAddress, ← hcompared.dataAddress, run_append]
      have hlimit := congrArg Memory.scovLimit hcompared.agrees.memory
      cases f.dataStoreFirst with
      | true =>
          obtain ⟨s'', hrun, hagrees, hfound, hoffset⟩ := hcompared.late_found p
            (m := s'.memory.storeWord (s'.regs o.temp) (s'.regs o.temp4)
              (s'.regs o.tag) (s'.regs o.data)) ((Memory.storeWord_scovLimit ..).trans hlimit)
          have hlate : run p (compareLate o ++ when (!true) [vmStl f o.data o.temp4])
              { s' with
                memory := s'.memory.storeWord (s'.regs o.temp) (s'.regs o.temp4)
                  (s'.regs o.tag) (s'.regs o.data) } = .ok s'' := by
            rw [Bool.not_true, when_false, List.append_nil, hrun]
          rw [if_pos rfl, run_storeDataFirst p hcompared.ready]
          split
          · next hwritable =>
              split
              · next hmapped =>
                  rw [except_bind_ok, hlate]
                  exact .ok ⟨⟨hmapped, hwritable⟩, hstored.trans (hagrees.mono hmem), hfound, hoffset⟩
              · next hmapped =>
                  exact .error ⟨fun h => hmapped h.1, fun _ h => absurd (h hwritable) hmapped⟩
          · next hwritable => exact .error ⟨fun h => hwritable h.2, fun _ _ => hcompared.agrees⟩
      | false =>
          obtain ⟨s'', hrun, hagrees, hfound, hoffset⟩ := hcompared.late_found p
            (m := s'.memory.storeTag (s'.regs o.temp) (s'.regs o.tag))
            ((Memory.storeTag_scovLimit ..).trans hlimit)
          rw [if_neg (by decide), run_one, execute_storeTag p hcompared.ready]
          split
          · next hmapped =>
              rw [except_bind_ok, run_append, hrun, except_bind_ok, Bool.not_false, when_true,
                run_one, vmStl, execute_vm, Access.execute,
                hagrees.regs o.temp4 (by simp [h14.symm, h24.symm]),
                hagrees.regs o.data (by simp [hdata]), hagrees.memory]
              split
              · next hwritable =>
                  refine .ok ⟨⟨hmapped, hwritable⟩, ?_, hfound, hoffset⟩
                  refine hstored.trans ⟨rfl, fun r hr => ?_⟩
                  exact hagrees.regs r fun h => hr (hmem h)
              · next hwritable => exact .error ⟨fun h => hwritable h.2, fun h => absurd h (by decide)⟩
          · next hmapped => exact .error ⟨fun h => hmapped h.1, fun h => absurd h (by decide)⟩
  refine hmain.bind fun s' h => ?_
  exact (h.2.ends p).mono (fun _ h' => ⟨h.1, h'⟩) (fun _ => False.elim)

theorem original_memoryWrite (o : MemoryWrite) :
    Original.memoryWrite o = memoryWrite ⟨false, false⟩ o := by
  simp [Original.memoryWrite, memoryWrite, vmLdqU, vmStl, vmStqU, storeTag]
end VMAccess
