import Mathlib
import OsxVlm.Translator.MemoryWrite

/-!
# What `stack-dump` does

The loop on the data is the same whatever the flags.  The loop on the tags stores a
byte or a quadword, and is followed turn by turn.  The last section is about all the
macros together.
-/

namespace VMAccess

open Alpha
open Faulting (Ends Together Abreast)

/-- The registers of `stack-dump`, each apart from the others. -/
theorem DumpRegisters.apart (o : DumpRegisters) :
    (o.vma ≠ o.sca ∧ o.vma ≠ o.count ∧ o.vma ≠ o.temp ∧ o.vma ≠ o.temp2) ∧
      (o.sca ≠ o.count ∧ o.sca ≠ o.temp ∧ o.sca ≠ o.temp2) ∧
      (o.count ≠ o.temp ∧ o.count ≠ o.temp2) ∧ o.temp ≠ o.temp2 := by
  have hapart := o.check.apart
  simp only [List.nodup_cons, List.mem_cons, List.not_mem_nil, or_false, not_or] at hapart
  obtain ⟨h1, h2, h3, h4, -⟩ := hapart
  exact ⟨h1, h2, h3, h4⟩

/-- The temporaries of `stack-dump`. -/
def DumpRegisters.temps (o : DumpRegisters) : List Register := [o.temp, o.temp2]

/-- The state after a turn of the loop on the tags. -/
def State.dumpTag (s : State) (o : DumpRegisters) : State :=
  ((({ s with
    memory := s.memory.storeTag (s.regs o.vma)
      ((s.memory.stackCache (s.regs o.sca + 4)).signExtend 64) } : State).set
    o.count (s.regs o.count - 1)).set o.sca (s.regs o.sca + 8)).set o.vma (s.regs o.vma + 1)

/-- One tag, as a byte or in its quadword. -/
theorem storeDumped_ends (p : Pages) (f : Modes) (o : DumpRegisters) (s : State) :
    Ends
      (fun s' => p.mapped (s.regs o.vma) ∧
        State.Agrees o.temps
          { s with memory := s.memory.storeTag (s.regs o.vma) (s.regs o.temp) } s')
      (fun _ => ¬ p.mapped (s.regs o.vma))
      (run p (if f.explicitFaultEdges then [.vm true (.stb o.temp o.vma)]
        else [vmLdqU f o.temp2 o.vma, insbl o.temp o.vma o.temp, mskbl o.temp2 o.vma o.temp2,
          bis o.temp o.temp2 o.temp2, vmStqU f o.temp2 o.vma]) s) := by
  obtain ⟨⟨h1, h2, h3, h4⟩, -, -, h10⟩ := o.apart
  cases f.explicitFaultEdges with
  | true =>
      rw [if_pos rfl, run_one, execute_vm, Access.execute]
      split
      · next hmapped => exact .ok ⟨hmapped, State.Agrees.refl _ _⟩
      · next hmapped => exact .error hmapped
  | false =>
      rw [if_neg (by decide), run_cons, vmLdqU, execute_ldqU]
      split
      · next hmapped =>
          have hpacked := storeQuad_merge s.memory.tags (s.regs o.vma) (s.regs o.temp)
          rw [BitVec.or_comm] at hpacked
          simp only [except_bind_ok, run_cons, run_nil, execute_insbl, execute_mskbl, execute_bis,
            vmStqU, execute_vm, Access.execute, Pages.mapped_aligned, State.set_self,
            State.set_memory, State.set_regs _ _ o.vma, State.set_regs _ _ o.temp2,
            State.set_regs _ _ o.temp, if_neg h3, if_neg h4, if_neg h10, if_neg h10.symm, hmapped,
            if_true, hpacked]
          refine .ok ⟨trivial, rfl, fun r hr => ?_⟩
          have hne : r ≠ o.temp ∧ r ≠ o.temp2 := by simpa [DumpRegisters.temps] using hr
          simp only [State.set_regs, if_neg hne.1, if_neg hne.2]
      · next hmapped => exact .error hmapped

theorem dumpTag_ends (p : Pages) (f : Modes) (o : DumpRegisters) (s : State) :
    Ends (fun s' => p.mapped (s.regs o.vma) ∧ (s.dumpTag o).Agrees o.temps s')
      (fun _ => ¬ p.mapped (s.regs o.vma)) (run p (stackDump f o).second s) := by
  obtain ⟨⟨h1, h2, h3, h4⟩, ⟨h5, h6, h7⟩, ⟨h8, h9⟩, h10⟩ := o.apart
  have hstart : run p [subqLiteral o.count 1 o.count, .ldlCache o.temp 4 o.sca,
      addqLiteral o.sca 8 o.sca] s =
      .ok (((s.set o.count (s.regs o.count - 1)).set o.temp
        ((s.memory.stackCache (s.regs o.sca + 4)).signExtend 64)).set o.sca (s.regs o.sca + 8)) := by
    simp only [run_cons, run_nil, execute_subqLiteral, execute_ldlCache, execute_addqLiteral,
      except_bind_ok, State.set_memory, State.set_regs _ _ o.sca, if_neg h5, if_neg h6]
    rfl
  rw [stackDump]
  simp only [List.append_assoc, run_append, hstart, except_bind_ok]
  generalize hs1 : ((s.set o.count _).set o.temp _).set o.sca _ = s1
  have hvma : s1.regs o.vma = s.regs o.vma := by
    rw [← hs1, State.set_regs, if_neg h1, State.set_regs, if_neg h3, State.set_regs, if_neg h2]
  have htemp : s1.regs o.temp = (s.memory.stackCache (s.regs o.sca + 4)).signExtend 64 := by
    rw [← hs1, State.set_regs, if_neg h6.symm, State.set_self]
  have hstore := storeDumped_ends p f o s1
  rw [hvma, htemp] at hstore
  refine (hstore.mono (fun _ h => h) (fun _ h => h)).bind fun s2 h => ?_
  simp only [run_cons, run_nil, execute_addqLiteral, execute_label, except_bind_ok]
  have hvma2 : s2.regs o.vma = s.regs o.vma := by
    rw [h.2.regs _ (by simp [DumpRegisters.temps, h3, h4])]
    exact hvma
  refine .ok ⟨h.1, ?_, fun r hr => ?_⟩
  · rw [State.set_memory, h.2.memory, ← hs1]
    rfl
  · have hne : r ≠ o.temp ∧ r ≠ o.temp2 := by simpa [DumpRegisters.temps] using hr
    rw [State.dumpTag, State.set_regs, State.set_regs, hvma2, h.2.regs r hr, ← hs1]
    simp only [State.set_regs, if_neg hne.1]
    rfl

/-- A counter that is positive goes down. -/
theorem toInt_sub_one {x : BitVec 64} (h : 0 < x.toInt) : (x - 1).toInt.toNat < x.toInt.toNat := by
  have hone : (1 : BitVec 64).toInt = 1 := rfl
  have hlt := @BitVec.toInt_lt 64 x
  rw [BitVec.toInt_sub, hone, Int.bmod_eq_of_le_mul_two] <;> omega

/-- Every turn of the loop on the data lowers the counter. -/
theorem dumpData_ends (p : Pages) (f : Modes) (o : DumpRegisters) (s : State) :
    Ends (fun s' => s'.regs o.count = s.regs o.count - 1) (fun _ => True)
      (run p (stackDump f o).first s) := by
  obtain ⟨⟨h1, h2, h3, h4⟩, ⟨h5, h6, h7⟩, ⟨h8, h9⟩, h10⟩ := o.apart
  have hcount (v w : BitVec 64) : (((s.set o.temp v).set o.count (s.regs o.count - 1)).set
      o.sca w).regs o.count = s.regs o.count - 1 := by
    rw [State.set_regs, if_neg h5.symm, State.set_self]
  simp only [stackDump, run_cons, execute_ldlCache, execute_subqLiteral,
    execute_addqLiteral, vmStl, execute_vm, Access.execute, except_bind_ok,
    State.set_regs s o.temp o.count, if_neg h8]
  split
  · simp only [except_bind_ok, run_cons, run_nil, execute_addqLiteral, execute_label]
    refine .ok ?_
    rw [State.set_regs, if_neg h2.symm]
    exact hcount _ _
  · exact .error trivial

theorem loop_isSome {p : Pages} {count : Register} {body : List Instr} {fuel : Nat}
    (hbody : ∀ s, Ends (fun s' => s'.regs count = s.regs count - 1) (fun _ => True)
      (run p body s)) (hfuel : 2 ^ 63 ≤ fuel) (s : State) :
    (Faulting.loop (bgt count) (run p body) fuel s).isSome := by
  apply Faulting.loop_isSome (fun s => (s.regs count).toInt.toNat)
  · intro s htest
    refine (hbody s).mono (fun s' h => ?_) (fun _ _ => trivial)
    rw [h]
    exact toInt_sub_one (of_decide_eq_true htest)
  · have hlt := @BitVec.toInt_lt 64 (s.regs count)
    omega

/-- Enough fuel brings a dump to its end. -/
theorem stackDump_isSome (p : Pages) (f : Modes) (o : DumpRegisters) {fuel : Nat}
    (hfuel : 2 ^ 63 ≤ fuel) (s : State) : ((stackDump f o).run p fuel s).isSome := by
  obtain ⟨⟨h1, h2, h3, h4⟩, ⟨h5, h6, h7⟩, ⟨h8, h9⟩, h10⟩ := o.apart
  have hfirst := fun s => loop_isSome (dumpData_ends p f o) hfuel s
  have hsecond := fun s => loop_isSome (fun s => (dumpTag_ends p f o s).mono (fun s' h => by
      rw [h.2.regs o.count (by simp [DumpRegisters.temps, h8, h9])]
      rw [State.dumpTag, State.set_regs, if_neg h2.symm, State.set_regs, if_neg h5.symm,
        State.set_self]) (fun _ _ => trivial)) hfuel s
  rw [Loops.run]
  cases run p (stackDump f o).before s with
  | error s => rfl
  | ok s =>
      have hdone := hfirst s
      change (Faulting.loop (bgt (stackDump f o).count) _ fuel s).isSome at hdone
      cases hloop : Faulting.loop (bgt (stackDump f o).count) (run p (stackDump f o).first) fuel s with
      | none =>
          rw [hloop] at hdone
          cases hdone
      | some outcome =>
          cases outcome with
          | error s => simp [hloop]
          | ok s =>
              simp only [hloop]
              cases run p (stackDump f o).between s with
              | error s => rfl
              | ok s => exact hsecond s

/-- Loops that differ in the second body alone. -/
theorem Loops.abreast (p : Pages) {R : State → State → Prop} {l l' : Loops} {fuel : Nat}
    (hcount : l'.count = l.count) (hbefore : l'.before = l.before)
    (hfirst : VMAccess.run p l'.first = VMAccess.run p l.first) (hbetween : l'.between = l.between)
    (hsecond : ∀ s, Abreast R (Faulting.loop (bgt l.count) (VMAccess.run p l.second) fuel s)
      (Faulting.loop (bgt l.count) (VMAccess.run p l'.second) fuel s))
    (s : State) : Abreast R (l.run p fuel s) (l'.run p fuel s) := by
  rw [Loops.run, Loops.run, hcount, hbefore, hfirst, hbetween]
  cases VMAccess.run p l.before s with
  | error s => trivial
  | ok s =>
      simp only
      cases Faulting.loop (bgt l.count) (VMAccess.run p l.first) fuel s with
      | none => trivial
      | some outcome =>
          cases outcome with
          | error s => trivial
          | ok s =>
              simp only
              cases VMAccess.run p l.between s with
              | error s => trivial
              | ok s => exact hsecond s

theorem State.Agrees.dumpTag {o : DumpRegisters} {s t : State} (h : s.Agrees o.temps t) :
    (s.dumpTag o).Agrees o.temps (t.dumpTag o) := by
  obtain ⟨⟨h1, h2, h3, h4⟩, ⟨h5, h6, h7⟩, ⟨h8, h9⟩, h10⟩ := o.apart
  have hvma := h.regs o.vma (by simp [DumpRegisters.temps, h3, h4])
  have hsca := h.regs o.sca (by simp [DumpRegisters.temps, h6, h7])
  have hcount := h.regs o.count (by simp [DumpRegisters.temps, h8, h9])
  rw [State.dumpTag, State.dumpTag, h.memory, hvma, hsca, hcount]
  refine ⟨rfl, fun r hr => ?_⟩
  simp only [State.set_regs, h.regs r hr]

/-- The flags only matter for the temporaries of a dump. -/
theorem stackDump_abreast (p : Pages) (f g : Modes) (o : DumpRegisters) (fuel : Nat) (s : State) :
    Abreast (State.Agrees o.temps) ((stackDump f o).run p fuel s)
      ((stackDump g o).run p fuel s) := by
  obtain ⟨⟨h1, h2, h3, h4⟩, ⟨h5, h6, h7⟩, ⟨h8, h9⟩, h10⟩ := o.apart
  have hfirst : run p (stackDump g o).first = run p (stackDump f o).first := rfl
  have hsecond (s : State) :
      Abreast (State.Agrees o.temps)
        (Faulting.loop (bgt o.count) (run p (stackDump f o).second) fuel s)
        (Faulting.loop (bgt o.count) (run p (stackDump g o).second) fuel s) := by
    refine Faulting.loop_abreast (fun s t h => ?_) (fun s t h => ?_) fuel (State.Agrees.refl _ s)
    · rw [bgt, bgt, h.regs o.count (by simp [DumpRegisters.temps, h8, h9])]
    · have ht := dumpTag_ends p g o t
      rw [h.regs o.vma (by simp [DumpRegisters.temps, h3, h4])] at ht
      exact (dumpTag_ends p f o s).together ht fun s' t' hs' ht' =>
        hs'.symm.trans (h.dumpTag.trans ht')
  exact @Loops.abreast p _ (stackDump f o) (stackDump g o) fuel rfl rfl hfirst rfl hsecond s

/-! ### The originals -/

theorem original_vmRead (o : ReadRegisters) (prefetchp : Bool) :
    Original.vmRead o prefetchp = vmRead ⟨false, false⟩ o prefetchp := by
  simp [Original.vmRead, vmRead, vmLdqU, vmLdl]

theorem original_vmWrite (o : WriteRegisters) (prefetchp : Bool) :
    Original.vmWrite o prefetchp = vmWrite ⟨false, false⟩ o prefetchp := by
  simp [Original.vmWrite, vmWrite, vmLdqU, vmStl, vmStqU, storeTag]

theorem original_stackDump (o : DumpRegisters) :
    Original.stackDump o = stackDump ⟨false, false⟩ o := rfl

/-! ### The macros together -/

/-- A word of the emulated memory, where the host maps it. -/
structure Addresses (p : Pages) (s : State) (r : Register) : Prop where
  ivory : s.regs ivory = p.tagSpace
  zero : s.regs .zero = 0
  vma : ∃ vma : BitVec 32, s.regs r = vma.zeroExtend 64

theorem Addresses.orderly {p : Pages} {s : State} {vma : Register} (h : Addresses p s vma) :
    Orderly p s vma := by
  obtain ⟨a, ha⟩ := h.vma
  have hmapped := p.mapped_of_writable a
  unfold Orderly State.dataAddress State.tagAddress
  rw [h.zero, h.ivory, ha, add_zero]
  exact hmapped

theorem State.Agrees.store {o : WriteRegisters} {temps : List Register} {s s' : State}
    (h : s.Agrees temps s')
    (hlive : ∀ r, r = ivory ∨ r = .zero ∨ r = o.vma ∨ r = o.tag ∨ r = o.data → r ∉ temps) :
    (s.store o).Agrees temps (s'.store o) := by
  refine ⟨?_, h.regs⟩
  rw [State.store, State.store, h.tagAddress (hlive _ (by simp)) (hlive _ (by simp)),
    h.dataAddress (hlive _ (by simp)) (hlive _ (by simp)) (hlive _ (by simp)), h.memory,
    h.regs _ (hlive o.tag (by simp)), h.regs _ (hlive o.data (by simp))]

theorem VMWrite.live (o : VMWrite) :
    ∀ r, r = ivory ∨ r = .zero ∨ r = o.vma ∨ r = o.tag ∨ r = o.data → r ∉ o.temps := by
  intro r hr hmem
  exact o.check.notLive r hmem (by simpa using hr)

theorem State.Agrees.writable {p : Pages} {temps : List Register} {s s' : State}
    (h : s.Agrees temps s') {vma : Register} (hvma : vma ∉ temps) (hivory : ivory ∉ temps)
    (hzero : .zero ∉ temps) : Writable p s' vma = Writable p s vma := by
  rw [Writable, Writable, h.tagAddress hvma hivory, h.dataAddress hvma hivory hzero]

theorem State.Agrees.write {o : MemoryWrite} {s s' : State} (h : s.Agrees o.allTemps s') :
    (s.write o).Agrees o.allTemps (s'.write o) := by
  have hstore := h.store (o := o.toWriteRegisters) fun r hr => o.live hr
  unfold State.write
  cases hcache : o.cantBeInCache with
  | true => exact hstore
  | false =>
      rw [h.baseValue hcache, h.limitValue hcache, h.regs o.vma (o.live (by simp))]
      split
      · exact hstore.storeStack hcache
      · exact hstore

/-- From states that agree, a write ends the same. -/
theorem vmWrite_again (p : Pages) (f g : Modes) (o : VMWrite) (prefetchp : Bool) {s s' : State}
    (h : s.Agrees o.temps s') :
    Together (State.Agrees o.temps) (run p (vmWrite f o.toWriteRegisters prefetchp) s)
      (run p (vmWrite g o.toWriteRegisters prefetchp) s') := by
  have hlive := o.live
  have hs' := vmWrite_ends p g o prefetchp s'
  rw [h.writable (hlive _ (by simp)) (hlive _ (by simp)) (hlive _ (by simp))] at hs'
  exact ((vmWrite_ends p f o prefetchp s).mono (fun _ h => h) (fun _ h => h.1)).together
    (hs'.mono (fun _ h => h) (fun _ h => h.1)) fun _ _ h1 h2 =>
      h1.symm.trans ((h.store hlive).trans h2)

theorem memoryWrite_again (p : Pages) (f g : Modes) (o : MemoryWrite) {s s' : State}
    (h : s.Agrees o.allTemps s') :
    Together (State.Agrees o.allTemps) ((memoryWrite f o).run p s)
      ((memoryWrite g o).run p s') := by
  have hs' := memoryWrite_ends p g o s'
  rw [h.writable (o.live (by simp)) (o.live (by simp)) (o.live (by simp))] at hs'
  exact ((memoryWrite_ends p f o s).mono (fun _ h => h) (fun _ h => h.1)).together
    (hs'.mono (fun _ h => h) (fun _ h => h.1)) fun _ _ h1 h2 => h1.symm.trans (h.write.trans h2)

/-- Each macro ends as the original does, whatever the flags: it faults on the same pages,
and otherwise leaves the same but for its temporaries.  With the data stored first, a
fault in a write leaves everything as it was, and the write can be started again. -/
theorem access_overrides (p : Pages) (f : Modes) (s : State) :
    (∀ (o : ReadRegisters) (prefetchp : Bool),
      Together Eq (run p (vmRead f o prefetchp) s) (run p (Original.vmRead o prefetchp) s)) ∧
    (∀ (o : VMWrite) (prefetchp : Bool),
      Together (State.Agrees o.temps) (run p (vmWrite f o.toWriteRegisters prefetchp) s)
        (run p (Original.vmWrite o.toWriteRegisters prefetchp) s)) ∧
    (∀ o : MemoryWrite,
      Together (State.Agrees o.allTemps) ((memoryWrite f o).run p s)
        ((Original.memoryWrite o).run p s)) ∧
    (∀ (o : DumpRegisters) (fuel : Nat),
      Abreast (State.Agrees o.temps) ((stackDump f o).run p fuel s)
        ((Original.stackDump o).run p fuel s) ∧
      (2 ^ 63 ≤ fuel → ((stackDump f o).run p fuel s).isSome)) ∧
    (f.dataStoreFirst = true →
      (∀ (o : VMWrite) (prefetchp : Bool) (s' : State), Addresses p s o.vma →
        run p (vmWrite f o.toWriteRegisters prefetchp) s = .error s' →
          s.Agrees o.temps s' ∧ ∀ p', Together (State.Agrees o.temps)
            (run p' (vmWrite f o.toWriteRegisters prefetchp) s')
            (run p' (vmWrite f o.toWriteRegisters prefetchp) s)) ∧
      (∀ (o : MemoryWrite) (s' : State), Addresses p s o.vma →
        (memoryWrite f o).run p s = .error s' →
          s.Agrees o.allTemps s' ∧ ∀ p', Together (State.Agrees o.allTemps)
            ((memoryWrite f o).run p' s') ((memoryWrite f o).run p' s))) := by
  refine ⟨fun o prefetchp => ?_, fun o prefetchp => ?_, fun o => ?_, fun o fuel => ⟨?_, ?_⟩,
    fun hfirst => ⟨fun o prefetchp s' haddresses hfault => ?_, fun o s' haddresses hfault => ?_⟩⟩
  · rw [original_vmRead]
    exact (vmRead_ends p f o prefetchp s).together (vmRead_ends p _ o prefetchp s)
      fun _ _ h1 h2 => h1.trans h2.symm
  · rw [original_vmWrite]
    exact vmWrite_again p f _ o prefetchp (State.Agrees.refl _ s)
  · rw [original_memoryWrite]
    exact memoryWrite_again p f _ o (State.Agrees.refl _ s)
  · rw [original_stackDump]
    exact stackDump_abreast p f _ o fuel s
  · exact fun hfuel => stackDump_isSome p f o hfuel s
  · have hends := vmWrite_ends p f o prefetchp s
    rw [hfault] at hends
    cases hends with
    | error h =>
        have hagrees := h.2 hfirst haddresses.orderly
        exact ⟨hagrees, fun p' => vmWrite_again p' f f o prefetchp hagrees.symm⟩
  · have hends := memoryWrite_ends p f o s
    rw [hfault] at hends
    cases hends with
    | error h =>
        have hagrees := h.2 hfirst haddresses.orderly
        exact ⟨hagrees, fun p' => memoryWrite_again p' f f o hagrees.symm⟩

/-- A host on which every page is protected. -/
def samplePages : Pages where
  tagSpace := 0x200000000
  mapped := fun _ => true
  dataReadable := fun _ => true
  dataWritable := fun _ => false
  mapped_quad := fun _ => rfl
  mapped_of_writable := fun _ h => by cases h

attribute [local instance] Alpha.neZero_registers

def sampleWrite : VMWrite where
  vma := .r 1
  tag := .r 2
  data := .r 3
  temp := .r 4
  temp2 := .r 5
  temp3 := .r 6
  temp4 := .r 7
  check := ⟨by decide, by decide⟩

def sampleState : State where
  regs := fun r => if r = ivory then 0x200000000 else if r = .r 1 then 0xF8000000 else 0
  memory :=
    { tags := fun _ => 0
      data := fun _ => 0
      stackCache := fun _ => 0
      stackCacheBaseVMA := 0xF8000000
      stackCacheData := 0
      scovLimit := 0x700
      scovDumpCount := 0 }

theorem access_overrides_sample :
    ∃ s', run samplePages (vmWrite ⟨true, true⟩ sampleWrite.toWriteRegisters false) sampleState =
        .error s' ∧ sampleState.Agrees sampleWrite.temps s' :=
  ⟨_, rfl, (((access_overrides samplePages ⟨true, true⟩ sampleState).2.2.2.2 rfl).1 sampleWrite
    false _ ⟨rfl, rfl, 0xF8000000, rfl⟩ rfl).1⟩

end VMAccess
