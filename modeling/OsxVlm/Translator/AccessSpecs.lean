import Mathlib
import OsxVlm.Translator.AccessOverrides

/-!
# What `VM-read` and `VM-write` do

Each expansion is followed part by part.  `Agrees` leaves a macro its temporaries:
all that is said of the state after it is said of the rest.
-/

namespace VMAccess

open Alpha
open Faulting (Ends)

/-- The same memory, and the same registers other than `temps`. -/
structure State.Agrees (temps : List Register) (s s' : State) : Prop where
  memory : s'.memory = s.memory
  regs : ∀ r, r ∉ temps → s'.regs r = s.regs r

def State.tagAddress (s : State) (vma : Register) : BitVec 64 := s.regs vma + s.regs ivory

def State.dataAddress (s : State) (vma : Register) : BitVec 64 :=
  s.tagAddress vma <<< 2 + s.regs .zero

/-- The state after a read. -/
def State.read (s : State) (o : ReadRegisters) : State :=
  ((s.set o.temp2 (s.tagAddress o.vma)).set o.data
    ((s.memory.data (s.dataAddress o.vma)).signExtend 64)).set o.tag
    ((s.memory.tags (s.tagAddress o.vma)).setWidth 64)

theorem CheckTemporaries.ne {lives temps : List Register} (h : CheckTemporaries lives temps)
    {r r' : Register} (hr : r ∈ temps) (hr' : r' ∈ ivory :: .zero :: lives) : r ≠ r' := by
  rintro rfl
  exact h.notLive r hr hr'

def Readable (p : Pages) (s : State) (vma : Register) : Prop :=
  p.mapped (s.tagAddress vma) ∧ p.dataReadable (s.dataAddress vma)

/-- What the tag is loaded as: the byte, or the quadword around it. -/
def loadedTag (f : Modes) (s : State) (t : BitVec 64) : BitVec 64 :=
  if f.explicitFaultEdges then (s.memory.tags t).setWidth 64
  else quadAt s.memory.tags (aligned t)

theorem execute_loadTag (p : Pages) (f : Modes) (s : State) (a b : Register) :
    Instr.execute p s (if f.explicitFaultEdges then .vm true (.ldb a b) else vmLdqU f a b) =
      if p.mapped (s.regs b) then .ok (s.set a (loadedTag f s (s.regs b))) else .error s := by
  cases h : f.explicitFaultEdges <;>
    simp [vmLdqU, Instr.execute, Access.execute, loadedTag, h]

/-- The byte is taken out where the quadword was loaded. -/
theorem run_extractTag (p : Pages) (f : Modes) {s s' : State} {a b : Register} {t : BitVec 64}
    (hb : s'.regs b = t) (ha : s'.regs a = loadedTag f s t) :
    run p (when (!f.explicitFaultEdges) [extbl a b a]) s' =
      .ok (s'.set a ((s.memory.tags t).setWidth 64)) := by
  unfold loadedTag at ha
  cases h : f.explicitFaultEdges with
  | false =>
      rw [h, if_neg (by decide)] at ha
      rw [when, Bool.not_false, if_pos rfl, run_one, execute_extbl, ha, hb, extbl_quadAt]
  | true =>
      rw [h, if_pos rfl] at ha
      rw [← ha, when, Bool.not_true, if_neg (by decide), run_nil, State.set_same]

theorem vmRead_ends (p : Pages) (f : Modes) (o : ReadRegisters) (prefetchp : Bool) (s : State) :
    Ends (fun s' => Readable p s o.vma ∧ s' = s.read o) (fun _ => ¬ Readable p s o.vma)
      (run p (vmRead f o prefetchp) s) := by
  have hapart := o.check.apart
  have hzero : o.temp2 ≠ .zero := o.check.ne (by simp) (by simp)
  simp only [List.nodup_cons, List.mem_cons, List.not_mem_nil, or_false, not_or] at hapart
  obtain ⟨⟨htag, htag2⟩, hdata2, -⟩ := hapart
  have hfetch (r : Register) : run p (when prefetchp [.fetch r]) = .ok := by cases prefetchp <;> rfl
  have hstart : run p [addq o.vma ivory o.temp2, s4addq o.temp2 .zero o.data] s =
      .ok ((s.set o.temp2 (s.tagAddress o.vma)).set o.data (s.dataAddress o.vma)) := by
    simp only [run_cons, run_nil, execute_addq, execute_s4addq, except_bind_ok, State.set_self,
      State.set_regs s, if_neg hzero.symm]
    rfl
  unfold Readable State.read
  simp only [vmRead, List.append_assoc, run_append, hstart, hfetch, except_bind_ok, run_one,
    execute_loadTag]
  generalize s.tagAddress o.vma = t
  generalize s.dataAddress o.vma = d
  have ht : ((s.set o.temp2 t).set o.data d).regs o.temp2 = t := by grind
  rw [ht]
  by_cases hmapped : p.mapped t
  · rw [if_pos hmapped, except_bind_ok]
    generalize hv : loadedTag f ((s.set o.temp2 t).set o.data d) t = v
    have hd : (((s.set o.temp2 t).set o.data d).set o.tag v).regs o.data = d := by grind
    simp only [run_append, hfetch, run_one, vmLdl, execute_vm, Access.execute, hd, State.set_memory,
      except_bind_ok]
    by_cases hreadable : p.dataReadable d
    · rw [if_pos hreadable, except_bind_ok, @run_extractTag p f s _ _ _ t (by grind) (by grind [loadedTag, State.set_memory])]
      refine .ok ⟨⟨hmapped, hreadable⟩, ?_⟩
      rw [State.set_comm _ htag, State.set_set, State.set_set]
    · rw [if_neg hreadable]
      exact .error fun h => hreadable h.2
  · rw [if_neg hmapped]
    exact .error fun h => hmapped h.1

/-! ### Writes -/

def Writable (p : Pages) (s : State) (vma : Register) : Prop :=
  p.mapped (s.tagAddress vma) ∧ p.dataWritable (s.dataAddress vma)

/-- The data of a word is never writable where its tag is not there. -/
def Orderly (p : Pages) (s : State) (vma : Register) : Prop :=
  p.dataWritable (s.dataAddress vma) → p.mapped (s.tagAddress vma)

def Memory.storeWord (m : Memory) (t d tag data : BitVec 64) : Memory :=
  (m.storeData d data).storeTag t tag

/-- The state after a write. -/
def State.store (s : State) (o : WriteRegisters) : State :=
  { s with
    memory := s.memory.storeWord (s.tagAddress o.vma) (s.dataAddress o.vma)
      (s.regs o.tag) (s.regs o.data) }

/-- The quadword with the new tag in it. -/
def packedTag (tags : BitVec 64 → BitVec 8) (t v : BitVec 64) : BitVec 64 :=
  Operate.result .mskbl (quadAt tags (aligned t)) t ||| Operate.result .insbl v t

/-- Where a quadword is stored, it stands in `temp3`. -/
def TagReady (f : Modes) (o : WriteRegisters) (s : State) : Prop :=
  f.explicitFaultEdges = false →
    s.regs o.temp3 = packedTag s.memory.tags (s.regs o.temp) (s.regs o.tag)

theorem execute_storeTag (p : Pages) {f : Modes} {o : WriteRegisters} {s : State}
    (h : TagReady f o s) :
    (storeTag f o).execute p s =
      if p.mapped (s.regs o.temp) then
        .ok { s with memory := s.memory.storeTag (s.regs o.temp) (s.regs o.tag) }
      else .error s := by
  cases hexplicit : f.explicitFaultEdges with
  | false =>
      have hstore := storeQuad_merge s.memory.tags (s.regs o.temp) (s.regs o.tag)
      simp only [storeTag, hexplicit, Bool.false_eq_true, if_false, vmStqU, execute_vm,
        Access.execute, Pages.mapped_aligned, h hexplicit, packedTag, hstore]
      rfl
  | true => simp only [storeTag, hexplicit, if_true, execute_vm, Access.execute]

theorem run_storeDataFirst (p : Pages) {f : Modes} {o : WriteRegisters} {s : State}
    (h : TagReady f o s) :
    run p (storeDataFirst f o) s =
      if p.dataWritable (s.regs o.temp4) then
        if p.mapped (s.regs o.temp) then
          .ok { s with
            memory := s.memory.storeWord (s.regs o.temp) (s.regs o.temp4)
              (s.regs o.tag) (s.regs o.data) }
        else .error { s with memory := s.memory.storeData (s.regs o.temp4) (s.regs o.data) }
      else .error s := by
  cases hexplicit : f.explicitFaultEdges with
  | false =>
      have hready : TagReady f o
          { s with memory := s.memory.storeData (s.regs o.temp4) (s.regs o.data) } := h
      have htag := execute_storeTag p hready
      rw [storeTag, hexplicit, if_neg (by decide)] at htag
      rw [storeDataFirst, hexplicit, if_neg (by decide), run_cons, vmStl, execute_vm,
        Access.execute]
      split
      · rw [except_bind_ok, run_one, htag]
        rfl
      · rfl
  | true =>
      simp only [storeDataFirst, hexplicit, if_true, run_one, execute_vm, Access.execute]
      rfl

theorem State.Agrees.refl (temps : List Register) (s : State) : s.Agrees temps s :=
  ⟨rfl, fun _ _ => rfl⟩

theorem State.Agrees.trans {temps : List Register} {s s' s'' : State} (h : s.Agrees temps s')
    (h' : s'.Agrees temps s'') : s.Agrees temps s'' :=
  ⟨h'.memory.trans h.memory, fun r hr => (h'.regs r hr).trans (h.regs r hr)⟩

theorem State.Agrees.symm {temps : List Register} {s s' : State} (h : s.Agrees temps s') :
    s'.Agrees temps s :=
  ⟨h.memory.symm, fun r hr => (h.regs r hr).symm⟩

/-- A macro may leave what it likes in its temporaries. -/
theorem State.Agrees.set {temps : List Register} {s s' : State} (h : s.Agrees temps s')
    {r : Register} (hr : r ∈ temps) (v : BitVec 64) : s.Agrees temps (s'.set r v) := by
  refine ⟨h.memory, fun r' hr' => ?_⟩
  rw [State.set_regs, if_neg (by grind)]
  exact h.regs r' hr'

theorem State.Agrees.mono {temps temps' : List Register} {s s' : State} (h : s.Agrees temps s')
    (hsub : temps ⊆ temps') : s.Agrees temps' s' :=
  ⟨h.memory, fun r hr => h.regs r fun hr' => hr (hsub hr')⟩

theorem State.Agrees.tagAddress {temps : List Register} {s s' : State} (h : s.Agrees temps s')
    {vma : Register} (hvma : vma ∉ temps) (hivory : ivory ∉ temps) :
    s'.tagAddress vma = s.tagAddress vma := by
  rw [State.tagAddress, h.regs _ hvma, h.regs _ hivory, State.tagAddress]

theorem State.Agrees.dataAddress {temps : List Register} {s s' : State} (h : s.Agrees temps s')
    {vma : Register} (hvma : vma ∉ temps) (hivory : ivory ∉ temps) (hzero : .zero ∉ temps) :
    s'.dataAddress vma = s.dataAddress vma := by
  rw [State.dataAddress, h.tagAddress hvma hivory, h.regs _ hzero, State.dataAddress]

/-- The temporaries of a write, each apart from the others and from what it reads. -/
theorem CheckTemporaries.apart_write {o : WriteRegisters}
    (h : CheckTemporaries [o.vma, o.tag, o.data] o.temps) :
    (o.temp ≠ o.temp2 ∧ o.temp ≠ o.temp3 ∧ o.temp ≠ o.temp4) ∧
      (o.temp2 ≠ o.temp3 ∧ o.temp2 ≠ o.temp4) ∧ o.temp3 ≠ o.temp4 ∧
      ∀ r, r = ivory ∨ r = .zero ∨ r = o.vma ∨ r = o.tag ∨ r = o.data →
        r ≠ o.temp ∧ r ≠ o.temp2 ∧ r ≠ o.temp3 ∧ r ≠ o.temp4 := by
  have hapart := h.apart
  simp only [WriteRegisters.temps, List.nodup_cons, List.mem_cons, List.not_mem_nil, or_false,
    not_or] at hapart
  obtain ⟨h1, h2, h3, -⟩ := hapart
  refine ⟨h1, h2, h3, fun r hr => ?_⟩
  have hlive {r' : Register} (hr' : r' ∈ o.temps) : r ≠ r' :=
    (h.ne hr' (by simp only [List.mem_cons, List.not_mem_nil, or_false]; exact hr)).symm
  unfold WriteRegisters.temps at hlive
  exact ⟨hlive (by simp), hlive (by simp), hlive (by simp), hlive (by simp)⟩

/-- The quadword around the tag is loaded where it will be stored. -/
theorem run_loadQuad (p : Pages) (f : Modes) (o : WriteRegisters) (s : State) :
    Ends
      (fun s' => s.Agrees [o.temp3] s' ∧ (f.explicitFaultEdges = false →
        s'.regs o.temp3 = quadAt s.memory.tags (aligned (s.regs o.temp))))
      (fun s' => s' = s ∧ ¬ p.mapped (s.regs o.temp))
      (run p (when (!f.explicitFaultEdges) [vmLdqU f o.temp3 o.temp]) s) := by
  cases hexplicit : f.explicitFaultEdges with
  | false =>
      rw [when, Bool.not_false, if_pos rfl, run_one, vmLdqU, execute_ldqU]
      split
      · refine .ok ⟨(State.Agrees.refl _ s).set (List.mem_singleton.mpr rfl) _, fun _ => ?_⟩
        rw [State.set_self]
      · next hmapped => exact .error ⟨rfl, hmapped⟩
  | true =>
      rw [when, Bool.not_true, if_neg (by decide), run_nil]
      exact .ok ⟨State.Agrees.refl _ s, fun h => absurd h (by decide)⟩

/-- The new tag is put into the quadword, around an instruction that does nothing. -/
theorem run_pack (p : Pages) (f : Modes) {o : WriteRegisters}
    (h : CheckTemporaries [o.vma, o.tag, o.data] o.temps) {s : State} {i : Instr}
    (hi : ∀ s, i.execute p s = .ok s)
    (hquad : f.explicitFaultEdges = false →
      s.regs o.temp3 = quadAt s.memory.tags (aligned (s.regs o.temp))) :
    ∃ s', run p (when (!f.explicitFaultEdges) [insbl o.tag o.temp o.temp2,
        mskbl o.temp3 o.temp o.temp3] ++ [i] ++
        when (!f.explicitFaultEdges) [bis o.temp3 o.temp2 o.temp3]) s = .ok s' ∧
      s.Agrees [o.temp2, o.temp3] s' ∧ TagReady f o s' := by
  obtain ⟨h1, h2, h3, hlive⟩ := h.apart_write
  have htag := hlive o.tag (by simp)
  cases hexplicit : f.explicitFaultEdges with
  | false =>
      rw [when, Bool.not_false, if_pos rfl, when, if_pos rfl]
      simp only [List.cons_append, List.nil_append, run_cons, run_nil, execute_insbl,
        execute_mskbl, execute_bis, hi, except_bind_ok]
      refine ⟨_, rfl, ?_, ?_⟩
      · exact (((State.Agrees.refl _ s).set (by simp) _).set (by simp) _).set (by simp) _
      · intro _
        have hquad := hquad hexplicit
        simp only [packedTag, State.set_memory]
        grind
  | true =>
      refine ⟨s, ?_, State.Agrees.refl _ s, fun h => ?_⟩
      · simp only [when, Bool.not_true, Bool.false_eq_true, if_false, List.nil_append,
          List.append_nil, run_one, hi]
      · rw [hexplicit] at h
        cases h

/-- The state that the stores start in. -/
structure Prepared (f : Modes) (o : WriteRegisters) (temps : List Register) (s s' : State) :
    Prop where
  agrees : s.Agrees temps s'
  tagAddress : s'.regs o.temp = s.tagAddress o.vma
  dataAddress : s'.regs o.temp4 = s.dataAddress o.vma
  ready : TagReady f o s'

/-- What `VM-write` does before it stores. -/
def prepareWrite (f : Modes) (o : WriteRegisters) (prefetchp : Bool) : List Instr :=
  [addq o.vma ivory o.temp,
    s4addq o.temp .zero o.temp4] ++
  when prefetchp [.fetch o.temp, .label] ++
  when (!f.explicitFaultEdges)
    [vmLdqU f o.temp3 o.temp,
      insbl o.tag o.temp o.temp2,
      mskbl o.temp3 o.temp o.temp3] ++
  [if prefetchp then .fetch o.temp4 else .label] ++
  when (!f.explicitFaultEdges) [bis o.temp3 o.temp2 o.temp3]

theorem prepareWrite_ends (p : Pages) (f : Modes) (o : VMWrite) (prefetchp : Bool) (s : State) :
    Ends (Prepared f o.toWriteRegisters o.temps s)
      (fun s' => ¬ p.mapped (s.tagAddress o.vma) ∧ s.Agrees o.temps s')
      (run p (prepareWrite f o.toWriteRegisters prefetchp) s) := by
  obtain ⟨h1, h2, h3, hlive⟩ := o.check.apart_write
  have hzero := hlive .zero (by simp)
  have hstart : run p [addq o.vma ivory o.temp, s4addq o.temp .zero o.temp4] s =
      .ok ((s.set o.temp (s.tagAddress o.vma)).set o.temp4 (s.dataAddress o.vma)) := by
    simp only [run_cons, run_nil, execute_addq, execute_s4addq, except_bind_ok, State.set_self,
      State.set_regs s, if_neg hzero.1]
    rfl
  have hfetch : run p (when prefetchp [.fetch o.temp, .label]) = .ok := by cases prefetchp <;> rfl
  have hnothing (t : State) :
      Instr.execute p t (if prefetchp then .fetch o.temp4 else .label) = .ok t := by
    cases prefetchp <;> rfl
  have hsplit : when (!f.explicitFaultEdges) [vmLdqU f o.temp3 o.temp,
      insbl o.tag o.temp o.temp2, mskbl o.temp3 o.temp o.temp3] =
      when (!f.explicitFaultEdges) [vmLdqU f o.temp3 o.temp] ++
        when (!f.explicitFaultEdges) [insbl o.tag o.temp o.temp2, mskbl o.temp3 o.temp o.temp3] :=
    when_append _ [vmLdqU f o.temp3 o.temp] _
  simp only [prepareWrite, hsplit, List.append_assoc, run_append _ _ _ s, hstart, except_bind_ok]
  generalize hs : (s.set o.temp (s.tagAddress o.vma)).set o.temp4 (s.dataAddress o.vma) = s1
  have hagrees : s.Agrees o.temps s1 := by
    rw [← hs]
    exact ((State.Agrees.refl _ s).set (by simp [WriteRegisters.temps]) _).set
      (by simp [WriteRegisters.temps]) _
  have ht : s1.regs o.temp = s.tagAddress o.vma := by grind
  have hd : s1.regs o.temp4 = s.dataAddress o.vma := by grind
  rw [run_append, hfetch, except_bind_ok, run_append]
  refine ((run_loadQuad p f o.toWriteRegisters s1).mono (fun _ h => h) ?_).bind ?_
  · rintro s2 ⟨rfl, hmapped⟩
    rw [ht] at hmapped
    exact ⟨hmapped, hagrees⟩
  · rintro s2 ⟨hload, hquad⟩
    obtain ⟨s3, hrun, hpack, hready⟩ := run_pack p f o.check hnothing (s := s2) (by
      rw [hload.memory, hload.regs o.temp (by simp [h1])]
      exact hquad)
    rw [← List.append_assoc, hrun]
    have hsub : [o.temp2, o.temp3] ⊆ o.temps := by simp [WriteRegisters.temps]
    have hsub' : [o.temp3] ⊆ o.temps := by simp [WriteRegisters.temps]
    have hkept {r : Register} (hr : r ≠ o.temp2) (hr' : r ≠ o.temp3) : s3.regs r = s1.regs r := by
      rw [hpack.regs r (by simp [hr, hr']), hload.regs r (by simp [hr'])]
    refine .ok ⟨hagrees.trans ((hload.mono hsub').trans (hpack.mono hsub)), ?_, ?_, hready⟩
    · rw [hkept h1.1 h1.2.1, ht]
    · rw [hkept h2.2.symm h3.symm, hd]

/-- Both stores, the data after the tag. -/
theorem run_storeTagFirst (p : Pages) {f : Modes} {o : WriteRegisters} {s : State}
    (h : TagReady f o s) :
    run p [storeTag f o, vmStl f o.data o.temp4] s =
      if p.mapped (s.regs o.temp) then
        if p.dataWritable (s.regs o.temp4) then
          .ok { s with
            memory := s.memory.storeWord (s.regs o.temp) (s.regs o.temp4)
              (s.regs o.tag) (s.regs o.data) }
        else .error { s with memory := s.memory.storeTag (s.regs o.temp) (s.regs o.tag) }
      else .error s := by
  rw [run_cons, execute_storeTag p h]
  split
  · rw [except_bind_ok, run_one, vmStl, execute_vm, Access.execute]
    rfl
  · rfl

/-- The word that the stores leave, seen from the start of the macro. -/
theorem Prepared.stored {f : Modes} {o : WriteRegisters} {temps : List Register} {s s' : State}
    (h : Prepared f o temps s s') (htag : o.tag ∉ temps) (hdata : o.data ∉ temps) :
    (s.store o).Agrees temps { s' with
      memory := s'.memory.storeWord (s'.regs o.temp) (s'.regs o.temp4)
        (s'.regs o.tag) (s'.regs o.data) } := by
  refine ⟨?_, h.agrees.regs⟩
  rw [h.tagAddress, h.dataAddress, h.agrees.memory, h.agrees.regs _ htag, h.agrees.regs _ hdata]
  rfl

/-- The data is stored first, or the tag. -/
theorem vmWrite_ends (p : Pages) (f : Modes) (o : VMWrite) (prefetchp : Bool) (s : State) :
    Ends (fun s' => Writable p s o.vma ∧ (s.store o.toWriteRegisters).Agrees o.temps s')
      (fun s' => ¬ Writable p s o.vma ∧
        (f.dataStoreFirst → Orderly p s o.vma → s.Agrees o.temps s'))
      (run p (vmWrite f o.toWriteRegisters prefetchp) s) := by
  have hsplit : vmWrite f o.toWriteRegisters prefetchp =
      prepareWrite f o.toWriteRegisters prefetchp ++
        if f.dataStoreFirst then storeDataFirst f o.toWriteRegisters
        else [storeTag f o.toWriteRegisters, vmStl f o.data o.temp4] := rfl
  rw [hsplit, run_append]
  refine ((prepareWrite_ends p f o prefetchp s).mono (fun _ h => h) ?_).bind ?_
  · rintro s' ⟨hmapped, hagrees⟩
    exact ⟨fun h => hmapped h.1, fun _ _ => hagrees⟩
  · intro s' hprepared
    have hstored := hprepared.stored (fun h => o.check.notLive _ h (by simp))
      (fun h => o.check.notLive _ h (by simp))
    unfold Writable Orderly
    rw [← hprepared.tagAddress, ← hprepared.dataAddress]
    cases f.dataStoreFirst with
    | true =>
        rw [if_pos rfl, run_storeDataFirst p hprepared.ready]
        split
        · next hwritable =>
            split
            · next hmapped => exact .ok ⟨⟨hmapped, hwritable⟩, hstored⟩
            · next hmapped =>
                exact .error ⟨fun h => hmapped h.1, fun _ h => absurd (h hwritable) hmapped⟩
        · next hwritable => exact .error ⟨fun h => hwritable h.2, fun _ _ => hprepared.agrees⟩
    | false =>
        rw [if_neg (by decide), run_storeTagFirst p hprepared.ready]
        split
        · next hmapped =>
            split
            · next hwritable => exact .ok ⟨⟨hmapped, hwritable⟩, hstored⟩
            · next hwritable => exact .error ⟨fun h => hwritable h.2, fun h => absurd h (by decide)⟩
        · next hmapped => exact .error ⟨fun h => hmapped h.1, fun h => absurd h (by decide)⟩

end VMAccess
