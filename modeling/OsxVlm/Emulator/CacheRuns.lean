import Mathlib
import OsxVlm.Emulator.CacheTransparent
import OsxVlm.Emulator.Sequencer

/-!
# Runs through the instruction cache

While code words do not change, a miss keeps what the cache has of them coherent: it fills
all lines of its place, and a line that another block had there no longer has that block's
address.  So the sequencer finds at every dispatch the line of its pc, and its runs are
those of a sequencer that decodes every word anew.
-/

namespace Ivory

variable {t : DecodeTables} {memory code : Integer → LispObj} {R : Integer → Prop}
  {cache cache' : InstructionCache} {vma : Integer} {pc : PC}

/-! ### Coherence -/

/-- Only the word of the pc matters. -/
theorem LineRight.congr_memory (h : LineRight t memory cache pc)
    (hword : memory pc.data = code pc.data) : LineRight t code cache pc := by
  obtain ⟨haddress, hdecoding, hnextPc, hnextCp⟩ := h
  rw [hword] at hdecoding hnextPc hnextCp
  exact ⟨haddress, hdecoding, hnextPc, hnextCp⟩

/-- Only the lines of the block matter. -/
theorem LineRight.congr_cache (h : LineRight t code cache pc)
    (hcache : ∀ next : PC, blockVma next.data = blockVma pc.data →
      cache' (lookupLine next) = cache (lookupLine next)) : LineRight t code cache' pc := by
  have hline := hcache pc rfl
  constructor
  · rw [hline]
    exact h.address
  · rw [hline]
    exact h.decoding
  · rw [hline]
    exact h.nextPc
  · rw [hline]
    intro hcode
    obtain hlookup | ⟨hcp, hblock, haddress⟩ := h.nextCp hcode
    · exact .inl hlookup
    · refine .inr ⟨hcp, hblock, ?_⟩
      rw [hcache _ hblock]
      exact haddress

theorem repair_other {ps : List (Int × (Integer → Bool))} {j : Int} (h : ∀ p ∈ ps, j ≠ p.1) :
    repair ps cache j = cache j := by
  induction ps generalizing cache with
  | nil => rfl
  | cons p ps ih =>
      refine (ih fun p' hp' => h p' (List.mem_cons_of_mem p hp')).trans ?_
      change forceLookup p.1 p.2 cache j = cache j
      rw [forceLookup]
      split
      · rw [Function.update_of_ne (h p List.mem_cons_self)]
      · rfl

/-- A miss leaves the lines out of its place. -/
theorem miss_other {i : Int} (h : i < blockCp vma ∨ blockCp vma + 64 ≤ i) :
    instructionCacheMiss t memory cache vma i = cache i := by
  rw [instructionCacheMiss_eq, repair_other, filled_other h]
  intro p hp
  simp only [repairs, List.mem_cons, List.not_mem_nil, or_false] at hp
  obtain rfl | rfl | rfl | rfl | rfl := hp <;> simp only <;> omega

/-- A line of another place. -/
theorem lookupLine_other {x : Integer} (hplace : blockCp x ≠ blockCp vma)
    (h : blockVma pc.data = blockVma x) :
    lookupLine pc < blockCp vma ∨ blockCp vma + 64 ≤ lookupLine pc := by
  have hline := lookupLine_of_block h
  rw [blockCp_eq, blockCp_eq] at hplace
  rw [blockCp_eq] at hline ⊢
  split at hline <;> omega

/-- A line of the same place is that of a pc of the block. -/
theorem lookupLine_same (hplace : blockCp pc.data = blockCp vma) :
    ∃ pc' : PC, blockVma pc'.data = blockVma vma ∧ lookupLine pc' = lookupLine pc := by
  have hdata : (blockVma vma + BitVec.ofNat 32 (pc.data.toNat % 32)).toNat =
      vma.toNat / 32 * 32 + pc.data.toNat % 32 := by
    have hlt := vma.isLt
    rw [BitVec.toNat_add, toNat_blockVma, BitVec.toNat_ofNat]
    omega
  have hblock : blockVma (blockVma vma + BitVec.ofNat 32 (pc.data.toNat % 32)) = blockVma vma := by
    rw [blockVma_eq_iff, hdata]
    omega
  refine ⟨⟨pc.odd, blockVma vma + BitVec.ofNat 32 (pc.data.toNat % 32)⟩, hblock, ?_⟩
  rw [lookupLine_of_block hblock, lookupLine_of_block rfl, hplace]
  simp only [hdata]
  omega

/-- **A miss keeps the cache coherent.** -/
theorem Coherent.miss (h : Coherent t code R cache) (hmemory : ∀ a, R a → memory a = code a)
    (hinner : InnerBlock vma)
    (hdecodes : ∀ pc : PC, R pc.data → blockVma pc.data = blockVma vma →
      UndecodedReturn t (code pc.data) pc.odd → (cache (lookupLine pc)).operand = 0) :
    Coherent t code R (instructionCacheMiss t memory cache vma) := by
  intro pc hR haddress
  by_cases hblock : blockVma pc.data = blockVma vma
  · have hword := hmemory pc.data hR
    refine LineRight.congr_memory ((lineRight_miss_iff hinner hblock).mpr fun hundecoded => ?_) hword
    rw [hword] at hundecoded
    exact hdecodes pc hR hblock hundecoded
  · by_cases hplace : blockCp pc.data = blockCp vma
    · obtain ⟨pc', hblock', hline⟩ := lookupLine_same hplace
      have hown := miss_address (t := t) memory cache hinner hblock'
      rw [hline, haddress] at hown
      rw [← hown] at hblock'
      exact absurd hblock' hblock
    · rw [miss_other (lookupLine_other hplace rfl)] at haddress
      exact (h pc hR haddress).congr_cache fun next hnext =>
        miss_other (lookupLine_other hplace hnext)

/-- A cache in which no line has the address of a code word, such as a fresh one. -/
theorem coherent_of_empty (h : ∀ i, ¬ R (cache i).pc) : Coherent t code R cache := by
  intro pc hR haddress
  rw [← haddress] at hR
  exact absurd hR (h _)

/-! ### A dispatch -/

section Dispatch

variable {σ : Type} {e : Emulation σ} {s s' : σ} {i i' : Instruction}

/-- An illegal instruction does not look at its successor. -/
theorem Emulation.dispatch_congr (hcode : i.code = i'.code) (hoperand : i.operand = i'.operand)
    (hinstruction : i.instruction = i'.instruction)
    (hnext : i.code ≠ t.illegalInstructionDecoder → i.nextPc = i'.nextPc) :
    e.dispatch t s pc i = e.dispatch t s pc i' := by
  unfold Emulation.dispatch
  by_cases hillegal : i.code = t.illegalInstructionDecoder
  · rw [if_pos hillegal, if_pos (hcode.symm.trans hillegal)]
  · have heq : i = i' := by
      obtain ⟨c, o, n, next⟩ := i
      obtain ⟨c', o', n', next'⟩ := i'
      simp only at hcode hoperand hinstruction hnext hillegal
      rw [hcode, hoperand, hinstruction, hnext hillegal]
    rw [heq]

/-- Nor does the next instruction follow it. -/
theorem Emulation.legal_of_dispatch (h : e.dispatch t s pc i = some (s', none)) :
    i.code ≠ t.illegalInstructionDecoder := by
  intro hillegal
  rw [Emulation.dispatch, if_pos hillegal] at h
  cases htrap : e.unimplementedInstruction s pc with
  | none => simp [htrap] at h
  | some p => simp [htrap] at h

end Dispatch

/-! ### Runs -/

section Runs

variable {σ : Type} {e : Emulation σ} {q : Sequencer σ} {d : Decoder σ}

/-- The sequencer is where the decoder is, with a coherent cache, and is about to look its pc
up or has its line. -/
structure Follows (t : DecodeTables) (code : Integer → LispObj) (R : Integer → Prop)
    (q : Sequencer σ) (d : Decoder σ) : Prop where
  state : q.state = d.state
  pc : q.pc = d.pc
  coherent : Coherent t code R q.cache
  cp : q.cp = .lookup ∨
    q.cp = .line (lookupLine q.pc) ∧ (q.cache (lookupLine q.pc)).pc = q.pc.data

/-- At a dispatch the sequencer has the line of its pc. -/
theorem Follows.lookup (h : Follows t code R q d) (hinner : ∀ a, R a → InnerBlock a)
    (hdecodes : MissDecodes t code R q) (hcode : InCode e code R d) :
    (q.instructionCacheLookup t e).2 = lookupLine q.pc ∧
      Coherent t code R (q.instructionCacheLookup t e).1 ∧
      LineRight t code (q.instructionCacheLookup t e).1 q.pc := by
  have hR : R q.pc.data := by
    rw [h.pc]
    exact hcode.pc
  have hmemory (a : Integer) (ha : R a) : e.memory q.state a = code a := by
    rw [h.state]
    exact hcode.unchanged a ha
  unfold Sequencer.instructionCacheLookup
  obtain hcp | ⟨hcp, haddress⟩ := h.cp
  · simp only [hcp]
    by_cases haddress : (q.cache (lookupLine q.pc)).pc = q.pc.data
    · rw [if_pos haddress]
      exact ⟨rfl, h.coherent, h.coherent q.pc hR haddress⟩
    · have hmiss := h.coherent.miss hmemory (hinner _ hR) (hdecodes hcp haddress)
      rw [if_neg haddress]
      exact ⟨rfl, hmiss, hmiss q.pc hR (miss_address _ _ (hinner _ hR) rfl)⟩
  · simp only [hcp]
    exact ⟨trivial, h.coherent, h.coherent q.pc hR haddress⟩

/-- What the line of the sequencer was decoded to. -/
theorem Follows.decoded (h : Follows t code R q d) (hinner : ∀ a, R a → InnerBlock a)
    (hdecodes : MissDecodes t code R q) (hcode : InCode e code R d) :
    ((q.line t e).code, (q.line t e).operand, (q.line t e).instruction) =
      Ivory.decoded t (d.word e) d.pc.odd := by
  obtain ⟨hline, -, hright⟩ := h.lookup hinner hdecodes hcode
  rw [Sequencer.line, hline, hright.decoding, h.pc, Decoder.word, hcode.unchanged _ hcode.pc]

/-- **One instruction.** -/
theorem Follows.step (h : Follows t code R q d) (hinner : ∀ a, R a → InnerBlock a)
    (hdecodes : MissDecodes t code R q) (hcode : InCode e code R d) :
    Option.Rel (Follows t code R) (q.step t e) (d.step t e) := by
  obtain ⟨hline, hcoherent, hright⟩ := h.lookup hinner hdecodes hcode
  have hdecoded := h.decoded hinner hdecodes hcode
  have hword : code q.pc.data = d.word e := by
    rw [h.pc, Decoder.word, hcode.unchanged _ hcode.pc]
  have hnextPc := hright.nextPc
  have hnextCp := hright.nextCp
  rw [← hline, hword, h.pc] at hnextPc hnextCp
  have hdispatch : e.dispatch t q.state q.pc
      ⟨(q.line t e).code, (q.line t e).operand, (q.line t e).instruction, (q.line t e).nextPc⟩ =
        e.dispatch t d.state d.pc ⟨(Ivory.decoded t (d.word e) d.pc.odd).1,
          (Ivory.decoded t (d.word e) d.pc.odd).2.1, (Ivory.decoded t (d.word e) d.pc.odd).2.2,
          successor (d.word e) d.pc⟩ := by
    rw [h.state, h.pc]
    exact Emulation.dispatch_congr (congrArg Prod.fst hdecoded)
      (congrArg (fun c => c.2.1) hdecoded) (congrArg (fun c => c.2.2) hdecoded) hnextPc
  unfold Sequencer.step Decoder.step
  simp only
  rw [← hdispatch]
  cases hends : e.dispatch t q.state q.pc
      ⟨(q.line t e).code, (q.line t e).operand, (q.line t e).instruction, (q.line t e).nextPc⟩ with
  | none => exact .none
  | some p =>
      obtain ⟨s, next⟩ := p
      cases next with
      | some pc => exact .some ⟨rfl, rfl, hcoherent, .inl rfl⟩
      | none =>
          have hlegal := Emulation.legal_of_dispatch hends
          refine .some ⟨rfl, hnextPc hlegal, hcoherent, ?_⟩
          simp only [Sequencer.line, hnextPc hlegal]
          obtain hlookup | ⟨hcp, -, haddress⟩ := hnextCp hlegal
          · exact .inl hlookup
          · exact .inr ⟨hcp, haddress⟩

/-- **Runs.**  The sequencer that follows the links executes what the decoder executes. -/
theorem executes_same (hinner : ∀ a, R a → InnerBlock a) (hcoherent : Coherent t code R q.cache)
    (hstart : q.cp = .lookup)
    (hdecodes : ∀ n q', Simulation.after (Sequencer.step t e) n q = some q' →
      MissDecodes t code R q')
    (hcode : ∀ n d', Simulation.after (Decoder.step t e) n ⟨q.state, q.pc⟩ = some d' →
      InCode e code R d') (n : Nat) :
    (Simulation.after (Sequencer.step t e) n q).map (Sequencer.executes t e) =
      (Simulation.after (Decoder.step t e) n ⟨q.state, q.pc⟩).map (Decoder.executes t e) := by
  refine Simulation.observed_after (R := Follows t code R)
    (fun q d h hdecodes hcode => h.step hinner hdecodes hcode) (fun q d h hdecodes hcode => ?_)
    ⟨rfl, rfl, hcoherent, .inl hstart⟩ hdecodes hcode n
  rw [Sequencer.executes, Decoder.executes, h.decoded hinner hdecodes hcode, h.state, h.pc]

end Runs

/-! ### Transparency -/

/-- A block is right after a miss exactly when its undecoded operands find a 0. -/
theorem blockRight_iff (hinner : InnerBlock vma) : BlockRight t memory vma cache ↔
    ∀ pc : PC, blockVma pc.data = blockVma vma →
      UndecodedReturn t (memory pc.data) pc.odd → (cache (lookupLine pc)).operand = 0 :=
  forall₂_congr fun _ hblock => lineRight_miss_iff hinner hblock

/-- **The instruction cache is transparent**, as far as the operands that
`DecodeReturnOperandFunction` does not decode find a 0 in their line: a miss leaves each line
of the block with what decoding gives and with a link to its successor, and runs that follow
the links execute what is in memory. -/
theorem instructionCache_transparent (t : DecodeTables) :
    (∀ memory cache vma, InnerBlock vma →
      (BlockRight t memory vma cache ↔ ∀ pc : PC, blockVma pc.data = blockVma vma →
        UndecodedReturn t (memory pc.data) pc.odd → (cache (lookupLine pc)).operand = 0)) ∧
    ∀ (σ : Type) (e : Emulation σ) (code : Integer → LispObj) (R : Integer → Prop)
      (q : Sequencer σ), (∀ a, R a → InnerBlock a) → Coherent t code R q.cache →
      q.cp = .lookup →
      (∀ n q', Simulation.after (Sequencer.step t e) n q = some q' → MissDecodes t code R q') →
      (∀ n d', Simulation.after (Decoder.step t e) n ⟨q.state, q.pc⟩ = some d' →
        InCode e code R d') →
      ∀ n, (Simulation.after (Sequencer.step t e) n q).map (Sequencer.executes t e) =
        (Simulation.after (Decoder.step t e) n ⟨q.state, q.pc⟩).map (Decoder.executes t e) := by
  constructor
  · intro memory cache vma hinner
    exact blockRight_iff hinner
  · intro σ e code R q hinner hcoherent hstart hdecodes hcode n
    exact executes_same hinner hcoherent hstart hdecodes hcode n

/-! ### A return -/

/-- The decoder's entries for the return of a single value, with the numbers of
`DispatchReturnSingleNIL`, `T` and `TOS` and of `DispatchIllegalInstruction`. -/
def returnTables : DecodeTables where
  returnInstructionDecoder i := 174 + i
  wordInstructionDecoder _ := 723
  popInstructionDecoder _ := 723
  packedInstructionDecoder i := if i / 4 = 0o115 then (176, .return) else (723, .none)
  illegalInstructionDecoder := 723

/-- The even half of the word returns a single value, with these low ten bits. -/
def returnWord (operand : Integer) : LispObj := ⟨0o60, 0o232000 ||| operand⟩

/-- Every line has this operand, and the pc that it has at first. -/
def staleCache (operand : Integer) : InstructionCache :=
  fun _ => ⟨0xFFFFFFFF, ⟨false, 0⟩, 0, operand, 0, .lookup⟩

/-- A return with the operand 0 keeps the operand of the line that was evicted. -/
theorem not_blockRight_return : InnerBlock 0x100 ∧
    ¬ BlockRight returnTables (fun _ => returnWord 0) 0x100 (staleCache 1) := by
  have hinner : InnerBlock 0x100 := by decide
  have hundecoded : UndecodedReturn returnTables (returnWord 0) false := by
    constructor <;> decide
  refine ⟨hinner, fun hright => ?_⟩
  have hoperand := (blockRight_iff hinner).mp hright ⟨false, 0x100⟩ rfl hundecoded
  simp [staleCache] at hoperand

/-- The even half of a word is executed, then the odd one, and then the word again. -/
def returnLoop : Emulation Unit where
  memory _ _ := returnWord 0o1000
  execute s pc _ := if pc.odd then .instructionCacheLookup s ⟨false, pc.data⟩ else .nextInstruction s
  unimplementedInstruction s pc := some (s, ⟨false, pc.data⟩)
  illegalOperand _ _ := none

theorem not_undecodedReturn_loop (odd : Bool) :
    ¬ UndecodedReturn returnTables (returnWord 0o1000) odd := by
  intro h
  cases odd with
  | false => exact h.unknown (by decide)
  | true => exact absurd h.decoder (by decide)

theorem returnLoop_stays {n : Nat} {d d' : Decoder Unit} (h : d.pc.data = 0x100)
    (hafter : Simulation.after (Decoder.step returnTables returnLoop) n d = some d') :
    d'.pc.data = 0x100 := by
  refine Simulation.after_invariant (I := fun d : Decoder Unit => d.pc.data = 0x100)
    (fun d d' hpc hstep => ?_) h hafter
  obtain ⟨s, odd, data⟩ := d
  simp only at hpc
  subst hpc
  cases odd with
  | false =>
      have hcode : decoded returnTables (returnWord 0o1000) false = (176, 0, 0o233000) := by decide
      have hnext : successor (returnWord 0o1000) ⟨false, 0x100⟩ = ⟨true, 0x100⟩ := by decide
      simp only [Decoder.step, Decoder.word, returnLoop, hcode, hnext, Emulation.dispatch] at hstep
      rw [← Option.some.inj hstep]
  | true =>
      have hcode : decoded returnTables (returnWord 0o1000) true = (723, 0, 0) := by decide
      simp only [Decoder.step, Decoder.word, returnLoop, hcode, Emulation.dispatch] at hstep
      rw [← Option.some.inj hstep]

theorem instructionCache_transparent_return :
    (BlockRight returnTables (fun _ => returnWord 0o1000) 0x100 (staleCache 1) ↔
      ∀ pc : PC, blockVma pc.data = blockVma 0x100 →
        UndecodedReturn returnTables (returnWord 0o1000) pc.odd →
          (staleCache 1 (lookupLine pc)).operand = 0) ∧
    ∀ n, (Simulation.after (Sequencer.step returnTables returnLoop) n
        ⟨(), staleCache 1, ⟨false, 0x100⟩, .lookup⟩).map
          (Sequencer.executes returnTables returnLoop) =
      (Simulation.after (Decoder.step returnTables returnLoop) n ⟨(), ⟨false, 0x100⟩⟩).map
        (Decoder.executes returnTables returnLoop) := by
  obtain ⟨hblock, hruns⟩ := instructionCache_transparent returnTables
  refine ⟨hblock _ _ _ (by decide), ?_⟩
  refine hruns Unit returnLoop (fun _ => returnWord 0o1000) (fun a => a = 0x100)
    ⟨(), staleCache 1, ⟨false, 0x100⟩, .lookup⟩ ?_ ?_ rfl ?_ ?_
  · intro a ha
    rw [ha]
    decide
  · exact coherent_of_empty fun i => by simp [staleCache]
  · intro n q' _ _ _ pc _ _ hundecoded
    exact absurd hundecoded (not_undecodedReturn_loop pc.odd)
  · intro n d' hafter
    exact ⟨returnLoop_stays rfl hafter, fun a _ => rfl⟩

end Ivory
