import Mathlib
import OsxVlm.Emulator.InstructionCache

/-!
# The instruction cache is transparent

A miss leaves each line of a block with what decoding gives, and with a link to the line of its
successor or to a lookup, except that one decoder leaves some operands as they were.
Where no such operand is among the code words, a run that follows the links executes
what a run that decodes every word anew executes.
-/

namespace Ivory

/-! ### Blocks and lines -/

section Blocks

theorem and_not_31 (x : Integer) : x &&& ~~~(31 : Integer) = (x >>> 5) <<< 5 := by
  apply BitVec.eq_of_getLsbD_eq
  intro i hi
  have hmask : (31 : Integer).getLsbD i = decide (i < 5) := by
    rw [show (31 : Integer) = BitVec.ofNat 32 (2 ^ 5 - 1) from rfl, BitVec.getLsbD_ofNat,
      Nat.testBit_two_pow_sub_one]
    simp [hi]
  rw [BitVec.getLsbD_and, BitVec.getLsbD_not, hmask, BitVec.getLsbD_shiftLeft,
    BitVec.getLsbD_ushiftRight]
  by_cases hlow : i < 5
  · simp [hlow]
  · simp [hlow, hi, show 5 + (i - 5) = i by omega]

theorem toNat_blockVma (x : Integer) : (blockVma x).toNat = x.toNat / 32 * 32 := by
  rw [blockVma, and_not_31, BitVec.toNat_shiftLeft, BitVec.toNat_ushiftRight,
    Nat.shiftLeft_eq, Nat.shiftRight_eq_div_pow]
  have hlt := x.isLt
  omega

theorem toNat_line (x : Integer) : ((x <<< 1) &&& 2047).toNat = 2 * x.toNat % 2048 := by
  rw [BitVec.toNat_and, BitVec.toNat_shiftLeft, Nat.shiftLeft_eq]
  change x.toNat * 2 ^ 1 % 2 ^ 32 &&& 2 ^ 11 - 1 = _
  rw [Nat.and_two_pow_sub_one_eq_mod]
  omega

variable {pc : PC} {vma : Integer}

theorem lookupLine_eq (pc : PC) :
    lookupLine pc = (2 * pc.data.toNat % 2048 : Nat) + if pc.odd then 1 else 0 := by
  rw [lookupLine, toNat_line]

theorem blockCp_eq (vma : Integer) : blockCp vma = (2 * (vma.toNat / 32 * 32) % 2048 : Nat) := by
  rw [blockCp, toNat_line, toNat_blockVma]

theorem blockVma_eq_iff {x y : Integer} :
    blockVma x = blockVma y ↔ x.toNat / 32 = y.toNat / 32 := by
  rw [← BitVec.toNat_inj, toNat_blockVma, toNat_blockVma]
  omega

/-- The line of a pc is in the place of its word and half in the block. -/
theorem lookupLine_of_block (h : blockVma pc.data = blockVma vma) :
    lookupLine pc = blockCp vma + 2 * (pc.data.toNat % 32 : Nat) + if pc.odd then 1 else 0 := by
  rw [lookupLine_eq, blockCp_eq]
  rw [blockVma_eq_iff] at h
  omega

end Blocks

/-! ### The loop -/

section Loop

variable {t : DecodeTables} {memory : Integer → LispObj} {bound vma : Integer} {evenCp : Int}
  {cache : InstructionCache} {n : Nat}

variable (cache) in
theorem fillWord_even (word : LispObj) : fillWord t word vma evenCp cache evenCp =
    (cache evenCp).fill t word vma evenCp false := by
  rw [fillWord]
  rw [Function.update_of_ne (by omega), Function.update_self]

variable (cache) in
theorem fillWord_odd (word : LispObj) : fillWord t word vma evenCp cache (evenCp + 1) =
    (cache (evenCp + 1)).fill t word vma evenCp true := by
  rw [fillWord]
  rw [Function.update_self, Function.update_of_ne (by omega)]

theorem fillWord_other (word : LispObj) {i : Int} (h : i < evenCp ∨ evenCp + 2 ≤ i) :
    fillWord t word vma evenCp cache i = cache i := by
  rw [fillWord]
  rw [Function.update_of_ne (by omega), Function.update_of_ne (by omega)]

/-- Lines that no word of the loop fills. -/
theorem fillLoop_other {i : Int} (h : i < evenCp ∨ evenCp + 2 * n ≤ i) :
    fillLoop t memory bound n vma evenCp cache i = cache i := by
  induction n generalizing vma evenCp cache with
  | zero => rfl
  | succ n ih =>
      rw [fillLoop]
      split
      · rw [ih (by push_cast at h; omega), fillWord_other _ (by push_cast at h; omega)]
      · rfl

variable (memory evenCp cache) in
/-- The lines of each word. -/
theorem fillLoop_line (h : vma.toNat + n ≤ bound.toNat) {k : Nat} (hk : k < n) (odd : Bool) :
    fillLoop t memory bound n vma evenCp cache (evenCp + 2 * k + if odd then 1 else 0) =
      (cache (evenCp + 2 * k + if odd then 1 else 0)).fill t (memory (vma + BitVec.ofNat 32 k))
        (vma + BitVec.ofNat 32 k) (evenCp + 2 * k) odd := by
  induction n generalizing vma evenCp cache k with
  | zero => omega
  | succ n ih =>
      have hlt : vma < bound := by
        rw [BitVec.lt_def]
        omega
      have hnext : (vma + 1).toNat = vma.toNat + 1 := by
        have := bound.isLt
        rw [BitVec.toNat_add]
        change (vma.toNat + 1) % 2 ^ 32 = _
        omega
      rw [fillLoop, if_pos hlt]
      cases k with
      | zero =>
          rw [fillLoop_other (by split <;> omega)]
          cases odd with
          | false => simpa using fillWord_even cache (memory vma)
          | true => simpa using fillWord_odd cache (memory vma)
      | succ k =>
          have hvma : vma + 1 + BitVec.ofNat 32 k = vma + BitVec.ofNat 32 (k + 1) := by
            bv_omega
          have hplace : evenCp + 2 + 2 * (k : Int) = evenCp + 2 * ((k + 1 : Nat) : Int) := by
            omega
          have hrest := ih (evenCp + 2) (fillWord t (memory vma) vma evenCp cache)
            (show (vma + 1).toNat + n ≤ bound.toNat by omega) (Nat.lt_of_succ_lt_succ hk)
          rw [hvma, hplace] at hrest
          rw [hrest, fillWord_other _ (by right; split <;> omega)]

end Loop

/-! ### The repair of the links -/

/-- A line as it was, but for a link that may have become a lookup. -/
structure Relinked (c c' : InstructionCacheLine) : Prop where
  pc : c'.pc = c.pc
  nextPc : c'.nextPc = c.nextPc
  code : c'.code = c.code
  operand : c'.operand = c.operand
  instruction : c'.instruction = c.instruction
  nextCp : c'.nextCp = .lookup ∨ c'.nextCp = c.nextCp

theorem Relinked.refl (c : InstructionCacheLine) : Relinked c c := ⟨rfl, rfl, rfl, rfl, rfl, .inr rfl⟩

theorem Relinked.trans {c c' c'' : InstructionCacheLine} (h : Relinked c c')
    (h' : Relinked c' c'') : Relinked c c'' := by
  refine ⟨h'.pc.trans h.pc, h'.nextPc.trans h.nextPc, h'.code.trans h.code,
    h'.operand.trans h.operand, h'.instruction.trans h.instruction, ?_⟩
  obtain heq | heq := h'.nextCp
  · exact .inl heq
  · rw [heq]
    exact h.nextCp

section Repair

variable {cache : InstructionCache}

variable (cache) in
theorem relinked_forceLookup (i j : Int) (errant : Integer → Bool) :
    Relinked (cache j) (forceLookup i errant cache j) := by
  rw [forceLookup]
  split
  · by_cases hj : j = i
    · subst hj
      rw [Function.update_self]
      exact ⟨rfl, rfl, rfl, rfl, rfl, .inl rfl⟩
    · rw [Function.update_of_ne hj]
      exact .refl _
  · exact .refl _

theorem forceLookup_errant {i : Int} {errant : Integer → Bool}
    (h : errant (cache i).nextPc.data = true) :
    (forceLookup i errant cache i).nextCp = .lookup := by
  rw [forceLookup, if_pos h, Function.update_self]

/-- Several repairs, one after the other. -/
def repair (ps : List (Int × (Integer → Bool))) (cache : InstructionCache) : InstructionCache :=
  ps.foldl (fun cache p => forceLookup p.1 p.2 cache) cache

variable (cache) in
theorem relinked_repair (ps : List (Int × (Integer → Bool))) (j : Int) :
    Relinked (cache j) (repair ps cache j) := by
  induction ps generalizing cache with
  | nil => exact .refl _
  | cons p ps ih => exact (relinked_forceLookup cache p.1 j p.2).trans (ih _)

theorem repair_errant {ps : List (Int × (Integer → Bool))} {j : Int} {errant : Integer → Bool}
    (hp : (j, errant) ∈ ps) (h : errant (cache j).nextPc.data = true) :
    (repair ps cache j).nextCp = .lookup := by
  induction ps generalizing cache with
  | nil => cases hp
  | cons p ps ih =>
      obtain rfl | hp := List.mem_cons.mp hp
      · obtain heq | heq := (relinked_repair (forceLookup j errant cache) ps j).nextCp
        · exact heq
        · exact heq.trans (forceLookup_errant h)
      · refine ih hp ?_
        rw [(relinked_forceLookup cache p.1 j p.2).nextPc]
        exact h

end Repair

/-! ### Decoding a half -/

namespace InstructionCacheLine

variable {t : DecodeTables} {word : LispObj} {odd : Bool}

theorem link_operand (cp : InstructionCacheLine) (word : LispObj) (vma : Integer) (evenCp : Int)
    (odd : Bool) : (cp.link word vma evenCp odd).operand = cp.operand := by
  unfold link
  split <;> rfl

/-- Decoding leaves the pc and the links of a line. -/
theorem decode_links (i : Integer) (cp : InstructionCacheLine) (d : OperandDecoder) :
    (cp.decode t i d).pc = cp.pc ∧ (cp.decode t i d).nextPc = cp.nextPc ∧
      (cp.decode t i d).nextCp = cp.nextCp := by
  cases d with
  | sp =>
      simp only [decode, decodeSPOperand]
      split <;> exact ⟨rfl, rfl, rfl⟩
  | «return» =>
      simp only [decode, decodeReturnOperand]
      split
      · exact ⟨rfl, rfl, rfl⟩
      · split
        · exact ⟨rfl, rfl, rfl⟩
        · split <;> exact ⟨rfl, rfl, rfl⟩
  | _ => exact ⟨rfl, rfl, rfl⟩

theorem decodeHalf_links (t : DecodeTables) (word : LispObj) (odd : Bool) (cp : InstructionCacheLine) :
    (cp.decodeHalf t word odd).pc = cp.pc ∧ (cp.decodeHalf t word odd).nextPc = cp.nextPc ∧
      (cp.decodeHalf t word odd).nextCp = cp.nextCp := by
  unfold decodeHalf
  split
  · exact ⟨rfl, rfl, rfl⟩
  · split
    · split
      · exact decode_links _ _ _
      · exact decode_links _ _ _
    · split <;> exact ⟨rfl, rfl, rfl⟩

/-- What a line is decoded to. -/
def content (cp : InstructionCacheLine) : Nat × Integer × Integer :=
  (cp.code, cp.operand, cp.instruction)

/-- A decoder gives what does not depend on the line, but for one kind of operand. -/
theorem decode_content {i : Integer} {cp cp' : InstructionCacheLine} {d : OperandDecoder}
    (hcode : cp.code = cp'.code) (hinstruction : cp.instruction = cp'.instruction)
    (h : d = .return → KnownReturn i) :
    (cp.decode t i d).content = (cp'.decode t i d).content := by
  cases d with
  | sp =>
      simp only [decode, decodeSPOperand]
      split
      · simp [content, hinstruction]
      · simp [content, hcode, hinstruction]
  | «return» =>
      simp only [decode, decodeReturnOperand]
      obtain h | h | h := h rfl
      · rw [if_pos h, if_pos h]
        simp [content, hinstruction]
      · rw [if_neg (by rw [h]; decide), if_pos h, if_neg (by rw [h]; decide), if_pos h]
        simp [content, hinstruction]
      · rw [if_neg (by rw [h]; decide), if_neg (by rw [h]; decide), if_pos h,
          if_neg (by rw [h]; decide), if_neg (by rw [h]; decide), if_pos h]
        simp [content, hinstruction]
  | _ => simp [decode, content, hcode, hinstruction]

/-- Otherwise the operand of the line stays. -/
theorem decode_unknown {i : Integer} (cp : InstructionCacheLine) (h : ¬ KnownReturn i) :
    cp.decode t i .return = cp := by
  simp only [KnownReturn, not_or] at h
  rw [decode, decodeReturnOperand, if_neg h.1, if_neg h.2.1, if_neg h.2.2]

theorem knownReturn_evenHalf (word : LispObj) :
    KnownReturn (evenHalf word) ↔ KnownReturn word.data := by
  have hmask : (0o777777 : Integer) &&& 0o1777 = 0o1777 := by decide
  rw [KnownReturn, KnownReturn, evenHalf, BitVec.and_assoc, hmask]

end InstructionCacheLine

section Decoding

variable {t : DecodeTables} {word : LispObj} {odd : Bool}

open InstructionCacheLine

/-- A packed half gives what does not depend on the line, but for the same kind of operand. -/
theorem packed_content {instruction i : Integer} (cp cp' : InstructionCacheLine)
    (h : (t.packedInstructionDecoder (instruction >>> 8).toNat).2 = .return → KnownReturn i) :
    (cp.packed t instruction i).content = (cp'.packed t instruction i).content :=
  decode_content rfl rfl h

/-- Where no operand is left undecoded, the line carries what decoding gives. -/
theorem decodeHalf_content (h : ¬ UndecodedReturn t word odd) (cp : InstructionCacheLine) :
    (cp.decodeHalf t word odd).content = decoded t word odd := by
  change _ = (InstructionCacheLine.decodeHalf t word odd _).content
  unfold decodeHalf
  by_cases hnil : tagCdr word.tag = 1
  · rw [if_pos hnil, if_pos hnil]
    rfl
  · rw [if_neg hnil, if_neg hnil]
    by_cases hpacked : isPackedWord word = true
    · have hknown : (t.packedInstructionDecoder (halfOf word odd >>> 8).toNat).2 = .return →
          KnownReturn (halfOf word odd) :=
        fun hreturn => by_contra fun hunknown => h ⟨hnil, hpacked, hreturn, hunknown⟩
      rw [if_pos hpacked, if_pos hpacked]
      cases odd with
      | false => exact packed_content _ _ fun hr => (knownReturn_evenHalf word).mp (hknown hr)
      | true => exact packed_content _ _ hknown
    · rw [if_neg hpacked, if_neg hpacked]
      split <;> rfl

/-- Where one is, the line keeps its own. -/
theorem content_undecoded (h : UndecodedReturn t word odd) (cp : InstructionCacheLine) :
    (cp.decodeHalf t word odd).content =
      ((decoded t word odd).1, cp.operand, (decoded t word odd).2.2) := by
  have hdecoder := h.decoder
  have hunknown := h.unknown
  change _ = ((InstructionCacheLine.decodeHalf t word odd _).code, _,
    (InstructionCacheLine.decodeHalf t word odd _).instruction)
  unfold decodeHalf
  rw [if_neg h.cdr, if_pos h.packed, if_neg h.cdr, if_pos h.packed]
  cases odd with
  | false =>
      rw [halfOf, if_neg Bool.false_ne_true] at hdecoder hunknown
      rw [if_neg Bool.false_ne_true, if_neg Bool.false_ne_true, packed, packed]
      simp only [hdecoder]
      rw [decode_unknown _ (mt (knownReturn_evenHalf word).mpr hunknown),
        decode_unknown _ (mt (knownReturn_evenHalf word).mpr hunknown)]
      rfl
  | true =>
      rw [halfOf, if_pos rfl] at hdecoder hunknown
      rw [if_pos rfl, if_pos rfl, packed, packed]
      simp only [hdecoder]
      rw [decode_unknown _ hunknown, decode_unknown _ hunknown]
      rfl

/-- A line carries what decoding gives exactly when it had the operand 0 wherever none is
decoded. -/
theorem decodeHalf_content_iff (cp : InstructionCacheLine) :
    (cp.decodeHalf t word odd).content = decoded t word odd ↔
      (UndecodedReturn t word odd → cp.operand = 0) := by
  by_cases hundecoded : UndecodedReturn t word odd
  · have hzero : (decoded t word odd).2.1 = 0 :=
      congrArg (fun c => c.2.1) (content_undecoded hundecoded ⟨0, ⟨false, 0⟩, 0, 0, 0, .lookup⟩)
    rw [content_undecoded hundecoded]
    constructor
    · intro heq _
      have hoperand : cp.operand = (decoded t word odd).2.1 := congrArg (fun c => c.2.1) heq
      rw [hoperand, hzero]
    · intro hoperand
      rw [hoperand hundecoded, ← hzero]
  · exact ⟨fun _ hr => absurd hr hundecoded, fun _ => decodeHalf_content hundecoded cp⟩

/-- A code other than the illegal one is that of a word with links. -/
theorem cdr_of_code {cp : InstructionCacheLine}
    (h : (cp.decodeHalf t word odd).code ≠ t.illegalInstructionDecoder) : tagCdr word.tag ≠ 1 := by
  intro hnil
  apply h
  rw [decodeHalf, if_pos hnil]
  rfl

end Decoding

/-! ### A miss -/

section Miss

open InstructionCacheLine

variable {t : DecodeTables} {memory : Integer → LispObj} {cache : InstructionCache}
  {vma : Integer} {pc : PC}

/-- The cache as the loop of a miss leaves it. -/
def filled (t : DecodeTables) (memory : Integer → LispObj) (cache : InstructionCache)
    (vma : Integer) : InstructionCache :=
  fillLoop t memory (blockVma vma + 32) 32 (blockVma vma) (blockCp vma) cache

/-- The repairs of a miss. -/
def repairs (vma : Integer) : List (Int × (Integer → Bool)) :=
  [(blockCp vma, fun next => next < blockVma vma),
    (blockCp vma + 60, fun next => blockVma vma + 32 ≤ next),
    (blockCp vma + 61, fun next => blockVma vma + 32 ≤ next),
    (blockCp vma + 62, fun next => blockVma vma + 32 ≤ next),
    (blockCp vma + 63, fun next => blockVma vma + 32 ≤ next)]

theorem instructionCacheMiss_eq (t : DecodeTables) (memory : Integer → LispObj)
    (cache : InstructionCache) (vma : Integer) :
    instructionCacheMiss t memory cache vma = repair (repairs vma) (filled t memory cache vma) :=
  rfl

/-- The bounds of a block that is neither at 0 nor at the very top. -/
theorem InnerBlock.bounds (h : InnerBlock vma) :
    (blockVma vma).toNat = vma.toNat / 32 * 32 ∧ 32 ≤ (blockVma vma).toNat ∧
      (blockVma vma).toNat + 64 ≤ 2 ^ 32 ∧
      (blockVma vma + 32).toNat = (blockVma vma).toNat + 32 := by
  have hblock := toNat_blockVma vma
  have hlt := vma.isLt
  have hne0 : (blockVma vma).toNat ≠ 0 := fun h0 => h.1 (BitVec.eq_of_toNat_eq (by simpa using h0))
  have hnetop : (blockVma vma).toNat ≠ 0xFFFFFFE0 :=
    fun htop => h.2 (BitVec.eq_of_toNat_eq (by simpa using htop))
  have hbound : (blockVma vma).toNat + 64 ≤ 2 ^ 32 := by omega
  refine ⟨hblock, by omega, hbound, ?_⟩
  rw [BitVec.toNat_add]
  change ((blockVma vma).toNat + 32) % 2 ^ 32 = _
  omega

variable (memory cache) in
/-- The line of a pc of the block, as the loop leaves it. -/
theorem filled_line (hinner : InnerBlock vma) (h : blockVma pc.data = blockVma vma) :
    filled t memory cache vma (lookupLine pc) = (cache (lookupLine pc)).fill t (memory pc.data)
      pc.data (blockCp vma + 2 * (pc.data.toNat % 32 : Nat)) pc.odd := by
  obtain ⟨hblock, -, -, hbound⟩ := hinner.bounds
  have hline := fillLoop_line (t := t) memory (blockCp vma) cache (n := 32)
    (show (blockVma vma).toNat + 32 ≤ (blockVma vma + 32).toNat by omega)
    (k := pc.data.toNat % 32) (Nat.mod_lt _ (by decide)) pc.odd
  have hdata : blockVma vma + BitVec.ofNat 32 (pc.data.toNat % 32) = pc.data := by
    apply BitVec.eq_of_toNat_eq
    have hlt := pc.data.isLt
    rw [BitVec.toNat_add, BitVec.toNat_ofNat, ← h, toNat_blockVma]
    omega
  rw [hdata, ← lookupLine_of_block h] at hline
  exact hline

theorem filled_other {i : Int} (h : i < blockCp vma ∨ blockCp vma + 64 ≤ i) :
    filled t memory cache vma i = cache i :=
  fillLoop_other (by simpa using h)

/-- A pointer leads to the successor in the block, or to where it is repaired. -/
def LinkedOrErrant (vma : Integer) (i j : Int) (next : PC) : Prop :=
  (j = lookupLine next ∧ blockVma next.data = blockVma vma) ∨
    ∃ errant, (i, errant) ∈ repairs vma ∧ errant next.data = true

theorem linked_of_block {i j : Int} {next : PC} (h : blockVma next.data = blockVma vma)
    (hj : j = blockCp vma + 2 * (next.data.toNat % 32 : Nat) + if next.odd then 1 else 0) :
    LinkedOrErrant vma i j next :=
  .inl ⟨hj.trans (lookupLine_of_block h).symm, h⟩

/-- The last four lines are repaired when they lead beyond the block. -/
theorem errant_beyond {i j : Int} {next : PC} (hlow : blockCp vma + 60 ≤ i)
    (hhigh : i < blockCp vma + 64) (h : blockVma vma + 32 ≤ next.data) :
    LinkedOrErrant vma i j next := by
  refine .inr ⟨fun next => blockVma vma + 32 ≤ next, ?_, decide_eq_true h⟩
  have hcases : i = blockCp vma + 60 ∨ i = blockCp vma + 61 ∨ i = blockCp vma + 62 ∨
      i = blockCp vma + 63 := by omega
  obtain rfl | rfl | rfl | rfl := hcases <;> simp [repairs]

/-- A pointer forward by one or two words. -/
theorem linked_forward (hinner : InnerBlock vma) {x : Integer}
    (h : blockVma x = blockVma vma) {d : Nat} (hd : d ≤ 2) {i : Int}
    (hlow : 32 ≤ x.toNat % 32 + d → blockCp vma + 60 ≤ i) (hhigh : i < blockCp vma + 64) :
    LinkedOrErrant vma i (blockCp vma + 2 * (x.toNat % 32 : Nat) + 2 * d)
      ⟨false, x + BitVec.ofNat 32 d⟩ := by
  obtain ⟨hblock, -, htop, hbound⟩ := hinner.bounds
  have hx := blockVma_eq_iff.mp h
  have hnext : (x + BitVec.ofNat 32 d).toNat = x.toNat + d := by
    rw [BitVec.toNat_add, BitVec.toNat_ofNat]
    omega
  by_cases hin : x.toNat % 32 + d < 32
  · refine linked_of_block (blockVma_eq_iff.mpr ?_) ?_
    · rw [hnext]
      omega
    · simp only [hnext, Bool.false_eq_true, if_false]
      omega
  · refine errant_beyond (hlow (Nat.not_lt.mp hin)) hhigh ?_
    rw [BitVec.le_def, hnext]
    omega

/-- A pointer back by one word. -/
theorem linked_back (hinner : InnerBlock vma) {x : Integer} (h : blockVma x = blockVma vma)
    {i : Int} (hi : x.toNat % 32 = 0 → i = blockCp vma) :
    LinkedOrErrant vma i (blockCp vma + 2 * (x.toNat % 32 : Nat) + 1 - 2) ⟨true, x - 1⟩ := by
  obtain ⟨hblock, hlow, -, -⟩ := hinner.bounds
  have hx := blockVma_eq_iff.mp h
  have hnext : (x - 1).toNat = x.toNat - 1 := by
    have hlt := x.isLt
    rw [BitVec.toNat_sub]
    change (2 ^ 32 - 1 + x.toNat) % 2 ^ 32 = _
    omega
  by_cases hfirst : x.toNat % 32 = 0
  · refine .inr ⟨fun next => next < blockVma vma, ?_, ?_⟩
    · rw [hi hfirst]
      simp [repairs]
    · rw [decide_eq_true_eq, BitVec.lt_def, hnext]
      omega
  · refine linked_of_block (blockVma_eq_iff.mpr ?_) ?_
    · rw [hnext]
      omega
    · simp only [hnext, if_true]
      omega

theorem tagCdr_lt (tag : Tag) : tagCdr tag < 4 := by
  have hlt := tag.isLt
  rw [tagCdr, BitVec.toNat_ushiftRight, Nat.shiftRight_eq_div_pow]
  omega

/-- A line that the loop links leads to its successor, to a lookup, or to where it is
repaired. -/
theorem link_spec (hinner : InnerBlock vma) (h : blockVma pc.data = blockVma vma)
    {word : LispObj} (hcdr : tagCdr word.tag ≠ 1) (cp : InstructionCacheLine) {evenCp : Int}
    (heven : evenCp = blockCp vma + 2 * (pc.data.toNat % 32 : Nat)) :
    (cp.link word pc.data evenCp pc.odd).nextPc = successor word pc ∧
      ((cp.link word pc.data evenCp pc.odd).nextCp = .lookup ∨
        ∃ j, (cp.link word pc.data evenCp pc.odd).nextCp = .line j ∧
          LinkedOrErrant vma (lookupLine pc) j (successor word pc)) := by
  have hline := lookupLine_of_block h
  obtain ⟨odd, x⟩ := pc
  simp only at h heven hline
  have hlt := tagCdr_lt word.tag
  have hcode : tagCdr word.tag = 0 ∨ tagCdr word.tag = 2 ∨ tagCdr word.tag = 3 := by omega
  obtain hcode | hcode | hcode := hcode
  · cases odd with
    | false =>
        simp only [InstructionCacheLine.link, successor, hcode]
        exact ⟨trivial, .inr ⟨_, rfl, linked_of_block h (by rw [heven]; simp)⟩⟩
    | true =>
        simp only [InstructionCacheLine.link, successor, hcode]
        refine ⟨trivial, .inr ⟨_, rfl, ?_⟩⟩
        rw [heven]
        exact linked_forward hinner h (d := 1) (by omega) (by rw [hline]; simp; omega)
          (by rw [hline]; simp; omega)
  · cases odd with
    | false =>
        simp only [InstructionCacheLine.link, successor, hcode]
        refine ⟨trivial, .inr ⟨_, rfl, ?_⟩⟩
        rw [heven]
        exact linked_back hinner h (fun hfirst => by rw [hline, hfirst]; simp)
    | true =>
        simp only [InstructionCacheLine.link, successor, hcode]
        exact ⟨trivial, .inl trivial⟩
  · cases odd with
    | false =>
        simp only [InstructionCacheLine.link, successor, hcode]
        refine ⟨trivial, .inr ⟨_, rfl, ?_⟩⟩
        rw [heven]
        exact linked_forward hinner h (d := 1) (by omega) (by rw [hline]; simp; omega)
          (by rw [hline]; simp; omega)
    | true =>
        simp only [InstructionCacheLine.link, successor, hcode]
        refine ⟨trivial, .inr ⟨_, rfl, ?_⟩⟩
        rw [heven]
        exact linked_forward hinner h (d := 2) (by omega) (by rw [hline]; simp; omega)
          (by rw [hline]; simp; omega)

variable (memory cache) in
/-- The line of a pc of the block after a miss: as it was filled, but for the link. -/
theorem miss_relinked (hinner : InnerBlock vma) (h : blockVma pc.data = blockVma vma) :
    Relinked ((cache (lookupLine pc)).fill t (memory pc.data) pc.data
        (blockCp vma + 2 * (pc.data.toNat % 32 : Nat)) pc.odd)
      (instructionCacheMiss t memory cache vma (lookupLine pc)) := by
  rw [← filled_line memory cache hinner h, instructionCacheMiss_eq]
  exact relinked_repair _ _ _

variable (memory cache) in
theorem miss_address (hinner : InnerBlock vma) (h : blockVma pc.data = blockVma vma) :
    (instructionCacheMiss t memory cache vma (lookupLine pc)).pc = pc.data := by
  rw [(miss_relinked memory cache hinner h).pc, InstructionCacheLine.fill,
    (decodeHalf_links _ _ _ _).1]
  unfold InstructionCacheLine.link
  split <;> rfl

variable (memory cache) in
/-- The link of a line after a miss, where the word has one. -/
theorem miss_link (hinner : InnerBlock vma) (h : blockVma pc.data = blockVma vma)
    (hcdr : tagCdr (memory pc.data).tag ≠ 1) :
    (instructionCacheMiss t memory cache vma (lookupLine pc)).nextPc =
        successor (memory pc.data) pc ∧
      ((instructionCacheMiss t memory cache vma (lookupLine pc)).nextCp = .lookup ∨
        (instructionCacheMiss t memory cache vma (lookupLine pc)).nextCp =
            .line (lookupLine (successor (memory pc.data) pc)) ∧
          blockVma (successor (memory pc.data) pc).data = blockVma vma) := by
  have hrelinked := miss_relinked (t := t) memory cache hinner h
  have hline := filled_line (t := t) memory cache hinner h
  obtain ⟨-, hnextPc, hnextCp⟩ := decodeHalf_links t (memory pc.data) pc.odd
    (({ cache (lookupLine pc) with pc := pc.data } : InstructionCacheLine).link (memory pc.data)
      pc.data (blockCp vma + 2 * (pc.data.toNat % 32 : Nat)) pc.odd)
  obtain ⟨hsuccessor, hlink⟩ := link_spec hinner h hcdr { cache (lookupLine pc) with pc := pc.data }
    rfl
  rw [hsuccessor] at hnextPc
  refine ⟨hrelinked.nextPc.trans hnextPc, ?_⟩
  obtain heq | heq := hrelinked.nextCp
  · exact .inl heq
  · obtain hlookup | ⟨j, hj, ⟨hplace, hblock⟩ | ⟨errant, hmem, herrant⟩⟩ := hlink
    · exact .inl (heq.trans (hnextCp.trans hlookup))
    · rw [hplace] at hj
      exact .inr ⟨heq.trans (hnextCp.trans hj), hblock⟩
    · refine .inl ?_
      rw [instructionCacheMiss_eq]
      refine repair_errant hmem ?_
      rw [hline]
      exact (congrArg (fun next : PC => errant next.data) hnextPc).trans herrant

/-- **A line after a miss.**  It is as it is to be exactly when it had the operand 0 in case
the operand is not decoded. -/
theorem lineRight_miss_iff (hinner : InnerBlock vma) (h : blockVma pc.data = blockVma vma) :
    LineRight t memory (instructionCacheMiss t memory cache vma) pc ↔
      (UndecodedReturn t (memory pc.data) pc.odd → (cache (lookupLine pc)).operand = 0) := by
  have hrelinked := miss_relinked (t := t) memory cache hinner h
  have hcontent : ((instructionCacheMiss t memory cache vma (lookupLine pc)).code,
      (instructionCacheMiss t memory cache vma (lookupLine pc)).operand,
      (instructionCacheMiss t memory cache vma (lookupLine pc)).instruction) =
        ((({ cache (lookupLine pc) with pc := pc.data } : InstructionCacheLine).link
          (memory pc.data) pc.data (blockCp vma + 2 * (pc.data.toNat % 32 : Nat))
          pc.odd).decodeHalf t (memory pc.data) pc.odd).content := by
    rw [hrelinked.code, hrelinked.operand, hrelinked.instruction]
    rfl
  have hkept := link_operand { cache (lookupLine pc) with pc := pc.data } (memory pc.data)
    pc.data (blockCp vma + 2 * (pc.data.toNat % 32 : Nat)) pc.odd
  constructor
  · intro hright hundecoded
    have heq := hcontent.symm.trans hright.decoding
    exact hkept.symm.trans ((decodeHalf_content_iff _).mp heq hundecoded)
  · intro hoperand
    have hlinks (hcode : (instructionCacheMiss t memory cache vma (lookupLine pc)).code ≠
        t.illegalInstructionDecoder) := by
      rw [hrelinked.code] at hcode
      exact miss_link (t := t) memory cache hinner h (cdr_of_code hcode)
    refine ⟨miss_address memory cache hinner h,
      hcontent.trans ((decodeHalf_content_iff _).mpr fun hundecoded =>
        hkept.trans (hoperand hundecoded)), fun hcode => (hlinks hcode).1, fun hcode => ?_⟩
    obtain hlookup | ⟨hnext, hblock⟩ := (hlinks hcode).2
    · exact .inl hlookup
    · exact .inr ⟨hnext, hblock.trans h.symm, miss_address memory cache hinner hblock⟩

end Miss

end Ivory
