import Mathlib
import OsxVlm.Memory.VirtualMemory
import OsxVlm.Spy.MemorySpy

/-!
# Remote reads and writes of virtual memory

The debugger reads and writes words of the virtual memory, which the stack cache
covers in part.  Four words are packed into twenty bytes: their tags, then their data.
Whether a word exists is looked up word by word, on the way.
-/

namespace Spy.Memory

structure Machine where
  memory : VM.Memory
  /-- The words of the stack cache, by index. -/
  stackcachedata : Nat → VM.LispObj
  stackcachebasevma : Nat
  scovlimit : Nat

/-! ### Single words -/

/-- The address less the base, as a 64-bit word. -/
def Machine.stackOffset (m : Machine) (address : Nat) : Nat :=
  (address + (2 ^ 64 - m.stackcachebasevma % 2 ^ 64)) % 2 ^ 64

def Machine.vmaInStackCacheP (m : Machine) (address : Nat) : Bool :=
  decide (m.stackOffset address < m.scovlimit)

def Machine.virtualMemoryRead (m : Machine) (address : Nat) : Machine × VM.LispObj :=
  if m.vmaInStackCacheP address then (m, m.stackcachedata (m.stackOffset address))
  else
    let r := VM.virtualMemoryReadUncached m.memory address
    ({ m with memory := r.1 }, r.2)

def Machine.virtualMemoryWrite (m : Machine) (address : Nat) (object : VM.LispObj) : Machine :=
  if m.vmaInStackCacheP address then
    { m with stackcachedata := Function.update m.stackcachedata (m.stackOffset address) object }
  else { m with memory := VM.virtualMemoryWriteUncached m.memory address object }

/-- `CreatedP`. -/
def Machine.createdP (m : Machine) (address : Nat) : Bool := VM.created m.memory address

/-! ### Packing -/

/-- The loop of `rm_write` over the chunks at `p`, from the `i`th on. -/
def unpackChunks (p : Nat → Byte) : Nat → Nat → (Nat → VM.LispObj) → Nat → VM.LispObj
  | 0, _, buffer => buffer
  | nchunks + 1, i, buffer =>
      unpackChunks p nchunks (i + 1) fun k =>
        if 4 * i ≤ k ∧ k < 4 * i + 4 then
          ⟨p (20 * i + (k - 4 * i)), readLong p (20 * i + 4 + 4 * (k - 4 * i))⟩
        else buffer k

/-- Byte `b` that `write_long` stores. -/
def longByte (data : BitVec 32) (b : Nat) : Byte := (data >>> (8 * b)).setWidth 8

/-- The loop of `rm_read` that fills the chunks of the reply. -/
def packChunks (buffer : Nat → VM.LispObj) : Nat → Nat → (Nat → Byte) → Nat → Byte
  | 0, _, p => p
  | nchunks + 1, i, p =>
      packChunks buffer nchunks (i + 1) fun j =>
        if 20 * i ≤ j ∧ j < 20 * i + 4 then (buffer (4 * i + (j - 20 * i))).tag
        else if 20 * i + 4 ≤ j ∧ j < 20 * i + 20 then
          longByte (buffer (4 * i + (j - 20 * i - 4) / 4)).data ((j - 20 * i - 4) % 4)
        else p j

/-! ### The two cases of the loop -/

/-- What `RemoteMemorySpyLoop` keeps from packet to packet. -/
structure Session where
  machine : Machine
  buffer : Nat → VM.LispObj
  /-- The data of the reply. -/
  reply : Nat → Byte

structure Reply where
  /-- The first byte of the operand. -/
  error : Bool
  /-- So many bytes of the reply's data are sent. -/
  length : Nat

/-- The words of a packet, and the address they are for. -/
def packetVma (pkt : Nat → Byte) : Nat := (readLong pkt REMOTE_MEMORY_PACKET_HEADER).toNat

def packetWords (pkt : Nat → Byte) : Nat := operand pkt 6 % 1024

/-- The data behind the address. -/
def packetData (pkt : Nat → Byte) (j : Nat) : Byte := pkt (REMOTE_MEMORY_PACKET_HEADER + 4 + j)

/-- The loop that stores words into memory, `i` of which are stored. -/
def storeWords (buffer : Nat → VM.LispObj) (vma : Nat) : Nat → Nat → Machine → Machine × Bool
  | 0, _, m => (m, true)
  | nwords + 1, i, m =>
      let address := (vma + i) % 2 ^ 32
      if m.createdP address then
        storeWords buffer vma nwords (i + 1) (m.virtualMemoryWrite address (buffer i))
      else (m, false)

/-- The loop that fetches words into the buffer. -/
def fetchWords (vma : Nat) : Nat → Nat → Machine → (Nat → VM.LispObj) →
    Machine × (Nat → VM.LispObj) × Bool
  | 0, _, m, buffer => (m, buffer, true)
  | nwords + 1, i, m, buffer =>
      let address := (vma + i) % 2 ^ 32
      if m.createdP address then
        let r := m.virtualMemoryRead address
        fetchWords vma nwords (i + 1) r.1 (Function.update buffer i r.2)
      else (m, buffer, false)

/-- `rm_write` to virtual memory. -/
def Session.rmWrite (s : Session) (pkt : Nat → Byte) : Session × Reply :=
  let nwords := packetWords pkt
  let buffer := unpackChunks (packetData pkt) ((nwords + 3) / 4) 0 s.buffer
  let (machine, done) := storeWords buffer (packetVma pkt) nwords 0 s.machine
  ({ s with machine, buffer }, { error := !done, length := 0 })

/-- `rm_read` of virtual memory. -/
def Session.rmRead (s : Session) (pkt : Nat → Byte) : Session × Reply :=
  let nwords := packetWords pkt
  let nchunks := (nwords + 3) / 4
  match fetchWords (packetVma pkt) nwords 0 s.machine s.buffer with
  | (machine, buffer, false) => ({ s with machine, buffer }, { error := true, length := 0 })
  | (machine, buffer, true) =>
      ({ machine, buffer, reply := packChunks buffer nchunks 0 s.reply },
        { error := false, length := nchunks * 20 })

/-! ### Words -/

/-- The word at an address, wherever it is kept. -/
def Machine.word (m : Machine) (address : Nat) : VM.LispObj :=
  if m.vmaInStackCacheP address then m.stackcachedata (m.stackOffset address)
  else ⟨m.memory.tagSpace address, m.memory.dataSpace address⟩

theorem stackOffset_inj {m : Machine} {a b : Nat} (ha : a < 2 ^ 32) (hb : b < 2 ^ 32)
    (h : m.stackOffset a = m.stackOffset b) : a = b := by
  unfold Machine.stackOffset at h
  omega

theorem virtualMemoryRead_word (m : Machine) (address : Nat) :
    (m.virtualMemoryRead address).2 = m.word address := by
  unfold Machine.virtualMemoryRead Machine.word
  split <;> rfl

/-- Only the words at the addresses `written` may be other words. -/
structure Untouched (m m' : Machine) (written : Nat → Prop) : Prop where
  attributeTable : m'.memory.attributeTable = m.memory.attributeTable
  mapped : m'.memory.mapped = m.memory.mapped
  enableIDS : m'.memory.enableIDS = m.memory.enableIDS
  stackcachebasevma : m'.stackcachebasevma = m.stackcachebasevma
  scovlimit : m'.scovlimit = m.scovlimit
  /-- The protection of a page is put back to what its attributes say. -/
  protection : ∀ p,
    m.memory.protection p = VM.computeProtection (m.memory.attributeTable p) →
      m'.memory.protection p = m.memory.protection p
  spaces : ∀ a, ¬ written a →
    m'.memory.tagSpace a = m.memory.tagSpace a ∧ m'.memory.dataSpace a = m.memory.dataSpace a
  stackcachedata : ∀ k, (∀ a, written a → m.stackOffset a ≠ k) →
    m'.stackcachedata k = m.stackcachedata k

theorem Untouched.refl (m : Machine) (written : Nat → Prop) : Untouched m m written :=
  ⟨rfl, rfl, rfl, rfl, rfl, fun _ _ => rfl, fun _ _ => ⟨rfl, rfl⟩, fun _ _ => rfl⟩

theorem Untouched.stackOffset {m m' : Machine} {written : Nat → Prop}
    (h : Untouched m m' written) (a : Nat) : m'.stackOffset a = m.stackOffset a := by
  unfold Machine.stackOffset
  rw [h.stackcachebasevma]

theorem Untouched.vmaInStackCacheP {m m' : Machine} {written : Nat → Prop}
    (h : Untouched m m' written) (a : Nat) : m'.vmaInStackCacheP a = m.vmaInStackCacheP a := by
  unfold Machine.vmaInStackCacheP
  rw [h.stackOffset, h.scovlimit]

theorem Untouched.createdP {m m' : Machine} {written : Nat → Prop}
    (h : Untouched m m' written) (a : Nat) : m'.createdP a = m.createdP a := by
  unfold Machine.createdP VM.created
  rw [h.attributeTable]

theorem Untouched.mono {m m' : Machine} {written written' : Nat → Prop}
    (h : Untouched m m' written) (hsub : ∀ a, written a → written' a) : Untouched m m' written' where
  attributeTable := h.attributeTable
  mapped := h.mapped
  enableIDS := h.enableIDS
  stackcachebasevma := h.stackcachebasevma
  scovlimit := h.scovlimit
  protection := h.protection
  spaces a ha := h.spaces a fun hw => ha (hsub a hw)
  stackcachedata k hk := h.stackcachedata k fun a ha => hk a (hsub a ha)

theorem Untouched.trans {m m' m'' : Machine} {written : Nat → Prop}
    (h : Untouched m m' written) (h' : Untouched m' m'' written) : Untouched m m'' written where
  attributeTable := h'.attributeTable.trans h.attributeTable
  mapped := h'.mapped.trans h.mapped
  enableIDS := h'.enableIDS.trans h.enableIDS
  stackcachebasevma := h'.stackcachebasevma.trans h.stackcachebasevma
  scovlimit := h'.scovlimit.trans h.scovlimit
  protection p hp := by
    have hp' := h.protection p hp
    have hattr : m'.memory.protection p = VM.computeProtection (m'.memory.attributeTable p) := by
      rw [hp', hp, h.attributeTable]
    exact (h'.protection p hattr).trans hp'
  spaces a ha :=
    ⟨(h'.spaces a ha).1.trans (h.spaces a ha).1, (h'.spaces a ha).2.trans (h.spaces a ha).2⟩
  stackcachedata k hk :=
    (h'.stackcachedata k fun a ha => by rw [h.stackOffset]; exact hk a ha).trans
      (h.stackcachedata k hk)

/-- A word that is not written stays as it is. -/
theorem Untouched.word {m m' : Machine} {written : Nat → Prop} (h : Untouched m m' written)
    (hwritten : ∀ a, written a → a < 2 ^ 32) {a : Nat} (ha : a < 2 ^ 32) (hnot : ¬ written a) :
    m'.word a = m.word a := by
  unfold Machine.word
  rw [h.vmaInStackCacheP, h.stackOffset]
  split
  · refine h.stackcachedata _ fun b hb hoffset => ?_
    rw [stackOffset_inj (hwritten b hb) ha hoffset] at hb
    exact hnot hb
  · rw [(h.spaces a hnot).1, (h.spaces a hnot).2]

/-- Opening a page for a moment. -/
theorem untouched_mprotect (m : Machine) (page : Nat) (prot : VM.Prot) (written : Nat → Prop) :
    Untouched m
      { m with
        memory := (m.memory.mprotect page prot).mprotect page
          (VM.computeProtection (m.memory.attributeTable page)) } written := by
  refine ⟨rfl, rfl, rfl, rfl, rfl, fun p hp => ?_, fun _ _ => ⟨rfl, rfl⟩, fun _ _ => rfl⟩
  by_cases heq : p = page
  · subst heq
    rw [hp]
    simp [VM.Memory.mprotect]
  · simp [VM.Memory.mprotect, heq]

theorem untouched_read (m : Machine) (address : Nat) (written : Nat → Prop) :
    Untouched m (m.virtualMemoryRead address).1 written := by
  unfold Machine.virtualMemoryRead
  split
  · exact .refl m written
  · simp only [VM.virtualMemoryReadUncached]
    split
    · exact untouched_mprotect m _ _ written
    · exact .refl m written

theorem writeWords_ne {m : VM.Memory} {address a : Nat} (object : VM.LispObj) (ha : a ≠ address) :
    (m.writeWords address 1 (fun _ => object.data) fun _ => object.tag).tagSpace a = m.tagSpace a ∧
      (m.writeWords address 1 (fun _ => object.data) fun _ => object.tag).dataSpace a =
        m.dataSpace a :=
  ⟨if_neg (by omega), if_neg (by omega)⟩

theorem untouched_write (m : Machine) (address : Nat) (object : VM.LispObj) :
    Untouched m (m.virtualMemoryWrite address object) (· = address) := by
  unfold Machine.virtualMemoryWrite
  split
  · refine ⟨rfl, rfl, rfl, rfl, rfl, fun _ _ => rfl, fun _ _ => ⟨rfl, rfl⟩, fun k hk => ?_⟩
    exact Function.update_of_ne (hk address rfl).symm _ _
  · simp only [VM.virtualMemoryWriteUncached]
    by_cases hopen : VM.computeProtection (m.memory.attributeTable (VM.pageNumber address)) =
        .readWrite
    · simp only [hopen, ne_eq, not_true_eq_false, decide_false, Bool.false_eq_true, if_false]
      exact ⟨rfl, rfl, rfl, rfl, rfl, fun _ _ => rfl, fun _ ha => writeWords_ne object ha,
        fun _ _ => rfl⟩
    · simp only [hopen, ne_eq, not_false_eq_true, decide_true, if_true]
      have hprotection := (untouched_mprotect m (VM.pageNumber address) .readWrite
        (· = address)).protection
      exact ⟨rfl, rfl, rfl, rfl, rfl, hprotection, fun _ ha => writeWords_ne object ha,
        fun _ _ => rfl⟩

theorem word_write (m : Machine) (address : Nat) (object : VM.LispObj) :
    (m.virtualMemoryWrite address object).word address = object := by
  have hsame := untouched_write m address object
  unfold Machine.word
  rw [hsame.vmaInStackCacheP, hsame.stackOffset]
  unfold Machine.virtualMemoryWrite
  split
  · exact Function.update_self _ _ _
  · simp only [VM.virtualMemoryWriteUncached]
    split <;> simp [VM.Memory.writeWords, VM.Memory.mprotect]

/-! ### The loops -/

/-- How far an address is above `vma`. -/
def distance (vma a : Nat) : Nat := (a + (2 ^ 32 - vma % 2 ^ 32)) % 2 ^ 32

/-- The addresses of the words from the `i`th to before the `j`th. -/
def InRange (vma i j a : Nat) : Prop := a < 2 ^ 32 ∧ i ≤ distance vma a ∧ distance vma a < j

theorem distance_add {vma i : Nat} (hi : i < 2 ^ 32) : distance vma ((vma + i) % 2 ^ 32) = i := by
  unfold distance
  omega

theorem eq_of_distance {vma i a : Nat} (ha : a < 2 ^ 32) (h : distance vma a = i) :
    a = (vma + i) % 2 ^ 32 := by
  unfold distance at h
  omega

/-- The words up to the first one that does not exist are stored, and nothing else. -/
theorem storeWords_spec (buffer : Nat → VM.LispObj) (vma nwords i : Nat) (m : Machine)
    (hn : i + nwords < 2 ^ 32) :
    ∃ j, i ≤ j ∧ j ≤ i + nwords ∧
      (∀ l, i ≤ l → l < j → m.createdP ((vma + l) % 2 ^ 32) = true) ∧
      (j < i + nwords → m.createdP ((vma + j) % 2 ^ 32) = false) ∧
      (storeWords buffer vma nwords i m).2 = decide (j = i + nwords) ∧
      Untouched m (storeWords buffer vma nwords i m).1 (InRange vma i j) ∧
      ∀ a, InRange vma i j a →
        (storeWords buffer vma nwords i m).1.word a = buffer (distance vma a) := by
  induction nwords generalizing i m with
  | zero =>
      refine ⟨i, le_rfl, le_rfl, by omega, by omega, by simp [storeWords], .refl m _, ?_⟩
      intro a ha
      have := ha.2
      omega
  | succ nwords ih =>
      simp only [storeWords]
      by_cases hcreated : m.createdP ((vma + i) % 2 ^ 32) = true
      · rw [if_pos hcreated]
        have hwrite := untouched_write m ((vma + i) % 2 ^ 32) (buffer i)
        obtain ⟨j, hij, hj, hexist, hmissing, hdone, huntouched, hwords⟩ :=
          ih (i + 1) (m.virtualMemoryWrite ((vma + i) % 2 ^ 32) (buffer i)) (by omega)
        have hcount : i + 1 + nwords = i + (nwords + 1) := by omega
        rw [hcount] at hj hmissing hdone
        refine ⟨j, by omega, hj, fun l hil hlj => ?_, fun hlt => ?_, hdone, ?_, fun a ha => ?_⟩
        · rcases Nat.eq_or_lt_of_le hil with rfl | hlt
          · exact hcreated
          · rw [← hwrite.createdP]
            exact hexist l hlt hlj
        · rw [← hwrite.createdP]
          exact hmissing hlt
        · refine (hwrite.mono ?_).trans (huntouched.mono fun a ha => ⟨ha.1, by have := ha.2; omega,
            ha.2.2⟩)
          rintro a rfl
          refine ⟨Nat.mod_lt _ (by decide), ?_⟩
          rw [distance_add (by omega)]
          omega
        · obtain ⟨hlt, hia, haj⟩ := ha
          rcases Nat.eq_or_lt_of_le hia with heq | hgt
          · have haddress := eq_of_distance hlt heq.symm
            rw [huntouched.word (fun b hb => hb.1) hlt fun hb => by have := hb.2; omega, ← heq,
              haddress, word_write]
          · exact hwords a ⟨hlt, hgt, haj⟩
      · rw [if_neg hcreated]
        rw [Bool.not_eq_true] at hcreated
        refine ⟨i, le_rfl, by omega, by omega, fun _ => hcreated, ?_, .refl m _, ?_⟩
        · symm
          exact decide_eq_false (by omega)
        · intro a ha
          have := ha.2
          omega

/-- Words that all exist are fetched. -/
theorem fetchWords_spec (vma nwords i : Nat) (m : Machine) (buffer : Nat → VM.LispObj)
    (hexist : ∀ l, i ≤ l → l < i + nwords → m.createdP ((vma + l) % 2 ^ 32) = true) :
    (fetchWords vma nwords i m buffer).2.2 = true ∧
      ∀ k, (fetchWords vma nwords i m buffer).2.1 k =
        if i ≤ k ∧ k < i + nwords then m.word ((vma + k) % 2 ^ 32) else buffer k := by
  induction nwords generalizing i m buffer with
  | zero =>
      refine ⟨rfl, fun k => ?_⟩
      rw [if_neg (by omega), fetchWords]
  | succ nwords ih =>
      have hread := untouched_read m ((vma + i) % 2 ^ 32) fun _ => False
      simp only [fetchWords]
      rw [if_pos (hexist i le_rfl (by omega))]
      obtain ⟨hdone, hbuffer⟩ := ih (i + 1) (m.virtualMemoryRead ((vma + i) % 2 ^ 32)).1
        (Function.update buffer i (m.virtualMemoryRead ((vma + i) % 2 ^ 32)).2)
        fun l hil hlt => by
          rw [hread.createdP]
          exact hexist l (by omega) (by omega)
      refine ⟨hdone, fun k => ?_⟩
      rw [hbuffer, hread.word (fun a ha => ha.elim) (Nat.mod_lt _ (by decide)) id,
        virtualMemoryRead_word]
      by_cases hk : k = i
      · subst hk
        rw [if_neg (by omega), if_pos (by omega), Function.update_self]
      · rw [Function.update_of_ne hk]
        by_cases hin : i ≤ k ∧ k < i + (nwords + 1)
        · rw [if_pos (by omega), if_pos hin]
        · rw [if_neg (by omega), if_neg hin]

/-! ### Packing and unpacking -/

/-- The `k`th word of packed chunks. -/
def packedWord (p : Nat → Byte) (k : Nat) : VM.LispObj :=
  ⟨p (20 * (k / 4) + k % 4), readLong p (20 * (k / 4) + 4 + 4 * (k % 4))⟩

theorem unpackChunks_apply (p : Nat → Byte) (nchunks i : Nat) (buffer : Nat → VM.LispObj)
    (k : Nat) :
    unpackChunks p nchunks i buffer k =
      if 4 * i ≤ k ∧ k < 4 * (i + nchunks) then packedWord p k else buffer k := by
  induction nchunks generalizing i buffer with
  | zero => rw [unpackChunks, if_neg (by omega)]
  | succ nchunks ih =>
      rw [unpackChunks, ih]
      by_cases hfirst : 4 * i ≤ k ∧ k < 4 * i + 4
      · have hdiv : k / 4 = i := by omega
        have hmod : k % 4 = k - 4 * i := by omega
        rw [if_neg (by omega), if_pos hfirst, if_pos (by omega), packedWord, hdiv, hmod]
      · by_cases hin : 4 * i ≤ k ∧ k < 4 * (i + (nchunks + 1))
        · rw [if_pos (by omega), if_pos hin]
        · rw [if_neg (by omega), if_neg hfirst, if_neg hin]

/-- The `j`th byte of the chunks of a buffer. -/
def packedByte (buffer : Nat → VM.LispObj) (j : Nat) : Byte :=
  if j % 20 < 4 then (buffer (4 * (j / 20) + j % 20)).tag
  else longByte (buffer (4 * (j / 20) + (j % 20 - 4) / 4)).data ((j % 20 - 4) % 4)

theorem packChunks_apply (buffer : Nat → VM.LispObj) (nchunks i : Nat) (p : Nat → Byte) (j : Nat) :
    packChunks buffer nchunks i p j =
      if 20 * i ≤ j ∧ j < 20 * (i + nchunks) then packedByte buffer j else p j := by
  induction nchunks generalizing i p with
  | zero => rw [packChunks, if_neg (by omega)]
  | succ nchunks ih =>
      rw [packChunks, ih]
      by_cases hfirst : 20 * i ≤ j ∧ j < 20 * i + 20
      · have hdiv : j / 20 = i := by omega
        have hmod : j % 20 = j - 20 * i := by omega
        rw [if_neg (by omega), if_pos (show 20 * i ≤ j ∧ j < 20 * (i + (nchunks + 1)) by omega),
          packedByte, hdiv, hmod]
        by_cases htag : j - 20 * i < 4
        · rw [if_pos (by omega), if_pos htag]
        · rw [if_neg (by omega), if_pos (by omega), if_neg htag]
      · by_cases hin : 20 * i ≤ j ∧ j < 20 * (i + (nchunks + 1))
        · rw [if_pos (by omega), if_pos hin]
        · rw [if_neg (by omega), if_neg (by omega), if_neg (by omega), if_neg hin]

/-- `write_long` undoes `read_long`. -/
theorem longByte_readLong (p : Nat → Byte) (start : Nat) {b : Nat} (hb : b < 4) :
    longByte (readLong p start) b = p (start + b) := by
  unfold longByte readLong
  apply BitVec.eq_of_getLsbD_eq
  intro i hi
  simp only [BitVec.getLsbD_setWidth, BitVec.getLsbD_ushiftRight, BitVec.getLsbD_append, hi,
    decide_true, Bool.true_and]
  obtain rfl | rfl | rfl | rfl : b = 0 ∨ b = 1 ∨ b = 2 ∨ b = 3 := by omega
  · simp [hi]
  · rw [if_neg (by omega), if_pos (by omega)]
    congr 1
    omega
  · rw [if_neg (by omega), if_neg (by omega), if_pos (by omega)]
    congr 1
    omega
  · rw [if_neg (by omega), if_neg (by omega), if_neg (by omega)]
    congr 1
    omega

/-- Words that were unpacked are packed into the same bytes. -/
theorem packedByte_unpacked {p : Nat → Byte} {buffer : Nat → VM.LispObj} {nchunks j : Nat}
    (hbuffer : ∀ k, k < 4 * nchunks → buffer k = packedWord p k) (hj : j < 20 * nchunks) :
    packedByte buffer j = p j := by
  unfold packedByte
  by_cases htag : j % 20 < 4
  · rw [if_pos htag, hbuffer _ (by omega), packedWord]
    dsimp only
    congr 1
    omega
  · rw [if_neg htag, hbuffer _ (by omega), packedWord, longByte_readLong _ _ (by omega)]
    congr 1
    omega

/-! ### One packet -/

/-- The packet is for words that all exist. -/
def AllExist (m : Machine) (pkt : Nat → Byte) : Prop :=
  ∀ l, l < packetWords pkt → m.createdP ((packetVma pkt + l) % 2 ^ 32) = true

/-- The first `j` words of a packet are in memory, and nothing else changed. -/
structure Stored (m m' : Machine) (pkt : Nat → Byte) (j : Nat) : Prop where
  words : ∀ a, InRange (packetVma pkt) 0 j a →
    m'.word a = packedWord (packetData pkt) (distance (packetVma pkt) a)
  others : Untouched m m' (InRange (packetVma pkt) 0 j)

theorem rmWrite_buffer (s : Session) (pkt : Nat → Byte) {k : Nat}
    (hk : k < 4 * ((packetWords pkt + 3) / 4)) :
    (s.rmWrite pkt).1.buffer k = packedWord (packetData pkt) k := by
  show unpackChunks _ _ 0 _ k = _
  rw [unpackChunks_apply, if_pos (by omega)]

/-- The words before the first one that does not exist are stored. -/
theorem rmWrite_stored (s : Session) (pkt : Nat → Byte) :
    ∃ j, j ≤ packetWords pkt ∧
      (∀ l, l < j → s.machine.createdP ((packetVma pkt + l) % 2 ^ 32) = true) ∧
      (j < packetWords pkt → s.machine.createdP ((packetVma pkt + j) % 2 ^ 32) = false) ∧
      (s.rmWrite pkt).2.error = !decide (j = packetWords pkt) ∧
      Stored s.machine (s.rmWrite pkt).1.machine pkt j := by
  have hsize : packetWords pkt < 1024 := Nat.mod_lt _ (by decide)
  obtain ⟨j, -, hj, hexist, hmissing, hdone, huntouched, hwords⟩ :=
    storeWords_spec (s.rmWrite pkt).1.buffer (packetVma pkt) (packetWords pkt) 0 s.machine
      (by omega)
  rw [Nat.zero_add] at hj hmissing hdone
  refine ⟨j, hj, fun l hl => hexist l (Nat.zero_le l) hl, hmissing, congrArg (!·) hdone, ?_,
    huntouched⟩
  intro a ha
  rw [← rmWrite_buffer s pkt (by have := ha.2; omega)]
  exact hwords a ha

/-- A read of words that were all fetched. -/
theorem rmRead_of_fetched {s : Session} {pkt : Nat → Byte}
    (h : (fetchWords (packetVma pkt) (packetWords pkt) 0 s.machine s.buffer).2.2 = true) :
    s.rmRead pkt =
      ({ machine := (fetchWords (packetVma pkt) (packetWords pkt) 0 s.machine s.buffer).1
         buffer := (fetchWords (packetVma pkt) (packetWords pkt) 0 s.machine s.buffer).2.1
         reply := packChunks (fetchWords (packetVma pkt) (packetWords pkt) 0 s.machine s.buffer).2.1
            ((packetWords pkt + 3) / 4) 0 s.reply },
        { error := false, length := (packetWords pkt + 3) / 4 * 20 }) := by
  simp only [Session.rmRead]
  generalize fetchWords (packetVma pkt) (packetWords pkt) 0 s.machine s.buffer = r at h ⊢
  obtain ⟨machine, buffer, done⟩ := r
  subst h
  rfl

/-- A read of the same words after a write of them. -/
theorem rmRead_rmWrite (s : Session) {pkt pkt' : Nat → Byte} (hvma : packetVma pkt' = packetVma pkt)
    (hwords : packetWords pkt' = packetWords pkt) (hexist : AllExist s.machine pkt)
    (hstored : Stored s.machine (s.rmWrite pkt).1.machine pkt (packetWords pkt)) :
    ((s.rmWrite pkt).1.rmRead pkt').2.error = false ∧
      ((s.rmWrite pkt).1.rmRead pkt').2.length = 20 * ((packetWords pkt + 3) / 4) ∧
      ∀ j, j < 20 * ((packetWords pkt + 3) / 4) →
        ((s.rmWrite pkt).1.rmRead pkt').1.reply j = packetData pkt j := by
  have hsize : packetWords pkt < 1024 := Nat.mod_lt _ (by decide)
  obtain ⟨hdone, hbuffer⟩ := fetchWords_spec (packetVma pkt) (packetWords pkt) 0
    (s.rmWrite pkt).1.machine (s.rmWrite pkt).1.buffer fun l _ hl => by
      rw [hstored.others.createdP]
      exact hexist l (by omega)
  rw [rmRead_of_fetched (by rw [hvma, hwords]; exact hdone), hvma, hwords]
  refine ⟨rfl, Nat.mul_comm _ _, fun j hj => ?_⟩
  dsimp only
  rw [packChunks_apply, if_pos (by omega)]
  refine packedByte_unpacked (fun k hk => ?_) hj
  rw [hbuffer]
  split
  · have hdistance := @distance_add (packetVma pkt) k (by omega)
    rw [hstored.words _ ⟨Nat.mod_lt _ (by decide), Nat.zero_le _, by omega⟩, hdistance]
  · exact rmWrite_buffer s pkt hk

/-- An acknowledged write has stored the words of the packet and changed nothing else, and a
read of the same words sends them back in the same bytes.  A write with the error flag has
stored the words before the first one that does not exist, and changed nothing else. -/
theorem rmWrite_exact (s : Session) (pkt : Nat → Byte) :
    ((s.rmWrite pkt).2.error = false →
      Stored s.machine (s.rmWrite pkt).1.machine pkt (packetWords pkt) ∧
      ∀ pkt', packetVma pkt' = packetVma pkt → packetWords pkt' = packetWords pkt →
        ((s.rmWrite pkt).1.rmRead pkt').2.error = false ∧
        ((s.rmWrite pkt).1.rmRead pkt').2.length = 20 * ((packetWords pkt + 3) / 4) ∧
        ∀ j, j < 20 * ((packetWords pkt + 3) / 4) →
          ((s.rmWrite pkt).1.rmRead pkt').1.reply j = packetData pkt j) ∧
    ((s.rmWrite pkt).2.error = true →
      ∃ j, j < packetWords pkt ∧
        (∀ l, l < j → s.machine.createdP ((packetVma pkt + l) % 2 ^ 32) = true) ∧
        s.machine.createdP ((packetVma pkt + j) % 2 ^ 32) = false ∧
        Stored s.machine (s.rmWrite pkt).1.machine pkt j) := by
  obtain ⟨j, hj, hexist, hmissing, herror, hstored⟩ := rmWrite_stored s pkt
  constructor
  · intro hack
    rw [herror, Bool.not_eq_false', decide_eq_true_eq] at hack
    rw [hack] at hstored hexist
    exact ⟨hstored, fun pkt' hvma hwords => rmRead_rmWrite s hvma hwords hexist hstored⟩
  · intro hflag
    rw [herror, Bool.not_eq_true', decide_eq_false_iff_not] at hflag
    have hlt : j < packetWords pkt := by omega
    exact ⟨j, hlt, hexist, hmissing hlt, hstored⟩

/-- A machine whose first page is the only one. -/
def onePage : Session where
  machine :=
    { memory := (VM.ensureVirtualAddress (.empty false) 0 false).1
      stackcachedata := fun _ => ⟨0, 0⟩
      stackcachebasevma := 0xF8000000
      scovlimit := 256 }
  buffer := fun _ => ⟨0, 0⟩
  reply := fun _ => 0

/-- A write of two words at 8191, the last word of the page. -/
def twoWords : Nat → Byte := fun i =>
  [0, 0, 0, 0, 0, 0, 2, 4, 0, 3, 0xFF, 0x1F, 0, 0].getD i 0

/-- The second word has the error flag sent, and the first one is overwritten. -/
theorem rmWrite_error_changes :
    (onePage.rmWrite twoWords).2.error = true ∧
      (onePage.rmWrite twoWords).1.machine.word 8191 ≠ onePage.machine.word 8191 := by
  decide +kernel

end Spy.Memory
