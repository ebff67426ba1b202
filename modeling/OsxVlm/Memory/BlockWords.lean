import Mathlib
import OsxVlm.Memory.VirtualMemory
import OsxVlm.Memory.Blocks

/-!
# A block and its single words

What `VirtualMemoryReadBlock`, `VirtualMemoryWriteBlock` and
`VirtualMemoryWriteBlockConstant` do, against a call of `VirtualMemoryRead` or
`VirtualMemoryWrite` for each word.  The words above the stack cache are left out
where they end with the address space, and no words at address 0 are taken for all
that are below the stack cache.
-/

namespace VM

/-! ### Blocks of a constant -/

/-- The tags go by the count, and so does the data where it is all zeros; other data goes
by the address of its end. -/
def writeBlockConstantUncached (s : Words) (vma count : Nat) (object : LispObj)
    (increment : Integer) : Words :=
  let datacount := if increment = 0 ∧ object.data = 0 then count else uncachedCount vma count
  { s with
    memory := fun a =>
      { tag := if vma ≤ a ∧ a < vma + count then object.tag else (s.memory a).tag
        data :=
          if vma ≤ a ∧ a < vma + datacount then
            object.data + increment * BitVec.ofNat 32 (a - vma)
          else (s.memory a).data } }

/-- Writes words as long as they are in the stack cache, and says where it stopped. -/
def writeCachedConstant (c : StackCache) (increment : Integer) :
    Nat → Nat → LispObj → Words → Words × Nat × LispObj × Nat
  | 0, vma, object, s => (s, vma, object, 0)
  | count + 1, vma, object, s =>
      if c.contains vma then
        writeCachedConstant c increment count ((vma + 1) % 2 ^ 32)
          { object with data := object.data + increment } (virtualMemoryWrite c s vma object)
      else (s, vma, object, count + 1)

def virtualMemoryWriteBlockConstant (c : StackCache) (s : Words) (vma count : Nat)
    (object : LispObj) (increment : Integer) : Words :=
  let pc := belowCount c vma count
  let s := writeBlockConstantUncached s vma pc object increment
  let object := { object with data := object.data + BitVec.ofNat 32 pc * increment }
  let (s, vma, object, count) :=
    writeCachedConstant c increment (count - pc) ((vma + pc) % 2 ^ 32) object s
  writeBlockConstantUncached s vma count object increment

/-! ### Word by word -/

/-- The constant as a chunk. -/
def constantChunk (object : LispObj) (increment : Integer) (i : Nat) : LispObj :=
  { object with data := object.data + increment * BitVec.ofNat 32 i }

def readEach (c : StackCache) (s : Words) (vma count : Nat) (chunk : Nat → LispObj) :
    Nat → LispObj := fun i =>
  if i < count then virtualMemoryRead c s (vma + i) else chunk i

def writeEach (c : StackCache) (s : Words) (vma : Nat) (chunk : Nat → LispObj) : Nat → Words
  | 0 => s
  | n + 1 => virtualMemoryWrite c (writeEach c s vma chunk n) (vma + n) (chunk n)

variable {c : StackCache} {s : Words} {vma count : Nat} {chunk : Nat → LispObj}
variable {object : LispObj} {increment : Integer}

theorem writeEach_eq (hend : vma + count ≤ 2 ^ 32) :
    writeEach c s vma chunk count = s.fill c vma count chunk := by
  induction count with
  | zero => exact Words.fill_zero.symm
  | succ n ih =>
      have hword := @virtualMemoryWrite_eq c (s.fill c vma n chunk) (vma + n)
        (fun i => chunk (n + i)) (by omega)
      rw [writeEach, ih (by omega), ← Words.fill_append]
      exact hword

/-! ### The constant, part by part -/

theorem constantChunk_succ (n : Nat) :
    { constantChunk object increment n with
      data := (constantChunk object increment n).data + increment } =
      constantChunk object increment (n + 1) := by
  have hdata : object.data + increment * BitVec.ofNat 32 n + increment =
      object.data + increment * BitVec.ofNat 32 (n + 1) := by
    rw [BitVec.ofNat_add, BitVec.mul_add, BitVec.mul_one, BitVec.add_assoc]
  unfold constantChunk
  dsimp only
  rw [hdata]

theorem constantChunk_add (n i : Nat) :
    constantChunk (constantChunk object increment n) increment i =
      constantChunk object increment (n + i) := by
  unfold constantChunk
  congr 1
  rw [BitVec.ofNat_add, BitVec.mul_add, BitVec.add_assoc]

theorem writeCachedConstant_eq (n : Nat) :
    writeCachedConstant c increment count vma (constantChunk object increment n) s =
      ((writeCached c (constantChunk object increment) count vma n s).1,
        (writeCached c (constantChunk object increment) count vma n s).2.1,
        constantChunk object increment
          (writeCached c (constantChunk object increment) count vma n s).2.2.1,
        (writeCached c (constantChunk object increment) count vma n s).2.2.2) := by
  induction count generalizing vma n s with
  | zero => rfl
  | succ count ih =>
      unfold writeCachedConstant writeCached
      split
      · rw [constantChunk_succ]
        exact ih (n + 1)
      · rfl

/-- Outside the stack cache a constant is a chunk, where its end is not the end of the
address space or it is all zeros. -/
theorem writeBlockConstantUncached_eq (hend : vma + count ≤ 2 ^ 32)
    (hout : vma + count ≤ c.stackcachebasevma ∨ c.stackcachebasevma + c.scovlimit ≤ vma ∨
      count = 0)
    (hall : uncachedCount vma count = count ∨ increment = 0 ∧ object.data = 0) (n : Nat) :
    writeBlockConstantUncached s vma count (constantChunk object increment n) increment =
      s.fill c vma count fun i => constantChunk object increment (n + i) := by
  have hcount : (if increment = 0 ∧ (constantChunk object increment n).data = 0 then count
      else uncachedCount vma count) = count := by
    split
    · rfl
    · next hother =>
        rcases hall with heq | ⟨hincrement, hzero⟩
        · exact heq
        · refine absurd ⟨hincrement, ?_⟩ hother
          simp [constantChunk, hincrement, hzero]
  unfold writeBlockConstantUncached
  dsimp only
  rw [hcount]
  apply Words.ext
  · funext a
    dsimp only [Words.fill]
    by_cases hin : vma ≤ a ∧ a < vma + count
    · have hcontains : ¬ c.contains a = true := by
        rw [StackCache.contains_iff (by omega)]
        omega
      rw [if_pos hin, if_pos hin, if_pos ⟨hcontains, hin⟩]
      exact constantChunk_add n (a - vma)
    · rw [if_neg hin, if_neg hin, if_neg (fun h => hin h.2)]
  · funext k
    dsimp only [Words.fill]
    rw [if_neg (by omega)]

theorem constantChunk_zero : constantChunk object increment 0 = object := by
  simp [constantChunk]

theorem constantChunk_pc (pc : Nat) :
    { object with data := object.data + BitVec.ofNat 32 pc * increment } =
      constantChunk object increment pc := by
  unfold constantChunk
  rw [BitVec.mul_comm]

/-- What the first two parts leave, and what is left to the third. -/
theorem writeBlockConstant_parts {pc k : Nat} (hpos : 0 < vma + count) (hvma : vma < 2 ^ 32)
    (hend : vma + count ≤ 2 ^ 32) (hpc : min count (c.stackcachebasevma - vma) = pc)
    (hk : cachedCount c (vma + pc) (count - pc) = k) :
    virtualMemoryWriteBlockConstant c s vma count object increment =
      writeBlockConstantUncached (s.fill c vma (pc + k) (constantChunk object increment))
        ((vma + pc + k) % 2 ^ 32) (count - pc - k) (constantChunk object increment (pc + k))
        increment := by
  have hbase := c.base_lt
  have hlt : vma + pc < 2 ^ 32 := by omega
  have hbelow : uncachedCount vma pc = pc := by
    unfold uncachedCount
    omega
  have hfirst := @writeBlockConstantUncached_eq c s vma pc object increment (by omega) (by omega)
    (.inl hbelow) 0
  rw [constantChunk_zero] at hfirst
  simp only [Nat.zero_add] at hfirst
  unfold virtualMemoryWriteBlockConstant
  dsimp only
  rw [belowCount_eq hpos hend, hpc, Nat.mod_eq_of_lt hlt, hfirst, constantChunk_pc,
    writeCachedConstant_eq, writeCached_eq hlt (by omega), hk]
  dsimp only
  rw [Words.fill_append]

/-- A constant is written like a chunk where all its words are reached, or it is zeros. -/
theorem virtualMemoryWriteBlockConstant_eq (hpos : 0 < vma + count) (hvma : vma < 2 ^ 32)
    (hend : vma + count ≤ 2 ^ 32)
    (hall : vma + count < 2 ^ 32 ∨ vma + count ≤ c.stackcachebasevma + c.scovlimit ∨
      increment = 0 ∧ object.data = 0) :
    virtualMemoryWriteBlockConstant c s vma count object increment =
      s.fill c vma count (constantChunk object increment) := by
  have hbase := c.base_lt
  generalize hpc : min count (c.stackcachebasevma - vma) = pc
  generalize hk : cachedCount c (vma + pc) (count - pc) = k
  have hcached : k = min (count - pc) (c.stackcachebasevma + c.scovlimit - (vma + pc)) := by
    rw [← hk]
    unfold cachedCount
    split <;> omega
  rw [writeBlockConstant_parts hpos hvma hend hpc hk]
  have hthird := @writeBlockConstantUncached_eq c
    (s.fill c vma (pc + k) (constantChunk object increment)) ((vma + pc + k) % 2 ^ 32)
    (count - pc - k) object increment (by omega) (by omega) (by
      rcases hall with hlt | htop | hzero
      · left
        unfold uncachedCount
        omega
      · left
        unfold uncachedCount
        omega
      · exact .inr hzero) (pc + k)
  rw [hthird, Words.fill_next (by omega)]
  congr 1
  omega

/-- The last word of the address space keeps its data. -/
theorem virtualMemoryWriteBlockConstant_last (hvma : vma < 2 ^ 32) (hend : vma + count = 2 ^ 32)
    (htop : c.stackcachebasevma + c.scovlimit < 2 ^ 32)
    (hother : ¬ (increment = 0 ∧ object.data = 0)) :
    ((virtualMemoryWriteBlockConstant c s vma count object increment).memory (2 ^ 32 - 1)).data =
      (s.memory (2 ^ 32 - 1)).data := by
  generalize hpc : min count (c.stackcachebasevma - vma) = pc
  generalize hk : cachedCount c (vma + pc) (count - pc) = k
  have hcached : k = min (count - pc) (c.stackcachebasevma + c.scovlimit - (vma + pc)) := by
    rw [← hk]
    unfold cachedCount
    split <;> omega
  have hnone : uncachedCount ((vma + pc + k) % 2 ^ 32) (count - pc - k) = 0 := by
    unfold uncachedCount
    omega
  have hzero : ¬ (increment = 0 ∧ (constantChunk object increment (pc + k)).data = 0) := by
    rintro ⟨hincrement, hdata⟩
    refine hother ⟨hincrement, ?_⟩
    simpa [constantChunk, hincrement] using hdata
  rw [writeBlockConstant_parts (by omega) hvma hend.le hpc hk]
  unfold writeBlockConstantUncached
  dsimp only [Words.fill]
  rw [if_neg hzero, hnone, if_neg (by omega), if_neg (by omega)]

/-! ### Blocks and words -/

/-- The block ends below the end of the address space or in the stack cache, and is not
that of no words at address 0 below a stack cache. -/
def Whole (c : StackCache) (vma count : Nat) : Prop :=
  (vma + count < 2 ^ 32 ∨ vma + count ≤ c.stackcachebasevma + c.scovlimit) ∧
    (vma + count = 0 → c.stackcachebasevma = 0)

/-- The same for a constant, which may also be all zeros. -/
def WholeConstant (c : StackCache) (vma count : Nat) (object : LispObj) (increment : Integer) :
    Prop :=
  (vma + count < 2 ^ 32 ∨ vma + count ≤ c.stackcachebasevma + c.scovlimit ∨
      increment = 0 ∧ object.data = 0) ∧
    (vma + count = 0 → c.stackcachebasevma = 0)

/-- Every word of memory and of the stack cache is `x`. -/
def uniform (x : LispObj) : Words := ⟨fun _ => x, fun _ => x⟩

theorem reachedCount_whole (h : Whole c vma count) : reachedCount c vma count = count := by
  have hends := h.1
  unfold reachedCount
  split <;> omega

theorem whole_none (hempty : vma + count = 0) (hbase : c.stackcachebasevma = 0) :
    belowCount c vma count = 0 := by
  unfold belowCount
  rw [hbase]
  exact if_neg (Nat.not_lt_zero vma)

theorem belowCount_none (hbase : 0 < c.stackcachebasevma) :
    belowCount c 0 0 = c.stackcachebasevma := by
  have hlt := c.base_lt
  unfold belowCount
  rw [if_pos hbase, if_neg (by omega), Nat.sub_zero]

theorem uncachedCount_base (c : StackCache) :
    uncachedCount 0 c.stackcachebasevma = c.stackcachebasevma := by
  have hlt := c.base_lt
  unfold uncachedCount
  omega

theorem uncachedCount_none (hvma : vma < 2 ^ 32) : uncachedCount vma 0 = 0 := by
  unfold uncachedCount
  omega

/-- The last word of the address space is not reached. -/
theorem reachedCount_last (hend : vma + count = 2 ^ 32)
    (htop : c.stackcachebasevma + c.scovlimit < 2 ^ 32) (hvma : vma < 2 ^ 32) :
    reachedCount c vma count ≤ count - 1 := by
  unfold reachedCount
  rw [if_neg (by omega)]
  omega

theorem contains_last (htop : c.stackcachebasevma + c.scovlimit < 2 ^ 32) :
    ¬ c.contains (2 ^ 32 - 1) = true := by
  rw [StackCache.contains_iff (by omega)]
  omega

theorem virtualMemoryReadBlock_iff (hvma : vma < 2 ^ 32) (hend : vma + count ≤ 2 ^ 32) :
    (∀ s chunk, virtualMemoryReadBlock c s vma count chunk = readEach c s vma count chunk) ↔
      Whole c vma count := by
  constructor
  · intro h
    constructor
    · by_contra hnot
      have htop : c.stackcachebasevma + c.scovlimit < 2 ^ 32 := by omega
      have hword := congrFun (h (uniform ⟨0, 1⟩) fun _ => ⟨0, 0⟩) (count - 1)
      have hlast := @reachedCount_last c vma count (by omega) htop hvma
      have haddr : vma + (count - 1) = 2 ^ 32 - 1 := by omega
      rw [virtualMemoryReadBlock_eq (by omega) hvma hend] at hword
      unfold readEach virtualMemoryRead at hword
      dsimp only at hword
      rw [if_neg (by omega)] at hword
      rw [if_pos (by omega), haddr, if_neg (contains_last htop)] at hword
      exact absurd hword (by decide)
    · intro hempty
      by_contra hbase
      obtain ⟨rfl, rfl⟩ : vma = 0 ∧ count = 0 := by omega
      have hword := congrFun (h (uniform ⟨0, 1⟩) fun _ => ⟨0, 0⟩) 0
      have hpos : 0 < c.stackcachebasevma := Nat.pos_of_ne_zero hbase
      unfold virtualMemoryReadBlock readEach at hword
      dsimp only at hword
      rw [belowCount_none hpos, Nat.zero_sub, readCached] at hword
      unfold readBlockUncached at hword
      dsimp only at hword
      rw [uncachedCount_none (Nat.mod_lt _ (by decide)), uncachedCount_base, if_neg (by omega),
        if_pos (by omega), if_neg (by omega)] at hword
      exact absurd hword (by decide)
  · intro hwhole s chunk
    rcases Nat.eq_zero_or_pos (vma + count) with hempty | hpos
    · have hbelow := whole_none hempty (hwhole.2 hempty)
      obtain ⟨rfl, rfl⟩ : vma = 0 ∧ count = 0 := by omega
      unfold virtualMemoryReadBlock readEach
      dsimp only
      rw [hbelow, readCached]
      funext i
      unfold readBlockUncached
      dsimp only
      rw [uncachedCount_none (by decide), uncachedCount_none (by decide), if_neg (by omega),
        if_neg (by omega), if_neg (by omega)]
    · rw [virtualMemoryReadBlock_eq hpos hvma hend, reachedCount_whole hwhole]
      rfl

theorem virtualMemoryWriteBlock_iff (hvma : vma < 2 ^ 32) (hend : vma + count ≤ 2 ^ 32) :
    (∀ s chunk, virtualMemoryWriteBlock c s vma count chunk = writeEach c s vma chunk count) ↔
      Whole c vma count := by
  constructor
  · intro h
    constructor
    · by_contra hnot
      have htop : c.stackcachebasevma + c.scovlimit < 2 ^ 32 := by omega
      have hword := congrFun (congrArg Words.memory (h (uniform ⟨0, 1⟩) fun _ => ⟨0, 0⟩))
        (2 ^ 32 - 1)
      have hlast := @reachedCount_last c vma count (by omega) htop hvma
      rw [virtualMemoryWriteBlock_eq (by omega) hvma hend, writeEach_eq hend] at hword
      dsimp only [Words.fill] at hword
      rw [if_neg (by omega), if_pos ⟨contains_last htop, by omega, by omega⟩] at hword
      exact absurd hword (by decide)
    · intro hempty
      by_contra hbase
      obtain ⟨rfl, rfl⟩ : vma = 0 ∧ count = 0 := by omega
      have hword := congrFun (congrArg Words.memory (h (uniform ⟨0, 1⟩) fun _ => ⟨0, 0⟩)) 0
      have hpos : 0 < c.stackcachebasevma := Nat.pos_of_ne_zero hbase
      unfold virtualMemoryWriteBlock writeEach at hword
      dsimp only at hword
      rw [belowCount_none hpos, Nat.zero_sub, writeCached] at hword
      unfold writeBlockUncached at hword
      dsimp only at hword
      rw [uncachedCount_none (Nat.mod_lt _ (by decide)), uncachedCount_base, if_neg (by omega),
        if_pos (by omega)] at hword
      exact absurd hword (by decide)
  · intro hwhole s chunk
    rcases Nat.eq_zero_or_pos (vma + count) with hempty | hpos
    · have hbelow := whole_none hempty (hwhole.2 hempty)
      obtain ⟨rfl, rfl⟩ : vma = 0 ∧ count = 0 := by omega
      unfold virtualMemoryWriteBlock
      dsimp only
      rw [hbelow, writeCached, writeEach_eq hend]
      apply Words.ext
      · funext a
        unfold writeBlockUncached
        dsimp only [Words.fill]
        rw [uncachedCount_none (by decide), uncachedCount_none (by decide), if_neg (by omega),
          if_neg (by omega), if_neg (by omega)]
      · rw [Words.fill_zero]
        rfl
    · rw [virtualMemoryWriteBlock_eq hpos hvma hend, reachedCount_whole hwhole, writeEach_eq hend]

theorem writeBlockConstantUncached_none (hvma : vma < 2 ^ 32) :
    writeBlockConstantUncached s vma 0 object increment = s := by
  unfold writeBlockConstantUncached
  dsimp only
  rw [uncachedCount_none hvma, ite_self]
  apply Words.ext
  · funext a
    dsimp only
    rw [if_neg (by omega), if_neg (by omega)]
  · rfl

theorem virtualMemoryWriteBlockConstant_iff (hvma : vma < 2 ^ 32) (hend : vma + count ≤ 2 ^ 32) :
    (∀ s, virtualMemoryWriteBlockConstant c s vma count object increment =
        writeEach c s vma (constantChunk object increment) count) ↔
      WholeConstant c vma count object increment := by
  constructor
  · intro h
    constructor
    · by_contra hnot
      have htop : c.stackcachebasevma + c.scovlimit < 2 ^ 32 := by omega
      have hother : ¬ (increment = 0 ∧ object.data = 0) := fun hzero =>
        hnot (.inr (.inr hzero))
      -- a memory with other data than the last word is to have
      have hword := congrArg LispObj.data (congrFun (congrArg Words.memory (h (uniform
        ⟨0, (constantChunk object increment (count - 1)).data + 1⟩))) (2 ^ 32 - 1))
      rw [virtualMemoryWriteBlockConstant_last hvma (by omega) htop hother, writeEach_eq hend]
        at hword
      dsimp only [Words.fill] at hword
      have hindex : 2 ^ 32 - 1 - vma = count - 1 := by omega
      rw [if_pos ⟨contains_last htop, by omega, by omega⟩, hindex] at hword
      exact absurd hword (by simp [uniform])
    · intro hempty
      by_contra hbase
      obtain ⟨rfl, rfl⟩ : vma = 0 ∧ count = 0 := by omega
      have hword := congrArg LispObj.tag (congrFun (congrArg Words.memory
        (h (uniform ⟨object.tag + 1, 0⟩))) 0)
      have hpos : 0 < c.stackcachebasevma := Nat.pos_of_ne_zero hbase
      unfold virtualMemoryWriteBlockConstant writeEach at hword
      dsimp only at hword
      rw [belowCount_none hpos, Nat.zero_sub, writeCachedConstant] at hword
      dsimp only at hword
      rw [writeBlockConstantUncached_none (Nat.mod_lt _ (by decide))] at hword
      unfold writeBlockConstantUncached at hword
      dsimp only at hword
      rw [if_pos (by omega)] at hword
      exact absurd hword (by simp [uniform])
  · intro hwhole s
    rcases Nat.eq_zero_or_pos (vma + count) with hempty | hpos
    · have hbelow := whole_none hempty (hwhole.2 hempty)
      obtain ⟨rfl, rfl⟩ : vma = 0 ∧ count = 0 := by omega
      unfold virtualMemoryWriteBlockConstant
      dsimp only
      rw [hbelow, writeCachedConstant]
      dsimp only
      rw [writeBlockConstantUncached_none (by decide), writeBlockConstantUncached_none (by decide)]
      rfl
    · rw [virtualMemoryWriteBlockConstant_eq hpos hvma hend hwhole.1, writeEach_eq hend]

/-- Blocks are read and written like their single words just when they are whole. -/
theorem blocks_eq_words_iff (c : StackCache) (hvma : vma < 2 ^ 32) (hend : vma + count ≤ 2 ^ 32)
    (object : LispObj) (increment : Integer) :
    ((∀ s chunk, virtualMemoryReadBlock c s vma count chunk = readEach c s vma count chunk) ↔
        Whole c vma count) ∧
      ((∀ s chunk, virtualMemoryWriteBlock c s vma count chunk = writeEach c s vma chunk count) ↔
        Whole c vma count) ∧
      ((∀ s, virtualMemoryWriteBlockConstant c s vma count object increment =
          writeEach c s vma (constantChunk object increment) count) ↔
        WholeConstant c vma count object increment) :=
  ⟨virtualMemoryReadBlock_iff hvma hend, virtualMemoryWriteBlock_iff hvma hend,
    virtualMemoryWriteBlockConstant_iff hvma hend⟩

/-- A stack cache below the words of the samples. -/
def lowCache : StackCache where
  stackcachebasevma := 0x1000
  scovlimit := 256
  base_lt := by decide
  limit_lt := by decide

theorem blocks_eq_words_low :
    ((∀ s chunk, virtualMemoryReadBlock lowCache s 0xFF0 32 chunk =
          readEach lowCache s 0xFF0 32 chunk) ↔ Whole lowCache 0xFF0 32) ∧
      ((∀ s chunk, virtualMemoryWriteBlock lowCache s 0xFF0 32 chunk =
          writeEach lowCache s 0xFF0 chunk 32) ↔ Whole lowCache 0xFF0 32) ∧
      ((∀ s, virtualMemoryWriteBlockConstant lowCache s 0xFF0 32 ⟨8, 1⟩ 1 =
          writeEach lowCache s 0xFF0 (constantChunk ⟨8, 1⟩ 1) 32) ↔
        WholeConstant lowCache 0xFF0 32 ⟨8, 1⟩ 1) :=
  blocks_eq_words_iff lowCache (by decide) (by decide) ⟨8, 1⟩ 1

/-- The last word of the address space is not read with a block of it. -/
theorem virtualMemoryReadBlock_last :
    virtualMemoryReadBlock lowCache (uniform ⟨8, 1⟩) 0xFFFFFFFF 1 (fun _ => ⟨8, 0⟩) 0 = ⟨8, 0⟩ ∧
      virtualMemoryRead lowCache (uniform ⟨8, 1⟩) 0xFFFFFFFF = ⟨8, 1⟩ ∧
      ¬ ∀ s chunk, virtualMemoryReadBlock lowCache s 0xFFFFFFFF 1 chunk =
        readEach lowCache s 0xFFFFFFFF 1 chunk := by
  have hcontains : ¬ lowCache.contains 0xFFFFFFFF = true := contains_last (by decide)
  have hread : virtualMemoryRead lowCache (uniform ⟨8, 1⟩) 0xFFFFFFFF = ⟨8, 1⟩ := by
    unfold virtualMemoryRead
    rw [if_neg hcontains]
    rfl
  have hblock : virtualMemoryReadBlock lowCache (uniform ⟨8, 1⟩) 0xFFFFFFFF 1 (fun _ => ⟨8, 0⟩) 0 =
      ⟨8, 0⟩ := by
    rw [virtualMemoryReadBlock_eq (by decide) (by decide) (by decide)]
    exact if_neg (by decide)
  refine ⟨hblock, hread, fun h => ?_⟩
  have hword := congrFun (h (uniform ⟨8, 1⟩) fun _ => ⟨8, 0⟩) 0
  rw [hblock] at hword
  exact absurd (hword.trans hread) (by decide)

end VM
