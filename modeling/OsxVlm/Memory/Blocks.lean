import Mathlib
import OsxVlm.Memory.VirtualMemory

/-!
# Blocks of words and the stack cache

Words of the stack may be in the stack cache.  A block is read and written in three
parts: below the cache, in it and above it.  The parts outside go by the address of
their end, a 32-bit sum; the last words of the address space have the end 0.
-/

namespace VM

/-- The addresses whose words are in the stack cache. -/
structure StackCache where
  stackcachebasevma : Nat
  scovlimit : Nat
  base_lt : stackcachebasevma < 2 ^ 32
  limit_lt : scovlimit < 2 ^ 32

/-- `VMAinStackCacheP`, with a 64-bit difference. -/
@[irreducible] def StackCache.contains (c : StackCache) (vma : Nat) : Bool :=
  decide ((vma + 2 ^ 64 - c.stackcachebasevma) % 2 ^ 64 < c.scovlimit)

/-- The words of memory and of the stack cache. -/
@[ext]
structure Words where
  memory : Nat → LispObj
  stackcachedata : Nat → LispObj

variable {c : StackCache} {s : Words} {vma count : Nat} {chunk : Nat → LispObj}

theorem StackCache.contains_iff (hvma : vma < 2 ^ 32) :
    c.contains vma = true ↔
      c.stackcachebasevma ≤ vma ∧ vma < c.stackcachebasevma + c.scovlimit := by
  have hbase := c.base_lt
  have htop := c.limit_lt
  unfold StackCache.contains
  rw [decide_eq_true_eq]
  omega

/-! ### One word -/

def virtualMemoryRead (c : StackCache) (s : Words) (vma : Nat) : LispObj :=
  if c.contains vma then s.stackcachedata (vma - c.stackcachebasevma) else s.memory vma

def virtualMemoryWrite (c : StackCache) (s : Words) (vma : Nat) (object : LispObj) : Words :=
  if c.contains vma then
    { s with
      stackcachedata := Function.update s.stackcachedata (vma - c.stackcachebasevma) object }
  else { s with memory := Function.update s.memory vma object }

/-! ### Blocks -/

/-- The words between the addresses of the beginning and of the end. -/
def uncachedCount (vma count : Nat) : Nat := (vma + count) % 2 ^ 32 - vma

/-- The chunk is filled from `object` on. -/
def readBlockUncached (s : Words) (vma count object : Nat) (chunk : Nat → LispObj) :
    Nat → LispObj := fun i =>
  if object ≤ i ∧ i < object + uncachedCount vma count then s.memory (vma + (i - object))
  else chunk i

def writeBlockUncached (s : Words) (vma count object : Nat) (chunk : Nat → LispObj) : Words :=
  { s with
    memory := fun a =>
      if vma ≤ a ∧ a < vma + uncachedCount vma count then chunk (object + (a - vma))
      else s.memory a }

/-- The words of a block that lie below the stack cache.  The last address has 64 bits:
that of no words at address 0 is the highest. -/
@[irreducible] def belowCount (c : StackCache) (vma count : Nat) : Nat :=
  if vma < c.stackcachebasevma then
    if (vma + count + 0xFFFFFFFFFFFFFFFF) % 2 ^ 64 < c.stackcachebasevma then count
    else c.stackcachebasevma - vma
  else 0

/-- Reads words as long as they are in the stack cache, and says where it stopped. -/
def readCached (c : StackCache) (s : Words) :
    Nat → Nat → Nat → (Nat → LispObj) → (Nat → LispObj) × Nat × Nat × Nat
  | 0, vma, object, chunk => (chunk, vma, object, 0)
  | count + 1, vma, object, chunk =>
      if c.contains vma then
        readCached c s count ((vma + 1) % 2 ^ 32) (object + 1)
          (Function.update chunk object (virtualMemoryRead c s vma))
      else (chunk, vma, object, count + 1)

def writeCached (c : StackCache) (chunk : Nat → LispObj) :
    Nat → Nat → Nat → Words → Words × Nat × Nat × Nat
  | 0, vma, object, s => (s, vma, object, 0)
  | count + 1, vma, object, s =>
      if c.contains vma then
        writeCached c chunk count ((vma + 1) % 2 ^ 32) (object + 1)
          (virtualMemoryWrite c s vma (chunk object))
      else (s, vma, object, count + 1)

def virtualMemoryReadBlock (c : StackCache) (s : Words) (vma count : Nat)
    (chunk : Nat → LispObj) : Nat → LispObj :=
  let pc := belowCount c vma count
  let chunk := readBlockUncached s vma pc 0 chunk
  let (chunk, vma, object, count) :=
    readCached c s (count - pc) ((vma + pc) % 2 ^ 32) pc chunk
  readBlockUncached s vma count object chunk

def virtualMemoryWriteBlock (c : StackCache) (s : Words) (vma count : Nat)
    (chunk : Nat → LispObj) : Words :=
  let pc := belowCount c vma count
  let s := writeBlockUncached s vma pc 0 chunk
  let (s, vma, object, count) :=
    writeCached c chunk (count - pc) ((vma + pc) % 2 ^ 32) pc s
  writeBlockUncached s vma count object chunk

/-! ### What they do -/

/-- The words of a block that are reached: all of them, unless the block ends with the
address space; then those behind the stack cache are not. -/
def reachedCount (c : StackCache) (vma count : Nat) : Nat :=
  if vma + count < 2 ^ 32 then count
  else min count (c.stackcachebasevma + c.scovlimit - vma)

/-- Words from `vma` on are replaced, wherever they are. -/
def Words.fill (c : StackCache) (s : Words) (vma count : Nat) (chunk : Nat → LispObj) : Words where
  memory := fun a =>
    if ¬ c.contains a ∧ vma ≤ a ∧ a < vma + count then chunk (a - vma) else s.memory a
  stackcachedata := fun k =>
    if k < c.scovlimit ∧ vma ≤ c.stackcachebasevma + k ∧ c.stackcachebasevma + k < vma + count then
      chunk (c.stackcachebasevma + k - vma)
    else s.stackcachedata k

theorem Words.fill_zero : s.fill c vma 0 chunk = s := by
  apply Words.ext
  · funext a
    exact if_neg (by omega)
  · funext k
    exact if_neg (by omega)

theorem Words.fill_congr {chunk' : Nat → LispObj} (h : ∀ i, i < count → chunk i = chunk' i) :
    s.fill c vma count chunk = s.fill c vma count chunk' := by
  apply Words.ext
  · funext a
    dsimp only [Words.fill]
    split
    · next hin => exact h _ (by omega)
    · rfl
  · funext k
    dsimp only [Words.fill]
    split
    · next hin => exact h _ (by omega)
    · rfl

theorem Words.fill_append (n k : Nat) :
    (s.fill c vma n chunk).fill c (vma + n) k (fun i => chunk (n + i)) =
      s.fill c vma (n + k) chunk := by
  have hshift : ∀ a, vma + n ≤ a → n + (a - (vma + n)) = a - vma := by
    intro a ha
    omega
  apply Words.ext
  · funext a
    dsimp only [Words.fill]
    by_cases hin : ¬ c.contains a = true ∧ vma + n ≤ a ∧ a < vma + n + k
    · rw [if_pos hin, if_pos ⟨hin.1, by omega, by omega⟩, hshift a hin.2.1]
    · rw [if_neg hin]
      apply if_congr _ rfl rfl
      constructor
      · exact fun h => ⟨h.1, h.2.1, by omega⟩
      · exact fun h => ⟨h.1, h.2.1, by
          by_contra hge
          exact hin ⟨h.1, by omega, by omega⟩⟩
  · funext i
    dsimp only [Words.fill]
    by_cases hin : i < c.scovlimit ∧ vma + n ≤ c.stackcachebasevma + i ∧
        c.stackcachebasevma + i < vma + n + k
    · rw [if_pos hin, if_pos ⟨hin.1, by omega, by omega⟩, hshift _ hin.2.1]
    · rw [if_neg hin]
      apply if_congr _ rfl rfl
      omega

theorem Words.fill_next {n k vma' : Nat} (hvma : vma' = vma + n ∨ k = 0) :
    (s.fill c vma n chunk).fill c vma' k (fun i => chunk (n + i)) = s.fill c vma (n + k) chunk := by
  obtain rfl | rfl := hvma
  · exact Words.fill_append n k
  · exact Words.fill_zero

theorem virtualMemoryRead_fill {a : Nat} (ha : a < 2 ^ 32) :
    virtualMemoryRead c (s.fill c vma count chunk) a =
      if vma ≤ a ∧ a < vma + count then chunk (a - vma) else virtualMemoryRead c s a := by
  unfold virtualMemoryRead
  by_cases hin : c.contains a = true
  · rw [if_pos hin, if_pos hin]
    rw [StackCache.contains_iff ha] at hin
    dsimp only [Words.fill]
    rw [show c.stackcachebasevma + (a - c.stackcachebasevma) = a by omega]
    apply if_congr _ rfl rfl
    omega
  · rw [if_neg hin, if_neg hin]
    dsimp only [Words.fill]
    apply if_congr _ rfl rfl
    exact ⟨fun h => h.2, fun h => ⟨hin, h⟩⟩

theorem virtualMemoryRead_outside {a : Nat} (ha : a < 2 ^ 32)
    (hout : a < c.stackcachebasevma ∨ c.stackcachebasevma + c.scovlimit ≤ a) :
    virtualMemoryRead c s a = s.memory a := by
  unfold virtualMemoryRead
  rw [if_neg]
  rw [StackCache.contains_iff ha]
  omega

theorem virtualMemoryWrite_eq (hvma : vma < 2 ^ 32) :
    virtualMemoryWrite c s vma (chunk 0) = s.fill c vma 1 chunk := by
  unfold virtualMemoryWrite
  split
  · next hin =>
    have hrange := (StackCache.contains_iff hvma).mp hin
    apply Words.ext
    · funext a
      dsimp only [Words.fill]
      rw [if_neg]
      rintro ⟨hout, hlo, hhi⟩
      obtain rfl : a = vma := by omega
      exact hout hin
    · funext k
      dsimp only [Words.fill]
      by_cases hk : k = vma - c.stackcachebasevma
      · rw [hk, Function.update_self, if_pos (by omega)]
        congr 1
        omega
      · rw [Function.update_of_ne hk, if_neg (by omega)]
  · next hout =>
    apply Words.ext
    · funext a
      dsimp only [Words.fill]
      by_cases ha : a = vma
      · rw [ha, Function.update_self, if_pos ⟨hout, by omega, by omega⟩, Nat.sub_self]
      · rw [Function.update_of_ne ha, if_neg (by omega)]
    · funext k
      dsimp only [Words.fill]
      rw [if_neg]
      rintro ⟨hk, hlo, hhi⟩
      apply hout
      rw [StackCache.contains_iff hvma]
      omega

theorem belowCount_eq (hpos : 0 < vma + count) (hend : vma + count ≤ 2 ^ 32) :
    belowCount c vma count = min count (c.stackcachebasevma - vma) := by
  unfold belowCount
  split
  · split <;> omega
  · omega

/-- How far the words are in the stack cache. -/
def cachedCount (c : StackCache) (vma count : Nat) : Nat :=
  if c.stackcachebasevma ≤ vma then min count (c.stackcachebasevma + c.scovlimit - vma) else 0

theorem readCached_eq {object : Nat} (hvma : vma < 2 ^ 32) (hend : vma + count ≤ 2 ^ 32) :
    readCached c s count vma object chunk =
      (fun i =>
          if object ≤ i ∧ i < object + cachedCount c vma count then
            virtualMemoryRead c s (vma + (i - object))
          else chunk i,
        (vma + cachedCount c vma count) % 2 ^ 32, object + cachedCount c vma count,
        count - cachedCount c vma count) := by
  induction count generalizing vma object chunk with
  | zero =>
      have hzero : cachedCount c vma 0 = 0 := by
        unfold cachedCount
        split <;> omega
      simp only [readCached, hzero, Nat.add_zero, Nat.mod_eq_of_lt hvma, Prod.mk.injEq, and_true]
      funext i
      exact (if_neg (by omega)).symm
  | succ count ih =>
      unfold readCached
      split
      · next hin =>
        rw [StackCache.contains_iff hvma] at hin
        have hstep : cachedCount c vma (count + 1) =
            cachedCount c ((vma + 1) % 2 ^ 32) count + 1 := by
          unfold cachedCount
          split <;> split <;> omega
        rw [ih (Nat.mod_lt _ (by decide)) (by omega), hstep]
        generalize hk : cachedCount c ((vma + 1) % 2 ^ 32) count = k
        have hle : k ≤ count := by
          rw [← hk]
          unfold cachedCount
          split <;> omega
        refine Prod.ext ?_ (Prod.ext ?_ (Prod.ext ?_ ?_))
        · funext i
          dsimp only
          by_cases hi : i = object
          · subst hi
            rw [if_neg (by omega), Function.update_self, if_pos (by omega), Nat.sub_self,
              Nat.add_zero]
          · rw [Function.update_of_ne hi]
            by_cases hrange : object + 1 ≤ i ∧ i < object + 1 + k
            · rw [if_pos hrange, if_pos (by omega)]
              congr 1
              omega
            · rw [if_neg hrange, if_neg (by omega)]
        · dsimp only
          omega
        · dsimp only
          omega
        · dsimp only
          omega
      · next hout =>
        rw [StackCache.contains_iff hvma] at hout
        have hzero : cachedCount c vma (count + 1) = 0 := by
          unfold cachedCount
          split <;> omega
        simp only [hzero, Nat.add_zero, Nat.mod_eq_of_lt hvma, Nat.sub_zero, Prod.mk.injEq, and_true]
        funext i
        exact (if_neg (by omega)).symm

theorem writeCached_eq {object : Nat} (hvma : vma < 2 ^ 32) (hend : vma + count ≤ 2 ^ 32) :
    writeCached c chunk count vma object s =
      (s.fill c vma (cachedCount c vma count) fun i => chunk (object + i),
        (vma + cachedCount c vma count) % 2 ^ 32, object + cachedCount c vma count,
        count - cachedCount c vma count) := by
  induction count generalizing vma object s with
  | zero =>
      have hzero : cachedCount c vma 0 = 0 := by
        unfold cachedCount
        split <;> omega
      rw [writeCached, hzero, Words.fill_zero, Nat.add_zero, Nat.mod_eq_of_lt hvma]
      rfl
  | succ count ih =>
      unfold writeCached
      split
      · next hin =>
        rw [StackCache.contains_iff hvma] at hin
        have hstep : cachedCount c vma (count + 1) =
            1 + cachedCount c ((vma + 1) % 2 ^ 32) count := by
          unfold cachedCount
          split <;> split <;> omega
        have hword : virtualMemoryWrite c s vma (chunk object) =
            s.fill c vma 1 fun i => chunk (object + i) :=
          @virtualMemoryWrite_eq c s vma (fun i => chunk (object + i)) hvma
        rw [ih (Nat.mod_lt _ (by decide)) (by omega), hstep, hword]
        generalize hk : cachedCount c ((vma + 1) % 2 ^ 32) count = k
        have hle : k ≤ count := by
          rw [← hk]
          unfold cachedCount
          split <;> omega
        refine Prod.ext ?_ (Prod.ext ?_ (Prod.ext ?_ ?_))
        · dsimp only
          rcases Nat.eq_zero_or_pos k with rfl | hpos
          · exact Words.fill_zero
          · rw [Nat.mod_eq_of_lt (by omega), ← Words.fill_append 1 k]
            simp only [Nat.add_assoc]
        · dsimp only
          omega
        · dsimp only
          omega
        · dsimp only
          omega
      · next hout =>
        rw [StackCache.contains_iff hvma] at hout
        have hzero : cachedCount c vma (count + 1) = 0 := by
          unfold cachedCount
          split <;> omega
        simp only [hzero, Words.fill_zero, Nat.add_zero, Nat.mod_eq_of_lt hvma, Nat.sub_zero]

/-- Outside the stack cache the words are those of memory. -/
theorem writeBlockUncached_eq {object : Nat} (hend : vma + count ≤ 2 ^ 32)
    (hout : vma + count ≤ c.stackcachebasevma ∨ c.stackcachebasevma + c.scovlimit ≤ vma ∨
      count = 0) :
    writeBlockUncached s vma count object chunk =
      s.fill c vma (uncachedCount vma count) fun i => chunk (object + i) := by
  have hle : uncachedCount vma count ≤ count := by
    unfold uncachedCount
    omega
  apply Words.ext
  · funext a
    dsimp only [writeBlockUncached, Words.fill]
    apply if_congr _ rfl rfl
    constructor
    · intro h
      refine ⟨?_, h⟩
      rw [StackCache.contains_iff (by omega)]
      omega
    · exact fun h => h.2
  · funext k
    dsimp only [writeBlockUncached, Words.fill]
    rw [if_neg (by omega)]

/-- The three parts of a block. -/
theorem block_parts {pc k u : Nat} (hvma : vma < 2 ^ 32) (hend : vma + count ≤ 2 ^ 32)
    (hpc : min count (c.stackcachebasevma - vma) = pc)
    (hk : cachedCount c (vma + pc) (count - pc) = k)
    (hu : uncachedCount ((vma + pc + k) % 2 ^ 32) (count - pc - k) = u) :
    uncachedCount vma pc = pc ∧
      k = min (count - pc) (c.stackcachebasevma + c.scovlimit - (vma + pc)) ∧
      u ≤ count - pc - k ∧ reachedCount c vma count = pc + k + u := by
  have hbase := c.base_lt
  have htop := c.limit_lt
  have hbelow : uncachedCount vma pc = pc := by
    unfold uncachedCount
    omega
  have hcached : k = min (count - pc) (c.stackcachebasevma + c.scovlimit - (vma + pc)) := by
    rw [← hk]
    unfold cachedCount
    split <;> omega
  refine ⟨hbelow, hcached, ?_, ?_⟩
  · rw [← hu]
    unfold uncachedCount
    omega
  · rw [← hu]
    unfold reachedCount uncachedCount
    split <;> omega

/-- A block is read as far as it is reached. -/
theorem virtualMemoryReadBlock_eq (hpos : 0 < vma + count) (hvma : vma < 2 ^ 32)
    (hend : vma + count ≤ 2 ^ 32) :
    virtualMemoryReadBlock c s vma count chunk = fun i =>
      if i < reachedCount c vma count then virtualMemoryRead c s (vma + i) else chunk i := by
  have hbase := c.base_lt
  have htop := c.limit_lt
  unfold virtualMemoryReadBlock
  dsimp only
  rw [belowCount_eq hpos hend, readCached_eq (Nat.mod_lt _ (by decide)) (by omega)]
  dsimp only
  generalize hpc : min count (c.stackcachebasevma - vma) = pc
  have hlt : vma + pc < 2 ^ 32 := by omega
  rw [Nat.mod_eq_of_lt hlt]
  generalize hk : cachedCount c (vma + pc) (count - pc) = k
  generalize hu : uncachedCount ((vma + pc + k) % 2 ^ 32) (count - pc - k) = u
  obtain ⟨hbelow, hcached, hrest, hreached⟩ := block_parts hvma hend hpc hk hu
  funext i
  rw [hreached]
  unfold readBlockUncached
  dsimp only
  rw [hbelow, hu]
  by_cases hfirst : i < pc
  · rw [if_neg (by omega), if_neg (by omega), if_pos (by omega), if_pos (by omega),
      virtualMemoryRead_outside (by omega) (by omega), Nat.sub_zero]
  · by_cases hsecond : i < pc + k
    · rw [if_neg (by omega), if_pos (by omega), if_pos (by omega)]
      congr 1
      omega
    · by_cases hthird : i < pc + k + u
      · rw [if_pos (by omega), if_pos hthird, virtualMemoryRead_outside (by omega) (by omega)]
        congr 1
        omega
      · rw [if_neg (by omega), if_neg (by omega), if_neg (by omega), if_neg hthird]

theorem virtualMemoryWriteBlock_eq (hpos : 0 < vma + count) (hvma : vma < 2 ^ 32)
    (hend : vma + count ≤ 2 ^ 32) :
    virtualMemoryWriteBlock c s vma count chunk =
      s.fill c vma (reachedCount c vma count) chunk := by
  have hbase := c.base_lt
  have htop := c.limit_lt
  unfold virtualMemoryWriteBlock
  dsimp only
  rw [belowCount_eq hpos hend, writeCached_eq (Nat.mod_lt _ (by decide)) (by omega)]
  dsimp only
  generalize hpc : min count (c.stackcachebasevma - vma) = pc
  have hlt : vma + pc < 2 ^ 32 := by omega
  rw [Nat.mod_eq_of_lt hlt]
  generalize hk : cachedCount c (vma + pc) (count - pc) = k
  generalize hu : uncachedCount ((vma + pc + k) % 2 ^ 32) (count - pc - k) = u
  obtain ⟨hbelow, hcached, hrest, hreached⟩ := block_parts hvma hend hpc hk hu
  have hfirst : writeBlockUncached s vma pc 0 chunk = s.fill c vma pc chunk := by
    have h := @writeBlockUncached_eq c s vma pc chunk 0 (by omega) (by omega)
    rw [h, hbelow]
    simp only [Nat.zero_add]
  have hsecond : (s.fill c vma pc chunk).fill c (vma + pc) k
      (fun i => chunk (pc + i)) = s.fill c vma (pc + k) chunk :=
    Words.fill_next (by omega)
  have hthird : ∀ s', writeBlockUncached s' ((vma + pc + k) % 2 ^ 32) (count - pc - k)
      (pc + k) chunk = s'.fill c ((vma + pc + k) % 2 ^ 32) u
        fun i => chunk (pc + k + i) := by
    intro s'
    rw [← hu]
    exact @writeBlockUncached_eq c s' _ _ chunk (pc + k) (by omega) (by omega)
  rw [hfirst, hsecond, hthird, hreached]
  exact @Words.fill_next c s vma chunk (pc + k) u _ (by omega)

end VM
