import Mathlib
import OsxVlm.Memory.Blocks
import OsxVlm.World.IvoryPage

/-!
# Copying a piece of memory

A load map entry copies words one after the other, so that a copy to an address a
little behind its source repeats the first words.  The loader copies chunks, none
longer than the distance of the two.
-/

namespace VM

variable {c : StackCache} {s : Words} {to_ from_ count : Nat} {chunk : Nat → LispObj}

/-- Word by word. -/
def copyWords (c : StackCache) (count to_ from_ : Nat) (s : Words) : Words :=
  (List.range count).foldl
    (fun s i => virtualMemoryWrite c s (to_ + i) (virtualMemoryRead c s (from_ + i))) s

/-- The length of the next chunk; the distance is taken for an `int`. -/
def chunkLength (to_ from_ count : Nat) : Int :=
  let n := min count 256
  if from_ < to_ ∧ toInt32 (to_ - from_) < n then toInt32 (to_ - from_) else n

/-- `LoadMapCopyQs` with its buffer.  Behind a chunk of negative length there is no
result: the loop goes away from its end. -/
def loadMapCopyQs (c : StackCache) (to_ from_ count : Nat) (chunk : Nat → LispObj) (s : Words) :
    Option Words :=
  if _hcount : count = 0 then some s
  else
    let n := chunkLength to_ from_ count
    if _hn : 0 < n then
      let chunk := virtualMemoryReadBlock c s from_ n.toNat chunk
      let s := virtualMemoryWriteBlock c s to_ n.toNat chunk
      loadMapCopyQs c ((to_ + n.toNat) % 2 ^ 32) ((from_ + n.toNat) % 2 ^ 32) (count - n.toNat)
        chunk s
    else none
termination_by count
decreasing_by omega

/-! ### One chunk -/

theorem virtualMemoryRead_word {a : Nat} (ha : a < 2 ^ 32) (hto : to_ < 2 ^ 32) (object : LispObj) :
    virtualMemoryRead c (virtualMemoryWrite c s to_ object) a =
      if a = to_ then object else virtualMemoryRead c s a := by
  rw [@virtualMemoryWrite_eq c s to_ (fun _ => object) hto, virtualMemoryRead_fill ha]
  apply if_congr _ rfl rfl
  omega

theorem copyWords_succ (n : Nat) :
    copyWords c (n + 1) to_ from_ s =
      virtualMemoryWrite c (copyWords c n to_ from_ s) (to_ + n)
        (virtualMemoryRead c (copyWords c n to_ from_ s) (from_ + n)) := by
  unfold copyWords
  rw [List.range_succ, List.foldl_append, List.foldl_cons, List.foldl_nil]

theorem copyWords_append (n k : Nat) :
    copyWords c (n + k) to_ from_ s =
      copyWords c k (to_ + n) (from_ + n) (copyWords c n to_ from_ s) := by
  induction k with
  | zero => rfl
  | succ k ih => rw [← Nat.add_assoc, copyWords_succ, ih, copyWords_succ, Nat.add_assoc, Nat.add_assoc]

/-- Where no word is read after it was written, the words are those of the beginning. -/
theorem copyWords_eq (hto : to_ + count ≤ 2 ^ 32) (hfrom : from_ + count ≤ 2 ^ 32)
    (hapart : to_ ≤ from_ ∨ from_ + count ≤ to_) :
    copyWords c count to_ from_ s =
      s.fill c to_ count fun i => virtualMemoryRead c s (from_ + i) := by
  induction count with
  | zero => exact Words.fill_zero.symm
  | succ n ih =>
      have hword : virtualMemoryRead c (copyWords c n to_ from_ s) (from_ + n) =
          virtualMemoryRead c s (from_ + n) := by
        rw [ih (by omega) (by omega) (by omega), virtualMemoryRead_fill (by omega),
          if_neg (by omega)]
      rw [copyWords_succ, hword, ih (by omega) (by omega) (by omega), ← Words.fill_append n 1]
      exact @virtualMemoryWrite_eq c _ (to_ + n)
        (fun i => virtualMemoryRead c s (from_ + (n + i))) (by omega)

/-- Words that are written where they are leave everything as it was. -/
theorem Words.fill_self (hend : to_ + count ≤ 2 ^ 32) (h : ∀ i, i < count →
    chunk i = virtualMemoryRead c s (to_ + i)) : s.fill c to_ count chunk = s := by
  have hbase := c.base_lt
  apply Words.ext
  · funext a
    dsimp only [Words.fill]
    split
    · next hin =>
      rw [h _ (by omega), Nat.add_sub_cancel' hin.2.1]
      exact if_neg hin.1
    · rfl
  · funext k
    dsimp only [Words.fill]
    split
    · next hin =>
      rw [h _ (by omega), Nat.add_sub_cancel' hin.2.1]
      unfold virtualMemoryRead
      rw [if_pos, Nat.add_sub_cancel_left]
      rw [StackCache.contains_iff (by omega)]
      omega
    · rfl

/-- A chunk ends no later than the source of its first word is overwritten. -/
theorem chunkLength_spec (hpos : 0 < count) (hto : to_ < 2 ^ 32)
    (hdistance : to_ ≤ from_ ∨ to_ - from_ < 2 ^ 31) :
    ∃ n : Nat, chunkLength to_ from_ count = n ∧ 0 < n ∧ n ≤ count ∧
      (to_ ≤ from_ ∨ from_ + n ≤ to_) := by
  unfold chunkLength toInt32
  dsimp only
  split
  · exact ⟨to_ - from_, by omega, by omega, by omega, by omega⟩
  · exact ⟨min count 256, rfl, by omega, by omega, by omega⟩

theorem chunkLength_le : chunkLength to_ from_ count ≤ count := by
  unfold chunkLength
  dsimp only
  split <;> omega

/-- The distance is taken for a negative number. -/
theorem loadMapCopyQs_far (hpos : 0 < count) (hto : to_ < 2 ^ 32)
    (hfar : from_ + 2 ^ 31 ≤ to_) : loadMapCopyQs c to_ from_ count chunk s = none := by
  have hneg : ¬ 0 < chunkLength to_ from_ count := by
    unfold chunkLength toInt32
    dsimp only
    split <;> omega
  rw [loadMapCopyQs, dif_neg (by omega)]
  exact dif_neg hneg

/-! ### The loop -/

/-- What every chunk keeps is kept by the copy. -/
theorem loadMapCopyQs_invariant {P : Words → (Nat → LispObj) → Prop} {s' : Words}
    (hto : to_ + count ≤ 2 ^ 32) (hfrom : from_ + count ≤ 2 ^ 32)
    (hchunk : ∀ to_ from_ n s chunk, 0 < n → to_ + n ≤ 2 ^ 32 → from_ + n ≤ 2 ^ 32 → P s chunk →
      P (s.fill c to_ (reachedCount c to_ n) (virtualMemoryReadBlock c s from_ n chunk))
        (virtualMemoryReadBlock c s from_ n chunk))
    (h : loadMapCopyQs c to_ from_ count chunk s = some s') (hs : P s chunk) :
    ∃ chunk', P s' chunk' := by
  induction count using Nat.strong_induction_on generalizing to_ from_ s chunk with
  | _ count ih =>
    rw [loadMapCopyQs] at h
    split at h
    · cases h
      exact ⟨chunk, hs⟩
    · dsimp only at h
      split at h
      · next hpos =>
        have hle := @chunkLength_le to_ from_ count
        obtain ⟨n, hn⟩ := Int.eq_ofNat_of_zero_le hpos.le
        simp only [hn, Int.toNat_natCast] at h
        rw [virtualMemoryWriteBlock_eq (by omega) (by omega) (by omega)] at h
        exact ih (count - n) (by omega) (by omega) (by omega) h
          (hchunk to_ from_ n s chunk (by omega) (by omega) (by omega) hs)
      · cases h

/-- All words of a block of the range are reached. -/
def Reached (c : StackCache) (vma count : Nat) : Prop :=
  vma + count < 2 ^ 32 ∨ c.contains (2 ^ 32 - 1)

theorem Reached.reachedCount (h : Reached c vma count) {n : Nat} (hn : n ≤ count)
    (hend : vma + count ≤ 2 ^ 32) : reachedCount c vma n = n := by
  unfold VM.reachedCount
  split
  · rfl
  · obtain h | h := h
    · omega
    · rw [StackCache.contains_iff (by omega)] at h
      omega

/-- A chunk is copied like its words. -/
theorem copyChunk_eq {n : Nat} (hpos : 0 < n) (hto : to_ + n ≤ 2 ^ 32) (hfrom : from_ + n ≤ 2 ^ 32)
    (hapart : to_ ≤ from_ ∨ from_ + n ≤ to_)
    (hreached : to_ = from_ ∨ reachedCount c to_ n = n ∧ reachedCount c from_ n = n) :
    virtualMemoryWriteBlock c s to_ n (virtualMemoryReadBlock c s from_ n chunk) =
      copyWords c n to_ from_ s := by
  rw [virtualMemoryWriteBlock_eq (by omega) (by omega) hto,
    virtualMemoryReadBlock_eq (by omega) (by omega) hfrom,
    copyWords_eq hto hfrom hapart]
  obtain rfl | ⟨hto', hfrom'⟩ := hreached
  · have hle : reachedCount c to_ n ≤ n := by
      unfold reachedCount
      split <;> omega
    rw [Words.fill_self (by omega) (fun i hi => if_pos hi), Words.fill_self hto fun i _ => rfl]
  · rw [hto', hfrom']
    exact Words.fill_congr fun i hi => if_pos hi

theorem loadMapCopyQs_eq (hto : to_ + count ≤ 2 ^ 32) (hfrom : from_ + count ≤ 2 ^ 32)
    (hdistance : to_ ≤ from_ ∨ to_ - from_ < 2 ^ 31)
    (hreached : to_ = from_ ∨ Reached c (max to_ from_) count) :
    loadMapCopyQs c to_ from_ count chunk s = some (copyWords c count to_ from_ s) := by
  induction count using Nat.strong_induction_on generalizing to_ from_ s chunk with
  | _ count ih =>
    rw [loadMapCopyQs]
    split
    · next hzero =>
      subst hzero
      rfl
    · next hcount =>
      obtain ⟨n, hn, hpos, hle, hapart⟩ :=
        @chunkLength_spec to_ from_ count (by omega) (by omega) hdistance
      have hboth : to_ = from_ ∨ VM.reachedCount c to_ n = n ∧ VM.reachedCount c from_ n = n := by
        obtain heq | hreached := hreached
        · exact Or.inl heq
        · have hwhole : Reached c to_ count ∧ Reached c from_ count := by
            obtain hlt | hin := hreached
            · exact ⟨Or.inl (by omega), Or.inl (by omega)⟩
            · exact ⟨Or.inr hin, Or.inr hin⟩
          exact Or.inr ⟨hwhole.1.reachedCount hle hto, hwhole.2.reachedCount hle hfrom⟩
      simp only [hn, Int.toNat_natCast, Int.natCast_pos, hpos, dif_pos]
      rw [copyChunk_eq hpos (by omega) (by omega) hapart hboth]
      by_cases hlast : count = n
      · rw [hlast, Nat.sub_self, loadMapCopyQs, dif_pos rfl]
      · rw [Nat.mod_eq_of_lt (by omega), Nat.mod_eq_of_lt (by omega),
          ih (count - n) (by omega) (by omega) (by omega) (by omega), ← copyWords_append,
          Nat.add_sub_cancel' hle]
        obtain heq | hreached := hreached
        · exact Or.inl (by omega)
        · right
          obtain hlt | hin := hreached
          · exact Or.inl (by omega)
          · exact Or.inr hin

/-! ### The end of the address space -/

def objectZero : LispObj := ⟨0x08, 0⟩
def objectOne : LispObj := ⟨0x08, 1⟩

/-- No word below the last one of the address space is `x`. -/
def Free (c : StackCache) (x : LispObj) (s : Words) : Prop :=
  ∀ a, a < 2 ^ 32 - 1 → virtualMemoryRead c s a ≠ x

theorem lt_of_reached {n i : Nat} (htop : c.stackcachebasevma + c.scovlimit < 2 ^ 32)
    (hend : vma + n ≤ 2 ^ 32) (hi : i < reachedCount c vma n) : vma + i < 2 ^ 32 - 1 := by
  unfold reachedCount at hi
  split at hi <;> omega

/-- The last word is not read. -/
theorem loadMapCopyQs_free {x : LispObj} {s' : Words}
    (htop : c.stackcachebasevma + c.scovlimit < 2 ^ 32)
    (hto : to_ + count ≤ 2 ^ 32) (hfrom : from_ + count ≤ 2 ^ 32)
    (h : loadMapCopyQs c to_ from_ count chunk s = some s') (hs : Free c x s)
    (hchunk : ∀ i, chunk i ≠ x) : Free c x s' := by
  let P : Words → (Nat → LispObj) → Prop := fun s chunk => Free c x s ∧ ∀ i, chunk i ≠ x
  have hkeeps : ∀ to_ from_ n s chunk, 0 < n → to_ + n ≤ 2 ^ 32 → from_ + n ≤ 2 ^ 32 → P s chunk →
      P (s.fill c to_ (reachedCount c to_ n) (virtualMemoryReadBlock c s from_ n chunk))
        (virtualMemoryReadBlock c s from_ n chunk) := by
    intro to_ from_ n s chunk hpos hto hfrom hP
    have hread : ∀ i, virtualMemoryReadBlock c s from_ n chunk i ≠ x := by
      intro i
      rw [virtualMemoryReadBlock_eq (by omega) (by omega) hfrom]
      dsimp only
      split
      · next hi => exact hP.1 _ (lt_of_reached htop hfrom hi)
      · exact hP.2 i
    refine ⟨?_, hread⟩
    intro a ha
    rw [virtualMemoryRead_fill (by omega)]
    split
    · exact hread _
    · exact hP.1 a ha
  obtain ⟨chunk', hP⟩ := loadMapCopyQs_invariant hto hfrom hkeeps h ⟨hs, hchunk⟩
  exact hP.1

/-- The last word is not written. -/
theorem loadMapCopyQs_last {s' : Words} (htop : c.stackcachebasevma + c.scovlimit < 2 ^ 32)
    (hto : to_ + count ≤ 2 ^ 32) (hfrom : from_ + count ≤ 2 ^ 32)
    (h : loadMapCopyQs c to_ from_ count chunk s = some s') :
    virtualMemoryRead c s' (2 ^ 32 - 1) = virtualMemoryRead c s (2 ^ 32 - 1) := by
  let P : Words → (Nat → LispObj) → Prop := fun t _ =>
    virtualMemoryRead c t (2 ^ 32 - 1) = virtualMemoryRead c s (2 ^ 32 - 1)
  have hkeeps : ∀ to_ from_ n s chunk, 0 < n → to_ + n ≤ 2 ^ 32 → from_ + n ≤ 2 ^ 32 → P s chunk →
      P (s.fill c to_ (reachedCount c to_ n) (virtualMemoryReadBlock c s from_ n chunk))
        (virtualMemoryReadBlock c s from_ n chunk) := by
    intro to_ from_ n s chunk _ hto _ hP
    change virtualMemoryRead c _ _ = _
    rw [virtualMemoryRead_fill (by omega), if_neg]
    · exact hP
    · intro hin
      have := @lt_of_reached c to_ n (2 ^ 32 - 1 - to_) htop hto (by omega)
      omega
  obtain ⟨chunk', hP⟩ := loadMapCopyQs_invariant hto hfrom hkeeps h rfl
  exact hP

theorem copyWords_free {x : LispObj} (hto : to_ + count ≤ 2 ^ 32)
    (hfrom : from_ + count ≤ 2 ^ 32 - 1) (hs : Free c x s) :
    Free c x (copyWords c count to_ from_ s) := by
  induction count with
  | zero => exact hs
  | succ n ih =>
      have hn := ih (by omega) (by omega)
      intro a ha
      rw [copyWords_succ, virtualMemoryRead_word (by omega) (by omega)]
      split
      · exact hn _ (by omega)
      · exact hn a ha

/-- The last word of the address space is `x`, the others are not. -/
def lastWord (x y : LispObj) : Words where
  memory := fun a => if a = 2 ^ 32 - 1 then x else y
  stackcachedata := fun _ => y

theorem virtualMemoryRead_lastWord {x y : LispObj} {a : Nat}
    (htop : c.stackcachebasevma + c.scovlimit < 2 ^ 32) (ha : a < 2 ^ 32) :
    virtualMemoryRead c (lastWord x y) a = if a = 2 ^ 32 - 1 then x else y := by
  unfold virtualMemoryRead lastWord
  dsimp only
  split
  · next hin =>
    rw [StackCache.contains_iff ha] at hin
    rw [if_neg (by omega)]
  · rfl

/-! ### The copy -/

/-- Whatever memory and buffer hold, the copy is that of the single words. -/
def CopiesExactly (c : StackCache) (to_ from_ count : Nat) : Prop :=
  ∀ s chunk, loadMapCopyQs c to_ from_ count chunk s = some (copyWords c count to_ from_ s)

theorem not_copiesExactly_end (hpos : 0 < count) (hto : to_ + count ≤ 2 ^ 32)
    (hfrom : from_ + count ≤ 2 ^ 32) (hne : to_ ≠ from_)
    (hend : max to_ from_ + count = 2 ^ 32) (hout : c.contains (2 ^ 32 - 1) = false) :
    ¬ CopiesExactly c to_ from_ count := by
  intro h
  have htop' := c.limit_lt
  have hbase := c.base_lt
  have htop : c.stackcachebasevma + c.scovlimit < 2 ^ 32 := by
    by_contra hge
    have hin : c.contains (2 ^ 32 - 1) = true := by
      rw [StackCache.contains_iff (by omega)]
      omega
    rw [hin] at hout
    cases hout
  have hxy : objectOne ≠ objectZero := by decide
  have hfree : Free c objectOne (lastWord objectOne objectZero) := by
    intro a ha
    rw [virtualMemoryRead_lastWord htop (by omega), if_neg (by omega)]
    exact hxy.symm
  have hcopy := h (lastWord objectOne objectZero) fun _ => objectZero
  by_cases hlt : to_ < from_
  · -- the word that the copy ends with was not read
    apply loadMapCopyQs_free htop hto hfrom hcopy hfree (fun _ => hxy.symm) (to_ + count - 1)
      (by omega)
    rw [copyWords_eq hto hfrom (by omega), virtualMemoryRead_fill (by omega), if_pos (by omega),
      virtualMemoryRead_lastWord htop (by omega), if_pos (by omega)]
  · -- or not written
    have hlast := loadMapCopyQs_last htop hto hfrom hcopy
    rw [virtualMemoryRead_lastWord htop (by omega), if_pos rfl] at hlast
    obtain ⟨n, rfl⟩ : ∃ n, count = n + 1 := ⟨count - 1, by omega⟩
    rw [copyWords_succ, virtualMemoryRead_word (by omega) (by omega), if_pos (by omega)] at hlast
    exact copyWords_free (by omega) (by omega) hfree _ (by omega) hlast

/-- **A copy in chunks is the copy of the single words** if and only if it is empty or
onto itself, or both of this hold: the target is not 2^31 or more words behind the
source, and neither piece ends with the address space, where no stack cache is. -/
theorem loadMapCopyQs_copies_iff (c : StackCache) {to_ from_ count : Nat} (hto' : to_ < 2 ^ 32)
    (hfrom' : from_ < 2 ^ 32) (hto : to_ + count ≤ 2 ^ 32) (hfrom : from_ + count ≤ 2 ^ 32) :
    CopiesExactly c to_ from_ count ↔
      count = 0 ∨ to_ = from_ ∨
        (to_ < from_ + 2 ^ 31 ∧
          (max to_ from_ + count < 2 ^ 32 ∨ c.contains (2 ^ 32 - 1) = true)) := by
  constructor
  · intro h
    by_contra hnot
    rw [not_or, not_or, not_and_or, not_or, Bool.not_eq_true] at hnot
    obtain ⟨hcount, hne, hfar | ⟨hend, hout⟩⟩ := hnot
    · have hnone := h (lastWord objectZero objectZero) fun _ => objectZero
      rw [loadMapCopyQs_far (by omega) hto' (by omega)] at hnone
      cases hnone
    · exact not_copiesExactly_end (by omega) hto hfrom hne (by omega) hout h
  · intro h s chunk
    obtain rfl | rfl | ⟨hdistance, hreached⟩ := h
    · rw [loadMapCopyQs, dif_pos rfl]
      rfl
    · exact loadMapCopyQs_eq hto hfrom (Or.inl le_rfl) (Or.inl rfl)
    · exact loadMapCopyQs_eq hto hfrom (by omega) (Or.inr hreached)

/-- The emulator's stack cache near the end of the address space. -/
def sampleCache : StackCache where
  stackcachebasevma := 0xF8000000
  scovlimit := 896
  base_lt := by decide
  limit_lt := by decide

theorem loadMapCopyQs_sample : CopiesExactly sampleCache 0x10001 0x10000 1000 :=
  (loadMapCopyQs_copies_iff sampleCache (by decide) (by decide) (by decide) (by decide)).mpr
    (Or.inr (Or.inr ⟨by decide, Or.inl (by decide)⟩))

/-- One word is copied over half of the address space. -/
theorem loadMapCopyQs_half : ¬ CopiesExactly sampleCache 0x80000000 0 1 := by
  intro h
  have hnone := h (lastWord objectZero objectZero) fun _ => objectZero
  rw [loadMapCopyQs_far (by decide) (by decide) (by decide)] at hnone
  cases hnone

end VM
