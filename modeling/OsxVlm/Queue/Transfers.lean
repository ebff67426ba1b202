import Mathlib
import OsxVlm.Library.Ring
import OsxVlm.Queue.EmbQueue
import OsxVlm.Queue.Calls

/-!
# Transferring multiple queue elements at a time

The loops of `EmbQueuePutBytes`, `EmbQueuePutWords`, `EmbQueueTakeBytes` and
`EmbQueueTakeWords` while the other party stands still.  A pass moves one
contiguous block.  A loop ends when nothing is left of its length; on a queue
that is full, or empty, a block has no elements and the next pass finds what
this one found.
-/

namespace Queue

open Ring

variable {α : Type*}

/-- What a call that puts leaves and returns. -/
structure PutReturn (α : Type*) where
  queue : EmbQueue α
  actualLength : Nat
  /-- The queue had been empty. -/
  signal : Bool

/-- What a call that takes leaves, in the queue and in its buffer, and returns. -/
structure TakeReturn (α : Type*) where
  queue : EmbQueue α
  buffer : List α
  actualLength : Nat

/-- `memcpy` of `chunk` to the elements from `put` on. -/
def EmbQueue.copyIn (q : EmbQueue α) (put : Nat) (chunk : List α) : EmbQueue α :=
  { q with
    elementArray := fun j =>
      if put ≤ j then (chunk[j - put]?).getD (q.elementArray j) else q.elementArray j }

/-- `memcpy` of the `count` elements from `take` on. -/
def EmbQueue.copyOut (q : EmbQueue α) (take count : Nat) : List α :=
  (List.range count).map fun i => q.elementArray (take + i)

/-- The loop that puts; `none` while it has not ended after `fuel` passes. -/
def putLoop : Nat → EmbQueue α → Nat → List α → Nat → Option (EmbQueue α × Nat)
  | 0, _, _, _, _ => none
  | fuel + 1, q, put, buffer, actualLength =>
      if buffer.length = 0 then some (q, actualLength)
      else
        let count := min (fillCount q put q.takeIndex) buffer.length
        let put' := advance q put count
        putLoop fuel { q.copyIn put (buffer.take count) with putIndex := put' } put'
          (buffer.drop count) (actualLength + count)

/-- The loop that takes. -/
def takeLoop : Nat → EmbQueue α → Nat → List α → Nat → Nat → Option (TakeReturn α)
  | 0, _, _, _, _, _ => none
  | fuel + 1, q, take, buffer, length, actualLength =>
      if length = 0 then some ⟨q, buffer, actualLength⟩
      else
        let count := min (drainCount q q.putIndex take) length
        let take' := advance q take count
        takeLoop fuel { q with takeIndex := take' } take' (buffer ++ q.copyOut take count)
          (length - count) (actualLength + count)

def putElements (fuel : Nat) (q : EmbQueue α) (buffer : List α) : Option (PutReturn α) :=
  (putLoop fuel q q.putIndex buffer 0).map fun r =>
    ⟨r.1, r.2, decide (q.putIndex = r.1.takeIndex)⟩

def takeElements (fuel : Nat) (q : EmbQueue α) (length : Nat) : Option (TakeReturn α) :=
  takeLoop fuel q q.takeIndex [] length 0

def embQueuePutBytes (fuel : Nat) (q : EmbQueue (BitVec 8)) (buffer : List (BitVec 8)) :
    Option (PutReturn (BitVec 8)) :=
  putElements fuel q buffer

def embQueuePutWords (fuel : Nat) (q : EmbQueue (BitVec 32)) (buffer : List (BitVec 32)) :
    Option (PutReturn (BitVec 32)) :=
  putElements fuel q buffer

def embQueueTakeBytes (fuel : Nat) (q : EmbQueue (BitVec 8)) (length : Nat) :
    Option (TakeReturn (BitVec 8)) :=
  takeElements fuel q length

def embQueueTakeWords (fuel : Nat) (q : EmbQueue (BitVec 32)) (length : Nat) :
    Option (TakeReturn (BitVec 32)) :=
  takeElements fuel q length

/-! ### What a queue with its indices in range holds -/

/-- Both indices stand in the ring. -/
structure InRange (q : EmbQueue α) : Prop where
  put_lt : q.putIndex < q.queueSize
  take_lt : q.takeIndex < q.queueSize

/-- The elements between the take and the put index. -/
def contents (q : EmbQueue α) : List α :=
  (List.range (filled q).toNat).map fun j => q.elementArray (slot q.queueSize q.takeIndex j)

variable {q : EmbQueue α} {l : List α}

theorem length_contents (q : EmbQueue α) : (contents q).length = (filled q).toNat := by
  simp [contents]

theorem Holds.contents_eq (h : Holds q l) : contents q = l := by
  have hlen := h.filled_eq
  apply List.ext_getElem?
  intro j
  rcases Nat.lt_or_ge j l.length with hj | hj
  · have hget : l[j]? = some l[j] := List.getElem?_eq_getElem hj
    have hheld := h.held j l[j] hget
    simp [contents, hlen, hj, hheld]
  · simp [contents, hlen, hj]

theorem InRange.holds (h : InRange q) : Holds q (contents q) := by
  have hput := h.put_lt
  have htake := h.take_lt
  have hlen := length_contents q
  have hpos : 0 < q.queueSize := by omega
  have hfilled : (contents q).length < q.queueSize ∧
      (q.putIndex = q.takeIndex + (contents q).length ∨
        q.putIndex + q.queueSize = q.takeIndex + (contents q).length) := by
    rw [hlen]
    unfold filled
    split <;> omega
  constructor
  case take_lt => exact htake
  case room => exact hfilled.1
  case put_eq =>
    have hdist := slot_distance q.takeIndex hpos (m := 0) hfilled.1
    rw [Nat.zero_add, slot_zero htake] at hdist
    omega
  case held =>
    intro j a hj
    simp only [contents, List.getElem?_map, Option.map_eq_some_iff] at hj
    obtain ⟨i, hi, ha⟩ := hj
    rw [List.getElem?_eq_some_iff] at hi
    obtain ⟨hlt, hi⟩ := hi
    rw [List.getElem_range] at hi
    rw [hi, ha]

theorem Holds.inRange (h : Holds q l) : InRange q where
  put_lt := by
    rw [h.put_eq]
    exact slot_lt _ (Nat.zero_lt_of_lt h.take_lt) _
  take_lt := h.take_lt

/-! ### One block -/

/-- A block that is filled in stays in front of the ring's end and of the take
index. -/
theorem Holds.fillCount_le (h : Holds q l) :
    q.putIndex + fillCount q q.putIndex q.takeIndex ≤ q.queueSize ∧
      l.length + fillCount q q.putIndex q.takeIndex < q.queueSize := by
  have hdist := h.distance
  have hroom := h.room
  have hput := h.inRange.put_lt
  have htake := h.take_lt
  unfold fillCount
  grind

/-- Nothing can be filled in only where the queue is full. -/
theorem Holds.fillCount_pos (h : Holds q l) (hfree : l.length + 1 < q.queueSize) :
    0 < fillCount q q.putIndex q.takeIndex := by
  have hdist := h.distance
  have hput := h.inRange.put_lt
  have htake := h.take_lt
  unfold fillCount
  grind

theorem advance_eq {n count : Nat}
    (hle : slot q.queueSize q.takeIndex n + count ≤ q.queueSize) :
    advance q (slot q.queueSize q.takeIndex n) count =
      slot q.queueSize q.takeIndex (n + count) := by
  unfold advance
  split
  · next heq => exact (slot_add_wrap heq).symm
  · exact (slot_add (by omega)).symm

/-- The elements of a block come behind those the queue held. -/
theorem Holds.fillBlock (h : Holds q l) (chunk : List α)
    (hle : chunk.length ≤ fillCount q q.putIndex q.takeIndex) :
    Holds { q.copyIn q.putIndex chunk with putIndex := advance q q.putIndex chunk.length }
      (l ++ chunk) := by
  obtain ⟨hend, hroom⟩ := h.fillCount_le
  have hput := h.put_eq
  constructor
  case take_lt => exact h.take_lt
  case room =>
    rw [List.length_append]
    exact lt_of_le_of_lt (Nat.add_le_add_left hle _) hroom
  case put_eq =>
    rw [List.length_append]
    show advance q q.putIndex chunk.length = _
    rw [hput]
    exact advance_eq (by rw [← hput]; omega)
  case held =>
    intro j a hj
    show (if q.putIndex ≤ slot q.queueSize q.takeIndex j then
      (chunk[slot q.queueSize q.takeIndex j - q.putIndex]?).getD
        (q.elementArray (slot q.queueSize q.takeIndex j))
      else q.elementArray (slot q.queueSize q.takeIndex j)) = a
    rcases Nat.lt_or_ge j l.length with hlt | hge
    · -- an old element stands outside of the block
      have hold : l[j]? = some a := by rwa [List.getElem?_append_left hlt] at hj
      have hheld := h.held j a hold
      split
      · next hle' =>
          have hout : ¬ slot q.queueSize q.takeIndex j - q.putIndex < chunk.length := by
            intro hin
            have hne : slot q.queueSize q.takeIndex j ≠ slot q.queueSize q.takeIndex
                (l.length + (slot q.queueSize q.takeIndex j - q.putIndex)) :=
              slot_ne (by omega) (by omega)
            rw [slot_add (by rw [← hput]; have := slot_lt q.takeIndex (Nat.zero_lt_of_lt h.take_lt) j
                             omega), ← hput] at hne
            omega
          rw [List.getElem?_eq_none (by omega), Option.getD_none, hheld]
      · exact hheld
    · have hnew : chunk[j - l.length]? = some a := by rwa [List.getElem?_append_right hge] at hj
      have hin : j - l.length < chunk.length := (List.getElem?_eq_some_iff.mp hnew).1
      have hslot : slot q.queueSize q.takeIndex j = q.putIndex + (j - l.length) := by
        have hdist := slot_distance q.takeIndex (Nat.zero_lt_of_lt h.take_lt)
          (m := l.length) (d := j - l.length) (by omega)
        rw [← hput, Nat.add_sub_cancel' hge] at hdist
        rcases hdist with hdist | hdist
        · exact hdist.1
        · -- a block that ends at the ring's end still lies inside
          omega
      rw [hslot, if_pos (Nat.le_add_right _ _), Nat.add_sub_cancel_left, hnew, Option.getD_some]

/-- A block that is taken stays in front of the ring's end and of the put index. -/
theorem Holds.drainCount_le (h : Holds q l) :
    q.takeIndex + drainCount q q.putIndex q.takeIndex ≤ q.queueSize ∧
      drainCount q q.putIndex q.takeIndex ≤ l.length := by
  have hdist := h.distance
  have htake := h.take_lt
  have hroom := h.room
  unfold drainCount
  grind

/-- Nothing can be taken only from an empty queue. -/
theorem Holds.drainCount_pos (h : Holds q l) (hne : 0 < l.length) :
    0 < drainCount q q.putIndex q.takeIndex := by
  have hdist := h.distance
  have htake := h.take_lt
  have hroom := h.room
  unfold drainCount
  grind

/-- A block that is taken has the first elements, and leaves the others. -/
theorem Holds.drainBlock (h : Holds q l) (count : Nat)
    (hle : count ≤ drainCount q q.putIndex q.takeIndex) :
    q.copyOut q.takeIndex count = l.take count ∧
      Holds { q with takeIndex := advance q q.takeIndex count } (l.drop count) := by
  obtain ⟨hend, hlen⟩ := h.drainCount_le
  have htake := h.take_lt
  have hpos : 0 < q.queueSize := Nat.zero_lt_of_lt htake
  have hzero := slot_zero htake
  have hadvance : advance q q.takeIndex count = slot q.queueSize q.takeIndex count := by
    have hadv := @advance_eq _ q 0 count (by rw [hzero]; omega)
    rwa [hzero, Nat.zero_add] at hadv
  have hshift : ∀ j, slot q.queueSize (slot q.queueSize q.takeIndex count) j =
      slot q.queueSize q.takeIndex (count + j) := by
    intro j
    unfold slot
    rw [Nat.mod_add_mod, Nat.add_assoc]
  constructor
  · apply List.ext_getElem?
    intro j
    rcases Nat.lt_or_ge j count with hj | hj
    · have hget : l[j]? = some (l.get ⟨j, by omega⟩) := List.getElem?_eq_getElem _
      have hheld := h.held j _ hget
      have hslot : slot q.queueSize q.takeIndex j = q.takeIndex + j := by
        have hadd := @slot_add q.queueSize q.takeIndex 0 j (by rw [hzero]; omega)
        rwa [hzero, Nat.zero_add] at hadd
      rw [hslot] at hheld
      rw [List.getElem?_take_of_lt hj, hget]
      simp [EmbQueue.copyOut, hj, hheld]
    · rw [List.getElem?_eq_none (by simp [EmbQueue.copyOut, hj]),
        List.getElem?_eq_none (by rw [List.length_take]; omega)]
  · rw [hadvance]
    constructor
    case take_lt => exact slot_lt _ hpos _
    case room =>
      have hroom := h.room
      rw [List.length_drop]
      exact lt_of_le_of_lt (Nat.sub_le _ _) hroom
    case put_eq =>
      show q.putIndex = slot q.queueSize (slot q.queueSize q.takeIndex count) (l.drop count).length
      rw [hshift, List.length_drop, Nat.add_sub_cancel' (by omega)]
      exact h.put_eq
    case held =>
      intro j a hj
      show q.elementArray (slot q.queueSize (slot q.queueSize q.takeIndex count) j) = a
      rw [hshift]
      exact h.held _ _ (by rwa [List.getElem?_drop] at hj)

/-! ### The loops -/

/-- Where there is room for all of the buffer, the loop ends with all of it put. -/
theorem Holds.putLoop (h : Holds q l) (buffer : List α) (fuel actualLength : Nat)
    (hfuel : buffer.length < fuel) (hroom : l.length + buffer.length < q.queueSize) :
    ∃ q', Queue.putLoop fuel q q.putIndex buffer actualLength =
        some (q', actualLength + buffer.length) ∧
      Holds q' (l ++ buffer) ∧ q'.takeIndex = q.takeIndex := by
  induction fuel generalizing q l buffer actualLength with
  | zero => omega
  | succ fuel ih =>
      rw [Queue.putLoop]
      by_cases hnil : buffer.length = 0
      · have hempty : buffer = [] := List.eq_nil_of_length_eq_zero hnil
        subst hempty
        exact ⟨q, by simp, by simpa using h, rfl⟩
      · have hpos := h.fillCount_pos (by omega)
        set count := min (fillCount q q.putIndex q.takeIndex) buffer.length with hcount
        have hchunk : (buffer.take count).length = count := by
          rw [List.length_take]
          omega
        have hblock := h.fillBlock (buffer.take count) (by omega)
        rw [hchunk] at hblock
        obtain ⟨q', hloop, hholds, htake⟩ := ih hblock (buffer.drop count)
          (actualLength + count) (by rw [List.length_drop]; omega)
          (by rw [List.length_append, hchunk, List.length_drop]
              show _ < q.queueSize
              omega)
        refine ⟨q', ?_, ?_, htake⟩
        · rw [if_neg hnil, List.length_drop] at *
          rw [hloop]
          congr 2
          omega
        · rwa [List.append_assoc, List.take_append_drop] at hholds

/-- Where there is not, it never ends. -/
theorem Holds.putLoop_none (h : Holds q l) {buffer : List α} (fuel actualLength : Nat)
    (hfull : q.queueSize ≤ l.length + buffer.length) :
    Queue.putLoop fuel q q.putIndex buffer actualLength = none := by
  induction fuel generalizing q l buffer actualLength with
  | zero => rfl
  | succ fuel ih =>
      have hroom := h.room
      obtain ⟨-, hle⟩ := h.fillCount_le
      rw [Queue.putLoop, if_neg (by omega)]
      set count := min (fillCount q q.putIndex q.takeIndex) buffer.length with hcount
      have hchunk : (buffer.take count).length = count := by
        rw [List.length_take]
        omega
      have hblock := h.fillBlock (buffer.take count) (by omega)
      rw [hchunk] at hblock
      apply ih hblock
      rw [List.length_append, hchunk, List.length_drop]
      show q.queueSize ≤ _
      omega

/-- Where there are as many elements as asked for, the loop ends with them taken. -/
theorem Holds.takeLoop (h : Holds q l) (length fuel : Nat) (buffer : List α) (actualLength : Nat)
    (hfuel : length < fuel) (hle : length ≤ l.length) :
    ∃ q', Queue.takeLoop fuel q q.takeIndex buffer length actualLength =
        some ⟨q', buffer ++ l.take length, actualLength + length⟩ ∧
      Holds q' (l.drop length) ∧ q'.putIndex = q.putIndex := by
  induction fuel generalizing q l buffer length actualLength with
  | zero => omega
  | succ fuel ih =>
      rw [Queue.takeLoop]
      by_cases hzero : length = 0
      · subst hzero
        exact ⟨q, by simp, by simpa using h, rfl⟩
      · have hpos := h.drainCount_pos (by omega)
        obtain ⟨-, hdrain⟩ := h.drainCount_le
        set count := min (drainCount q q.putIndex q.takeIndex) length with hcount
        obtain ⟨hcopy, hblock⟩ := h.drainBlock count (by omega)
        obtain ⟨q', hloop, hholds, hput⟩ := ih hblock (length - count)
          (buffer ++ q.copyOut q.takeIndex count) (actualLength + count) (by omega)
          (by rw [List.length_drop]; omega)
        have hsum : count + (length - count) = length := by omega
        refine ⟨q', ?_, ?_, hput⟩
        · rw [if_neg hzero]
          rw [hloop, hcopy, List.append_assoc, ← List.take_add, Nat.add_assoc, hsum]
        · rwa [List.drop_drop, hsum] at hholds

/-- Where there are not, it never ends. -/
theorem Holds.takeLoop_none (h : Holds q l) {length : Nat} (fuel : Nat) (buffer : List α)
    (actualLength : Nat) (hlt : l.length < length) :
    Queue.takeLoop fuel q q.takeIndex buffer length actualLength = none := by
  induction fuel generalizing q l buffer length actualLength with
  | zero => rfl
  | succ fuel ih =>
      obtain ⟨-, hdrain⟩ := h.drainCount_le
      rw [Queue.takeLoop, if_neg (by omega)]
      obtain ⟨-, hblock⟩ := h.drainBlock
        (min (drainCount q q.putIndex q.takeIndex) length) (by omega)
      apply ih hblock
      rw [List.length_drop]
      omega

/-! ### The calls -/

/-- The call ends with as much of the buffer put as there is room for. -/
def Puts (call : Nat → EmbQueue α → List α → Option (PutReturn α)) (q : EmbQueue α)
    (buffer : List α) : Prop :=
  ∃ fuel r, call fuel q buffer = some r ∧
    r.actualLength = min buffer.length (space q).toNat ∧
    contents r.queue = contents q ++ buffer.take r.actualLength ∧
    r.queue.takeIndex = q.takeIndex

/-- The call ends with as many elements taken as there are. -/
def Takes (call : Nat → EmbQueue α → Nat → Option (TakeReturn α)) (q : EmbQueue α)
    (length : Nat) : Prop :=
  ∃ fuel r, call fuel q length = some r ∧
    r.actualLength = min length (filled q).toNat ∧
    r.buffer = (contents q).take r.actualLength ∧
    contents r.queue = (contents q).drop r.actualLength ∧
    r.queue.putIndex = q.putIndex

theorem InRange.puts_iff (h : InRange q) (buffer : List α) :
    Puts putElements q buffer ↔ (buffer.length : Int) ≤ space q := by
  have hholds := h.holds
  have hspace := hholds.space_eq
  have hroom := hholds.room
  constructor
  · rintro ⟨fuel, r, hcall, -⟩
    by_contra hgt
    rw [putElements, hholds.putLoop_none fuel 0 (by omega)] at hcall
    cases hcall
  · intro hle
    obtain ⟨q', hloop, hholds', htake⟩ :=
      hholds.putLoop buffer (buffer.length + 1) 0 (by omega) (by omega)
    refine ⟨_, ⟨q', 0 + buffer.length, _⟩, by rw [putElements, hloop]; rfl, ?_, ?_, htake⟩
    · simp only
      omega
    · simpa using hholds'.contents_eq

theorem InRange.takes_iff (h : InRange q) (length : Nat) :
    Takes takeElements q length ↔ (length : Int) ≤ filled q := by
  have hholds := h.holds
  have hfilled := hholds.filled_eq
  constructor
  · rintro ⟨fuel, r, hcall, -⟩
    by_contra hgt
    rw [takeElements, hholds.takeLoop_none fuel [] 0 (by omega)] at hcall
    cases hcall
  · intro hle
    obtain ⟨q', hloop, hholds', hput⟩ :=
      hholds.takeLoop length (length + 1) [] 0 (by omega) (by omega)
    refine ⟨_, _, hloop, ?_, ?_, ?_, hput⟩
    · simp only
      omega
    · simp
    · simpa using hholds'.contents_eq

/-- The calls that put end just when the buffer fits, and those that take just when
the queue holds what they ask for. -/
theorem transfers_iff {bytes : EmbQueue (BitVec 8)} {words : EmbQueue (BitVec 32)}
    (hbytes : InRange bytes) (hwords : InRange words) (byteBuffer : List (BitVec 8))
    (wordBuffer : List (BitVec 32)) (length : Nat) :
    (Puts embQueuePutBytes bytes byteBuffer ↔ (byteBuffer.length : Int) ≤ space bytes) ∧
      (Puts embQueuePutWords words wordBuffer ↔ (wordBuffer.length : Int) ≤ space words) ∧
      (Takes embQueueTakeBytes bytes length ↔ (length : Int) ≤ filled bytes) ∧
      (Takes embQueueTakeWords words length ↔ (length : Int) ≤ filled words) :=
  ⟨hbytes.puts_iff byteBuffer, hwords.puts_iff wordBuffer, hbytes.takes_iff length,
    hwords.takes_iff length⟩

/-- Two slots, one of them filled. -/
def fullQueue (α : Type*) [Zero α] : EmbQueue α where
  queueSize := 2
  putIndex := 1
  takeIndex := 0
  elementArray := 0

theorem fullQueue_inRange (α : Type*) [Zero α] : InRange (fullQueue α) where
  put_lt := Nat.lt_succ_self 1
  take_lt := Nat.zero_lt_two

theorem transfers_iff_full :
    (Puts embQueuePutBytes (fullQueue (BitVec 8)) [] ↔ (0 : Int) ≤ space (fullQueue (BitVec 8))) ∧
      (Puts embQueuePutWords (fullQueue (BitVec 32)) [5] ↔
        (1 : Int) ≤ space (fullQueue (BitVec 32))) ∧
      (Takes embQueueTakeBytes (fullQueue (BitVec 8)) 1 ↔
        (1 : Int) ≤ filled (fullQueue (BitVec 8))) ∧
      (Takes embQueueTakeWords (fullQueue (BitVec 32)) 1 ↔
        (1 : Int) ≤ filled (fullQueue (BitVec 32))) :=
  transfers_iff (fullQueue_inRange _) (fullQueue_inRange _) [] [5] 1

/-- A byte for a full queue: the call never returns. -/
theorem put_full_never_returns :
    InRange (fullQueue (BitVec 8)) ∧
      (∀ fuel, embQueuePutBytes fuel (fullQueue (BitVec 8)) [7] = none) ∧
      ¬ Puts embQueuePutBytes (fullQueue (BitVec 8)) [7] := by
  have hholds : Holds (fullQueue (BitVec 8)) [0] := by
    have h := (fullQueue_inRange (BitVec 8)).holds
    have hcontents : contents (fullQueue (BitVec 8)) = [0] := by decide
    rwa [hcontents] at h
  have hnone : ∀ fuel, embQueuePutBytes fuel (fullQueue (BitVec 8)) [7] = none := by
    intro fuel
    unfold embQueuePutBytes putElements
    rw [hholds.putLoop_none fuel 0 (by decide)]
    rfl
  refine ⟨fullQueue_inRange _, hnone, ?_⟩
  rintro ⟨fuel, r, hcall, -⟩
  rw [hnone fuel] at hcall
  cases hcall

end Queue
