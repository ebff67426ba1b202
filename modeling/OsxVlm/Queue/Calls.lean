import Mathlib
import OsxVlm.Library.Execution
import OsxVlm.Library.Ring
import OsxVlm.Queue.EmbQueue

/-!
# The routines of a word queue as whole calls

Where only one party moves, a routine runs from its first load to its last
store.  `Holds q l` says that the elements between the take and the put index
are those of `l`; each routine is described by what it does to that list.
-/

namespace Queue

open Ring

variable {α : Type*}

/-- `EmbQueueSpace`. -/
def space (q : EmbQueue α) : Int :=
  if q.putIndex < q.takeIndex then q.takeIndex - q.putIndex - 1
  else q.takeIndex - q.putIndex - 1 + q.queueSize

/-- `EmbQueueFilled`. -/
def filled (q : EmbQueue α) : Int :=
  if q.takeIndex ≤ q.putIndex then q.putIndex - q.takeIndex
  else q.putIndex - q.takeIndex + q.queueSize

/-- `EmbQueuePutWord`; `none` while it waits for a slot. -/
def putWord (q : EmbQueue α) (elt : α) : Option (EmbQueue α) :=
  if increment q q.putIndex = q.takeIndex then none
  else some
    { q with
      putIndex := increment q q.putIndex,
      elementArray := fun j => if j = q.putIndex then elt else q.elementArray j }

/-- `EmbQueueTakeWord`; an empty queue gives zero. -/
def takeWord [Zero α] (q : EmbQueue α) : α × EmbQueue α :=
  if q.putIndex = q.takeIndex then (0, q)
  else (q.elementArray q.takeIndex, { q with takeIndex := increment q q.takeIndex })

/-- The queue holds the elements `l`. -/
structure Holds (q : EmbQueue α) (l : List α) : Prop where
  take_lt : q.takeIndex < q.queueSize
  room : l.length < q.queueSize
  put_eq : q.putIndex = slot q.queueSize q.takeIndex l.length
  held : ∀ j a, l[j]? = some a → q.elementArray (slot q.queueSize q.takeIndex j) = a

variable {q : EmbQueue α} {l : List α}

theorem increment_eq (h : q.takeIndex < q.queueSize) (n : Nat) :
    increment q (slot q.queueSize q.takeIndex n) = slot q.queueSize q.takeIndex (n + 1) := by
  have hlt := slot_lt q.takeIndex (by omega : 0 < q.queueSize) n
  unfold increment
  split
  · exact (slot_add_wrap (by omega)).symm
  · exact (slot_add (by omega)).symm

/-- How far the put index is ahead of the take index. -/
theorem Holds.distance (h : Holds q l) :
    q.putIndex = q.takeIndex + l.length ∧ q.takeIndex + l.length < q.queueSize ∨
      q.putIndex + q.queueSize = q.takeIndex + l.length ∧
        q.queueSize ≤ q.takeIndex + l.length := by
  have hpos : 0 < q.queueSize := by have := h.take_lt; omega
  have hdist := slot_distance q.takeIndex hpos (m := 0) (d := l.length) h.room
  rw [Nat.zero_add, slot_zero h.take_lt, ← h.put_eq] at hdist
  exact hdist

theorem Holds.filled_eq (h : Holds q l) : filled q = l.length := by
  have hdist := h.distance
  have hroom := h.room
  have htake := h.take_lt
  unfold filled
  split <;> omega

theorem Holds.space_eq (h : Holds q l) : space q = q.queueSize - 1 - l.length := by
  have hdist := h.distance
  have hroom := h.room
  have htake := h.take_lt
  unfold space
  split <;> omega

/-- An empty ring. -/
theorem Holds.empty (htake : q.takeIndex < q.queueSize) (hput : q.putIndex = q.takeIndex) :
    Holds q [] where
  take_lt := htake
  room := Nat.zero_lt_of_lt htake
  put_eq := by rw [hput, List.length_nil, slot_zero htake]
  held := by simp

theorem putWord_queueSize {q' : EmbQueue α} {a : α} (hput : putWord q a = some q') :
    q'.queueSize = q.queueSize := by
  unfold putWord at hput
  split at hput
  · cases hput
  · cases hput
    rfl

theorem takeWord_queueSize [Zero α] : (takeWord q).2.queueSize = q.queueSize := by
  unfold takeWord
  split <;> rfl

/-- A put into a full queue waits. -/
theorem Holds.putWord_full (h : Holds q l) (hfull : l.length + 1 = q.queueSize) (a : α) :
    putWord q a = none := by
  have hput : increment q q.putIndex = q.takeIndex := by
    rw [h.put_eq, increment_eq h.take_lt, hfull]
    have hwrap : slot q.queueSize q.takeIndex (0 + q.queueSize) = slot q.queueSize q.takeIndex 0 :=
      slot_add_size 0
    rwa [Nat.zero_add, slot_zero h.take_lt] at hwrap
  unfold putWord
  rw [if_pos hput]

/-- A put into a queue with room adds the element at the end. -/
theorem Holds.putWord (h : Holds q l) (hroom : l.length + 1 < q.queueSize) (a : α) :
    ∃ q', putWord q a = some q' ∧ Holds q' (l ++ [a]) := by
  have hput : increment q q.putIndex = slot q.queueSize q.takeIndex (l.length + 1) := by
    rw [h.put_eq, increment_eq h.take_lt]
  have hne : increment q q.putIndex ≠ q.takeIndex := by
    have hslot : slot q.queueSize q.takeIndex 0 ≠ slot q.queueSize q.takeIndex (l.length + 1) :=
      slot_ne (by omega) (by omega)
    rw [slot_zero h.take_lt] at hslot
    rw [hput]
    exact hslot.symm
  refine ⟨_, if_neg hne, ?_⟩
  constructor
  case take_lt => exact h.take_lt
  case room => simpa using hroom
  case put_eq => simpa using hput
  case held =>
    intro j b hj
    show (if slot q.queueSize q.takeIndex j = q.putIndex then a else _) = b
    rcases Nat.lt_trichotomy j l.length with hlt | heq | hgt
    · have hold : l[j]? = some b := by rwa [List.getElem?_append_left hlt] at hj
      have hslot : slot q.queueSize q.takeIndex j ≠ slot q.queueSize q.takeIndex l.length :=
        slot_ne hlt (by omega)
      rw [if_neg (by rw [h.put_eq]; exact hslot)]
      exact h.held j b hold
    · subst heq
      rw [if_pos h.put_eq.symm]
      simpa using hj
    · rw [List.getElem?_eq_none (by simp; omega)] at hj
      cases hj

/-- A put that went through found room. -/
theorem Holds.of_putWord {q' : EmbQueue α} {a : α} (h : Holds q l)
    (hput : Queue.putWord q a = some q') : l.length + 1 < q.queueSize ∧ Holds q' (l ++ [a]) := by
  have hroom := h.room
  rcases Nat.lt_or_ge (l.length + 1) q.queueSize with hlt | hge
  · obtain ⟨q₁, hq₁, hholds⟩ := h.putWord hlt a
    rw [hput] at hq₁
    cases hq₁
    exact ⟨hlt, hholds⟩
  · rw [h.putWord_full (by omega) a] at hput
    cases hput

theorem Holds.takeWord_nil [Zero α] (h : Holds q []) : takeWord q = (0, q) := by
  have hput := h.put_eq
  rw [List.length_nil, slot_zero h.take_lt] at hput
  unfold takeWord
  rw [if_pos hput]

/-- A take gives the first element and leaves the others. -/
theorem Holds.takeWord_cons [Zero α] {a : α} (h : Holds q (a :: l)) :
    (takeWord q).1 = a ∧ Holds (takeWord q).2 l := by
  have hne : q.putIndex ≠ q.takeIndex := by
    have hslot : slot q.queueSize q.takeIndex 0 ≠ slot q.queueSize q.takeIndex (a :: l).length :=
      slot_ne (by simp) (by have := h.room; omega)
    rw [slot_zero h.take_lt] at hslot
    rw [h.put_eq]
    exact hslot.symm
  have hpos : 0 < q.queueSize := by have := h.take_lt; omega
  have hinc : increment q q.takeIndex = slot q.queueSize q.takeIndex 1 := by
    rw [← increment_eq h.take_lt 0, slot_zero h.take_lt]
  have hnext : ∀ j, slot q.queueSize (increment q q.takeIndex) j =
      slot q.queueSize q.takeIndex (j + 1) := by
    intro j
    rw [hinc]
    unfold slot
    rw [Nat.mod_add_mod, Nat.add_assoc, Nat.add_comm 1 j]
  unfold takeWord
  rw [if_neg hne]
  refine ⟨?_, ?_⟩
  · have := h.held 0 a rfl
    rwa [slot_zero h.take_lt] at this
  · constructor
    case take_lt =>
      rw [hinc]
      exact slot_lt _ hpos 1
    case room =>
      have := h.room
      simp only [List.length_cons] at this ⊢
      omega
    case put_eq =>
      rw [hnext]
      exact h.put_eq
    case held =>
      intro j b hj
      rw [hnext]
      exact h.held (j + 1) b (by simpa using hj)

/-! ### A queue and the words that went through it -/

/-- The words `put` have been put into the queue and `took` taken from it. -/
def Carries (q : EmbQueue α) (put took : List α) : Prop := ∃ l, Holds q l ∧ put = took ++ l

variable {put took : List α}

theorem Holds.carries (h : Holds q l) : Carries q l [] := ⟨l, h, rfl⟩

theorem Carries.isPrefix (h : Carries q put took) : took <+: put := by
  obtain ⟨l, -, hput⟩ := h
  exact ⟨l, hput.symm⟩

theorem Carries.putWord {q' : EmbQueue α} {a : α} (h : Carries q put took)
    (hput : Queue.putWord q a = some q') : Carries q' (put ++ [a]) took := by
  obtain ⟨l, hholds, rfl⟩ := h
  exact ⟨l ++ [a], (hholds.of_putWord hput).2, by rw [List.append_assoc]⟩

/-- Where there is space a put does not wait. -/
theorem Carries.putWord_space (h : Carries q put took) (hspace : space q ≠ 0) (a : α) :
    ∃ q', Queue.putWord q a = some q' ∧ Carries q' (put ++ [a]) took := by
  obtain ⟨l, hholds, -⟩ := id h
  have heq := hholds.space_eq
  have hroom := hholds.room
  obtain ⟨q', hq', -⟩ := hholds.putWord (by omega) a
  exact ⟨q', hq', h.putWord hq'⟩

theorem Carries.takeWord [Zero α] (h : Carries q put took) (hfilled : filled q ≠ 0) :
    Carries (Queue.takeWord q).2 put (took ++ [(Queue.takeWord q).1]) := by
  obtain ⟨l, hholds, rfl⟩ := h
  cases l with
  | nil => exact absurd hholds.filled_eq hfilled
  | cons a l =>
      obtain ⟨ha, hrest⟩ := hholds.takeWord_cons
      exact ⟨l, hrest, by simp [ha]⟩

theorem Carries.takeWord_empty [Zero α] (h : Carries q put took) (hfilled : filled q = 0) :
    Queue.takeWord q = (0, q) := by
  obtain ⟨l, hholds, -⟩ := h
  cases l with
  | nil => exact hholds.takeWord_nil
  | cons a l =>
      have := hholds.filled_eq
      simp only [List.length_cons] at this
      omega

/-- A take makes space. -/
theorem Carries.space_takeWord [Zero α] (h : Carries q put took) (hfilled : filled q ≠ 0) :
    space (Queue.takeWord q).2 ≠ 0 := by
  obtain ⟨l, hholds, -⟩ := h
  cases l with
  | nil => exact absurd hholds.filled_eq hfilled
  | cons a l =>
      obtain ⟨-, hrest⟩ := hholds.takeWord_cons
      have heq := hrest.space_eq
      have hroom := hholds.room
      rw [takeWord_queueSize] at heq
      simp only [List.length_cons] at hroom
      omega

/-! ### The calls are the steps of an undisturbed party -/

/-- The producer's steps, one after the other, come to the call. -/
theorem run_putWord {s : State α} {q' : EmbQueue α} {a : α} (hidle : s.producer = .idle)
    (hput : putWord s.queue a = some q') :
    (Exec.run State.step s [.put (.putWord a), .producer, .producer, .producer]).queue = q' := by
  unfold putWord at hput
  split at hput
  · cases hput
  · next hne =>
      cases hput
      simp [State.step, hidle, PutCall.enter, putOne, State.producerStep, EmbQueue.setElement, hne]

/-- The consumer's steps come to the call. -/
theorem run_takeWord [Zero α] {s : State α} (hidle : s.consumer = .idle) :
    (Exec.run State.step s [.take .takeWord, .consumer, .consumer, .consumer]).queue =
      (takeWord s.queue).2 := by
  by_cases heq : s.queue.putIndex = s.queue.takeIndex
  · simp [State.step, hidle, TakeCall.enter, State.consumerStep, takeWord, heq]
  · simp [State.step, hidle, TakeCall.enter, State.consumerStep, takeWord, heq]

end Queue
