import Mathlib
import OsxVlm.Library.Execution
import OsxVlm.Library.Ring
import OsxVlm.Queue.EmbQueue
import OsxVlm.Queue.Fifo

/-!
# Wake-ups of a sleeping consumer

A put signals when the take index still is the put index it started from.  For
one element that index is where the consumer found the queue empty.  A put of
several elements tests only after its last block: when the consumer took an
earlier block and then slept, no signal is sent for the blocks that follow.
-/

namespace Queue

open Ring

variable {α : Type*}

/-- The producer has returned, the queue holds elements, and the consumer sleeps
without a signal since it found the queue empty. -/
def Lost (s : State α) : Prop :=
  s.producer = .idle ∧ s.queue.putIndex ≠ s.queue.takeIndex ∧ s.consumer = .empty false

/-- Where a put of several elements started that now publishes a block. -/
def Producer.publishes : Producer α → Option Nat
  | .copy original _ chunk copied _ =>
      if 0 < chunk.length ∧ chunk.length ≤ copied then some original else none
  | _ => none

/-- A block is published to a consumer that sleeps without a signal only by a put
that started where it sleeps. -/
def Woken (s : State α) : Event α → Prop
  | .producer =>
      s.consumer = .empty false → ∀ original, s.producer.publishes = some original →
        original = s.queue.takeIndex
  | _ => True

/-- The producer will find the take index where its put started. -/
def Producer.Armed (take : Nat) : Producer α → Prop
  | .loop original _ _ => original = take
  | .copy original _ _ _ _ => original = take
  | .check original => original = take
  | _ => False

/-- A put of one element started from the index that it has not stored yet. -/
def Producer.Started (put : Nat) : Producer α → Prop
  | .wait original _ _ => original = put
  | .store original _ _ => original = put
  | _ => True

/-- A consumer that sleeps without a signal sleeps on an empty queue, or the
producer is going to signal. -/
structure Awake (s : State α) : Prop where
  started : s.producer.Started s.queue.putIndex
  armed : s.consumer = .empty false →
    s.queue.putIndex = s.queue.takeIndex ∨ s.producer.Armed s.queue.takeIndex

theorem Awake.not_lost {s : State α} (h : Awake s) : ¬Lost s := by
  intro hlost
  obtain ⟨hidle, hne, hasleep⟩ := hlost
  have harmed := h.armed hasleep
  rw [hidle] at harmed
  cases harmed with
  | inl heq => exact hne heq
  | inr harmed => exact harmed

/-- A consumer that is not asleep needs no signal. -/
theorem Awake.of_awake {s : State α} (hstarted : s.producer.Started s.queue.putIndex)
    (h : s.consumer ≠ .empty false) : Awake s :=
  ⟨hstarted, fun hasleep => absurd hasleep h⟩

section Step

variable {s : State α}

theorem Consumer.signal_ne_asleep (c : Consumer) : c.signal ≠ .empty false := by
  cases c with
  | empty signalled =>
      intro h
      cases h
  | _ => exact Consumer.noConfusion

namespace Awake

variable (h : Awake s)

include h

theorem producerStep {size start freed : Nat} (hs : 0 < size) (hinv : Inv size start s freed)
    (hok : Woken s .producer) : Awake s.producerStep := by
  have hprod := hinv.producer
  have hstarted := h.started
  have harmed := h.armed
  unfold State.producerStep
  dsimp only
  split
  · exact h
  · next put ep hp =>
    rw [hp] at hprod harmed
    refine ⟨?_, fun hasleep => .inl ((harmed hasleep).resolve_right id)⟩
    exact hprod.trans hinv.put_eq.symm
  · next original put ep hp =>
    rw [hp] at hstarted harmed
    split
    · exact h
    · exact ⟨hstarted, harmed⟩
  · next original put ep hp =>
    -- the index that is stored leaves the one where the consumer sleeps
    rw [hp] at hstarted harmed
    exact ⟨trivial, fun hasleep => .inr (hstarted.trans ((harmed hasleep).resolve_right id))⟩
  · next original put buffer hp =>
    rw [hp] at harmed
    split
    · exact ⟨trivial, harmed⟩
    · exact ⟨trivial, harmed⟩
  · next original put chunk copied buffer hp =>
    rw [hp] at hprod harmed
    split
    · exact ⟨trivial, harmed⟩
    · next hnone =>
      have hdone : chunk.length ≤ copied := List.getElem?_eq_none_iff.mp hnone
      refine ⟨trivial, fun hasleep => ?_⟩
      rcases Nat.eq_zero_or_pos chunk.length with hempty | hpos
      · -- an empty block leaves the put index where it was
        obtain ⟨hput, -⟩ := hprod
        have hlt : put < size := by
          rw [hput]
          exact slot_lt start hs _
        have hsame : advance s.queue put chunk.length = s.queue.putIndex := by
          unfold advance
          rw [hempty, hinv.size_eq, if_neg (by omega), hinv.put_eq]
          exact hput
        rw [hsame]
        exact harmed hasleep
      · right
        apply hok hasleep
        rw [hp]
        exact if_pos ⟨hpos, hdone⟩
  · next original hp =>
    rw [hp] at harmed
    split
    · exact .of_awake trivial s.consumer.signal_ne_asleep
    · next hne => exact ⟨trivial, fun hasleep => .inl ((harmed hasleep).resolve_right hne)⟩

theorem consumerStep : Awake s.consumerStep := by
  have hstarted := h.started
  unfold State.consumerStep
  dsimp only
  split
  · exact h
  · split
    · next heq => exact ⟨hstarted, fun _ => .inl heq⟩
    · exact .of_awake hstarted Consumer.noConfusion
  · exact .of_awake hstarted Consumer.noConfusion
  · exact .of_awake hstarted Consumer.noConfusion
  · split
    · exact .of_awake hstarted Consumer.noConfusion
    · exact .of_awake hstarted Consumer.noConfusion
  · split
    · exact .of_awake hstarted Consumer.noConfusion
    · exact .of_awake hstarted Consumer.noConfusion
  · exact h

theorem step {size start freed : Nat} (hs : 0 < size) (hinv : Inv size start s freed)
    (e : Event α) (hok : Woken s e) : Awake (s.step e) := by
  cases e with
  | put call =>
      have harmed := h.armed
      unfold State.step
      dsimp only
      split
      · next hp =>
        rw [hp] at harmed
        refine ⟨?_, fun hasleep => .inl ((harmed hasleep).resolve_right id)⟩
        cases call <;> exact trivial
      · exact h
  | take call =>
      have hstarted := h.started
      have hentered : call.enter s.queue ≠ .empty false := by
        cases call <;> exact Consumer.noConfusion
      unfold State.step
      dsimp only
      split
      · exact .of_awake hstarted hentered
      · exact .of_awake hstarted hentered
      · exact h
  | producer => exact h.producerStep hs hinv hok
  | consumer => exact h.consumerStep

end Awake

end Step

/-- **No wake-up is lost** in a run that publishes no later block of a put to a
consumer that went to sleep during that put. -/
theorem no_lost_wakeUp (q : EmbQueue α) (hq : q.putIndex < q.queueSize)
    (heq : q.takeIndex = q.putIndex) (es : List (Event α))
    (hok : Exec.Allowed State.step Woken (State.init q) es) (n : Nat) :
    ¬Lost (Exec.runTo State.step (State.init q) es n) := by
  have hrun := Exec.run_invariant (A := Woken)
    (I := fun s => Awake s ∧ ∃ freed, Inv q.queueSize q.putIndex s freed)
    (fun s e hw h => by
      obtain ⟨hawake, freed, hinv⟩ := h
      exact ⟨hawake.step (by omega) hinv e hw, hinv.step (by omega) e⟩)
    (hok.take n) ⟨.of_awake trivial Consumer.noConfusion, 0, inv_init hq heq⟩
  exact hrun.1.not_lost

/-- The consumer sleeps on the empty queue and one element is put. -/
theorem no_lost_wakeUp_sample :
    ¬Lost (Exec.runTo State.step (State.init (⟨2, 0, 0, fun _ => 0⟩ : EmbQueue Nat))
      [.take .take, .consumer, .put (.putWord 5), .producer, .producer, .producer, .producer] 7) := by
  apply no_lost_wakeUp _ (by decide) rfl
  exact ⟨trivial, trivial, trivial, nofun, nofun, nofun, nofun, trivial⟩

/-- Three bytes are put around the end of the ring.  The consumer takes the first
block, finds the queue empty and sleeps; the last byte comes without a signal. -/
theorem lost_wakeUp :
    Lost (Exec.run State.step (State.init (⟨4, 2, 2, fun _ => 0⟩ : EmbQueue Nat))
      [.put (.putBytes [7, 8, 9]),
        .producer, .producer, .producer, .producer,
        .take .takeByte, .consumer, .consumer, .consumer,
        .take .takeByte, .consumer, .consumer, .consumer,
        .take .takeByte, .consumer,
        .producer, .producer, .producer, .producer, .producer]) :=
  ⟨rfl, by decide, rfl⟩

end Queue
