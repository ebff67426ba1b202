import Mathlib
import OsxVlm.Library.Execution
import OsxVlm.Library.Ring
import OsxVlm.Queue.EmbQueue

/-!
# The queue is a lossless FIFO

Element `n` of the stream lives in slot `slot size start n`.  The put index is
the slot of the next element to publish, the take index that of the next to
free; an element stays in its slot until it is freed, and the producer only
writes slots ahead of the put index that the consumer has freed.
-/

namespace Queue

open Ring

variable {α : Type*}

/-- Elements the consumer has copied out and not yet freed. -/
def Consumer.inFlight : Consumer → Nat
  | .store _ => 1
  | .copy _ _ copied _ => copied
  | _ => 0

/-- Elements of the current call that are not yet published. -/
def Producer.pending : Producer α → List α
  | .fill _ ep => [ep]
  | .wait _ _ ep => [ep]
  | .store _ _ ep => [ep]
  | .loop _ _ buffer => buffer
  | .copy _ _ chunk _ buffer => chunk ++ buffer
  | _ => []

/-- What the producer knows when `published` elements are published and `freed`
are freed. -/
def ProducerOk (size start published freed : Nat) (q : EmbQueue α) : Producer α → Prop
  | .fill put _ => put = slot size start published
  | .wait _ put ep =>
      put = slot size start (published + 1) ∧ q.elementArray (slot size start published) = ep
  | .store _ put ep =>
      put = slot size start (published + 1) ∧ q.elementArray (slot size start published) = ep ∧
        published + 1 < freed + size
  | .loop _ put _ => put = slot size start published
  | .copy _ put chunk copied _ =>
      put = slot size start published ∧ put + chunk.length ≤ size ∧
        published + chunk.length < freed + size ∧
        ∀ k, k < copied → chunk[k]? = some (q.elementArray (put + k))
  | _ => True

def ConsumerOk (size start published freed : Nat) : Consumer → Prop
  | .read take => take = slot size start freed ∧ freed < published
  | .store take => take = slot size start (freed + 1)
  | .loop take _ => take = slot size start freed
  | .copy take count copied _ =>
      take = slot size start freed ∧ copied ≤ count ∧ take + count ≤ size ∧ freed + count ≤ published
  | _ => True

/-- The ring when the consumer has freed `freed` elements. -/
structure Inv (size start : Nat) (s : State α) (freed : Nat) : Prop where
  size_eq : s.queue.queueSize = size
  put_eq : s.queue.putIndex = slot size start s.published.length
  take_eq : s.queue.takeIndex = slot size start freed
  room : s.published.length < freed + size
  ahead : freed + s.consumer.inFlight ≤ s.published.length
  taken_eq : s.taken = s.published.take (freed + s.consumer.inFlight)
  held : ∀ j a, freed ≤ j → s.published[j]? = some a →
    s.queue.elementArray (slot size start j) = a
  offered_eq : s.offered = s.published ++ s.producer.pending
  producer : ProducerOk size start s.published.length freed s.queue s.producer
  consumer : ConsumerOk size start s.published.length freed s.consumer

section Slots

variable {size start : Nat}

theorem increment_slot {q : EmbQueue α} (hq : q.queueSize = size) (hs : 0 < size) (n : Nat) :
    increment q (slot size start n) = slot size start (n + 1) := by
  have hlt := slot_lt start hs n
  unfold increment
  rw [hq]
  split
  · exact (slot_add_wrap (by omega)).symm
  · exact (slot_add (by omega)).symm

theorem advance_slot (start : Nat) {q : EmbQueue α} (hq : q.queueSize = size) {n c : Nat}
    (h : slot size start n + c ≤ size) :
    advance q (slot size start n) c = slot size start (n + c) := by
  unfold advance
  rw [hq]
  split
  · next heq => exact (slot_add_wrap heq).symm
  · exact (slot_add (by omega)).symm

/-- A block to fill stays behind the take index and inside the ring. -/
theorem fillCount_room (start : Nat) {q : EmbQueue α} (hq : q.queueSize = size) (hs : 0 < size) {p t : Nat}
    (hle : t ≤ p) (hroom : p < t + size) :
    slot size start p + fillCount q (slot size start p) (slot size start t) ≤ size ∧
      p + fillCount q (slot size start p) (slot size start t) < t + size := by
  have hp := slot_lt start hs p
  have ht := slot_lt start hs t
  have hdist := slot_distance start hs (m := t) (d := p - t) (by omega)
  rw [Nat.add_sub_cancel' hle] at hdist
  unfold fillCount
  rw [hq]
  split
  · omega
  · split <;> omega

/-- A block to take stays behind the put index and inside the ring. -/
theorem drainCount_filled (start : Nat) {q : EmbQueue α} (hq : q.queueSize = size) (hs : 0 < size) {p t : Nat}
    (hle : t ≤ p) (hroom : p < t + size) :
    slot size start t + drainCount q (slot size start p) (slot size start t) ≤ size ∧
      t + drainCount q (slot size start p) (slot size start t) ≤ p := by
  have hp := slot_lt start hs p
  have ht := slot_lt start hs t
  have hdist := slot_distance start hs (m := t) (d := p - t) (by omega)
  rw [Nat.add_sub_cancel' hle] at hdist
  unfold drainCount
  rw [hq]
  split <;> omega

end Slots

/-! ### One step -/

theorem ConsumerOk.mono {size start p p' freed : Nat} {c : Consumer} (hle : p ≤ p')
    (h : ConsumerOk size start p freed c) : ConsumerOk size start p' freed c := by
  cases c with
  | read take => exact ⟨h.1, by have := h.2; omega⟩
  | copy take count copied length =>
      obtain ⟨htake, hcopied, hring, hcount⟩ := h
      exact ⟨htake, hcopied, hring, by omega⟩
  | _ => exact h

theorem ProducerOk.mono {size start p t t' : Nat} {q q' : EmbQueue α} {c : Producer α} (hle : t ≤ t')
    (hq : q'.elementArray = q.elementArray) (h : ProducerOk size start p t q c) :
    ProducerOk size start p t' q' c := by
  cases c with
  | wait original put ep =>
      unfold ProducerOk
      rw [hq]
      exact h
  | store original put ep =>
      obtain ⟨hput, hel, hroom⟩ := h
      refine ⟨hput, ?_, by omega⟩
      rw [hq]
      exact hel
  | copy original put chunk copied buffer =>
      obtain ⟨hput, hring, hroom, hcopied⟩ := h
      refine ⟨hput, hring, by omega, ?_⟩
      rw [hq]
      exact hcopied
  | _ => exact h

section Step

variable {size start freed : Nat} {s : State α}

namespace Inv

variable (h : Inv size start s freed)

include h

/-- A slot ahead of the put index holds no element that is not freed. -/
theorem held_setElement {n : Nat} (hle : s.published.length ≤ n) (hlt : n < freed + size) (b : α) :
    ∀ j a, freed ≤ j → s.published[j]? = some a →
      (s.queue.setElement (slot size start n) b).elementArray (slot size start j) = a := by
  intro j a hj ha
  have hjlt := (List.getElem?_eq_some_iff.mp ha).1
  have hne : slot size start j ≠ slot size start n := slot_ne (by omega) (by omega)
  unfold EmbQueue.setElement
  dsimp only
  rw [if_neg hne]
  exact h.held j a hj ha

/-- The put index passes elements that stand in their slots. -/
theorem publish (es : List α) {put : Nat} (p : Producer α)
    (hput : put = slot size start (s.published.length + es.length))
    (hroom : s.published.length + es.length < freed + size)
    (hel : ∀ k a, es[k]? = some a →
      s.queue.elementArray (slot size start (s.published.length + k)) = a)
    (hoff : s.offered = s.published ++ (es ++ p.pending))
    (hp : ProducerOk size start (s.published.length + es.length) freed s.queue p) :
    Inv size start
      { s with
        queue := { s.queue with putIndex := put },
        published := s.published ++ es,
        producer := p } freed := by
  have hlen : (s.published ++ es).length = s.published.length + es.length := List.length_append
  exact {
    size_eq := h.size_eq
    put_eq := by
      rw [hlen]
      exact hput
    take_eq := h.take_eq
    room := by
      rw [hlen]
      exact hroom
    ahead := by
      rw [hlen]
      exact h.ahead.trans (Nat.le_add_right _ _)
    taken_eq := by
      rw [List.take_append_of_le_length h.ahead]
      exact h.taken_eq
    held := by
      intro j a hj ha
      dsimp only at ha ⊢
      rcases Nat.lt_or_ge j s.published.length with hlt | hge
      · rw [List.getElem?_append_left hlt] at ha
        exact h.held j a hj ha
      · rw [List.getElem?_append_right hge] at ha
        have hat := hel _ a ha
        rw [Nat.add_sub_cancel' hge] at hat
        exact hat
    offered_eq := by
      dsimp only
      rw [List.append_assoc]
      exact hoff
    producer := by
      rw [hlen]
      exact hp.mono le_rfl rfl
    consumer := by
      rw [hlen]
      exact h.consumer.mono (Nat.le_add_right _ _) }

theorem producerStep (hs : 0 < size) : Inv size start s.producerStep freed := by
  have hprod := h.producer
  have hoff := h.offered_eq
  unfold State.producerStep
  dsimp only
  split
  · exact h
  · next put ep hp =>
    rw [hp] at hprod hoff
    obtain rfl : put = _ := hprod
    exact { h with
      held := h.held_setElement le_rfl h.room ep
      offered_eq := hoff
      producer := ⟨increment_slot h.size_eq hs _, if_pos rfl⟩ }
  · next original put ep hp =>
    rw [hp] at hprod hoff
    split
    · exact h
    · next hne =>
      obtain ⟨hput, hel⟩ := hprod
      have hroom : s.published.length + 1 < freed + size := by
        have := h.room
        by_contra hfull
        have heq : s.published.length + 1 = freed + size := by omega
        rw [heq, slot_add_size, ← h.take_eq] at hput
        exact hne hput
      exact { h with
        offered_eq := hoff
        producer := ⟨hput, hel, hroom⟩ }
  · next original put ep hp =>
    rw [hp] at hprod hoff
    obtain ⟨hput, hel, hroom⟩ := hprod
    apply h.publish [ep] (.check original) hput hroom _ hoff trivial
    intro k a ha
    cases k with
    | zero =>
        obtain rfl : ep = a := Option.some_inj.mp ha
        exact hel
    | succ k => cases ha
  · next original put buffer hp =>
    rw [hp] at hprod hoff
    obtain rfl : put = _ := hprod
    split
    · next hnil =>
      rw [hnil] at hoff
      exact { h with
        offered_eq := hoff
        producer := trivial }
    · have hcount := fillCount_room start h.size_eq hs (Nat.le_of_add_right_le h.ahead) h.room
      rw [← h.take_eq] at hcount
      obtain ⟨hring, hroom⟩ := hcount
      have hlen : ∀ n, (buffer.take n).length ≤ n := fun n => by
        rw [List.length_take]
        omega
      exact { h with
        offered_eq := by
          dsimp only [Producer.pending]
          rw [List.take_append_drop]
          exact hoff
        producer := by
          refine ⟨rfl, ?_, ?_, fun k hk => absurd hk (Nat.not_lt_zero k)⟩
          · exact (Nat.add_le_add_left (hlen _) _).trans hring
          · exact (Nat.add_le_add_left (hlen _) _).trans_lt hroom }
  · next original put chunk copied buffer hp =>
    rw [hp] at hprod hoff
    obtain ⟨rfl, hring, hroom, hcopied⟩ := hprod
    split
    · next a ha =>
      have hlt := (List.getElem?_eq_some_iff.mp ha).1
      have hslot : slot size start s.published.length + copied =
          slot size start (s.published.length + copied) := (slot_add (by omega)).symm
      exact { h with
        held := by
          rw [hslot]
          exact h.held_setElement (Nat.le_add_right _ _) (by omega) a
        offered_eq := hoff
        producer := by
          refine ⟨rfl, hring, hroom, fun k hk => ?_⟩
          unfold EmbQueue.setElement
          dsimp only
          rcases Nat.lt_succ_iff_lt_or_eq.mp hk with hk | rfl
          · rw [if_neg (by omega)]
            exact hcopied k hk
          · rw [if_pos rfl]
            exact ha }
    · next hnone =>
      have hdone : chunk.length ≤ copied := List.getElem?_eq_none_iff.mp hnone
      have hput := advance_slot start h.size_eq hring
      apply h.publish chunk (.loop original _ buffer) hput hroom _ hoff hput
      intro k a ha
      have hk := (List.getElem?_eq_some_iff.mp ha).1
      rw [slot_add (by omega)]
      exact Option.some_inj.mp ((hcopied k (by omega)).symm.trans ha)
  · next original hp =>
    rw [hp] at hprod hoff
    have hsignal : ∀ c : Consumer, c.signal.inFlight = c.inFlight := by
      intro c
      cases c <;> rfl
    have hok : ∀ {c : Consumer}, ConsumerOk size start s.published.length freed c →
        ConsumerOk size start s.published.length freed c.signal := by
      intro c hc
      cases c <;> exact hc
    split
    · exact { h with
        ahead := by
          rw [hsignal]
          exact h.ahead
        taken_eq := by
          rw [hsignal]
          exact h.taken_eq
        offered_eq := hoff
        producer := trivial
        consumer := hok h.consumer }
    · exact { h with
        offered_eq := hoff
        producer := trivial }

/-- The next element to copy out is the next of the stream. -/
theorem taken_succ (hlt : freed + s.consumer.inFlight < s.published.length) :
    s.taken ++ [s.queue.elementArray (slot size start (freed + s.consumer.inFlight))] =
      s.published.take (freed + s.consumer.inFlight + 1) := by
  have hget := List.getElem?_eq_getElem hlt
  rw [List.take_add_one, hget, h.held _ _ (Nat.le_add_right _ _) hget, h.taken_eq]
  rfl

/-- The take index passes elements that were copied out. -/
theorem free {n : Nat} {c : Consumer} (hn : freed + n ≤ s.published.length)
    (htaken : s.taken = s.published.take (freed + n)) (hc : c.inFlight = 0)
    (hok : ConsumerOk size start s.published.length (freed + n) c) :
    Inv size start
      { s with
        queue := { s.queue with takeIndex := slot size start (freed + n) },
        consumer := c } (freed + n) := by
  have hroom := h.room
  exact { h with
    take_eq := rfl
    room := by
      dsimp only
      omega
    ahead := by
      dsimp only
      rw [hc]
      exact hn
    taken_eq := by
      dsimp only
      rw [hc]
      exact htaken
    held := fun j a hj ha => h.held j a (by omega) ha
    producer := h.producer.mono (Nat.le_add_right _ _) rfl
    consumer := hok }

theorem consumerStep (hs : 0 < size) : ∃ freed', Inv size start s.consumerStep freed' := by
  have hcons := h.consumer
  have hahead := h.ahead
  have htaken := h.taken_eq
  unfold State.consumerStep
  dsimp only
  split
  · exact ⟨freed, h⟩
  · next hc =>
    rw [hc] at hcons hahead htaken
    split
    · exact ⟨freed, { h with
        ahead := hahead
        taken_eq := htaken
        consumer := trivial }⟩
    · next hne =>
      have hlt : freed < s.published.length := by
        by_contra hge
        have heq : s.published.length = freed := by
          have := h.ahead
          omega
        rw [h.put_eq, h.take_eq, heq] at hne
        exact hne rfl
      exact ⟨freed, { h with
        ahead := hahead
        taken_eq := htaken
        consumer := ⟨h.take_eq, hlt⟩ }⟩
  · next take hc =>
    rw [hc] at hcons hahead htaken
    obtain ⟨rfl, hlt⟩ := hcons
    have hnext := h.taken_succ (by rw [hc]; exact hlt)
    rw [hc] at hnext
    exact ⟨freed, { h with
      ahead := hlt
      taken_eq := hnext
      consumer := increment_slot h.size_eq hs freed }⟩
  · next take hc =>
    rw [hc] at hcons hahead htaken
    obtain rfl : take = _ := hcons
    exact ⟨freed + 1, h.free hahead htaken rfl trivial⟩
  · next take length hc =>
    rw [hc] at hcons hahead htaken
    obtain rfl : take = _ := hcons
    split
    · exact ⟨freed, { h with
        ahead := hahead
        taken_eq := htaken
        consumer := trivial }⟩
    · have hcount := drainCount_filled start h.size_eq hs (Nat.le_of_add_right_le h.ahead) h.room
      rw [← h.put_eq] at hcount
      obtain ⟨hring, hfilled⟩ := hcount
      exact ⟨freed, { h with
        ahead := hahead
        taken_eq := htaken
        consumer := by
          refine ⟨rfl, Nat.zero_le _, ?_, ?_⟩
          · exact (Nat.add_le_add_left (Nat.min_le_left _ _) _).trans hring
          · exact (Nat.add_le_add_left (Nat.min_le_left _ _) _).trans hfilled }⟩
  · next take count copied length hc =>
    rw [hc] at hcons hahead htaken
    obtain ⟨rfl, hcopied, hring, hfilled⟩ := hcons
    split
    · next hlt =>
      have hnext := h.taken_succ (by rw [hc, Consumer.inFlight]; omega)
      rw [hc, Consumer.inFlight, slot_add (by omega)] at hnext
      exact ⟨freed, { h with
        ahead := by
          dsimp only [Consumer.inFlight]
          omega
        taken_eq := hnext
        consumer := ⟨rfl, hlt, hring, hfilled⟩ }⟩
    · next hge =>
      obtain rfl : copied = count := by omega
      rw [advance_slot start h.size_eq hring]
      exact ⟨freed + copied, h.free hfilled htaken rfl rfl⟩
  · exact ⟨freed, h⟩

theorem step (hs : 0 < size) (e : Event α) : ∃ freed', Inv size start (s.step e) freed' := by
  cases e with
  | put call =>
      unfold State.step
      dsimp only
      split
      · next hp =>
        have hoff := h.offered_eq
        rw [hp] at hoff
        refine ⟨freed, { h with offered_eq := ?_, producer := ?_ }⟩
        · dsimp only
          rw [hoff, List.append_assoc]
          cases call <;> rfl
        · have hput := h.put_eq
          cases call <;> exact hput
      · exact ⟨freed, h⟩
  | take call =>
      have hahead := h.ahead
      have htaken := h.taken_eq
      have henter : ∀ call : TakeCall, (call.enter s.queue).inFlight = 0 ∧
          ConsumerOk size start s.published.length freed (call.enter s.queue) := by
        intro call
        have htake := h.take_eq
        cases call <;> first | exact ⟨rfl, trivial⟩ | exact ⟨rfl, htake⟩
      obtain ⟨hflight, hok⟩ := henter call
      unfold State.step
      dsimp only
      split
      · next hc =>
        rw [hc] at hahead htaken
        refine ⟨freed, { h with ahead := ?_, taken_eq := ?_, consumer := hok }⟩
        · dsimp only
          rw [hflight]
          exact hahead
        · dsimp only
          rw [hflight]
          exact htaken
      · next hc =>
        rw [hc] at hahead htaken
        refine ⟨freed, { h with ahead := ?_, taken_eq := ?_, consumer := hok }⟩
        · dsimp only
          rw [hflight]
          exact hahead
        · dsimp only
          rw [hflight]
          exact htaken
      · exact ⟨freed, h⟩
  | producer => exact ⟨freed, h.producerStep hs⟩
  | consumer => exact h.consumerStep hs

end Inv

end Step

/-! ### Every run -/

theorem inv_init {q : EmbQueue α} (hq : q.putIndex < q.queueSize) (heq : q.takeIndex = q.putIndex) :
    Inv q.queueSize q.putIndex (State.init q) 0 where
  size_eq := rfl
  put_eq := (slot_zero hq).symm
  take_eq := heq.trans (slot_zero hq).symm
  room := by
    change 0 < 0 + q.queueSize
    omega
  ahead := le_rfl
  taken_eq := rfl
  held := fun j a _ ha => by cases ha
  offered_eq := rfl
  producer := trivial
  consumer := trivial

/-- The slot that the producer writes in its next step. -/
def Producer.writes : Producer α → Option Nat
  | .fill put _ => some put
  | .copy _ put chunk copied _ => if copied < chunk.length then some (put + copied) else none
  | _ => none

/-- The slot of element `n` of the stream, in a queue that started as `q`. -/
def slotOf (q : EmbQueue α) (n : Nat) : Nat := slot q.queueSize q.putIndex n

theorem inv_run {q : EmbQueue α} (hq : q.putIndex < q.queueSize) (heq : q.takeIndex = q.putIndex)
    (es : List (Event α)) :
    ∃ freed, Inv q.queueSize q.putIndex (Exec.run State.step (State.init q) es) freed := by
  apply Exec.run_invariant (A := fun _ _ => True)
    (I := fun s => ∃ freed, Inv q.queueSize q.putIndex s freed)
  · rintro s e - ⟨freed, h⟩
    exact h.step (by omega) e
  · exact Exec.allowed_of_forall fun _ _ _ => trivial
  · exact ⟨0, inv_init hq heq⟩

theorem Inv.freed_le {size start freed : Nat} {s : State α} (h : Inv size start s freed) {n : Nat}
    (hle : s.taken.length ≤ n) : freed ≤ n := by
  have hlen := congrArg List.length h.taken_eq
  rw [List.length_take] at hlen
  have := h.ahead
  omega

/-- The producer only writes slots that no element is still to be taken from. -/
theorem Inv.writes_free {size start freed : Nat} {s : State α} (h : Inv size start s freed) {n : Nat}
    (hle : s.taken.length ≤ n) (hlt : n < s.published.length) :
    s.producer.writes ≠ some (slot size start n) := by
  have hroom := h.room
  have hprod := h.producer
  have hfreed := h.freed_le hle
  intro hw
  cases hp : s.producer with
  | fill put ep =>
      rw [hp] at hprod hw
      obtain rfl : put = _ := hprod
      exact slot_ne hlt (by omega) (Option.some_inj.mp hw).symm
  | copy original put chunk copied buffer =>
      rw [hp] at hprod hw
      obtain ⟨rfl, hring, hfit, -⟩ := hprod
      unfold Producer.writes at hw
      dsimp only at hw
      split at hw
      · next hcopied =>
        rw [← slot_add (by omega)] at hw
        exact slot_ne (by omega) (by omega) (Option.some_inj.mp hw).symm
      · cases hw
  | _ =>
      rw [hp] at hw
      cases hw

/-- **The queue is a lossless FIFO**: in every interleaving the elements taken
are a prefix of the elements put and these of the elements offered, of which
none is left out when the producer has returned; an element that is not taken
stands in its slot, which the producer does not write; the indices stay in
range. -/
theorem fifo (q : EmbQueue α) (hq : q.putIndex < q.queueSize) (heq : q.takeIndex = q.putIndex)
    (es : List (Event α)) :
    let s := Exec.run State.step (State.init q) es
    s.taken <+: s.published ∧ s.published <+: s.offered ∧
      (s.producer = .idle → s.published = s.offered) ∧
      (∀ n a, s.taken.length ≤ n → s.published[n]? = some a →
        s.queue.elementArray (slotOf q n) = a ∧ s.producer.writes ≠ some (slotOf q n)) ∧
      s.queue.putIndex < q.queueSize ∧ s.queue.takeIndex < q.queueSize := by
  obtain ⟨freed, h⟩ := inv_run hq heq es
  intro s
  have hs : 0 < q.queueSize := by omega
  refine ⟨?_, ⟨_, h.offered_eq.symm⟩, ?_, ?_, ?_, ?_⟩
  · rw [h.taken_eq]
    exact List.take_prefix _ _
  · intro hidle
    have hoff := h.offered_eq
    rw [hidle] at hoff
    exact ((List.append_nil _).symm.trans hoff.symm)
  · intro n a hle ha
    have hlt := (List.getElem?_eq_some_iff.mp ha).1
    exact ⟨h.held n a (h.freed_le hle) ha, h.writes_free hle hlt⟩
  · rw [h.put_eq]
    exact slot_lt _ hs _
  · rw [h.take_eq]
    exact slot_lt _ hs _

/-- A block put around the end of a queue of three slots. -/
theorem fifo_sample :
    let q : EmbQueue Nat := ⟨3, 2, 2, fun _ => 0⟩
    let es : List (Event Nat) :=
      [.put (.putWords [7, 8]), .producer, .producer, .take .take, .producer, .consumer]
    let s := Exec.run State.step (State.init q) es
    s.taken <+: s.published ∧ s.published <+: s.offered ∧
      (s.producer = .idle → s.published = s.offered) ∧
      (∀ n a, s.taken.length ≤ n → s.published[n]? = some a →
        s.queue.elementArray (slotOf q n) = a ∧ s.producer.writes ≠ some (slotOf q n)) ∧
      s.queue.putIndex < q.queueSize ∧ s.queue.takeIndex < q.queueSize :=
  fifo ⟨3, 2, 2, fun _ => 0⟩ (by decide) rfl
    [.put (.putWords [7, 8]), .producer, .producer, .take .take, .producer, .consumer]

end Queue
