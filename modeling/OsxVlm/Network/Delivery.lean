import Mathlib
import OsxVlm.Library.Execution
import OsxVlm.Network.Channel

/-!
# Buffers are conserved, frames are lost for lack of room

Each ring carries what its producer put into it.  What a host thread has taken
and not yet put is in its hand, and it only takes where there is space to put.  A
frame is dropped at the test of the supply queue, which looks for free slots
there and not for buffers.
-/

namespace Network

open Queue

/-- The buffer the receiver is posting. -/
def Receiver.buffer : Receiver → Option EmbPtr
  | .posting netPacketPtr => some netPacketPtr
  | _ => none

/-- The frame of a call that has not decided on it. -/
def Receiver.frame : Receiver → Option (List Byte)
  | .called frame => some frame
  | .supplied frame => some frame
  | .waiting frame => some frame
  | _ => none

/-- The receiver has seen space in the receive queue. -/
def Receiver.Tested : Receiver → Prop
  | .waiting _ => True
  | .posting _ => True
  | _ => False

def Fate.buffer : Fate → Option EmbPtr
  | .posted netPacketPtr _ => some netPacketPtr
  | _ => none

def Fate.isLost : Fate → Bool
  | .lost _ _ => true
  | _ => false

@[simp] theorem buffer_posted (p : EmbPtr) (c : List Byte) : (Fate.posted p c).buffer = some p := rfl
@[simp] theorem buffer_lost (b c : Bool) : (Fate.lost b c).buffer = none := rfl
@[simp] theorem buffer_stopped : Fate.stopped.buffer = none := rfl

/-- A posted buffer holds the frame. -/
def Fate.Whole (frame : List Byte) : Fate → Prop
  | .posted _ contents => contents = frame
  | _ => True

structure Inv (s : NetChannel) : Prop where
  transmit : Carries s.guestToHostQ s.transmitted s.drained
  returns : Carries s.guestToHostReturnQ s.returned s.reclaimed
  supply : Carries s.hostToGuestSupplyQ s.supplied s.consumed
  receive : Carries s.hostToGuestQ s.posted s.received
  returnSpace : s.transmitter ≠ none → space s.guestToHostReturnQ ≠ 0
  receiveSpace : s.receiver.Tested → space s.hostToGuestQ ≠ 0
  drained_eq : s.drained.filter (· ≠ 0) = s.returned ++ s.transmitter.toList
  consumed_eq : s.consumed.filter (· ≠ 0) = s.posted ++ s.receiver.buffer.toList
  buffers_eq : s.fates.filterMap (fun x => x.2.buffer) = s.posted ++ s.receiver.buffer.toList
  given_eq : s.given = s.fates.map Prod.fst ++ s.receiver.frame.toList
  whole : ∀ x ∈ s.fates, x.2.Whole x.1
  lost_eq : s.nReceivedPacketsLost = s.fates.countP fun x => x.2.isLost
  stopped : ∀ x ∈ s.fates, x.2 = .stopped → s.receiverStop = true

variable {s : NetChannel}

theorem Inv.init {transmitQueue returnQueue supplyQueue receiveQueue : EmbQueue EmbPtr}
    (ht : Holds transmitQueue []) (hr : Holds returnQueue []) (hs : Holds supplyQueue [])
    (hv : Holds receiveQueue []) (memory : EmbPtr → EmbNetPacket) (hardwareAddress : Nat → Byte)
    (vmnetInterface : Bool) :
    Inv (.init transmitQueue returnQueue supplyQueue receiveQueue memory hardwareAddress
      vmnetInterface) where
  transmit := ht.carries
  returns := hr.carries
  supply := hs.carries
  receive := hv.carries
  returnSpace h := absurd rfl h
  receiveSpace h := h.elim
  drained_eq := rfl
  consumed_eq := rfl
  buffers_eq := rfl
  given_eq := rfl
  whole x hx := by cases hx
  lost_eq := rfl
  stopped x hx := by cases hx

/-! ### The transmitter -/

theorem Inv.writeFrame (h : Inv s) (netPacketPtr : EmbPtr) (success : Bool) :
    Inv (s.writeFrame netPacketPtr success) := by
  unfold NetChannel.writeFrame
  dsimp only
  split
  · exact { h with }
  · exact h

theorem writeFrame_transmitter (s : NetChannel) (netPacketPtr : EmbPtr) (success : Bool)
    (t : Option EmbPtr) :
    { s.writeFrame netPacketPtr success with transmitter := t } =
      { s with transmitter := t }.writeFrame netPacketPtr success := by
  unfold NetChannel.writeFrame
  dsimp only
  split <;> rfl

theorem Inv.takeTransmit (h : Inv s) (hidle : s.transmitter = none) (success : Bool) :
    Inv (s.takeTransmit success) := by
  have hdrained := h.drained_eq
  rw [hidle, Option.toList_none, List.append_nil] at hdrained
  unfold NetChannel.takeTransmit
  split
  · exact h
  · next hfilled =>
    split
    · exact h
    · next hspace =>
      have htaken := h.transmit.takeWord hfilled
      dsimp only
      split
      · next hzero =>
        have hsame : (s.drained ++ [(takeWord s.guestToHostQ).1]).filter (· ≠ 0) =
            s.returned ++ s.transmitter.toList := by
          rw [List.filter_append, hzero, hdrained, hidle]
          simp
        exact { h with transmit := htaken, drained_eq := hsame }
      · next hne =>
        have hmore : (s.drained ++ [(takeWord s.guestToHostQ).1]).filter (· ≠ 0) =
            s.returned ++ [(takeWord s.guestToHostQ).1] := by
          have hkept : (takeWord s.guestToHostQ).1 ≠ 0#32 := hne
          rw [List.filter_append, hdrained]
          simp [hkept]
        rw [writeFrame_transmitter]
        apply Inv.writeFrame
        exact
          { h with
            transmit := htaken,
            drained_eq := hmore,
            returnSpace := fun _ => hspace }

/-- The buffer being returned finds room. -/
theorem Inv.putReturn (h : Inv s) {netPacketPtr : EmbPtr}
    (hheld : s.transmitter = some netPacketPtr) :
    Inv (s.putReturn netPacketPtr) ∧ (s.putReturn netPacketPtr).transmitter = none := by
  have hspace : space s.guestToHostReturnQ ≠ 0 := h.returnSpace (by rw [hheld]; simp)
  obtain ⟨q, hput, hcarries⟩ := h.returns.putWord_space hspace netPacketPtr
  have hdrained := h.drained_eq
  rw [hheld] at hdrained
  unfold NetChannel.putReturn
  rw [hput]
  refine ⟨?_, rfl⟩
  exact
    { h with
      returns := hcarries,
      returnSpace := fun hne => absurd rfl hne,
      drained_eq := by simpa using hdrained }

/-! ### The receiver -/

/-- A frame that is dropped leaves the buffers alone. -/
theorem Inv.lose (h : Inv s) {frame : List Byte} (hframe : s.receiver.frame = some frame) :
    Inv (s.lose frame) := by
  have hbuffer : s.receiver.buffer = none := by
    revert hframe
    cases s.receiver <;> simp [Receiver.frame, Receiver.buffer]
  have hconsumed := h.consumed_eq
  have hbuffers := h.buffers_eq
  have hgiven := h.given_eq
  rw [hbuffer] at hconsumed hbuffers
  rw [hframe] at hgiven
  unfold NetChannel.lose
  exact
    { h with
      receiveSpace := fun ht => ht.elim,
      consumed_eq := hconsumed,
      buffers_eq := by simpa [List.filterMap_cons, Receiver.buffer] using hbuffers,
      given_eq := by simpa [Receiver.frame] using hgiven,
      whole := by
        intro x hx
        rcases List.mem_append.mp hx with hx | hx
        · exact h.whole x hx
        · obtain rfl := List.mem_singleton.mp hx
          trivial,
      lost_eq := by simp [h.lost_eq, Fate.isLost],
      stopped := by
        intro x hx hstopped
        rcases List.mem_append.mp hx with hx | hx
        · exact h.stopped x hx hstopped
        · obtain rfl := List.mem_singleton.mp hx
          cases hstopped }

/-- The words that came out of the supply queue at a take. -/
theorem Inv.askSupply (h : Inv s) :
    Carries (takeWord s.hostToGuestSupplyQ).2 s.supplied
      (if filled s.hostToGuestSupplyQ = 0 then s.consumed
        else s.consumed ++ [(takeWord s.hostToGuestSupplyQ).1]) ∧
      (if filled s.hostToGuestSupplyQ = 0 then s.consumed
        else s.consumed ++ [(takeWord s.hostToGuestSupplyQ).1]).filter (· ≠ 0) =
        if (takeWord s.hostToGuestSupplyQ).1 = 0 then s.consumed.filter (· ≠ 0)
        else s.consumed.filter (· ≠ 0) ++ [(takeWord s.hostToGuestSupplyQ).1] := by
  by_cases hfilled : filled s.hostToGuestSupplyQ = 0
  · rw [if_pos hfilled, h.supply.takeWord_empty hfilled]
    exact ⟨h.supply, by simp⟩
  · rw [if_neg hfilled]
    refine ⟨h.supply.takeWord hfilled, ?_⟩
    rw [List.filter_append]
    split
    · next hzero =>
      rw [hzero]
      simp
    · next hne =>
      have hkept : (takeWord s.hostToGuestSupplyQ).1 ≠ 0#32 := hne
      simp [hkept]

theorem Inv.askBuffer (h : Inv s) {frame : List Byte} (hwaiting : s.receiver = .waiting frame) :
    Inv (s.askBuffer frame) := by
  have hconsumed := h.consumed_eq
  have hbuffers := h.buffers_eq
  have hgiven := h.given_eq
  have hspace := h.receiveSpace (by rw [hwaiting]; trivial)
  rw [hwaiting] at hconsumed hbuffers hgiven
  simp only [Receiver.buffer, Receiver.frame, Option.toList_none, Option.toList_some,
    List.append_nil] at hconsumed hbuffers hgiven
  obtain ⟨hsupply, hwords⟩ := h.askSupply
  unfold NetChannel.askBuffer
  dsimp only
  split
  · next hzero =>
    rw [if_pos hzero, hconsumed] at hwords
    split
    · next hstop =>
      exact
        { h with
          supply := hsupply,
          receiveSpace := fun ht => ht.elim,
          consumed_eq := by simpa [Receiver.buffer] using hwords,
          buffers_eq := by simpa [List.filterMap_cons, Receiver.buffer] using hbuffers,
          given_eq := by simpa [Receiver.frame] using hgiven,
          whole := by
            intro x hx
            rcases List.mem_append.mp hx with hx | hx
            · exact h.whole x hx
            · obtain rfl := List.mem_singleton.mp hx
              trivial,
          lost_eq := by simp [h.lost_eq, Fate.isLost],
          stopped := fun _ _ _ => hstop }
    · exact
        { h with
          supply := hsupply,
          consumed_eq := by simpa [hwaiting, Receiver.buffer] using hwords }
  · next hne =>
    rw [if_neg hne, hconsumed] at hwords
    exact
      { h with
        supply := hsupply,
        receiveSpace := fun _ => hspace,
        consumed_eq := by simpa [Receiver.buffer] using hwords,
        buffers_eq := by simp [Receiver.buffer, hbuffers],
        given_eq := by simpa [Receiver.frame] using hgiven,
        whole := by
          intro x hx
          rcases List.mem_append.mp hx with hx | hx
          · exact h.whole x hx
          · obtain rfl := List.mem_singleton.mp hx
            exact copyIn_frame _ _,
        lost_eq := by simp [h.lost_eq, Fate.isLost],
        stopped := by
          intro x hx hstopped
          rcases List.mem_append.mp hx with hx | hx
          · exact h.stopped x hx hstopped
          · obtain rfl := List.mem_singleton.mp hx
            cases hstopped }

/-- The filled buffer finds room. -/
theorem Inv.receiverStep (h : Inv s) : Inv s.receiverStep := by
  unfold NetChannel.receiverStep
  split
  · exact h
  · next frame hcalled =>
    split
    · exact h.lose (by rw [hcalled]; rfl)
    · have hgiven := h.given_eq
      have hconsumed := h.consumed_eq
      have hbuffers := h.buffers_eq
      rw [hcalled] at hgiven hconsumed hbuffers
      exact
        { h with
          receiveSpace := fun ht => ht.elim,
          consumed_eq := hconsumed,
          buffers_eq := hbuffers,
          given_eq := hgiven }
  · next frame hsupplied =>
    split
    · exact h.lose (by rw [hsupplied]; rfl)
    · next hspace =>
      have hgiven := h.given_eq
      have hconsumed := h.consumed_eq
      have hbuffers := h.buffers_eq
      rw [hsupplied] at hgiven hconsumed hbuffers
      exact
        { h with
          receiveSpace := fun _ => hspace,
          consumed_eq := hconsumed,
          buffers_eq := hbuffers,
          given_eq := hgiven }
  · next frame hwaiting => exact h.askBuffer hwaiting
  · next netPacketPtr hposting =>
    have hspace := h.receiveSpace (by rw [hposting]; trivial)
    obtain ⟨q, hput, hcarries⟩ := h.receive.putWord_space hspace netPacketPtr
    have hgiven := h.given_eq
    have hconsumed := h.consumed_eq
    have hbuffers := h.buffers_eq
    rw [hposting] at hgiven hconsumed hbuffers
    rw [hput]
    exact
      { h with
        receive := hcarries,
        receiveSpace := fun ht => ht.elim,
        consumed_eq := by simpa [Receiver.buffer] using hconsumed,
        buffers_eq := by simpa [Receiver.buffer] using hbuffers,
        given_eq := hgiven }

/-! ### Runs -/

theorem Inv.step (h : Inv s) (e : Event) : Inv (s.step e) := by
  cases e with
  | transmit netPacketPtr =>
      simp only [NetChannel.step]
      split
      · exact h
      · next queue hput => exact { h with transmit := h.transmit.putWord hput }
  | supply netPacketPtr =>
      simp only [NetChannel.step]
      split
      · exact h
      · next queue hput => exact { h with supply := h.supply.putWord hput }
  | reclaim =>
      simp only [NetChannel.step]
      split
      · exact h
      · next hfilled =>
        exact
          { h with
            returns := h.returns.takeWord hfilled,
            returnSpace := fun _ => h.returns.space_takeWord hfilled }
  | receive =>
      simp only [NetChannel.step]
      split
      · exact h
      · next hfilled =>
        exact
          { h with
            receive := h.receive.takeWord hfilled,
            receiveSpace := fun _ => h.receive.space_takeWord hfilled }
  | write netPacketPtr packet => exact { h with }
  | transmitter success =>
      simp only [NetChannel.step]
      split
      · next hidle => exact h.takeTransmit hidle success
      · next netPacketPtr hheld => exact (h.putReturn hheld).1
  | frame frame =>
      simp only [NetChannel.step]
      split
      · next hidle =>
        have hgiven := h.given_eq
        have hconsumed := h.consumed_eq
        have hbuffers := h.buffers_eq
        rw [hidle] at hgiven hconsumed hbuffers
        exact
          { h with
            receiveSpace := fun ht => ht.elim,
            consumed_eq := hconsumed,
            buffers_eq := hbuffers,
            given_eq := by simp [hgiven, Receiver.frame] }
      · exact h
  | receiver => exact h.receiverStep
  | stop => exact { h with stopped := fun _ _ _ => rfl }

/-- Every buffer taken from the transmit queue goes to the return queue, once and
in order; only the one in the transmitter's hand is still out. -/
structure Conserved (s : NetChannel) : Prop where
  drained_prefix : s.drained <+: s.transmitted
  returned_eq : s.drained.filter (· ≠ 0) = s.returned ++ s.transmitter.toList
  reclaimed_prefix : s.reclaimed <+: s.returned
  /-- It goes out at the transmitter's next step. -/
  return_now : ∀ success, s.transmitter ≠ none → (s.step (.transmitter success)).transmitter = none

/-- Every frame, in the order of arrival, is whole in a buffer of its own from the
supply queue and posted, or counted lost, or dropped by a stop. -/
structure Delivered (s : NetChannel) : Prop where
  given_eq : s.given = s.fates.map Prod.fst ++ s.receiver.frame.toList
  whole : ∀ x ∈ s.fates, x.2.Whole x.1
  consumed_prefix : s.consumed <+: s.supplied
  consumed_eq : s.consumed.filter (· ≠ 0) = s.fates.filterMap fun x => x.2.buffer
  posted_eq : s.fates.filterMap (fun x => x.2.buffer) = s.posted ++ s.receiver.buffer.toList
  received_prefix : s.received <+: s.posted
  lost_eq : s.nReceivedPacketsLost = s.fates.countP fun x => x.2.isLost
  stopped : ∀ x ∈ s.fates, x.2 = .stopped → s.receiverStop = true

theorem Inv.conserved (h : Inv s) : Conserved s where
  drained_prefix := h.transmit.isPrefix
  returned_eq := h.drained_eq
  reclaimed_prefix := h.returns.isPrefix
  return_now := by
    intro success hne
    obtain ⟨netPacketPtr, hheld⟩ := Option.ne_none_iff_exists'.mp hne
    simp only [NetChannel.step, hheld]
    exact (h.putReturn hheld).2

theorem Inv.delivered (h : Inv s) : Delivered s where
  given_eq := h.given_eq
  whole := h.whole
  consumed_prefix := h.supply.isPrefix
  consumed_eq := h.consumed_eq.trans h.buffers_eq.symm
  posted_eq := h.buffers_eq
  received_prefix := h.receive.isPrefix
  lost_eq := h.lost_eq
  stopped := h.stopped

/-! ### Drops for lack of room -/

/-- The frame passes both tests when nothing comes between them. -/
def NetChannel.Room (s : NetChannel) : Prop :=
  space s.hostToGuestSupplyQ ≠ 0 ∧ space s.hostToGuestQ ≠ 0

/-- The test of the supply queue finds it full only when the receive queue is too. -/
def Unfilled (s : NetChannel) : Event → Prop
  | .receiver =>
      ∀ frame, s.receiver = .called frame → space s.hostToGuestSupplyQ = 0 →
        space s.hostToGuestQ = 0
  | _ => True

/-- Frames were lost only where there was no buffer or the receive queue was full,
and one more buffer does not lose a frame that has room. -/
structure LossesJustified (s : NetChannel) : Prop where
  lost : ∀ x ∈ s.fates, ∀ noBuffer receiveFull, x.2 = .lost noBuffer receiveFull →
    noBuffer = true ∨ receiveFull = true
  supply : ∀ netPacketPtr frame, s.receiver = .called frame →
    Unfilled (s.step (.supply netPacketPtr)) .receiver → s.Room →
      (s.step (.supply netPacketPtr)).Room

/-- All losses so far were justified. -/
def Losses (s : NetChannel) : Prop :=
  ∀ x ∈ s.fates, ∀ noBuffer receiveFull, x.2 = .lost noBuffer receiveFull →
    noBuffer = true ∨ receiveFull = true

theorem losses_append {t : NetChannel} {x : List Byte × Fate} (h : Losses s)
    (ht : t.fates = s.fates ++ [x])
    (hx : ∀ noBuffer receiveFull, x.2 = .lost noBuffer receiveFull →
      noBuffer = true ∨ receiveFull = true) : Losses t := by
  intro y hy
  rw [ht] at hy
  rcases List.mem_append.mp hy with hy | hy
  · exact h y hy
  · obtain rfl := List.mem_singleton.mp hy
    exact hx

theorem Losses.lose (h : Losses s) (hfull : space s.hostToGuestQ = 0) (frame : List Byte) :
    Losses (s.lose frame) := by
  apply losses_append h rfl
  rintro noBuffer receiveFull hlost
  cases hlost
  right
  exact decide_eq_true hfull

theorem Losses.receiverStep (h : Losses s) (hok : Unfilled s .receiver) :
    Losses s.receiverStep := by
  unfold NetChannel.receiverStep
  split
  · exact h
  · next frame hcalled =>
    split
    · next hfull => exact h.lose (hok frame hcalled hfull) frame
    · exact h
  · next frame hsupplied =>
    split
    · next hfull => exact h.lose hfull frame
    · exact h
  · next frame hwaiting =>
    unfold NetChannel.askBuffer
    dsimp only
    split
    · split
      · exact losses_append h rfl (by simp)
      · exact h
    · exact losses_append h rfl (by simp)
  · split
    · exact h
    · exact h

theorem fates_takeTransmit (success : Bool) : (s.takeTransmit success).fates = s.fates := by
  unfold NetChannel.takeTransmit NetChannel.writeFrame
  dsimp only
  split
  · rfl
  · split
    · rfl
    · split
      · rfl
      · split <;> rfl

theorem Losses.step (e : Event) (hok : Unfilled s e) (h : Losses s) : Losses (s.step e) := by
  cases e with
  | receiver => exact h.receiverStep hok
  | transmitter success =>
      simp only [NetChannel.step]
      split
      · unfold Losses
        rw [fates_takeTransmit]
        exact h
      · unfold NetChannel.putReturn
        split <;> exact h
  | write netPacketPtr packet => exact h
  | stop => exact h
  | _ =>
      simp only [NetChannel.step]
      split <;> exact h

/-- A guest that supplies a buffer leaves the receive queue alone. -/
theorem supply_room {netPacketPtr : EmbPtr} {frame : List Byte} (hcalled : s.receiver = .called frame)
    (hok : Unfilled (s.step (.supply netPacketPtr)) .receiver) (hroom : s.Room) :
    (s.step (.supply netPacketPtr)).Room := by
  have hsame : (s.step (.supply netPacketPtr)).hostToGuestQ = s.hostToGuestQ ∧
      (s.step (.supply netPacketPtr)).receiver = s.receiver := by
    simp only [NetChannel.step]
    split <;> exact ⟨rfl, rfl⟩
  have hreceive : space (s.step (.supply netPacketPtr)).hostToGuestQ ≠ 0 := by
    rw [hsame.1]
    exact hroom.2
  refine ⟨?_, hreceive⟩
  intro hfull
  exact hreceive (hok frame (hsame.2.trans hcalled) hfull)

def sampleRing (size : Nat) : EmbQueue EmbPtr where
  queueSize := size
  putIndex := 0
  takeIndex := 0
  elementArray _ := 0

theorem sampleRing_holds {size : Nat} (h : 0 < size) : Holds (sampleRing size) [] := .empty h rfl

/-- Rings of eight slots, with a supply ring of two. -/
def sampleChannel : NetChannel :=
  .init (sampleRing 8) (sampleRing 8) (sampleRing 2) (sampleRing 8) (fun _ => ⟨0, fun _ => 0⟩)
    (fun _ => 0) true

end Network
