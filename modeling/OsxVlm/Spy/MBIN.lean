import Mathlib
import OsxVlm.Queue.Calls

/-!
# MBIN messages between the remote debugger and the guest

`RemoteMemorySpyLoop` hands requests to the guest in supplied buffers, and
`SendMBINBuffers` sends the guest's messages out, in another thread.  The
history, indexed by the low four bits of an id, is written by both, one store at
a time.
-/

namespace Spy

open Queue

abbrev EmbPtr := BitVec 32

def NullEmbPtr : EmbPtr := -1

/-- A word from a queue that points to a buffer. -/
def IsBuffer (p : EmbPtr) : Prop := p ≠ 0 ∧ p ≠ NullEmbPtr

instance (p : EmbPtr) : Decidable (IsBuffer p) := inferInstanceAs (Decidable (_ ∧ _))

structure HistoryEntry where
  id : BitVec 32
  acked : Bool

/-- What `RemoteMemorySpyLoop` has still to store into the history. -/
inductive Recording where
  | done
  | setId (id : BitVec 32)
  | clearAcked (id : BitVec 32)

/-- Where `SendMBINBuffers` is with the message it took. -/
inductive Sending where
  | idle
  | setId (id : BitVec 32) (bufferPtr : EmbPtr)
  | setAcked (id : BitVec 32) (bufferPtr : EmbPtr)
  | returning (bufferPtr : EmbPtr)

structure MBIN where
  /-- There is an `activeMBINChannel`, whose queues these are. -/
  active : Bool
  mbinSinValid : Bool
  history : Nat → HistoryEntry
  guestToHostQueue : EmbQueue EmbPtr
  guestToHostReturnQueue : EmbQueue EmbPtr
  hostToGuestSupplyQueue : EmbQueue EmbPtr
  hostToGuestQueue : EmbQueue EmbPtr
  recording : Recording
  sending : Sending

/-- What became of a request. -/
inductive Outcome where
  /-- Dropped without an answer. -/
  | ignored
  /-- Seen before, and acknowledged again by the host. -/
  | repeated
  /-- Copied into the buffer and put on the queue. -/
  | delivered (bufferEmbPtr : EmbPtr)
  deriving DecidableEq

/-- `historyID`. -/
def historyID (id : BitVec 32) : Nat := id.toNat % 16

def MBIN.setId (m : MBIN) (id : BitVec 32) : MBIN :=
  { m with
    history := Function.update m.history (historyID id)
      { m.history (historyID id) with id := id } }

def MBIN.setAcked (m : MBIN) (id : BitVec 32) (acked : Bool) : MBIN :=
  { m with
    history := Function.update m.history (historyID id)
      { m.history (historyID id) with acked := acked } }

/-- A request is taken up: neither seen before nor without a buffer or space. -/
def MBIN.Accepts (m : MBIN) (id : BitVec 32) : Prop :=
  m.active = true ∧ (m.history (historyID id)).id ≠ id ∧
    filled m.hostToGuestSupplyQueue ≠ 0 ∧ space m.hostToGuestQueue ≠ 0

instance (m : MBIN) (id : BitVec 32) : Decidable (m.Accepts id) :=
  inferInstanceAs (Decidable (_ ∧ _))

/-- The `rm_mbin` case of `RemoteMemorySpyLoop`, up to its stores into the history. -/
def MBIN.request (m : MBIN) (id : BitVec 32) : MBIN × Outcome :=
  if m.active = true ∧ (m.history (historyID id)).id = id then
    ({ m with mbinSinValid := true },
      if (m.history (historyID id)).acked then .repeated else .ignored)
  else if m.Accepts id then
    let bufferEmbPtr := (takeWord m.hostToGuestSupplyQueue).1
    let m' :=
      { m with
        mbinSinValid := true,
        hostToGuestSupplyQueue := (takeWord m.hostToGuestSupplyQueue).2 }
    if IsBuffer bufferEmbPtr then
      match putWord m.hostToGuestQueue bufferEmbPtr with
      | none => (m', .ignored)
      | some queue =>
          ({ m' with hostToGuestQueue := queue, recording := .setId id }, .delivered bufferEmbPtr)
    else (m', .ignored)
  else ({ m with mbinSinValid := true }, .ignored)

/-- The next store of `RemoteMemorySpyLoop` into the history. -/
def MBIN.record (m : MBIN) : MBIN :=
  match m.recording with
  | .done => m
  | .setId id => { m.setId id with recording := .clearAcked id }
  | .clearAcked id => { m.setAcked id false with recording := .done }

/-- `SendMBINBuffers` sends the message it takes. -/
def MBIN.Sends (m : MBIN) : Prop :=
  m.mbinSinValid = true ∧ IsBuffer (takeWord m.guestToHostQueue).1

instance (m : MBIN) : Decidable m.Sends := inferInstanceAs (Decidable (_ ∧ _))

/-- `SendMBINBuffers` goes on; the message it takes has the given id, and is an
acknowledgement or not. -/
def MBIN.send (m : MBIN) (isAck : Bool) (id : BitVec 32) : MBIN :=
  match m.sending with
  | .idle =>
      if filled m.guestToHostQueue = 0 then m
      else if space m.guestToHostReturnQueue = 0 then m
      else
        let bufferPtr := (takeWord m.guestToHostQueue).1
        { m with
          guestToHostQueue := (takeWord m.guestToHostQueue).2,
          sending :=
            if m.Sends ∧ isAck = true then .setId id bufferPtr else .returning bufferPtr }
  | .setId id bufferPtr => { m.setId id with sending := .setAcked id bufferPtr }
  | .setAcked id bufferPtr => { m.setAcked id true with sending := .returning bufferPtr }
  | .returning bufferPtr =>
      match putWord m.guestToHostReturnQueue bufferPtr with
      | none => m
      | some queue => { m with guestToHostReturnQueue := queue, sending := .idle }

/-- `InitializeSpy`, with no channel yet. -/
def MBIN.init (gthQ gthrQ supplyQueue queue : EmbQueue EmbPtr) : MBIN where
  active := false
  mbinSinValid := false
  history _ := ⟨0, false⟩
  guestToHostQueue := gthQ
  guestToHostReturnQueue := gthrQ
  hostToGuestSupplyQueue := supplyQueue
  hostToGuestQueue := queue
  recording := .done
  sending := .idle

/-! ### What the stores leave -/

theorem setId_history (m : MBIN) (id : BitVec 32) (n : Nat) :
    (m.setId id).history n =
      if n = historyID id then { m.history n with id := id } else m.history n := by
  unfold MBIN.setId
  by_cases h : n = historyID id
  · subst h
    simp
  · simp [h]

theorem setAcked_history (m : MBIN) (id : BitVec 32) (acked : Bool) (n : Nat) :
    (m.setAcked id acked).history n =
      if n = historyID id then { m.history n with acked := acked } else m.history n := by
  unfold MBIN.setAcked
  by_cases h : n = historyID id
  · subst h
    simp
  · simp [h]

/-- Everything a request can do. -/
theorem request_cases (m : MBIN) (id : BitVec 32) :
    (∃ supply, (m.request id).1 =
        { m with mbinSinValid := true, hostToGuestSupplyQueue := supply } ∧
      ((m.request id).2 = .ignored ∨
        (m.request id).2 = .repeated ∧ (m.history (historyID id)).id = id ∧
          (m.history (historyID id)).acked = true)) ∨
    ∃ p supply queue, m.Accepts id ∧ putWord m.hostToGuestQueue p = some queue ∧
      m.request id =
        ({ m with
            mbinSinValid := true,
            hostToGuestSupplyQueue := supply,
            hostToGuestQueue := queue,
            recording := .setId id }, .delivered p) := by
  unfold MBIN.request
  split
  · next hseen =>
    left
    refine ⟨m.hostToGuestSupplyQueue, rfl, ?_⟩
    cases hacked : (m.history (historyID id)).acked with
    | true => exact .inr ⟨by simp, hseen.2, rfl⟩
    | false => exact .inl (by simp)
  · split
    · next haccepts =>
      dsimp only
      split
      · split
        · exact .inl ⟨_, rfl, .inl rfl⟩
        · next queue hput => exact .inr ⟨_, _, queue, haccepts, hput, rfl⟩
      · exact .inl ⟨_, rfl, .inl rfl⟩
    · exact .inl ⟨_, rfl, .inl rfl⟩

/-- A request that is accepted, with a buffer in front of the supply queue, is
delivered. -/
theorem request_delivers {m : MBIN} {id : BitVec 32} {l : List EmbPtr}
    (hholds : Holds m.hostToGuestQueue l) (haccepts : m.Accepts id)
    (hbuffer : IsBuffer (takeWord m.hostToGuestSupplyQueue).1) :
    (m.request id).2 = .delivered (takeWord m.hostToGuestSupplyQueue).1 := by
  obtain ⟨queue, hput, -⟩ := hholds.carries.putWord_space haccepts.2.2.2
    (takeWord m.hostToGuestSupplyQueue).1
  have hnew : ¬ (m.active = true ∧ (m.history (historyID id)).id = id) :=
    fun hseen => haccepts.2.1 hseen.2
  unfold MBIN.request
  rw [if_neg hnew, if_pos haccepts]
  simp only [if_pos hbuffer, hput]

end Spy
