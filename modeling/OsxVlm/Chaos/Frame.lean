import OsxVlm.Chaos.Conn

/-!
# What each function writes

One equation for every function of `Chaos.Conn` that returns a changed
connection: the result is the old connection with the listed fields replaced.
Everything else is unchanged, so a later proof reads any other field off by
rewriting with the equation.
-/

namespace Chaos

open ChaosConnState ChaosCloseKind

/-- Fields written by a transmission. -/
def SentOnly (k k' : ChaosConn) : Prop :=
  k' = { k with sendq := k'.sendq, lastAckSent := k'.lastAckSent, ackDueMs := k'.ackDueMs }

theorem SentOnly.refl (k : ChaosConn) : SentOnly k k := rfl

theorem SentOnly.trans {a b c : ChaosConn} (h1 : SentOnly a b) (h2 : SentOnly b c) :
    SentOnly a c := by
  unfold SentOnly at *
  rw [h2, h1]

theorem connSendUnc_sentOnly (k : ChaosConn) (opcode : Byte) (num : UShort)
    (data : List Byte) : SentOnly k (connSendUnc k opcode num data).1 := rfl

theorem connSendSts_sentOnly (k : ChaosConn) : SentOnly k (connSendSts k).1 := rfl

theorem connTransmit_sentOnly (k : ChaosConn) (s : Fin chaosRing) (nowMs : Millis) :
    SentOnly k (connTransmit k s nowMs).1 := rfl

/-- Induction along the loop of `conn_retransmit`. -/
theorem foldl_andThen {P : ChaosConn → Prop} {Q : RawSend → Prop} {f : UShort → ChaosConn → Act}
    {ns : List UShort} {k : ChaosConn}
    (hstep : ∀ n ∈ ns, ∀ k, P k → P (f n k).1 ∧ ∀ s ∈ (f n k).2, Q s) (hk : P k) :
    let r : Act := ns.foldl (fun r n => Act.andThen r (f n)) (k, [])
    P r.1 ∧ ∀ s ∈ r.2, Q s := by
  refine List.foldlRecOn (motive := fun r : Act => P r.1 ∧ ∀ s ∈ r.2, Q s) _ _ ⟨hk, by simp⟩ ?_
  intro r hr n hn
  have h := hstep n hn r.1 hr.1
  refine ⟨h.1, fun s hs => ?_⟩
  rcases List.mem_append.mp hs with hs | hs
  · exact hr.2 s hs
  · exact h.2 s hs

theorem retransmitOne_sentOnly (nowMs minAgeMs : Millis) (n : UShort) (k : ChaosConn) :
    SentOnly k (retransmitOne nowMs minAgeMs n k).1 := by
  unfold retransmitOne
  simp only
  split
  · exact .refl k
  · split
    · exact .refl k
    · exact connTransmit_sentOnly k _ nowMs

theorem connRetransmit_sentOnly (k : ChaosConn) (nowMs minAgeMs : Millis) :
    SentOnly k (connRetransmit k nowMs minAgeMs).1 :=
  (foldl_andThen (P := SentOnly k) (Q := fun _ => True)
    (fun n _ k' hk' => ⟨hk'.trans (retransmitOne_sentOnly nowMs minAgeMs n k'), fun _ _ => trivial⟩)
    (.refl k)).1

theorem SentOnly.state {k k' : ChaosConn} (h : SentOnly k k') : k'.state = k.state := by
  rw [h]

theorem connRetransmit_state (k : ChaosConn) (nowMs minAgeMs : Millis) :
    (connRetransmit k nowMs minAgeMs).1.state = k.state :=
  (connRetransmit_sentOnly k nowMs minAgeMs).state

/-- Fields written when a number is assigned and its packet sent. -/
theorem connSendControlled_frame (k : ChaosConn) (opcode : Byte) (data : List Byte)
    (nowMs : Millis) :
    let k' := (connSendControlled k opcode data nowMs).1
    k' = { k with
      sentNum := seqInc k.sentNum, sendq := k'.sendq, assigned := k'.assigned
      lastAckSent := k.readNum, ackDueMs := 0 } := rfl

/-- The later of two numbers. -/
def later (x y : UShort) : UShort := if chaosSeqLt x y then y else x

/-- The fields `noteAck` sets. -/
theorem noteAck_eq (k : ChaosConn) (ack receipt : UShort) :
    noteAck k ack receipt =
      { k with
        sendq := clearPresent k.sendq
          (seqUpTo k.receiptNum (later k.receiptNum (later receipt ack)))
        receiptNum := later k.receiptNum (later receipt ack)
        ackedNum := later k.ackedNum ack } := by
  unfold noteAck
  rw [← later]
  simp only
  by_cases hr : chaosSeqLt k.receiptNum (later receipt ack) = true
  · have hlater : later k.receiptNum (later receipt ack) = later receipt ack := if_pos hr
    rw [if_pos hr, hlater]
    by_cases ha : chaosSeqLt k.ackedNum ack = true
    · simp [later, ha]
    · simp [later, ha]
  · have hlater : later k.receiptNum (later receipt ack) = k.receiptNum := if_neg hr
    rw [if_neg hr, hlater, seqUpTo_self]
    by_cases ha : chaosSeqLt k.ackedNum ack = true
    · simp [later, ha, clearPresent]
    · simp [later, ha, clearPresent]

theorem connMaybeSendEof_frame (k : ChaosConn) (nowMs : Millis) :
    let k' := (connMaybeSendEof k nowMs).1
    k' = { k with
      sentNum := k'.sentNum, sendq := k'.sendq, assigned := k'.assigned
      eofSent := k'.eofSent, eofNum := k'.eofNum
      lastAckSent := k'.lastAckSent, ackDueMs := k'.ackDueMs } := by
  unfold connMaybeSendEof
  split <;> rfl

/-- Values out of range are ignored; in range they are noted, and then either the
connection is closed because its EOF has been acknowledged or a waiting EOF is
sent if it can be. -/
theorem connProcessAck_cases (k : ChaosConn) (ack receipt : UShort) (nowMs : Millis) :
    ((chaosSeqLt k.sentNum ack = true ∨ chaosSeqLt k.sentNum receipt = true) ∧
        connProcessAck k ack receipt nowMs = (k, [])) ∨
      (chaosSeqLt k.sentNum ack = false ∧ chaosSeqLt k.sentNum receipt = false) ∧
        ((k.eofSent = true ∧ chaosSeqLt (later k.ackedNum ack) k.eofNum = false ∧
            k.state = connOpen ∧ connProcessAck k ack receipt nowMs =
              connCloseCls (noteAck k ack receipt) (bytesOf "Finished") closeDone) ∨
          connProcessAck k ack receipt nowMs = connMaybeSendEof (noteAck k ack receipt) nowMs) := by
  have hnote := noteAck_eq k ack receipt
  unfold connProcessAck
  by_cases hrange : (chaosSeqLt k.sentNum ack || chaosSeqLt k.sentNum receipt) = true
  · rw [if_pos hrange]
    exact Or.inl ⟨by simpa using hrange, rfl⟩
  · rw [if_neg hrange]
    refine Or.inr ⟨by simpa using hrange, ?_⟩
    simp only
    split
    · next hdone =>
      refine Or.inl ?_
      rw [hnote] at hdone
      exact ⟨hdone.1, by simpa using hdone.2.1, hdone.2.2, rfl⟩
    · exact Or.inr rfl

/-- Processing an acknowledgement leaves the receive side alone. -/
theorem connProcessAck_receivedNum (k : ChaosConn) (ack receipt : UShort) (nowMs : Millis) :
    (connProcessAck k ack receipt nowMs).1.receivedNum = k.receivedNum := by
  have hnote := noteAck_eq k ack receipt
  unfold connProcessAck
  simp only
  split
  · rfl
  · rw [hnote]
    split
    · rfl
    · rw [connMaybeSendEof_frame]

theorem sendLoop_frame (nowMs : Millis) (fuel : Nat) (k : ChaosConn) (data : List Byte) :
    let k' := (sendLoop nowMs fuel k data).1.1
    k' = { k with
      sentNum := k'.sentNum, sendq := k'.sendq, assigned := k'.assigned
      lastAckSent := k'.lastAckSent, ackDueMs := k'.ackDueMs } := by
  induction fuel generalizing k data with
  | zero => rfl
  | succ fuel ih =>
      unfold sendLoop
      simp only
      split
      · rw [ih, connSendControlled_frame]
      · rfl

theorem recvLoop_frame (max fuel : Nat) (k : ChaosConn) (got : List Byte) (advanced : Bool) :
    let k' := (recvLoop max fuel k got advanced).1
    k' = { k with
      readNum := k'.readNum, rcvq := k'.rcvq, eofReceived := k'.eofReceived } := by
  induction fuel generalizing k got advanced with
  | zero => rfl
  | succ fuel ih =>
      unfold recvLoop
      simp only
      split
      · split
        · rw [ih]
        · split
          · rfl
          · rw [ih]
      · rfl

theorem connNoteRead_frame (k : ChaosConn) (advanced : Bool) (nowMs : Millis) :
    let k' := (connNoteRead k advanced nowMs).1
    k' = { k with lastAckSent := k'.lastAckSent, ackDueMs := k'.ackDueMs } := by
  unfold connNoteRead
  simp only
  split
  · split
    · rfl
    · split <;> rfl
  · rfl

theorem advanceReceived_frame (fuel : Nat) (k : ChaosConn) :
    advanceReceived fuel k = { k with receivedNum := (advanceReceived fuel k).receivedNum } := by
  induction fuel generalizing k with
  | zero => rfl
  | succ fuel ih =>
      unfold advanceReceived
      simp only
      split
      · rfl
      · split
        · rfl
        · rw [ih]

theorem connQueueInput_frame (k : ChaosConn) (pkt : Packet) :
    let k' := (connQueueInput k pkt).1
    k' = { k with
      rcvq := k'.rcvq, receivedNum := k'.receivedNum
      lastAckSent := k'.lastAckSent, ackDueMs := k'.ackDueMs } := by
  unfold connQueueInput
  simp only
  split
  · rfl
  split
  · rfl
  split
  · rfl
  split
  · rw [advanceReceived_frame]
    rfl
  · rw [advanceReceived_frame]

end Chaos
