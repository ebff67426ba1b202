import OsxVlm.Chaos.Frame
import OsxVlm.Chaos.Step

/-!
# The parts of an act

An act on a connection is a chain of a few parts: note that the peer was
heard, process an acknowledgement, queue a packet, retransmit, send an STS.
`ConnPart` lists them with the condition under which each is reached, and
`ConnAct.chain` takes every act apart.  An invariant of connections is
therefore proved once for each part (`core_invariant`).
-/

namespace Chaos

open ChaosConnState ChaosCloseKind

/-- What an accepted OPN stores. -/
def ChaosConn.withOpn (k : ChaosConn) (pkt : Packet) : ChaosConn :=
  { k with
    remoteIndex := pkt.srcIndex
    readNum := pkt.num
    receivedNum := pkt.num
    lastAckSent := pkt.num
    remoteWindow := clampWindow (get16At pkt.data 2)
    state := connOpen }

/-- What an STS stores before it is processed as an acknowledgement. -/
def ChaosConn.withWindow (k : ChaosConn) (window : UShort) : ChaosConn :=
  { k with remoteWindow := window }

/-- `k` is still `k₀` but for times, acknowledgements sent and retransmissions. -/
def Untouched (k₀ k : ChaosConn) : Prop :=
  k = { k₀ with
    sendq := k.sendq, lastAckSent := k.lastAckSent, ackDueMs := k.ackDueMs
    lastHeardMs := k.lastHeardMs }

theorem Untouched.refl (k : ChaosConn) : Untouched k k := rfl

theorem SentOnly.untouched {k₀ k : ChaosConn} (h : SentOnly k₀ k) : Untouched k₀ k := by
  unfold Untouched
  rw [h]

theorem Untouched.heard {k₀ k : ChaosConn} (h : Untouched k₀ k) (nowMs : Millis) :
    Untouched k₀ { k with lastHeardMs := nowMs } := by
  unfold Untouched
  rw [h]

section Untouched

variable {k₀ k : ChaosConn} (h : Untouched k₀ k)

include h

theorem Untouched.state : k.state = k₀.state := by rw [h]

theorem Untouched.localIndex : k.localIndex = k₀.localIndex := by rw [h]

theorem Untouched.sentNum : k.sentNum = k₀.sentNum := by rw [h]

theorem Untouched.ackedNum : k.ackedNum = k₀.ackedNum := by rw [h]

theorem Untouched.eofWanted : k.eofWanted = k₀.eofWanted := by rw [h]

theorem Untouched.eofSent : k.eofSent = k₀.eofSent := by rw [h]

theorem Untouched.eofNum : k.eofNum = k₀.eofNum := by rw [h]

theorem Untouched.finishStartMs : k.finishStartMs = k₀.finishStartMs := by rw [h]

theorem Untouched.receivedNum : k.receivedNum = k₀.receivedNum := by rw [h]

/-- Whom a packet belongs to depends on untouched fields only. -/
theorem noSuchConn_congr {pkt : Packet} : noSuchConn k pkt ↔ noSuchConn k₀ pkt := by
  unfold noSuchConn
  rw [h]

end Untouched

/-- The call `e` brings the packet `pkt`, which belongs to the connection in
slot `h`. -/
structure Delivers (e : CoreEvent) (h : Fin chaosMaxConns) (k₀ : ChaosConn) (pkt : Packet) :
    Prop where
  frame : ∃ frame, e.call = .input frame ∧ readPacket frame = some pkt
  slot : connSlot pkt.destIndex = h
  known : ¬ noSuchConn k₀ pkt

/-- `ConnPart e h k₀ k r`: a part of what the call `e` does to the connection in
slot `h`.  The call met it as `k₀`; the part meets it as `k`. -/
inductive ConnPart (e : CoreEvent) (h : Fin chaosMaxConns) (k₀ k : ChaosConn) : Act → Prop
  | opened {addr : UShort} {contact : List Byte} (uniquizer window firstNum : UShort)
      (call : e.call = .chaosOpen addr contact) (free : k.state = connFree)
      (uniq : UniquizerOk uniquizer) (length : contact.length ≤ chaosMaxData) :
      ConnPart e h k₀ k (connSendControlled
        (connNew ((uniquizer <<< 5) ||| BitVec.ofNat 16 h.val) addr window firstNum e.nowMs)
        chopRfc contact e.nowMs)
  | sent {data : List Byte} (call : e.call = .chaosSend h.val data)
      (alive : k.state ≠ connFree) : ConnPart e h k₀ k (connSend k data e.nowMs).1
  | finished (call : e.call = .chaosFinish h.val) (alive : k.state ≠ connFree) :
      ConnPart e h k₀ k (connFinish k e.nowMs)
  | received {max : Nat} (call : e.call = .chaosRecv h.val max)
      (alive : k.state ≠ connFree) : ConnPart e h k₀ k (connRecv k max e.nowMs).1
  | released {reason : List Byte} (call : e.call = .chaosRelease h.val reason)
      (alive : k.state ≠ connFree) : ConnPart e h k₀ k (connRelease k (cString reason))
  | heard (pkt : Packet) (delivers : Delivers e h k₀ pkt) (untouched : Untouched k₀ k) :
      ConnPart e h k₀ k ({ k with lastHeardMs := e.nowMs }, [])
  | opn (pkt : Packet) (delivers : Delivers e h k₀ pkt) (untouched : Untouched k₀ k)
      (state : k.state = connRfcSent) (opcode : pkt.opcode = chopOpn)
      (length : 4 ≤ pkt.data.length) :
      ConnPart e h k₀ k ((connProcessAck (k.withOpn pkt) pkt.ack (get16At pkt.data 0)
        e.nowMs).andThen connSendSts)
  | acked (pkt : Packet) (window receipt : UShort) (delivers : Delivers e h k₀ pkt)
      (untouched : Untouched k₀ k) (state : k.state = connOpen)
      (values : window = k.remoteWindow ∧ receipt = pkt.ack ∨
        pkt.opcode = chopSts ∧ 4 ≤ pkt.data.length ∧
          window = clampWindow (get16At pkt.data 2) ∧ receipt = get16At pkt.data 0) :
      ConnPart e h k₀ k (connProcessAck (k.withWindow window) pkt.ack receipt e.nowMs)
  | queued (pkt : Packet) (delivers : Delivers e h k₀ pkt)
      (received : k.receivedNum = k₀.receivedNum) (state : k.state = connOpen)
      (opcode : chopDat ≤ pkt.opcode ∨ pkt.opcode = chopEof) :
      ConnPart e h k₀ k (connQueueInput k pkt)
  | refused (pkt : Packet) (delivers : Delivers e h k₀ pkt) (untouched : Untouched k₀ k)
      (state : k.state = connClosed) :
      ConnPart e h k₀ k (k, [losReply pkt (bytesOf "Connection in invalid state")])
  | closed (kind : ChaosCloseKind) (text : List Byte)
      (live : k.state = connRfcSent ∨ k.state = connOpen) (why : kind ≠ closeNone) :
      ConnPart e h k₀ k (connSetClosed k kind text, [])
  | retransmitted (minAgeMs : Millis) (live : k.state = connRfcSent ∨ k.state = connOpen) :
      ConnPart e h k₀ k (connRetransmit k e.nowMs minAgeMs)
  | sts (state : k.state = connOpen) : ConnPart e h k₀ k (connSendSts k)
  | probed (call : e.call = .tick) (state : k.state = connOpen) :
      ConnPart e h k₀ k ({ k with lastProbeMs := e.nowMs }, [])
  | sns (call : e.call = .tick) (state : k.state = connOpen) :
      ConnPart e h k₀ k (connSendUnc k chopSns 0 [])
  | gaveUp (call : e.call = .tick) (untouched : Untouched k₀ k) (state : k.state = connOpen)
      (wanted : k.eofWanted)
      (late : chaosFinishTimeoutMs ≤ e.nowMs - k.finishStartMs) :
      ConnPart e h k₀ k (connCloseCls k (bytesOf "Finished (EOF not acknowledged)") closeDone)

/-- Parts one after the other. -/
inductive ConnChain (e : CoreEvent) (h : Fin chaosMaxConns) (k₀ : ChaosConn) :
    ChaosConn → Act → Prop
  | nil (k : ChaosConn) : ConnChain e h k₀ k (k, [])
  | cons {k : ChaosConn} {r r' : Act} (head : ConnPart e h k₀ k r)
      (tail : ConnChain e h k₀ r.1 r') : ConnChain e h k₀ k (r'.1, r.2 ++ r'.2)

section Chain

variable {e : CoreEvent} {h : Fin chaosMaxConns} {k₀ k : ChaosConn} {r : Act}

theorem ConnPart.chain (hr : ConnPart e h k₀ k r) : ConnChain e h k₀ k r := by
  simpa using ConnChain.cons hr (.nil r.1)

theorem ConnChain.andThen {f : ChaosConn → Act} (hr : ConnChain e h k₀ k r)
    (hf : ConnChain e h k₀ r.1 (f r.1)) : ConnChain e h k₀ k (r.andThen f) := by
  induction hr with
  | nil k => simpa [Act.andThen] using hf
  | cons head tail ih =>
      have := ConnChain.cons head (ih hf)
      simpa [Act.andThen, List.append_assoc] using this

/-- `whenOpen` runs its function on an open connection only. -/
theorem whenOpen_chain {f : ChaosConn → Act}
    (hf : k.state = connOpen → ConnChain e h k₀ k (f k)) : ConnChain e h k₀ k (whenOpen f k) := by
  unfold whenOpen
  split
  · next hopen => exact hf hopen
  · exact .nil k

/-- What is carried along a chain of parts. -/
theorem ConnChain.carried {I : ChaosConn → Prop} {R : ChaosConn → Act → Prop}
    (hnil : ∀ k, R k (k, []))
    (htrans : ∀ {k r r'}, R k r → R r.1 r' → R k (r'.1, r.2 ++ r'.2))
    (hpart : ∀ {k r}, I k → ConnPart e h k₀ k r → I r.1 ∧ R k r)
    (hr : ConnChain e h k₀ k r) (hk : I k) : I r.1 ∧ R k r := by
  induction hr with
  | nil k => exact ⟨hk, hnil k⟩
  | cons head tail ih =>
      obtain ⟨hmid, hhead⟩ := hpart hk head
      obtain ⟨hlast, htail⟩ := ih hmid
      exact ⟨hlast, htrans hhead htail⟩

theorem ConnChain.invariant {I : ChaosConn → Prop}
    (hpart : ∀ {k r}, I k → ConnPart e h k₀ k r → I r.1)
    (hr : ConnChain e h k₀ k r) (hk : I k) : I r.1 :=
  (hr.carried (R := fun _ _ => True) (fun _ => trivial) (fun _ _ => trivial)
    (fun hk hp => ⟨hpart hk hp, trivial⟩) hk).1

end Chain

/-! ### Taking an act apart -/

section Parts

variable {e : CoreEvent} {h : Fin chaosMaxConns} {k₀ k : ChaosConn} {pkt : Packet}

theorem inputRfcSent_chain (delivers : Delivers e h k₀ pkt) (untouched : Untouched k₀ k)
    (state : k.state = connRfcSent) : ConnChain e h k₀ k (inputRfcSent k pkt e.nowMs) := by
  have hlive : k.state = connRfcSent ∨ k.state = connOpen := Or.inl state
  unfold inputRfcSent
  split
  · next hopn =>
    split
    · exact .nil k
    · next hlen =>
      exact (ConnPart.opn pkt delivers untouched state hopn (Nat.not_lt.mp hlen)).chain
  split
  · exact (ConnPart.closed _ _ hlive (by decide)).chain
  split
  · exact (ConnPart.closed _ _ hlive (by decide)).chain
  split
  · exact (ConnPart.closed _ _ hlive (by decide)).chain
  split
  · exact (ConnPart.closed _ _ hlive (by decide)).chain
  · exact .nil k

theorem inputClosed_chain (delivers : Delivers e h k₀ pkt) (untouched : Untouched k₀ k)
    (state : k.state = connClosed) : ConnChain e h k₀ k (inputClosed k pkt) := by
  unfold inputClosed
  split
  · exact .nil k
  · exact (ConnPart.refused pkt delivers untouched state).chain

theorem inputOpen_chain (delivers : Delivers e h k₀ pkt) (untouched : Untouched k₀ k)
    (state : k.state = connOpen) : ConnChain e h k₀ k (inputOpen k pkt e.nowMs) := by
  have hlive : k.state = connRfcSent ∨ k.state = connOpen := Or.inr state
  have hacked : ConnPart e h k₀ k (connProcessAck k pkt.ack pkt.ack e.nowMs) :=
    .acked pkt k.remoteWindow pkt.ack delivers untouched state (Or.inl ⟨rfl, rfl⟩)
  unfold inputOpen
  split
  · next hop =>
    refine hacked.chain.andThen (whenOpen_chain fun hopen => ?_)
    have hreceived := connProcessAck_receivedNum k pkt.ack pkt.ack e.nowMs
    exact (ConnPart.queued pkt delivers (hreceived.trans untouched.receivedNum) hopen hop).chain
  split
  · next hsts =>
    split
    · exact .nil k
    · next hlen =>
      refine (ConnPart.acked pkt _ _ delivers untouched state
        (Or.inr ⟨hsts, Nat.not_lt.mp hlen, rfl, rfl⟩)).chain.andThen
        (whenOpen_chain fun hopen => ?_)
      exact (ConnPart.retransmitted _ (Or.inr hopen)).chain
  split
  · exact hacked.chain.andThen (whenOpen_chain fun hopen => (ConnPart.sts hopen).chain)
  split
  · exact (ConnPart.sts state).chain
  split
  · exact (ConnPart.closed _ _ hlive (by decide)).chain
  split
  · exact (ConnPart.closed _ _ hlive (by decide)).chain
  · exact .nil k

theorem connInput_chain (delivers : Delivers e h k₀ pkt) (untouched : Untouched k₀ k) :
    ConnChain e h k₀ k (connInput k pkt e.nowMs) := by
  refine ConnChain.cons (ConnPart.heard pkt delivers untouched) ?_
  have huntouched := untouched.heard e.nowMs
  revert huntouched
  generalize ({ k with lastHeardMs := e.nowMs } : ChaosConn) = k'
  intro huntouched
  cases hstate : k'.state with
  | connRfcSent => exact inputRfcSent_chain delivers huntouched hstate
  | connClosed => exact inputClosed_chain delivers huntouched hstate
  | connOpen => exact inputOpen_chain delivers huntouched hstate
  | connFree => exact .nil _

theorem tickAck_chain (state : k.state = connOpen) :
    ConnChain e h k₀ k (tickAck e.nowMs k) := by
  unfold tickAck
  split
  · exact (ConnPart.sts state).chain
  · exact .nil k

theorem tickProbe_chain (call : e.call = .tick) (heard : Millis) (state : k.state = connOpen) :
    ConnChain e h k₀ k (tickProbe e.nowMs heard k) := by
  unfold tickProbe
  split
  · dsimp only
    split
    · show ConnChain e h k₀ k (Act.andThen ({ k with lastProbeMs := e.nowMs }, [])
        fun k => connSendUnc k chopSns 0 [])
      exact (ConnPart.probed call state).chain.andThen (ConnPart.chain (.sns call state))
    · exact (ConnPart.probed call state).chain
  · exact .nil k

theorem tickAck_state (nowMs : Millis) (k : ChaosConn) : (tickAck nowMs k).1.state = k.state := by
  unfold tickAck
  split <;> rfl

theorem connTick_chain (call : e.call = .tick) (k : ChaosConn) :
    ConnChain e h k k (connTick k e.nowMs) := by
  unfold connTick
  split
  · next hrfc =>
    split
    · exact (ConnPart.closed _ _ (Or.inl hrfc) (by decide)).chain
    · exact (ConnPart.retransmitted _ (Or.inl hrfc)).chain
  split
  · exact .nil k
  · next hopen =>
    have hopen := not_not.mp hopen
    dsimp only
    split
    · exact (ConnPart.closed _ _ (Or.inr hopen) (by decide)).chain
    split
    · next hlate => exact (ConnPart.gaveUp call (.refl k) hopen hlate.1 hlate.2).chain
    · have hret : (connRetransmit k e.nowMs chaosRetransmitMs).1.state = connOpen :=
        (connRetransmit_state k e.nowMs chaosRetransmitMs).trans hopen
      refine ((ConnPart.retransmitted _ (Or.inr hopen)).chain.andThen
        (tickAck_chain hret)).andThen (tickProbe_chain call _ ?_)
      exact (tickAck_state _ _).trans hret

end Parts

/-- **Every act is a chain of parts.** -/
theorem ConnAct.chain {e : CoreEvent} {h : Fin chaosMaxConns} {k : ChaosConn} {r : Act}
    (hr : ConnAct e h k r) : ConnChain e h k k r := by
  cases hr with
  | idle => exact .nil k
  | opened u w n call free uniq length => exact (ConnPart.opened u w n call free uniq length).chain
  | sent call alive => exact (ConnPart.sent call alive).chain
  | finished call alive => exact (ConnPart.finished call alive).chain
  | received call alive => exact (ConnPart.received call alive).chain
  | released call alive => exact (ConnPart.released call alive).chain
  | learned call live => exact (ConnPart.retransmitted 0 live).chain
  | input call read slot known =>
      exact connInput_chain ⟨⟨_, call, read⟩, slot, known⟩ (.refl k)
  | learnedInput call live read slot known =>
      have huntouched := (connRetransmit_sentOnly k e.nowMs 0).untouched
      rw [noSuchConn_congr huntouched] at known
      exact (ConnPart.retransmitted 0 live).chain.andThen
        (connInput_chain ⟨⟨_, call, read⟩, slot, known⟩ huntouched)
  | ticked call => exact connTick_chain call k

/-! ### Invariants of connections -/

/-- **Invariant rule for the core.**  What every part preserves holds of every
connection after every run. -/
theorem core_invariant {I : Fin chaosMaxConns → ChaosConn → Prop}
    {A : ChaosCore → CoreEvent → Prop}
    (hpart : ∀ {c e h k r}, A c e → I h k → ConnPart e h (c.conns h) k r → I h r.1)
    {c : ChaosCore} {es : List CoreEvent} (hok : Exec.Allowed coreStep A c es)
    (huniq : UniquizerOk c.uniquizer) (hinit : ∀ h, I h (c.conns h)) :
    UniquizerOk (Exec.run coreStep c es).uniquizer ∧
      ∀ h, I h ((Exec.run coreStep c es).conns h) := by
  refine Exec.run_invariant (I := fun c => UniquizerOk c.uniquizer ∧ ∀ h, I h (c.conns h))
    ?_ hok ⟨huniq, hinit⟩
  rintro c e hok ⟨huniq, hconns⟩
  obtain ⟨acts, hacts, hfrom⟩ := coreStep_acts huniq e
  refine ⟨hfrom.config.2.2.2 huniq, fun h => ?_⟩
  rw [hfrom.conns h]
  exact (hacts h).chain.invariant (fun hk hp => hpart hok hk hp) (hconns h)

/-- The rule for the states reachable from `chaos_core_init`. -/
theorem Reachable.invariant {I : Fin chaosMaxConns → ChaosConn → Prop}
    (hpart : ∀ {e h k₀ k r}, I h k → ConnPart e h k₀ k r → I h r.1) (hinit : ∀ h, I h {})
    {c : ChaosCore} (hc : Reachable c) : UniquizerOk c.uniquizer ∧ ∀ h, I h (c.conns h) := by
  obtain ⟨myAddr, myMac, hostName, localWindow, initialPktNum, es, rfl⟩ := hc
  refine core_invariant (A := fun _ _ => True) (fun _ hk hp => hpart hk hp) ?_
    uniquizerOk_one hinit
  exact Exec.allowed_of_forall fun _ _ _ => trivial

end Chaos
