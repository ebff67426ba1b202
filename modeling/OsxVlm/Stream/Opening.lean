import OsxVlm.Chaos.Receive
import OsxVlm.Stream.Frame

/-!
# A connection between two services

What the frames and ticks that come between two calls of `stream_service` do to
the connection of a client: an open connection that was not finished is closed
only by a CLS, a LOS or a silent host, and one that was never open has received
nothing.
-/

namespace Stream

open Chaos ChaosConnState ChaosCloseKind

/-- The client has not asked to finish the connection. -/
def Unfinished (k : ChaosConn) : Prop := k.eofWanted = false ∧ k.eofSent = false

theorem connMaybeSendEof_unfinished {k : ChaosConn} (hk : Unfinished k) (nowMs : Millis) :
    connMaybeSendEof k nowMs = (k, []) := by
  refine if_neg fun hgo => ?_
  rw [hk.1] at hgo
  exact absurd hgo.2.1 nofun

/-- An acknowledgement does not close a connection that was not finished. -/
theorem connProcessAck_unfinished {k : ChaosConn} (hk : Unfinished k) (ack receipt : UShort)
    (nowMs : Millis) : Unfinished (connProcessAck k ack receipt nowMs).1 ∧
      (connProcessAck k ack receipt nowMs).1.state = k.state := by
  have hnoted : Unfinished (noteAck k ack receipt) := by
    rw [noteAck_eq]
    exact hk
  rcases connProcessAck_cases k ack receipt nowMs with ⟨-, hnone⟩ | ⟨-, ⟨heof, -⟩ | hsend⟩
  · rw [hnone]
    exact ⟨hk, rfl⟩
  · rw [hk.2] at heof
    cases heof
  · rw [hsend, connMaybeSendEof_unfinished hnoted]
    refine ⟨hnoted, ?_⟩
    rw [noteAck_eq]

/-- The call is the arrival of a frame or a tick. -/
def FromNet : CoreCall → Prop
  | .input _ => True
  | .tick => True
  | _ => False

theorem ConnPart.unfinished {e : CoreEvent} {h : Fin chaosMaxConns} {k₀ k : ChaosConn} {r : Act}
    (hr : ConnPart e h k₀ k r) (hnet : FromNet e.call) (hk : Unfinished k) : Unfinished r.1 := by
  cases hr with
  | opened u w n call free uniq length =>
      rw [call] at hnet
      exact hnet.elim
  | sent call alive =>
      rw [call] at hnet
      exact hnet.elim
  | finished call alive =>
      rw [call] at hnet
      exact hnet.elim
  | received call alive =>
      rw [call] at hnet
      exact hnet.elim
  | released call alive =>
      rw [call] at hnet
      exact hnet.elim
  | opn pkt delivers untouched state opcode length =>
      exact (connProcessAck_unfinished (k := k.withOpn pkt) hk _ _ _).1
  | acked pkt window receipt delivers untouched state values =>
      exact (connProcessAck_unfinished (k := k.withWindow window) hk _ _ _).1
  | queued pkt delivers received state opcode =>
      rw [connQueueInput_frame]
      exact hk
  | retransmitted minAge live =>
      rw [connRetransmit_sentOnly]
      exact hk
  | gaveUp call untouched state wanted late =>
      rw [hk.1] at wanted
      cases wanted
  | _ => exact hk

/-- Nothing but a CLS, a LOS or a silent host closes an open connection. -/
def NotClosedBy (e : CoreEvent) (h : Fin chaosMaxConns) (k : ChaosConn) : Prop :=
  (∀ pkt, Delivers e h k pkt → pkt.opcode ≠ chopCls ∧ pkt.opcode ≠ chopLos) ∧
    (e.call = .tick → e.nowMs - k.lastHeardMs < chaosHostDownMs)

/-- A packet other than CLS and LOS leaves the connection open. -/
theorem inputOpen_open {k : ChaosConn} {pkt : Packet} (hopen : k.state = connOpen)
    (hk : Unfinished k) (hcls : pkt.opcode ≠ chopCls) (hlos : pkt.opcode ≠ chopLos)
    (nowMs : Millis) : (inputOpen k pkt nowMs).1.state = connOpen := by
  have hacked : (connProcessAck k pkt.ack pkt.ack nowMs).1.state = connOpen :=
    (connProcessAck_unfinished hk _ _ _).2.trans hopen
  unfold inputOpen
  split
  · rw [Act.andThen_fst, whenOpen, if_pos hacked, connQueueInput_state, hacked]
  split
  · split
    · exact hopen
    · have hwindow : Unfinished { k with remoteWindow := clampWindow (get16At pkt.data 2) } := hk
      have hacked' : (connProcessAck { k with remoteWindow := clampWindow (get16At pkt.data 2) }
          pkt.ack (get16At pkt.data 0) nowMs).1.state = connOpen :=
        (connProcessAck_unfinished hwindow _ _ _).2.trans hopen
      dsimp only
      rw [Act.andThen_fst, whenOpen, if_pos hacked', connRetransmit_state, hacked']
  split
  · rw [Act.andThen_fst, whenOpen, if_pos hacked]
    exact hacked
  split
  · exact hopen
  · exact hopen

theorem connInput_open {k : ChaosConn} {pkt : Packet} (hopen : k.state = connOpen)
    (hk : Unfinished k) (hcls : pkt.opcode ≠ chopCls) (hlos : pkt.opcode ≠ chopLos)
    (nowMs : Millis) : (connInput k pkt nowMs).1.state = connOpen := by
  have hinput : connInput k pkt nowMs = inputOpen { k with lastHeardMs := nowMs } pkt nowMs := by
    unfold connInput
    dsimp only
    split
    · next hstate => simp [hopen] at hstate
    · next hstate => simp [hopen] at hstate
    · rfl
    · next hstate => simp [hopen] at hstate
  rw [hinput]
  exact inputOpen_open (k := { k with lastHeardMs := nowMs }) hopen hk hcls hlos nowMs

/-- So does a tick that finds the host alive. -/
theorem connTick_open {k : ChaosConn} {nowMs : Millis} (hopen : k.state = connOpen)
    (hk : Unfinished k) (hheard : nowMs - k.lastHeardMs < chaosHostDownMs) :
    (connTick k nowMs).1.state = connOpen := by
  have hret := connRetransmit_state k nowMs chaosRetransmitMs
  unfold connTick
  rw [if_neg (by simp [hopen]), if_neg (by simp [hopen])]
  dsimp only
  rw [if_neg (BitVec.not_le.mpr hheard), if_neg (by simp [hk.1])]
  rw [Act.andThen_fst, Act.andThen_fst]
  have hprobe : ∀ k' : ChaosConn, (tickProbe nowMs (nowMs - k.lastHeardMs) k').1.state =
      k'.state := by
    intro k'
    unfold tickProbe
    split
    · dsimp only
      split <;> rfl
    · rfl
  rw [hprobe, tickAck_state, hret, hopen]

/-- **An open connection stays open** while nothing closes it. -/
theorem coreStep_staysOpen {c : ChaosCore} (hc : CoreOk c) {e : CoreEvent}
    {h : Fin chaosMaxConns} (hnet : FromNet e.call) (hopen : (c.conns h).state = connOpen)
    (hk : Unfinished (c.conns h)) (hquiet : NotClosedBy e h (c.conns h)) :
    ((coreStep c e).conns h).state = connOpen := by
  obtain ⟨acts, hacts, hfrom⟩ := coreStep_acts hc.uniquizer e
  rw [hfrom.conns h]
  have hact := hacts h
  generalize acts h = r at hact ⊢
  cases hact with
  | idle => exact hopen
  | opened u w n call free uniq length =>
      rw [call] at hnet
      exact hnet.elim
  | sent call alive =>
      rw [call] at hnet
      exact hnet.elim
  | finished call alive =>
      rw [call] at hnet
      exact hnet.elim
  | received call alive =>
      rw [call] at hnet
      exact hnet.elim
  | released call alive =>
      rw [call] at hnet
      exact hnet.elim
  | learned call live => exact (connRetransmit_state _ _ _).trans hopen
  | input call read slot known =>
      obtain ⟨hcls, hlos⟩ := hquiet.1 _ ⟨⟨_, call, read⟩, slot, known⟩
      exact connInput_open hopen hk hcls hlos _
  | learnedInput call live read slot known =>
      have huntouched := (connRetransmit_sentOnly (c.conns h) e.nowMs 0).untouched
      rw [noSuchConn_congr huntouched] at known
      obtain ⟨hcls, hlos⟩ := hquiet.1 _ ⟨⟨_, call, read⟩, slot, known⟩
      have hk' : Unfinished (connRetransmit (c.conns h) e.nowMs 0).1 :=
        ⟨huntouched.eofWanted.trans hk.1, huntouched.eofSent.trans hk.2⟩
      exact connInput_open ((connRetransmit_state _ _ _).trans hopen) hk' hcls hlos _
  | ticked call => exact connTick_open hopen hk (hquiet.2 call)

theorem coreStep_unfinished {c : ChaosCore} (hc : CoreOk c) {e : CoreEvent}
    {h : Fin chaosMaxConns} (hnet : FromNet e.call) (hk : Unfinished (c.conns h)) :
    Unfinished ((coreStep c e).conns h) := by
  obtain ⟨acts, hacts, hfrom⟩ := coreStep_acts hc.uniquizer e
  rw [hfrom.conns h]
  exact (hacts h).chain.invariant (fun hk hp => ConnPart.unfinished hp hnet hk) hk

theorem FromNet.keeps {e : CoreEvent} (hnet : FromNet e.call) (h : Fin chaosMaxConns) :
    Keeps h e := by
  intro reason hcall
  rw [hcall] at hnet
  exact hnet.elim

theorem FromNet.not_recv {e : CoreEvent} (hnet : FromNet e.call) (h : Fin chaosMaxConns)
    (max : Nat) : e.call ≠ .chaosRecv h.val max := by
  intro hcall
  rw [hcall] at hnet
  exact hnet.elim

/-- A connection that waits for its OPN has received nothing after the call, even
if the call brought the OPN. -/
theorem coreStep_blank {c : ChaosCore} (hc : CoreOk c) {e : CoreEvent} {h : Fin chaosMaxConns}
    (hnet : FromNet e.call) (hinUse : (c.conns h).state ≠ connFree)
    (hnot : (c.conns h).state ≠ connOpen) (hblank : (c.conns h).recvView.Blank) :
    ((coreStep c e).conns h).state ≠ connFree ∧
      ((coreStep c e).conns h).recvView.Blank := by
  obtain ⟨acts, hacts, hfrom⟩ := coreStep_acts hc.uniquizer e
  rw [hfrom.conns h]
  have hall := (hacts h).chain.invariant (I := fun k => k.state ≠ connFree ∧ k.recvView.Blank ∧
    (k.state = connOpen → ∃ pkt, Delivers e h (c.conns h) pkt ∧ pkt.opcode = chopOpn)) ?_
    ⟨hinUse, hblank, fun hopen => absurd hopen hnot⟩
  · exact ⟨hall.1, hall.2.1⟩
  · rintro k r ⟨hfree, hk, hopn⟩ hr
    cases hr.recvPart with
    | kept same =>
        rw [same.view]
        rcases same.state with hstate | hstate
        · rw [hstate]
          exact ⟨hfree, hk, hopn⟩
        · rw [hstate]
          exact ⟨nofun, hk, nofun⟩
    | opened free blank => exact absurd free hfree
    | released call free => exact absurd call (hnet.keeps h _)
    | read call => exact absurd call (hnet.not_recv h _)
    | opn pkt delivers state opcode same =>
        rw [same.view]
        refine ⟨?_, ⟨rfl, hk.2.1, hk.2.2⟩, fun _ => ⟨pkt, delivers, opcode⟩⟩
        rcases same.state with hstate | hstate
        · rw [hstate]
          nofun
        · rw [hstate]
          nofun
    | queued pkt delivers received state opcode =>
        obtain ⟨opn, hdel, hopn'⟩ := hopn state
        obtain rfl := delivers.unique hdel
        rw [hopn'] at opcode
        exact absurd opcode (by decide)

/-- An established connection stays one. -/
theorem coreStep_established {c : ChaosCore} (hc : CoreOk c) {e : CoreEvent}
    {h : Fin chaosMaxConns} (hnet : FromNet e.call) (hest : Established (c.conns h)) :
    Established ((coreStep c e).conns h) := by
  obtain ⟨acts, hacts, hfrom⟩ := coreStep_acts hc.uniquizer e
  rw [hfrom.conns h]
  refine (hacts h).chain.invariant (I := Established) ?_ hest
  intro k r hk hr
  cases hr.recvPart with
  | kept same => exact hk.of_state same.state
  | opened free blank => exact absurd free hk.ne_free
  | released call free => exact absurd call (hnet.keeps h _)
  | read call => exact absurd call (hnet.not_recv h _)
  | opn pkt delivers state opcode same => exact absurd state hk.ne_rfcSent
  | queued pkt delivers received state opcode =>
      exact hk.of_state (Or.inl (connQueueInput_state k pkt))

/-- A closed connection stays closed, with what it holds. -/
theorem coreStep_closed {c : ChaosCore} (hc : CoreOk c) {e : CoreEvent} {h : Fin chaosMaxConns}
    (hnet : FromNet e.call) (hclosed : (c.conns h).state = connClosed) :
    ((coreStep c e).conns h).state = connClosed := by
  obtain ⟨acts, hacts, hfrom⟩ := coreStep_acts hc.uniquizer e
  rw [hfrom.conns h]
  refine (hacts h).chain.invariant (I := fun k => k.state = connClosed) ?_ hclosed
  intro k r hk hr
  cases hr.recvPart with
  | kept same =>
      rcases same.state with hstate | hstate
      · exact hstate.trans hk
      · exact hstate
  | opened free blank =>
      rw [hk] at free
      cases free
  | released call free => exact absurd call (hnet.keeps h _)
  | read call => exact absurd call (hnet.not_recv h _)
  | opn pkt delivers state opcode same =>
      rw [hk] at state
      cases state
  | queued pkt delivers received state opcode =>
      rw [hk] at state
      cases state

/-! ### Packets after the EOF -/

/-- No packet is held in order beyond an EOF. -/
def NothingAfterEof (k : ChaosConn) : Prop :=
  (k.eofReceived = true → k.readNum = k.receivedNum) ∧
    ∀ n, Serial.behind k.receivedNum n < Serial.behind k.receivedNum k.readNum →
      (k.rcvq (ringSlot n)).opcode = chopEof → n = k.receivedNum

theorem NothingAfterEof.of_blank {k : ChaosConn} (hk : k.recvView.Blank) : NothingAfterEof k := by
  have heq : k.readNum = k.receivedNum := hk.1
  have heof : k.eofReceived = false := hk.2.1
  refine ⟨fun h => ?_, fun n hn => ?_⟩
  · rw [heof] at h
    cases h
  · rw [heq, Serial.behind_self] at hn
    omega

theorem NothingAfterEof.congr {k k' : ChaosConn} (hk : NothingAfterEof k)
    (hview : k'.recvView = k.recvView) : NothingAfterEof k' := by
  have hread : k'.readNum = k.readNum := congrArg RecvView.readNum hview
  have hreceived : k'.receivedNum = k.receivedNum := congrArg RecvView.receivedNum hview
  have hrcvq : k'.rcvq = k.rcvq := congrArg RecvView.rcvq hview
  have heof : k'.eofReceived = k.eofReceived := congrArg RecvView.eofReceived hview
  unfold NothingAfterEof
  rw [hread, hreceived, hrcvq, heof]
  exact hk

/-- A change of a slot that keeps its opcode. -/
theorem opcode_update (q : Fin chaosRing → ChaosPkt) (s t : Fin chaosRing) {p : ChaosPkt}
    (hp : p.opcode = (q s).opcode) : (Function.update q s p t).opcode = (q t).opcode := by
  by_cases h : t = s
  · rw [h, Function.update_self, hp]
  · rw [Function.update_of_ne h]

theorem NothingAfterEof.recvLoop (max fuel : Nat) {k : ChaosConn} (hk : NothingAfterEof k)
    (got : List Byte) (advanced : Bool) :
    NothingAfterEof (recvLoop max fuel k got advanced).1 := by
  induction fuel generalizing k got advanced with
  | zero => exact hk
  | succ fuel ih =>
      unfold Chaos.recvLoop
      dsimp only
      split
      case isFalse => exact hk
      next hgo =>
      have hpos : 0 < Serial.behind k.receivedNum k.readNum := by
        apply Nat.pos_of_ne_zero
        intro hzero
        exact hgo.2.1 (Serial.behind_eq_zero.mp hzero)
      have hnext : Serial.behind k.receivedNum (seqInc k.readNum) + 1 =
          Serial.behind k.receivedNum k.readNum := by
        have := Serial.behind_succ hpos
        unfold seqInc
        rw [show (1 : UShort) = 1#16 from rfl]
        omega
      split
      · next hop =>
        have hlast := hk.2 (seqInc k.readNum) (by omega) hop
        apply ih
        refine ⟨fun _ => hlast, fun n hn => ?_⟩
        dsimp only at hn
        rw [hlast, Serial.behind_self] at hn
        omega
      · split
        · refine ⟨hk.1, fun n hn hop => hk.2 n hn ?_⟩
          refine (opcode_update k.rcvq (ringSlot (seqInc k.readNum)) (ringSlot n) ?_).symm.trans hop
          rfl
        · apply ih
          refine ⟨fun heof => absurd heof hgo.2.2, fun n hn hop => hk.2 n ?_ ?_⟩
          · dsimp only at hn
            omega
          · refine (opcode_update k.rcvq (ringSlot (seqInc k.readNum)) (ringSlot n) ?_).symm.trans
              hop
            rfl

end Stream
