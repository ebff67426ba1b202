import OsxVlm.Stream.Bridge

/-!
# The bridge is byte-transparent, and no slot is lost

Every function of the front end keeps `BridgeOk`, so it holds in every reachable
state.  Two laws are read off it: what a client sends and what it is written
(`bridge_law`), and which connections are in use (`ownership_law`).
-/

namespace Stream

open Chaos ChaosConnState ChaosCloseKind ClientState

/-! ### Lengths -/

/-- The text kept of why a connection closed fits a packet. -/
theorem Reachable.reason_length {c : ChaosCore} (hc : Reachable c) (h : Fin chaosMaxConns) :
    (c.conns h).reason.length ≤ chaosMaxData := by
  have hclosed : ∀ (k : ChaosConn) kind text,
      (connSetClosed k kind text).reason.length ≤ chaosMaxData := by
    intro k kind text
    exact List.length_take_le _ _
  have hack : ∀ {k : ChaosConn} {ack receipt : UShort} {nowMs : Millis},
      k.reason.length ≤ chaosMaxData →
      (connProcessAck k ack receipt nowMs).1.reason.length ≤ chaosMaxData := by
    intro k ack receipt nowMs hk
    have hnoted : (noteAck k ack receipt).reason = k.reason := by rw [noteAck_eq]
    rcases connProcessAck_cases k ack receipt nowMs with ⟨-, hnone⟩ | ⟨-, ⟨-, -, -, hcls⟩ | heof⟩
    · rwa [hnone]
    · rw [hcls]
      exact hclosed _ _ _
    · rw [heof, connMaybeSendEof_frame]
      rwa [hnoted]
  refine (hc.invariant (I := fun _ k => k.reason.length ≤ chaosMaxData) ?_ ?_).2 h
  · intro e h k₀ k r hk hr
    cases hr with
    | sent call alive =>
        unfold connSend
        split
        · exact hk
        · rwa [sendLoop_frame]
    | finished call alive =>
        unfold connFinish
        split
        · exact hk
        · rwa [connMaybeSendEof_frame]
    | received call alive =>
        unfold connRecv
        simp only
        rwa [connNoteRead_frame, recvLoop_frame]
    | opn pkt delivers untouched state opcode length => exact hack (k := k.withOpn pkt) hk
    | acked pkt window receipt delivers untouched state values =>
        exact hack (k := k.withWindow window) hk
    | queued pkt delivers received state opcode => rwa [connQueueInput_frame]
    | closed kind text live why => exact hclosed _ _ _
    | retransmitted minAge live => rwa [connRetransmit_sentOnly]
    | gaveUp call untouched state wanted late => exact hclosed _ _ _
    | opened u w n call free uniq length => exact Nat.zero_le _
    | released call alive => exact Nat.zero_le _
    | _ => exact hk
  · intro h
    exact Nat.zero_le _

theorem recvLoop_length (max fuel : Nat) (k : ChaosConn) {got : List Byte} (advanced : Bool)
    (hgot : got.length ≤ max) : (recvLoop max fuel k got advanced).2.1.length ≤ max := by
  induction fuel generalizing k got advanced with
  | zero => exact hgot
  | succ fuel ih =>
      unfold Chaos.recvLoop
      dsimp only
      split
      case isFalse => exact hgot
      next hgo =>
      have hmore : ∀ p : ChaosPkt, (got ++ (p.data.drop p.offset).take
          (min (p.data.length - p.offset) (max - got.length))).length ≤ max := by
        intro p
        rw [List.length_append, List.length_take]
        omega
      split
      · exact ih _ _ hgot
      · split
        · exact hmore _
        · exact ih _ _ (hmore _)

theorem chaosRecv_length (c : ChaosCore) (h : Int) (max : Nat) (nowMs : Millis) :
    (chaosRecv c h max nowMs).1.length ≤ max := by
  unfold chaosRecv
  split
  · exact Nat.zero_le _
  · exact recvLoop_length _ _ _ _ (Nat.zero_le _)

/-! ### Reads -/

section Read

variable {s : StreamServer} {i : Fin streamMaxClients}

theorem Bridged.ofLine {k : StreamClient} {conns : Fin chaosMaxConns → ChaosConn}
    (hk : Bridged k conns) (hline : k.state = clientLine) :
    k.conn < 0 ∧ Untold k ∧ k.placed = k.inBuf := by
  cases hk with
  | free state => cases hline.symm.trans state
  | line state conn untold fed => exact ⟨conn, untold, fed⟩
  | waiting h state => cases hline.symm.trans state
  | streaming h state => cases hline.symm.trans state
  | drain line state => cases hline.symm.trans state

/-- A client that was told nothing is refused. -/
theorem BridgeOk.refuse (h : BridgeOk s) {k : StreamClient} (text : List Byte)
    (hneg : (s.clients i).conn < 0) (hconn : k.conn = (s.clients i).conn ∨ k.conn = -1)
    (huntold : Untold k) (hfed : k.placed = k.inBuf) (hfits : k.inBuf.length ≤ streamInbuf) :
    BridgeOk (s.setClient i (failClient k (bytesOf "LOS") text)) := by
  have hlen := statusText_length (cString text) (Or.inl rfl)
  obtain ⟨hout, htold⟩ := huntold.tell hlen
  have hneg' : k.conn < 0 := by omega
  refine h.setClient (hconn.imp_right fun hnone => ⟨hnone, hneg⟩) ?_ ⟨hfits, hout.symm ▸ hlen⟩
  exact .drain _ rfl hneg' (.refused _ (cString text) (Or.inl rfl)) htold hfed

/-- The client waits on the connection it was opened. -/
theorem BridgeOk.opened (h : BridgeOk s) {addr : UShort} {contact : List Byte} {nowMs : Millis}
    {k : StreamClient} {g : Fin chaosMaxConns}
    (hopen : (chaosOpen s.core addr contact nowMs).1 = g.val)
    (hothers : ∀ g', g' ≠ g → (chaosOpen s.core addr contact nowMs).2.conns g' = s.core.conns g')
    (hneg : (s.clients i).conn < 0) (hconn : k.conn = (chaosOpen s.core addr contact nowMs).1)
    (hwait : k.state = clientWaitOpn) (huntold : Untold k) (hfed : k.placed = k.inBuf)
    (hfits : Fits k) :
    BridgeOk ({ s with core := (chaosOpen s.core addr contact nowMs).2 }.setClient i k) := by
  have hclient := clients_setClient
    { s with core := (chaosOpen s.core addr contact nowMs).2 } i k
  have hfresh := (chaosOpen_fresh hopen).1
  obtain ⟨-, -, hconns⟩ := chaosOpen_conn hopen
  have hfits' : Fits (({ s with core := (chaosOpen s.core addr contact nowMs).2 }.setClient
      i k).clients i) := by rwa [hclient]
  refine h.step (chaosOpen_frame h.reachable _ _ _ hconn) ?_ hfits' ?_ fun r hr => Or.inl hr
  · rw [hclient]
    refine .waiting g hwait (hconn.trans hopen) ?_ huntold hfed ?_
    · change ((chaosOpen s.core addr contact nowMs).2.conns g).state ≠ connFree
      rw [hfresh]
      nofun
    · change dataBytes ((chaosOpen s.core addr contact nowMs).2.conns g).assigned = []
      rw [hconns]
      rfl
  · intro g' hg'
    by_cases hsame : g' = g
    · refine Or.inl ?_
      rw [Owns, hclient, hconn, hopen, hsame]
    · have hg'' : ((chaosOpen s.core addr contact nowMs).2.conns g').state ≠ connFree := hg'
      rw [hothers g' hsame] at hg''
      refine Or.inr ⟨hg'', fun hown => ?_⟩
      have : (s.clients i).conn = g'.val := hown
      omega

theorem BridgeOk.handleRequest (h : BridgeOk s) (hline : (s.clients i).state = clientLine)
    (nowMs : Millis) : BridgeOk (handleRequest s i nowMs) := by
  obtain ⟨hneg, huntold, hfed⟩ := (h.client i).ofLine hline
  have hfits := h.fits i
  unfold Stream.handleRequest
  dsimp only
  split
  · exact h.refuse _ hneg (Or.inl rfl) (huntold.congr rfl rfl rfl) hfed hfits.inBuf
  · next addr contact hanswer =>
    rcases chaosOpen_slots s.core addr contact nowMs with ⟨hrefused, -⟩ | ⟨g, hg, hothers⟩
    · rw [hrefused]
      exact h.refuse _ hneg (Or.inr rfl) (huntold.congr rfl rfl rfl) hfed hfits.inBuf
    · rw [if_neg (by omega)]
      exact h.opened hg hothers hneg rfl rfl (huntold.congr rfl rfl rfl) hfed
        ⟨hfits.inBuf, hfits.out⟩

/-- The rest of the read that ended the line goes to the input buffer. -/
theorem endLine_fed {k : StreamClient} (b : Byte) (buf : List Byte) (hfed : k.placed = k.inBuf)
    (hfits : k.inBuf.length ≤ streamInbuf) :
    (endLine k b buf).placed = (endLine k b buf).inBuf ∧
      (endLine k b buf).inBuf.length ≤ streamInbuf := by
  unfold Stream.endLine
  generalize (if b = 13 ∧ buf.head? = some 10 then buf.tail else buf) = rest
  dsimp only
  split
  · exact ⟨rfl, List.length_take_le _ _⟩
  · exact ⟨hfed, hfits⟩

theorem BridgeOk.endLine (h : BridgeOk s) (hline : (s.clients i).state = clientLine)
    (b : Byte) (buf : List Byte) : BridgeOk (s.setClient i (endLine (s.clients i) b buf)) := by
  obtain ⟨hneg, huntold, hfed⟩ := (h.client i).ofLine hline
  have hfits := h.fits i
  obtain ⟨hfed', hroom⟩ := endLine_fed b buf hfed hfits.inBuf
  apply h.setClient (Or.inl (endLine_conn _ _ _))
  · generalize hk : Stream.endLine (s.clients i) b buf = k at hfed' hroom
    rw [endLine_eq] at hk
    subst hk
    exact .line hline hneg (huntold.congr rfl rfl rfl) hfed'
  · refine ⟨hroom, ?_⟩
    rw [endLine_eq]
    exact hfits.out

theorem BridgeOk.lineInput (h : BridgeOk s) (hline : (s.clients i).state = clientLine)
    (nowMs : Millis) (buf : List Byte) : BridgeOk (lineInput s i nowMs buf) := by
  induction buf generalizing s with
  | nil => exact h
  | cons b buf ih =>
      have hfits := h.fits i
      obtain ⟨hneg, huntold, hfed⟩ := (h.client i).ofLine hline
      unfold Stream.lineInput
      dsimp only
      split
      · apply (h.endLine hline b buf).handleRequest
        rw [clients_setClient, endLine_eq]
        exact hline
      · split
        · exact h.refuse _ hneg (Or.inl rfl) huntold hfed hfits.inBuf
        · have hset : BridgeOk (s.setClient i
              { s.clients i with line := (s.clients i).line ++ [b] }) :=
            h.setClient (Or.inl rfl) (.line hline hneg (huntold.congr rfl rfl rfl) hfed)
              ⟨hfits.inBuf, hfits.out⟩
          apply ih hset
          rw [clients_setClient]
          exact hline

/-- The bytes read are put into the input buffer, which has room for them. -/
theorem BridgeOk.clientTake (h : BridgeOk s) {buf : List Byte}
    (hroom : buf.length ≤ readWant (s.clients i)) (nowMs : Millis) :
    BridgeOk (clientTake s i buf nowMs) := by
  have hfits := h.fits i
  unfold Stream.clientTake
  dsimp only
  split
  · next hline =>
    obtain ⟨hneg, huntold, hfed⟩ := (h.client i).ofLine hline
    have hset : BridgeOk (s.setClient i { s.clients i with taken := (s.clients i).taken ++ buf }) :=
      h.setClient (Or.inl rfl) (.line hline hneg (huntold.congr rfl rfl rfl) hfed)
        ⟨hfits.inBuf, hfits.out⟩
    apply hset.lineInput
    rw [clients_setClient]
    exact hline
  · next hline =>
    rw [readWant, if_neg hline] at hroom
    have hle : (if (s.clients i).skipLf ∧ buf.head? = some 10 then buf.tail else buf).length ≤
        buf.length := by
      split
      · rw [List.length_tail]
        omega
      · exact le_rfl
    refine h.setClient (Or.inl rfl) ((h.client i).same _ rfl rfl rfl rfl rfl rfl rfl rfl) ?_
    refine ⟨?_, hfits.out⟩
    have hold := hfits.inBuf
    unfold streamInput
    dsimp only
    rw [List.length_append]
    omega

theorem BridgeOk.close (h : BridgeOk s) (reason : List Byte) (nowMs : Millis) :
    BridgeOk (clientClose s i reason nowMs) := by
  have hframe := clientClose_frame (i := i) h.reachable reason nowMs
  have hfree : Bridged {} fun _ => {} := .free rfl (Int.negSucc_lt_zero 0)
  unfold Stream.clientClose at hframe ⊢
  split
  · next hpos =>
    rw [if_pos hpos] at hframe
    have hsame : s.setClient i (s.clients i) = s := by
      simp [StreamServer.setClient]
    have hrel : ClientFrame i s
        ((releaseConn (s.setClient i (s.clients i)) i reason nowMs).setClient i {}) →
          BridgeOk ((releaseConn (s.setClient i (s.clients i)) i reason nowMs).setClient i {}) :=
      h.release rfl (fun g hown => (h.client i).released hown reason) hfree
        (Int.negSucc_lt_zero 0) ⟨Nat.zero_le _, Nat.zero_le _⟩
    rw [hsame] at hrel
    exact hrel hframe
  · next hneg =>
    exact h.setClient (Or.inr ⟨rfl, not_le.mp hneg⟩) (.free rfl (Int.negSucc_lt_zero 0))
      ⟨Nat.zero_le _, Nat.zero_le _⟩

theorem BridgeOk.clientRead (h : BridgeOk s) (result : ReadResult) (nowMs : Millis) :
    BridgeOk (clientRead s i result nowMs) := by
  unfold Stream.clientRead
  dsimp only
  split
  · exact h
  cases result with
  | again => exact h
  | failed => exact h.close _ _
  | got buf =>
      dsimp only
      split
      · split
        · exact h.close _ _
        · exact h.setClient (Or.inl rfl) ((h.client i).same [] rfl rfl rfl rfl rfl rfl
            (List.append_nil _).symm (List.append_nil _).symm) ⟨(h.fits i).inBuf, (h.fits i).out⟩
      · exact h.clientTake (List.length_take_le _ _) nowMs

theorem BridgeOk.clientWrite (h : BridgeOk s) (results : List WriteResult) (nowMs : Millis) :
    BridgeOk (clientWrite s i results nowMs).1 := by
  have hle : (writeLoop results (s.clients i).out).2.1.length ≤ (s.clients i).out.length := by
    have hlen := congrArg List.length (writeLoop_eq results (s.clients i).out)
    rw [List.length_append] at hlen
    omega
  have hfits := h.fits i
  have hset : BridgeOk (s.setClient i { s.clients i with
      out := (writeLoop results (s.clients i).out).2.1
      written := (s.clients i).written ++ (writeLoop results (s.clients i).out).1 }) :=
    h.setClient (Or.inl rfl) ((h.client i).write results) ⟨hfits.inBuf, hle.trans hfits.out⟩
  unfold Stream.clientWrite
  dsimp only
  split
  · exact hset.close _ _
  · exact hset

theorem BridgeOk.clientPoll (h : BridgeOk s) (asked : Bool × Bool) (io : ClientIo)
    (nowMs : Millis) : BridgeOk (clientPoll s i asked io nowMs) := by
  unfold Stream.clientPoll
  split
  · exact h
  dsimp only
  generalize hr : (if (asked.2 && (io.pollOut || io.pollHup || io.pollErr)) = true then
    Stream.clientWrite s i io.results nowMs else (s, true)) = r
  have hwrite : BridgeOk r.1 := by
    rw [← hr]
    split
    · exact h.clientWrite _ _
    · exact h
  split
  · split
    · exact hwrite.clientRead _ _
    · split
      · exact hwrite.close _ _
      · exact hwrite
  · exact hwrite

end Read

/-! ### Service -/

section Service

variable {s : StreamServer} {i : Fin streamMaxClients} {nowMs : Millis}

theorem Bridged.ofStream {k : StreamClient} {conns : Fin chaosMaxConns → ChaosConn}
    (hk : Bridged k conns) (hstream : k.state = clientStream) :
    ∃ g : Fin chaosMaxConns, k.conn = g.val ∧ (conns g).state ≠ connFree ∧
      k.written ++ k.out = opnLine k.addr ++ k.relayed ∧
      k.placed = dataBytes (conns g).assigned ++ k.inBuf := by
  cases hk with
  | free state => cases hstream.symm.trans state
  | line state => cases hstream.symm.trans state
  | waiting h state => cases hstream.symm.trans state
  | streaming g state conn inUse told fed => exact ⟨g, conn, inUse, told, fed⟩
  | drain line state => cases hstream.symm.trans state

/-- What one call on the connection does to the bytes it has taken. -/
theorem BridgeOk.accepted (h : BridgeOk s) {g : Fin chaosMaxConns} (hown : Owns s i g)
    (e : CoreEvent) (hkeeps : Keeps g e) :
    ((coreStep s.core e).conns g).state ≠ connFree ∧
      dataBytes ((coreStep s.core e).conns g).assigned =
        dataBytes (s.core.conns g).assigned ++ acceptedBy g s.core e := by
  have hinUse := h.inUse i g hown
  exact ⟨(coreStep_extends h.reachable.coreOk hinUse hkeeps).inUse hinUse,
    coreStep_dataBytes h.reachable.coreOk hinUse hkeeps⟩

theorem BridgeOk.serviceSend (h : BridgeOk s) (hstream : (s.clients i).state = clientStream)
    (nowMs : Millis) :
    BridgeOk (serviceSend s i nowMs) ∧
      ((serviceSend s i nowMs).clients i).state = clientStream := by
  obtain ⟨g, hconn, -, htold, hfed⟩ := (h.client i).ofStream hstream
  have hfits := h.fits i
  unfold Stream.serviceSend
  dsimp only
  split
  · have hcall := h.accepted hconn ⟨.chaosSend (s.clients i).conn (s.clients i).inBuf, nowMs⟩
      (fun _ => nofun)
    have htaken : acceptedBy g s.core ⟨.chaosSend (s.clients i).conn (s.clients i).inBuf, nowMs⟩ =
        (s.clients i).inBuf.take (chaosSend s.core (s.clients i).conn (s.clients i).inBuf
          nowMs).1 := if_pos hconn
    rw [htaken] at hcall
    constructor
    · refine h.called (e := ⟨.chaosSend (s.clients i).conn (s.clients i).inBuf, nowMs⟩) rfl
        (fun _ _ => nofun) rfl (.streaming g hstream hconn hcall.1 htold ?_) ⟨?_, hfits.out⟩
      · rw [hcall.2, List.append_assoc, List.take_append_drop, hfed]
      · have hroom := hfits.inBuf
        dsimp only
        rw [List.length_drop]
        omega
    · rw [clients_setClient]
      exact hstream
  · exact ⟨h, hstream⟩

theorem BridgeOk.serviceFinish (h : BridgeOk s) (hstream : (s.clients i).state = clientStream)
    (nowMs : Millis) :
    BridgeOk (serviceFinish s i nowMs) ∧
      ((serviceFinish s i nowMs).clients i).state = clientStream := by
  obtain ⟨g, hconn, -, htold, hfed⟩ := (h.client i).ofStream hstream
  have hfits := h.fits i
  unfold Stream.serviceFinish
  dsimp only
  split
  · obtain ⟨hinUse, hdata⟩ := h.accepted hconn ⟨.chaosFinish (s.clients i).conn, nowMs⟩
      (fun _ => nofun)
    rw [show acceptedBy g s.core ⟨.chaosFinish (s.clients i).conn, nowMs⟩ = [] from rfl,
      List.append_nil] at hdata
    constructor
    · refine h.called (e := ⟨.chaosFinish (s.clients i).conn, nowMs⟩) rfl (fun _ _ => nofun) rfl
        (.streaming g hstream hconn hinUse htold ?_) ⟨hfits.inBuf, hfits.out⟩
      rw [hdata, hfed]
    · rw [clients_setClient]
      exact hstream
  · exact ⟨h, hstream⟩

/-- The bytes received go to the output buffer, which has room for them. -/
theorem BridgeOk.serviceRecv (h : BridgeOk s) (hstream : (s.clients i).state = clientStream)
    (nowMs : Millis) :
    BridgeOk (serviceRecv s i nowMs) ∧
      ((serviceRecv s i nowMs).clients i).state = clientStream := by
  obtain ⟨g, hconn, -, htold, hfed⟩ := (h.client i).ofStream hstream
  have hfits := h.fits i
  let max := streamOutbuf - (s.clients i).out.length
  unfold Stream.serviceRecv
  dsimp only
  split
  · obtain ⟨hinUse, hdata⟩ := h.accepted hconn ⟨.chaosRecv (s.clients i).conn max, nowMs⟩
      (fun _ => nofun)
    rw [show acceptedBy g s.core ⟨.chaosRecv (s.clients i).conn max, nowMs⟩ = [] from rfl,
      List.append_nil] at hdata
    have hlen : (chaosRecv s.core (s.clients i).conn (streamOutbuf - (s.clients i).out.length)
        nowMs).1.length ≤ max := chaosRecv_length _ _ _ _
    constructor
    · refine h.called (e := ⟨.chaosRecv (s.clients i).conn max, nowMs⟩) rfl (fun _ _ => nofun) rfl
        (.streaming g hstream hconn hinUse ?_ ?_) ⟨hfits.inBuf, ?_⟩
      · rw [← List.append_assoc, htold, List.append_assoc]
      · rw [hdata, hfed]
      · dsimp only
        have hroom : max = streamOutbuf - (s.clients i).out.length := rfl
        rw [List.length_append]
        omega
    · rw [clients_setClient]
      exact hstream
  · exact ⟨h, hstream⟩

theorem BridgeOk.serviceShut (h : BridgeOk s) : BridgeOk (serviceShut s i) := by
  have hfits := h.fits i
  unfold Stream.serviceShut
  dsimp only
  split
  · exact h.setClient (Or.inl rfl) ((h.client i).same [] rfl rfl rfl rfl rfl rfl
      (List.append_nil _).symm (List.append_nil _).symm) ⟨hfits.inBuf, hfits.out⟩
  · exact h

theorem BridgeOk.serviceStream (h : BridgeOk s) (hstream : (s.clients i).state = clientStream)
    (results : List WriteResult) (nowMs : Millis) :
    BridgeOk (serviceStream s i results nowMs) := by
  obtain ⟨hsend, hstream1⟩ := h.serviceSend hstream nowMs
  obtain ⟨hfinish, hstream2⟩ := hsend.serviceFinish hstream1 nowMs
  obtain ⟨hrecv, -⟩ := hfinish.serviceRecv hstream2 nowMs
  have hwrite := hrecv.clientWrite (i := i) results nowMs
  unfold Stream.serviceStream
  dsimp only
  split
  · split
    · exact hwrite.serviceShut.close _ _
    · exact hwrite.serviceShut
  · exact hwrite

theorem BridgeOk.serviceDrain (h : BridgeOk s) (results : List WriteResult) (nowMs : Millis) :
    BridgeOk (serviceDrain s i results nowMs) := by
  have hwrite := h.clientWrite (i := i) results nowMs
  unfold Stream.serviceDrain
  dsimp only
  split
  · exact hwrite.close _ _
  · exact hwrite

/-- What a client is told of a closed connection, and that it fits. -/
theorem closedLine_told {k : StreamClient} (hu : Untold k) {conn : ChaosConn}
    (hreason : conn.reason.length ≤ chaosMaxData) : ∃ line, StatusLine line ∧
      (closedLine k conn).written ++ (closedLine k conn).out =
        line ++ (closedLine k conn).relayed ∧
      (closedLine k conn).out.length ≤ streamOutbuf := by
  have hline : ∀ verb text, verb = bytesOf "LOS" ∨ verb = bytesOf "CLS" →
      ∃ line, StatusLine line ∧ (outLine k verb text).written ++ (outLine k verb text).out =
        line ++ (outLine k verb text).relayed ∧
        (outLine k verb text).out.length ≤ streamOutbuf := by
    intro verb text known
    have hlen := statusText_length text known
    obtain ⟨hout, htold⟩ := hu.tell hlen
    exact ⟨_, .refused verb text known, htold, hout.symm ▸ hlen⟩
  unfold closedLine
  split
  · exact hline _ _ (Or.inr rfl)
  · -- the length and the data go to the buffer one after the other
    have hans := ansLine_length hreason
    have hlen : (ansLine conn.reason.length ++ conn.reason).length ≤ streamOutbuf := by
      rw [List.length_append]
      have : streamOutbuf = 8192 := rfl
      have : chaosMaxData = 488 := rfl
      omega
    have happ : outAppend (outAppend k (ansLine conn.reason.length)) conn.reason =
        outAppend k (ansLine conn.reason.length ++ conn.reason) := by
      rw [List.length_append] at hlen
      unfold outAppend
      dsimp only
      rw [hu.out, List.nil_append, List.nil_append, List.length_nil, Nat.sub_zero,
        List.take_of_length_le (by omega), List.take_of_length_le (by omega),
        List.take_of_length_le (by rw [List.length_append]; omega)]
    obtain ⟨hout, htold⟩ := hu.tell hlen
    rw [happ]
    exact ⟨_, .answer conn.reason, htold, hout.symm ▸ hlen⟩
  · exact hline _ _ (Or.inl rfl)
  · exact hline _ _ (Or.inl rfl)

theorem closedLine_eq (k : StreamClient) (conn : ChaosConn) :
    closedLine k conn = { k with out := (closedLine k conn).out } := by
  unfold closedLine
  split <;> rfl

theorem Bridged.ofWaiting {k : StreamClient} {conns : Fin chaosMaxConns → ChaosConn}
    (hk : Bridged k conns) (hwait : k.state = clientWaitOpn) :
    ∃ g : Fin chaosMaxConns, k.conn = g.val ∧ (conns g).state ≠ connFree ∧ Untold k ∧
      k.placed = k.inBuf ∧ dataBytes (conns g).assigned = [] := by
  cases hk with
  | free state => cases hwait.symm.trans state
  | line state => cases hwait.symm.trans state
  | waiting g state conn inUse untold fed unsent => exact ⟨g, conn, inUse, untold, fed, unsent⟩
  | streaming g state => cases hwait.symm.trans state
  | drain line state => cases hwait.symm.trans state

/-- The connection closed while the client waited. -/
theorem BridgeOk.closedRelease (h : BridgeOk s) {g : Fin chaosMaxConns} (hown : Owns s i g)
    (hwait : (s.clients i).state = clientWaitOpn) (nowMs : Millis) :
    let r := releaseConn (s.setClient i (closedLine (s.clients i) (s.core.conns g))) i [] nowMs
    BridgeOk (r.setClient i { r.clients i with conn := -1, state := clientDrain }) := by
  have hframe := closedRelease_frame (i := i) h.reachable g nowMs
  have hfits := h.fits i
  obtain ⟨g', hconn, -, huntold, hfed, hunsent⟩ := (h.client i).ofWaiting hwait
  obtain rfl : g = g' := Fin.ext (Int.ofNat_inj.mp (hown.symm.trans hconn))
  obtain ⟨line, hstatus, htold, hlen⟩ :=
    closedLine_told huntold (Reachable.reason_length h.reachable g)
  have hr : (releaseConn (s.setClient i (closedLine (s.clients i) (s.core.conns g))) i []
      nowMs).clients i = closedLine (s.clients i) (s.core.conns g) := clients_setClient _ _ _
  dsimp only at hframe ⊢
  rw [hr] at hframe ⊢
  rw [closedLine_eq] at htold
  have hlen' : (closedLine (s.clients i) (s.core.conns g)).out.length ≤ streamOutbuf := hlen
  rw [closedLine_eq] at hframe ⊢
  refine h.release rfl (fun g' hown' => ?_) (.drain line rfl (Int.negSucc_lt_zero 0) hstatus htold
    hfed) (Int.negSucc_lt_zero 0) ⟨hfits.inBuf, hlen'⟩ hframe
  obtain rfl : g = g' := Fin.ext (Int.ofNat_inj.mp (hown.symm.trans hown'))
  refine ⟨?_, Or.inr ⟨line, hstatus, htold⟩⟩
  rw [hunsent, List.nil_append]
  exact hfed

theorem BridgeOk.serviceWait (h : BridgeOk s) (hwait : (s.clients i).state = clientWaitOpn)
    (results : List WriteResult) (nowMs : Millis) :
    BridgeOk (serviceWait s i results nowMs) := by
  obtain ⟨g, hconn, hinUse, huntold, hfed, hunsent⟩ := (h.client i).ofWaiting hwait
  have hfits := h.fits i
  have hhandle := connForHandle_inUse hinUse
  rw [← hconn] at hhandle
  unfold Stream.serviceWait
  dsimp only
  rw [hhandle]
  dsimp only
  split
  · obtain ⟨hout, htold⟩ := huntold.tell (opnLine_length (s.clients i).addr)
    have hset : BridgeOk (s.setClient i { outAppend (s.clients i) (opnLine (s.clients i).addr) with
        state := clientStream }) := by
      refine h.setClient (Or.inl rfl) (.streaming g rfl hconn hinUse htold ?_)
        ⟨hfits.inBuf, hout.symm ▸ opnLine_length _⟩
      rw [hunsent, List.nil_append]
      exact hfed
    apply hset.serviceStream
    rw [clients_setClient]
  · split
    · exact (h.closedRelease hconn hwait nowMs).serviceDrain _ _
    · exact h

theorem BridgeOk.clientService (h : BridgeOk s) (results : List WriteResult) (nowMs : Millis) :
    BridgeOk (clientService s i results nowMs) := by
  unfold Stream.clientService
  dsimp only
  split
  · next hwait => exact h.serviceWait hwait results nowMs
  · next hstream =>
    obtain ⟨g, hconn, hinUse, -, -⟩ := (h.client i).ofStream hstream
    have hhandle := connForHandle_inUse hinUse
    rw [← hconn] at hhandle
    rw [if_neg (by rw [hhandle]; nofun)]
    exact h.serviceStream hstream results nowMs
  · exact h.serviceDrain results nowMs
  · exact h

end Service

/-! ### Runs -/

section Run

variable {s : StreamServer}

theorem BridgeOk.round (h : BridgeOk s) {f : StreamServer → Fin streamMaxClients → StreamServer}
    (hframe : ∀ t i, Reachable t.core → ClientFrame i t (f t i))
    (hf : ∀ t i, BridgeOk t → BridgeOk (f t i)) : BridgeOk (s.eachClient f) :=
  (eachClient_invariant (I := BridgeOk) hframe (fun t i _ ht _ _ => hf t i ht) h.reachable h).2

theorem BridgeOk.adopt (h : BridgeOk s) : BridgeOk (streamAdopt s) := by
  rcases streamAdopt_cases s with hnone | ⟨i, hfree, hset⟩
  · rwa [hnone]
  · have hneg : (s.clients i).conn < 0 := by
      cases h.client i with
      | free state conn => exact conn
      | line state conn untold fed => exact conn
      | waiting g state => cases hfree.symm.trans state
      | streaming g state => cases hfree.symm.trans state
      | drain line state conn status told fed => exact conn
    rw [hset]
    exact h.setClient (Or.inr ⟨rfl, hneg⟩) (.line rfl (Int.negSucc_lt_zero 0) ⟨rfl, rfl, rfl⟩ rfl)
      ⟨Nat.zero_le _, Nat.zero_le _⟩

theorem BridgeOk.service (h : BridgeOk s) (results : Fin streamMaxClients → List WriteResult)
    (nowMs : Millis) : BridgeOk (streamService s results nowMs) :=
  h.round (fun _ _ ht => clientService_frame ht _ _) fun _ _ ht => ht.clientService _ _

/-- A frame or a tick takes no slot, and no connection of a client from it. -/
theorem BridgeOk.core (h : BridgeOk s) {e : CoreEvent} (hnet : FromNet e.call) :
    BridgeOk { s with core := coreStep s.core e } := by
  have hc := h.reachable.coreOk
  have hnot : ∀ addr contact, e.call ≠ .chaosOpen addr contact := by
    intro addr contact hcall
    rw [hcall] at hnet
    exact hnet
  refine { reachable := h.reachable.step e, client := fun i => ?_, fits := h.fits
           distinct := h.distinct, noLeak := fun g hg => ?_, released := h.released }
  · refine (h.client i).congr fun g hown => ?_
    obtain ⟨hinUse, hdata⟩ := h.accepted hown e (hnet.keeps g)
    refine ⟨fun _ => hinUse, hdata.trans ?_⟩
    rw [show acceptedBy g s.core e = [] from ?_, List.append_nil]
    unfold acceptedBy
    split
    · next hcall =>
      rw [hcall] at hnet
      exact hnet.elim
    · rfl
  · exact h.noLeak g (coreStep_free hc hnot hg)

theorem BridgeOk.serverStep (h : BridgeOk s) (e : StreamEvent) : BridgeOk (serverStep s e) := by
  obtain ⟨call, nowMs⟩ := e
  cases call with
  | input frame => exact h.core (e := ⟨.input frame, nowMs⟩) trivial
  | tick => exact h.core (e := ⟨.tick, nowMs⟩) trivial
  | service results => exact h.service results nowMs
  | step io accepted results =>
      have hpolled := h.round
        (f := fun t i => Stream.clientPoll t i (wantsRead s i, wantsWrite s i) (io i) nowMs)
        (fun t i ht => clientPoll_frame ht _ _ _) fun t i ht => ht.clientPoll _ _ _
      have hadopted : ∀ n, BridgeOk (Nat.iterate streamAdopt n (s.eachClient fun t i =>
          Stream.clientPoll t i (wantsRead s i, wantsWrite s i) (io i) nowMs)) := by
        intro n
        induction n with
        | zero => exact hpolled
        | succ n ih =>
            rw [Function.iterate_succ_apply']
            exact ih.adopt
      exact (hadopted accepted).service results nowMs

theorem ReachableServer.bridgeOk (hs : ReachableServer s) : BridgeOk s := by
  obtain ⟨myAddr, myMac, hostName, localWindow, initialPktNum, hosts, es, rfl⟩ := hs
  refine Exec.run_invariant (A := fun _ _ => True) (fun s e _ h => h.serverStep e)
    (Exec.allowed_of_forall fun _ _ _ => trivial) ?_
  refine { reachable := ⟨myAddr, myMac, hostName, localWindow, initialPktNum, [], rfl⟩
           client := fun _ => .free rfl (Int.negSucc_lt_zero 0)
           fits := fun _ => ⟨Nat.zero_le _, Nat.zero_le _⟩
           distinct := fun i j h hi => ?_, noLeak := fun h hh => absurd rfl hh
           released := fun r hr => ?_ }
  · have hown : (-1 : Int) = h.val := hi
    omega
  · cases hr

end Run

end Stream
