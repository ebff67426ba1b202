import OsxVlm.Stream.Delivery

/-!
# Every function of the front end serves its client

Each function that works for a client keeps the invariant `ServiceOk` and does
not take an open connection from it (`Serves`).  The reads come first, then the
cases of `client_service`.
-/

namespace Stream

open Chaos ChaosConnState ChaosCloseKind ClientState

/-! ### Reads -/

/-- A handle that is not negative names a connection. -/
theorem chaosOpen_handle {c : ChaosCore} {addr : UShort} {contact : List Byte} {nowMs : Millis}
    (hok : 0 ≤ (chaosOpen c addr contact nowMs).1) :
    ∃ h : Fin chaosMaxConns, (chaosOpen c addr contact nowMs).1 = h.val := by
  unfold chaosOpen at hok ⊢
  split at hok
  · exact absurd hok (by simp)
  · next hlen =>
    rw [if_neg hlen]
    cases hfree : (List.finRange chaosMaxConns).find? fun h =>
        (c.conns h).state = connFree with
    | none =>
        rw [hfree] at hok
        exact absurd hok (by simp)
    | some g => exact ⟨g, rfl⟩

/-- The connection `chaos_open` sets up has received nothing and is unfinished. -/
theorem chaosOpen_fresh {c : ChaosCore} {addr : UShort} {contact : List Byte} {nowMs : Millis}
    {h : Fin chaosMaxConns} (hopen : (chaosOpen c addr contact nowMs).1 = h.val) :
    let k := (chaosOpen c addr contact nowMs).2.conns h
    k.state = connRfcSent ∧ Unfinished k ∧ k.recvView.Blank := by
  obtain ⟨-, -, hconns⟩ := chaosOpen_conn hopen
  dsimp only
  rw [hconns]
  exact ⟨rfl, ⟨rfl, rfl⟩, ⟨rfl, rfl, fun _ => rfl⟩⟩

section Read

variable {s : StreamServer} {i : Fin streamMaxClients} {nowMs : Millis}

/-- What `handle_request` does: the client is refused, or waits on a new
connection. -/
theorem handleRequest_cases (nowMs : Millis) (hconn : (s.clients i).conn < 0) :
    let s' := handleRequest s i nowMs
    s'.releases = s.releases ∧
      ((s'.clients i).state = clientDrain ∧ (s'.clients i).conn < 0 ∨
        (s'.clients i).state = clientWaitOpn ∧ (s'.clients i).out = (s.clients i).out ∧
          (s'.clients i).relayed = (s.clients i).relayed ∧
          (s'.clients i).written = (s.clients i).written ∧
          ∃ addr contact, 0 ≤ (chaosOpen s.core addr contact nowMs).1 ∧
            (s'.clients i).conn = (chaosOpen s.core addr contact nowMs).1 ∧
            s'.core = (chaosOpen s.core addr contact nowMs).2) := by
  unfold handleRequest
  dsimp only
  split
  · rw [clients_setClient]
    exact ⟨rfl, Or.inl ⟨rfl, hconn⟩⟩
  · next addr contact hanswer =>
    split
    · next hneg =>
      rw [clients_setClient]
      exact ⟨rfl, Or.inl ⟨rfl, hneg⟩⟩
    · next hpos =>
      rw [clients_setClient]
      exact ⟨rfl, Or.inr ⟨rfl, rfl, rfl, rfl, addr, contact, not_lt.mp hpos, rfl, rfl⟩⟩

theorem ServiceOk.handleRequest (h : ServiceOk s) (hline : (s.clients i).state = clientLine)
    (nowMs : Millis) : Serves i s (handleRequest s i nowMs) := by
  obtain ⟨hconn, huntold⟩ := (h.client i).ofLine hline
  have hframe := handleRequest_frame (i := i) h.reachable nowMs
  refine .unconnected ?_ hframe hconn
  obtain ⟨hrel, hcases⟩ := handleRequest_cases nowMs hconn
  have hold : ∀ r ∈ (Stream.handleRequest s i nowMs).releases, r ∈ s.releases ∨ ReleaseOk r := by
    intro r hr
    rw [hrel] at hr
    exact Or.inl hr
  rcases hcases with ⟨hdrain, hneg⟩ | ⟨hwait, hout, hrelayed, hwritten, addr, contact, hpos,
    hhandle, hcore⟩
  · apply h.step hframe (.idle (Or.inr hdrain) hneg) _ hold
    intro g hown
    have hg : ((Stream.handleRequest s i nowMs).clients i).conn = g.val := hown
    omega
  · obtain ⟨g, hg⟩ := chaosOpen_handle hpos
    obtain ⟨hstate, hunfinished, hblank⟩ := chaosOpen_fresh hg
    rw [← hcore] at hstate hunfinished hblank
    have hown := hhandle.trans hg
    have hinUse : ((Stream.handleRequest s i nowMs).core.conns g).state ≠ connFree := by
      rw [hstate]
      nofun
    have huntold' : Untold ((Stream.handleRequest s i nowMs).clients i) :=
      ⟨hout.trans huntold.out, hrelayed.trans huntold.relayed, hwritten.trans huntold.written⟩
    apply h.step hframe (.waiting g hwait hown huntold' hinUse hunfinished fun _ => hblank) _ hold
    intro g' hown'
    obtain rfl : g = g' := Fin.ext (Int.ofNat_inj.mp (hown.symm.trans hown'))
    exact .of_blank hblank

/-- The loop of `line_input`. -/
theorem ServiceOk.lineInput (h : ServiceOk s) (hline : (s.clients i).state = clientLine)
    (nowMs : Millis) (buf : List Byte) : Serves i s (lineInput s i nowMs buf) := by
  induction buf generalizing s with
  | nil => exact .refl h
  | cons b buf ih =>
      unfold Stream.lineInput
      dsimp only
      split
      · have hend : Serves i s (s.setClient i (endLine (s.clients i) b buf)) := by
          rw [endLine_eq]
          exact h.serves ((h.client i).same rfl rfl rfl rfl rfl rfl) rfl (Or.inl rfl)
        have hline' : ((s.setClient i (endLine (s.clients i) b buf)).clients i).state =
            clientLine := by
          rw [clients_setClient, endLine_eq]
          exact hline
        exact hend.trans (hend.ok.handleRequest hline' nowMs)
      · split
        · have hconn := ((h.client i).ofLine hline).1
          exact .unconnected (h.setClient (Or.inl rfl) (.idle (Or.inr rfl) hconn))
            (.setClient h.reachable (Or.inl rfl)) hconn
        · have hset : Serves i s (s.setClient i
              { s.clients i with line := (s.clients i).line ++ [b] }) :=
            h.serves ((h.client i).same rfl rfl rfl rfl rfl rfl) rfl (Or.inl rfl)
          apply hset.trans (ih hset.ok _)
          rw [clients_setClient]
          exact hline

theorem ServiceOk.clientTake (h : ServiceOk s) (buf : List Byte) (nowMs : Millis) :
    Serves i s (clientTake s i buf nowMs) := by
  unfold Stream.clientTake
  dsimp only
  split
  · next hline =>
    have hset : Serves i s (s.setClient i
        { s.clients i with taken := (s.clients i).taken ++ buf }) :=
      h.serves ((h.client i).same rfl rfl rfl rfl rfl rfl) rfl (Or.inl rfl)
    apply hset.trans (hset.ok.lineInput _ nowMs buf)
    rw [clients_setClient]
    exact hline
  · exact h.serves ((h.client i).same rfl rfl rfl rfl rfl rfl) rfl (Or.inl rfl)

theorem ServiceOk.clientRead (h : ServiceOk s) (result : ReadResult) (nowMs : Millis) :
    Serves i s (clientRead s i result nowMs) := by
  unfold Stream.clientRead
  dsimp only
  split
  · exact .refl h
  cases result with
  | again => exact .refl h
  | failed => exact h.endedByClient nowMs (Or.inl rfl)
  | got buf =>
      dsimp only
      split
      · split
        · exact h.endedByClient nowMs (Or.inl rfl)
        · exact h.serves ((h.client i).same rfl rfl rfl rfl rfl rfl) rfl (Or.inl rfl)
      · exact h.clientTake _ nowMs

/-- `stream_step` for one client. -/
theorem ServiceOk.clientPoll (h : ServiceOk s) (asked : Bool × Bool) (io : ClientIo)
    (nowMs : Millis) : Serves i s (clientPoll s i asked io nowMs) := by
  unfold Stream.clientPoll
  split
  · exact .refl h
  dsimp only
  generalize hr : (if (asked.2 && (io.pollOut || io.pollHup || io.pollErr)) = true then
    clientWrite s i io.results nowMs else (s, true)) = r
  have hwrite : Serves i s r.1 := by
    rw [← hr]
    split
    · exact h.servesWrite _ _
    · exact .refl h
  split
  · split
    · exact hwrite.trans (hwrite.ok.clientRead _ _)
    · split
      · exact hwrite.trans (hwrite.ok.endedByClient nowMs (Or.inl rfl))
      · exact hwrite
  · exact hwrite

end Read

/-! ### The STREAM state -/

/-- Client `i` streams on connection `g`. -/
structure Streams (s : StreamServer) (i : Fin streamMaxClients) (g : Fin chaosMaxConns) :
    Prop where
  state : (s.clients i).state = clientStream
  own : Owns s i g

section StreamState

variable {s s' : StreamServer} {i : Fin streamMaxClients} {g : Fin chaosMaxConns}
  {nowMs : Millis}

theorem Streams.told (hs : Streams s i g) (h : ServiceOk s) :
    Established (s.core.conns g) ∧ (s.clients i).written ++ (s.clients i).out =
      opnLine (s.clients i).addr ++ (s.clients i).relayed := by
  obtain ⟨g', hconn, hest, htold⟩ := (h.client i).ofStream hs.state
  obtain rfl : g = g' := Fin.ext (Int.ofNat_inj.mp (hs.own.symm.trans hconn))
  exact ⟨hest, htold⟩

theorem Streams.handle (hs : Streams s i g) (h : ServiceOk s) :
    connForHandle s.core (s.clients i).conn = some g := by
  rw [hs.own]
  exact connForHandle_inUse (hs.told h).1.ne_free

/-- A call on the connection of a streaming client that does not change its
state, and ends in a change of the client's record. -/
theorem Streams.called (hs : Streams s i g) (h : ServiceOk s) {e : CoreEvent} {k : StreamClient}
    (hcall : ByUser (s.clients i).conn e.call) (hstream : k.state = (s.clients i).state)
    (hconn : k.conn = (s.clients i).conn)
    (hstate : ((coreStep s.core e).conns g).state = (s.core.conns g).state)
    (htidy : NothingAfterEof ((coreStep s.core e).conns g))
    (htold : k.written ++ k.out = opnLine k.addr ++ k.relayed) :
    Serves i s ({ s with core := coreStep s.core e }.setClient i k) ∧
      Streams ({ s with core := coreStep s.core e }.setClient i k) i g := by
  have hframe := ClientFrame.callSet h.reachable hcall (Or.inl hconn)
  have hclient := clients_setClient { s with core := coreStep s.core e } i k
  have hs' : Streams ({ s with core := coreStep s.core e }.setClient i k) i g :=
    ⟨by rw [hclient, hstream, hs.state], by rw [Owns, hclient, hconn, hs.own]⟩
  have hest := (hs.told h).1.of_state (Or.inl hstate)
  refine ⟨⟨?_, hframe, fun g' hoff => ?_⟩, hs'⟩
  · apply h.step hframe _ _ fun r hr => Or.inl hr
    · rw [hclient]
      exact .streaming g (hstream.trans hs.state) (hconn.trans hs.own) hest htold
    · intro g' hown
      obtain rfl : g = g' := Fin.ext (Int.ofNat_inj.mp (hs'.own.symm.trans hown))
      exact htidy
  · obtain rfl : g = g' := Fin.ext (Int.ofNat_inj.mp (hs.own.symm.trans hoff.own))
    exact Or.inl ⟨hs'.own, hstate.trans hoff.isOpen, Or.inr hs'.state⟩

theorem Streams.send (hs : Streams s i g) (h : ServiceOk s) (nowMs : Millis) :
    Serves i s (serviceSend s i nowMs) ∧ Streams (serviceSend s i nowMs) i g := by
  have hconns : (chaosSend s.core (s.clients i).conn (s.clients i).inBuf nowMs).2.conns g =
      (connSend (s.core.conns g) (s.clients i).inBuf nowMs).1.1 := by
    unfold chaosSend
    rw [hs.handle h]
    dsimp only
    rw [(perform_spec _ g _ nowMs).1, Function.update_self]
  obtain ⟨hkept, hstate⟩ := connSend_recvKept (s.core.conns g) (s.clients i).inBuf nowMs
  unfold serviceSend
  dsimp only
  split
  · refine hs.called (e := ⟨.chaosSend (s.clients i).conn (s.clients i).inBuf, nowMs⟩) h rfl rfl rfl ?_ ?_ ?_
    · exact (congrArg ChaosConn.state hconns).trans hstate
    · exact (h.tidy i g hs.own).congr ((congrArg ChaosConn.recvView hconns).trans hkept.view)
    · exact (hs.told h).2
  · exact ⟨.refl h, hs⟩

theorem Streams.finish (hs : Streams s i g) (h : ServiceOk s) (nowMs : Millis) :
    Serves i s (serviceFinish s i nowMs) ∧ Streams (serviceFinish s i nowMs) i g := by
  have hconns : (chaosFinish s.core (s.clients i).conn nowMs).conns g =
      (connFinish (s.core.conns g) nowMs).1 := by
    unfold chaosFinish
    rw [hs.handle h]
    dsimp only
    rw [(perform_spec _ g _ nowMs).1, Function.update_self]
  obtain ⟨hkept, hstate⟩ := connFinish_recvKept (s.core.conns g) nowMs
  unfold serviceFinish
  dsimp only
  split
  · refine hs.called (e := ⟨.chaosFinish (s.clients i).conn, nowMs⟩) h rfl rfl rfl ?_ ?_ ?_
    · exact (congrArg ChaosConn.state hconns).trans hstate
    · exact (h.tidy i g hs.own).congr ((congrArg ChaosConn.recvView hconns).trans hkept.view)
    · exact (hs.told h).2
  · exact ⟨.refl h, hs⟩

/-- The bytes received go to the client. -/
theorem Streams.recv (hs : Streams s i g) (h : ServiceOk s) (nowMs : Millis) :
    Serves i s (serviceRecv s i nowMs) ∧ Streams (serviceRecv s i nowMs) i g := by
  let max := streamOutbuf - (s.clients i).out.length
  have hconns : (chaosRecv s.core (s.clients i).conn max nowMs).2.conns g =
      (connRecv (s.core.conns g) max nowMs).1.1 := by
    unfold chaosRecv
    rw [hs.handle h]
    dsimp only
    rw [(perform_spec _ g _ nowMs).1, Function.update_self]
  obtain ⟨hview, hstate⟩ := connRecv_view (s.core.conns g) max nowMs
  have htidy := (h.tidy i g hs.own).recvLoop max
    (seqDiff (s.core.conns g).receivedNum (s.core.conns g).readNum).toNat [] false
  unfold serviceRecv
  dsimp only
  split
  · refine hs.called (e := ⟨.chaosRecv (s.clients i).conn max, nowMs⟩) h rfl rfl rfl ?_ ?_ ?_
    · exact (congrArg ChaosConn.state hconns).trans hstate
    · exact htidy.congr ((congrArg ChaosConn.recvView hconns).trans hview)
    · dsimp only
      rw [← List.append_assoc, (hs.told h).2, List.append_assoc]
  · exact ⟨.refl h, hs⟩

theorem Streams.shut (hs : Streams s i g) (h : ServiceOk s) :
    Serves i s (serviceShut s i) ∧ Streams (serviceShut s i) i g := by
  unfold serviceShut
  dsimp only
  split
  · refine ⟨h.serves ((h.client i).same rfl rfl rfl rfl rfl rfl) rfl (Or.inl rfl), ?_, ?_⟩
    · rw [clients_setClient, hs.state]
    · rw [Owns, clients_setClient, hs.own]
  · exact ⟨.refl h, hs⟩

/-- A write that does not fail leaves the client streaming. -/
theorem Streams.write (hs : Streams s i g) (results : List WriteResult)
    (hok : (clientWrite s i results nowMs).2 = true) :
    Streams (clientWrite s i results nowMs).1 i g := by
  rcases clientWrite_client s i results nowMs with ⟨hfail, -⟩ | ⟨-, hclient⟩
  · rw [hok] at hfail
    cases hfail
  · constructor
    · rw [hclient, hs.state]
    · rw [Owns, hclient, hs.own]

/-- At the end of the stream all of it has been delivered. -/
theorem Streams.releaseOk (hs : Streams s i g) (h : ServiceOk s) (hdone : streamDone s i)
    (reason : List Byte) :
    ReleaseOk { client := s.clients i, conn := s.core.conns g, reason } := by
  obtain ⟨-, hready, hout⟩ := hdone
  have htidy := h.tidy i g hs.own
  have htold := (hs.told h).2
  unfold chaosRecvReady at hready
  rw [hs.handle h] at hready
  apply Or.inr
  constructor
  · by_contra hne
    have heof : (s.core.conns g).eofReceived ≠ true := fun heof => hne (htidy.1 heof)
    simp only [Bool.and_eq_true, decide_eq_true_eq, Bool.not_eq_true', not_and,
      Bool.not_eq_false] at hready
    exact heof (hready hne)
  · intro _
    rw [hout, List.append_nil] at htold
    exact ⟨hout, htold⟩

/-- The connection of a streaming client whose stream is done is given back. -/
theorem Streams.done (hs : Streams s i g) (h : ServiceOk s) (hdone : streamDone s i)
    (reason : List Byte) (nowMs : Millis) : Serves i s (clientClose s i reason nowMs) := by
  have hsame : ∀ g', Owns s i g' → g = g' := fun g' hown =>
    Fin.ext (Int.ofNat_inj.mp (hs.own.symm.trans hown))
  refine ⟨h.close reason nowMs fun g' hown => ?_, clientClose_frame h.reachable _ _, ?_⟩
  · obtain rfl := hsame g' hown
    exact hs.releaseOk h hdone reason
  · intro g' hoff
    obtain rfl := hsame g' hoff.own
    have hclosed := hdone.1
    unfold chaosState at hclosed
    rw [hs.handle h] at hclosed
    cases hoff.isOpen.symm.trans hclosed

/-- The STREAM case of `client_service`; the client does not wait afterwards. -/
theorem Streams.stream (hs : Streams s i g) (h : ServiceOk s) (results : List WriteResult)
    (nowMs : Millis) : Serves i s (serviceStream s i results nowMs) ∧
      ((serviceStream s i results nowMs).clients i).state ≠ clientWaitOpn := by
  obtain ⟨hsend, hs1⟩ := hs.send h nowMs
  obtain ⟨hfinish, hs2⟩ := hs1.finish hsend.ok nowMs
  obtain ⟨hrecv, hs3⟩ := hs2.recv hfinish.ok nowMs
  have hwrite := hrecv.ok.servesWrite (i := i) results nowMs
  have htold := ((hsend.trans hfinish).trans hrecv).trans hwrite
  unfold serviceStream
  dsimp only
  split
  · next hok =>
    obtain ⟨hshut, hs5⟩ := (hs3.write results hok).shut hwrite.ok
    split
    · next hdone =>
      refine ⟨(htold.trans hshut).trans (hs5.done hshut.ok hdone _ nowMs), ?_⟩
      rw [clientClose_client]
      nofun
    · refine ⟨htold.trans hshut, ?_⟩
      rw [hs5.state]
      nofun
  · next hfail =>
    refine ⟨htold, ?_⟩
    rcases clientWrite_client (serviceRecv (serviceFinish (serviceSend s i nowMs) i nowMs) i nowMs)
      i results nowMs with ⟨-, hclient⟩ | ⟨hok, -⟩
    · rw [hclient]
      nofun
    · exact absurd hok hfail

end StreamState

/-! ### The other states -/

section Service

variable {s : StreamServer} {i : Fin streamMaxClients}

/-- A client that has no connection left is written what it is told and closed. -/
theorem ServiceOk.drain (h : ServiceOk s) (hdrain : (s.clients i).state = clientDrain)
    (results : List WriteResult) (nowMs : Millis) :
    Serves i s (serviceDrain s i results nowMs) ∧
      ((serviceDrain s i results nowMs).clients i).state ≠ clientWaitOpn := by
  have hconn := (h.client i).ofDrain hdrain
  have hwrite := h.servesWrite (i := i) results nowMs
  have hleft : ((clientWrite s i results nowMs).1.clients i).conn < 0 ∧
      ((clientWrite s i results nowMs).1.clients i).state ≠ clientWaitOpn := by
    rcases clientWrite_client s i results nowMs with ⟨-, hclient⟩ | ⟨-, hclient⟩
    · rw [hclient]
      exact ⟨Int.negSucc_lt_zero 0, nofun⟩
    · rw [hclient]
      refine ⟨hconn, fun hwait => ?_⟩
      cases hdrain.symm.trans hwait
  unfold serviceDrain
  dsimp only
  split
  · constructor
    · apply hwrite.trans
      refine .unconnected (hwrite.ok.close _ nowMs fun g hown => ?_)
        (clientClose_frame hwrite.ok.reachable _ _) hleft.1
      have hown' : ((clientWrite s i results nowMs).1.clients i).conn = g.val := hown
      omega
    · rw [clientClose_client]
      nofun
  · exact ⟨hwrite, hleft.2⟩

/-- The OPN line fits the empty output buffer. -/
theorem opnLine_length (addr : UShort) : (opnLine addr).length ≤ streamOutbuf := by
  have hdigits : (Nat.toDigits 8 addr.toNat).length ≤ 6 := by
    apply Nat.toDigits_length
    · decide
    · exact lt_of_lt_of_le addr.isLt (by decide)
  have hoctal : (octal addr.toNat).length = (Nat.toDigits 8 addr.toNat).length := by
    rw [octal, bytesOf, List.length_map, String.toList_ofList]
  have hhead : (bytesOf "OPN Connection to host ").length = 23 := by decide
  rw [opnLine, List.length_append, List.length_append, hhead, hoctal]
  have : crLf.length = 2 := rfl
  have : streamOutbuf = 8192 := rfl
  omega

theorem ClientOk.ofWaiting {k : StreamClient} {conns : Fin chaosMaxConns → ChaosConn}
    (hk : ClientOk k conns) (hwait : k.state = clientWaitOpn) :
    ∃ h : Fin chaosMaxConns, k.conn = h.val ∧ Untold k ∧ (conns h).state ≠ connFree ∧
      ((conns h).state ≠ connOpen → (conns h).recvView.Blank) := by
  cases hk with
  | idle state conn =>
      rw [hwait] at state
      exact absurd state (by decide)
  | line state conn untold => cases hwait.symm.trans state
  | waiting h state conn untold inUse unfinished blank => exact ⟨h, conn, untold, inUse, blank⟩
  | streaming h state => cases hwait.symm.trans state

/-- The client is told of the OPN. -/
theorem ServiceOk.tellOpn (h : ServiceOk s) (hwait : (s.clients i).state = clientWaitOpn)
    {g : Fin chaosMaxConns} (hown : Owns s i g) (hopen : (s.core.conns g).state = connOpen) :
    let k := { outAppend (s.clients i) (opnLine (s.clients i).addr) with state := clientStream }
    Serves i s (s.setClient i k) ∧ Streams (s.setClient i k) i g := by
  obtain ⟨g', hconn, huntold, -, -⟩ := (h.client i).ofWaiting hwait
  have hfits := opnLine_length (s.clients i).addr
  refine ⟨h.serves (.streaming g rfl hown (Or.inl hopen) ?_) rfl (Or.inr rfl), ?_, ?_⟩
  · dsimp only [outAppend]
    rw [huntold.out, huntold.relayed, huntold.written, List.append_nil, List.nil_append,
      List.nil_append]
    exact List.take_of_length_le hfits
  · rw [clients_setClient]
  · rw [Owns, clients_setClient]
    exact hown

theorem closedLine_state (k : StreamClient) (conn : ChaosConn) :
    (closedLine k conn).state = k.state := by
  unfold closedLine
  split <;> rfl

/-- The client is told that the connection was refused. -/
theorem ServiceOk.tellClosed (h : ServiceOk s) (hwait : (s.clients i).state = clientWaitOpn)
    {g : Fin chaosMaxConns} (hown : Owns s i g) (hclosed : (s.core.conns g).state = connClosed)
    (nowMs : Millis) :
    let r := releaseConn (s.setClient i (closedLine (s.clients i) (s.core.conns g))) i [] nowMs
    Serves i s (r.setClient i { r.clients i with conn := -1, state := clientDrain }) := by
  obtain ⟨g', hconn, huntold, hinUse, hblank⟩ := (h.client i).ofWaiting hwait
  obtain rfl : g = g' := Fin.ext (Int.ofNat_inj.mp (hown.symm.trans hconn))
  have hreceived := hblank (by rw [hclosed]; nofun)
  have hframe := closedRelease_frame (i := i) h.reachable g nowMs
  dsimp only
  refine ⟨h.step hframe ?_ ?_ ?_, hframe, ?_⟩
  · rw [clients_setClient]
    exact .idle (Or.inr rfl) (Int.negSucc_lt_zero 0)
  · intro g' hown'
    rw [Owns, clients_setClient] at hown'
    exact absurd hown' (by simp only; omega)
  · intro r hr
    rcases releaseConn_releases [] nowMs hr with hold | ⟨g', hown', rfl⟩
    · exact Or.inl hold
    · rw [Owns, clients_setClient, closedLine_conn] at hown'
      obtain rfl : g = g' := Fin.ext (Int.ofNat_inj.mp (hown.symm.trans hown'))
      refine Or.inr (Or.inr ⟨hreceived.1, fun hstream => ?_⟩)
      rw [clients_setClient, closedLine_state, hwait] at hstream
      cases hstream
  · intro g' hoff
    obtain rfl : g = g' := Fin.ext (Int.ofNat_inj.mp (hown.symm.trans hoff.own))
    cases hclosed.symm.trans hoff.isOpen

/-- Client `i` waits on connection `h`, whose OPN the core has accepted. -/
structure WaitsOpen (s : StreamServer) (i : Fin streamMaxClients) (h : Fin chaosMaxConns) :
    Prop where
  own : Owns s i h
  state : (s.clients i).state = clientWaitOpn
  isOpen : (s.core.conns h).state = connOpen

/-- The WAIT_OPN case of `client_service`. -/
theorem ServiceOk.wait (h : ServiceOk s) (hwait : (s.clients i).state = clientWaitOpn)
    (results : List WriteResult) (nowMs : Millis) :
    Serves i s (serviceWait s i results nowMs) ∧
      ∀ g, ¬ WaitsOpen (serviceWait s i results nowMs) i g := by
  obtain ⟨g, hconn, -, hinUse, -⟩ := (h.client i).ofWaiting hwait
  have hhandle := connForHandle_inUse hinUse
  rw [← hconn] at hhandle
  unfold serviceWait
  dsimp only
  rw [hhandle]
  dsimp only
  split
  · next hopen =>
    obtain ⟨htell, hs⟩ := h.tellOpn hwait hconn hopen
    obtain ⟨hserves, hnot⟩ := hs.stream htell.ok results nowMs
    exact ⟨htell.trans hserves, fun g' hg => hnot hg.state⟩
  · next hnotOpen =>
    split
    · next hclosed =>
      have htell := h.tellClosed hwait hconn hclosed nowMs
      obtain ⟨hserves, hnot⟩ := htell.ok.drain (by rw [clients_setClient]) results nowMs
      exact ⟨htell.trans hserves, fun g' hg => hnot hg.state⟩
    · refine ⟨.refl h, fun g' hg => hnotOpen ?_⟩
      obtain rfl : g = g' := Fin.ext (Int.ofNat_inj.mp (hconn.symm.trans hg.own))
      exact hg.isOpen

/-- **`client_service`** serves the client, which knows of an open connection
afterwards. -/
theorem ServiceOk.clientService (h : ServiceOk s) (results : List WriteResult)
    (nowMs : Millis) : Serves i s (clientService s i results nowMs) ∧
      ∀ g, ¬ WaitsOpen (clientService s i results nowMs) i g := by
  unfold Stream.clientService
  dsimp only
  split
  · next hwait => exact h.wait hwait results nowMs
  · next hstream =>
    obtain ⟨g, hconn, hest, -⟩ := (h.client i).ofStream hstream
    have hs : Streams s i g := ⟨hstream, hconn⟩
    rw [if_neg (by rw [hs.handle h]; nofun)]
    obtain ⟨hserves, hnot⟩ := hs.stream h results nowMs
    exact ⟨hserves, fun g' hg => hnot hg.state⟩
  · next hdrain =>
    obtain ⟨hserves, hnot⟩ := h.drain hdrain results nowMs
    exact ⟨hserves, fun g' hg => hnot hg.state⟩
  · next hwait hstream hdrain => exact ⟨.refl h, fun g hg => hwait hg.state⟩

end Service

end Stream
