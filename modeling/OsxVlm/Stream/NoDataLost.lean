import OsxVlm.Stream.Serving

/-!
# The law of delivery over runs

What the calls of the main loop preserve: a frame or a tick keeps the invariant
when it closes no connection whose client has not been told of the OPN yet, a
round over the clients when nothing is held beyond an EOF.
-/

namespace Stream

open Chaos ChaosConnState ChaosCloseKind ClientState

/-! ### Frames and ticks -/

theorem ServerOk.core {s : StreamServer} (h : ServerOk s) {e : CoreEvent}
    (hnet : FromNet e.call) (hquiet : ∀ i g, WaitsOpen s i g → NotClosedBy e g (s.core.conns g)) :
    ServerOk { s with core := coreStep s.core e } := by
  have hc := h.reachable.coreOk
  refine { reachable := h.reachable.step e, client := fun i => ?_
           distinct := h.distinct, released := h.released }
  cases h.client i with
  | idle state conn => exact .idle state conn
  | line state conn untold => exact .line state conn untold
  | waiting g state conn untold inUse unfinished blank =>
      have hunfinished := coreStep_unfinished hc hnet unfinished
      by_cases hopen : (s.core.conns g).state = connOpen
      · have hstays := coreStep_staysOpen hc hnet hopen unfinished (hquiet i g ⟨conn, state, hopen⟩)
        refine .waiting g state conn untold ?_ hunfinished fun hne => absurd hstays hne
        change ((coreStep s.core e).conns g).state ≠ connFree
        rw [hstays]
        nofun
      · obtain ⟨hinUse, hblank⟩ := coreStep_blank hc hnet inUse hopen (blank hopen)
        exact .waiting g state conn untold hinUse hunfinished fun _ => hblank
  | streaming g state conn est told =>
      exact .streaming g state conn (coreStep_established hc hnet est) told

/-- The offer of an open connection outlasts the frame or the tick. -/
theorem WaitsOpen.core {s : StreamServer} (h : ServerOk s) {e : CoreEvent}
    (hnet : FromNet e.call) (hquiet : ∀ i g, WaitsOpen s i g → NotClosedBy e g (s.core.conns g))
    {i : Fin streamMaxClients} {g : Fin chaosMaxConns} (hw : WaitsOpen s i g) :
    WaitsOpen { s with core := coreStep s.core e } i g := by
  refine ⟨hw.own, hw.state, ?_⟩
  have hunfinished : Unfinished (s.core.conns g) := by
    cases h.client i with
    | idle state conn =>
        have hown : (s.clients i).conn = g.val := hw.own
        omega
    | line state conn untold => cases hw.state.symm.trans state
    | waiting g' state conn untold inUse unfinished blank =>
        obtain rfl : g = g' := Fin.ext (Int.ofNat_inj.mp (hw.own.symm.trans conn))
        exact unfinished
    | streaming g' state conn est told => cases hw.state.symm.trans state
  exact coreStep_staysOpen h.reachable.coreOk hnet hw.isOpen hunfinished (hquiet i g hw)

/-! ### Rounds over the clients -/

/-- Right work for several clients. -/
structure ServesAll (s s' : StreamServer) : Prop where
  ok : ServiceOk s'
  releases : s.releases <+: s'.releases
  offered : ∀ i h, Offered s i h → Offered s' i h ∨ Ended s.releases h s'

theorem ServesAll.refl {s : StreamServer} (h : ServiceOk s) : ServesAll s s :=
  ⟨h, List.prefix_rfl, fun _ _ hoff => Or.inl hoff⟩

theorem ServesAll.trans {s s' s'' : StreamServer} (h1 : ServesAll s s') (h2 : ServesAll s' s'') :
    ServesAll s s'' where
  ok := h2.ok
  releases := h1.releases.trans h2.releases
  offered := by
    intro i h hoff
    rcases h1.offered i h hoff with hoff' | hend
    · rcases h2.offered i h hoff' with hoff'' | hend
      · exact Or.inl hoff''
      · exact Or.inr (hend.since h1.releases)
    · exact Or.inr (hend.extend h2.releases)

section Round

variable {s s' : StreamServer} {i j : Fin streamMaxClients}

/-- Work for client `i` leaves client `j` and its connection. -/
theorem ServiceOk.other (h : ServiceOk s) (hframe : ClientFrame i s s') (hj : j ≠ i)
    {g : Fin chaosMaxConns} (hown : Owns s j g) : s'.core.conns g = s.core.conns g :=
  hframe.other (fun j _ hown => (h.client j).inUse hown) h.distinct hj hown

theorem Serves.all (hserves : Serves i s s') (h : ServiceOk s) : ServesAll s s' := by
  refine ⟨hserves.ok, hserves.frame.releases, fun j g hoff => ?_⟩
  by_cases hj : j = i
  · subst hj
    exact hserves.offered g hoff
  · have hconns := h.other hserves.frame hj hoff.own
    have hclient := hserves.frame.others j hj
    refine Or.inl ⟨?_, ?_, ?_⟩
    · rw [Owns, hclient]
      exact hoff.own
    · rw [hconns]
      exact hoff.isOpen
    · rw [hclient]
      exact hoff.state

/-- **A round over the clients** serves all of them. -/
theorem ServiceOk.round {f : StreamServer → Fin streamMaxClients → StreamServer}
    (hframe : ∀ t i, Reachable t.core → ClientFrame i t (f t i))
    (hf : ∀ t i, ServiceOk t → Serves i t (f t i)) (h : ServiceOk s) :
    ServesAll s (s.eachClient f) := by
  have hround := eachClient_invariant (I := fun t => ServesAll s t) hframe ?_ h.reachable (.refl h)
  · exact hround.2
  · intro t i ht hall _ _
    exact hall.trans ((hf t i hall.ok).all hall.ok)

theorem ServiceOk.adopt (h : ServiceOk s) : ServesAll s (streamAdopt s) := by
  rcases streamAdopt_cases s with hnone | ⟨i, hfree, hset⟩
  · rw [hnone]
    exact .refl h
  · have hconn : (s.clients i).conn < 0 := by
      cases h.client i with
      | idle state conn => exact conn
      | line state conn untold => exact conn
      | waiting g state => cases hfree.symm.trans state
      | streaming g state => cases hfree.symm.trans state
    have hline : ClientOk { state := clientLine } s.core.conns :=
      .line rfl (Int.negSucc_lt_zero 0) ⟨rfl, rfl, rfl⟩
    rw [hset]
    apply Serves.all (i := i) _ h
    exact Serves.unconnected (h.setClient (Or.inr rfl) hline) (.setClient h.reachable (Or.inr rfl)) hconn

theorem ServiceOk.adoptAll (h : ServiceOk s) (n : Nat) :
    ServesAll s (Nat.iterate streamAdopt n s) := by
  induction n generalizing s with
  | zero => exact .refl h
  | succ n ih => exact h.adopt.trans (ih h.adopt.ok)

/-- After `stream_service` every client knows of its open connection. -/
theorem ServiceOk.service (h : ServiceOk s) (results : Fin streamMaxClients → List WriteResult)
    (nowMs : Millis) : ServesAll s (streamService s results nowMs) ∧
      ∀ i g, ¬ WaitsOpen (streamService s results nowMs) i g := by
  constructor
  · exact h.round (fun t i ht => clientService_frame ht _ _)
      fun t i ht => (ht.clientService _ _).1
  · apply eachClient_each (I := ServiceOk) (R := fun t i => ∀ g, ¬ WaitsOpen t i g) _ _ _ _ h
    · intro t i ht
      exact (ht.clientService _ _).1.ok
    · intro t i hfree g hw
      cases hfree.symm.trans hw.state
    · intro t i ht
      exact (ht.clientService _ _).2
    · intro t i j ht hj hnot g hw
      have hframe := (ht.clientService (i := i) (results i) nowMs).1.frame
      have hclient := hframe.others j hj
      have hown : Owns t j g := by
        rw [Owns, ← hclient]
        exact hw.own
      apply hnot g
      refine ⟨hown, ?_, ?_⟩
      · rw [← hclient]
        exact hw.state
      · rw [← ht.other hframe hj hown]
        exact hw.isOpen

end Round

/-! ### Runs -/

/-- The call closes no connection whose client has not been told of the OPN, and
finds no packet in order beyond an EOF when it serves the clients. -/
def Timely (s : StreamServer) (e : StreamEvent) : Prop :=
  match e.call with
  | .input frame =>
      ∀ i h, WaitsOpen s i h → NotClosedBy ⟨.input frame, e.nowMs⟩ h (s.core.conns h)
  | .tick => ∀ i h, WaitsOpen s i h → NotClosedBy ⟨.tick, e.nowMs⟩ h (s.core.conns h)
  | _ => ∀ i h, Owns s i h → NothingAfterEof (s.core.conns h)

/-- What a call leaves of the offer of connection `h` to client `i`: until the
clients are served it stands, and then the client streams, unless it has ended
the connection itself. -/
def Answered (e : StreamEvent) (s s' : StreamServer) (i : Fin streamMaxClients)
    (h : Fin chaosMaxConns) : Prop :=
  match e.call with
  | .input _ => WaitsOpen s' i h
  | .tick => WaitsOpen s' i h
  | _ => Streams s' i h ∨ Ended s.releases h s'

/-- A call that serves the clients. -/
theorem ServiceOk.answered {s s' : StreamServer} (hall : ServesAll s s')
    (hnone : ∀ i g, ¬ WaitsOpen s' i g) {i : Fin streamMaxClients} {h : Fin chaosMaxConns}
    (hw : WaitsOpen s i h) : Streams s' i h ∨ Ended s.releases h s' := by
  rcases hall.offered i h ⟨hw.own, hw.isOpen, Or.inl hw.state⟩ with hoff | hend
  · rcases hoff.state with hwait | hstream
    · exact absurd ⟨hoff.own, hwait, hoff.isOpen⟩ (hnone i h)
    · exact Or.inl ⟨hstream, hoff.own⟩
  · exact Or.inr hend

/-- **Step.**  A timely call keeps the invariant and answers every offer. -/
theorem ServerOk.step {s : StreamServer} (h : ServerOk s) {e : StreamEvent} (he : Timely s e) :
    ServerOk (serverStep s e) ∧
      ∀ i g, WaitsOpen s i g → Answered e s (serverStep s e) i g := by
  obtain ⟨call, nowMs⟩ := e
  cases call with
  | input frame =>
      exact ⟨h.core (e := ⟨.input frame, nowMs⟩) trivial he,
        fun i g hw => hw.core (e := ⟨.input frame, nowMs⟩) h trivial he⟩
  | tick =>
      exact ⟨h.core (e := ⟨.tick, nowMs⟩) trivial he,
        fun i g hw => hw.core (e := ⟨.tick, nowMs⟩) h trivial he⟩
  | service results =>
      have hs : ServiceOk s := { h with tidy := he }
      obtain ⟨hall, hnone⟩ := hs.service results nowMs
      exact ⟨hall.ok.toServerOk, fun i g hw => ServiceOk.answered hall hnone hw⟩
  | step io accepted results =>
      have hs : ServiceOk s := { h with tidy := he }
      have hpolled := hs.round
        (f := fun t i => clientPoll t i (wantsRead s i, wantsWrite s i) (io i) nowMs)
        (fun t i ht => clientPoll_frame ht _ _ _) fun t i ht => ht.clientPoll _ _ _
      have hadopted := hpolled.trans (hpolled.ok.adoptAll accepted)
      obtain ⟨hall, hnone⟩ := hadopted.ok.service results nowMs
      have htotal := hadopted.trans hall
      exact ⟨htotal.ok.toServerOk, fun i g hw => ServiceOk.answered htotal hnone hw⟩

/-- What the law says of a run. -/
structure NoDataLost (s : StreamServer) (es : List StreamEvent) : Prop where
  /-- An open connection is offered to its client. -/
  answered : ∀ n e, es[n]? = some e → ∀ i h,
    WaitsOpen (Exec.runTo serverStep s es n) i h →
      Answered e (Exec.runTo serverStep s es n) (Exec.runTo serverStep s es (n + 1)) i h
  /-- A streaming client is sent the OPN line and then what was received. -/
  told : ∀ n i, let k := (Exec.runTo serverStep s es n).clients i
    k.state = clientStream → k.written ++ k.out = opnLine k.addr ++ k.relayed
  /-- No connection is given back before all it received was delivered. -/
  released : ∀ n, ∀ r ∈ (Exec.runTo serverStep s es n).releases, ReleaseOk r

theorem streamInit_ok (myAddr : UShort) (myMac : Mac) (hostName : List Byte)
    (localWindow initialPktNum : UShort) (hosts : List StreamHost) :
    ServerOk (streamInit (chaosCoreInit myAddr myMac hostName localWindow initialPktNum) hosts) where
  reachable := ⟨myAddr, myMac, hostName, localWindow, initialPktNum, [], rfl⟩
  client := fun _ => .idle (Or.inl rfl) (Int.negSucc_lt_zero 0)
  distinct := by
    intro i j h hi
    have hown : (-1 : Int) = h.val := hi
    omega
  released := by
    intro r hr
    cases hr

/-- **No data is lost** in a run whose calls are all timely. -/
theorem no_data_lost (myAddr : UShort) (myMac : Mac) (hostName : List Byte)
    (localWindow initialPktNum : UShort) (hosts : List StreamHost) (es : List StreamEvent)
    (htimely : Exec.Allowed serverStep Timely
      (streamInit (chaosCoreInit myAddr myMac hostName localWindow initialPktNum) hosts) es) :
    NoDataLost (streamInit (chaosCoreInit myAddr myMac hostName localWindow initialPktNum) hosts)
      es := by
  have hinit := streamInit_ok myAddr myMac hostName localWindow initialPktNum hosts
  generalize streamInit (chaosCoreInit myAddr myMac hostName localWindow initialPktNum) hosts = s₀
    at hinit htimely
  have hok : ∀ n, ServerOk (Exec.runTo serverStep s₀ es n) := by
    intro n
    apply Exec.run_invariant (I := ServerOk) _ (htimely.take n) hinit
    intro s e he hs
    exact (hs.step he).1
  refine { answered := fun n e he i h hw => ?_, told := fun n i hstream => ?_
           released := fun n => (hok n).released }
  · rw [Exec.runTo_succ serverStep s₀ he]
    exact ((hok n).step (htimely.get he)).2 i h hw
  · obtain ⟨g, hconn, hest, htold⟩ := ((hok n).client i).ofStream hstream
    exact htold

/-! ### Runs of the sample server -/

/-- The client asks for `TELNET` on host 405, and the peer opens. -/
def sampleOpening : List StreamEvent :=
  [⟨sampleAccept, 1000⟩, ⟨sampleSends (bytesOf "RFC 405 TELNET" ++ crLf), 1010⟩,
    ⟨.input sampleOpn, 1020⟩]

/-- The clients are served, and every socket takes what it is given. -/
def sampleService : StreamCall := .service fun _ => [.wrote streamOutbuf]

theorem no_data_lost_sample :
    NoDataLost (streamInit sampleCore []) (sampleOpening ++ [⟨sampleService, 1030⟩]) := by
  have hblank : ∀ {s : StreamServer}, (∀ h, (s.core.conns h).readNum =
      (s.core.conns h).receivedNum) → ∀ i h, Owns s i h → NothingAfterEof (s.core.conns h) := by
    intro s heq i h _
    refine ⟨fun _ => heq h, fun n hn => ?_⟩
    rw [heq h, Serial.behind_self] at hn
    omega
  have hnone : ∀ {s : StreamServer} {e : CoreEvent}, (∀ h, (s.core.conns h).state ≠ connOpen) →
      ∀ i h, WaitsOpen s i h → NotClosedBy e h (s.core.conns h) := by
    intro s e hnot i h hw
    exact absurd hw.isOpen (hnot h)
  exact no_data_lost 0o404 (Vector.replicate 6 2) (bytesOf "GENERA") 13 0x0100 [] _
    ⟨hblank (by decide +kernel), hblank (by decide +kernel), hnone (by decide +kernel),
      hblank (by decide +kernel), trivial⟩

/-- Before the clients are served again the peer sends data and closes. -/
def hurriedRun : List StreamEvent :=
  sampleOpening ++ [⟨.input (sampleFrame chopDat 0x0501 0x0100 (bytesOf "hello")), 1021⟩,
    ⟨.input (sampleFrame chopCls 0x0502 0x0100 (bytesOf "Done")), 1022⟩, ⟨sampleService, 1030⟩]

/-- **Opened and closed at once.**  A connection that is opened and closed between
two services is refused to the client, and what it received is dropped. -/
theorem opened_and_closed_at_once :
    ¬ NoDataLost (streamInit sampleCore []) hurriedRun ∧
      WaitsOpen (sampleServer (hurriedRun.take 3)) sampleClient sampleConn ∧
      ∃ r ∈ (sampleServer hurriedRun).releases, r.client.conn = sampleConn.val ∧
        r.client.out = bytesOf "CLS Done" ++ crLf ∧ r.conn.readNum ≠ r.conn.receivedNum := by
  refine ⟨fun hlost => ?_, ⟨by unfold Owns; decide +kernel, by decide +kernel, by decide +kernel⟩,
    by decide +kernel⟩
  have hall : ∃ r ∈ (Exec.runTo serverStep (streamInit sampleCore []) hurriedRun 6).releases,
      r.conn.readNum ≠ r.conn.receivedNum ∧ r.reason = [] := by decide +kernel
  obtain ⟨r, hr, hne, hreason⟩ := hall
  rcases hlost.released 6 r hr with hclient | hdone
  · rw [ByClient, hreason] at hclient
    exact absurd hclient (by decide)
  · exact hne hdone.1

end Stream
