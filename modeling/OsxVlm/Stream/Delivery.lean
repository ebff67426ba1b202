import OsxVlm.Stream.RequestLine
import OsxVlm.Stream.Opening

/-!
# Data received before the end is delivered

A client that waits for the OPN or streams owns one connection of the core, and
no other client does.  `ServerOk` says so, and what such a client has been told;
`ReleaseOk` what a connection looks like when it is given back.  The law holds
in every run in which no connection is opened and closed between two services
(`no_data_lost`); where one is, the code tells the client that the connection
was refused and drops what it had received (`opened_and_closed_at_once`).
-/

namespace Stream

open Chaos ChaosConnState ChaosCloseKind ClientState

/-- Client `i` uses connection `h`. -/
def Owns (s : StreamServer) (i : Fin streamMaxClients) (h : Fin chaosMaxConns) : Prop :=
  (s.clients i).conn = h.val

/-- Nothing was said to the client yet. -/
structure Untold (k : StreamClient) : Prop where
  out : k.out = []
  relayed : k.relayed = []
  written : k.written = []

/-- How a client stands with the connection it uses. -/
inductive ClientOk (k : StreamClient) (conns : Fin chaosMaxConns → ChaosConn) : Prop
  | idle (state : k.state = clientFree ∨ k.state = clientDrain) (conn : k.conn < 0)
  | line (state : k.state = clientLine) (conn : k.conn < 0) (untold : Untold k)
  | waiting (h : Fin chaosMaxConns) (state : k.state = clientWaitOpn) (conn : k.conn = h.val)
      (untold : Untold k) (inUse : (conns h).state ≠ connFree) (unfinished : Unfinished (conns h))
      (blank : (conns h).state ≠ connOpen → (conns h).recvView.Blank)
  | streaming (h : Fin chaosMaxConns) (state : k.state = clientStream) (conn : k.conn = h.val)
      (est : Established (conns h)) (told : k.written ++ k.out = opnLine k.addr ++ k.relayed)

/-- The client's own socket failed or was closed by the user. -/
def ByClient (reason : List Byte) : Prop := reason = abortedByUser ∨ reason = closedByUser

/-- A connection given back has been delivered: no packet of it is left, and a
streaming client has been written the OPN line and all the bytes read. -/
def ReleaseOk (r : Release) : Prop :=
  ByClient r.reason ∨
    r.conn.readNum = r.conn.receivedNum ∧ (r.client.state = clientStream →
      r.client.out = [] ∧ r.client.written = opnLine r.client.addr ++ r.client.relayed)

/-- **The invariant of the front end.** -/
structure ServerOk (s : StreamServer) : Prop where
  reachable : Reachable s.core
  client : ∀ i, ClientOk (s.clients i) s.core.conns
  distinct : ∀ i j h, Owns s i h → Owns s j h → i = j
  released : ∀ r ∈ s.releases, ReleaseOk r

/-- What holds while clients are served: moreover no packet is held beyond an EOF. -/
structure ServiceOk (s : StreamServer) : Prop extends ServerOk s where
  tidy : ∀ i h, Owns s i h → NothingAfterEof (s.core.conns h)

/-! ### Clients and their connections -/

section ClientOk

variable {k k' : StreamClient} {conns conns' : Fin chaosMaxConns → ChaosConn}

theorem ClientOk.inUse (hk : ClientOk k conns) {h : Fin chaosMaxConns} (hconn : k.conn = h.val) :
    (conns h).state ≠ connFree := by
  cases hk with
  | idle state conn => omega
  | line state conn untold => omega
  | waiting g state conn untold inUse unfinished blank =>
      obtain rfl : g = h := Fin.ext (by omega)
      exact inUse
  | streaming g state conn est told =>
      obtain rfl : g = h := Fin.ext (by omega)
      exact est.ne_free

/-- Only the client's own connection matters. -/
theorem ClientOk.congr (hk : ClientOk k conns)
    (hsame : ∀ h : Fin chaosMaxConns, k.conn = h.val → conns' h = conns h) :
    ClientOk k conns' := by
  cases hk with
  | idle state conn => exact .idle state conn
  | line state conn untold => exact .line state conn untold
  | waiting h state conn untold inUse unfinished blank =>
      refine .waiting h state conn untold ?_ ?_ ?_
      all_goals rw [hsame h conn]
      · exact inUse
      · exact unfinished
      · exact blank
  | streaming h state conn est told =>
      refine .streaming h state conn ?_ told
      rw [hsame h conn]
      exact est

/-- Fields that say nothing about the connection may change. -/
theorem ClientOk.same (hk : ClientOk k conns) (hstate : k'.state = k.state)
    (hconn : k'.conn = k.conn) (haddr : k'.addr = k.addr) (hout : k'.out = k.out)
    (hrelayed : k'.relayed = k.relayed) (hwritten : k'.written = k.written) :
    ClientOk k' conns := by
  have huntold : Untold k → Untold k' := fun hu =>
    ⟨hout.trans hu.out, hrelayed.trans hu.relayed, hwritten.trans hu.written⟩
  cases hk with
  | idle state conn => exact .idle (by rwa [hstate]) (by rwa [hconn])
  | line state conn untold =>
      exact .line (hstate.trans state) (by rwa [hconn]) (huntold untold)
  | waiting h state conn untold inUse unfinished blank =>
      exact .waiting h (hstate.trans state) (hconn.trans conn) (huntold untold) inUse unfinished
        blank
  | streaming h state conn est told =>
      refine .streaming h (hstate.trans state) (hconn.trans conn) est ?_
      rw [hwritten, hout, haddr, hrelayed, told]

end ClientOk

/-! ### One client is served -/

section Client

variable {s s' : StreamServer} {i : Fin streamMaxClients}

/-- Work for client `i` that is right for it keeps the invariant. -/
theorem ServiceOk.step (h : ServiceOk s) (hframe : ClientFrame i s s')
    (hi : ClientOk (s'.clients i) s'.core.conns)
    (htidy : ∀ g, Owns s' i g → NothingAfterEof (s'.core.conns g))
    (hrel : ∀ r ∈ s'.releases, r ∈ s.releases ∨ ReleaseOk r) : ServiceOk s' := by
  have hinUse := fun j g (hown : (s.clients j).conn = _) => (h.client j).inUse (h := g) hown
  have hown : ∀ j, j ≠ i → ∀ g, Owns s' j g → Owns s j g := by
    intro j hj g hown'
    unfold Owns at hown' ⊢
    rwa [hframe.others j hj] at hown'
  refine { reachable := hframe.reachable, client := fun j => ?_
           distinct := hframe.distinct hinUse h.distinct
           released := fun r hr => ?_, tidy := fun j g hown' => ?_ }
  · by_cases hj : j = i
    · subst hj
      exact hi
    · rw [hframe.others j hj]
      exact (h.client j).congr fun g hg => hframe.other hinUse h.distinct hj hg
  · rcases hrel r hr with hold | hok
    · exact h.released r hold
    · exact hok
  · by_cases hj : j = i
    · subst hj
      exact htidy g hown'
    · have hold := hown j hj g hown'
      rw [hframe.other hinUse h.distinct hj hold]
      exact h.tidy j g hold

/-- A change of the client's own record. -/
theorem ServiceOk.setClient (h : ServiceOk s) {k : StreamClient}
    (hconn : k.conn = (s.clients i).conn ∨ k.conn = -1) (hk : ClientOk k s.core.conns) :
    ServiceOk (s.setClient i k) := by
  refine h.step (.setClient h.reachable hconn) ?_ ?_ (fun r hr => Or.inl hr)
  · rw [clients_setClient]
    exact hk
  · intro g hown
    have hk' : k.conn = g.val := by
      unfold Owns at hown
      rwa [clients_setClient] at hown
    rcases hconn with hsame | hnone
    · exact h.tidy i g (hsame.symm.trans hk')
    · omega

theorem connForHandle_inUse {c : ChaosCore} {h : Fin chaosMaxConns}
    (hinUse : (c.conns h).state ≠ connFree) : connForHandle c h.val = some h := by
  simp [connForHandle, hinUse, h.isLt]

theorem connForHandle_eq {c : ChaosCore} {conn : Int} {h : Fin chaosMaxConns}
    (hsome : connForHandle c conn = some h) : conn = h.val ∧ (c.conns h).state ≠ connFree := by
  unfold connForHandle at hsome
  split at hsome
  · next hrange =>
    split at hsome
    · cases hsome
    · next hbusy =>
      obtain rfl := Option.some.inj hsome
      exact ⟨by simp only; omega, hbusy⟩
  · cases hsome

/-- The record a release adds. -/
theorem releaseConn_releases (reason : List Byte) (nowMs : Millis) {r : Release}
    (hr : r ∈ (releaseConn s i reason nowMs).releases) :
    r ∈ s.releases ∨ ∃ g, Owns s i g ∧
      r = { client := s.clients i, conn := s.core.conns g, reason } := by
  unfold releaseConn at hr
  dsimp only at hr
  rcases List.mem_append.mp hr with hr | hr
  · exact Or.inl hr
  · split at hr
    · cases hr
    · next g hhandle =>
      exact Or.inr ⟨g, (connForHandle_eq hhandle).1, List.mem_singleton.mp hr⟩

theorem clientClose_releases (reason : List Byte) (nowMs : Millis) {r : Release}
    (hr : r ∈ (clientClose s i reason nowMs).releases) :
    r ∈ s.releases ∨ ∃ g, Owns s i g ∧
      r = { client := s.clients i, conn := s.core.conns g, reason } := by
  unfold clientClose at hr
  split at hr
  · exact releaseConn_releases reason nowMs hr
  · exact Or.inl hr

/-- Closing a client is right when giving its connection back is. -/
theorem ServiceOk.close (h : ServiceOk s) (reason : List Byte) (nowMs : Millis)
    (hrel : ∀ g, Owns s i g →
      ReleaseOk { client := s.clients i, conn := s.core.conns g, reason }) :
    ServiceOk (clientClose s i reason nowMs) := by
  have hclient := clientClose_client s i nowMs reason
  refine h.step (clientClose_frame h.reachable _ _) ?_ ?_ ?_
  · rw [hclient]
    exact .idle (Or.inl rfl) (by decide)
  · intro g hown
    unfold Owns at hown
    rw [hclient] at hown
    exact absurd hown (by simp only; omega)
  · intro r hr
    rcases clientClose_releases reason nowMs hr with hold | ⟨g, hown, rfl⟩
    · exact Or.inl hold
    · exact Or.inr (hrel g hown)

theorem ServiceOk.closeByClient (h : ServiceOk s) {reason : List Byte} (nowMs : Millis)
    (hreason : ByClient reason) : ServiceOk (clientClose s i reason nowMs) :=
  h.close reason nowMs fun _ _ => Or.inl hreason

/-- The bytes written and those left are the output buffer. -/
theorem writeLoop_eq (results : List WriteResult) (out : List Byte) :
    (writeLoop results out).1 ++ (writeLoop results out).2.1 = out := by
  fun_induction writeLoop results out with
  | case1 results => rfl
  | case2 out hout => rfl
  | case3 rest out hout => rfl
  | case4 rest out hout => rfl
  | case5 n results out hout r ih =>
      rw [List.append_assoc, ih, List.take_append_drop]

/-- Where there is nothing to write nothing is written. -/
theorem Untold.write {k : StreamClient} (hu : Untold k) (results : List WriteResult) :
    Untold { k with
      out := (writeLoop results k.out).2.1
      written := k.written ++ (writeLoop results k.out).1 } := by
  have hnil := List.append_eq_nil_iff.mp ((writeLoop_eq results k.out).trans hu.out)
  refine ⟨hnil.2, hu.relayed, ?_⟩
  dsimp only
  rw [hu.written, hnil.1]
  rfl

theorem ClientOk.written {k : StreamClient} {conns : Fin chaosMaxConns → ChaosConn}
    (hk : ClientOk k conns) (results : List WriteResult) :
    ClientOk { k with
      out := (writeLoop results k.out).2.1
      written := k.written ++ (writeLoop results k.out).1 } conns := by
  cases hk with
  | idle state conn => exact .idle state conn
  | line state conn untold => exact .line state conn (untold.write results)
  | waiting h state conn untold inUse unfinished blank =>
      exact .waiting h state conn (untold.write results) inUse unfinished blank
  | streaming h state conn est told =>
      refine .streaming h state conn est ?_
      dsimp only
      rw [List.append_assoc, writeLoop_eq, told]

/-- A client in the LINE state has no connection and was told nothing. -/
theorem ClientOk.ofLine {k : StreamClient} {conns : Fin chaosMaxConns → ChaosConn}
    (hk : ClientOk k conns) (hline : k.state = clientLine) : k.conn < 0 ∧ Untold k := by
  cases hk with
  | idle state conn =>
      rw [hline] at state
      exact absurd state (by decide)
  | line state conn untold => exact ⟨conn, untold⟩
  | waiting h state => cases hline.symm.trans state
  | streaming h state => cases hline.symm.trans state

theorem ClientOk.ofDrain {k : StreamClient} {conns : Fin chaosMaxConns → ChaosConn}
    (hk : ClientOk k conns) (hdrain : k.state = clientDrain) : k.conn < 0 := by
  cases hk with
  | idle state conn => exact conn
  | line state conn untold => exact conn
  | waiting h state => cases hdrain.symm.trans state
  | streaming h state => cases hdrain.symm.trans state

/-- A client in the STREAM state, and what it was told. -/
theorem ClientOk.ofStream {k : StreamClient} {conns : Fin chaosMaxConns → ChaosConn}
    (hk : ClientOk k conns) (hstream : k.state = clientStream) :
    ∃ g : Fin chaosMaxConns, k.conn = g.val ∧ Established (conns g) ∧
      k.written ++ k.out = opnLine k.addr ++ k.relayed := by
  cases hk with
  | idle state conn =>
      rw [hstream] at state
      exact absurd state (by decide)
  | line state conn untold => cases hstream.symm.trans state
  | waiting h state => cases hstream.symm.trans state
  | streaming g state conn est told => exact ⟨g, conn, est, told⟩

end Client

/-! ### The offer of a connection -/

/-- The connection `h` of client `i` is open, and the client waits or streams. -/
structure Offered (s : StreamServer) (i : Fin streamMaxClients) (h : Fin chaosMaxConns) :
    Prop where
  own : Owns s i h
  isOpen : (s.core.conns h).state = connOpen
  state : (s.clients i).state = clientWaitOpn ∨ (s.clients i).state = clientStream

/-- Since `rs` the client of connection `h` has ended it itself. -/
def Ended (rs : List Release) (h : Fin chaosMaxConns) (s : StreamServer) : Prop :=
  ∃ r ∈ s.releases.drop rs.length, r.client.conn = h.val ∧ ByClient r.reason

/-- Right work for client `i`: it keeps the invariant, and an open connection
is taken from the client only by the client. -/
structure Serves (i : Fin streamMaxClients) (s s' : StreamServer) : Prop where
  ok : ServiceOk s'
  frame : ClientFrame i s s'
  offered : ∀ h, Offered s i h → Offered s' i h ∨ Ended s.releases h s'

section Serves

variable {i : Fin streamMaxClients} {s s' s'' : StreamServer} {nowMs : Millis}

theorem Ended.extend {rs : List Release} {h : Fin chaosMaxConns} (hend : Ended rs h s)
    (hmore : s.releases <+: s'.releases) : Ended rs h s' := by
  obtain ⟨r, hr, hconn, hreason⟩ := hend
  exact ⟨r, (hmore.drop rs.length).subset hr, hconn, hreason⟩

theorem Ended.since {rs rs' : List Release} {h : Fin chaosMaxConns} (hend : Ended rs' h s)
    (hmore : rs <+: rs') : Ended rs h s := by
  obtain ⟨r, hr, hconn, hreason⟩ := hend
  have hle : rs.length ≤ rs'.length := hmore.length_le
  refine ⟨r, ?_, hconn, hreason⟩
  rw [← Nat.add_sub_cancel' hle, ← List.drop_drop] at hr
  exact List.mem_of_mem_drop hr

theorem Serves.refl (h : ServiceOk s) : Serves i s s :=
  ⟨h, .refl h.reachable, fun _ hoff => Or.inl hoff⟩

theorem Serves.trans (h1 : Serves i s s') (h2 : Serves i s' s'') : Serves i s s'' where
  ok := h2.ok
  frame := h1.frame.trans h2.frame
  offered := by
    intro h hoff
    rcases h1.offered h hoff with hoff' | hend
    · rcases h2.offered h hoff' with hoff'' | hend
      · exact Or.inl hoff''
      · exact Or.inr (hend.since h1.frame.releases)
    · exact Or.inr (hend.extend h2.frame.releases)

/-- A client without a connection has no offer. -/
theorem Serves.unconnected (hok : ServiceOk s') (hframe : ClientFrame i s s')
    (hconn : (s.clients i).conn < 0) : Serves i s s' := by
  refine ⟨hok, hframe, fun h hoff => ?_⟩
  have hown : (s.clients i).conn = h.val := hoff.own
  omega

/-- A change of the client's own record that keeps its connection. -/
theorem ServiceOk.serves (h : ServiceOk s) {k : StreamClient}
    (hk : ClientOk k s.core.conns) (hconn : k.conn = (s.clients i).conn)
    (hstate : k.state = (s.clients i).state ∨ k.state = clientStream) :
    Serves i s (s.setClient i k) := by
  refine ⟨h.setClient (Or.inl hconn) hk, .setClient h.reachable (Or.inl hconn), ?_⟩
  intro g hoff
  refine Or.inl ⟨?_, hoff.isOpen, ?_⟩
  · unfold Owns
    rw [clients_setClient, hconn]
    exact hoff.own
  · rw [clients_setClient]
    rcases hstate with hsame | hstream
    · rw [hsame]
      exact hoff.state
    · exact Or.inr hstream

/-- The user ends the connection. -/
theorem ServiceOk.endedByClient (h : ServiceOk s) {reason : List Byte} (nowMs : Millis)
    (hreason : ByClient reason) : Serves i s (clientClose s i reason nowMs) := by
  refine ⟨h.closeByClient nowMs hreason, clientClose_frame h.reachable _ _, ?_⟩
  intro g hoff
  have hown : (s.clients i).conn = g.val := hoff.own
  have hhandle : connForHandle s.core g.val = some g := connForHandle_inUse (by
    rw [hoff.isOpen]
    nofun)
  refine Or.inr ⟨{ client := s.clients i, conn := s.core.conns g, reason }, ?_, hown, hreason⟩
  unfold clientClose
  rw [if_pos (by omega)]
  unfold releaseConn
  dsimp only [StreamServer.setClient]
  rw [List.drop_left, hown, hhandle]
  exact List.mem_singleton_self _

theorem ServiceOk.servesWrite (h : ServiceOk s) (results : List WriteResult) (nowMs : Millis) :
    Serves i s (clientWrite s i results nowMs).1 := by
  have hset : Serves i s (s.setClient i { s.clients i with
      out := (writeLoop results (s.clients i).out).2.1
      written := (s.clients i).written ++ (writeLoop results (s.clients i).out).1 }) :=
    h.serves ((h.client i).written results) rfl (Or.inl rfl)
  unfold clientWrite
  dsimp only
  split
  · exact hset.trans (hset.ok.endedByClient nowMs (Or.inr rfl))
  · exact hset

end Serves

end Stream
