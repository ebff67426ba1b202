import OsxVlm.Chaos.SendStream
import OsxVlm.Stream.Server

/-!
# What serving one client leaves alone

Every function of the front end works for one client.  `ClientFrame` says what
it does to the rest: the other clients and the connections of theirs are
unchanged, and the core moves only by calls of its own interface.
-/

namespace Stream

open Chaos ChaosConnState ClientState

/-- The call is `chaos_open`, or one on the handle `conn`. -/
def ByUser (conn : Int) : CoreCall → Prop
  | .chaosOpen _ _ => True
  | .chaosSend h _ => h = conn
  | .chaosFinish h => h = conn
  | .chaosRecv h _ => h = conn
  | .chaosRelease h _ => h = conn
  | .input _ => False
  | .tick => False

/-- A user's call does not touch a connection in use of another handle. -/
theorem coreStep_spares {c : ChaosCore} (hc : CoreOk c) {e : CoreEvent} {conn : Int}
    (hcall : ByUser conn e.call) {g : Fin chaosMaxConns} (hinUse : (c.conns g).state ≠ connFree)
    (hother : conn ≠ g.val) : (coreStep c e).conns g = c.conns g := by
  obtain ⟨acts, hacts, hfrom⟩ := coreStep_acts hc.uniquizer e
  rw [hfrom.conns g]
  have hact := hacts g
  generalize acts g = r at hact ⊢
  cases hact with
  | idle => rfl
  | opened u w n call free uniq length => exact absurd free hinUse
  | sent call alive =>
      rw [call] at hcall
      exact absurd hcall.symm hother
  | finished call alive =>
      rw [call] at hcall
      exact absurd hcall.symm hother
  | received call alive =>
      rw [call] at hcall
      exact absurd hcall.symm hother
  | released call alive =>
      rw [call] at hcall
      exact absurd hcall.symm hother
  | learned call live =>
      rw [call] at hcall
      exact hcall.elim
  | input call read slot known =>
      rw [call] at hcall
      exact hcall.elim
  | learnedInput call live read slot known =>
      rw [call] at hcall
      exact hcall.elim
  | ticked call =>
      rw [call] at hcall
      exact hcall.elim

theorem coreStep_myAddr {c : ChaosCore} (hc : CoreOk c) (e : CoreEvent) :
    (coreStep c e).myAddr = c.myAddr := by
  obtain ⟨acts, hacts, hfrom⟩ := coreStep_acts hc.uniquizer e
  exact hfrom.config.1

/-- `s'` comes from `s` by work for client `i`. -/
structure ClientFrame (i : Fin streamMaxClients) (s s' : StreamServer) : Prop where
  hosts : s'.hosts = s.hosts
  myAddr : s'.core.myAddr = s.core.myAddr
  reachable : Reachable s'.core
  others : ∀ j, j ≠ i → s'.clients j = s.clients j
  conns : ∀ g : Fin chaosMaxConns, (s.core.conns g).state ≠ connFree →
    (s.clients i).conn ≠ g.val → s'.core.conns g = s.core.conns g
  conn : ∀ g : Fin chaosMaxConns, (s.core.conns g).state ≠ connFree →
    (s'.clients i).conn = g.val → (s.clients i).conn = g.val
  releases : s.releases <+: s'.releases

section Frame

variable {i : Fin streamMaxClients} {s s' s'' : StreamServer}

theorem ClientFrame.refl (hs : Reachable s.core) : ClientFrame i s s :=
  ⟨rfl, rfl, hs, fun _ _ => rfl, fun _ _ _ => rfl, fun _ _ h => h, List.prefix_rfl⟩

theorem ClientFrame.trans (h1 : ClientFrame i s s') (h2 : ClientFrame i s' s'') :
    ClientFrame i s s'' where
  hosts := h2.hosts.trans h1.hosts
  myAddr := h2.myAddr.trans h1.myAddr
  reachable := h2.reachable
  others := by
    intro j hj
    rw [h2.others j hj, h1.others j hj]
  conns := by
    intro g hinUse hother
    have hsame := h1.conns g hinUse hother
    have hinUse' : (s'.core.conns g).state ≠ connFree := by rwa [hsame]
    have hother' : (s'.clients i).conn ≠ g.val := fun heq => hother (h1.conn g hinUse heq)
    rw [h2.conns g hinUse' hother', hsame]
  conn := by
    intro g hinUse heq
    by_contra hother
    have hsame := h1.conns g hinUse hother
    have hinUse' : (s'.core.conns g).state ≠ connFree := by rwa [hsame]
    exact hother (h1.conn g hinUse (h2.conn g hinUse' heq))
  releases := h1.releases.trans h2.releases

/-- Work for client `i` leaves another client and its connection. -/
theorem ClientFrame.other (hframe : ClientFrame i s s')
    (hinUse : ∀ j (g : Fin chaosMaxConns), (s.clients j).conn = g.val →
      (s.core.conns g).state ≠ connFree)
    (hdistinct : ∀ j j' (g : Fin chaosMaxConns), (s.clients j).conn = g.val →
      (s.clients j').conn = g.val → j = j')
    {j : Fin streamMaxClients} (hj : j ≠ i) {g : Fin chaosMaxConns}
    (hown : (s.clients j).conn = g.val) : s'.core.conns g = s.core.conns g :=
  hframe.conns g (hinUse j g hown) fun hi => hj (hdistinct j i g hown hi)

/-- No two clients come to share a connection. -/
theorem ClientFrame.distinct (hframe : ClientFrame i s s')
    (hinUse : ∀ j (g : Fin chaosMaxConns), (s.clients j).conn = g.val →
      (s.core.conns g).state ≠ connFree)
    (hdistinct : ∀ j j' (g : Fin chaosMaxConns), (s.clients j).conn = g.val →
      (s.clients j').conn = g.val → j = j')
    (j j' : Fin streamMaxClients) (g : Fin chaosMaxConns) (hown : (s'.clients j).conn = g.val)
    (hown' : (s'.clients j').conn = g.val) : j = j' := by
  have hback : ∀ a b : Fin streamMaxClients, b ≠ i → (s'.clients a).conn = g.val →
      (s'.clients b).conn = g.val → (s.clients a).conn = g.val ∧ (s.clients b).conn = g.val := by
    intro a b hb ha hb'
    rw [hframe.others b hb] at hb'
    refine ⟨?_, hb'⟩
    by_cases hai : a = i
    · subst hai
      exact hframe.conn g (hinUse b g hb') ha
    · rwa [hframe.others a hai] at ha
  by_cases hj : j = i
  · by_cases hj' : j' = i
    · rw [hj, hj']
    · obtain ⟨h1, h2⟩ := hback j j' hj' hown hown'
      exact hdistinct j j' g h1 h2
  · obtain ⟨h1, h2⟩ := hback j' j hj hown' hown
    exact hdistinct j j' g h2 h1

theorem clients_setClient (s : StreamServer) (i : Fin streamMaxClients) (k : StreamClient) :
    (s.setClient i k).clients i = k := by
  simp [StreamServer.setClient]

theorem clients_setClient_ne (s : StreamServer) {i j : Fin streamMaxClients} (h : j ≠ i)
    (k : StreamClient) : (s.setClient i k).clients j = s.clients j := by
  simp [StreamServer.setClient, h]

/-- A change of the client's own record. -/
theorem ClientFrame.setClient (hs : Reachable s.core) {k : StreamClient}
    (hconn : k.conn = (s.clients i).conn ∨ k.conn = -1) : ClientFrame i s (s.setClient i k) where
  hosts := rfl
  myAddr := rfl
  reachable := hs
  others := fun _ hj => clients_setClient_ne s hj k
  conns := fun _ _ _ => rfl
  conn := by
    intro g _ heq
    rw [clients_setClient] at heq
    rcases hconn with h | h
    · rwa [← h]
    · omega
  releases := List.prefix_rfl

/-- A call of the core for the client. -/
theorem ClientFrame.call (hs : Reachable s.core) {e : CoreEvent}
    (hcall : ByUser (s.clients i).conn e.call) :
    ClientFrame i s { s with core := coreStep s.core e } where
  hosts := rfl
  myAddr := coreStep_myAddr hs.coreOk e
  reachable := hs.step e
  others := fun _ _ => rfl
  conns := fun _ hinUse hother => coreStep_spares hs.coreOk hcall hinUse hother
  conn := fun _ _ heq => heq
  releases := List.prefix_rfl

/-- A call of the core that ends in a change of the client's record. -/
theorem ClientFrame.callSet (hs : Reachable s.core) {e : CoreEvent} {k : StreamClient}
    (hcall : ByUser (s.clients i).conn e.call)
    (hconn : k.conn = (s.clients i).conn ∨ k.conn = -1) :
    ClientFrame i s ({ s with core := coreStep s.core e }.setClient i k) :=
  (ClientFrame.call hs hcall).trans (.setClient (hs.step e) hconn)

theorem releaseConn_frame (hs : Reachable s.core) (reason : List Byte) (nowMs : Millis) :
    ClientFrame i s (releaseConn s i reason nowMs) := by
  have hcall : ByUser (s.clients i).conn (CoreCall.chaosRelease (s.clients i).conn reason) := rfl
  have h := ClientFrame.call (e := ⟨.chaosRelease (s.clients i).conn reason, nowMs⟩) hs hcall
  exact ⟨h.hosts, h.myAddr, h.reachable, h.others, h.conns, h.conn, List.prefix_append _ _⟩

theorem clientClose_frame (hs : Reachable s.core) (reason : List Byte) (nowMs : Millis) :
    ClientFrame i s (clientClose s i reason nowMs) := by
  unfold clientClose
  split
  · have h := releaseConn_frame (i := i) hs reason nowMs
    exact h.trans (.setClient h.reachable (Or.inr rfl))
  · exact .setClient hs (Or.inr rfl)

@[simp] theorem outAppend_conn (k : StreamClient) (data : List Byte) :
    (outAppend k data).conn = k.conn := rfl

@[simp] theorem outLine_conn (k : StreamClient) (verb text : List Byte) :
    (outLine k verb text).conn = k.conn := rfl

@[simp] theorem failClient_conn (k : StreamClient) (verb text : List Byte) :
    (failClient k verb text).conn = k.conn := rfl

/-- `chaos_open` for the client, and a record with the handle it returned. -/
theorem chaosOpen_frame (hs : Reachable s.core) (addr : UShort) (contact : List Byte)
    (nowMs : Millis) {k : StreamClient}
    (hk : k.conn = (chaosOpen s.core addr contact nowMs).1) :
    ClientFrame i s ({ s with core := (chaosOpen s.core addr contact nowMs).2 }.setClient i k) := by
  have hopen := ClientFrame.call (i := i) (e := ⟨.chaosOpen addr contact, nowMs⟩) hs trivial
  refine ⟨rfl, hopen.myAddr, hopen.reachable, fun j hj => clients_setClient_ne _ hj k,
    hopen.conns, ?_, List.prefix_rfl⟩
  intro g hinUse heq
  rw [clients_setClient, hk] at heq
  exact absurd (chaosOpen_conn heq).1 hinUse

theorem handleRequest_frame (hs : Reachable s.core) (nowMs : Millis) :
    ClientFrame i s (handleRequest s i nowMs) := by
  unfold handleRequest
  dsimp only
  split
  · exact .setClient hs (Or.inl rfl)
  · split
    · exact chaosOpen_frame hs _ _ _ rfl
    · exact chaosOpen_frame hs _ _ _ rfl

/-- The fields the end of the line sets. -/
theorem endLine_eq (k : StreamClient) (b : Byte) (buf : List Byte) :
    endLine k b buf = { k with
      inBuf := (endLine k b buf).inBuf, placed := (endLine k b buf).placed
      skipLf := (endLine k b buf).skipLf } := by
  unfold endLine
  generalize (if b = 13 ∧ buf.head? = some 10 then buf.tail else buf) = rest
  dsimp only
  split <;> rfl

theorem endLine_conn (k : StreamClient) (b : Byte) (buf : List Byte) :
    (endLine k b buf).conn = k.conn := by
  rw [endLine_eq]

theorem lineInput_frame (hs : Reachable s.core) (nowMs : Millis) (buf : List Byte) :
    ClientFrame i s (lineInput s i nowMs buf) := by
  induction buf generalizing s with
  | nil => exact .refl hs
  | cons b buf ih =>
      unfold lineInput
      dsimp only
      split
      · have hset : ClientFrame i s (s.setClient i (endLine (s.clients i) b buf)) :=
          .setClient hs (Or.inl (endLine_conn _ _ _))
        exact hset.trans (handleRequest_frame hset.reachable nowMs)
      · split
        · exact .setClient hs (Or.inl rfl)
        · have hset : ClientFrame i s (s.setClient i
              { s.clients i with line := (s.clients i).line ++ [b] }) := .setClient hs (Or.inl rfl)
          exact hset.trans (ih hset.reachable)

theorem clientTake_frame (hs : Reachable s.core) (buf : List Byte) (nowMs : Millis) :
    ClientFrame i s (clientTake s i buf nowMs) := by
  unfold clientTake
  dsimp only
  split
  · have hset : ClientFrame i s (s.setClient i
        { s.clients i with taken := (s.clients i).taken ++ buf }) := .setClient hs (Or.inl rfl)
    exact hset.trans (lineInput_frame hset.reachable nowMs _)
  · exact .setClient hs (Or.inl rfl)

theorem clientRead_frame (hs : Reachable s.core) (result : ReadResult) (nowMs : Millis) :
    ClientFrame i s (clientRead s i result nowMs) := by
  unfold clientRead
  dsimp only
  split
  · exact .refl hs
  cases result with
  | again => exact .refl hs
  | failed => exact clientClose_frame hs _ _
  | got buf =>
      dsimp only
      split
      · split
        · exact clientClose_frame hs _ _
        · exact .setClient hs (Or.inl rfl)
      · exact clientTake_frame hs _ _

theorem clientWrite_frame (hs : Reachable s.core) (results : List WriteResult)
    (nowMs : Millis) : ClientFrame i s (clientWrite s i results nowMs).1 := by
  have hset : ClientFrame i s (s.setClient i { s.clients i with
      out := (writeLoop results (s.clients i).out).2.1
      written := (s.clients i).written ++ (writeLoop results (s.clients i).out).1 }) :=
    .setClient hs (Or.inl rfl)
  unfold clientWrite
  dsimp only
  split
  · exact hset.trans (clientClose_frame hset.reachable _ _)
  · exact hset

/-! ### Service -/

theorem serviceSend_frame (hs : Reachable s.core) (nowMs : Millis) :
    ClientFrame i s (serviceSend s i nowMs) := by
  unfold serviceSend
  dsimp only
  split
  · exact .callSet (e := ⟨.chaosSend (s.clients i).conn (s.clients i).inBuf, nowMs⟩) hs rfl
      (Or.inl rfl)
  · exact .refl hs

theorem serviceFinish_frame (hs : Reachable s.core) (nowMs : Millis) :
    ClientFrame i s (serviceFinish s i nowMs) := by
  unfold serviceFinish
  dsimp only
  split
  · exact .callSet (e := ⟨.chaosFinish (s.clients i).conn, nowMs⟩) hs rfl (Or.inl rfl)
  · exact .refl hs

theorem serviceRecv_frame (hs : Reachable s.core) (nowMs : Millis) :
    ClientFrame i s (serviceRecv s i nowMs) := by
  unfold serviceRecv
  dsimp only
  split
  · exact .callSet (e := ⟨.chaosRecv (s.clients i).conn
      (streamOutbuf - (s.clients i).out.length), nowMs⟩) hs rfl (Or.inl rfl)
  · exact .refl hs

theorem serviceShut_frame (hs : Reachable s.core) : ClientFrame i s (serviceShut s i) := by
  unfold serviceShut
  dsimp only
  split
  · exact .setClient hs (Or.inl rfl)
  · exact .refl hs

theorem serviceDrain_frame (hs : Reachable s.core) (results : List WriteResult)
    (nowMs : Millis) : ClientFrame i s (serviceDrain s i results nowMs) := by
  have hwrite := clientWrite_frame (i := i) hs results nowMs
  unfold serviceDrain
  dsimp only
  split
  · exact hwrite.trans (clientClose_frame hwrite.reachable _ _)
  · exact hwrite

theorem serviceStream_frame (hs : Reachable s.core) (results : List WriteResult)
    (nowMs : Millis) : ClientFrame i s (serviceStream s i results nowMs) := by
  have hsend := serviceSend_frame (i := i) hs nowMs
  have hfinish := hsend.trans (serviceFinish_frame hsend.reachable nowMs)
  have hrecv := hfinish.trans (serviceRecv_frame hfinish.reachable nowMs)
  have hwrite := hrecv.trans (clientWrite_frame hrecv.reachable results nowMs)
  unfold serviceStream
  dsimp only
  split
  · have hshut := hwrite.trans (serviceShut_frame hwrite.reachable)
    split
    · exact hshut.trans (clientClose_frame hshut.reachable _ _)
    · exact hshut
  · exact hwrite

theorem closedLine_conn (k : StreamClient) (conn : ChaosConn) :
    (closedLine k conn).conn = k.conn := by
  unfold closedLine
  split <;> rfl

/-- The connection closed before the client was told of its OPN. -/
theorem closedRelease_frame (hs : Reachable s.core) (h : Fin chaosMaxConns) (nowMs : Millis) :
    ClientFrame i s ((releaseConn (s.setClient i (closedLine (s.clients i) (s.core.conns h))) i []
      nowMs).setClient i { (releaseConn (s.setClient i (closedLine (s.clients i)
        (s.core.conns h))) i [] nowMs).clients i with conn := -1, state := clientDrain }) := by
  have hline : ClientFrame i s (s.setClient i (closedLine (s.clients i) (s.core.conns h))) :=
    .setClient hs (Or.inl (closedLine_conn _ _))
  have hrel := hline.trans (releaseConn_frame hline.reachable [] nowMs)
  exact hrel.trans (.setClient hrel.reachable (Or.inr rfl))

theorem serviceWait_frame (hs : Reachable s.core) (results : List WriteResult)
    (nowMs : Millis) : ClientFrame i s (serviceWait s i results nowMs) := by
  unfold serviceWait
  dsimp only
  split
  · have hset : ClientFrame i s (s.setClient i (failClient (s.clients i) (bytesOf "LOS")
        (bytesOf "Connection vanished"))) := .setClient hs (Or.inl rfl)
    exact hset.trans (serviceDrain_frame hset.reachable _ _)
  · next h hhandle =>
    split
    · have hset : ClientFrame i s (s.setClient i { outAppend (s.clients i)
          (opnLine (s.clients i).addr) with state := clientStream }) := .setClient hs (Or.inl rfl)
      exact hset.trans (serviceStream_frame hset.reachable _ _)
    · split
      · have hset := closedRelease_frame (i := i) hs h nowMs
        exact hset.trans (serviceDrain_frame hset.reachable _ _)
      · exact .refl hs

theorem clientService_frame (hs : Reachable s.core) (results : List WriteResult)
    (nowMs : Millis) : ClientFrame i s (clientService s i results nowMs) := by
  unfold clientService
  dsimp only
  split
  · exact serviceWait_frame hs _ _
  · split
    · have hset : ClientFrame i s (s.setClient i { s.clients i with state := clientDrain }) :=
        .setClient hs (Or.inl rfl)
      exact hset.trans (serviceDrain_frame hset.reachable _ _)
    · exact serviceStream_frame hs _ _
  · exact serviceDrain_frame hs _ _
  · exact .refl hs

theorem clientPoll_frame (hs : Reachable s.core) (asked : Bool × Bool) (io : ClientIo)
    (nowMs : Millis) : ClientFrame i s (clientPoll s i asked io nowMs) := by
  unfold clientPoll
  split
  · exact .refl hs
  dsimp only
  generalize hr : (if (asked.2 && (io.pollOut || io.pollHup || io.pollErr)) = true then
    clientWrite s i io.results nowMs else (s, true)) = r
  have hwrite : ClientFrame i s r.1 := by
    rw [← hr]
    split
    · exact clientWrite_frame hs _ _
    · exact .refl hs
  split
  · split
    · exact hwrite.trans (clientRead_frame hwrite.reachable _ _)
    · split
      · exact hwrite.trans (clientClose_frame hwrite.reachable _ _)
      · exact hwrite
  · exact hwrite

end Frame

/-! ### All clients -/

theorem streamAdopt_cases (s : StreamServer) :
    streamAdopt s = s ∨ ∃ i, (s.clients i).state = clientFree ∧
      streamAdopt s = s.setClient i { state := clientLine } := by
  unfold streamAdopt
  cases hfree : (List.finRange streamMaxClients).find? fun i =>
      (s.clients i).state = clientFree with
  | none => exact Or.inl rfl
  | some i => exact Or.inr ⟨i, by simpa using List.find?_some hfree, rfl⟩

/-- **Rule for a round over the clients.**  When its turn comes a client is still
as it was before the round. -/
theorem eachClient_invariant {I : StreamServer → Prop} {s : StreamServer}
    {f : StreamServer → Fin streamMaxClients → StreamServer}
    (hframe : ∀ t i, Reachable t.core → ClientFrame i t (f t i))
    (hstep : ∀ t i, Reachable t.core → I t → t.clients i = s.clients i →
      (s.clients i).state ≠ clientFree → I (f t i))
    (hs : Reachable s.core) (hI : I s) :
    Reachable (s.eachClient f).core ∧ I (s.eachClient f) := by
  have hround : ∀ (is : List (Fin streamMaxClients)) (t : StreamServer), is.Nodup →
      (∀ i ∈ is, t.clients i = s.clients i) → Reachable t.core → I t →
      let u := is.foldl (fun s i => if (s.clients i).state = clientFree then s else f s i) t
      Reachable u.core ∧ I u := by
    intro is
    induction is with
    | nil =>
        intro t _ _ ht hIt
        exact ⟨ht, hIt⟩
    | cons i is ih =>
        intro t hnodup hsame ht hIt
        obtain ⟨hnot, hnodup'⟩ := List.nodup_cons.mp hnodup
        have hi := hsame i List.mem_cons_self
        rw [List.foldl_cons]
        split
        · exact ih t hnodup' (fun j hj => hsame j (List.mem_cons_of_mem i hj)) ht hIt
        · next hbusy =>
          have hf := hframe t i ht
          refine ih (f t i) hnodup' ?_ hf.reachable (hstep t i ht hIt hi (hi ▸ hbusy))
          intro j hj
          have hne : j ≠ i := fun heq => hnot (heq ▸ hj)
          rw [hf.others j hne, hsame j (List.mem_cons_of_mem i hj)]
  exact hround _ s (List.nodup_finRange _) (fun _ _ => rfl) hs hI

/-- **Rule for what each client gets in a round.**  Its own turn brings it about and
the turns of the others leave it. -/
theorem eachClient_each {I : StreamServer → Prop} {R : StreamServer → Fin streamMaxClients → Prop}
    {s : StreamServer} {f : StreamServer → Fin streamMaxClients → StreamServer}
    (hstep : ∀ t i, I t → I (f t i)) (hfree : ∀ t i, (t.clients i).state = clientFree → R t i)
    (hdone : ∀ t i, I t → R (f t i) i)
    (hkeep : ∀ t i j, I t → j ≠ i → R t j → R (f t i) j) (hI : I s) :
    ∀ i, R (s.eachClient f) i := by
  have hround : ∀ (is : List (Fin streamMaxClients)) (t : StreamServer), I t →
      (∀ j, j ∉ is → R t j) →
      ∀ j, R (is.foldl (fun s i => if (s.clients i).state = clientFree then s else f s i) t) j := by
    intro is
    induction is with
    | nil =>
        intro t _ hall j
        exact hall j List.not_mem_nil
    | cons i is ih =>
        intro t hIt hall
        rw [List.foldl_cons]
        split
        · next hf =>
          refine ih t hIt fun j hj => ?_
          by_cases hji : j = i
          · rw [hji]
            exact hfree t i hf
          · exact hall j (List.not_mem_cons_of_ne_of_not_mem hji hj)
        · refine ih (f t i) (hstep t i hIt) fun j hj => ?_
          by_cases hji : j = i
          · rw [hji]
            exact hdone t i hIt
          · exact hkeep t i j hIt hji (hall j (List.not_mem_cons_of_ne_of_not_mem hji hj))
  exact hround _ s hI fun j hj => absurd (List.mem_finRange j) hj

end Stream
