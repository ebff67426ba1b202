import OsxVlm.Stream.Serving

/-!
# Clients, connections and the bytes between them

`BridgeOk` holds in every reachable state, whatever the frames: the clients that
hold a connection number share the slots of the core in use among themselves,
the bytes read from a client are those its connection took and those still
buffered, and what is written to it is its status line and the bytes received.
Each function that works for one client keeps it.
-/

namespace Stream

open Chaos ChaosConnState ChaosCloseKind ClientState

/-! ### Status lines -/

/-- The text of a status line. -/
def statusText (verb text : List Byte) : List Byte :=
  let head := verb ++ [0x20]
  let body := (text.map printable).take (chaosMaxData + 32 - 3 - head.length)
  (head ++ body).rdropWhile (· = 0x20) ++ crLf

theorem outLine_eq (k : StreamClient) (verb text : List Byte) :
    outLine k verb text = outAppend k (statusText verb text) := rfl

/-- What a client is told before any data: that it is connected, that it was
refused, or the data of an ANS with its length. -/
inductive StatusLine : List Byte → Prop
  | opn (addr : UShort) : StatusLine (opnLine addr)
  | refused (verb text : List Byte) (known : verb = bytesOf "LOS" ∨ verb = bytesOf "CLS") :
      StatusLine (statusText verb text)
  | answer (data : List Byte) : StatusLine (ansLine data.length ++ data)

theorem statusText_length {verb : List Byte} (text : List Byte)
    (known : verb = bytesOf "LOS" ∨ verb = bytesOf "CLS") :
    (statusText verb text).length ≤ streamOutbuf := by
  have hverb : verb.length = 3 := by
    rcases known with rfl | rfl
    · decide
    · decide
  have hhead : (verb ++ [(0x20 : Byte)]).length = 4 := by
    rw [List.length_append, hverb]
    rfl
  have htake := List.length_take_le (chaosMaxData + 32 - 3 - 4) (text.map printable)
  unfold statusText
  dsimp only
  rw [hhead, List.length_append]
  have hdrop := (List.rdropWhile_prefix (fun b : Byte => b = 0x20) (verb ++ [0x20] ++
    (text.map printable).take (chaosMaxData + 32 - 3 - 4))).length_le
  rw [List.length_append, hhead] at hdrop
  have : chaosMaxData = 488 := rfl
  have : crLf.length = 2 := rfl
  have : streamOutbuf = 8192 := rfl
  omega

theorem ansLine_length {n : Nat} (hn : n ≤ chaosMaxData) : (ansLine n).length ≤ 9 := by
  have hdigits : (Nat.toDigits 10 n).length ≤ 3 := by
    apply Nat.toDigits_length
    · decide
    · exact lt_of_le_of_lt hn (by decide)
  have hbytes : (bytesOf (String.ofList (Nat.toDigits 10 n))).length =
      (Nat.toDigits 10 n).length := by
    rw [bytesOf, List.length_map, String.toList_ofList]
  have hhead : (bytesOf "ANS ").length = 4 := by decide
  rw [ansLine, List.length_append, List.length_append, hhead, hbytes]
  have : crLf.length = 2 := rfl
  omega

/-! ### The invariant -/

/-- The buffers hold no more than they can. -/
structure Fits (k : StreamClient) : Prop where
  inBuf : k.inBuf.length ≤ streamInbuf
  out : k.out.length ≤ streamOutbuf

/-- How the bytes of a client stand between its socket and its connection. -/
inductive Bridged (k : StreamClient) (conns : Fin chaosMaxConns → ChaosConn) : Prop
  | free (state : k.state = clientFree) (conn : k.conn < 0)
  | line (state : k.state = clientLine) (conn : k.conn < 0) (untold : Untold k)
      (fed : k.placed = k.inBuf)
  | waiting (h : Fin chaosMaxConns) (state : k.state = clientWaitOpn) (conn : k.conn = h.val)
      (inUse : (conns h).state ≠ connFree) (untold : Untold k) (fed : k.placed = k.inBuf)
      (unsent : dataBytes (conns h).assigned = [])
  | streaming (h : Fin chaosMaxConns) (state : k.state = clientStream) (conn : k.conn = h.val)
      (inUse : (conns h).state ≠ connFree)
      (told : k.written ++ k.out = opnLine k.addr ++ k.relayed)
      (fed : k.placed = dataBytes (conns h).assigned ++ k.inBuf)
  | drain (line : List Byte) (state : k.state = clientDrain) (conn : k.conn < 0)
      (status : StatusLine line) (told : k.written ++ k.out = line ++ k.relayed)
      (fed : k.placed = k.inBuf)

/-- What a client has been told. -/
def Told (k : StreamClient) : Prop :=
  Untold k ∨ ∃ line, StatusLine line ∧ k.written ++ k.out = line ++ k.relayed

/-- A client and its connection when it is given back. -/
structure ReleaseBridged (r : Release) : Prop where
  fed : r.client.placed = dataBytes r.conn.assigned ++ r.client.inBuf
  told : Told r.client

/-- **The invariant of the bridge.** -/
structure BridgeOk (s : StreamServer) : Prop where
  reachable : Reachable s.core
  client : ∀ i, Bridged (s.clients i) s.core.conns
  fits : ∀ i, Fits (s.clients i)
  distinct : ∀ i j h, Owns s i h → Owns s j h → i = j
  noLeak : ∀ h, (s.core.conns h).state ≠ connFree → ∃ i, Owns s i h
  released : ∀ r ∈ s.releases, ReleaseBridged r

section Bridged

variable {k k' : StreamClient} {conns conns' : Fin chaosMaxConns → ChaosConn}

theorem Bridged.inUse (hk : Bridged k conns) {h : Fin chaosMaxConns} (hconn : k.conn = h.val) :
    (conns h).state ≠ connFree := by
  cases hk with
  | free state conn => omega
  | line state conn untold fed => omega
  | waiting g state conn inUse untold fed unsent =>
      obtain rfl : g = h := Fin.ext (by omega)
      exact inUse
  | streaming g state conn inUse told fed =>
      obtain rfl : g = h := Fin.ext (by omega)
      exact inUse
  | drain line state conn status told fed => omega

/-- Of the connection only its use and the data it numbered matter. -/
theorem Bridged.congr (hk : Bridged k conns)
    (hsame : ∀ h : Fin chaosMaxConns, k.conn = h.val →
      ((conns h).state ≠ connFree → (conns' h).state ≠ connFree) ∧
        dataBytes (conns' h).assigned = dataBytes (conns h).assigned) :
    Bridged k conns' := by
  cases hk with
  | free state conn => exact .free state conn
  | line state conn untold fed => exact .line state conn untold fed
  | waiting h state conn inUse untold fed unsent =>
      obtain ⟨huse, hdata⟩ := hsame h conn
      exact .waiting h state conn (huse inUse) untold fed (hdata.trans unsent)
  | streaming h state conn inUse told fed =>
      obtain ⟨huse, hdata⟩ := hsame h conn
      exact .streaming h state conn (huse inUse) told (by rw [hdata, fed])
  | drain line state conn status told fed => exact .drain line state conn status told fed

theorem Untold.congr (hu : Untold k) (hout : k'.out = k.out) (hrelayed : k'.relayed = k.relayed)
    (hwritten : k'.written = k.written) : Untold k' :=
  ⟨hout.trans hu.out, hrelayed.trans hu.relayed, hwritten.trans hu.written⟩

/-- Bytes put into the input buffer, and writes to the socket, change nothing. -/
theorem Bridged.same (hk : Bridged k conns) (buf : List Byte) (hstate : k'.state = k.state)
    (hconn : k'.conn = k.conn) (haddr : k'.addr = k.addr) (hout : k'.out = k.out)
    (hrelayed : k'.relayed = k.relayed) (hwritten : k'.written = k.written)
    (hinBuf : k'.inBuf = k.inBuf ++ buf) (hplaced : k'.placed = k.placed ++ buf) :
    Bridged k' conns := by
  cases hk with
  | free state conn => exact .free (hstate.trans state) (by rwa [hconn])
  | line state conn untold fed =>
      exact .line (hstate.trans state) (by rwa [hconn]) (untold.congr hout hrelayed hwritten)
        (by rw [hplaced, hinBuf, fed])
  | waiting h state conn inUse untold fed unsent =>
      exact .waiting h (hstate.trans state) (hconn.trans conn) inUse
        (untold.congr hout hrelayed hwritten) (by rw [hplaced, hinBuf, fed]) unsent
  | streaming h state conn inUse told fed =>
      refine .streaming h (hstate.trans state) (hconn.trans conn) inUse ?_ ?_
      · rw [hwritten, hout, haddr, hrelayed, told]
      · rw [hplaced, hinBuf, fed, List.append_assoc]
  | drain line state conn status told fed =>
      refine .drain line (hstate.trans state) (by rwa [hconn]) status ?_ ?_
      · rw [hwritten, hout, hrelayed, told]
      · rw [hplaced, hinBuf, fed]

/-- Writes move bytes from the output buffer to the socket. -/
theorem Bridged.write (hk : Bridged k conns) (results : List WriteResult) :
    Bridged { k with
      out := (writeLoop results k.out).2.1
      written := k.written ++ (writeLoop results k.out).1 } conns := by
  have htold : (k.written ++ (writeLoop results k.out).1) ++ (writeLoop results k.out).2.1 =
      k.written ++ k.out := by rw [List.append_assoc, writeLoop_eq]
  cases hk with
  | free state conn => exact .free state conn
  | line state conn untold fed => exact .line state conn (untold.write results) fed
  | waiting h state conn inUse untold fed unsent =>
      exact .waiting h state conn inUse (untold.write results) fed unsent
  | streaming h state conn inUse told fed =>
      exact .streaming h state conn inUse (htold.trans told) fed
  | drain line state conn status told fed =>
      exact .drain line state conn status (htold.trans told) fed

/-- What the client has been told and sent, whatever its state. -/
theorem Bridged.released (hk : Bridged k conns) {h : Fin chaosMaxConns}
    (hconn : k.conn = h.val) (reason : List Byte) :
    ReleaseBridged { client := k, conn := conns h, reason } := by
  cases hk with
  | free state conn => omega
  | line state conn untold fed => omega
  | waiting g state conn inUse untold fed unsent =>
      obtain rfl : g = h := Fin.ext (by omega)
      exact ⟨by rw [unsent, List.nil_append]; exact fed, Or.inl untold⟩
  | streaming g state conn inUse told fed =>
      obtain rfl : g = h := Fin.ext (by omega)
      exact ⟨fed, Or.inr ⟨opnLine k.addr, .opn _, told⟩⟩
  | drain line state conn status told fed => omega

/-- The first words to a client that was told nothing. -/
theorem Untold.tell (hu : Untold k) {data : List Byte} (hlen : data.length ≤ streamOutbuf) :
    (outAppend k data).out = data ∧
      (outAppend k data).written ++ (outAppend k data).out =
        data ++ (outAppend k data).relayed := by
  have hout : (outAppend k data).out = data := by
    unfold outAppend
    dsimp only
    rw [hu.out, List.nil_append]
    exact List.take_of_length_le hlen
  refine ⟨hout, ?_⟩
  rw [hout]
  unfold outAppend
  dsimp only
  rw [hu.written, hu.relayed, List.append_nil, List.nil_append]

end Bridged

/-! ### Slots of the core -/

/-- No call but `chaos_open` takes a free slot. -/
theorem coreStep_free {c : ChaosCore} (hc : CoreOk c) {e : CoreEvent}
    (hnot : ∀ addr contact, e.call ≠ .chaosOpen addr contact) {g : Fin chaosMaxConns}
    (hinUse : ((coreStep c e).conns g).state ≠ connFree) : (c.conns g).state ≠ connFree := by
  intro hfree
  obtain ⟨acts, hacts, hfrom⟩ := coreStep_acts hc.uniquizer e
  rw [hfrom.conns g] at hinUse
  have hact := hacts g
  generalize acts g = r at hact hinUse
  apply hinUse
  cases hact with
  | idle => exact hfree
  | opened u w n call free uniq length => exact absurd call (hnot _ _)
  | sent call alive => exact absurd hfree alive
  | finished call alive => exact absurd hfree alive
  | received call alive => exact absurd hfree alive
  | released call alive => exact absurd hfree alive
  | learned call live =>
      rw [hfree] at live
      exact absurd live (by decide)
  | input call read slot known => exact absurd hfree (not_or.mp known).1
  | learnedInput call live read slot known =>
      rw [hfree] at live
      exact absurd live (by decide)
  | ticked call =>
      unfold connTick
      rw [if_neg (by rw [hfree]; nofun), if_pos (by rw [hfree]; nofun)]
      exact hfree

/-- What `chaos_open` does to the slots, and when it refuses. -/
theorem chaosOpen_slots (c : ChaosCore) (addr : UShort) (contact : List Byte) (nowMs : Millis) :
    (chaosOpen c addr contact nowMs = (-1, c) ∧ (contact.length = 0 ∨
        chaosMaxData < contact.length ∨ ∀ g, (c.conns g).state ≠ connFree)) ∨
      ∃ h : Fin chaosMaxConns, (chaosOpen c addr contact nowMs).1 = h.val ∧
        ∀ g, g ≠ h → (chaosOpen c addr contact nowMs).2.conns g = c.conns g := by
  unfold chaosOpen
  split
  · next hlen => exact Or.inl ⟨rfl, by tauto⟩
  · cases hfree : (List.finRange chaosMaxConns).find? fun h =>
        (c.conns h).state = connFree with
    | none =>
        refine Or.inl ⟨rfl, Or.inr (Or.inr fun g => ?_)⟩
        simpa using List.find?_eq_none.mp hfree g (List.mem_finRange g)
    | some h =>
        refine Or.inr ⟨h, rfl, fun g hg => ?_⟩
        dsimp only
        rw [(perform_spec _ h _ nowMs).1, Function.update_of_ne hg]

theorem chaosRelease_free {c : ChaosCore} {h : Fin chaosMaxConns}
    (hinUse : (c.conns h).state ≠ connFree) (reason : List Byte) (nowMs : Millis) :
    ((chaosRelease c h.val reason nowMs).conns h).state = connFree := by
  unfold chaosRelease
  rw [connForHandle_inUse hinUse]
  dsimp only
  rw [(perform_spec _ h _ nowMs).1, Function.update_self]
  rfl

/-! ### Work for one client -/

section Client

variable {s s' : StreamServer} {i : Fin streamMaxClients}

theorem BridgeOk.inUse (h : BridgeOk s) (j : Fin streamMaxClients) (g : Fin chaosMaxConns)
    (hown : Owns s j g) : (s.core.conns g).state ≠ connFree := (h.client j).inUse hown

/-- Work for client `i` that is right for it keeps the invariant. -/
theorem BridgeOk.step (h : BridgeOk s) (hframe : ClientFrame i s s')
    (hi : Bridged (s'.clients i) s'.core.conns) (hfits : Fits (s'.clients i))
    (hslots : ∀ g, (s'.core.conns g).state ≠ connFree →
      Owns s' i g ∨ (s.core.conns g).state ≠ connFree ∧ ¬ Owns s i g)
    (hrel : ∀ r ∈ s'.releases, r ∈ s.releases ∨ ReleaseBridged r) : BridgeOk s' := by
  refine { reachable := hframe.reachable, client := fun j => ?_, fits := fun j => ?_
           distinct := hframe.distinct h.inUse h.distinct
           noLeak := fun g hg => ?_, released := fun r hr => ?_ }
  · by_cases hj : j = i
    · subst hj
      exact hi
    · rw [hframe.others j hj]
      refine (h.client j).congr fun g hown => ?_
      rw [hframe.other h.inUse h.distinct hj hown]
      exact ⟨id, rfl⟩
  · by_cases hj : j = i
    · subst hj
      exact hfits
    · rw [hframe.others j hj]
      exact h.fits j
  · rcases hslots g hg with hown | ⟨hbusy, hnot⟩
    · exact ⟨i, hown⟩
    · obtain ⟨j, hown⟩ := h.noLeak g hbusy
      have hj : j ≠ i := fun heq => hnot (heq ▸ hown)
      refine ⟨j, ?_⟩
      rw [Owns, hframe.others j hj]
      exact hown
  · rcases hrel r hr with hold | hok
    · exact h.released r hold
    · exact hok

/-- A change of the client's own record that keeps its connection, if it has one. -/
theorem BridgeOk.setClient (h : BridgeOk s) {k : StreamClient}
    (hconn : k.conn = (s.clients i).conn ∨ k.conn = -1 ∧ (s.clients i).conn < 0)
    (hk : Bridged k s.core.conns) (hfits : Fits k) : BridgeOk (s.setClient i k) := by
  have hframe : ClientFrame i s (s.setClient i k) :=
    .setClient h.reachable (hconn.imp_right And.left)
  apply h.step hframe _ _ _ fun r hr => Or.inl hr
  · rwa [clients_setClient]
  · rwa [clients_setClient]
  · intro g hg
    rcases hconn with hsame | ⟨-, hneg⟩
    · by_cases hown : Owns s i g
      · refine Or.inl ?_
        rw [Owns, clients_setClient, hsame]
        exact hown
      · exact Or.inr ⟨hg, hown⟩
    · refine Or.inr ⟨hg, fun hown => ?_⟩
      have hconn : (s.clients i).conn = g.val := hown
      omega

/-- A call of the core on the client's connection, and a change of its record. -/
theorem BridgeOk.called (h : BridgeOk s) {e : CoreEvent} {k : StreamClient}
    (hcall : ByUser (s.clients i).conn e.call)
    (hnot : ∀ addr contact, e.call ≠ .chaosOpen addr contact)
    (hconn : k.conn = (s.clients i).conn) (hk : Bridged k (coreStep s.core e).conns)
    (hfits : Fits k) : BridgeOk ({ s with core := coreStep s.core e }.setClient i k) := by
  have hclient := clients_setClient { s with core := coreStep s.core e } i k
  apply h.step (ClientFrame.callSet h.reachable hcall (Or.inl hconn)) _ _ _ fun r hr => Or.inl hr
  · rwa [hclient]
  · rwa [hclient]
  · intro g hg
    by_cases hown : Owns s i g
    · refine Or.inl ?_
      rw [Owns, hclient, hconn]
      exact hown
    · exact Or.inr ⟨coreStep_free h.reachable.coreOk hnot hg, hown⟩

/-- The client's connection is given back, and its record says so. -/
theorem BridgeOk.release (h : BridgeOk s) {k k' : StreamClient} {reason : List Byte}
    {nowMs : Millis} (hconn : k.conn = (s.clients i).conn)
    (hrel : ∀ g, Owns s i g → ReleaseBridged { client := k, conn := s.core.conns g, reason })
    (hk' : Bridged k' (fun _ => {})) (hneg : k'.conn < 0) (hfits : Fits k') 
    (hframe : ClientFrame i s ((releaseConn (s.setClient i k) i reason nowMs).setClient i k')) :
    BridgeOk ((releaseConn (s.setClient i k) i reason nowMs).setClient i k') := by
  have hclient := clients_setClient (releaseConn (s.setClient i k) i reason nowMs) i k'
  apply h.step hframe
  · rw [hclient]
    refine hk'.congr fun g hg => ?_
    omega
  · rwa [hclient]
  · intro g hg
    refine Or.inr ?_
    have hold : (s.core.conns g).state ≠ connFree :=
      coreStep_free (e := ⟨.chaosRelease ((s.setClient i k).clients i).conn reason, nowMs⟩)
        h.reachable.coreOk (fun _ _ => nofun) hg
    refine ⟨hold, fun hown => hg ?_⟩
    have hfree := chaosRelease_free hold reason nowMs
    rw [← hown, ← hconn] at hfree
    change ((chaosRelease s.core ((s.setClient i k).clients i).conn reason nowMs).conns g).state =
      connFree
    rwa [clients_setClient]
  · intro r hr
    rcases releaseConn_releases reason nowMs hr with hold | ⟨g, hown, rfl⟩
    · exact Or.inl hold
    · rw [Owns, clients_setClient, hconn] at hown
      rw [clients_setClient]
      exact Or.inr (hrel g hown)

end Client

end Stream
