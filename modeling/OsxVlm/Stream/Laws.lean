import OsxVlm.Stream.Transparent

/-!
# The laws of the bridge

`bridge_law` says what a client has sent and been written in every reachable
state, `ownership_law` which connections are in use there, and that a request
that fits a packet is never refused for lack of a connection.
-/

namespace Stream

open Chaos ChaosConnState ChaosCloseKind ClientState

/-! ### Byte transparency -/

/-- The bytes `chaos_send` has accepted for the client's connection. -/
def acceptedFor (s : StreamServer) (i : Fin streamMaxClients) : List Byte :=
  match connForHandle s.core (s.clients i).conn with
  | none => []
  | some h => dataBytes (s.core.conns h).assigned

theorem connForHandle_neg (c : ChaosCore) {conn : Int} (hneg : conn < 0) :
    connForHandle c conn = none := by
  unfold connForHandle
  exact dif_neg (by omega)

/-- What a client has sent and been written. -/
structure BridgeLaw (s : StreamServer) (i : Fin streamMaxClients) : Prop where
  /-- The bytes read after the request line were accepted by `chaos_send` or are
  still in the input buffer. -/
  read : (s.clients i).request ≠ none →
    afterLine (s.clients i).taken = acceptedFor s i ++ (s.clients i).inBuf
  /-- Nothing is said to the client before its request is answered. -/
  unanswered : (s.clients i).state = clientLine ∨ (s.clients i).state = clientWaitOpn →
    Untold (s.clients i)
  /-- A streaming client is sent the OPN line and the bytes `chaos_recv` returned. -/
  streaming : (s.clients i).state = clientStream → (s.clients i).written ++ (s.clients i).out =
    opnLine (s.clients i).addr ++ (s.clients i).relayed
  /-- Any other is sent a status line, with the data of an ANS. -/
  drained : (s.clients i).state = clientDrain → ∃ line, StatusLine line ∧
    (s.clients i).written ++ (s.clients i).out = line ++ (s.clients i).relayed
  fits : Fits (s.clients i)
  /-- When the connection was given back the same held of it. -/
  released : ∀ r ∈ s.releases, ReleaseBridged r

theorem BridgeOk.placed {s : StreamServer} (h : BridgeOk s) (i : Fin streamMaxClients)
    (hbusy : (s.clients i).state ≠ clientFree) :
    (s.clients i).placed = acceptedFor s i ++ (s.clients i).inBuf := by
  unfold acceptedFor
  cases h.client i with
  | free state conn => exact absurd state hbusy
  | line state conn untold fed => rw [connForHandle_neg _ conn, fed, List.nil_append]
  | waiting g state conn inUse untold fed unsent =>
      rw [conn, connForHandle_inUse inUse, fed]
      dsimp only
      rw [unsent, List.nil_append]
  | streaming g state conn inUse told fed =>
      rw [conn, connForHandle_inUse inUse]
      exact fed
  | drain line state conn status told fed => rw [connForHandle_neg _ conn, fed, List.nil_append]

/-- **The bridge is byte-transparent.**  The second part says that the bytes
counted as accepted are those `chaos_send` reports, call by call. -/
theorem bridge_law {s : StreamServer} (hs : ReachableServer s) :
    (∀ i, BridgeLaw s i) ∧
      ∀ c : ChaosCore, Reachable c → ∀ g e, (c.conns g).state ≠ connFree → Keeps g e →
        dataBytes ((coreStep c e).conns g).assigned =
          dataBytes (c.conns g).assigned ++ acceptedBy g c e := by
  have h := hs.bridgeOk
  refine ⟨fun i => ?_, fun c hc g e hinUse hkeeps => coreStep_dataBytes hc.coreOk hinUse hkeeps⟩
  have hlaw := (hs.linesFit.2 i).law
  refine { read := fun hasked => ?_, unanswered := fun hstate => ?_
           streaming := fun hstream => ?_, drained := fun hdrain => ?_
           fits := h.fits i, released := h.released }
  · have hbusy : (s.clients i).state ≠ clientFree := by
      intro hfree
      cases (hs.linesFit.2 i).ok with
      | free state taken request answer placed => exact hasked request
      | reading state line noEnd fits request answer placed => exact hasked request
      | tooLong state long request answer placed => exact hasked request
      | complete l b rest asked =>
          rcases asked.state with hw | hst | hd
          · cases hfree.symm.trans hw
          · cases hfree.symm.trans hst
          · cases hfree.symm.trans hd
    rw [← h.placed i hbusy, hlaw.placed, if_neg hasked]
  · rcases hstate with hline | hwait
    · exact ((h.client i).ofLine hline).2.1
    · obtain ⟨g, -, -, huntold, -⟩ := (h.client i).ofWaiting hwait
      exact huntold
  · obtain ⟨g, -, -, htold, -⟩ := (h.client i).ofStream hstream
    exact htold
  · cases h.client i with
    | free state => cases hdrain.symm.trans state
    | line state => cases hdrain.symm.trans state
    | waiting g state => cases hdrain.symm.trans state
    | streaming g state => cases hdrain.symm.trans state
    | drain line state conn status told fed => exact ⟨line, status, told⟩

/-! ### Ownership -/

/-- A line that asks for a connection names a contact. -/
theorem parseRequest_contact {hosts : List StreamHost} {myAddr addr : UShort}
    {line contact : List Byte} (hok : parseRequest hosts myAddr line = .ok (addr, contact)) :
    contact ≠ [] := by
  unfold parseRequest at hok
  dsimp only at hok
  split at hok
  · cases hok
  · split at hok
    · cases hok
    · next hnamed =>
      split at hok
      · cases hok
      · split at hok
        · cases hok
        · obtain ⟨-, rfl⟩ := Prod.mk.inj (Except.ok.inj hok)
          exact (not_or.mp hnamed).2

/-- While a client holds no connection there is one for it: there are as many
slots as clients. -/
theorem BridgeOk.free_slot {s : StreamServer} (h : BridgeOk s) {i : Fin streamMaxClients}
    (hneg : (s.clients i).conn < 0) : ∃ g, (s.core.conns g).state = connFree := by
  by_contra hnone
  have howner : ∀ g : Fin chaosMaxConns, ∃ j, Owns s j g := fun g =>
    h.noLeak g fun hfree => hnone ⟨g, hfree⟩
  choose owner howner using howner
  have hinj : Function.Injective owner := by
    intro g g' heq
    have h1 := howner g
    have h2 := howner g'
    rw [← heq] at h2
    exact Fin.ext (Int.ofNat_inj.mp (Eq.symm h1 |>.trans h2))
  obtain ⟨g, hg⟩ := (Finite.injective_iff_surjective (α := Fin chaosMaxConns)).mp hinj i
  have hown : (s.clients i).conn = g.val := hg ▸ howner g
  omega

/-- A client whose request was well-formed and fits a packet waits on a
connection of its own. -/
def Granted (s : StreamServer) (i : Fin streamMaxClients) : Prop :=
  ∀ addr contact, (s.clients i).answer = some (.ok (addr, contact)) →
    contact.length ≤ chaosMaxData → (s.clients i).state = clientWaitOpn ∧
      ∃ h, Owns s i h ∧ (s.core.conns h).state = connRfcSent

section Granted

variable {s s' : StreamServer} {i j : Fin streamMaxClients} {nowMs : Millis}

theorem granted_of_none (hnone : (s.clients i).answer = none) : Granted s i := by
  intro addr contact hok
  rw [hnone] at hok
  cases hok

/-- Work for another client does not matter. -/
theorem Granted.other (hi : Granted s i) (h : BridgeOk s) (hframe : ClientFrame j s s')
    (hj : i ≠ j) : Granted s' i := by
  intro addr contact hok hlen
  rw [hframe.others i hj] at hok ⊢
  obtain ⟨hwait, g, hown, hrfc⟩ := hi addr contact hok hlen
  refine ⟨hwait, g, ?_, ?_⟩
  · rw [Owns, hframe.others i hj]
    exact hown
  · rw [hframe.other h.inUse h.distinct hj hown]
    exact hrfc

theorem handleRequest_granted (h : BridgeOk s) (hline : (s.clients i).state = clientLine) :
    Granted (handleRequest s i nowMs) i := by
  obtain ⟨hneg, -, -⟩ := (h.client i).ofLine hline
  have hanswer := (handleRequest_client s i nowMs).answer
  intro addr contact hok hlen
  rw [hanswer] at hok
  have hparse := Option.some.inj hok
  unfold handleRequest
  dsimp only
  rw [hparse]
  dsimp only
  rcases chaosOpen_slots s.core addr contact nowMs with ⟨-, hempty | hlong | hfull⟩ | ⟨g, hg, -⟩
  · exact absurd (List.length_eq_zero_iff.mp hempty) (parseRequest_contact hparse)
  · omega
  · obtain ⟨g, hfree⟩ := h.free_slot hneg
    exact absurd hfree (hfull g)
  · rw [if_neg (by omega), clients_setClient]
    refine ⟨rfl, g, ?_, (chaosOpen_fresh hg).1⟩
    rw [Owns, clients_setClient]
    exact hg

theorem lineInput_granted (h : BridgeOk s) (hline : (s.clients i).state = clientLine)
    (hnone : (s.clients i).answer = none) (buf : List Byte) :
    Granted (lineInput s i nowMs buf) i := by
  induction buf generalizing s with
  | nil => exact granted_of_none hnone
  | cons b buf ih =>
      unfold lineInput
      dsimp only
      split
      · apply handleRequest_granted (h.endLine hline b buf)
        rw [clients_setClient, endLine_eq]
        exact hline
      · split
        · apply granted_of_none
          rw [clients_setClient]
          exact hnone
        · obtain ⟨hneg, huntold, hfed⟩ := (h.client i).ofLine hline
          have hfits := h.fits i
          have hset : BridgeOk (s.setClient i
              { s.clients i with line := (s.clients i).line ++ [b] }) :=
            h.setClient (Or.inl rfl) (.line hline hneg (huntold.congr rfl rfl rfl) hfed)
              ⟨hfits.inBuf, hfits.out⟩
          apply ih hset
          · rw [clients_setClient]
            exact hline
          · rw [clients_setClient]
            exact hnone

theorem clientClose_none (reason : List Byte) :
    ((clientClose s i reason nowMs).clients i).answer = none := by
  rw [clientClose_client]

/-- A client that is still sending its line is polled. -/
theorem clientPoll_granted (h : BridgeOk s) (hline : (s.clients i).state = clientLine)
    (hnone : (s.clients i).answer = none) (asked : Bool × Bool) (io : ClientIo) :
    Granted (clientPoll s i asked io nowMs) i := by
  unfold clientPoll
  split
  · exact granted_of_none hnone
  dsimp only
  generalize hr : (if (asked.2 && (io.pollOut || io.pollHup || io.pollErr)) = true then
    clientWrite s i io.results nowMs else (s, true)) = r
  have hwrite : BridgeOk r.1 ∧ (r.1.clients i).answer = none ∧
      (r.2 = true → (r.1.clients i).state = clientLine) := by
    rw [← hr]
    split
    · refine ⟨h.clientWrite _ _, ?_⟩
      rcases clientWrite_client s i io.results nowMs with ⟨hfail, hclient⟩ | ⟨-, hclient⟩
      · rw [hclient, hfail]
        exact ⟨rfl, nofun⟩
      · rw [hclient]
        exact ⟨hnone, fun _ => hline⟩
    · exact ⟨h, hnone, fun _ => hline⟩
  obtain ⟨hok, hnone', hline'⟩ := hwrite
  split
  · next hgo =>
    replace hline' := hline' (Bool.and_eq_true_iff.mp hgo).1
    split
    · unfold clientRead
      dsimp only
      split
      · exact granted_of_none hnone'
      cases io.result with
      | again => exact granted_of_none hnone'
      | failed => exact granted_of_none (clientClose_none _)
      | got buf =>
          dsimp only
          split
          · rw [if_pos (Or.inl hline')]
            exact granted_of_none (clientClose_none _)
          · obtain ⟨hneg, huntold, hfed⟩ := (hok.client i).ofLine hline'
            have hfits := hok.fits i
            have hset : BridgeOk (r.1.setClient i { r.1.clients i with
                taken := (r.1.clients i).taken ++ buf.take (readWant (r.1.clients i)) }) :=
              hok.setClient (Or.inl rfl) (.line hline' hneg (huntold.congr rfl rfl rfl) hfed)
                ⟨hfits.inBuf, hfits.out⟩
            unfold clientTake
            dsimp only
            rw [if_pos hline']
            apply lineInput_granted hset
            · rw [clients_setClient]
              exact hline'
            · rw [clients_setClient]
              exact hnone'
    · split
      · exact granted_of_none (clientClose_none _)
      · exact granted_of_none hnone'
  · exact granted_of_none hnone'

/-- Serving a client forgets its answer only with the client. -/
def KeepsAnswer (k k' : StreamClient) : Prop := k'.answer = k.answer ∨ k'.answer = none

theorem KeepsAnswer.trans {a b c : StreamClient} (h1 : KeepsAnswer a b) (h2 : KeepsAnswer b c) :
    KeepsAnswer a c := by
  rcases h2 with h2 | h2
  · rcases h1 with h1 | h1
    · exact Or.inl (h2.trans h1)
    · exact Or.inr (h2.trans h1)
  · exact Or.inr h2

theorem clientWrite_keepsAnswer (s : StreamServer) (i : Fin streamMaxClients)
    (results : List WriteResult) (nowMs : Millis) :
    KeepsAnswer (s.clients i) ((clientWrite s i results nowMs).1.clients i) := by
  rcases clientWrite_client s i results nowMs with ⟨-, hclient⟩ | ⟨-, hclient⟩
  · exact Or.inr (by rw [hclient])
  · exact Or.inl (by rw [hclient])

theorem serviceDrain_keepsAnswer (s : StreamServer) (i : Fin streamMaxClients)
    (results : List WriteResult) (nowMs : Millis) :
    KeepsAnswer (s.clients i) ((serviceDrain s i results nowMs).clients i) := by
  unfold serviceDrain
  dsimp only
  split
  · exact Or.inr (clientClose_none _)
  · exact clientWrite_keepsAnswer s i results nowMs

theorem serviceStream_keepsAnswer (s : StreamServer) (i : Fin streamMaxClients)
    (results : List WriteResult) (nowMs : Millis) :
    KeepsAnswer (s.clients i) ((serviceStream s i results nowMs).clients i) := by
  have hsend : KeepsAnswer (s.clients i) ((serviceSend s i nowMs).clients i) :=
    Or.inl (serviceSend_same s i nowMs).answer
  have hfinish := hsend.trans (Or.inl (serviceFinish_same _ i nowMs).answer)
  have hrecv := hfinish.trans (Or.inl (serviceRecv_same _ i nowMs).answer)
  have hwrite := hrecv.trans (clientWrite_keepsAnswer _ i results nowMs)
  unfold serviceStream
  dsimp only
  split
  · split
    · exact Or.inr (clientClose_none _)
    · exact hwrite.trans (Or.inl (serviceShut_same _ i).answer)
  · exact hwrite

theorem serviceWait_keepsAnswer (s : StreamServer) (i : Fin streamMaxClients)
    (results : List WriteResult) (nowMs : Millis) :
    KeepsAnswer (s.clients i) ((serviceWait s i results nowMs).clients i) := by
  unfold serviceWait
  dsimp only
  split
  · refine KeepsAnswer.trans ?_ (serviceDrain_keepsAnswer _ i results nowMs)
    rw [clients_setClient]
    exact Or.inl rfl
  · next g hhandle =>
    split
    · refine KeepsAnswer.trans ?_ (serviceStream_keepsAnswer _ i results nowMs)
      rw [clients_setClient]
      exact Or.inl rfl
    · split
      · refine KeepsAnswer.trans ?_ (serviceDrain_keepsAnswer _ i results nowMs)
        have hclient : (releaseConn (s.setClient i (closedLine (s.clients i) (s.core.conns g))) i
          [] nowMs).clients i = closedLine (s.clients i) (s.core.conns g) := clients_setClient _ _ _
        rw [clients_setClient, hclient]
        exact Or.inl (closedLine_same _ _).answer
      · exact Or.inl rfl

theorem clientService_keepsAnswer (s : StreamServer) (i : Fin streamMaxClients)
    (results : List WriteResult) (nowMs : Millis) :
    KeepsAnswer (s.clients i) ((clientService s i results nowMs).clients i) := by
  unfold clientService
  dsimp only
  split
  · exact serviceWait_keepsAnswer s i results nowMs
  · split
    · refine KeepsAnswer.trans ?_ (serviceDrain_keepsAnswer _ i results nowMs)
      rw [clients_setClient]
      exact Or.inl rfl
    · exact serviceStream_keepsAnswer s i results nowMs
  · exact serviceDrain_keepsAnswer s i results nowMs
  · exact Or.inl rfl

/-- A granted connection is not lost to a service: its RFC is still out. -/
theorem clientService_granted (hi : Granted s i) (results : List WriteResult) :
    Granted (clientService s i results nowMs) i := by
  intro addr contact hok hlen
  rcases clientService_keepsAnswer s i results nowMs with hsame | hnone
  · rw [hsame] at hok
    obtain ⟨hwait, g, hown, hrfc⟩ := hi addr contact hok hlen
    have hhandle : connForHandle s.core (s.clients i).conn = some g := by
      rw [hown]
      apply connForHandle_inUse
      rw [hrfc]
      nofun
    have hidle : clientService s i results nowMs = s := by
      unfold clientService
      dsimp only
      rw [hwait]
      dsimp only
      unfold serviceWait
      dsimp only
      rw [hhandle]
      dsimp only
      rw [if_neg (by rw [hrfc]; nofun), if_neg (by rw [hrfc]; nofun)]
    rw [hidle]
    exact ⟨hwait, g, hown, hrfc⟩
  · rw [hnone] at hok
    cases hok

end Granted

/-- A round leaves a grant as it finds it when its turn for the client does. -/
theorem Granted.round {s : StreamServer} {i : Fin streamMaxClients} (h : BridgeOk s)
    {f : StreamServer → Fin streamMaxClients → StreamServer}
    (hframe : ∀ t j, Reachable t.core → ClientFrame j t (f t j))
    (hf : ∀ t j, BridgeOk t → BridgeOk (f t j))
    (hturn : ∀ t, BridgeOk t → t.clients i = s.clients i → Granted t i → Granted (f t i) i)
    (hi : Granted s i) : Granted (s.eachClient f) i := by
  have hround := eachClient_invariant (I := fun t => BridgeOk t ∧ Granted t i) hframe ?_
    h.reachable ⟨h, hi⟩
  · exact hround.2.2
  · intro t j ht hI hsame _
    refine ⟨hf t j hI.1, ?_⟩
    by_cases hj : i = j
    · subst hj
      exact hturn t hI.1 hsame hI.2
    · exact hI.2.other hI.1 (hframe t j ht) hj

theorem Granted.adopt {s : StreamServer} {i : Fin streamMaxClients} (h : BridgeOk s)
    (hi : Granted s i) : Granted (streamAdopt s) i := by
  rcases streamAdopt_cases s with hnone | ⟨j, hfree, hset⟩
  · rwa [hnone]
  · rw [hset]
    by_cases hj : i = j
    · subst hj
      apply granted_of_none
      rw [clients_setClient]
    · exact hi.other h (.setClient h.reachable (Or.inr rfl)) hj

/-- **Step.**  The request of a client that is sending its line is granted. -/
theorem serverStep_granted {s : StreamServer} (hs : ReachableServer s) {i : Fin streamMaxClients}
    (hline : (s.clients i).state = clientLine) (e : StreamEvent) :
    Granted (serverStep s e) i := by
  have h := hs.bridgeOk
  have hnone : (s.clients i).answer = none := by
    cases (hs.linesFit.2 i).ok with
    | free state => cases hline.symm.trans state
    | reading state line noEnd fits request answer placed => exact answer
    | tooLong state => cases hline.symm.trans state
    | complete l b rest asked =>
        rcases asked.state with hw | hst | hd
        · cases hline.symm.trans hw
        · cases hline.symm.trans hst
        · cases hline.symm.trans hd
  have hi := granted_of_none hnone
  obtain ⟨call, nowMs⟩ := e
  have hservice : ∀ {t : StreamServer}, BridgeOk t → Granted t i → ∀ results,
      Granted (streamService t results nowMs) i := by
    intro t ht hgrant results
    exact hgrant.round ht (fun _ _ hr => clientService_frame hr _ _)
      (fun _ _ ht => ht.clientService _ _) fun _ _ _ hg => clientService_granted hg _
  cases call with
  | input frame => exact granted_of_none hnone
  | tick => exact granted_of_none hnone
  | service results => exact hservice h hi results
  | step io accepted results =>
      let f := fun t j => clientPoll t j (wantsRead s j, wantsWrite s j) (io j) nowMs
      have hpolled : BridgeOk (s.eachClient f) :=
        h.round (fun _ _ ht => clientPoll_frame ht _ _ _) fun _ _ ht => ht.clientPoll _ _ _
      have hgrant : Granted (s.eachClient f) i := by
        refine hi.round h (fun _ _ ht => clientPoll_frame ht _ _ _)
          (fun _ _ ht => ht.clientPoll _ _ _) fun t ht hsame _ => ?_
        apply clientPoll_granted ht
        · rw [hsame, hline]
        · rw [hsame, hnone]
      have hadopted : ∀ n, BridgeOk (Nat.iterate streamAdopt n (s.eachClient f)) ∧
          Granted (Nat.iterate streamAdopt n (s.eachClient f)) i := by
        intro n
        induction n with
        | zero => exact ⟨hpolled, hgrant⟩
        | succ n ih =>
            rw [Function.iterate_succ_apply']
            exact ⟨ih.1.adopt, ih.2.adopt ih.1⟩
      exact hservice (hadopted accepted).1 (hadopted accepted).2 results

/-- **Connection ownership.**  The clients that hold a connection number share the
slots in use among themselves, one each; and a well-formed request that fits a
packet gets one. -/
theorem ownership_law {s : StreamServer} (hs : ReachableServer s) :
    Set.BijOn (fun i => (s.clients i).conn) {i | 0 ≤ (s.clients i).conn}
        {c | ∃ h : Fin chaosMaxConns, c = h.val ∧ (s.core.conns h).state ≠ connFree} ∧
      ∀ e i addr contact, (s.clients i).state = clientLine →
        ((serverStep s e).clients i).answer = some (.ok (addr, contact)) →
        contact.length ≤ chaosMaxData → ((serverStep s e).clients i).state = clientWaitOpn ∧
          ∃ h, Owns (serverStep s e) i h := by
  have h := hs.bridgeOk
  refine ⟨⟨?_, ?_, ?_⟩, ?_⟩
  · intro i hpos
    have hconn : 0 ≤ (s.clients i).conn := hpos
    cases h.client i with
    | free state conn => omega
    | line state conn untold fed => omega
    | waiting g state conn inUse untold fed unsent => exact ⟨g, conn, inUse⟩
    | streaming g state conn inUse told fed => exact ⟨g, conn, inUse⟩
    | drain line state conn status told fed => omega
  · intro i hi j hj heq
    obtain ⟨g, hown⟩ : ∃ g, Owns s i g := by
      have hconn : 0 ≤ (s.clients i).conn := hi
      cases h.client i with
      | free state conn => omega
      | line state conn untold fed => omega
      | waiting g state conn inUse untold fed unsent => exact ⟨g, conn⟩
      | streaming g state conn inUse told fed => exact ⟨g, conn⟩
      | drain line state conn status told fed => omega
    exact h.distinct i j g hown (heq.symm.trans hown)
  · rintro c ⟨g, rfl, hinUse⟩
    obtain ⟨i, hown⟩ := h.noLeak g hinUse
    refine ⟨i, ?_, hown⟩
    have hconn : (s.clients i).conn = g.val := hown
    change 0 ≤ (s.clients i).conn
    omega
  · intro e i addr contact hline hok hlen
    obtain ⟨hwait, g, hown, -⟩ := serverStep_granted hs hline e addr contact hok hlen
    exact ⟨hwait, g, hown⟩

/-! ### A run of the sample server -/

/-- A client is connected and sends two bytes. -/
def bridgedRun : List StreamEvent :=
  [⟨sampleAccept, 1000⟩, ⟨sampleSends (bytesOf "RFC 405 TELNET" ++ crLf), 1010⟩,
    ⟨.input sampleOpn, 1020⟩, ⟨.service fun _ => [.wrote streamOutbuf], 1030⟩,
    ⟨sampleSends (bytesOf "hi"), 1040⟩]

theorem bridge_law_sample :
    afterLine ((sampleServer bridgedRun).clients sampleClient).taken = bytesOf "hi" ∧
      acceptedFor (sampleServer bridgedRun) sampleClient = bytesOf "hi" := by
  have hlaw := (bridge_law (sampleServer_reachable bridgedRun)).1 sampleClient
  have haccepted : acceptedFor (sampleServer bridgedRun) sampleClient = bytesOf "hi" := by
    decide +kernel
  have hleft : ((sampleServer bridgedRun).clients sampleClient).inBuf = [] := by decide +kernel
  refine ⟨?_, haccepted⟩
  rw [hlaw.read (by decide +kernel), haccepted, hleft, List.append_nil]

theorem ownership_law_sample :
    ∃ i, ((sampleServer bridgedRun).clients i).conn = sampleConn.val := by
  obtain ⟨⟨-, -, hsurj⟩, -⟩ := ownership_law (sampleServer_reachable bridgedRun)
  obtain ⟨i, -, hconn⟩ := hsurj ⟨sampleConn, rfl, by decide +kernel⟩
  exact ⟨i, hconn⟩

end Stream
