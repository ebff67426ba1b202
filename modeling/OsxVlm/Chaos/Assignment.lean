import OsxVlm.Chaos.SendQueue

/-!
# Numbering packets

A connection's history `assigned` only grows, one packet for each number, and
every controlled packet that is ever sent is one of its recent entries.
`Extends` is what any part of an act on a connection in use does to it, and
`AssignedOk` is what holds of it at all times.
-/

namespace Chaos

open ChaosConnState ChaosCloseKind

/-- A packet that takes a number: RFC, EOF or data. -/
def Controlled (opcode : Byte) : Prop :=
  opcode = chopRfc ∨ opcode = chopEof ∨ chopDat ≤ opcode

instance (opcode : Byte) : Decidable (Controlled opcode) :=
  inferInstanceAs (Decidable (_ ∨ _))

/-- `s` transmits an entry of `as` whose place is at most a window below `lo`. -/
def Carries (as : List AssignedPkt) (lo : Nat) (s : RawSend) : Prop :=
  ∃ i a, as[i]? = some a ∧ s.num = a.num ∧ s.opcode = a.opcode ∧ s.data = a.data ∧
    lo ≤ i + chaosMaxWindow.toNat

theorem Carries.mono {as bs : List AssignedPkt} {lo lo' : Nat} {s : RawSend}
    (h : Carries as lo s) (hpre : as <+: bs) (hlo : lo' ≤ lo) : Carries bs lo' s := by
  obtain ⟨i, a, ha, hnum, hop, hdata, hle⟩ := h
  obtain ⟨cs, rfl⟩ := hpre
  have hi : i < as.length := (List.getElem?_eq_some_iff.mp ha).1
  exact ⟨i, a, by rwa [List.getElem?_append_left hi], hnum, hop, hdata, by omega⟩

/-- The data packets among `as`. -/
def dataPackets (as : List AssignedPkt) : List AssignedPkt :=
  as.filter fun a => chopDat ≤ a.opcode

/-- Their bytes. -/
def dataBytes (as : List AssignedPkt) : List Byte :=
  (dataPackets as).flatMap AssignedPkt.data

theorem dataPackets_append (as bs : List AssignedPkt) :
    dataPackets (as ++ bs) = dataPackets as ++ dataPackets bs := List.filter_append ..

theorem dataBytes_append (as bs : List AssignedPkt) :
    dataBytes (as ++ bs) = dataBytes as ++ dataBytes bs := by
  simp [dataBytes, dataPackets_append]

/-- The EOF packets among `as`. -/
def eofCount (as : List AssignedPkt) : Nat := as.countP fun a => a.opcode = chopEof

/-- What an act does to a connection that stays in use. -/
structure Extends (k : ChaosConn) (r : Act) : Prop where
  inUse : k.state ≠ connFree → r.1.state ≠ connFree
  localIndex : r.1.localIndex = k.localIndex
  history : k.assigned <+: r.1.assigned
  source : ∀ s ∈ r.2, s.srcIndex = k.localIndex
  carries : ∀ s ∈ r.2, Controlled s.opcode → Carries r.1.assigned k.assigned.length s
  wanted : k.eofWanted → r.1.eofWanted
  frozen : k.eofWanted → dataPackets r.1.assigned = dataPackets k.assigned

theorem Extends.trans {k : ChaosConn} {r r' : Act} (h : Extends k r) (h' : Extends r.1 r') :
    Extends k (r'.1, r.2 ++ r'.2) where
  inUse := h'.inUse ∘ h.inUse
  localIndex := h'.localIndex.trans h.localIndex
  history := h.history.trans h'.history
  source := by
    intro s hs
    rcases List.mem_append.mp hs with hs | hs
    · exact h.source s hs
    · exact (h'.source s hs).trans h.localIndex
  carries := by
    intro s hs hctl
    rcases List.mem_append.mp hs with hs | hs
    · exact (h.carries s hs hctl).mono h'.history (Nat.le_refl _)
    · exact (h'.carries s hs hctl).mono List.prefix_rfl h.history.length_le
  wanted := h'.wanted ∘ h.wanted
  frozen := fun hw => (h'.frozen (h.wanted hw)).trans (h.frozen hw)

theorem Extends.andThen {k : ChaosConn} {r : Act} {f : ChaosConn → Act} (h : Extends k r)
    (hf : Extends r.1 (f r.1)) : Extends k (r.andThen f) := h.trans hf

/-- An act that numbers nothing and sends nothing numbered. -/
theorem Extends.of_same {k : ChaosConn} {r : Act}
    (hstate : k.state ≠ connFree → r.1.state ≠ connFree)
    (hlocal : r.1.localIndex = k.localIndex) (hassigned : r.1.assigned = k.assigned)
    (hwanted : r.1.eofWanted = k.eofWanted)
    (hsends : ∀ s ∈ r.2, s.srcIndex = k.localIndex ∧ ¬ Controlled s.opcode) : Extends k r where
  inUse := hstate
  localIndex := hlocal
  history := by rw [hassigned]
  source := fun s hs => (hsends s hs).1
  carries := fun s hs hctl => absurd hctl (hsends s hs).2
  wanted := by rw [hwanted]; exact id
  frozen := fun _ => by rw [hassigned]

theorem Extends.refl (k : ChaosConn) : Extends k (k, []) :=
  .of_same id rfl rfl rfl (by simp)

/-- The number just given to a packet, with the window it was sent in. -/
def newest (k : ChaosConn) (opcode : Byte) (data : List Byte) : AssignedPkt :=
  { num := seqInc k.sentNum, opcode, data, ackedNum := k.ackedNum,
    remoteWindow := k.remoteWindow }

theorem connSendControlled_assigned (k : ChaosConn) (opcode : Byte) (data : List Byte)
    (nowMs : Millis) :
    (connSendControlled k opcode data nowMs).1.assigned =
      k.assigned ++ [newest k opcode data] := rfl

theorem connSendControlled_sends (k : ChaosConn) (opcode : Byte) (data : List Byte)
    (nowMs : Millis) : ∀ s ∈ (connSendControlled k opcode data nowMs).2,
      s.num = seqInc k.sentNum ∧ s.opcode = opcode ∧ s.data = data ∧
        s.srcIndex = k.localIndex := by
  intro s hs
  obtain rfl := List.mem_singleton.mp hs
  simp

/-- Numbering a packet that may still be numbered. -/
theorem connSendControlled_extends (k : ChaosConn) (opcode : Byte) (data : List Byte)
    (nowMs : Millis) (hfrozen : k.eofWanted → ¬ chopDat ≤ opcode) :
    Extends k (connSendControlled k opcode data nowMs) where
  inUse := id
  localIndex := rfl
  history := List.prefix_append _ _
  source := fun s hs => (connSendControlled_sends k opcode data nowMs s hs).2.2.2
  carries := by
    intro s hs _
    obtain ⟨hnum, hop, hdata, -⟩ := connSendControlled_sends k opcode data nowMs s hs
    refine ⟨k.assigned.length, newest k opcode data, ?_, hnum, hop, hdata, by omega⟩
    simp [connSendControlled_assigned]
  wanted := id
  frozen := by
    intro hw
    rw [connSendControlled_assigned, dataPackets_append]
    simp [dataPackets, newest, hfrozen hw]

/-! ### Retransmission -/

/-- An occupied slot that holds `n` holds the packet last numbered `n`. -/
theorem ChaosConn.SendFit.slot_carries {k : ChaosConn} (hfit : k.SendFit) {n : UShort}
    (hpresent : (k.sendq (ringSlot n)).present = true)
    (hnum : (k.sendq (ringSlot n)).num = n) :
    ∃ i a, k.assigned[i]? = some a ∧ n = a.num ∧ (k.sendq (ringSlot n)).opcode = a.opcode ∧
      (k.sendq (ringSlot n)).data = a.data ∧
      k.assigned.length ≤ i + chaosMaxWindow.toNat := by
  obtain ⟨m, hm, hslot⟩ := (hfit.1.occupied (ringSlot n)).mp hpresent
  obtain ⟨a, ha, hanum, hsnum, hop, hdata⟩ := hfit.1.holds m hm
  rw [hslot] at hsnum hop hdata
  have hmn : m = n := hsnum.symm.trans hnum
  subst hmn
  have hlt : Serial.behind k.sentNum m < 50 :=
    Nat.lt_of_lt_of_le hm hfit.1.receipt_le
  obtain ⟨hlen, -⟩ := List.getElem?_eq_some_iff.mp ha
  rw [List.getElem?_reverse (by simpa using hlen)] at ha
  refine ⟨_, a, ha, hanum.symm, hop, hdata, ?_⟩
  have hmax : chaosMaxWindow.toNat = 50 := rfl
  have hview : k.sendView.assigned.length = k.assigned.length := rfl
  have hsent : k.sendView.sentNum = k.sentNum := rfl
  rw [hview, hsent, hmax]
  omega

theorem retransmitOne_sends {k : ChaosConn} (hfit : k.SendFit) (nowMs minAgeMs : Millis)
    (n : UShort) : ∀ s ∈ (retransmitOne nowMs minAgeMs n k).2,
      Carries k.assigned k.assigned.length s ∧ s.srcIndex = k.localIndex := by
  unfold retransmitOne
  simp only
  split
  · simp
  · next hheld =>
    split
    · simp
    · have hpresent : (k.sendq (ringSlot n)).present = true := by
        by_contra h
        exact hheld (by simp [h])
      have hnum : (k.sendq (ringSlot n)).num = n := by
        by_contra h
        exact hheld (by simp [h])
      obtain ⟨i, a, ha, hanum, hop, hdata, hle⟩ := hfit.slot_carries hpresent hnum
      intro s hs
      obtain rfl := List.mem_singleton.mp hs
      exact ⟨⟨i, a, ha, hnum.trans hanum, hop, hdata, hle⟩, rfl⟩

/-- A retransmission sends packets again as they were numbered. -/
theorem connRetransmit_sends {k : ChaosConn} (hfit : k.SendFit) (nowMs minAgeMs : Millis) :
    ∀ s ∈ (connRetransmit k nowMs minAgeMs).2,
      Carries k.assigned k.assigned.length s ∧ s.srcIndex = k.localIndex := by
  refine (foldl_andThen (P := fun k' => SentOnly k k' ∧ k'.sendView = k.sendView) ?_
    ⟨.refl k, rfl⟩).2
  rintro n - k' ⟨hsent, hview⟩
  have hfit' : k'.SendFit := by
    refine ⟨hview ▸ hfit.1, ?_⟩
    rw [hsent]
    exact hfit.2
  refine ⟨⟨hsent.trans (retransmitOne_sentOnly _ _ _ _),
    (retransmitOne_sendView _ _ _ _).trans hview⟩, ?_⟩
  intro s hs
  have h := retransmitOne_sends hfit' nowMs minAgeMs n s hs
  rw [hsent] at h
  exact h

theorem connRetransmit_extends {k : ChaosConn} (hfit : k.SendFit) (nowMs minAgeMs : Millis) :
    Extends k (connRetransmit k nowMs minAgeMs) := by
  have hsent := connRetransmit_sentOnly k nowMs minAgeMs
  have hview := connRetransmit_sendView k nowMs minAgeMs
  have hassigned : (connRetransmit k nowMs minAgeMs).1.assigned = k.assigned :=
    congrArg SendView.assigned hview
  have hsends := connRetransmit_sends hfit nowMs minAgeMs
  refine ⟨?_, ?_, ?_, fun s hs => (hsends s hs).2, ?_, ?_, ?_⟩
  · rw [hsent.state]
    exact id
  · rw [hsent]
  · rw [hassigned]
  · intro s hs _
    rw [hassigned]
    exact (hsends s hs).1
  · rw [hsent]
    exact id
  · intro _
    rw [hassigned]

/-! ### Sending data and EOF -/

theorem connMaybeSendEof_extends (k : ChaosConn) (nowMs : Millis) :
    Extends k (connMaybeSendEof k nowMs) := by
  unfold connMaybeSendEof
  split
  · refine (connSendControlled_extends k chopEof [] nowMs fun _ => by decide).andThen ?_
    exact .of_same id rfl rfl rfl (by simp)
  · exact .refl k

theorem noteAck_extends (k : ChaosConn) (ack receipt : UShort) :
    Extends k (noteAck k ack receipt, []) := by
  rw [noteAck_eq]
  exact .of_same id rfl rfl rfl (by simp)

theorem connSetClosed_extends (k : ChaosConn) (kind : ChaosCloseKind) (text : List Byte) :
    Extends k (connSetClosed k kind text, []) :=
  .of_same (fun _ => nofun) rfl rfl rfl (by simp)

theorem connSendUnc_extends (k : ChaosConn) {opcode : Byte} (num : UShort) (data : List Byte)
    (hop : ¬ Controlled opcode) : Extends k (connSendUnc k opcode num data) := by
  refine .of_same id rfl rfl rfl ?_
  intro s hs
  rw [List.mem_singleton.mp hs]
  exact ⟨rfl, hop⟩

theorem connSendSts_extends (k : ChaosConn) : Extends k (connSendSts k) :=
  connSendUnc_extends k _ _ (by decide)

theorem connCloseCls_extends (k : ChaosConn) (reason : List Byte) (kind : ChaosCloseKind) :
    Extends k (connCloseCls k reason kind) :=
  (connSendUnc_extends k 0 reason (by decide)).andThen (connSetClosed_extends _ _ _)

theorem connProcessAck_extends (k : ChaosConn) (ack receipt : UShort) (nowMs : Millis) :
    Extends k (connProcessAck k ack receipt nowMs) := by
  unfold connProcessAck
  split
  · exact .refl k
  · have hnote := noteAck_extends k ack receipt
    simp only
    split
    · exact hnote.andThen (f := fun k => connCloseCls k _ _) (connCloseCls_extends _ _ _)
    · exact hnote.andThen (f := fun k => connMaybeSendEof k nowMs)
        (connMaybeSendEof_extends _ _)

theorem sendLoop_extends (nowMs : Millis) (fuel : Nat) (k : ChaosConn) (data : List Byte)
    (hwanted : ¬ k.eofWanted) : Extends k (sendLoop nowMs fuel k data).1 := by
  induction fuel generalizing k data with
  | zero => exact .refl k
  | succ fuel ih =>
      unfold sendLoop
      split
      · exact (connSendControlled_extends k chopDat _ nowMs fun h => absurd h hwanted).trans
          (ih _ _ hwanted)
      · exact .refl k

theorem connQueueInput_extends (k : ChaosConn) (pkt : Packet) :
    Extends k (connQueueInput k pkt) := by
  have hframe := connQueueInput_frame k pkt
  refine .of_same (by rw [hframe]; exact id) (by rw [hframe]) (by rw [hframe])
    (by rw [hframe]) ?_
  have hsts : ∀ k' : ChaosConn, k'.localIndex = k.localIndex → ∀ s ∈ (connSendSts k').2,
      s.srcIndex = k.localIndex ∧ ¬ Controlled s.opcode := by
    intro k' hlocal s hs
    rw [List.mem_singleton.mp hs]
    exact ⟨hlocal, (by decide : ¬ Controlled chopSts)⟩
  unfold connQueueInput
  simp only
  split
  · exact hsts _ rfl
  split
  · exact hsts _ rfl
  split
  · exact hsts _ rfl
  split
  · exact hsts _ (by rw [advanceReceived_frame])
  · simp

theorem connNoteRead_extends (k : ChaosConn) (advanced : Bool) (nowMs : Millis) :
    Extends k (connNoteRead k advanced nowMs) := by
  unfold connNoteRead
  split
  · split
    · exact connSendSts_extends k
    · split
      · exact .of_same id rfl rfl rfl (by simp)
      · exact .refl k
  · exact .refl k

theorem connRecv_extends (k : ChaosConn) (max : Nat) (nowMs : Millis) :
    Extends k (connRecv k max nowMs).1 := by
  have hloop := recvLoop_frame max (seqDiff k.receivedNum k.readNum).toNat k [] false
  have hread : Extends k ((recvLoop max (seqDiff k.receivedNum k.readNum).toNat k [] false).1,
      []) := by
    refine .of_same ?_ ?_ ?_ ?_ (by simp)
    · dsimp only
      rw [hloop]
      exact id
    all_goals
      dsimp only
      rw [hloop]
  exact hread.andThen (f := fun k => connNoteRead k _ nowMs) (connNoteRead_extends _ _ _)

/-- `r` opens a connection in the free slot `h`. -/
def Opens (e : CoreEvent) (h : Fin chaosMaxConns) (k : ChaosConn) (r : Act) : Prop :=
  k.state = connFree ∧ ∃ addr contact uniquizer window firstNum,
    e.call = .chaosOpen addr contact ∧ UniquizerOk uniquizer ∧
      contact.length ≤ chaosMaxData ∧
      r = connSendControlled
        (connNew ((uniquizer <<< 5) ||| BitVec.ofNat 16 h.val) addr window firstNum e.nowMs)
        chopRfc contact e.nowMs

/-- `r` releases the connection in slot `h`. -/
def Releases (e : CoreEvent) (h : Fin chaosMaxConns) (k : ChaosConn) (r : Act) : Prop :=
  ∃ reason, e.call = .chaosRelease h.val reason ∧ r = connRelease k (cString reason)

/-- **Step lemma of the history.**  A part of an act opens the connection,
releases it, or extends its history. -/
theorem ConnPart.history {e : CoreEvent} {h : Fin chaosMaxConns} {k₀ k : ChaosConn} {r : Act}
    (hr : ConnPart e h k₀ k r) (hk : SendOk k) :
    Opens e h k r ∨ Releases e h k r ∨ (k.state ≠ connFree ∧ Extends k r) := by
  have hlive : k.state = connRfcSent ∨ k.state = connOpen → k.state ≠ connFree := by
    rintro (h | h) <;> simp [h]
  cases hr with
  | @opened addr contact u w n call free uniq length =>
      exact Or.inl ⟨free, addr, contact, u, w, n, call, uniq, length, rfl⟩
  | @released reason call alive => exact Or.inr (Or.inl ⟨reason, call, rfl⟩)
  | sent call alive =>
      refine Or.inr (Or.inr ⟨alive, ?_⟩)
      unfold connSend
      split
      · exact .refl k
      · next hstate => exact sendLoop_extends _ _ _ _ (not_or.mp hstate).2
  | finished call alive =>
      refine Or.inr (Or.inr ⟨alive, ?_⟩)
      unfold connFinish
      split
      · exact .refl k
      · next hstate =>
        have hnot := (not_or.mp hstate).2
        have hset : Extends k ({ k with eofWanted := true, finishStartMs := e.nowMs }, []) :=
          ⟨id, rfl, List.prefix_rfl, by simp, by simp, fun _ => rfl, fun _ => rfl⟩
        exact hset.andThen (f := fun k => connMaybeSendEof k e.nowMs)
          (connMaybeSendEof_extends _ _)
  | received call alive => exact Or.inr (Or.inr ⟨alive, connRecv_extends k _ _⟩)
  | heard pkt delivers untouched =>
      refine Or.inr (Or.inr ⟨?_, .of_same id rfl rfl rfl (by simp)⟩)
      rw [untouched.state]
      exact (not_or.mp delivers.known).1
  | opn pkt delivers untouched state opcode length =>
      have hset : Extends k (k.withOpn pkt, []) :=
        .of_same (fun _ => nofun) rfl rfl rfl (by simp)
      refine Or.inr (Or.inr ⟨hlive (Or.inl state), ?_⟩)
      exact (hset.andThen (f := fun k => connProcessAck k _ _ e.nowMs)
        (connProcessAck_extends _ _ _ _)).andThen (connSendSts_extends _)
  | acked pkt window receipt delivers untouched state values =>
      have hset : Extends k (k.withWindow window, []) :=
        .of_same id rfl rfl rfl (by simp)
      refine Or.inr (Or.inr ⟨hlive (Or.inr state), ?_⟩)
      exact hset.andThen (f := fun k => connProcessAck k _ _ e.nowMs)
        (connProcessAck_extends _ _ _ _)
  | queued pkt delivers received state opcode =>
      exact Or.inr (Or.inr ⟨hlive (Or.inr state), connQueueInput_extends k _⟩)
  | refused pkt delivers untouched state =>
      refine Or.inr (Or.inr ⟨by simp [state], .of_same id rfl rfl rfl ?_⟩)
      intro s hs
      rw [List.mem_singleton.mp hs]
      refine ⟨?_, (by decide : ¬ Controlled chopLos)⟩
      rw [untouched.localIndex]
      exact (not_not.mp (not_or.mp (not_or.mp delivers.known).2).1).symm
  | closed kind text live why =>
      exact Or.inr (Or.inr ⟨hlive live, connSetClosed_extends k kind text⟩)
  | retransmitted minAge live =>
      exact Or.inr (Or.inr ⟨hlive live, connRetransmit_extends (hk live) _ _⟩)
  | sts state => exact Or.inr (Or.inr ⟨hlive (Or.inr state), connSendSts_extends k⟩)
  | probed call state =>
      exact Or.inr (Or.inr ⟨hlive (Or.inr state), .of_same id rfl rfl rfl (by simp)⟩)
  | sns call state =>
      exact Or.inr (Or.inr ⟨hlive (Or.inr state), connSendUnc_extends k _ _ (by decide)⟩)
  | gaveUp call untouched state wanted late =>
      exact Or.inr (Or.inr ⟨hlive (Or.inr state), connCloseCls_extends k _ _⟩)

/-- A connection in use that the call does not release has its history extended. -/
theorem ConnPart.extends {e : CoreEvent} {h : Fin chaosMaxConns} {k₀ k : ChaosConn} {r : Act}
    (hr : ConnPart e h k₀ k r) (hk : SendOk k) (hinUse : k.state ≠ connFree)
    (hkept : ∀ reason, e.call ≠ .chaosRelease h.val reason) : Extends k r := by
  rcases hr.history hk with hopens | ⟨reason, hcall, -⟩ | ⟨-, hext⟩
  · exact absurd hopens.1 hinUse
  · exact absurd hcall (hkept reason)
  · exact hext

/-- The same for all a call does to the connection. -/
theorem ConnChain.extends {e : CoreEvent} {h : Fin chaosMaxConns} {k₀ k : ChaosConn} {r : Act}
    (hr : ConnChain e h k₀ k r) (hk : SendOk k) (hinUse : k.state ≠ connFree)
    (hkept : ∀ reason, e.call ≠ .chaosRelease h.val reason) : Extends k r := by
  refine (hr.carried (I := fun k => SendOk k ∧ k.state ≠ connFree) Extends.refl
    Extends.trans ?_ ⟨hk, hinUse⟩).2
  rintro k r ⟨hk, hinUse⟩ hp
  have hext := hp.extends hk hinUse hkept
  exact ⟨⟨hk.part hp, hext.inUse hinUse⟩, hext⟩

/-- A release sends at most a CLS, on an open connection. -/
theorem connRelease_sends (k : ChaosConn) (reason : List Byte) :
    ∀ s ∈ (connRelease k reason).2, s.opcode = chopCls ∧ s.srcIndex = k.localIndex ∧
      k.state = connOpen := by
  intro s hs
  unfold connRelease at hs
  split at hs
  · next hopen =>
    simp only [Act.andThen_snd, connSendUnc, List.append_nil, List.mem_singleton] at hs
    rw [hs]
    exact ⟨rfl, rfl, hopen⟩
  · simp at hs

/-! ### What holds of the history -/

/-- Consecutive numbers up to `sentNum`, each given in an open window to a
packet that fits a frame. -/
structure NumberedTo (sentNum : UShort) (as : List AssignedPkt) : Prop where
  numbered : ∀ i a, as.reverse[i]? = some a → a.num = sentNum - BitVec.ofNat 16 i
  windows : ∀ a ∈ as, Serial.behind a.num a.ackedNum ≤ a.remoteWindow.toNat ∧
    a.remoteWindow ≤ chaosMaxWindow
  sizes : ∀ a ∈ as, a.data.length ≤ chaosMaxData
  kinds : ∀ a ∈ as, Controlled a.opcode

theorem NumberedTo.nil (sentNum : UShort) : NumberedTo sentNum [] :=
  ⟨by simp, by simp, by simp, by simp⟩

theorem NumberedTo.snoc {k : ChaosConn} {opcode : Byte} {data : List Byte}
    (h : NumberedTo k.sentNum k.assigned) (hroom : connWindowAvailable k > 0)
    (hwindow : k.remoteWindow ≤ chaosMaxWindow) (hsize : data.length ≤ chaosMaxData)
    (hkind : Controlled opcode) :
    NumberedTo (seqInc k.sentNum) (k.assigned ++ [newest k opcode data]) where
  numbered := by
    intro i a ha
    rw [List.reverse_append] at ha
    cases i with
    | zero =>
        have hnew : newest k opcode data = a := by simpa using ha
        rw [← hnew]
        simp [newest]
    | succ i =>
        have hold := h.numbered i a (by simpa using ha)
        rw [hold, BitVec.ofNat_add]
        show k.sentNum - BitVec.ofNat 16 i = k.sentNum + 1 - (BitVec.ofNat 16 i + 1)
        ring
  windows := by
    intro a ha
    rcases List.mem_append.mp ha with hold | hnew
    · exact h.windows a hold
    · obtain rfl := List.mem_singleton.mp hnew
      have hlt := windowAvailable_pos.mp hroom
      have hmax : k.remoteWindow.toNat ≤ 50 := hwindow
      refine ⟨?_, hwindow⟩
      show Serial.behind (seqInc k.sentNum) k.ackedNum ≤ k.remoteWindow.toNat
      rw [behind_seqInc (by omega)]
      omega
  sizes := by
    intro a ha
    rcases List.mem_append.mp ha with hold | hnew
    · exact h.sizes a hold
    · obtain rfl := List.mem_singleton.mp hnew
      exact hsize
  kinds := by
    intro a ha
    rcases List.mem_append.mp ha with hold | hnew
    · exact h.kinds a hold
    · obtain rfl := List.mem_singleton.mp hnew
      exact hkind

theorem eofCount_append (as bs : List AssignedPkt) :
    eofCount (as ++ bs) = eofCount as + eofCount bs := List.countP_append

/-- The history of a connection: numbered to `sentNum`, with an EOF in it just
when one was sent. -/
structure HistoryOk (k : ChaosConn) : Prop where
  numberedTo : NumberedTo k.sentNum k.assigned
  eofs : eofCount k.assigned = if k.eofSent then 1 else 0

theorem HistoryOk.congr {k k' : ChaosConn} (h : HistoryOk k) (hsent : k'.sentNum = k.sentNum)
    (hassigned : k'.assigned = k.assigned) (heof : k'.eofSent = k.eofSent) : HistoryOk k' := by
  refine ⟨?_, ?_⟩
  · rw [hsent, hassigned]
    exact h.numberedTo
  · rw [hassigned, heof]
    exact h.eofs

/-- Numbering an RFC or data. -/
theorem HistoryOk.connSendControlled {k : ChaosConn} (h : HistoryOk k)
    (hroom : connWindowAvailable k > 0) (hwindow : k.remoteWindow ≤ chaosMaxWindow)
    {opcode : Byte} {data : List Byte} (nowMs : Millis) (hsize : data.length ≤ chaosMaxData)
    (hkind : Controlled opcode) (hop : opcode ≠ chopEof) :
    HistoryOk (connSendControlled k opcode data nowMs).1 := by
  refine ⟨h.numberedTo.snoc hroom hwindow hsize hkind, ?_⟩
  rw [connSendControlled_assigned, eofCount_append, h.eofs]
  simp [eofCount, newest, hop]
  rfl

theorem HistoryOk.connMaybeSendEof {k : ChaosConn} (h : HistoryOk k)
    (hwindow : k.remoteWindow ≤ chaosMaxWindow) (nowMs : Millis) :
    HistoryOk (connMaybeSendEof k nowMs).1 := by
  unfold Chaos.connMaybeSendEof
  split
  · next hgo =>
    refine ⟨h.numberedTo.snoc hgo.2.2.2 hwindow (Nat.zero_le _) (by decide), ?_⟩
    have hnone : eofCount k.assigned = 0 := by
      rw [h.eofs, if_neg hgo.2.2.1]
    show eofCount (k.assigned ++ [newest k chopEof []]) = 1
    rw [eofCount_append, hnone]
    rfl
  · exact h

theorem HistoryOk.sendLoop {k : ChaosConn} (nowMs : Millis) (fuel : Nat) (data : List Byte)
    (h : HistoryOk k) (hwindow : k.remoteWindow ≤ chaosMaxWindow) :
    HistoryOk (sendLoop nowMs fuel k data).1.1 := by
  induction fuel generalizing k data with
  | zero => exact h
  | succ fuel ih =>
      unfold Chaos.sendLoop
      split
      · next hgo =>
        exact ih _ (h.connSendControlled hgo.2 hwindow nowMs (List.length_take_le _ _)
          (by decide) (by decide)) hwindow
      · exact h

theorem HistoryOk.connProcessAck {k : ChaosConn} (h : HistoryOk k)
    (hwindow : k.remoteWindow ≤ chaosMaxWindow) (ack receipt : UShort) (nowMs : Millis) :
    HistoryOk (connProcessAck k ack receipt nowMs).1 := by
  have hnote := noteAck_eq k ack receipt
  have hnoted : HistoryOk (noteAck k ack receipt) := by
    rw [hnote]
    exact h.congr rfl rfl rfl
  have hwindow' : (noteAck k ack receipt).remoteWindow ≤ chaosMaxWindow := by
    rw [hnote]
    exact hwindow
  unfold Chaos.connProcessAck
  split
  · exact h
  · simp only
    split
    · exact hnoted.congr rfl rfl rfl
    · exact hnoted.connMaybeSendEof hwindow' nowMs

/-- **Step lemma**: every part keeps the history in order. -/
theorem HistoryOk.part {e : CoreEvent} {h : Fin chaosMaxConns} {k₀ k : ChaosConn} {r : Act}
    (hh : HistoryOk k) (hk : SendOk k) (hr : ConnPart e h k₀ k r) : HistoryOk r.1 := by
  have hopen : k.state = connOpen → k.remoteWindow ≤ chaosMaxWindow :=
    fun hs => (hk (Or.inr hs)).2
  cases hr with
  | @opened addr contact u w n call free uniq length =>
      have hnew : HistoryOk (connNew ((u <<< 5) ||| BitVec.ofNat 16 h.val) addr w n e.nowMs) :=
        ⟨.nil _, rfl⟩
      have hone : (1 : UShort) ≤ chaosMaxWindow := by decide
      refine hnew.connSendControlled ?_ hone e.nowMs length (by decide) (by decide)
      rw [windowAvailable_pos]
      simp [connNew]
  | sent call alive =>
      unfold connSend
      split
      · exact hh
      · next hstate =>
        have hs : k.state = connOpen := by simpa using (not_or.mp hstate).1
        exact hh.sendLoop _ _ _ (hopen hs)
  | finished call alive =>
      unfold connFinish
      split
      · exact hh
      · next hstate =>
        have hs : k.state = connOpen := by simpa using (not_or.mp hstate).1
        have hset : HistoryOk { k with eofWanted := true, finishStartMs := e.nowMs } :=
          hh.congr rfl rfl rfl
        exact hset.connMaybeSendEof (hopen hs) _
  | received call alive =>
      refine hh.congr ?_ ?_ ?_
      all_goals
        unfold connRecv
        simp only
        rw [connNoteRead_frame, recvLoop_frame]
  | released call alive => exact ⟨.nil _, rfl⟩
  | heard pkt delivers untouched => exact hh.congr rfl rfl rfl
  | opn pkt delivers untouched state opcode length =>
      have hset : HistoryOk (k.withOpn pkt) := hh.congr rfl rfl rfl
      exact (hset.connProcessAck (clampWindow_le _) _ _ _).congr rfl rfl rfl
  | acked pkt window receipt delivers untouched state values =>
      have hset : HistoryOk (k.withWindow window) := hh.congr rfl rfl rfl
      refine hset.connProcessAck ?_ _ _ _
      rcases values with ⟨rfl, -⟩ | ⟨-, -, rfl, -⟩
      · exact hopen state
      · exact clampWindow_le _
  | queued pkt delivers received state opcode =>
      refine hh.congr ?_ ?_ ?_
      all_goals rw [connQueueInput_frame]
  | refused pkt delivers untouched state => exact hh
  | closed kind text live why => exact hh.congr rfl rfl rfl
  | retransmitted minAge live =>
      have hsent := connRetransmit_sentOnly k e.nowMs minAge
      refine hh.congr ?_ ?_ ?_
      all_goals rw [hsent]
  | sts state => exact hh.congr rfl rfl rfl
  | probed call state => exact hh.congr rfl rfl rfl
  | sns call state => exact hh.congr rfl rfl rfl
  | gaveUp call untouched state wanted late => exact hh.congr rfl rfl rfl

end Chaos
