import OsxVlm.Chaos.SendStream

/-!
# Closing a finished connection

When the EOF that `chaos_finish` asks for is sent, and when the CLS after it:
the invariant `CloseOk` says that a waiting EOF is never forgotten, `ClsLaw`
what surrounds a CLS within one call, and `GracefulClose` what follows for
whole runs.  Peers are assumed not to acknowledge packets that were never sent.
-/

namespace Chaos

open ChaosConnState ChaosCloseKind

/-- `pkt` acknowledges nothing beyond what was sent. -/
def AcksInRange (k : ChaosConn) (pkt : Packet) : Prop :=
  chaosSeqLt k.sentNum pkt.ack = false ∧
    (pkt.opcode = chopSts ∨ pkt.opcode = chopOpn → 4 ≤ pkt.data.length →
      chaosSeqLt k.sentNum (get16At pkt.data 0) = false)

/-- What the call brings for connection `h` acknowledges nothing unsent. -/
def Honest (h : Fin chaosMaxConns) (c : ChaosCore) (e : CoreEvent) : Prop :=
  ∀ pkt, Delivers e h (c.conns h) pkt → AcksInRange (c.conns h) pkt

instance (k : ChaosConn) (pkt : Packet) : Decidable (AcksInRange k pkt) :=
  inferInstanceAs (Decidable (_ ∧ _))

theorem honest_of_user {h : Fin chaosMaxConns} {c : ChaosCore} {e : CoreEvent}
    (hcall : ∀ frame, e.call ≠ .input frame) : Honest h c e := by
  rintro pkt ⟨⟨frame, hframe, -⟩, -, -⟩
  exact absurd hframe (hcall frame)

theorem honest_of_input {h : Fin chaosMaxConns} {c : ChaosCore} {frame : List Byte}
    {nowMs : Millis} {pkt : Packet} (hread : readPacket frame = some pkt)
    (hrange : AcksInRange (c.conns h) pkt) : Honest h c ⟨.input frame, nowMs⟩ := by
  rintro pkt' ⟨⟨frame', hframe, hread'⟩, -, -⟩
  obtain rfl : frame = frame' := by simpa using hframe
  obtain rfl : pkt = pkt' := Option.some.inj (hread.symm.trans hread')
  exact hrange

/-- The state of the EOF handshake. -/
structure CloseOk (k : ChaosConn) : Prop where
  fresh : k.state = connRfcSent → k.eofWanted = false
  pending : k.state = connOpen → k.eofWanted = true → k.eofSent = false →
    ¬ connWindowAvailable k > 0
  last : k.eofSent = true → k.eofWanted = true ∧ k.eofNum = k.sentNum

theorem CloseOk.congr {k k' : ChaosConn} (h : CloseOk k) (hstate : k'.state = k.state)
    (hwanted : k'.eofWanted = k.eofWanted) (heof : k'.eofSent = k.eofSent)
    (hnum : k'.eofNum = k.eofNum) (hsent : k'.sentNum = k.sentNum)
    (hacked : k'.ackedNum = k.ackedNum) (hwindow : k'.remoteWindow = k.remoteWindow) :
    CloseOk k' := by
  have havail : connWindowAvailable k' = connWindowAvailable k := by
    rw [connWindowAvailable, connWindowAvailable, hwindow, hsent, hacked]
  refine ⟨?_, ?_, ?_⟩
  · rw [hstate, hwanted]
    exact h.fresh
  · rw [hstate, hwanted, heof, havail]
    exact h.pending
  · rw [heof, hwanted, hnum, hsent]
    exact h.last

theorem CloseOk.of_closed {k : ChaosConn} (hstate : k.state = connClosed)
    (hlast : k.eofSent = true → k.eofWanted = true ∧ k.eofNum = k.sentNum) : CloseOk k :=
  ⟨by simp [hstate], by simp [hstate], hlast⟩

/-- A connection that was not finished owes no EOF. -/
theorem CloseOk.of_unwanted {k : ChaosConn} (hwanted : k.eofWanted = false)
    (heof : k.eofSent = false) : CloseOk k :=
  ⟨fun _ => hwanted, by simp [hwanted], by simp [heof]⟩

/-- After `conn_maybe_send_eof` no EOF waits for an open window. -/
theorem connMaybeSendEof_closeOk {k : ChaosConn} (nowMs : Millis) (hopen : k.state = connOpen)
    (hlast : k.eofSent = true → k.eofWanted = true ∧ k.eofNum = k.sentNum) :
    CloseOk (connMaybeSendEof k nowMs).1 := by
  unfold connMaybeSendEof
  split
  · next hgo => exact ⟨by simp [connSendControlled, connTransmit, hopen], nofun,
      fun _ => ⟨hgo.2.1, rfl⟩⟩
  · next hstop =>
    refine ⟨by simp [hopen], fun _ hwanted heof havail => ?_, hlast⟩
    have hnot : k.eofSent = false := heof
    exact hstop ⟨hopen, hwanted, by simp [hnot], havail⟩

/-- Processing an acknowledgement that is in range leaves no EOF waiting. -/
theorem connProcessAck_closeOk {k : ChaosConn} {ack receipt : UShort} (nowMs : Millis)
    (hopen : k.state = connOpen)
    (hlast : k.eofSent = true → k.eofWanted = true ∧ k.eofNum = k.sentNum)
    (hack : chaosSeqLt k.sentNum ack = false) (hreceipt : chaosSeqLt k.sentNum receipt = false) :
    CloseOk (connProcessAck k ack receipt nowMs).1 := by
  have hnote := noteAck_eq k ack receipt
  rcases connProcessAck_cases k ack receipt nowMs with ⟨hout, -⟩ | ⟨-, ⟨-, -, -, hcls⟩ | heof⟩
  · simp [hack, hreceipt] at hout
  · rw [hcls, hnote]
    exact .of_closed rfl hlast
  · rw [heof]
    refine connMaybeSendEof_closeOk nowMs ?_ ?_
    · rw [hnote]
      exact hopen
    · rw [hnote]
      exact hlast

/-- **Step lemma**: every part keeps the handshake in order. -/
theorem CloseOk.part {e : CoreEvent} {h : Fin chaosMaxConns} {k₀ k : ChaosConn} {r : Act}
    (hk : CloseOk k) (hhonest : ∀ pkt, Delivers e h k₀ pkt → AcksInRange k₀ pkt)
    (hr : ConnPart e h k₀ k r) : CloseOk r.1 := by
  cases hr with
  | opened u w n call free uniq length => exact .of_unwanted rfl rfl
  | sent call alive =>
      unfold connSend
      split
      · exact hk
      · next hgo =>
        obtain ⟨hstate, hwanted⟩ := not_or.mp hgo
        have hnot : k.eofWanted = false := by simpa using hwanted
        have heof : k.eofSent = false := by
          by_contra hsent
          have := (hk.last (by simpa using hsent)).1
          simp [hnot] at this
        refine .of_unwanted ?_ ?_
        · rw [sendLoop_frame]
          exact hnot
        · rw [sendLoop_frame]
          exact heof
  | finished call alive =>
      unfold connFinish
      split
      · exact hk
      · next hgo =>
        obtain ⟨hstate, hwanted⟩ := not_or.mp hgo
        refine connMaybeSendEof_closeOk _ (not_not.mp hstate) ?_
        intro heof
        exact ⟨rfl, (hk.last heof).2⟩
  | received call alive =>
      unfold connRecv
      simp only
      rw [connNoteRead_frame, recvLoop_frame]
      exact hk.congr rfl rfl rfl rfl rfl rfl rfl
  | released call alive => exact .of_unwanted rfl rfl
  | heard pkt delivers untouched => exact hk.congr rfl rfl rfl rfl rfl rfl rfl
  | opn pkt delivers untouched state opcode length =>
      have hrange := hhonest pkt delivers
      have hsent : (k.withOpn pkt).sentNum = k₀.sentNum := untouched.sentNum
      exact (connProcessAck_closeOk (k := k.withOpn pkt) e.nowMs rfl hk.last
        (by rw [hsent]; exact hrange.1)
        (by rw [hsent]; exact hrange.2 (Or.inr opcode) length)).congr rfl rfl rfl rfl rfl rfl rfl
  | acked pkt window receipt delivers untouched state values =>
      have hrange := hhonest pkt delivers
      have hsent : (k.withWindow window).sentNum = k₀.sentNum := untouched.sentNum
      refine connProcessAck_closeOk (k := k.withWindow window) e.nowMs state hk.last
        (by rw [hsent]; exact hrange.1) ?_
      rw [hsent]
      rcases values with ⟨-, rfl⟩ | ⟨hsts, hlen, -, rfl⟩
      · exact hrange.1
      · exact hrange.2 (Or.inl hsts) hlen
  | queued pkt delivers received state opcode =>
      rw [connQueueInput_frame]
      exact hk.congr rfl rfl rfl rfl rfl rfl rfl
  | refused pkt delivers untouched state => exact hk
  | closed kind text live why => exact .of_closed rfl hk.last
  | retransmitted minAge live =>
      rw [connRetransmit_sentOnly k e.nowMs minAge]
      exact hk.congr rfl rfl rfl rfl rfl rfl rfl
  | sts state => exact hk.congr rfl rfl rfl rfl rfl rfl rfl
  | probed call state => exact hk.congr rfl rfl rfl rfl rfl rfl rfl
  | sns call state => exact hk.congr rfl rfl rfl rfl rfl rfl rfl
  | gaveUp call untouched state wanted late => exact .of_closed rfl hk.last

/-! ### The CLS within one call -/

/-- Why the core sends a CLS of its own accord: the EOF has been acknowledged,
or the time for that is over. -/
inductive ClsCause (e : CoreEvent) (h : Fin chaosMaxConns) (k₀ : ChaosConn) : Prop
  | acknowledged (pkt : Packet) (delivers : Delivers e h k₀ pkt) (sent : k₀.eofSent = true)
      (reached : later k₀.ackedNum pkt.ack = k₀.eofNum)
  | late (wanted : k₀.eofWanted = true) (state : k₀.state = connOpen)
      (late : chaosFinishTimeoutMs ≤ e.nowMs - k₀.finishStartMs)

/-- What surrounds a CLS in one act of the call `e`. -/
structure ClsLaw (e : CoreEvent) (h : Fin chaosMaxConns) (k₀ k : ChaosConn) (r : Act) :
    Prop where
  quiet : k.state = connClosed → r.1.state = connClosed ∧ ∀ s ∈ r.2, ¬ Loud s.opcode
  closes : ∀ s ∈ r.2, s.opcode = chopCls → r.1.state = connClosed
  order : ∀ s t, [s, t].Sublist r.2 → s.opcode = chopCls → ¬ Loud t.opcode
  cause : ∀ s ∈ r.2, s.opcode = chopCls → ClsCause e h k₀

section ClsLaw

variable {e : CoreEvent} {h : Fin chaosMaxConns} {k₀ k : ChaosConn} {r r' : Act}

theorem ClsLaw.trans (h1 : ClsLaw e h k₀ k r) (h2 : ClsLaw e h k₀ r.1 r') :
    ClsLaw e h k₀ k (r'.1, r.2 ++ r'.2) where
  quiet := by
    intro hclosed
    obtain ⟨hmid, hquiet1⟩ := h1.quiet hclosed
    obtain ⟨hlast, hquiet2⟩ := h2.quiet hmid
    refine ⟨hlast, fun s hs => ?_⟩
    rcases List.mem_append.mp hs with hs | hs
    · exact hquiet1 s hs
    · exact hquiet2 s hs
  closes := by
    intro s hs hcls
    rcases List.mem_append.mp hs with hs | hs
    · exact (h2.quiet (h1.closes s hs hcls)).1
    · exact h2.closes s hs hcls
  order := by
    intro s t hst hcls
    obtain ⟨l₁, l₂, heq, hl₁, hl₂⟩ := List.sublist_append_iff.mp hst
    rcases l₁ with _ | ⟨a, _ | ⟨b, l₁⟩⟩
    · rw [List.nil_append] at heq
      exact h2.order s t (heq ▸ hl₂) hcls
    · simp only [List.cons_append, List.nil_append, List.cons.injEq] at heq
      obtain ⟨rfl, rfl⟩ := heq
      have hclosed := h1.closes s (List.singleton_sublist.mp hl₁) hcls
      exact (h2.quiet hclosed).2 t (List.singleton_sublist.mp hl₂)
    · simp only [List.cons_append, List.cons.injEq] at heq
      obtain ⟨rfl, rfl, hnil⟩ := heq
      obtain ⟨rfl, rfl⟩ := List.append_eq_nil_iff.mp hnil.symm
      exact h1.order s t hl₁ hcls
  cause := by
    intro s hs hcls
    rcases List.mem_append.mp hs with hs | hs
    · exact h1.cause s hs hcls
    · exact h2.cause s hs hcls

/-- An act that sends no CLS. -/
theorem ClsLaw.of_no_cls
    (hquiet : k.state = connClosed → r.1.state = connClosed ∧ ∀ s ∈ r.2, ¬ Loud s.opcode)
    (hno : ∀ s ∈ r.2, s.opcode ≠ chopCls) : ClsLaw e h k₀ k r where
  quiet := hquiet
  closes := fun s hs hcls => absurd hcls (hno s hs)
  order := fun s _ hst hcls => absurd hcls (hno s (hst.subset List.mem_cons_self))
  cause := fun s hs hcls => absurd hcls (hno s hs)

/-- The same on a connection that is not closed. -/
theorem ClsLaw.of_not_closed (hstate : k.state ≠ connClosed)
    (hno : ∀ s ∈ r.2, s.opcode ≠ chopCls) : ClsLaw e h k₀ k r :=
  .of_no_cls (fun hclosed => absurd hclosed hstate) hno

/-- An act that sends nothing. -/
theorem ClsLaw.of_silent (hstate : k.state = connClosed → r.1.state = connClosed)
    (hnone : r.2 = []) : ClsLaw e h k₀ k r :=
  .of_no_cls (fun hclosed => ⟨hstate hclosed, by simp [hnone]⟩) (by simp [hnone])

/-- A CLS that ends an open connection. -/
theorem connCloseCls_clsLaw {k' : ChaosConn} (hstate : k.state ≠ connClosed)
    (hcause : ClsCause e h k₀) (reason : List Byte) (kind : ChaosCloseKind) :
    ClsLaw e h k₀ k (connCloseCls k' reason kind) where
  quiet := fun hclosed => absurd hclosed hstate
  closes := fun _ _ _ => rfl
  order := by
    intro s t hst
    have hlen := hst.length_le
    simp [connCloseCls, connSendUnc] at hlen
  cause := fun _ _ _ => hcause

end ClsLaw

theorem connMaybeSendEof_no_cls (k : ChaosConn) (nowMs : Millis) :
    ∀ s ∈ (connMaybeSendEof k nowMs).2, s.opcode ≠ chopCls := by
  intro s hs
  unfold connMaybeSendEof at hs
  split at hs
  · rw [Act.andThen_snd, List.append_nil] at hs
    rw [(connSendControlled_sends _ _ _ _ s hs).2.1]
    decide
  · cases hs

theorem sendLoop_no_cls (nowMs : Millis) (fuel : Nat) (k : ChaosConn) (data : List Byte) :
    ∀ s ∈ (sendLoop nowMs fuel k data).1.2, s.opcode ≠ chopCls := by
  induction fuel generalizing k data with
  | zero => simp [sendLoop]
  | succ fuel ih =>
      unfold sendLoop
      split
      · intro s hs
        rcases List.mem_append.mp hs with hs | hs
        · rw [(connSendControlled_sends _ _ _ _ s hs).2.1]
          decide
        · exact ih _ _ s hs
      · simp

theorem connRetransmit_no_cls {k : ChaosConn} (hfit : k.SendFit) (hh : HistoryOk k)
    (nowMs minAgeMs : Millis) : ∀ s ∈ (connRetransmit k nowMs minAgeMs).2,
      s.opcode ≠ chopCls := by
  intro s hs
  obtain ⟨⟨i, a, ha, -, hop, -, -⟩, -⟩ := connRetransmit_sends hfit nowMs minAgeMs s hs
  have hkind := hh.numberedTo.kinds a (List.mem_of_getElem? ha)
  rw [hop]
  rintro hcls
  rw [hcls] at hkind
  exact absurd hkind (by decide)

/-- An acknowledgement in range that reaches `sentNum` is `sentNum`. -/
theorem later_eq_sentNum {k : ChaosConn} {ack : UShort} (hok : k.sendView.Ok)
    (hack : chaosSeqLt k.sentNum ack = false)
    (hreached : chaosSeqLt (later k.ackedNum ack) k.sentNum = false) :
    later k.ackedNum ack = k.sentNum := by
  have hacked : 2 * Serial.behind k.sentNum k.ackedNum < 2 ^ 16 := by
    have hbound : Serial.behind k.sentNum k.ackedNum ≤ 50 := hok.bounded
    omega
  have hmin := behind_later hacked (behind_of_not_seqLt hack)
  rw [chaosSeqLt_eq_before] at hreached
  refine Serial.eq_of_not_before hreached (Serial.not_before_iff.mpr ?_)
  rw [hmin]
  omega

/-- The packets of an act that can only be STS. -/
def OnlySts (r : Act) : Prop := ∀ s ∈ r.2, s.opcode = chopSts

theorem connSendSts_onlySts (k : ChaosConn) : OnlySts (connSendSts k) := by
  intro s hs
  rw [List.mem_singleton.mp hs]

theorem connQueueInput_onlySts (k : ChaosConn) (pkt : Packet) : OnlySts (connQueueInput k pkt) := by
  unfold connQueueInput
  simp only
  split
  · exact connSendSts_onlySts _
  split
  · exact connSendSts_onlySts _
  split
  · exact connSendSts_onlySts _
  split
  · exact connSendSts_onlySts _
  · exact fun _ hs => by cases hs

theorem connNoteRead_onlySts (k : ChaosConn) (advanced : Bool) (nowMs : Millis) :
    OnlySts (connNoteRead k advanced nowMs) := by
  unfold connNoteRead
  split
  · split
    · exact connSendSts_onlySts _
    · split <;> exact fun _ hs => by cases hs
  · exact fun _ hs => by cases hs

theorem OnlySts.no_cls {r : Act} (hr : OnlySts r) : ∀ s ∈ r.2, s.opcode ≠ chopCls := by
  intro s hs
  rw [hr s hs]
  decide

theorem OnlySts.not_loud {r : Act} (hr : OnlySts r) : ∀ s ∈ r.2, ¬ Loud s.opcode := by
  intro s hs
  rw [hr s hs]
  exact (by decide : ¬ (Controlled chopSts ∨ chopSts = chopCls))

/-- **Step lemma of the CLS.** -/
theorem ConnPart.clsLaw {e : CoreEvent} {h : Fin chaosMaxConns} {k₀ k : ChaosConn} {r : Act}
    (hr : ConnPart e h k₀ k r) (hk : SendOk k) (hh : HistoryOk k) (hclose : CloseOk k)
    (hkeeps : Keeps h e) (hhonest : ∀ pkt, Delivers e h k₀ pkt → AcksInRange k₀ pkt) :
    ClsLaw e h k₀ k r := by
  cases hr with
  | opened u w n call free uniq length =>
      refine .of_not_closed (by simp [free]) ?_
      intro s hs
      rw [(connSendControlled_sends _ _ _ _ s hs).2.1]
      decide
  | sent call alive =>
      unfold connSend
      split
      · exact .of_silent id rfl
      · next hgo =>
        refine .of_not_closed ?_ (sendLoop_no_cls _ _ _ _)
        simp [not_not.mp (not_or.mp hgo).1]
  | finished call alive =>
      unfold connFinish
      split
      · exact .of_silent id rfl
      · next hgo =>
        refine .of_not_closed ?_ (connMaybeSendEof_no_cls _ _)
        simp [not_not.mp (not_or.mp hgo).1]
  | @received max call alive =>
      have hsts : OnlySts (connRecv k max e.nowMs).1 := connNoteRead_onlySts _ _ _
      refine .of_no_cls (fun hclosed => ⟨?_, hsts.not_loud⟩) hsts.no_cls
      unfold connRecv
      simp only
      rw [connNoteRead_frame, recvLoop_frame]
      exact hclosed
  | released call alive => exact absurd call (hkeeps _)
  | heard pkt delivers untouched => exact .of_silent id rfl
  | opn pkt delivers untouched state opcode length =>
      refine .of_not_closed (by simp [state]) ?_
      intro s hs
      rcases List.mem_append.mp hs with hs | hs
      · rcases connProcessAck_cases (k.withOpn pkt) pkt.ack (get16At pkt.data 0) e.nowMs with
          ⟨-, hnone⟩ | ⟨-, ⟨hsent, -⟩ | heof⟩
        · rw [hnone] at hs
          cases hs
        · have hwanted := (hclose.last hsent).1
          rw [hclose.fresh state] at hwanted
          cases hwanted
        · rw [heof] at hs
          exact connMaybeSendEof_no_cls _ _ s hs
      · exact (connSendSts_onlySts _).no_cls s hs
  | acked pkt window receipt delivers untouched state values =>
      have hnot : k.state ≠ connClosed := by simp [state]
      rcases connProcessAck_cases (k.withWindow window) pkt.ack receipt e.nowMs with
        ⟨-, hnone⟩ | ⟨-, ⟨hsent, hreached, -, hcls⟩ | heof⟩
      · rw [hnone]
        exact .of_not_closed hnot (by simp)
      · rw [hcls]
        refine connCloseCls_clsLaw hnot (.acknowledged pkt delivers ?_ ?_) _ _
        · rw [← untouched.eofSent]
          exact hsent
        · have hack := (hhonest pkt delivers).1
          rw [← untouched.sentNum] at hack
          rw [← untouched.ackedNum, ← untouched.eofNum, (hclose.last hsent).2]
          change chaosSeqLt (later k.ackedNum pkt.ack) k.eofNum = false at hreached
          rw [(hclose.last hsent).2] at hreached
          exact later_eq_sentNum (hk (Or.inr state)).1 hack hreached
      · rw [heof]
        exact .of_not_closed hnot (connMaybeSendEof_no_cls _ _)
  | queued pkt delivers received state opcode =>
      exact .of_not_closed (by simp [state]) (connQueueInput_onlySts k pkt).no_cls
  | refused pkt delivers untouched state =>
      have hlos : ∀ s ∈ [losReply pkt (bytesOf "Connection in invalid state")],
          s.opcode = chopLos := by
        intro s hs
        rw [List.mem_singleton.mp hs]
        rfl
      refine .of_no_cls (fun hclosed => ⟨hclosed, fun s hs => ?_⟩) fun s hs => ?_
      · rw [hlos s hs]
        exact (by decide : ¬ (Controlled chopLos ∨ chopLos = chopCls))
      · rw [hlos s hs]
        decide
  | closed kind text live why => exact .of_silent (fun _ => rfl) rfl
  | retransmitted minAge live =>
      refine .of_not_closed ?_ (connRetransmit_no_cls (hk live) hh _ _)
      rcases live with h | h <;> simp [h]
  | sts state => exact .of_not_closed (by simp [state]) (connSendSts_onlySts k).no_cls
  | probed call state => exact .of_silent id rfl
  | sns call state =>
      refine .of_not_closed (by simp [state]) ?_
      intro s hs
      rw [List.mem_singleton.mp hs]
      exact (by decide : chopSns ≠ chopCls)
  | gaveUp call untouched state wanted late =>
      refine connCloseCls_clsLaw (by simp [state]) (.late ?_ ?_ ?_) _ _
      · rw [← untouched.eofWanted]
        exact wanted
      · rw [← untouched.state]
        exact state
      · rw [← untouched.finishStartMs]
        exact late

/-! ### When the connection was finished -/

/-- `r` leaves an open finished connection only if `k` was one. -/
def KeepsFinish (k : ChaosConn) (r : Act) : Prop :=
  r.1.state = connOpen → r.1.eofWanted = true →
    k.state = connOpen ∧ k.eofWanted = true ∧ r.1.finishStartMs = k.finishStartMs

theorem KeepsFinish.of_eq {k : ChaosConn} {r : Act} (hstate : r.1.state = k.state)
    (hwanted : r.1.eofWanted = k.eofWanted) (hstart : r.1.finishStartMs = k.finishStartMs) :
    KeepsFinish k r := by
  intro hopen hw
  exact ⟨hstate ▸ hopen, hwanted ▸ hw, hstart⟩

/-- What `conn_process_ack` does to the fields of `chaos_finish`. -/
theorem connProcessAck_finish (k : ChaosConn) (ack receipt : UShort) (nowMs : Millis) :
    (connProcessAck k ack receipt nowMs).1.eofWanted = k.eofWanted ∧
      (connProcessAck k ack receipt nowMs).1.finishStartMs = k.finishStartMs ∧
      ((connProcessAck k ack receipt nowMs).1.state = connOpen → k.state = connOpen) := by
  have hnote := noteAck_eq k ack receipt
  rcases connProcessAck_cases k ack receipt nowMs with ⟨-, hnone⟩ | ⟨-, ⟨-, -, -, hcls⟩ | heof⟩
  · rw [hnone]
    exact ⟨rfl, rfl, id⟩
  · rw [hcls, hnote]
    exact ⟨rfl, rfl, nofun⟩
  · rw [heof, connMaybeSendEof_frame, hnote]
    exact ⟨rfl, rfl, id⟩

/-- No call but `chaos_finish` finishes a connection. -/
theorem ConnPart.keepsFinish {e : CoreEvent} {h : Fin chaosMaxConns} {k₀ k : ChaosConn}
    {r : Act} (hr : ConnPart e h k₀ k r) (hclose : CloseOk k)
    (hnot : e.call ≠ .chaosFinish h.val) : KeepsFinish k r := by
  cases hr with
  | opened u w n call free uniq length => exact fun hopen => nomatch hopen
  | sent call alive =>
      unfold connSend
      split
      · exact .of_eq rfl rfl rfl
      · refine .of_eq ?_ ?_ ?_ <;> rw [sendLoop_frame]
  | finished call alive => exact absurd call hnot
  | received call alive =>
      refine .of_eq ?_ ?_ ?_
      all_goals
        unfold connRecv
        simp only
        rw [connNoteRead_frame, recvLoop_frame]
  | released call alive => exact fun hopen => nomatch hopen
  | opn pkt delivers untouched state opcode length =>
      intro hopen hwanted
      have hack := connProcessAck_finish (k.withOpn pkt) pkt.ack (get16At pkt.data 0) e.nowMs
      have hnone : k.eofWanted = true := hack.1.symm.trans hwanted
      rw [hclose.fresh state] at hnone
      cases hnone
  | acked pkt window receipt delivers untouched state values =>
      intro hopen hwanted
      have hack := connProcessAck_finish (k.withWindow window) pkt.ack receipt e.nowMs
      exact ⟨state, hack.1.symm.trans hwanted, hack.2.1⟩
  | queued pkt delivers received state opcode =>
      refine .of_eq ?_ ?_ ?_ <;> rw [connQueueInput_frame]
  | closed kind text live why => exact fun hopen => nomatch hopen
  | retransmitted minAge live =>
      refine .of_eq ?_ ?_ ?_ <;> rw [connRetransmit_sentOnly k e.nowMs minAge]
  | gaveUp call untouched state wanted late => exact fun hopen => nomatch hopen
  | _ => exact .of_eq rfl rfl rfl

/-- `chaos_finish` on a connection: it was finished already, or is now. -/
theorem connFinish_finish (k : ChaosConn) (nowMs : Millis)
    (hopen : (connFinish k nowMs).1.state = connOpen) :
    k.state = connOpen ∧ (k.eofWanted = true ∧ connFinish k nowMs = (k, []) ∨
      (connFinish k nowMs).1.finishStartMs = nowMs) := by
  by_cases hstop : k.state ≠ connOpen ∨ k.eofWanted = true
  · have hsame : connFinish k nowMs = (k, []) := by rw [connFinish, if_pos hstop]
    rw [hsame] at hopen ⊢
    have hstate : k.state = connOpen := hopen
    exact ⟨hstate, Or.inl ⟨by simpa [hstate] using hstop, rfl⟩⟩
  · have hgo : connFinish k nowMs =
        connMaybeSendEof { k with eofWanted := true, finishStartMs := nowMs } nowMs := by
      rw [connFinish, if_neg hstop]
    refine ⟨not_not.mp (not_or.mp hstop).1, Or.inr ?_⟩
    rw [hgo, connMaybeSendEof_frame]

/-! ### Runs -/

/-- What the run rules of this module know at every point of a run. -/
structure CloseState (h : Fin chaosMaxConns) (c : ChaosCore) : Prop where
  reachable : Reachable c
  closeOk : CloseOk (c.conns h)

theorem CloseState.step {h : Fin chaosMaxConns} {c : ChaosCore} (hc : CloseState h c)
    {e : CoreEvent} (hhonest : Honest h c e) : CloseState h (coreStep c e) := by
  refine ⟨hc.reachable.step e, ?_⟩
  obtain ⟨acts, hacts, hfrom⟩ := coreStep_acts hc.reachable.coreOk.uniquizer e
  rw [hfrom.conns h]
  exact (hacts h).chain.invariant (fun hk hp => hk.part hhonest hp) hc.closeOk

/-- Where an open finished connection comes from. -/
theorem CloseState.finish {h : Fin chaosMaxConns} {c : ChaosCore} (hc : CloseState h c)
    {e : CoreEvent} (hhonest : Honest h c e)
    (hopen : ((coreStep c e).conns h).state = connOpen)
    (hwanted : ((coreStep c e).conns h).eofWanted = true) :
    (c.conns h).state = connOpen ∧
      ((c.conns h).eofWanted = true ∧
          ((coreStep c e).conns h).finishStartMs = (c.conns h).finishStartMs ∨
        e.call = .chaosFinish h.val ∧
          ((coreStep c e).conns h).finishStartMs = e.nowMs) := by
  by_cases hcall : e.call = .chaosFinish h.val
  · rw [coreStep_chaosFinish hcall] at hopen ⊢
    obtain ⟨hstate, ⟨hwas, hsame⟩ | hstart⟩ := connFinish_finish _ _ hopen
    · exact ⟨hstate, Or.inl ⟨hwas, by rw [hsame]⟩⟩
    · exact ⟨hstate, Or.inr ⟨hcall, hstart⟩⟩
  · obtain ⟨acts, hacts, hfrom⟩ := coreStep_acts hc.reachable.coreOk.uniquizer e
    rw [hfrom.conns h] at hopen hwanted ⊢
    have hkeeps := ((hacts h).chain.carried (I := CloseOk) (R := KeepsFinish)
      (fun k ho hw => ⟨ho, hw, rfl⟩) ?_
      (fun hk hp => ⟨hk.part hhonest hp, hp.keepsFinish hk hcall⟩) hc.closeOk).2 hopen hwanted
    · exact ⟨hkeeps.1, Or.inl hkeeps.2⟩
    · intro k r r' h1 h2 ho hw
      obtain ⟨ho', hw', hs'⟩ := h2 ho hw
      obtain ⟨ho'', hw'', hs''⟩ := h1 ho' hw'
      exact ⟨ho'', hw'', hs'.trans hs''⟩

/-- What surrounds a CLS in one call that keeps the connection. -/
theorem CloseState.clsLaw {h : Fin chaosMaxConns} {c : ChaosCore} (hc : CloseState h c)
    {e : CoreEvent} (hhonest : Honest h c e) (hkeeps : Keeps h e) {r : Act}
    (hr : ConnAct e h (c.conns h) r) : ClsLaw e h (c.conns h) (c.conns h) r := by
  have hok := hc.reachable.coreOk
  refine (hr.chain.carried (I := fun k => SendOk k ∧ HistoryOk k ∧ CloseOk k)
    (fun k => .of_silent id rfl) ClsLaw.trans ?_ ⟨hok.sendOk h, hok.history h, hc.closeOk⟩).2
  rintro k r ⟨hk, hh, hclose⟩ hp
  exact ⟨⟨hk.part hp, hh.part hk hp, hclose.part hhonest hp⟩,
    hp.clsLaw hk hh hclose hkeeps hhonest⟩

/-- A call on a closed connection sends nothing of it that a peer would notice. -/
theorem CloseState.quiet {h : Fin chaosMaxConns} {c : ChaosCore} (hc : CloseState h c)
    {e : CoreEvent} (hhonest : Honest h c e) (hclosed : (c.conns h).state = connClosed)
    {r : Act} (hr : ConnAct e h (c.conns h) r) : ∀ s ∈ r.2, ¬ Loud s.opcode := by
  by_cases hrel : ∃ reason, e.call = .chaosRelease h.val reason
  · obtain ⟨reason, hcall⟩ := hrel
    cases hr with
    | idle => simp
    | released call alive =>
        intro s hs
        have hopen := (connRelease_sends _ _ s hs).2.2
        rw [hclosed] at hopen
        cases hopen
    | opened u w n call free uniq length => exact absurd (hcall.symm.trans call) (by simp)
    | sent call alive => exact absurd (hcall.symm.trans call) (by simp)
    | finished call alive => exact absurd (hcall.symm.trans call) (by simp)
    | received call alive => exact absurd (hcall.symm.trans call) (by simp)
    | learned call live => exact absurd (hcall.symm.trans call) (by simp)
    | input call read slot known => exact absurd (hcall.symm.trans call) (by simp)
    | learnedInput call live read slot known => exact absurd (hcall.symm.trans call) (by simp)
    | ticked call => exact absurd (hcall.symm.trans call) (by simp)
  · exact ((hc.clsLaw hhonest (fun reason hcall => hrel ⟨reason, hcall⟩) hr).quiet hclosed).2

/-- Event `n` of the run, a call that keeps connection `h`, emits its CLS as `f`. -/
structure ClsAt (c : ChaosCore) (h : Fin chaosMaxConns) (es : List CoreEvent) (n : Nat)
    (e : CoreEvent) (f : List Byte) : Prop where
  event : es[n]? = some e
  kept : Keeps h e
  inUse : (connAt c h es n).state ≠ connFree
  emitted : f ∈ emittedBy (Exec.runTo coreStep c es n) e
  frame : ∃ pkt, FrameFor (connAt c h es n).localIndex f pkt ∧ pkt.opcode = chopCls

/-- How connection `h` closes in the run `es`. -/
structure GracefulClose (c : ChaosCore) (h : Fin chaosMaxConns) (es : List CoreEvent) :
    Prop where
  /-- An EOF that was asked for and not sent waits for the window only. -/
  eofWaits : ∀ n, (connAt c h es n).state = connOpen → (connAt c h es n).eofWanted = true →
    (connAt c h es n).eofSent = false →
      (connAt c h es n).remoteWindow ≤
        seqDiff (connAt c h es n).sentNum (connAt c h es n).ackedNum
  /-- A CLS is sent when the EOF is acknowledged, or long after the finish. -/
  cause : ∀ n e f, ClsAt c h es n e f →
    (∃ pkt, Delivers e h (connAt c h es n) pkt ∧ (connAt c h es n).eofSent = true ∧
      later (connAt c h es n).ackedNum pkt.ack = (connAt c h es n).eofNum) ∨
    ∃ m e', m < n ∧ es[m]? = some e' ∧ e'.call = .chaosFinish h.val ∧
      (∀ j, m ≤ j → j ≤ n → (connAt c h es j).state = connOpen) ∧
      e'.nowMs.toNat + chaosFinishTimeoutMs.toNat ≤ e.nowMs.toNat
  /-- In the call that sends it nothing numbered and no CLS follows it. -/
  last : ∀ n e f, ClsAt c h es n e f → ∀ g q,
    [f, g].Sublist (emittedBy (Exec.runTo coreStep c es n) e) →
      FrameFor (connAt c h es n).localIndex g q → ¬ Controlled q.opcode ∧ q.opcode ≠ chopCls
  /-- Afterwards the connection is closed, and nothing numbered and no CLS is
  ever sent for it again. -/
  closed : ∀ n e f, ClsAt c h es n e f → ∀ m, n < m →
    (∀ j e', n < j → j < m → es[j]? = some e' → Keeps h e') → m ≤ es.length →
      (connAt c h es m).state = connClosed ∧
      ∀ e' g q, es[m]? = some e' → g ∈ emittedBy (Exec.runTo coreStep c es m) e' →
        FrameFor (connAt c h es n).localIndex g q → ¬ Controlled q.opcode ∧ q.opcode ≠ chopCls

section Graceful

variable {c : ChaosCore} {h : Fin chaosMaxConns} {es : List CoreEvent}
  (hinit : CloseState h c) (hhonest : Exec.Allowed coreStep (Honest h) c es)

include hinit hhonest

theorem closeState_at (n : Nat) : CloseState h (Exec.runTo coreStep c es n) :=
  Exec.run_invariant (fun _ _ hok hc => hc.step hok) (hhonest.take n) hinit

/-- The finish of a connection that is now finished and open. -/
theorem finished_at (hfree : (c.conns h).state = connFree) {n : Nat} (hn : n ≤ es.length)
    (hopen : (connAt c h es n).state = connOpen)
    (hwanted : (connAt c h es n).eofWanted = true) :
    ∃ m e', m < n ∧ es[m]? = some e' ∧ e'.call = .chaosFinish h.val ∧
      (∀ j, m ≤ j → j ≤ n → (connAt c h es j).state = connOpen) ∧
      (connAt c h es n).finishStartMs = e'.nowMs := by
  induction n with
  | zero =>
      have hstate : (c.conns h).state = connOpen := hopen
      rw [hfree] at hstate
      cases hstate
  | succ n ih =>
      obtain ⟨e, he⟩ : ∃ e, es[n]? = some e := ⟨_, List.getElem?_eq_getElem hn⟩
      have hnext := Exec.runTo_succ coreStep c he
      have hopen' := hopen
      rw [connAt, hnext] at hopen' hwanted
      obtain ⟨hstate, ⟨hwas, hsame⟩ | ⟨hcall, hstart⟩⟩ :=
        (closeState_at hinit hhonest n).finish (hhonest.get he) hopen' hwanted
      · obtain ⟨m, e', hm, he', hcall, hall, hstart⟩ := ih (by omega) hstate hwas
        refine ⟨m, e', by omega, he', hcall, fun j hj hjn => ?_, ?_⟩
        · rcases Nat.lt_or_ge j (n + 1) with hlt | hge
          · exact hall j hj (by omega)
          · obtain rfl : j = n + 1 := by omega
            exact hopen
        · rw [connAt, hnext, hsame]
          exact hstart
      · refine ⟨n, e, by omega, he, hcall, fun j hj hjn => ?_, ?_⟩
        · rcases Nat.lt_or_ge j (n + 1) with hlt | hge
          · obtain rfl : j = n := by omega
            exact hstate
          · obtain rfl : j = n + 1 := by omega
            exact hopen
        · rw [connAt, hnext, hstart]

/-- The act behind a CLS at event `n`, and the packet it was sent as. -/
theorem clsAt_act {n : Nat} {e : CoreEvent} {f : List Byte} (hcls : ClsAt c h es n e f) :
    ∃ acts : Fin chaosMaxConns → Act,
      (∀ g, ConnAct e g (connAt c g es n) (acts g)) ∧
      ActsFrom acts (Exec.runTo coreStep c es n) (coreStep (Exec.runTo coreStep c es n) e) ∧
      ClsLaw e h (connAt c h es n) (connAt c h es n) (acts h) ∧
      ∃ s ∈ (acts h).2, s.opcode = chopCls := by
  have hstate := closeState_at hinit hhonest n
  have hok := hstate.reachable.coreOk
  obtain ⟨acts, hacts, hfrom⟩ := coreStep_acts hok.uniquizer e
  obtain ⟨pkt, hframe, hop⟩ := hcls.frame
  have hloud : Loud pkt.opcode := Or.inr hop
  obtain ⟨s, hs, -, hsop, -⟩ := emitted_source hok hacts hfrom
    ((hok.index h).nonzero hcls.inUse) hcls.emitted hframe hloud
  rw [(hok.index h).slot hcls.inUse] at hs
  exact ⟨acts, hacts, hfrom,
    hstate.clsLaw (hhonest.get hcls.event) hcls.kept (hacts h), s, hs, hsop.symm.trans hop⟩

/-- After a CLS the connection is closed until it is released. -/
theorem closed_after {n : Nat} {e : CoreEvent} {f : List Byte} (hcls : ClsAt c h es n e f)
    (d : Nat) (hkeeps : ∀ j e', n < j → j < n + 1 + d → es[j]? = some e' → Keeps h e')
    (hlen : n + 1 + d ≤ es.length) :
    (connAt c h es (n + 1 + d)).state = connClosed ∧
      (connAt c h es (n + 1 + d)).localIndex = (connAt c h es n).localIndex := by
  induction d with
  | zero =>
      obtain ⟨acts, hacts, hfrom, hlaw, s, hs, hop⟩ := clsAt_act hinit hhonest hcls
      have hnext := Exec.runTo_succ coreStep c hcls.event
      have hext := coreStep_extends (closeState_at hinit hhonest n).reachable.coreOk
        hcls.inUse hcls.kept
      rw [Nat.add_zero, connAt, hnext]
      refine ⟨?_, hext.localIndex⟩
      rw [hfrom.conns h]
      exact hlaw.closes s hs hop
  | succ d ih =>
      obtain ⟨hclosed, hlocal⟩ := ih (fun j e' hj hjd => hkeeps j e' hj (by omega)) (by omega)
      obtain ⟨e', he'⟩ : ∃ e', es[n + 1 + d]? = some e' :=
        ⟨_, List.getElem?_eq_getElem (by omega)⟩
      have hkeep := hkeeps (n + 1 + d) e' (by omega) (by omega) he'
      have hstate := closeState_at hinit hhonest (n + 1 + d)
      have hok := hstate.reachable.coreOk
      have hnext := Exec.runTo_succ coreStep c he'
      have hinUse : (connAt c h es (n + 1 + d)).state ≠ connFree := by simp [hclosed]
      obtain ⟨acts, hacts, hfrom⟩ := coreStep_acts hok.uniquizer e'
      have hlaw := hstate.clsLaw (hhonest.get he') hkeep (hacts h)
      rw [← Nat.add_assoc, connAt, hnext]
      refine ⟨?_, (coreStep_extends hok hinUse hkeep).localIndex.trans hlocal⟩
      rw [hfrom.conns h]
      exact (hlaw.quiet hclosed).1

end Graceful

/-- Connections of a fresh core are free. -/
theorem closeState_init (myAddr : UShort) (myMac : Mac) (hostName : List Byte)
    (localWindow initialPktNum : UShort) (h : Fin chaosMaxConns) :
    CloseState h (chaosCoreInit myAddr myMac hostName localWindow initialPktNum) :=
  ⟨⟨myAddr, myMac, hostName, localWindow, initialPktNum, [], rfl⟩, .of_unwanted rfl rfl⟩

/-- Every run from a fresh core, by a clock that never goes back and with peers
that acknowledge nothing unsent, closes its connections gracefully. -/
theorem graceful_close (myAddr : UShort) (myMac : Mac) (hostName : List Byte)
    (localWindow initialPktNum : UShort) (h : Fin chaosMaxConns) (es : List CoreEvent)
    (hhonest : Exec.Allowed coreStep (Honest h)
      (chaosCoreInit myAddr myMac hostName localWindow initialPktNum) es)
    (hclock : es.Pairwise fun e e' => e.nowMs ≤ e'.nowMs) :
    GracefulClose (chaosCoreInit myAddr myMac hostName localWindow initialPktNum) h es := by
  have hinit := closeState_init myAddr myMac hostName localWindow initialPktNum h
  have hat := closeState_at hinit hhonest
  have hquiet : ∀ {op : Byte}, ¬ Loud op → ¬ Controlled op ∧ op ≠ chopCls := not_or.mp
  refine ⟨?_, ?_, ?_, ?_⟩
  · intro n hopen hwanted heof
    have hpending := (hat n).closeOk.pending hopen hwanted heof
    rw [windowAvailable_pos] at hpending
    exact Nat.not_lt.mp hpending
  · intro n e f hcls
    obtain ⟨acts, -, -, hlaw, s, hs, hop⟩ := clsAt_act hinit hhonest hcls
    cases hlaw.cause s hs hop with
    | acknowledged pkt delivers sent reached => exact Or.inl ⟨pkt, delivers, sent, reached⟩
    | late wanted state late =>
        obtain ⟨hlen, hget⟩ := List.getElem?_eq_some_iff.mp hcls.event
        obtain ⟨m, e', hm, he', hcall, hall, hstart⟩ :=
          finished_at hinit hhonest rfl (Nat.le_of_lt hlen) state wanted
        refine Or.inr ⟨m, e', hm, he', hcall, hall, ?_⟩
        obtain ⟨hlen', hget'⟩ := List.getElem?_eq_some_iff.mp he'
        have hle : e'.nowMs ≤ e.nowMs := by
          have := List.pairwise_iff_getElem.mp hclock m n hlen' hlen hm
          rwa [hget', hget] at this
        rw [hstart] at late
        have hdiff : chaosFinishTimeoutMs.toNat ≤ (e.nowMs - e'.nowMs).toNat := late
        rw [BitVec.toNat_sub_of_le hle] at hdiff
        have hle' : e'.nowMs.toNat ≤ e.nowMs.toNat := hle
        omega
  · intro n e f hcls g q hfg hq
    by_contra hnot
    have hloud : Loud q.opcode := by
      by_contra hno
      exact hnot (hquiet hno)
    obtain ⟨acts, hacts, hfrom, hlaw, -⟩ := clsAt_act hinit hhonest hcls
    have hok := (hat n).reachable.coreOk
    obtain ⟨pkt, hframe, hop⟩ := hcls.frame
    obtain ⟨s, t, hst, hs, ht⟩ := emitted_pair hok hacts hfrom
      ((hok.index h).nonzero hcls.inUse) hfg hframe hq (Or.inr hop) hloud
    rw [(hok.index h).slot hcls.inUse] at hst
    exact hlaw.order s t hst (hs.symm.trans hop) (ht ▸ hloud)
  · intro n e f hcls m hm hkeeps hlen
    obtain ⟨d, rfl⟩ : ∃ d, m = n + 1 + d := ⟨m - (n + 1), by omega⟩
    obtain ⟨hclosed, hlocal⟩ := closed_after hinit hhonest hcls d hkeeps hlen
    refine ⟨hclosed, fun e' g q he' hg hq => hquiet fun hloud => ?_⟩
    have hok := (hat (n + 1 + d)).reachable.coreOk
    have hinUse : (connAt (chaosCoreInit myAddr myMac hostName localWindow initialPktNum) h es
        (n + 1 + d)).state ≠ connFree := by simp [hclosed]
    obtain ⟨acts, hacts, hfrom⟩ := coreStep_acts hok.uniquizer e'
    rw [← hlocal] at hq
    obtain ⟨s, hs, -, hsop, -⟩ := emitted_source hok hacts hfrom
      ((hok.index h).nonzero hinUse) hg hq hloud
    rw [(hok.index h).slot hinUse] at hs
    exact (hat (n + 1 + d)).quiet (hhonest.get he') hclosed (hacts h) s hs (hsop ▸ hloud)

/-- A connection that is opened, finished, and acknowledged by an STS. -/
def finishedRun : List CoreEvent :=
  [sampleOpen, ⟨.input sampleOpn, 1010⟩, ⟨.chaosFinish 0, 1020⟩,
    ⟨.input (sampleFrame chopSts 0 0x0101 (chaosPut16 0x0101 ++ chaosPut16 13)), 1030⟩]

theorem graceful_close_sample : GracefulClose sampleCore sampleConn finishedRun := by
  refine graceful_close 0o404 (Vector.replicate 6 2) (bytesOf "GENERA") 13 0x0100 sampleConn
    finishedRun ⟨honest_of_user nofun, ?_, honest_of_user nofun, ?_, trivial⟩ (by decide)
  · exact honest_of_input (readPacket_chaosFrame _ _ _ _) (by decide +kernel)
  · exact honest_of_input (readPacket_chaosFrame _ _ _ _) (by decide +kernel)

/-- A connection that is released while its EOF is still unacknowledged. -/
def releasedRun : List CoreEvent :=
  [sampleOpen, ⟨.input sampleOpn, 1010⟩, ⟨.chaosFinish 0, 1020⟩,
    ⟨.chaosRelease 0 (bytesOf "Killed"), 1030⟩]

/-- The CLS of `chaos_release` waits for neither the acknowledgement nor the
time-out. -/
theorem release_sends_cls :
    let k := connAt sampleCore sampleConn releasedRun 3
    k.eofWanted = true ∧ k.eofSent = true ∧ k.ackedNum ≠ k.eofNum ∧
      1030 - k.finishStartMs < chaosFinishTimeoutMs ∧
      ∃ f ∈ emittedBy (Exec.runTo coreStep sampleCore releasedRun 3)
          ⟨.chaosRelease 0 (bytesOf "Killed"), 1030⟩,
        ∃ pkt, FrameFor k.localIndex f pkt ∧ pkt.opcode = chopCls := by
  refine ⟨by decide +kernel, by decide +kernel, by decide +kernel, by decide +kernel, ?_⟩
  refine ⟨chaosFrame (Vector.replicate 6 4) (Vector.replicate 6 2) 0o404
    { opcode := chopCls, destAddr := 0o405, destIndex := 0x77, srcIndex := 0x20, num := 0
      ack := 0x0500, data := bytesOf "Killed" }, by decide +kernel, _,
    ⟨etherType_chaosFrame _ _ _ _, readPacket_chaosFrame _ _ _ _, by decide +kernel⟩, rfl⟩

end Chaos
