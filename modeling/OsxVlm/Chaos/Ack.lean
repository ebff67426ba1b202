import OsxVlm.Chaos.SendStream

/-!
# Acknowledging what was read

The peer's window reopens only when it is told how far its packets have been
read.  `AckOk` bounds what it has not been told yet; `PendingAck` dates the
deadline by which it will be; and a tick after that deadline tells it
(`ack_due_law`), unless the host is down or its hardware address is lost.
-/

namespace Chaos

open ChaosConnState ChaosCloseKind

/-- How many packets may be read before `chaos_recv` reports at once. -/
def ackThreshold (k : ChaosConn) : Nat := (k.localWindow.toNat + 1) / 2

/-- The peer has not been told of everything read on this open connection. -/
def AckPending (k : ChaosConn) : Prop := k.state = connOpen ∧ k.readNum ≠ k.lastAckSent

/-- What has not been told is less than half a window, and a deadline is set. -/
def AckOk (k : ChaosConn) : Prop :=
  AckPending k → k.ackDueMs ≠ 0 ∧ (seqDiff k.readNum k.lastAckSent).toNat < ackThreshold k

/-- `k'` reads no further than `k`; what it has to report, `k` had to as well. -/
structure AckKept (k k' : ChaosConn) : Prop where
  pending : AckPending k' → AckPending k ∧ k'.readNum = k.readNum ∧
    k'.lastAckSent = k.lastAckSent ∧ k'.ackDueMs = k.ackDueMs ∧ k'.localWindow = k.localWindow
  due : k'.ackDueMs = k.ackDueMs ∨ k'.ackDueMs = 0

theorem AckKept.refl (k : ChaosConn) : AckKept k k :=
  ⟨fun h => ⟨h, rfl, rfl, rfl, rfl⟩, Or.inl rfl⟩

theorem AckKept.trans {a b c : ChaosConn} (h1 : AckKept a b) (h2 : AckKept b c) :
    AckKept a c where
  pending := by
    intro hc
    obtain ⟨hb, hread, hlast, hdue, hwin⟩ := h2.pending hc
    obtain ⟨ha, hread', hlast', hdue', hwin'⟩ := h1.pending hb
    exact ⟨ha, hread.trans hread', hlast.trans hlast', hdue.trans hdue', hwin.trans hwin'⟩
  due := by
    rcases h2.due with h | h
    · rcases h1.due with h' | h'
      · exact Or.inl (h.trans h')
      · exact Or.inr (h.trans h')
    · exact Or.inr h

theorem AckKept.ackOk {k k' : ChaosConn} (h : AckKept k k') (hk : AckOk k) : AckOk k' := by
  intro hpending
  obtain ⟨hp, hread, hlast, hdue, hwin⟩ := h.pending hpending
  rw [ackThreshold, hread, hlast, hdue, hwin]
  exact hk hp

/-- Nothing is left to report once a packet has gone out. -/
theorem AckKept.of_settled {k k' : ChaosConn} (hlast : k'.lastAckSent = k'.readNum)
    (hdue : k'.ackDueMs = 0) : AckKept k k' :=
  ⟨fun h => absurd hlast.symm h.2, Or.inr hdue⟩

theorem AckKept.of_not_open {k k' : ChaosConn} (hstate : k'.state ≠ connOpen)
    (hdue : k'.ackDueMs = k.ackDueMs ∨ k'.ackDueMs = 0) : AckKept k k' :=
  ⟨fun h => absurd h.1 hstate, hdue⟩

/-- The acknowledgement fields are unchanged. -/
theorem AckKept.of_eq {k k' : ChaosConn} (hstate : k'.state = k.state)
    (hread : k'.readNum = k.readNum) (hlast : k'.lastAckSent = k.lastAckSent)
    (hdue : k'.ackDueMs = k.ackDueMs) (hwin : k'.localWindow = k.localWindow) :
    AckKept k k' := by
  refine ⟨fun ⟨hopen, hne⟩ => ⟨⟨hstate ▸ hopen, ?_⟩, hread, hlast, hdue, hwin⟩, Or.inl hdue⟩
  rwa [hread, hlast] at hne

theorem connTransmit_ackKept (k : ChaosConn) (s : Fin chaosRing) (nowMs : Millis) :
    AckKept k (connTransmit k s nowMs).1 := .of_settled rfl rfl

theorem connRetransmit_ackKept (k : ChaosConn) (nowMs minAgeMs : Millis) :
    AckKept k (connRetransmit k nowMs minAgeMs).1 := by
  refine (foldl_andThen (P := AckKept k) (Q := fun _ => True) ?_ (.refl k)).1
  intro n _ k' hk'
  refine ⟨hk'.trans ?_, fun _ _ => trivial⟩
  unfold retransmitOne
  simp only
  split
  · exact .refl k'
  · split
    · exact .refl k'
    · exact connTransmit_ackKept k' _ nowMs

theorem connMaybeSendEof_ackKept (k : ChaosConn) (nowMs : Millis) :
    AckKept k (connMaybeSendEof k nowMs).1 := by
  unfold connMaybeSendEof
  split
  · exact .of_settled rfl rfl
  · exact .refl k

theorem connProcessAck_ackKept (k : ChaosConn) (ack receipt : UShort) (nowMs : Millis) :
    AckKept k (connProcessAck k ack receipt nowMs).1 := by
  have hnoted : AckKept k (noteAck k ack receipt) := by
    rw [noteAck_eq]
    exact .of_eq rfl rfl rfl rfl rfl
  rcases connProcessAck_cases k ack receipt nowMs with ⟨-, hnone⟩ | ⟨-, ⟨-, -, -, hcls⟩ | heof⟩
  · rw [hnone]
    exact .refl k
  · rw [hcls]
    exact .of_not_open nofun (Or.inr rfl)
  · rw [heof]
    exact hnoted.trans (connMaybeSendEof_ackKept _ _)

theorem sendLoop_ackKept (nowMs : Millis) (fuel : Nat) (k : ChaosConn) (data : List Byte) :
    AckKept k (sendLoop nowMs fuel k data).1.1 := by
  induction fuel generalizing k data with
  | zero => exact .refl k
  | succ fuel ih =>
      unfold sendLoop
      split
      · exact AckKept.trans (.of_settled rfl rfl) (ih _ _)
      · exact .refl k

theorem connQueueInput_ackKept (k : ChaosConn) (pkt : Packet) :
    AckKept k (connQueueInput k pkt).1 := by
  unfold connQueueInput
  simp only
  split
  · exact .of_settled rfl rfl
  split
  · exact .of_settled rfl rfl
  split
  · exact .of_settled rfl rfl
  split
  · exact .of_settled rfl rfl
  · rw [advanceReceived_frame]
    exact .of_eq rfl rfl rfl rfl rfl

/-- **Step lemma.**  No call but `chaos_recv` makes anything new to report. -/
theorem ConnPart.ackKept {e : CoreEvent} {h : Fin chaosMaxConns} {k₀ k : ChaosConn}
    {r : Act} (hr : ConnPart e h k₀ k r) (hnot : ∀ max, e.call ≠ .chaosRecv h.val max) :
    AckKept k r.1 := by
  cases hr with
  | opened u w n call free uniq length => exact .of_not_open nofun (Or.inr rfl)
  | sent call alive =>
      unfold connSend
      split
      · exact .refl k
      · exact sendLoop_ackKept _ _ _ _
  | finished call alive =>
      unfold connFinish
      split
      · exact .refl k
      · have hset : AckKept k { k with eofWanted := true, finishStartMs := e.nowMs } :=
          .of_eq rfl rfl rfl rfl rfl
        exact hset.trans (connMaybeSendEof_ackKept _ _)
  | received call alive => exact absurd call (hnot _)
  | released call alive => exact .of_not_open nofun (Or.inr rfl)
  | opn pkt delivers untouched state opcode length => exact .of_settled rfl rfl
  | acked pkt window receipt delivers untouched state values =>
      have hset : AckKept k (k.withWindow window) := .of_eq rfl rfl rfl rfl rfl
      exact hset.trans (connProcessAck_ackKept _ _ _ _)
  | queued pkt delivers received state opcode => exact connQueueInput_ackKept k pkt
  | closed kind text live why => exact .of_not_open nofun (Or.inr rfl)
  | retransmitted minAge live => exact connRetransmit_ackKept k _ _
  | sts state => exact .of_settled rfl rfl
  | sns call state => exact .of_settled rfl rfl
  | gaveUp call untouched state wanted late => exact .of_not_open nofun (Or.inr rfl)
  | _ => exact .of_eq rfl rfl rfl rfl rfl

/-! ### `chaos_recv` -/

theorem recvLoop_advanced (max fuel : Nat) (k : ChaosConn) (got : List Byte) :
    (recvLoop max fuel k got true).2.2 = true := by
  induction fuel generalizing k got with
  | zero => rfl
  | succ fuel ih =>
      unfold recvLoop
      simp only
      split
      · split
        · exact ih _ _
        · split
          · rfl
          · exact ih _ _
      · rfl

/-- A `chaos_recv` that uses up no packet does not move `readNum`. -/
theorem recvLoop_readNum (max fuel : Nat) (k : ChaosConn) (got : List Byte)
    (h : (recvLoop max fuel k got false).2.2 = false) :
    (recvLoop max fuel k got false).1.readNum = k.readNum := by
  cases fuel with
  | zero => rfl
  | succ fuel =>
      unfold recvLoop at h ⊢
      simp only at h ⊢
      split at h
      · next hgo =>
        rw [if_pos hgo]
        split at h
        · rw [recvLoop_advanced] at h
          cases h
        · next heof =>
          rw [if_neg heof]
          split at h
          · next hpart => rw [if_pos hpart]
          · rw [recvLoop_advanced] at h
            cases h
      · next hstop => rw [if_neg hstop]

/-- What a `chaos_recv` leaves to report: it is below the threshold; the
deadline is the old one, or 30 ms from now if there was none. -/
theorem connRecv_pending {k : ChaosConn} {max : Nat} {nowMs : Millis}
    (hp : AckPending (connRecv k max nowMs).1.1) :
    k.state = connOpen ∧ (connRecv k max nowMs).1.1.lastAckSent = k.lastAckSent ∧
      (AckPending k ∧ (connRecv k max nowMs).1.1.readNum = k.readNum ∧
          (connRecv k max nowMs).1.1.ackDueMs = k.ackDueMs ∧
          (connRecv k max nowMs).1.1.localWindow = k.localWindow ∨
        (connRecv k max nowMs).1.1.ackDueMs =
            (if k.ackDueMs = 0 then nowMs + chaosAckDelayMs else k.ackDueMs) ∧
          (seqDiff (connRecv k max nowMs).1.1.readNum k.lastAckSent).toNat <
            ackThreshold (connRecv k max nowMs).1.1) := by
  have hread := recvLoop_readNum max (seqDiff k.receivedNum k.readNum).toNat k []
  have hframe := recvLoop_frame max (seqDiff k.receivedNum k.readNum).toNat k [] false
  unfold connRecv at hp ⊢
  simp only at hp ⊢ hframe
  generalize recvLoop max (seqDiff k.receivedNum k.readNum).toNat k [] false = r at *
  obtain ⟨k', got, advanced⟩ := r
  simp only at hp ⊢ hframe hread
  have hstate : k'.state = k.state := by rw [hframe]
  have hlast : k'.lastAckSent = k.lastAckSent := by rw [hframe]
  have hdue : k'.ackDueMs = k.ackDueMs := by rw [hframe]
  have hwin : k'.localWindow = k.localWindow := by rw [hframe]
  unfold connNoteRead at hp ⊢
  by_cases hadv : advanced = true ∧ k'.state = connOpen
  · rw [if_pos hadv] at hp ⊢
    have hopen : k.state = connOpen := hstate ▸ hadv.2
    by_cases hnow : (k'.localWindow.toNat + 1) / 2 ≤ (seqDiff k'.readNum k'.lastAckSent).toNat ∨
        k'.eofReceived = true
    · rw [if_pos hnow] at hp
      exact absurd rfl hp.2
    · have hbelow := Nat.not_le.mp (not_or.mp hnow).1
      rw [hlast] at hbelow
      rw [if_neg hnow] at hp ⊢
      by_cases hzero : k'.ackDueMs = 0
      · have hzero' : k.ackDueMs = 0 := hdue ▸ hzero
        rw [if_pos hzero, if_pos hzero']
        exact ⟨hopen, hlast, Or.inr ⟨rfl, hbelow⟩⟩
      · have hzero' : ¬ k.ackDueMs = 0 := hdue ▸ hzero
        rw [if_neg hzero, if_neg hzero']
        exact ⟨hopen, hlast, Or.inr ⟨hdue, hbelow⟩⟩
  · rw [if_neg hadv] at hp ⊢
    have hopen : k.state = connOpen := hstate ▸ hp.1
    have hnot : advanced = false := by
      by_contra h
      exact hadv ⟨by simpa using h, hp.1⟩
    have hsame := hread hnot
    refine ⟨hopen, hlast, Or.inl ⟨⟨hopen, ?_⟩, hsame, hdue, hwin⟩⟩
    rw [← hsame, ← hlast]
    exact hp.2

/-- The deadline after a `chaos_recv`: the old one, none, or 30 ms from now. -/
theorem connRecv_due (k : ChaosConn) (max : Nat) (nowMs : Millis) :
    (connRecv k max nowMs).1.1.ackDueMs = k.ackDueMs ∨
      (connRecv k max nowMs).1.1.ackDueMs = 0 ∨
      (connRecv k max nowMs).1.1.ackDueMs = nowMs + chaosAckDelayMs := by
  unfold connRecv connNoteRead
  simp only
  split
  · split
    · exact Or.inr (Or.inl rfl)
    · split
      · exact Or.inr (Or.inr rfl)
      · rw [recvLoop_frame]
        exact Or.inl rfl
  · rw [recvLoop_frame]
    exact Or.inl rfl

/-! ### Runs -/

/-- What one call does to what is left to report. -/
structure AckStep (e : CoreEvent) (h : Fin chaosMaxConns) (k k' : ChaosConn) : Prop where
  pending : AckPending k' → k.state = connOpen ∧ k'.lastAckSent = k.lastAckSent ∧
    (AckPending k ∧ k'.readNum = k.readNum ∧ k'.ackDueMs = k.ackDueMs ∧
        k'.localWindow = k.localWindow ∨
      (∃ max, e.call = .chaosRecv h.val max) ∧
        k'.ackDueMs = (if k.ackDueMs = 0 then e.nowMs + chaosAckDelayMs else k.ackDueMs) ∧
        (seqDiff k'.readNum k.lastAckSent).toNat < ackThreshold k')
  due : k'.ackDueMs = k.ackDueMs ∨ k'.ackDueMs = 0 ∨ k'.ackDueMs = e.nowMs + chaosAckDelayMs

theorem AckKept.step {e : CoreEvent} {h : Fin chaosMaxConns} {k k' : ChaosConn}
    (hk : AckKept k k') : AckStep e h k k' where
  pending := by
    intro hp
    obtain ⟨hp', hread, hlast, hdue, hwin⟩ := hk.pending hp
    exact ⟨hp'.1, hlast, Or.inl ⟨hp', hread, hdue, hwin⟩⟩
  due := by
    rcases hk.due with h | h
    · exact Or.inl h
    · exact Or.inr (Or.inl h)

theorem coreStep_ackStep {c : ChaosCore} (hc : CoreOk c) (e : CoreEvent)
    (h : Fin chaosMaxConns) : AckStep e h (c.conns h) ((coreStep c e).conns h) := by
  by_cases hcall : ∃ max, e.call = .chaosRecv h.val max
  · obtain ⟨max, hcall⟩ := hcall
    by_cases hfree : (c.conns h).state = connFree
    · have hnone : connForHandle c h.val = none := by
        simp [connForHandle, hfree, h.isLt]
      have hsame : (coreStep c e).conns h = c.conns h := by
        simp [coreStep, hcall, chaosRecv, hnone]
      rw [hsame]
      exact (AckKept.refl _).step
    · have hconn := (coreStep_chaosRecv hfree max e.nowMs).2
      simp only [coreStep, hcall]
      rw [hconn]
      refine ⟨fun hp => ?_, connRecv_due _ _ _⟩
      obtain ⟨hopen, hlast, hsame | hnew⟩ := connRecv_pending hp
      · exact ⟨hopen, hlast, Or.inl hsame⟩
      · exact ⟨hopen, hlast, Or.inr ⟨⟨max, hcall⟩, hnew⟩⟩
  · obtain ⟨acts, hacts, hfrom⟩ := coreStep_acts hc.uniquizer e
    rw [hfrom.conns h]
    have hnot : ∀ max, e.call ≠ .chaosRecv h.val max := fun max hm => hcall ⟨max, hm⟩
    exact ((hacts h).chain.carried (I := fun _ => True) (R := fun k r => AckKept k r.1)
      AckKept.refl AckKept.trans (fun _ hp => ⟨trivial, hp.ackKept hnot⟩) trivial).2.step

/-- The deadline of connection `h` before event `n`: it is that of the first
`chaos_recv` after the last acknowledgement. -/
def PendingAck (c : ChaosCore) (h : Fin chaosMaxConns) (es : List CoreEvent) (n : Nat) : Prop :=
  ∃ m max e, m < n ∧ es[m]? = some e ∧ e.call = .chaosRecv h.val max ∧
    (connAt c h es m).state = connOpen ∧
    (connAt c h es m).readNum = (connAt c h es m).lastAckSent ∧
    (∀ j, m < j → j ≤ n → AckPending (connAt c h es j) ∧
      (connAt c h es j).lastAckSent = (connAt c h es m).lastAckSent) ∧
    (connAt c h es n).ackDueMs.toNat ≤ e.nowMs.toNat + chaosAckDelayMs.toNat

/-- Where a run stands with the acknowledgements of connection `h`. -/
structure AckRun (c : ChaosCore) (h : Fin chaosMaxConns) (es : List CoreEvent) (n : Nat) :
    Prop where
  ok : AckOk (connAt c h es n)
  soon : ∀ m e, n ≤ m → es[m]? = some e →
    (connAt c h es n).ackDueMs.toNat ≤ e.nowMs.toNat + chaosAckDelayMs.toNat
  dated : AckPending (connAt c h es n) → PendingAck c h es n

theorem toNat_add_ackDelay_le (t : Millis) :
    (t + chaosAckDelayMs).toNat ≤ t.toNat + chaosAckDelayMs.toNat := by
  rw [BitVec.toNat_add]
  exact Nat.mod_le _ _

/-- **Run lemma.** -/
theorem ackRun_at {c : ChaosCore} {h : Fin chaosMaxConns} {es : List CoreEvent}
    (hc : Reachable c) (hfree : (c.conns h).state = connFree)
    (hdue : (c.conns h).ackDueMs = 0)
    (hclock : es.Pairwise fun e e' => e.nowMs ≤ e'.nowMs)
    (hrange : ∀ e ∈ es, e.nowMs + chaosAckDelayMs ≠ 0) {n : Nat} (hn : n ≤ es.length) :
    AckRun c h es n := by
  induction n with
  | zero =>
      have hnot : ¬ AckPending (connAt c h es 0) := by
        rintro ⟨hopen, -⟩
        have hstate : (c.conns h).state = connOpen := hopen
        rw [hfree] at hstate
        cases hstate
      refine ⟨fun hp => absurd hp hnot, ?_, fun hp => absurd hp hnot⟩
      intro m e _ _
      show (c.conns h).ackDueMs.toNat ≤ _
      rw [hdue]
      exact Nat.zero_le _
  | succ n ih =>
      have hrun := ih (by omega)
      obtain ⟨e, he⟩ : ∃ e, es[n]? = some e := ⟨_, List.getElem?_eq_getElem hn⟩
      have hnext := Exec.runTo_succ coreStep c he
      have hstep := coreStep_ackStep (hc.run (es.take n)).coreOk e h
      change AckStep e h (connAt c h es n) ((coreStep (Exec.runTo coreStep c es n) e).conns h)
        at hstep
      rw [← hnext] at hstep
      change AckStep e h (connAt c h es n) (connAt c h es (n + 1)) at hstep
      have hnonzero := hrange e (List.mem_of_getElem? he)
      refine ⟨?_, ?_, ?_⟩
      · intro hp
        obtain ⟨-, hlast, ⟨hp', hread, hsame, hwin⟩ | ⟨-, hset, hbelow⟩⟩ := hstep.pending hp
        · rw [ackThreshold, hread, hlast, hsame, hwin]
          exact hrun.ok hp'
        · rw [hlast]
          refine ⟨?_, hbelow⟩
          rw [hset]
          split
          · exact hnonzero
          · next hne => exact hne
      · intro m e' hm he'
        have hlate : e.nowMs.toNat ≤ e'.nowMs.toNat := by
          obtain ⟨hlen, hget⟩ := List.getElem?_eq_some_iff.mp he
          obtain ⟨hlen', hget'⟩ := List.getElem?_eq_some_iff.mp he'
          have hle := List.pairwise_iff_getElem.mp hclock n m hlen hlen' (by omega)
          rw [hget, hget'] at hle
          exact hle
        rcases hstep.due with hsame | hnone | hnew
        · rw [hsame]
          exact hrun.soon m e' (by omega) he'
        · rw [hnone]
          exact Nat.zero_le _
        · rw [hnew]
          have := toNat_add_ackDelay_le e.nowMs
          omega
      · intro hp
        obtain ⟨hopen, hlast, hold⟩ := hstep.pending hp
        by_cases hp' : AckPending (connAt c h es n)
        · -- reported late already: the deadline is the one that was set then
          obtain ⟨m, max, e', hm, he', hcall, hstart, heq, hall, hle⟩ := hrun.dated hp'
          have hsame : (connAt c h es (n + 1)).ackDueMs = (connAt c h es n).ackDueMs := by
            rcases hold with ⟨-, -, hsame, -⟩ | ⟨-, hset, -⟩
            · exact hsame
            · rw [hset, if_neg (hrun.ok hp').1]
          refine ⟨m, max, e', by omega, he', hcall, hstart, heq, fun j hj hjn => ?_, ?_⟩
          · rcases Nat.lt_or_ge j (n + 1) with hlt | hge
            · exact hall j hj (by omega)
            · obtain rfl : j = n + 1 := by omega
              exact ⟨hp, hlast.trans (hall n hm (Nat.le_refl n)).2⟩
          · rw [hsame]
            exact hle
        · rcases hold with ⟨hpending, -⟩ | ⟨⟨max, hcall⟩, hset, -⟩
          · exact absurd hpending hp'
          · have heq : (connAt c h es n).readNum = (connAt c h es n).lastAckSent := by
              by_contra hne
              exact hp' ⟨hopen, hne⟩
            refine ⟨n, max, e, by omega, he, hcall, hopen, heq, fun j hj hjn => ?_, ?_⟩
            · obtain rfl : j = n + 1 := by omega
              exact ⟨hp, hlast⟩
            · rw [hset]
              split
              · exact toNat_add_ackDelay_le _
              · exact hrun.soon n e (Nat.le_refl n) he

/-! ### Reaching the peer -/

/-- The frame of `s` is among those added from `c` to `c'`. -/
def AddsFrame (c c' : ChaosCore) (f : List Byte) : Prop :=
  ∃ pre post, c'.emitted = c.emitted ++ (pre ++ f :: post)

theorem AddsFrame.before {a b c : ChaosCore} {f : List Byte} {ss : List RawSend}
    (hab : Emits ss a b) (h : AddsFrame b c f) : AddsFrame a c f := by
  obtain ⟨new, hnew, -⟩ := hab.emitted
  obtain ⟨pre, post, he⟩ := h
  exact ⟨new ++ pre, post, by rw [he, hnew]; simp⟩

theorem AddsFrame.after {a b c : ChaosCore} {f : List Byte} {ss : List RawSend}
    (h : AddsFrame a b f) (hbc : Emits ss b c) : AddsFrame a c f := by
  obtain ⟨new, hnew, -⟩ := hbc.emitted
  obtain ⟨pre, post, he⟩ := h
  exact ⟨pre, post ++ new, by rw [hnew, he]; simp⟩

/-- Asking again for a known address does not lose it. -/
theorem arpFind_sendRequest {c : ChaosCore} {addr : UShort} {i : Fin chaosArpEntries}
    (hi : arpFind c addr = some i) (nowMs : Millis) :
    arpFind (arpSendRequest c i nowMs) addr = some i := by
  have hsame : arpFind (arpSendRequest c i nowMs) addr = arpFind c addr := by
    have hmatch : ((c.arp i).valid = true ∨ (c.arp i).requested = true) ∧
        (c.arp i).addr = addr := by
      unfold arpFind at hi
      simpa using List.find?_some hi
    unfold arpFind
    congr 1
    funext j
    by_cases hj : j = i
    · subst hj
      simp [arpSendRequest, emitFrame, ChaosCore.setArp, hmatch]
    · simp [arpSendRequest, emitFrame, ChaosCore.setArp, hj]
  rw [hsame, hi]

/-- With the hardware address known a packet goes out, and the address stays known. -/
theorem sendRaw_known {c : ChaosCore} {s : RawSend} {mac : Mac} (nowMs : Millis)
    (hmac : chaosArpLookup c s.destAddr = some mac) :
    AddsFrame c (sendRaw c s nowMs) (chaosFrame mac c.myMac c.myAddr s) ∧
      chaosArpLookup (sendRaw c s nowMs) s.destAddr = some mac := by
  cases hi : arpFind c s.destAddr with
  | none => simp [chaosArpLookup, hi] at hmac
  | some i =>
      obtain ⟨hvalid, rfl⟩ : (c.arp i).valid = true ∧ (c.arp i).mac = mac := by
        simpa [chaosArpLookup, hi] using hmac
      have hfind : arpFindCreate c s.destAddr = (i, c) := by simp [arpFindCreate, hi]
      by_cases hold : chaosArpRefreshMs < nowMs - (c.arp i).learnedMs ∧
          (¬ (c.arp i).requested = true ∨
            chaosArpRetryMs * 20 ≤ nowMs - (c.arp i).requestedMs)
      · have hres : arpResolve c s.destAddr nowMs =
            (some (c.arp i).mac, arpSendRequest c i nowMs) := by
          simp only [arpResolve, hfind, hvalid, if_true]
          rw [if_pos hold]
        have hfind' := arpFind_sendRequest hi nowMs
        simp only [sendRaw, hres]
        refine ⟨.before (arpSendRequest_spec c i nowMs).2 ⟨[], [], rfl⟩, ?_⟩
        show chaosArpLookup (arpSendRequest c i nowMs) s.destAddr = _
        unfold chaosArpLookup
        rw [hfind']
        simp [arpSendRequest, emitFrame, ChaosCore.setArp, hvalid]
      · have hres : arpResolve c s.destAddr nowMs = (some (c.arp i).mac, c) := by
          simp only [arpResolve, hfind, hvalid, if_true]
          rw [if_neg hold]
        refine ⟨⟨[], [], by simp [sendRaw, hres, emitFrame]⟩, ?_⟩
        simp only [sendRaw, hres]
        exact hmac

/-- So do all packets to one known address. -/
theorem sendAll_known {c : ChaosCore} {sends : List RawSend} {addr : UShort} {mac : Mac}
    (nowMs : Millis) (hmac : chaosArpLookup c addr = some mac)
    (hdest : ∀ s ∈ sends, s.destAddr = addr) :
    ∀ s ∈ sends, AddsFrame c (sendAll c sends nowMs) (chaosFrame mac c.myMac c.myAddr s) := by
  induction sends generalizing c with
  | nil => simp
  | cons t sends ih =>
      obtain rfl := hdest t List.mem_cons_self
      have hone := sendRaw_known nowMs hmac
      have hspec := (sendRaw_spec c t nowMs).2
      have hrest := sendAll_spec (sendRaw c t nowMs) sends nowMs
      intro s hs
      rcases List.mem_cons.mp hs with rfl | hs
      · exact hone.1.after hrest.2
      · have := ih hone.2 (fun s hs => hdest s (List.mem_cons_of_mem t hs)) s hs
        rw [hspec.myMac, hspec.myAddr] at this
        exact this.before hspec

/-! ### The tick -/

/-- Every packet goes to the peer of `k`, from its index. -/
def ToPeer (k : ChaosConn) (sends : List RawSend) : Prop :=
  ∀ s ∈ sends, s.destAddr = k.remoteAddr ∧ s.srcIndex = k.localIndex

theorem ToPeer.append {k : ChaosConn} {ss ts : List RawSend} (hs : ToPeer k ss)
    (ht : ToPeer k ts) : ToPeer k (ss ++ ts) := by
  intro s hmem
  rcases List.mem_append.mp hmem with h | h
  · exact hs s h
  · exact ht s h

theorem connSendUnc_toPeer {k k' : ChaosConn} (h : SentOnly k k') (opcode : Byte)
    (num : UShort) (data : List Byte) : ToPeer k (connSendUnc k' opcode num data).2 := by
  intro s hs
  rw [List.mem_singleton.mp hs]
  exact ⟨by rw [h], by rw [h]⟩

/-- A retransmission, unless it is of an RFC, tells the peer how far we have read. -/
theorem retransmitOne_acks {k : ChaosConn} (nowMs minAgeMs : Millis) (n : UShort)
    (hrfc : ∀ s, (k.sendq s).present = true → (k.sendq s).opcode ≠ chopRfc) :
    retransmitOne nowMs minAgeMs n k = (k, []) ∨
      ∃ s ∈ (retransmitOne nowMs minAgeMs n k).2, s.ack = k.readNum := by
  unfold retransmitOne
  simp only
  split
  · exact Or.inl rfl
  · next hheld =>
    split
    · exact Or.inl rfl
    · have hpresent : (k.sendq (ringSlot n)).present = true := by
        by_contra h
        exact hheld (by simp [h])
      exact Or.inr ⟨_, List.mem_singleton_self _, if_neg (hrfc _ hpresent)⟩

theorem connRetransmit_acks {k : ChaosConn} (nowMs minAgeMs : Millis)
    (hrfc : ∀ s, (k.sendq s).present = true → (k.sendq s).opcode ≠ chopRfc) :
    connRetransmit k nowMs minAgeMs = (k, []) ∨
      ∃ s ∈ (connRetransmit k nowMs minAgeMs).2, s.ack = k.readNum := by
  unfold connRetransmit
  refine List.foldlRecOn (motive := fun r : Act =>
    r = (k, []) ∨ ∃ s ∈ r.2, s.ack = k.readNum) _ _ (Or.inl rfl) ?_
  rintro r (rfl | ⟨s, hs, hack⟩) n _
  · exact retransmitOne_acks nowMs minAgeMs n hrfc
  · exact Or.inr ⟨s, List.mem_append_left _ hs, hack⟩

theorem connRetransmit_toPeer (k : ChaosConn) (nowMs minAgeMs : Millis) :
    ToPeer k (connRetransmit k nowMs minAgeMs).2 := by
  refine (foldl_andThen (P := SentOnly k)
    (Q := fun s => s.destAddr = k.remoteAddr ∧ s.srcIndex = k.localIndex) ?_ (.refl k)).2
  intro n _ k' hk'
  refine ⟨hk'.trans (retransmitOne_sentOnly _ _ _ _), ?_⟩
  intro s hs
  unfold retransmitOne at hs
  simp only at hs
  split at hs
  · cases hs
  · split at hs
    · cases hs
    · rw [List.mem_singleton.mp hs]
      exact ⟨by rw [hk'], by rw [hk']⟩

theorem tickAck_sentOnly (nowMs : Millis) (k : ChaosConn) : SentOnly k (tickAck nowMs k).1 := by
  unfold tickAck
  split
  · exact connSendSts_sentOnly k
  · exact .refl k

theorem tickAck_toPeer {k k' : ChaosConn} (h : SentOnly k k') (nowMs : Millis) :
    ToPeer k (tickAck nowMs k').2 := by
  unfold tickAck
  split
  · exact connSendUnc_toPeer h _ _ _
  · exact fun _ hs => by cases hs

theorem tickProbe_toPeer {k k' : ChaosConn} (h : SentOnly k k') (nowMs heard : Millis) :
    ToPeer k (tickProbe nowMs heard k').2 := by
  unfold tickProbe
  split
  · dsimp only
    split
    · intro s hs
      rw [List.mem_singleton.mp hs]
      exact ⟨by rw [h], by rw [h]⟩
    · exact fun _ hs => by cases hs
  · exact fun _ hs => by cases hs

/-- All a tick sends for an open connection goes to its peer. -/
theorem connTick_toPeer {k : ChaosConn} (hopen : k.state = connOpen) (nowMs : Millis) :
    ToPeer k (connTick k nowMs).2 := by
  have hret := connRetransmit_sentOnly k nowMs chaosRetransmitMs
  unfold connTick
  rw [if_neg (by simp [hopen]), if_neg (by simp [hopen])]
  dsimp only
  split
  · exact fun _ hs => by cases hs
  split
  · intro s hs
    rw [connCloseCls, Act.andThen_snd, List.append_nil] at hs
    exact connSendUnc_toPeer (.refl k) _ _ _ s hs
  · exact ((connRetransmit_toPeer k _ _).append (tickAck_toPeer hret _)).append
      (tickProbe_toPeer (hret.trans (tickAck_sentOnly _ _)) _ _)

/-- A tick after the deadline tells the peer how far we have read. -/
theorem connTick_acks {k : ChaosConn} {nowMs : Millis} (hopen : k.state = connOpen)
    (hset : k.ackDueMs ≠ 0) (hdue : k.ackDueMs ≤ nowMs)
    (hheard : nowMs - k.lastHeardMs < chaosHostDownMs)
    (hrfc : ∀ s, (k.sendq s).present = true → (k.sendq s).opcode ≠ chopRfc) :
    ∃ s ∈ (connTick k nowMs).2, s.ack = k.readNum := by
  unfold connTick
  rw [if_neg (by simp [hopen]), if_neg (by simp [hopen])]
  dsimp only
  rw [if_neg (BitVec.not_le.mpr hheard)]
  split
  · refine ⟨_, List.mem_append_left _ (List.mem_singleton_self _), rfl⟩
  · rcases connRetransmit_acks nowMs chaosRetransmitMs hrfc with hnone | ⟨s, hs, hack⟩
    · obtain ⟨s, hs, hack⟩ : ∃ s ∈ (tickAck nowMs k).2, s.ack = k.readNum := by
        rw [tickAck, if_pos ⟨hset, hdue⟩]
        exact ⟨_, List.mem_singleton_self _, rfl⟩
      rw [hnone]
      exact ⟨s, List.mem_append_left _ (List.mem_append_right _ hs), hack⟩
    · exact ⟨s, List.mem_append_left _ (List.mem_append_left _ hs), hack⟩

/-- The core when a tick reaches connection `h`, after those before it. -/
def tickReaches (c : ChaosCore) (h : Fin chaosMaxConns) (nowMs : Millis) : ChaosCore :=
  ((List.finRange chaosMaxConns).take h.val).foldl
    (fun c g => c.perform g (connTick (c.conns g) nowMs) nowMs) c

/-- Acting on other connections leaves connection `h` as it was. -/
theorem foldl_perform_other (f : ChaosConn → Act) (nowMs : Millis) {h : Fin chaosMaxConns}
    {hs : List (Fin chaosMaxConns)} (hnot : h ∉ hs) (c : ChaosCore) :
    let d := hs.foldl (fun c g => c.perform g (f (c.conns g)) nowMs) c
    d.conns h = c.conns h ∧ ∃ ss, Emits ss c d := by
  induction hs generalizing c with
  | nil => exact ⟨rfl, [], Emits.refl c⟩
  | cons g hs ih =>
      have hp := perform_spec c g (f (c.conns g)) nowMs
      have hne : h ≠ g := fun heq => hnot (heq ▸ List.mem_cons_self)
      obtain ⟨hconn, ss, hemits⟩ := ih (fun hm => hnot (List.mem_cons_of_mem g hm))
        (c.perform g (f (c.conns g)) nowMs)
      refine ⟨?_, _, hp.2.trans hemits⟩
      rw [List.foldl_cons, hconn, hp.1, Function.update_of_ne hne]

/-- A packet the tick sends to a known address is emitted. -/
theorem tick_emits {c : ChaosCore} {h : Fin chaosMaxConns} {nowMs : Millis} {addr : UShort}
    {mac : Mac} (hmac : chaosArpLookup (tickReaches c h nowMs) addr = some mac)
    (hdest : ∀ s ∈ (connTick (c.conns h) nowMs).2, s.destAddr = addr) :
    ∀ s ∈ (connTick (c.conns h) nowMs).2,
      AddsFrame c (chaosCoreTick c nowMs) (chaosFrame mac c.myMac c.myAddr s) := by
  intro s hs
  have hsplit : List.finRange chaosMaxConns = (List.finRange chaosMaxConns).take h.val ++
      h :: (List.finRange chaosMaxConns).drop (h.val + 1) := by
    conv_lhs => rw [← List.take_append_drop h.val (List.finRange chaosMaxConns)]
    congr 1
    rw [List.drop_eq_getElem_cons (by simp)]
    simp
  have hnodup := List.nodup_finRange chaosMaxConns
  rw [hsplit] at hnodup
  have hnot : h ∉ (List.finRange chaosMaxConns).take h.val :=
    fun hm => List.disjoint_of_nodup_append hnodup hm List.mem_cons_self
  have hnot' : h ∉ (List.finRange chaosMaxConns).drop (h.val + 1) :=
    (List.nodup_cons.mp hnodup.of_append_right).1
  obtain ⟨hconn, ss, hbefore⟩ :=
    foldl_perform_other (fun k => connTick k nowMs) nowMs hnot c
  change (tickReaches c h nowMs).conns h = c.conns h at hconn
  change Emits ss c (tickReaches c h nowMs) at hbefore
  have hone : AddsFrame (tickReaches c h nowMs)
      ((tickReaches c h nowMs).perform h (connTick (c.conns h) nowMs) nowMs)
      (chaosFrame mac c.myMac c.myAddr s) := by
    have hset : chaosArpLookup ((tickReaches c h nowMs).setConn h (connTick (c.conns h) nowMs).1)
        addr = some mac := hmac
    have hall := sendAll_known nowMs hset hdest s hs
    have hmyMac : ((tickReaches c h nowMs).setConn h (connTick (c.conns h) nowMs).1).myMac =
        c.myMac := hbefore.myMac
    have hmyAddr : ((tickReaches c h nowMs).setConn h (connTick (c.conns h) nowMs).1).myAddr =
        c.myAddr := hbefore.myAddr
    rw [hmyMac, hmyAddr] at hall
    exact hall
  obtain ⟨-, ss', hafter⟩ := foldl_perform_other (fun k => connTick k nowMs) nowMs hnot'
    ((tickReaches c h nowMs).perform h (connTick (c.conns h) nowMs) nowMs)
  have htick : chaosCoreTick c nowMs = ((List.finRange chaosMaxConns).drop (h.val + 1)).foldl
      (fun c g => c.perform g (connTick (c.conns g) nowMs) nowMs)
      ((tickReaches c h nowMs).perform h (connTick (c.conns h) nowMs) nowMs) := by
    unfold chaosCoreTick ChaosCore.performEach
    conv_lhs => rw [hsplit]
    rw [List.foldl_append, List.foldl_cons]
    show ((List.finRange chaosMaxConns).drop (h.val + 1)).foldl _ ((tickReaches c h nowMs).perform
      h (connTick ((tickReaches c h nowMs).conns h) nowMs) nowMs) = _
    rw [hconn]
  rw [htick]
  exact (hone.before hbefore).after hafter

/-! ### The law of acknowledgements -/

/-- The frames of a tick are those it adds. -/
theorem mem_emittedBy {c : ChaosCore} {e : CoreEvent} {f : List Byte}
    (h : AddsFrame c (coreStep c e) f) : f ∈ emittedBy c e := by
  obtain ⟨pre, post, he⟩ := h
  rw [emittedBy, he, List.drop_left]
  exact List.mem_append_right _ List.mem_cons_self

/-- How the core acknowledges what it reads on connection `h` in the run `es`. -/
structure AckLaw (c : ChaosCore) (h : Fin chaosMaxConns) (es : List CoreEvent) : Prop where
  /-- What the peer was not told yet is below half a window, and its deadline is
  at most 30 ms after the first `chaos_recv` that it was not told of. -/
  deadline : ∀ n, n ≤ es.length → AckPending (connAt c h es n) →
    (connAt c h es n).ackDueMs ≠ 0 ∧
    (seqDiff (connAt c h es n).readNum (connAt c h es n).lastAckSent).toNat <
      ackThreshold (connAt c h es n) ∧
    PendingAck c h es n
  /-- A tick at or after the deadline tells the peer, whose window, had it been
  full, reopens: unless the host has been silent for too long, its hardware
  address is not known when the tick comes to the connection, or the RFC is
  still waiting to be receipted. -/
  told : ∀ n e, es[n]? = some e → e.call = .tick → AckPending (connAt c h es n) →
    (connAt c h es n).ackDueMs ≤ e.nowMs →
    e.nowMs - (connAt c h es n).lastHeardMs < chaosHostDownMs →
    (chaosArpLookup (tickReaches (Exec.runTo coreStep c es n) h e.nowMs)
      (connAt c h es n).remoteAddr).isSome = true →
    (∀ s, ((connAt c h es n).sendq s).present = true →
      ((connAt c h es n).sendq s).opcode ≠ chopRfc) →
    ∃ f ∈ emittedBy (Exec.runTo coreStep c es n) e, ∃ pkt,
      FrameFor (connAt c h es n).localIndex f pkt ∧
      pkt.destAddr = (connAt c h es n).remoteAddr ∧ pkt.ack = (connAt c h es n).readNum ∧
      ∀ peerSent, seqDiff peerSent (connAt c h es n).lastAckSent =
          (connAt c h es n).localWindow →
        seqDiff peerSent pkt.ack < (connAt c h es n).localWindow

/-- A window that was full before some packets of it were acknowledged, but not
as many as it holds, is neither full nor overrun after. -/
theorem window_reopens {peerSent last read window : UShort} (hne : read ≠ last)
    (hbelow : (seqDiff read last).toNat < (window.toNat + 1) / 2)
    (hfull : seqDiff peerSent last = window) : seqDiff peerSent read < window := by
  have hpos : 0 < (seqDiff read last).toNat := by
    rcases Nat.eq_zero_or_pos (seqDiff read last).toNat with hz | hpos
    · exact absurd (Serial.behind_eq_zero.mp hz).symm hne
    · exact hpos
  rw [BitVec.lt_def]
  subst hfull
  simp only [seqDiff, BitVec.toNat_sub] at *
  omega

/-- Every run from a fresh core by a clock that neither goes back nor wraps
acknowledges what it reads. -/
theorem ack_law (myAddr : UShort) (myMac : Mac) (hostName : List Byte)
    (localWindow initialPktNum : UShort) (h : Fin chaosMaxConns) (es : List CoreEvent)
    (hclock : es.Pairwise fun e e' => e.nowMs ≤ e'.nowMs)
    (hrange : ∀ e ∈ es, e.nowMs + chaosAckDelayMs ≠ 0) :
    AckLaw (chaosCoreInit myAddr myMac hostName localWindow initialPktNum) h es := by
  have hc : Reachable (chaosCoreInit myAddr myMac hostName localWindow initialPktNum) :=
    ⟨myAddr, myMac, hostName, localWindow, initialPktNum, [], rfl⟩
  have hrun := fun n hn => ackRun_at (h := h) hc rfl rfl hclock hrange (n := n) hn
  refine ⟨?_, ?_⟩
  · intro n hn hp
    obtain ⟨hset, hbelow⟩ := (hrun n hn).ok hp
    exact ⟨hset, hbelow, (hrun n hn).dated hp⟩
  · intro n e he hcall hp hdue hheard hknown hrfc
    obtain ⟨mac, hmac⟩ := Option.isSome_iff_exists.mp hknown
    obtain ⟨hlen, -⟩ := List.getElem?_eq_some_iff.mp he
    obtain ⟨hset, hbelow⟩ := (hrun n (Nat.le_of_lt hlen)).ok hp
    obtain ⟨s, hs, hack⟩ := connTick_acks hp.1 hset hdue hheard hrfc
    have hpeer := connTick_toPeer hp.1 e.nowMs
    have hadds := tick_emits hmac (fun s hs => (hpeer s hs).1) s hs
    have hstep : ∀ c, coreStep c e = chaosCoreTick c e.nowMs := fun c => by
      rw [coreStep, hcall]
    rw [← hstep] at hadds
    refine ⟨_, mem_emittedBy hadds, _, ⟨etherType_chaosFrame _ _ _ _,
      readPacket_chaosFrame _ _ _ _, (hpeer s hs).2⟩, (hpeer s hs).1, hack, ?_⟩
    intro peerSent hfull
    show seqDiff peerSent s.ack < _
    rw [hack]
    exact window_reopens hp.2 hbelow hfull

/-- A packet is received and read, and the host is never heard again. -/
def silentRun : List CoreEvent :=
  [sampleOpen, ⟨.input sampleOpn, 1010⟩, ⟨.input (sampleFrame chopDat 0x0501 0x0100 [65]), 1020⟩,
    ⟨.chaosRecv 0 100, 1030⟩, ⟨.tick, 91020⟩]

theorem ack_law_sample : AckLaw sampleCore sampleConn silentRun :=
  ack_law 0o404 (Vector.replicate 6 2) (bytesOf "GENERA") 13 0x0100 sampleConn silentRun
    (by decide) (by decide)

/-- A peer of another subnet, reached through a router that it answers by: its
hardware address is never learned. -/
def routedRun : List CoreEvent :=
  [⟨.chaosOpen 0o1005 (bytesOf "TELNET"), 1000⟩, ⟨.input (routed chopOpn 0x0500
      (chaosPut16 0x0100 ++ chaosPut16 13)), 1010⟩,
    ⟨.input (routed chopDat 0x0501 [65]), 1020⟩, ⟨.chaosRecv 0 100, 1030⟩, ⟨.tick, 1100⟩]
where
  routed (opcode : Byte) (num : UShort) (data : List Byte) : List Byte :=
    chaosFrame (Vector.replicate 6 2) (Vector.replicate 6 4) 0o1005
      { opcode, destAddr := 0o404, destIndex := 0x20, srcIndex := 0x77, num, ack := 0x0100, data }

/-- A tick after the deadline sends no packet when it closes the connection to a
silent host, nor when the peer's hardware address is unknown. -/
theorem tick_may_not_acknowledge :
    (AckPending (connAt sampleCore sampleConn silentRun 4) ∧
      (connAt sampleCore sampleConn silentRun 4).ackDueMs ≤ 91020 ∧
      emittedBy (Exec.runTo coreStep sampleCore silentRun 4) ⟨.tick, 91020⟩ = []) ∧
    (AckPending (connAt sampleCore sampleConn routedRun 4) ∧
      (connAt sampleCore sampleConn routedRun 4).ackDueMs ≤ 1100 ∧
      ∀ f ∈ emittedBy (Exec.runTo coreStep sampleCore routedRun 4) ⟨.tick, 1100⟩,
        etherType f ≠ chaosEthertype) := by
  refine ⟨⟨⟨by decide +kernel, by decide +kernel⟩, by decide +kernel, by decide +kernel⟩,
    ⟨by decide +kernel, by decide +kernel⟩, by decide +kernel, by decide +kernel⟩

end Chaos
