import OsxVlm.Chaos.Frame
import OsxVlm.Chaos.Parts

/-!
# The send queue

`SendView` is what the send side of a connection means: which numbers have
been assigned, how far the peer has received and consumed, and what each ring
slot holds.  Only three things ever change it: assigning the next number
(`SendView.assign`), noting an acknowledgement (`SendView.note`) and opening
or closing the connection; a (re)transmission leaves it alone.

`SendView.Ok` is the queue's invariant: unreceipted numbers lie in a window of
at most `CHAOS_MAX_WINDOW` behind the last assigned one, and exactly their
slots are occupied, each with the packet first assigned to its number.
-/

namespace Chaos

open ChaosConnState ChaosCloseKind

/-- A ring slot without its transmission time. -/
structure SlotView where
  present : Bool
  opcode : Byte
  num : UShort
  data : List Byte

/-- The send side of a connection. -/
structure SendView where
  sentNum : UShort
  ackedNum : UShort
  receiptNum : UShort
  slot : Fin chaosRing → SlotView
  assigned : List AssignedPkt

def ChaosPkt.view (p : ChaosPkt) : SlotView :=
  { present := p.present, opcode := p.opcode, num := p.num, data := p.data }

def ChaosConn.sendView (k : ChaosConn) : SendView :=
  { sentNum := k.sentNum, ackedNum := k.ackedNum, receiptNum := k.receiptNum
    slot := fun s => (k.sendq s).view, assigned := k.assigned }

/-- `n` has been sent and not yet receipted: it lies in `(receiptNum, sentNum]`. -/
def SendView.Unreceipted (v : SendView) (n : UShort) : Prop :=
  Serial.behind v.sentNum n < Serial.behind v.sentNum v.receiptNum

/-- Slot `s` holds the packet that was assigned the number `n`. -/
def SendView.Holds (v : SendView) (n : UShort) : Prop :=
  ∃ a, v.assigned.reverse[Serial.behind v.sentNum n]? = some a ∧ a.num = n ∧
    (v.slot (ringSlot n)).num = n ∧ (v.slot (ringSlot n)).opcode = a.opcode ∧
    (v.slot (ringSlot n)).data = a.data

/-- The invariant of the send queue. -/
structure SendView.Ok (v : SendView) : Prop where
  ordered : Serial.behind v.sentNum v.receiptNum ≤ Serial.behind v.sentNum v.ackedNum
  bounded : Serial.behind v.sentNum v.ackedNum ≤ chaosMaxWindow.toNat
  occupied : ∀ s, (v.slot s).present = true ↔ ∃ n, v.Unreceipted n ∧ ringSlot n = s
  holds : ∀ n, v.Unreceipted n → v.Holds n

theorem SendView.Ok.receipt_le {v : SendView} (h : v.Ok) :
    Serial.behind v.sentNum v.receiptNum ≤ 50 :=
  Nat.le_trans h.ordered h.bounded

/-! ### The three changes -/

/-- The next number is assigned to a packet, whose slot it takes. -/
def SendView.assign (v : SendView) (opcode : Byte) (data : List Byte)
    (remoteWindow : UShort) : SendView :=
  let num := seqInc v.sentNum
  { v with
    sentNum := num
    slot := Function.update v.slot (ringSlot num) { present := true, opcode, num, data }
    assigned := v.assigned ++
      [{ num, opcode, data, ackedNum := v.ackedNum, remoteWindow }] }

/-- Numbers up to `receipt` have been received, up to `ack` consumed; what has
been consumed has been received. -/
def SendView.note (v : SendView) (ack receipt : UShort) : SendView :=
  let passed := seqUpTo v.receiptNum (later v.receiptNum (later receipt ack))
  { v with
    ackedNum := later v.ackedNum ack
    receiptNum := later v.receiptNum (later receipt ack)
    slot := fun s => if s ∈ passed.map ringSlot then { v.slot s with present := false }
      else v.slot s }

theorem behind_seqInc {s n : UShort} (h : Serial.behind s n ≤ 50) :
    Serial.behind (seqInc s) n = Serial.behind s n + 1 :=
  Serial.behind_inc (by omega)

/-- Assigning the next number keeps the invariant while the window has room. -/
theorem SendView.Ok.assign {v : SendView} (h : v.Ok) (opcode : Byte) (data : List Byte)
    (w : UShort) (hroom : Serial.behind v.sentNum v.ackedNum < chaosMaxWindow.toNat) :
    (v.assign opcode data w).Ok := by
  have hmax : chaosMaxWindow.toNat = 50 := rfl
  have hr := h.receipt_le
  have hack : Serial.behind (seqInc v.sentNum) v.ackedNum =
      Serial.behind v.sentNum v.ackedNum + 1 := behind_seqInc (by omega)
  have hrec : Serial.behind (seqInc v.sentNum) v.receiptNum =
      Serial.behind v.sentNum v.receiptNum + 1 := behind_seqInc hr
  have hord := h.ordered
  -- a number in the new window is the new one, or was in the old window
  have hwin : ∀ n, (v.assign opcode data w).Unreceipted n ↔
      n = seqInc v.sentNum ∨ v.Unreceipted n := by
    intro n
    simp only [SendView.Unreceipted, SendView.assign, hrec]
    constructor
    · intro hn
      rcases Nat.eq_zero_or_pos (Serial.behind (seqInc v.sentNum) n) with hz | hpos
      · exact Or.inl (Serial.behind_eq_zero.mp hz)
      · right
        have hone : (1 : UShort).toNat = 1 := rfl
        simp only [Serial.behind, seqInc, BitVec.toNat_sub, BitVec.toNat_add, hone]
          at hn hpos ⊢
        omega
    · rintro (rfl | hn)
      · simp
      · rw [behind_seqInc (by omega)]
        omega
  have hfresh : ∀ n, v.Unreceipted n → ringSlot n ≠ ringSlot (seqInc v.sentNum) := by
    intro n hn heq
    have hne : Serial.behind (seqInc v.sentNum) n = Serial.behind v.sentNum n + 1 :=
      behind_seqInc (by unfold SendView.Unreceipted at hn; omega)
    have := ringSlot_inj (s := seqInc v.sentNum)
      (by unfold SendView.Unreceipted at hn; omega) (by simp) heq
    rw [this, Serial.behind_self] at hne
    omega
  refine ⟨?_, ?_, ?_, ?_⟩
  · simp only [SendView.assign, hack, hrec]
    omega
  · simp only [SendView.assign, hack]
    omega
  · intro s
    by_cases hs : s = ringSlot (seqInc v.sentNum)
    · subst hs
      simp only [SendView.assign, Function.update_self, true_iff]
      exact ⟨seqInc v.sentNum, (hwin _).mpr (Or.inl rfl), rfl⟩
    · simp only [SendView.assign, Function.update_of_ne hs, h.occupied s]
      constructor
      · rintro ⟨n, hn, rfl⟩
        exact ⟨n, (hwin n).mpr (Or.inr hn), rfl⟩
      · rintro ⟨n, hn, rfl⟩
        rcases (hwin n).mp hn with rfl | hold
        · exact absurd rfl hs
        · exact ⟨n, hold, rfl⟩
  · intro n hn
    rcases (hwin n).mp hn with rfl | hold
    · refine ⟨{ num := seqInc v.sentNum, opcode, data, ackedNum := v.ackedNum,
                remoteWindow := w }, ?_, rfl, ?_, ?_, ?_⟩
      all_goals simp [SendView.assign]
    · obtain ⟨a, ha, hnum, hslot, hop, hdata⟩ := h.holds n hold
      have hne := hfresh n hold
      refine ⟨a, ?_, hnum, ?_, ?_, ?_⟩
      · have hb : Serial.behind (seqInc v.sentNum) n = Serial.behind v.sentNum n + 1 :=
          behind_seqInc (by unfold SendView.Unreceipted at hold; omega)
        simp only [SendView.assign, List.reverse_append, List.reverse_cons, List.reverse_nil,
          List.nil_append, List.singleton_append, hb, List.getElem?_cons_succ, ha]
      all_goals simpa [SendView.assign, Function.update_of_ne hne]

theorem behind_of_not_seqLt {s x : UShort} (h : chaosSeqLt s x = false) :
    2 * Serial.behind s x < 2 ^ 16 := by
  rw [chaosSeqLt_eq_before] at h
  exact Serial.not_before_iff.mp h

/-- Among numbers not far behind `s`, the later one is the one less behind. -/
theorem behind_later {s x y : UShort} (hx : 2 * Serial.behind s x < 2 ^ 16)
    (hy : 2 * Serial.behind s y < 2 ^ 16) :
    Serial.behind s (later x y) = min (Serial.behind s x) (Serial.behind s y) := by
  rw [later, chaosSeqLt_eq_before]
  split
  · next h => exact (Nat.min_eq_right (Serial.before_iff_behind_lt hx hy |>.mp h).le).symm
  · next h =>
    have := mt (Serial.before_iff_behind_lt hx hy).mpr h
    exact (Nat.min_eq_left (Nat.not_lt.mp this)).symm

section Note

variable {v : SendView} {ack receipt : UShort}

/-- How far `note` moves the two numbers. -/
theorem SendView.Ok.note_behind (h : v.Ok) (hack : chaosSeqLt v.sentNum ack = false)
    (hreceipt : chaosSeqLt v.sentNum receipt = false) :
    Serial.behind v.sentNum (v.note ack receipt).ackedNum =
      min (Serial.behind v.sentNum v.ackedNum) (Serial.behind v.sentNum ack) ∧
    Serial.behind v.sentNum (v.note ack receipt).receiptNum =
      min (Serial.behind v.sentNum v.receiptNum)
        (min (Serial.behind v.sentNum receipt) (Serial.behind v.sentNum ack)) := by
  have ha := behind_of_not_seqLt hack
  have hr := behind_of_not_seqLt hreceipt
  have hbound := h.bounded
  have hord := h.ordered
  have hmax : chaosMaxWindow.toNat = 50 := rfl
  have hmin := behind_later hr ha
  constructor
  · exact behind_later (by omega) ha
  · rw [← hmin]
    exact behind_later (by omega) (by omega)

/-- The numbers `note` passes are those that are no longer unreceipted. -/
theorem SendView.Ok.mem_passed (h : v.Ok) (hack : chaosSeqLt v.sentNum ack = false)
    (hreceipt : chaosSeqLt v.sentNum receipt = false) (n : UShort) :
    n ∈ seqUpTo v.receiptNum (v.note ack receipt).receiptNum ↔
      v.Unreceipted n ∧ ¬ (v.note ack receipt).Unreceipted n := by
  obtain ⟨-, hR⟩ := h.note_behind hack hreceipt
  have hlim := h.receipt_le
  have hle : Serial.behind v.sentNum (v.note ack receipt).receiptNum ≤
      Serial.behind v.sentNum v.receiptNum := by omega
  have hdist : Serial.behind (v.note ack receipt).receiptNum v.receiptNum ≤ 50 := by
    simp only [Serial.behind, BitVec.toNat_sub] at hle hlim ⊢
    omega
  rw [mem_seqUpTo (by omega)]
  show _ ↔ Serial.behind v.sentNum n < Serial.behind v.sentNum v.receiptNum ∧
    ¬ Serial.behind v.sentNum n < Serial.behind v.sentNum (v.note ack receipt).receiptNum
  simp only [Serial.behind, BitVec.toNat_sub] at hle hlim ⊢
  omega

/-- Acknowledgements that are not ahead of `sentNum` keep the invariant,
whatever their value. -/
theorem SendView.Ok.note (h : v.Ok) (hack : chaosSeqLt v.sentNum ack = false)
    (hreceipt : chaosSeqLt v.sentNum receipt = false) : (v.note ack receipt).Ok := by
  obtain ⟨hA, hR⟩ := h.note_behind hack hreceipt
  have hpassed := h.mem_passed hack hreceipt
  have hord := h.ordered
  have hbound := h.bounded
  have hlim := h.receipt_le
  have hsub : ∀ n, (v.note ack receipt).Unreceipted n → v.Unreceipted n := by
    intro n hn
    have hlt : Serial.behind v.sentNum n <
        Serial.behind v.sentNum (v.note ack receipt).receiptNum := hn
    show Serial.behind v.sentNum n < Serial.behind v.sentNum v.receiptNum
    omega
  -- the slot of a number still unreceipted is untouched
  have hkeep : ∀ n, (v.note ack receipt).Unreceipted n →
      (v.note ack receipt).slot (ringSlot n) = v.slot (ringSlot n) := by
    intro n hn
    refine if_neg fun hmem => ?_
    obtain ⟨m, hm, hslot⟩ := List.mem_map.mp hmem
    obtain ⟨hold, hgone⟩ := (hpassed m).mp hm
    have hmn : m = n := by
      have hn' := hsub n hn
      unfold SendView.Unreceipted at hold hn'
      exact ringSlot_inj (s := v.sentNum) (by omega) (by omega) hslot
    exact hgone (hmn ▸ hn)
  refine ⟨?_, ?_, ?_, ?_⟩
  · show Serial.behind v.sentNum (v.note ack receipt).receiptNum ≤
      Serial.behind v.sentNum (v.note ack receipt).ackedNum
    omega
  · show Serial.behind v.sentNum (v.note ack receipt).ackedNum ≤ _
    omega
  · intro s
    constructor
    · intro hs
      by_cases hmem : s ∈ (seqUpTo v.receiptNum (v.note ack receipt).receiptNum).map ringSlot
      · have hoff : ((v.note ack receipt).slot s).present = false :=
          congrArg SlotView.present (if_pos hmem)
        rw [hoff] at hs
        cases hs
      · have hsame : (v.note ack receipt).slot s = v.slot s := if_neg hmem
        rw [hsame] at hs
        obtain ⟨n, hn, rfl⟩ := (h.occupied s).mp hs
        refine ⟨n, ?_, rfl⟩
        by_contra hgone
        exact hmem (List.mem_map.mpr ⟨n, (hpassed n).mpr ⟨hn, hgone⟩, rfl⟩)
    · rintro ⟨n, hn, rfl⟩
      rw [hkeep n hn]
      exact (h.occupied _).mpr ⟨n, hsub n hn, rfl⟩
  · intro n hn
    obtain ⟨a, ha, hnum, hrest⟩ := h.holds n (hsub n hn)
    refine ⟨a, ha, hnum, ?_⟩
    rwa [hkeep n hn]

end Note

/-! ### Connections -/

/-- An act that leaves the send view alone. -/
theorem sendView_andThen {k : ChaosConn} {r : Act} {f : ChaosConn → Act}
    (hr : r.1.sendView = k.sendView) (hf : ∀ k, (f k).1.sendView = k.sendView) :
    (r.andThen f).1.sendView = k.sendView :=
  (hf r.1).trans hr

theorem connSendUnc_sendView (k : ChaosConn) (opcode : Byte) (num : UShort)
    (data : List Byte) : (connSendUnc k opcode num data).1.sendView = k.sendView := rfl

theorem connSendSts_sendView (k : ChaosConn) : (connSendSts k).1.sendView = k.sendView := rfl

/-- A transmission only changes times. -/
theorem connTransmit_sendView (k : ChaosConn) (s : Fin chaosRing) (nowMs : Millis) :
    (connTransmit k s nowMs).1.sendView = k.sendView := by
  have hslot : (fun t => (Function.update k.sendq s { k.sendq s with sentAtMs := nowMs } t).view)
      = fun t => (k.sendq t).view := by
    funext t
    by_cases ht : t = s
    · subst ht
      rw [Function.update_self]
      rfl
    · rw [Function.update_of_ne ht]
  exact congrArg (fun f => { k.sendView with slot := f }) hslot

theorem retransmitOne_sendView (nowMs minAgeMs : Millis) (n : UShort) (k : ChaosConn) :
    (retransmitOne nowMs minAgeMs n k).1.sendView = k.sendView := by
  unfold retransmitOne
  simp only
  split
  · rfl
  · split
    · rfl
    · exact connTransmit_sendView k _ nowMs

theorem connRetransmit_sendView (k : ChaosConn) (nowMs minAgeMs : Millis) :
    (connRetransmit k nowMs minAgeMs).1.sendView = k.sendView := by
  unfold connRetransmit
  refine List.foldlRecOn (motive := fun r : Act => r.1.sendView = k.sendView) _ _ rfl ?_
  intro r hr n _
  exact sendView_andThen hr fun k => retransmitOne_sendView _ _ n k

/-- Assigning a number to a packet. -/
theorem connSendControlled_sendView (k : ChaosConn) (opcode : Byte) (data : List Byte)
    (nowMs : Millis) :
    (connSendControlled k opcode data nowMs).1.sendView =
      k.sendView.assign opcode data k.remoteWindow := by
  unfold connSendControlled
  simp only
  rw [connTransmit_sendView]
  unfold ChaosConn.sendView SendView.assign
  simp only
  congr 1
  funext t
  by_cases ht : t = ringSlot (seqInc k.sentNum)
  · subst ht
    simp [ChaosPkt.view]
  · simp [ht]

theorem clearPresent_view (q : Fin chaosRing → ChaosPkt) (ns : List UShort)
    (s : Fin chaosRing) :
    (clearPresent q ns s).view =
      if s ∈ ns.map ringSlot then { (q s).view with present := false } else (q s).view := by
  induction ns generalizing q with
  | nil => simp [clearPresent]
  | cons n ns ih =>
      have hcons : clearPresent q (n :: ns) = clearPresent (Function.update q (ringSlot n)
          { q (ringSlot n) with present := false }) ns := rfl
      rw [hcons, ih]
      by_cases hs : s = ringSlot n
      · subst hs
        simp [ChaosPkt.view]
      · simp [hs]

theorem noteAck_sendView (k : ChaosConn) (ack receipt : UShort) :
    (noteAck k ack receipt).sendView = k.sendView.note ack receipt := by
  rw [noteAck_eq]
  exact congrArg (fun f => { k.sendView with
    ackedNum := later k.ackedNum ack
    receiptNum := later k.receiptNum (later receipt ack)
    slot := f }) (funext fun s => clearPresent_view _ _ s)

/-- The receive side does not touch the send side. -/
theorem connRecv_sendView (k : ChaosConn) (max : Nat) (nowMs : Millis) :
    (connRecv k max nowMs).1.1.sendView = k.sendView := by
  unfold connRecv
  simp only
  rw [connNoteRead_frame, recvLoop_frame]
  rfl

theorem connQueueInput_sendView (k : ChaosConn) (pkt : Packet) :
    (connQueueInput k pkt).1.sendView = k.sendView := by
  rw [connQueueInput_frame]
  rfl

/-! ### The invariant of a connection -/

/-- The send queue is in order and the peer's window within bounds. -/
def ChaosConn.SendFit (k : ChaosConn) : Prop :=
  k.sendView.Ok ∧ k.remoteWindow ≤ chaosMaxWindow

/-- RFC sent or open. -/
def ChaosConn.Live (k : ChaosConn) : Prop := k.state = connRfcSent ∨ k.state = connOpen

/-- The send-queue invariant of a connection. -/
def SendOk (k : ChaosConn) : Prop := k.Live → k.SendFit

theorem SendOk.of_not_live {k : ChaosConn} (h : ¬ k.Live) : SendOk k :=
  fun hlive => absurd hlive h

theorem connSetClosed_not_live (k : ChaosConn) (kind : ChaosCloseKind) (text : List Byte) :
    ¬ (connSetClosed k kind text).Live := by
  rintro (h | h) <;> cases h

/-- Changing neither the send view, nor the window, nor making it live. -/
theorem SendOk.congr {k k' : ChaosConn} (h : SendOk k) (hstate : k'.state = k.state)
    (hview : k'.sendView = k.sendView) (hwindow : k'.remoteWindow = k.remoteWindow) :
    SendOk k' := by
  intro hlive
  have hfit := h (by rwa [ChaosConn.Live, ← hstate])
  exact ⟨hview ▸ hfit.1, hwindow ▸ hfit.2⟩

theorem windowAvailable_pos {k : ChaosConn} :
    connWindowAvailable k > 0 ↔
      Serial.behind k.sentNum k.ackedNum < k.remoteWindow.toNat := by
  unfold connWindowAvailable seqDiff Serial.behind
  omega

/-- Sending in an open window keeps the queue in order. -/
theorem ChaosConn.SendFit.connSendControlled {k : ChaosConn} (hfit : k.SendFit)
    (hroom : connWindowAvailable k > 0) (opcode : Byte) (data : List Byte) (nowMs : Millis) :
    (connSendControlled k opcode data nowMs).1.SendFit := by
  refine ⟨?_, hfit.2⟩
  rw [connSendControlled_sendView]
  have hwindow : k.remoteWindow.toNat ≤ chaosMaxWindow.toNat := hfit.2
  exact hfit.1.assign opcode data _
    (Nat.lt_of_lt_of_le (windowAvailable_pos.mp hroom) hwindow)

theorem sendLoop_sendFit (nowMs : Millis) (fuel : Nat) {k : ChaosConn} (data : List Byte)
    (hfit : k.SendFit) : (sendLoop nowMs fuel k data).1.1.SendFit := by
  induction fuel generalizing k data with
  | zero => exact hfit
  | succ fuel ih =>
      unfold sendLoop
      split
      · next h => exact ih _ (hfit.connSendControlled h.2 _ _ _)
      · exact hfit

theorem connMaybeSendEof_sendFit {k : ChaosConn} (nowMs : Millis) (hfit : k.SendFit) :
    (connMaybeSendEof k nowMs).1.SendFit := by
  unfold connMaybeSendEof
  split
  · next h => exact hfit.connSendControlled h.2.2.2 chopEof [] nowMs
  · exact hfit

/-- Acknowledgements not ahead of what was sent keep the queue in order. -/
theorem noteAck_sendFit {k : ChaosConn} {ack receipt : UShort} (hfit : k.SendFit)
    (hrange : ¬ (chaosSeqLt k.sentNum ack || chaosSeqLt k.sentNum receipt) = true) :
    (noteAck k ack receipt).SendFit := by
  obtain ⟨hack, hreceipt⟩ := Bool.or_eq_false_iff.mp (Bool.eq_false_iff.mpr hrange)
  refine ⟨?_, ?_⟩
  · rw [noteAck_sendView]
    exact hfit.1.note hack hreceipt
  · rw [noteAck_eq]
    exact hfit.2

/-- Any acknowledgement leaves an open connection in order, or closes it. -/
theorem connProcessAck_sendOk {k : ChaosConn} (ack receipt : UShort) (nowMs : Millis)
    (hfit : k.SendFit) : SendOk (connProcessAck k ack receipt nowMs).1 := by
  unfold connProcessAck
  split
  · exact fun _ => hfit
  · next hrange =>
    simp only
    split
    · exact SendOk.of_not_live (connSetClosed_not_live _ _ _)
    · exact fun _ => connMaybeSendEof_sendFit nowMs (noteAck_sendFit hfit hrange)

theorem clampWindow_le (w : UShort) : clampWindow w ≤ chaosMaxWindow := by
  unfold clampWindow
  split
  · exact BitVec.le_refl _
  · next h => exact BitVec.not_lt.mp h

/-- A fresh connection has nothing to receipt. -/
theorem connNew_sendFit (localIndex addr window firstNum : UShort) (nowMs : Millis) :
    (connNew localIndex addr window firstNum nowMs).SendFit := by
  have hnone : ∀ n, ¬ (connNew localIndex addr window firstNum nowMs).sendView.Unreceipted n := by
    intro n hn
    simp [SendView.Unreceipted, connNew, ChaosConn.sendView] at hn
  refine ⟨⟨?_, ?_, ?_, ?_⟩, ?_⟩
  · simp [connNew, ChaosConn.sendView]
  · simp [connNew, ChaosConn.sendView]
  · intro s
    constructor
    · intro hs
      cases hs
    · rintro ⟨n, hn, -⟩
      exact absurd hn (hnone n)
  · intro n hn
    exact absurd hn (hnone n)
  · show (1 : UShort) ≤ chaosMaxWindow
    decide

/-- **Step lemma of the send queue.** -/
theorem SendOk.part {e : CoreEvent} {h : Fin chaosMaxConns} {k₀ k : ChaosConn} {r : Act}
    (hk : SendOk k) (hr : ConnPart e h k₀ k r) : SendOk r.1 := by
  have hopen : k.state = connOpen → k.SendFit := fun hs => hk (Or.inr hs)
  cases hr with
  | @opened addr contact u w n call free uniq length =>
      have hnew := connNew_sendFit ((u <<< 5) ||| BitVec.ofNat 16 h.val) addr w n e.nowMs
      refine fun _ => hnew.connSendControlled ?_ _ _ _
      rw [windowAvailable_pos]
      simp [connNew]
  | sent call alive =>
      unfold connSend
      split
      · exact hk
      · next hstate =>
        have hs : k.state = connOpen := by simpa using (not_or.mp hstate).1
        exact fun _ => sendLoop_sendFit _ _ _ (hopen hs)
  | finished call alive =>
      unfold connFinish
      split
      · exact hk
      · next hstate =>
        have hs : k.state = connOpen := by simpa using (not_or.mp hstate).1
        exact fun _ => connMaybeSendEof_sendFit _ (hopen hs)
  | received call alive =>
      refine hk.congr ?_ (connRecv_sendView k _ _) ?_
      all_goals
        unfold connRecv
        simp only
        rw [connNoteRead_frame, recvLoop_frame]
  | released call alive => exact SendOk.of_not_live (by rintro (h | h) <;> cases h)
  | heard pkt delivers untouched => exact hk.congr rfl rfl rfl
  | opn pkt delivers untouched state opcode length =>
      refine (connProcessAck_sendOk _ _ _ ?_).congr rfl rfl rfl
      exact ⟨(hk (Or.inl state)).1, clampWindow_le _⟩
  | acked pkt window receipt delivers untouched state values =>
      refine connProcessAck_sendOk _ _ _ ⟨(hopen state).1, ?_⟩
      rcases values with ⟨rfl, -⟩ | ⟨-, -, rfl, -⟩
      · exact (hopen state).2
      · exact clampWindow_le _
  | queued pkt delivers received state opcode =>
      refine hk.congr ?_ (connQueueInput_sendView k _) ?_
      all_goals rw [connQueueInput_frame]
  | refused pkt delivers untouched state => exact hk
  | closed kind text live why => exact SendOk.of_not_live (connSetClosed_not_live _ _ _)
  | retransmitted minAge live =>
      have hsent := connRetransmit_sentOnly k e.nowMs minAge
      refine hk.congr hsent.state (connRetransmit_sendView k _ _) ?_
      rw [hsent]
  | sts state => exact hk.congr rfl rfl rfl
  | probed call state => exact hk.congr rfl rfl rfl
  | sns call state => exact hk.congr rfl rfl rfl
  | gaveUp call untouched state wanted late => exact SendOk.of_not_live (connSetClosed_not_live _ _ _)

/-- In every reachable state the send queue of every connection is in order. -/
theorem Reachable.sendOk {c : ChaosCore} (hc : Reachable c) (h : Fin chaosMaxConns) :
    SendOk (c.conns h) :=
  (hc.invariant (I := fun _ k => SendOk k) SendOk.part
    (fun _ => SendOk.of_not_live (by rintro (h | h) <;> cases h))).2 h

end Chaos
