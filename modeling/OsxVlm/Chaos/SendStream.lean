import OsxVlm.Chaos.Assignment

/-!
# The send stream

Over whole runs: what the core knows about its connections in every reachable
state (`CoreOk`), which connection an emitted packet belongs to, and the law of
the stream a connection sends (`SendStreamLaw`).
-/

namespace Chaos

open ChaosConnState ChaosCloseKind

/-! ### Connection indexes -/

/-- The index `chaos_open` makes names its own slot. -/
theorem connSlot_open (u : UShort) (h : Fin chaosMaxConns) :
    connSlot ((u <<< 5) ||| BitVec.ofNat 16 h.val) = h := by
  have hlt : h.val < 32 := h.isLt
  apply Fin.ext
  show (((u <<< 5) ||| BitVec.ofNat 16 h.val) &&& 31).toNat = h.val
  have hmask : (31 : UShort).toNat = 2 ^ 5 - 1 := rfl
  have hshift : (u <<< 5).toNat % 2 ^ 5 = 0 := by
    rw [BitVec.toNat_shiftLeft, Nat.shiftLeft_eq]
    omega
  rw [BitVec.toNat_and, hmask, Nat.and_two_pow_sub_one_eq_mod, BitVec.toNat_or,
    Nat.or_mod_two_pow, hshift, BitVec.toNat_ofNat, Nat.zero_or]
  omega

/-- Nor is it zero, the index of packets sent for no connection. -/
theorem index_ne_zero {u : UShort} (hu : UniquizerOk u) (h : Fin chaosMaxConns) :
    (u <<< 5) ||| BitVec.ofNat 16 h.val ≠ 0 := by
  intro hzero
  have hhigh : ((u <<< 5) ||| BitVec.ofNat 16 h.val).toNat / 2 ^ 5 = 0 := by
    rw [hzero]
    rfl
  have hlow : (u <<< 5).toNat = u.toNat * 32 := by
    rw [BitVec.toNat_shiftLeft, Nat.shiftLeft_eq]
    have := hu.2
    omega
  have hor : (u <<< 5).toNat ≤ ((u <<< 5) ||| BitVec.ofNat 16 h.val).toNat := by
    rw [BitVec.toNat_or]
    exact Nat.left_le_or
  have := hu.1
  omega

/-- A connection in use is found in its slot; a free one is blank. -/
structure IndexOk (h : Fin chaosMaxConns) (k : ChaosConn) : Prop where
  slot : k.state ≠ connFree → connSlot k.localIndex = h
  nonzero : k.state ≠ connFree → k.localIndex ≠ 0
  blank : k.state = connFree → k.assigned = []

/-- Every packet sent for slot `h` bears an index of that slot. -/
theorem ConnPart.index {e : CoreEvent} {h : Fin chaosMaxConns} {k₀ k : ChaosConn} {r : Act}
    (hr : ConnPart e h k₀ k r) (hi : IndexOk h k) (hk : SendOk k) :
    IndexOk h r.1 ∧ ∀ s ∈ r.2, connSlot s.srcIndex = h := by
  rcases hr.history hk with ⟨-, addr, contact, u, w, n, -, hu, -, rfl⟩ | ⟨reason, -, rfl⟩ |
    ⟨hinUse, hext⟩
  · refine ⟨⟨fun _ => connSlot_open u h, fun _ => index_ne_zero hu h, nofun⟩, ?_⟩
    intro s hs
    rw [(connSendControlled_sends _ _ _ _ s hs).2.2.2]
    exact connSlot_open u h
  · refine ⟨⟨fun hne => absurd rfl hne, fun hne => absurd rfl hne, fun _ => rfl⟩, ?_⟩
    intro s hs
    obtain ⟨-, hsrc, hopen⟩ := connRelease_sends k _ s hs
    rw [hsrc]
    exact hi.slot (by simp [hopen])
  · have hslot := hi.slot hinUse
    refine ⟨⟨fun _ => ?_, fun _ => ?_, fun hfree => absurd hfree (hext.inUse hinUse)⟩, ?_⟩
    · rw [hext.localIndex, hslot]
    · rw [hext.localIndex]
      exact hi.nonzero hinUse
    · intro s hs
      rw [hext.source s hs, hslot]

theorem ConnChain.index {e : CoreEvent} {h : Fin chaosMaxConns} {k₀ k : ChaosConn} {r : Act}
    (hr : ConnChain e h k₀ k r) (hi : IndexOk h k) (hk : SendOk k) :
    ∀ s ∈ r.2, connSlot s.srcIndex = h := by
  refine (hr.carried (I := fun k => IndexOk h k ∧ SendOk k)
    (R := fun _ r => ∀ s ∈ r.2, connSlot s.srcIndex = h)
    (by simp) ?_ ?_ ⟨hi, hk⟩).2
  · intro k r r' h1 h2 s hs
    rcases List.mem_append.mp hs with hs | hs
    · exact h1 s hs
    · exact h2 s hs
  · rintro k r ⟨hi, hk⟩ hp
    have hindex := hp.index hi hk
    exact ⟨⟨hindex.1, hk.part hp⟩, hindex.2⟩

/-! ### Reachable states -/

/-- What holds of the core in every reachable state. -/
structure CoreOk (c : ChaosCore) : Prop where
  uniquizer : UniquizerOk c.uniquizer
  sendOk : ∀ h, SendOk (c.conns h)
  history : ∀ h, HistoryOk (c.conns h)
  index : ∀ h, IndexOk h (c.conns h)

theorem Reachable.coreOk {c : ChaosCore} (hc : Reachable c) : CoreOk c := by
  have hall := hc.invariant
    (I := fun h k => SendOk k ∧ HistoryOk k ∧ IndexOk h k)
    (fun ⟨hk, hh, hi⟩ hp => ⟨hk.part hp, hh.part hk hp, (hp.index hi hk).1⟩)
    (fun _ => ⟨.of_not_live (by rintro (h | h) <;> cases h), ⟨.nil _, rfl⟩,
      ⟨fun hne => absurd rfl hne, fun hne => absurd rfl hne, fun _ => rfl⟩⟩)
  exact ⟨hall.1, fun h => (hall.2 h).1, fun h => (hall.2 h).2.1, fun h => (hall.2 h).2.2⟩

/-- The state after one more call is reachable. -/
theorem Reachable.step {c : ChaosCore} (hc : Reachable c) (e : CoreEvent) :
    Reachable (coreStep c e) := by
  obtain ⟨myAddr, myMac, hostName, localWindow, initialPktNum, es, rfl⟩ := hc
  refine ⟨myAddr, myMac, hostName, localWindow, initialPktNum, es ++ [e], ?_⟩
  rw [Exec.run_append, Exec.run_cons, Exec.run_nil]

theorem Reachable.run {c : ChaosCore} (hc : Reachable c) (es : List CoreEvent) :
    Reachable (Exec.run coreStep c es) := by
  induction es generalizing c with
  | nil => exact hc
  | cons e es ih => exact ih (hc.step e)

/-- The packet last given the number `n`. -/
def lastAssigned (k : ChaosConn) (n : UShort) : Option AssignedPkt :=
  k.assigned.reverse.find? fun a => a.num = n

/-- A number not yet receipted was last given to the packet that many places
from the end of the history. -/
theorem lastAssigned_eq {k : ChaosConn} (hh : HistoryOk k) {n : UShort} {a : AssignedPkt}
    (ha : k.assigned.reverse[Serial.behind k.sentNum n]? = some a) (hnum : a.num = n) :
    lastAssigned k n = some a := by
  obtain ⟨hlen, hget⟩ := List.getElem?_eq_some_iff.mp ha
  refine List.find?_eq_some_iff_getElem.mpr ⟨by simpa using hnum, _, hlen, hget, ?_⟩
  intro j hj
  have hlt := Serial.behind_lt k.sentNum n
  have hnumj := hh.numberedTo.numbered j _ (List.getElem?_eq_getElem (by omega))
  have hne : k.assigned.reverse[j].num ≠ n := by
    intro heq
    have hbehind := Serial.behind_sub_ofNat k.sentNum (i := j) (by omega)
    rw [← hnumj, heq] at hbehind
    omega
  simpa using hne

/-- **The send-queue invariant.**  In every reachable state and for every
connection that is not closed, `sentNum - receiptNum ≤ sentNum - ackedNum ≤
CHAOS_MAX_WINDOW`; the slots of exactly the numbers in `(receiptNum, sentNum]`
are occupied, each with the opcode and bytes its number was given to. -/
theorem send_queue_invariant {c : ChaosCore} (hc : Reachable c) (h : Fin chaosMaxConns)
    (hlive : (c.conns h).state = connRfcSent ∨ (c.conns h).state = connOpen) :
    let k := c.conns h
    let unreceipted := fun n : UShort => 0 < (seqDiff n k.receiptNum).toNat ∧
      (seqDiff n k.receiptNum).toNat ≤ (seqDiff k.sentNum k.receiptNum).toNat
    (seqDiff k.sentNum k.receiptNum).toNat ≤ (seqDiff k.sentNum k.ackedNum).toNat ∧
    seqDiff k.sentNum k.ackedNum ≤ chaosMaxWindow ∧
    (∀ n, unreceipted n → ∃ a, lastAssigned k n = some a ∧
      (k.sendq (ringSlot n)).present = true ∧ (k.sendq (ringSlot n)).num = n ∧
      (k.sendq (ringSlot n)).opcode = a.opcode ∧ (k.sendq (ringSlot n)).data = a.data) ∧
    (∀ s, (k.sendq s).present = true → ∃ n, unreceipted n ∧ ringSlot n = s) := by
  obtain ⟨hok, -⟩ := hc.coreOk.sendOk h hlive
  have hhistory := hc.coreOk.history h
  intro k unreceipted
  have hwindow : ∀ n, unreceipted n ↔ k.sendView.Unreceipted n := by
    intro n
    show (0 < (n - k.receiptNum).toNat ∧
      (n - k.receiptNum).toNat ≤ (k.sentNum - k.receiptNum).toNat) ↔
        (k.sentNum - n).toNat < (k.sentNum - k.receiptNum).toNat
    simp only [BitVec.toNat_sub]
    omega
  refine ⟨hok.ordered, hok.bounded, ?_, ?_⟩
  · intro n hn
    have hn' := (hwindow n).mp hn
    obtain ⟨a, ha, hanum, hnum, hop, hdata⟩ := hok.holds n hn'
    exact ⟨a, lastAssigned_eq hhistory ha hanum,
      (hok.occupied _).mpr ⟨n, hn', rfl⟩, hnum, hop, hdata⟩
  · intro s hs
    obtain ⟨n, hn, hslot⟩ := (hok.occupied s).mp hs
    exact ⟨n, (hwindow n).mpr hn, hslot⟩

/-- After the open of the sample core its RFC is held for retransmission. -/
theorem send_queue_invariant_sample :
    let k := (Exec.run coreStep sampleCore [sampleOpen]).conns sampleConn
    ∃ a, lastAssigned k 0x0100 = some a ∧ (k.sendq (ringSlot 0x0100)).present = true ∧
      (k.sendq (ringSlot 0x0100)).num = 0x0100 ∧
      (k.sendq (ringSlot 0x0100)).opcode = a.opcode ∧
      (k.sendq (ringSlot 0x0100)).data = a.data :=
  (send_queue_invariant (sampleCore_reachable.run [sampleOpen]) sampleConn
    (by decide +kernel)).2.2.1 0x0100 (by decide +kernel)

/-! ### Whose packet a frame carries -/

/-- The frames one call hands to the emit callback. -/
def emittedBy (c : ChaosCore) (e : CoreEvent) : List (List Byte) :=
  (coreStep c e).emitted.drop c.emitted.length

/-- `f` is the frame of the Chaos packet `pkt` with source index `index`. -/
def FrameFor (index : UShort) (f : List Byte) (pkt : Packet) : Prop :=
  etherType f = chaosEthertype ∧ readPacket f = some pkt ∧ pkt.srcIndex = index

/-- The call `e` emits `pkt`, a controlled packet with source index `index`. -/
def EmitsControlled (c : ChaosCore) (e : CoreEvent) (index : UShort) (pkt : Packet) : Prop :=
  ∃ f ∈ emittedBy c e, FrameFor index f pkt ∧ Controlled pkt.opcode

/-- A packet only a connection sends: a controlled one, or a CLS. -/
def Loud (opcode : Byte) : Prop := Controlled opcode ∨ opcode = chopCls

theorem Stray.not_loud {s : RawSend} (h : Stray s) (hindex : s.srcIndex ≠ 0) :
    ¬ Loud s.opcode := by
  rcases h with h | h | ⟨-, h⟩
  · rw [h]
    exact (by decide : ¬ (Controlled chopAns ∨ chopAns = chopCls))
  · rw [h]
    exact (by decide : ¬ (Controlled chopLos ∨ chopLos = chopCls))
  · exact absurd h hindex

/-- The frames of a call are those of the packets its acts hand to `send_raw`. -/
theorem emittedBy_sends {c : ChaosCore} {e : CoreEvent} {acts : Fin chaosMaxConns → Act}
    (hfrom : ActsFrom acts c (coreStep c e)) : ∃ ss : List Sending,
      Renders c.myMac c.myAddr (ss.map Prod.snd) (emittedBy c e) ∧
      (∀ h, ownSends h ss = (acts h).2) ∧ ∀ s, (none, s) ∈ ss → Stray s := by
  obtain ⟨ss, hemits, hown, hstray⟩ := hfrom.sends
  obtain ⟨new, hnew, hrenders⟩ := hemits.emitted
  refine ⟨ss, ?_, hown, hstray⟩
  rwa [emittedBy, hnew, List.drop_left]

/-- A packet that is sent for slot `h`. -/
theorem mem_ownSends {h : Fin chaosMaxConns} {s : RawSend} {ss : List Sending} :
    s ∈ ownSends h ss ↔ (some h, s) ∈ ss := by
  simp [ownSends]

section Source

variable {c : ChaosCore} (hc : CoreOk c) {e : CoreEvent} {index : UShort}
  {acts : Fin chaosMaxConns → Act} (hacts : ∀ h, ConnAct e h (c.conns h) (acts h))

include hc hacts

/-- A packet of `ss` that only a connection sends was sent for the slot it names. -/
theorem loud_tag {ss : List Sending} (hown : ∀ h, ownSends h ss = (acts h).2)
    (hstray : ∀ s, (none, s) ∈ ss → Stray s) (hindex : index ≠ 0) {s : Sending} (hs : s ∈ ss)
    (hsrc : s.2.srcIndex = index) (hloud : Loud s.2.opcode) : s.1 = some (connSlot index) := by
  obtain ⟨tag, t⟩ := s
  cases tag with
  | some g =>
      have hg : t ∈ (acts g).2 := by
        rw [← hown g]
        exact mem_ownSends.mpr hs
      have hslot := (hacts g).chain.index (hc.index g) (hc.sendOk g) t hg
      rw [← hsrc, hslot]
  | none => exact absurd hloud ((hstray t hs).not_loud (hsrc ▸ hindex))

variable (hfrom : ActsFrom acts c (coreStep c e))

include hfrom

/-- Such a packet, when it is emitted, was sent for the connection its index names. -/
theorem emitted_source (hindex : index ≠ 0) {f : List Byte} {pkt : Packet}
    (hf : f ∈ emittedBy c e) (hframe : FrameFor index f pkt) (hloud : Loud pkt.opcode) :
    ∃ s ∈ (acts (connSlot index)).2,
      pkt.num = s.num ∧ pkt.opcode = s.opcode ∧ pkt.data = s.data.take chaosMaxData := by
  obtain ⟨hether, hread, hsrc⟩ := hframe
  obtain ⟨ss, hrenders, hown, hstray⟩ := emittedBy_sends hfrom
  obtain ⟨s, hs, dst, rfl⟩ := hrenders.mem hf hether
  rw [readPacket_chaosFrame] at hread
  obtain rfl := Option.some.inj hread
  obtain ⟨⟨tag, t⟩, hmem, rfl⟩ := List.mem_map.mp hs
  obtain rfl : tag = some (connSlot index) :=
    loud_tag hc hacts hown hstray hindex hmem hsrc hloud
  refine ⟨t, ?_, rfl, rfl, rfl⟩
  rw [← hown]
  exact mem_ownSends.mpr hmem

/-- Two of them, one after the other, were sent in this order. -/
theorem emitted_pair (hindex : index ≠ 0) {f g : List Byte} {p q : Packet}
    (hfg : [f, g].Sublist (emittedBy c e)) (hf : FrameFor index f p) (hg : FrameFor index g q)
    (hp : Loud p.opcode) (hq : Loud q.opcode) :
    ∃ s t, [s, t].Sublist (acts (connSlot index)).2 ∧
      p.opcode = s.opcode ∧ q.opcode = t.opcode := by
  obtain ⟨hether, hread, hsrc⟩ := hf
  obtain ⟨hether', hread', hsrc'⟩ := hg
  obtain ⟨ss, hrenders, hown, hstray⟩ := emittedBy_sends hfrom
  obtain ⟨s, t, hst, ⟨dst, rfl⟩, ⟨dst', rfl⟩⟩ := hrenders.pair hfg hether hether'
  rw [readPacket_chaosFrame] at hread hread'
  obtain rfl := Option.some.inj hread
  obtain rfl := Option.some.inj hread'
  obtain ⟨pair, hpair, heq⟩ := List.sublist_map_iff.mp hst
  obtain ⟨⟨tag, s'⟩, ⟨tag', t'⟩, rfl⟩ : ∃ a b, pair = [a, b] := by
    have hlen : pair.length = 2 := by simpa using (congrArg List.length heq).symm
    exact List.length_eq_two.mp hlen
  simp only [List.map_cons, List.map_nil, List.cons.injEq, and_true] at heq
  obtain ⟨rfl, rfl⟩ := heq
  have hmem : (tag, s) ∈ ss := hpair.subset List.mem_cons_self
  have hmem' : (tag', t) ∈ ss := hpair.subset (List.mem_cons_of_mem _ List.mem_cons_self)
  obtain rfl : tag = some (connSlot index) :=
    loud_tag hc hacts hown hstray hindex hmem hsrc hp
  obtain rfl : tag' = some (connSlot index) :=
    loud_tag hc hacts hown hstray hindex hmem' hsrc' hq
  refine ⟨s, t, ?_, rfl, rfl⟩
  rw [← hown, ownSends]
  have hkeep := (hpair.filter fun s => s.1 = some (connSlot index)).map Prod.snd
  simpa using hkeep

end Source

/-- Every controlled packet emitted for a connection in use carries an entry of
its history, number, opcode and bytes, at most a window from its end. -/
theorem emitsControlled_assigned {c : ChaosCore} (hc : CoreOk c) {e : CoreEvent}
    {h : Fin chaosMaxConns} (hinUse : (c.conns h).state ≠ connFree)
    (hkept : ∀ reason, e.call ≠ .chaosRelease h.val reason) {pkt : Packet}
    (hpkt : EmitsControlled c e (c.conns h).localIndex pkt) :
    ∃ i a, ((coreStep c e).conns h).assigned[i]? = some a ∧
      pkt.num = a.num ∧ pkt.opcode = a.opcode ∧ pkt.data = a.data ∧
      (c.conns h).assigned.length ≤ i + chaosMaxWindow.toNat := by
  obtain ⟨acts, hacts, hfrom⟩ := coreStep_acts hc.uniquizer e
  obtain ⟨f, hf, hframe, hctl⟩ := hpkt
  obtain ⟨s, hs, hnum, hop, hdata⟩ := emitted_source hc hacts hfrom
    ((hc.index h).nonzero hinUse) hf hframe (Or.inl hctl)
  rw [(hc.index h).slot hinUse] at hs
  rw [hop] at hctl
  have hext := (hacts h).chain.extends (hc.sendOk h) hinUse hkept
  obtain ⟨i, a, ha, hsnum, hsop, hsdata, hle⟩ := hext.carries s hs hctl
  have hh : HistoryOk (acts h).1 :=
    ((hacts h).chain.carried (I := fun k => SendOk k ∧ HistoryOk k) (R := fun _ _ => True)
      (fun _ => trivial) (fun _ _ => trivial)
      (fun ⟨hk, hh⟩ hp => ⟨⟨hk.part hp, hh.part hk hp⟩, trivial⟩)
      ⟨hc.sendOk h, hc.history h⟩).1.2
  have hsize := hh.numberedTo.sizes a (List.mem_of_getElem? ha)
  refine ⟨i, a, by rw [hfrom.conns h]; exact ha, hnum.trans hsnum, hop.trans hsop, ?_, hle⟩
  rw [hdata, hsdata, List.take_of_length_le hsize]

/-! ### What `chaos_send` takes -/

/-- `chaos_send` acts on its connection as `connSend`. -/
theorem coreStep_chaosSend (c : ChaosCore) (h : Fin chaosMaxConns) (data : List Byte)
    (nowMs : Millis) :
    (chaosSend c h.val data nowMs).1 = (connSend (c.conns h) data nowMs).2 ∧
      (chaosSend c h.val data nowMs).2.conns h = (connSend (c.conns h) data nowMs).1.1 := by
  by_cases hfree : (c.conns h).state = connFree
  · have hnone : connForHandle c h.val = none := by
      simp [connForHandle, hfree, h.isLt]
    have hsend : connSend (c.conns h) data nowMs = ((c.conns h, []), 0) := by
      simp [connSend, hfree]
    simp only [chaosSend, hnone, hsend, and_self]
  · have hsome : connForHandle c h.val = some h := by
      simp [connForHandle, hfree, h.isLt]
    simp only [chaosSend, hsome]
    refine ⟨trivial, ?_⟩
    rw [(perform_spec c h _ nowMs).1, Function.update_self]

/-- A first chunk and what is taken of the rest. -/
theorem take_chunk (m n : Nat) (data : List Byte) :
    data.take m ++ (data.drop m).take n = data.take ((data.take m).length + n) := by
  rcases Nat.le_total data.length m with hle | hle
  · rw [List.take_of_length_le hle, List.drop_eq_nil_of_le hle, List.take_nil, List.append_nil,
      List.take_of_length_le (Nat.le_add_right _ _)]
  · rw [List.length_take_of_le hle, List.take_add]

/-- The loop of `chaos_send` numbers exactly the bytes it reports. -/
theorem sendLoop_dataBytes (nowMs : Millis) (fuel : Nat) (k : ChaosConn) (data : List Byte)
    (hfuel : data.length ≤ fuel) :
    dataBytes (sendLoop nowMs fuel k data).1.1.assigned =
      dataBytes k.assigned ++ data.take (sendLoop nowMs fuel k data).2 := by
  induction fuel generalizing k data with
  | zero => simp [sendLoop]
  | succ fuel ih =>
      unfold sendLoop
      split
      · next hgo =>
        have hpos : 0 < data.length := List.length_pos_iff.mpr hgo.1
        have hmax : 0 < chaosMaxData := by decide
        have hrest := ih (connSendControlled k chopDat (data.take chaosMaxData) nowMs).1
          (data.drop chaosMaxData) (by rw [List.length_drop]; omega)
        have hone : dataBytes [newest k chopDat (data.take chaosMaxData)] =
            data.take chaosMaxData := by
          simp [dataBytes, dataPackets, newest]
        simp only
        rw [hrest, connSendControlled_assigned, dataBytes_append, hone, List.append_assoc]
        rw [take_chunk]
      · simp

theorem connSend_dataBytes (k : ChaosConn) (data : List Byte) (nowMs : Millis) :
    dataBytes (connSend k data nowMs).1.1.assigned =
      dataBytes k.assigned ++ data.take (connSend k data nowMs).2 := by
  unfold connSend
  split
  · simp
  · exact sendLoop_dataBytes _ _ _ _ (Nat.le_refl _)

/-- `chaos_recv` acts on a connection in use as `connRecv`. -/
theorem coreStep_chaosRecv {c : ChaosCore} {h : Fin chaosMaxConns}
    (hinUse : (c.conns h).state ≠ connFree) (max : Nat) (nowMs : Millis) :
    (chaosRecv c h.val max nowMs).1 = (connRecv (c.conns h) max nowMs).2 ∧
      (chaosRecv c h.val max nowMs).2.conns h = (connRecv (c.conns h) max nowMs).1.1 := by
  have hsome : connForHandle c h.val = some h := by
    simp [connForHandle, hinUse, h.isLt]
  simp only [chaosRecv, hsome]
  refine ⟨trivial, ?_⟩
  rw [(perform_spec c h _ nowMs).1, Function.update_self]

/-- `chaos_finish` acts on its connection as `connFinish`. -/
theorem coreStep_chaosFinish {c : ChaosCore} {e : CoreEvent} {h : Fin chaosMaxConns}
    (hcall : e.call = .chaosFinish h.val) :
    (coreStep c e).conns h = (connFinish (c.conns h) e.nowMs).1 := by
  simp only [coreStep, hcall, chaosFinish]
  by_cases hfree : (c.conns h).state = connFree
  · have hnone : connForHandle c h.val = none := by
      simp [connForHandle, hfree, h.isLt]
    simp [hnone, connFinish, hfree]
  · have hsome : connForHandle c h.val = some h := by
      simp [connForHandle, hfree, h.isLt]
    simp only [hsome]
    rw [(perform_spec c h _ e.nowMs).1, Function.update_self]

/-- `chaos_finish` on an open connection marks it and numbers no data. -/
theorem connFinish_wanted {k : ChaosConn} (nowMs : Millis) (hopen : k.state = connOpen) :
    (connFinish k nowMs).1.eofWanted = true ∧
      dataPackets (connFinish k nowMs).1.assigned = dataPackets k.assigned := by
  unfold connFinish
  split
  · next hdone => exact ⟨by simpa [hopen] using hdone, rfl⟩
  · have hext := connMaybeSendEof_extends
      { k with eofWanted := true, finishStartMs := nowMs } nowMs
    exact ⟨hext.wanted rfl, hext.frozen rfl⟩

/-- No call but `chaos_send` numbers data. -/
theorem ConnPart.dataPackets_eq {e : CoreEvent} {h : Fin chaosMaxConns} {k₀ k : ChaosConn}
    {r : Act} (hr : ConnPart e h k₀ k r) (hinUse : k.state ≠ connFree)
    (hkept : ∀ reason, e.call ≠ .chaosRelease h.val reason)
    (hnot : ∀ data, e.call ≠ .chaosSend h.val data) :
    dataPackets r.1.assigned = dataPackets k.assigned := by
  have heof : ∀ (k : ChaosConn) (nowMs : Millis),
      dataPackets (connMaybeSendEof k nowMs).1.assigned = dataPackets k.assigned := by
    intro k nowMs
    unfold connMaybeSendEof
    split
    · show dataPackets (k.assigned ++ [newest k chopEof []]) = _
      rw [dataPackets_append]
      simp [dataPackets, newest]
      decide
    · rfl
  have hack : ∀ (k : ChaosConn) (ack receipt : UShort) (nowMs : Millis),
      dataPackets (connProcessAck k ack receipt nowMs).1.assigned =
        dataPackets k.assigned := by
    intro k ack receipt nowMs
    have hnote : (noteAck k ack receipt).assigned = k.assigned := by rw [noteAck_eq]
    unfold connProcessAck
    split
    · rfl
    · simp only
      split
      · show dataPackets (noteAck k ack receipt).assigned = _
        rw [hnote]
      · rw [heof, hnote]
  cases hr with
  | opened u w n call free uniq length => exact absurd free hinUse
  | sent call alive => exact absurd call (hnot _)
  | finished call alive =>
      unfold connFinish
      split
      · rfl
      · rw [heof]
  | received call alive =>
      unfold connRecv
      simp only
      rw [connNoteRead_frame, recvLoop_frame]
  | released call alive => exact absurd call (hkept _)
  | opn pkt delivers untouched state opcode length =>
      show dataPackets (connProcessAck _ _ _ _).1.assigned = _
      rw [hack]
      rfl
  | acked pkt window receipt delivers untouched state values =>
      rw [hack]
      rfl
  | queued pkt delivers received state opcode => rw [connQueueInput_frame]
  | retransmitted minAge live => rw [connRetransmit_sentOnly k e.nowMs minAge]
  | _ => rfl

/-! ### Runs -/

/-- No event of the run releases the connection. -/
def Keeps (h : Fin chaosMaxConns) (e : CoreEvent) : Prop :=
  ∀ reason, e.call ≠ .chaosRelease h.val reason

/-- What one call that keeps the connection does to it. -/
theorem coreStep_extends {c : ChaosCore} (hc : CoreOk c) {h : Fin chaosMaxConns}
    (hinUse : (c.conns h).state ≠ connFree) {e : CoreEvent} (hkeeps : Keeps h e) :
    Extends (c.conns h) ((coreStep c e).conns h, []) := by
  obtain ⟨acts, hacts, hfrom⟩ := coreStep_acts hc.uniquizer e
  rw [hfrom.conns h]
  have hext := (hacts h).chain.extends (hc.sendOk h) hinUse hkeeps
  exact ⟨hext.inUse, hext.localIndex, hext.history, by simp, by simp, hext.wanted, hext.frozen⟩

/-- The connection stays in use and its history grows along a run that keeps it. -/
theorem run_extends {c : ChaosCore} (hc : Reachable c) {h : Fin chaosMaxConns}
    (hinUse : (c.conns h).state ≠ connFree) (es : List CoreEvent)
    (hkeeps : ∀ e ∈ es, Keeps h e) :
    ((Exec.run coreStep c es).conns h).state ≠ connFree ∧
      Extends (c.conns h) ((Exec.run coreStep c es).conns h, []) := by
  induction es generalizing c with
  | nil => exact ⟨hinUse, .refl _⟩
  | cons e es ih =>
      have hstep := coreStep_extends hc.coreOk hinUse (hkeeps e List.mem_cons_self)
      obtain ⟨hlast, hrest⟩ := ih (hc.step e) (hstep.inUse hinUse)
        (fun e' he' => hkeeps e' (List.mem_cons_of_mem e he'))
      exact ⟨hlast, hstep.trans hrest⟩

/-- What `chaos_open` leaves in the slot it returns. -/
theorem chaosOpen_conn {c : ChaosCore} {addr : UShort} {contact : List Byte} {nowMs : Millis}
    {h : Fin chaosMaxConns} (hopen : (chaosOpen c addr contact nowMs).1 = h.val) :
    (c.conns h).state = connFree ∧ contact.length ≤ chaosMaxData ∧
      (chaosOpen c addr contact nowMs).2.conns h = (connSendControlled
        (connNew ((c.uniquizer <<< 5) ||| BitVec.ofNat 16 h.val) addr c.localWindow
          c.initialPktNum nowMs) chopRfc contact nowMs).1 := by
  unfold chaosOpen at hopen ⊢
  split at hopen
  · exact absurd hopen (by simp)
  · next hlen =>
    cases hfree : (List.finRange chaosMaxConns).find? fun h =>
        (c.conns h).state = connFree with
    | none =>
        rw [hfree] at hopen
        exact absurd hopen (by simp)
    | some g =>
        rw [hfree] at hopen
        obtain rfl : g = h := Fin.ext (Int.ofNat_inj.mp hopen)
        refine ⟨by simpa using List.find?_some hfree, by omega, ?_⟩
        rw [if_neg hlen]
        simp only
        rw [(perform_spec _ g _ nowMs).1, Function.update_self]

/-- The bytes `chaos_send` reports as accepted on connection `h`. -/
def acceptedBy (h : Fin chaosMaxConns) (c : ChaosCore) (e : CoreEvent) : List Byte :=
  match e.call with
  | .chaosSend g data =>
      if g = h.val then data.take (chaosSend c g data e.nowMs).1 else []
  | _ => []

/-- One call numbers the bytes it accepts. -/
theorem coreStep_dataBytes {c : ChaosCore} (hc : CoreOk c) {h : Fin chaosMaxConns}
    (hinUse : (c.conns h).state ≠ connFree) {e : CoreEvent} (hkeeps : Keeps h e) :
    dataBytes ((coreStep c e).conns h).assigned =
      dataBytes (c.conns h).assigned ++ acceptedBy h c e := by
  by_cases hsend : ∃ data, e.call = .chaosSend h.val data
  · obtain ⟨data, hcall⟩ := hsend
    obtain ⟨hcount, hconn⟩ := coreStep_chaosSend c h data e.nowMs
    simp only [coreStep, acceptedBy, hcall, if_true]
    rw [hconn, connSend_dataBytes, hcount]
  · have hnot : ∀ data, e.call ≠ .chaosSend h.val data := fun d hd => hsend ⟨d, hd⟩
    have hnone : acceptedBy h c e = [] := by
      unfold acceptedBy
      split
      · next g data hcall =>
        refine if_neg ?_
        rintro rfl
        exact hnot data hcall
      · rfl
    obtain ⟨acts, hacts, hfrom⟩ := coreStep_acts hc.uniquizer e
    have hsame : dataPackets (acts h).1.assigned = dataPackets (c.conns h).assigned := by
      refine ((hacts h).chain.carried
        (I := fun k => SendOk k ∧ k.state ≠ connFree)
        (R := fun k r => dataPackets r.1.assigned = dataPackets k.assigned)
        (fun _ => rfl) (fun h1 h2 => h2.trans h1) ?_ ⟨hc.sendOk h, hinUse⟩).2
      rintro k r ⟨hk, hk'⟩ hp
      exact ⟨⟨hk.part hp, (hp.extends hk hk' hkeeps).inUse hk'⟩,
        hp.dataPackets_eq hk' hkeeps hnot⟩
    rw [hfrom.conns h, dataBytes, hsame, hnone, List.append_nil]
    rfl

/-! ### The law of the send stream -/

/-- Connection `h` before event `n` of the run. -/
def connAt (c : ChaosCore) (h : Fin chaosMaxConns) (es : List CoreEvent) (n : Nat) : ChaosConn :=
  (Exec.runTo coreStep c es n).conns h

/-- Connection `h` after the run. -/
def connAfter (c : ChaosCore) (h : Fin chaosMaxConns) (es : List CoreEvent) : ChaosConn :=
  (Exec.run coreStep c es).conns h

/-- Event `n` of the run emits `pkt`, a controlled packet of connection `h`. -/
def EmittedAt (c : ChaosCore) (h : Fin chaosMaxConns) (es : List CoreEvent) (n : Nat)
    (pkt : Packet) : Prop :=
  ∃ e, es[n]? = some e ∧ EmitsControlled (Exec.runTo coreStep c es n) e
    (connAfter c h es).localIndex pkt

/-- What holds of the stream connection `h` sends in the run `es`. -/
structure SendStreamLaw (c : ChaosCore) (h : Fin chaosMaxConns) (es : List CoreEvent) :
    Prop where
  /-- Numbers are assigned consecutively, the first one to the RFC. -/
  consecutive : ∀ i a, (connAfter c h es).assigned[i]? = some a →
    a.num = c.initialPktNum + BitVec.ofNat 16 i ∧ (i = 0 → a.opcode = chopRfc)
  /-- Every data packet was first sent inside the window of that moment. -/
  inWindow : ∀ a ∈ dataPackets (connAfter c h es).assigned,
    seqDiff a.num a.ackedNum ≤ a.remoteWindow ∧ a.remoteWindow ≤ chaosMaxWindow
  /-- The data packets hold exactly what `chaos_send` reported accepted. -/
  accepted : dataBytes (connAfter c h es).assigned =
    Exec.outputs coreStep (acceptedBy h) c es
  /-- At most one EOF is numbered. -/
  oneEof : eofCount (connAfter c h es).assigned ≤ 1
  /-- Once the open connection was finished no data is numbered. -/
  finished : ∀ n e, es[n]? = some e → e.call = .chaosFinish h.val →
    (connAt c h es n).state = connOpen →
      dataPackets (connAfter c h es).assigned = dataPackets (connAt c h es n).assigned
  /-- Every frame carries a numbered packet, one of the last window. -/
  carried : ∀ n pkt, EmittedAt c h es n pkt → ∃ i a,
    (connAfter c h es).assigned[i]? = some a ∧
      pkt.num = a.num ∧ pkt.opcode = a.opcode ∧ pkt.data = a.data ∧
      (connAt c h es n).assigned.length ≤ i + chaosMaxWindow.toNat ∧
      i < (connAt c h es (n + 1)).assigned.length
  /-- All frames for one number carry the same packet, until the numbers have
  gone round. -/
  unchanged : ∀ m n p q, m ≤ n → EmittedAt c h es m p → EmittedAt c h es n q →
    p.num = q.num → (connAt c h es (n + 1)).assigned.length + chaosMaxWindow.toNat ≤
      (connAt c h es m).assigned.length + 2 ^ 16 →
    p.opcode = q.opcode ∧ p.data = q.data

/-- Two places of the history less than a lap apart have different numbers. -/
theorem place_unique {c : ChaosCore} {as : List AssignedPkt}
    (hnum : ∀ i a, as[i]? = some a → a.num = c.initialPktNum + BitVec.ofNat 16 i)
    {i j : Nat} {a b : AssignedPkt} (ha : as[i]? = some a) (hb : as[j]? = some b)
    (heq : a.num = b.num) (hij : i < j + 2 ^ 16) (hji : j < i + 2 ^ 16) : i = j := by
  rw [hnum i a ha, hnum j b hb] at heq
  have hmod := congrArg BitVec.toNat (add_left_cancel heq)
  simp only [BitVec.toNat_ofNat] at hmod
  omega

/-- The history just after the open: the RFC alone. -/
theorem open_assigned {c : ChaosCore} {addr : UShort} {contact : List Byte} {nowMs : Millis}
    {h : Fin chaosMaxConns} (hopen : (chaosOpen c addr contact nowMs).1 = h.val) :
    ∃ a, ((chaosOpen c addr contact nowMs).2.conns h).assigned = [a] ∧
      a.opcode = chopRfc ∧ a.data = contact ∧ a.num = c.initialPktNum := by
  obtain ⟨-, -, hconn⟩ := chaosOpen_conn hopen
  rw [hconn]
  refine ⟨_, rfl, rfl, rfl, ?_⟩
  show c.initialPktNum - 1 + 1 = c.initialPktNum
  ring

/-- What `chaos_open` sends for its own slot is the RFC it numbered. -/
theorem opened_sends {e : CoreEvent} {addr : UShort} {contact : List Byte}
    (hcall : e.call = .chaosOpen addr contact) {h : Fin chaosMaxConns} {k : ChaosConn} {r : Act}
    (hr : ConnAct e h k r) : ∀ s ∈ r.2, ∃ a, r.1.assigned = [a] ∧
      s.num = a.num ∧ s.opcode = a.opcode ∧ s.data = a.data := by
  cases hr with
  | idle => simp
  | opened u w n call free uniq length =>
      intro s hs
      obtain ⟨hnum, hop, hdata, -⟩ := connSendControlled_sends _ _ _ _ s hs
      exact ⟨_, rfl, hnum, hop, hdata⟩
  | ticked call => exact absurd (hcall.symm.trans call) (by simp)
  | sent call alive => exact absurd (hcall.symm.trans call) (by simp)
  | finished call alive => exact absurd (hcall.symm.trans call) (by simp)
  | received call alive => exact absurd (hcall.symm.trans call) (by simp)
  | released call alive => exact absurd (hcall.symm.trans call) (by simp)
  | learned call live => exact absurd (hcall.symm.trans call) (by simp)
  | input call read slot known => exact absurd (hcall.symm.trans call) (by simp)
  | learnedInput call live read slot known => exact absurd (hcall.symm.trans call) (by simp)

section Law

variable {c : ChaosCore} {addr : UShort} {contact : List Byte} {nowMs : Millis}
  {h : Fin chaosMaxConns} {es : List CoreEvent}

/-- The run that opens the connection and goes on with `es`. -/
abbrev openThen (addr : UShort) (contact : List Byte) (nowMs : Millis)
    (es : List CoreEvent) : List CoreEvent := ⟨.chaosOpen addr contact, nowMs⟩ :: es

/-- After the open the connection stays in use and its history grows. -/
theorem connAt_extends (hc : Reachable c)
    (hopen : (chaosOpen c addr contact nowMs).1 = h.val) (hkeeps : ∀ e ∈ es, Keeps h e)
    (n : Nat) :
    let run := openThen addr contact nowMs es
    Reachable (Exec.runTo coreStep c run (n + 1)) ∧
      (connAt c h run (n + 1)).state ≠ connFree ∧
      Extends (connAt c h run (n + 1)) (connAfter c h run, []) := by
  intro run
  have hreach : Reachable (Exec.runTo coreStep c run (n + 1)) := hc.run _
  have hinUse : ((chaosOpen c addr contact nowMs).2.conns h).state ≠ connFree := by
    obtain ⟨-, -, hconn⟩ := chaosOpen_conn hopen
    rw [hconn]
    nofun
  have hhead := run_extends (hc.step ⟨.chaosOpen addr contact, nowMs⟩) hinUse
    (es.take n) fun e he => hkeeps e (List.mem_of_mem_take he)
  have htail := run_extends hreach hhead.1 (run.drop (n + 1))
    fun e he => hkeeps e (List.mem_of_mem_drop he)
  rw [Exec.run_drop] at htail
  exact ⟨hreach, hhead.1, htail.2⟩

/-- The history never shrinks. -/
theorem connAt_grows (hc : Reachable c)
    (hopen : (chaosOpen c addr contact nowMs).1 = h.val) (hkeeps : ∀ e ∈ es, Keeps h e)
    {m n : Nat} (hmn : m ≤ n) :
    (connAt c h (openThen addr contact nowMs es) m).assigned.length ≤
      (connAt c h (openThen addr contact nowMs es) n).assigned.length := by
  cases m with
  | zero =>
      have hblank : (connAt c h (openThen addr contact nowMs es) 0).assigned = [] :=
        (hc.coreOk.index h).blank (chaosOpen_conn hopen).1
      simp [hblank]
  | succ m =>
      obtain ⟨hreach, hinUse, -⟩ := connAt_extends hc hopen hkeeps m
      have hrun := run_extends hreach hinUse
        (((openThen addr contact nowMs es).drop (m + 1)).take (n - (m + 1)))
        fun e he => hkeeps e (List.mem_of_mem_drop (List.mem_of_mem_take he))
      rw [Exec.runTo_drop _ _ hmn] at hrun
      exact hrun.2.history.length_le

/-- The history starts with the RFC. -/
theorem connAfter_rfc (hc : Reachable c)
    (hopen : (chaosOpen c addr contact nowMs).1 = h.val) (hkeeps : ∀ e ∈ es, Keeps h e) :
    ∃ a, (connAfter c h (openThen addr contact nowMs es)).assigned[0]? = some a ∧
      a.opcode = chopRfc ∧ a.data = contact ∧ a.num = c.initialPktNum := by
  obtain ⟨a, hopened, hop, hdata, hnum⟩ := open_assigned hopen
  obtain ⟨-, -, hext⟩ := connAt_extends hc hopen hkeeps 0
  have hpre : [a] <+: (connAfter c h (openThen addr contact nowMs es)).assigned := by
    rw [← hopened]
    exact hext.history
  obtain ⟨bs, hbs⟩ := hpre
  exact ⟨a, by rw [← hbs]; rfl, hop, hdata, hnum⟩

/-- Numbers count up from the RFC's. -/
theorem connAfter_consecutive (hc : Reachable c)
    (hopen : (chaosOpen c addr contact nowMs).1 = h.val) (hkeeps : ∀ e ∈ es, Keeps h e)
    (i : Nat) (a : AssignedPkt)
    (ha : (connAfter c h (openThen addr contact nowMs es)).assigned[i]? = some a) :
    a.num = c.initialPktNum + BitVec.ofNat 16 i := by
  obtain ⟨a₀, ha₀, -, -, hnum₀⟩ := connAfter_rfc hc hopen hkeeps
  have hnumbered := ((hc.run (openThen addr contact nowMs es)).coreOk.history h).numberedTo.numbered
  -- counted from the end, the RFC and `a` are `i` places apart
  have hplace : ∀ j b, (connAfter c h (openThen addr contact nowMs es)).assigned[j]? = some b →
      b.num = (connAfter c h (openThen addr contact nowMs es)).sentNum - BitVec.ofNat 16
        ((connAfter c h (openThen addr contact nowMs es)).assigned.length - 1 - j) := by
    intro j b hb
    obtain ⟨hlt, -⟩ := List.getElem?_eq_some_iff.mp hb
    refine hnumbered _ b ?_
    rw [List.getElem?_reverse (by show _ < (connAfter c h _).assigned.length; omega)]
    rw [← hb]
    congr 1
    show (connAfter c h _).assigned.length - 1 - _ = j
    omega
  obtain ⟨hlt, -⟩ := List.getElem?_eq_some_iff.mp ha
  have hfirst := hplace 0 a₀ ha₀
  rw [hplace i a ha, ← hnum₀, hfirst]
  generalize (connAfter c h (openThen addr contact nowMs es)).assigned.length = len at *
  have hsplit : BitVec.ofNat 16 (len - 1 - 0) = BitVec.ofNat 16 (len - 1 - i) +
      BitVec.ofNat 16 i := by
    rw [← BitVec.ofNat_add]
    congr 1
    omega
  rw [hsplit]
  ring

/-- Every emitted packet of the connection carries an entry of the history. -/
theorem connAfter_carried (hc : Reachable c)
    (hopen : (chaosOpen c addr contact nowMs).1 = h.val) (hkeeps : ∀ e ∈ es, Keeps h e)
    (n : Nat) (pkt : Packet) (hpkt : EmittedAt c h (openThen addr contact nowMs es) n pkt) :
    ∃ i a, (connAfter c h (openThen addr contact nowMs es)).assigned[i]? = some a ∧
      pkt.num = a.num ∧ pkt.opcode = a.opcode ∧ pkt.data = a.data ∧
      (connAt c h (openThen addr contact nowMs es) n).assigned.length ≤
        i + chaosMaxWindow.toNat ∧
      i < (connAt c h (openThen addr contact nowMs es) (n + 1)).assigned.length := by
  obtain ⟨e, he, hemits⟩ := hpkt
  have hnext := Exec.runTo_succ coreStep c he
  obtain ⟨-, -, hext⟩ := connAt_extends hc hopen hkeeps n
  -- an entry present after the event stays
  have hstays : ∀ i a, (connAt c h (openThen addr contact nowMs es) (n + 1)).assigned[i]? =
      some a → (connAfter c h (openThen addr contact nowMs es)).assigned[i]? = some a ∧
        i < (connAt c h (openThen addr contact nowMs es) (n + 1)).assigned.length := by
    intro i a ha
    obtain ⟨bs, hbs⟩ := hext.history
    obtain ⟨hlt, -⟩ := List.getElem?_eq_some_iff.mp ha
    refine ⟨?_, hlt⟩
    show (connAfter c h _, ([] : List RawSend)).1.assigned[i]? = some a
    rw [← hbs, List.getElem?_append_left hlt, ha]
  cases n with
  | zero =>
      obtain rfl : _ = e := Option.some.inj he
      obtain ⟨acts, hacts, hfrom⟩ :=
        coreStep_acts hc.coreOk.uniquizer ⟨.chaosOpen addr contact, nowMs⟩
      have hindex := hc.run (openThen addr contact nowMs es) |>.coreOk.index h
      have hinUse := (connAt_extends hc hopen hkeeps 0).2.2.inUse
        (connAt_extends hc hopen hkeeps 0).2.1
      obtain ⟨f, hf, hframe, hctl⟩ := hemits
      obtain ⟨s, hs, hnum, hop, hdata⟩ := emitted_source hc.coreOk hacts hfrom
        (hindex.nonzero hinUse) hf hframe (Or.inl hctl)
      rw [hindex.slot hinUse] at hs
      obtain ⟨a, hone, hsnum, hsop, hsdata⟩ := opened_sends rfl (hacts h) s hs
      have hafter : (connAt c h (openThen addr contact nowMs es) 1).assigned = [a] := by
        show ((coreStep c ⟨.chaosOpen addr contact, nowMs⟩).conns h).assigned = [a]
        rw [hfrom.conns h, hone]
      obtain ⟨hget, hlt⟩ := hstays 0 a (by rw [hafter]; rfl)
      have hblank : (connAt c h (openThen addr contact nowMs es) 0).assigned = [] :=
        (hc.coreOk.index h).blank (chaosOpen_conn hopen).1
      obtain ⟨a', hopened, -, hdata', -⟩ := open_assigned hopen
      have haa : a' = a := by
        have hsame : [a'] = [a] := hopened.symm.trans hafter
        simpa using hsame
      refine ⟨0, a, hget, hnum.trans hsnum, hop.trans hsop, ?_, by rw [hblank]; simp, hlt⟩
      rw [hdata, hsdata, ← haa, hdata']
      exact List.take_of_length_le (chaosOpen_conn hopen).2.1
  | succ n =>
      obtain ⟨hreach, hinUse, hsofar⟩ := connAt_extends hc hopen hkeeps n
      have hlocal : (connAfter c h (openThen addr contact nowMs es)).localIndex =
          (connAt c h (openThen addr contact nowMs es) (n + 1)).localIndex := hsofar.localIndex
      rw [hlocal] at hemits
      have hkeep : Keeps h e := hkeeps e (List.mem_of_getElem? (show es[n]? = some e from he))
      obtain ⟨i, a, ha, hnum, hop, hdata, hle⟩ :=
        emitsControlled_assigned hreach.coreOk hinUse hkeep hemits
      obtain ⟨hget, hlt⟩ := hstays i a (by rw [connAt, hnext]; exact ha)
      exact ⟨i, a, hget, hnum, hop, hdata, hle, hlt⟩

/-- Every run from the open to the release of a connection obeys the law. -/
theorem send_stream_law (hc : Reachable c)
    (hopen : (chaosOpen c addr contact nowMs).1 = h.val) (hkeeps : ∀ e ∈ es, Keeps h e) :
    SendStreamLaw c h (openThen addr contact nowMs es) := by
  have hcons := connAfter_consecutive hc hopen hkeeps
  have hcarried := connAfter_carried hc hopen hkeeps
  have hhistory := (hc.run (openThen addr contact nowMs es)).coreOk.history h
  have hext := connAt_extends hc hopen hkeeps
  obtain ⟨a₀, ha₀, hrfc, -, -⟩ := connAfter_rfc hc hopen hkeeps
  refine ⟨?_, ?_, ?_, ?_, ?_, hcarried, ?_⟩
  · intro i a ha
    refine ⟨hcons i a ha, ?_⟩
    rintro rfl
    rw [ha₀] at ha
    rw [← Option.some.inj ha, hrfc]
  · intro a ha
    exact hhistory.numberedTo.windows a (List.mem_of_mem_filter ha)
  · -- what the open accepts is nothing; each later call numbers what it accepts
    have hnone : dataBytes ((chaosOpen c addr contact nowMs).2.conns h).assigned = [] := by
      obtain ⟨a, hopened, hop, -⟩ := open_assigned hopen
      have hnot : ¬ chopDat ≤ a.opcode := by
        rw [hop]
        decide
      rw [hopened]
      simp [dataBytes, dataPackets, hnot]
    have hstart : Reachable (coreStep c ⟨.chaosOpen addr contact, nowMs⟩) ∧
        ((coreStep c ⟨.chaosOpen addr contact, nowMs⟩).conns h).state ≠ connFree ∧
        dataBytes ((coreStep c ⟨.chaosOpen addr contact, nowMs⟩).conns h).assigned = [] :=
      ⟨hc.step _, (hext 0).2.1, hnone⟩
    have hall : Exec.Allowed coreStep (fun _ e => Keeps h e)
        (coreStep c ⟨.chaosOpen addr contact, nowMs⟩) es :=
      Exec.allowed_of_forall fun e he _ => hkeeps e he
    have hrun := Exec.outputs_invariant
      (I := fun d bs => Reachable d ∧ (d.conns h).state ≠ connFree ∧
        dataBytes (d.conns h).assigned = bs)
      (by
        intro d e bs hkeep hd
        obtain ⟨hd, hinUse, hbytes⟩ := hd
        exact ⟨hd.step e, (coreStep_extends hd.coreOk hinUse hkeep).inUse hinUse,
          by rw [coreStep_dataBytes hd.coreOk hinUse hkeep, hbytes]⟩) hall hstart
    exact hrun.2.2
  · have heofs : eofCount (connAfter c h (openThen addr contact nowMs es)).assigned = _ :=
      hhistory.eofs
    rw [heofs]
    split <;> decide
  · intro n e he hcall hopened
    cases n with
    | zero =>
        obtain rfl : _ = e := Option.some.inj he
        cases hcall
    | succ n =>
        have hnext := Exec.runTo_succ coreStep c he
        obtain ⟨hwanted, hsame⟩ := connFinish_wanted e.nowMs hopened
        rw [connAt, ← coreStep_chaosFinish hcall] at hwanted hsame
        have hafter := (hext (n + 1)).2.2.frozen (by
          rw [connAt, hnext]
          exact hwanted)
        rw [connAt, hnext, hsame] at hafter
        exact hafter
  · intro m n p q hmn hp hq hnum hlap
    obtain ⟨i, a, ha, hpnum, hpop, hpdata, hlo, hhi⟩ := hcarried m p hp
    obtain ⟨j, b, hb, hqnum, hqop, hqdata, hlo', hhi'⟩ := hcarried n q hq
    have h1 := connAt_grows hc hopen hkeeps hmn
    have h2 := connAt_grows hc hopen hkeeps (show m + 1 ≤ n + 1 by omega)
    have hij : i = j := place_unique hcons ha hb (hpnum.symm.trans (hnum.trans hqnum))
      (by omega) (by omega)
    subst hij
    obtain rfl : a = b := Option.some.inj (ha.symm.trans hb)
    exact ⟨hpop.trans hqop.symm, hpdata.trans hqdata.symm⟩

end Law

/-- A run that finishes the connection before the OPN arrives. -/
def finishEarly : List CoreEvent :=
  [⟨.chaosFinish 0, 1001⟩, ⟨.input sampleOpn, 1002⟩, ⟨.chaosSend 0 (bytesOf "hello"), 1003⟩]

theorem send_stream_law_sample : SendStreamLaw sampleCore sampleConn
    (openThen 0o405 (bytesOf "TELNET") 1000 finishEarly) := by
  refine send_stream_law sampleCore_reachable (by decide +kernel) ?_
  intro e he reason
  simp only [finishEarly, List.mem_cons, List.not_mem_nil, or_false] at he
  rcases he with rfl | rfl | rfl <;> nofun

/-- `chaos_finish` on a connection that is not open yet is ignored: data is
numbered after it. -/
theorem finish_before_open_ignored :
    let run := openThen 0o405 (bytesOf "TELNET") 1000 finishEarly
    (chaosOpen sampleCore 0o405 (bytesOf "TELNET") 1000).1 = sampleConn.val ∧
      ¬ ∀ n e, run[n]? = some e → e.call = .chaosFinish sampleConn.val →
        dataPackets (connAfter sampleCore sampleConn run).assigned =
          dataPackets (connAt sampleCore sampleConn run n).assigned := by
  refine ⟨by decide +kernel, fun h => ?_⟩
  have hsame := h 1 ⟨.chaosFinish 0, 1001⟩ rfl rfl
  exact absurd hsame (by decide +kernel)

end Chaos
