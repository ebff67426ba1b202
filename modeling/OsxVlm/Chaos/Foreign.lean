import OsxVlm.Chaos.ArpCache
import OsxVlm.Chaos.Frame

/-!
# Frames that belong to another connection

A connection takes a packet that names its two ends.  Any other frame can do one
thing to it: teach a new hardware address for its remote host, on which
`arp_learn` sends its queued packets again.
-/

namespace Chaos

open ChaosConnState ChaosCloseKind

/-! ### Sending the queued packets again -/

/-- `k'` is `k` with some queued packets sent again at `nowMs`, and with them the
acknowledgement. -/
structure Resent (nowMs : Millis) (k k' : ChaosConn) : Prop where
  fields : SentOnly k k'
  sendq : ∀ s, k'.sendq s = k.sendq s ∨ k'.sendq s = { k.sendq s with sentAtMs := nowMs }
  acks : (k'.lastAckSent = k.lastAckSent ∧ k'.ackDueMs = k.ackDueMs) ∨
    (k'.lastAckSent = k.readNum ∧ k'.ackDueMs = 0)

theorem Resent.refl (nowMs : Millis) (k : ChaosConn) : Resent nowMs k k :=
  ⟨.refl k, fun _ => Or.inl rfl, Or.inl ⟨rfl, rfl⟩⟩

/-- One more packet. -/
theorem Resent.transmit {nowMs : Millis} {k k' : ChaosConn} (h : Resent nowMs k k')
    (s : Fin chaosRing) : Resent nowMs k (connTransmit k' s nowMs).1 := by
  have hread : k'.readNum = k.readNum := by rw [h.fields]
  refine ⟨h.fields.trans (connTransmit_sentOnly k' s nowMs), fun t => ?_, Or.inr ⟨hread, rfl⟩⟩
  by_cases hts : t = s
  · subst hts
    right
    simp only [connTransmit, Function.update_self]
    rcases h.sendq t with hq | hq
    · rw [hq]
    · rw [hq]
  · simp only [connTransmit, Function.update_of_ne hts]
    exact h.sendq t

theorem connRetransmit_resent (k : ChaosConn) (nowMs minAgeMs : Millis) :
    Resent nowMs k (connRetransmit k nowMs minAgeMs).1 := by
  refine (foldl_andThen (P := Resent nowMs k) (Q := fun _ => True) (fun n _ k' hk' => ?_)
    (.refl nowMs k)).1
  refine ⟨?_, fun _ _ => trivial⟩
  unfold retransmitOne
  simp only
  split
  · exact hk'
  · split
    · exact hk'
    · exact hk'.transmit _

/-! ### What learning does to a connection -/

/-- The entry of an address holds `mac` exactly when a lookup says so. -/
theorem arpKnown_iff (c : ChaosCore) (addr : UShort) (mac : Mac) :
    arpKnown c addr mac = true ↔ chaosArpLookup c addr = some mac := by
  unfold arpKnown chaosArpLookup arpFindCreate
  cases arpFind c addr with
  | some i =>
      cases hvalid : (c.arp i).valid with
      | false => simp [hvalid]
      | true => simp [hvalid]
  | none => simp

/-- The frame teaches a hardware address the table does not hold for `addr`. -/
def TeachesNew (c : ChaosCore) (frame : List Byte) (addr : UShort) : Prop :=
  ∃ mac, frameTeaches c.myAddr c.myMac frame = some (addr, mac) ∧
    chaosArpLookup c addr ≠ some mac

/-- Learning sends packets again on the connections to that host, if what is
taught is new, and does nothing else to any connection. -/
theorem arpLearn_conn (c : ChaosCore) (addr : UShort) (mac : Mac) (nowMs : Millis)
    (h : Fin chaosMaxConns) :
    (arpLearn c addr mac nowMs).conns h = c.conns h ∨
      ((c.conns h).remoteAddr = addr ∧ heeded c.myAddr (addr, mac) = some (addr, mac) ∧
        chaosArpLookup c addr ≠ some mac ∧
        Resent nowMs (c.conns h) ((arpLearn c addr mac nowMs).conns h)) := by
  have hfind := (arpFindCreate_spec c addr).1
  unfold arpLearn
  split
  · exact Or.inl rfl
  · next hno =>
    have hheeded : heeded c.myAddr (addr, mac) = some (addr, mac) := if_neg hno
    simp only
    split
    · exact Or.inl (congrFun hfind h)
    · next hnew =>
      have hlookup : chaosArpLookup c addr ≠ some mac := by
        rw [Ne, ← arpKnown_iff]
        exact hnew
      rw [(performEach_spec _ _ nowMs).1 h, setArp_conns, hfind]
      unfold learnConn
      split
      · next hlive =>
        exact Or.inr ⟨hlive.2, hheeded, hlookup, connRetransmit_resent (c.conns h) nowMs 0⟩
      · exact Or.inl rfl

/-! ### Whose a frame is -/

/-- The answers to an RFC. -/
def answersRfc (opcode : Byte) : Prop :=
  opcode = chopOpn ∨ opcode = chopCls ∨ opcode = chopLos ∨ opcode = chopAns ∨ opcode = chopFwd

/-- The frame is a Chaos packet for this host that names both ends of the
connection; while the RFC has no answer, an answer that names its own end and the
remote host. -/
def BelongsTo (myAddr : UShort) (k : ChaosConn) (frame : List Byte) : Prop :=
  ∃ pkt, etherType frame = chaosEthertype ∧ readPacket frame = some pkt ∧
    pkt.destAddr = myAddr ∧ pkt.destIndex = k.localIndex ∧ pkt.srcAddr = k.remoteAddr ∧
    if k.state = connRfcSent then answersRfc pkt.opcode else pkt.srcIndex = k.remoteIndex

/-- From `k` to `k'` a connection stays as it is, but that a new hardware address
for its remote host sends its queued packets again, and that an RFC not answered
yet notes the time its host was heard. -/
structure Undisturbed (c : ChaosCore) (frame : List Byte) (nowMs : Millis)
    (k k' : ChaosConn) : Prop where
  resent : Resent nowMs { k with lastHeardMs := k'.lastHeardMs } k'
  heard : k'.lastHeardMs = k.lastHeardMs ∨ (k.state = connRfcSent ∧ k'.lastHeardMs = nowMs)
  taught : k' = { k with lastHeardMs := k'.lastHeardMs } ∨ TeachesNew c frame k.remoteAddr

theorem Undisturbed.same (c : ChaosCore) (frame : List Byte) (nowMs : Millis)
    (k : ChaosConn) : Undisturbed c frame nowMs k k :=
  ⟨.refl nowMs k, Or.inl rfl, Or.inl rfl⟩

/-- Queued packets sent again. -/
theorem Undisturbed.of_resent {c : ChaosCore} {frame : List Byte} {nowMs : Millis}
    {k k' : ChaosConn} (hresent : Resent nowMs k k') (hnew : TeachesNew c frame k.remoteAddr) :
    Undisturbed c frame nowMs k k' := by
  have hheard : k'.lastHeardMs = k.lastHeardMs := by rw [hresent.fields]
  have hk : ({ k with lastHeardMs := k'.lastHeardMs } : ChaosConn) = k := by rw [hheard]
  refine ⟨?_, Or.inl hheard, Or.inr hnew⟩
  rw [hk]
  exact hresent

/-- Then the host of an unanswered RFC is heard. -/
theorem Undisturbed.heardFrom {c : ChaosCore} {frame : List Byte} {nowMs : Millis}
    {k k' : ChaosConn} (h : Undisturbed c frame nowMs k k') (hstate : k.state = connRfcSent) :
    Undisturbed c frame nowMs k { k' with lastHeardMs := nowMs } := by
  refine ⟨⟨?_, h.resent.sendq, h.resent.acks⟩, Or.inr ⟨hstate, rfl⟩, ?_⟩
  · have hfields := h.resent.fields
    unfold SentOnly at hfields ⊢
    rw [hfields]
  · rcases h.taught with hk | hnew
    · left
      rw [hk]
    · exact Or.inr hnew

/-- Learning the address of a chaos-ARP frame or of a packet's sender. -/
theorem arpLearn_undisturbed {c : ChaosCore} {frame : List Byte} {addr : UShort} {mac : Mac}
    (nowMs : Millis)
    (hteaches : heeded c.myAddr (addr, mac) = some (addr, mac) →
      frameTeaches c.myAddr c.myMac frame = some (addr, mac)) (h : Fin chaosMaxConns) :
    Undisturbed c frame nowMs (c.conns h) ((arpLearn c addr mac nowMs).conns h) := by
  rcases arpLearn_conn c addr mac nowMs h with hsame | ⟨haddr, hheeded, hnew, hresent⟩
  · rw [hsame]
    exact .same c frame nowMs _
  · refine .of_resent hresent ⟨mac, ?_, ?_⟩
    · rw [haddr]
      exact hteaches hheeded
    · rw [haddr]
      exact hnew

/-- What only the connection of the packet's own slot can see: a packet of another
connection leaves all others alone, and in the slot it names it must name the
connection. -/
theorem dispatchPacket_conn (c : ChaosCore) (pkt : Packet) (nowMs : Millis)
    (h : Fin chaosMaxConns) :
    (dispatchPacket c pkt nowMs).conns h = c.conns h ∨
      (h = connSlot pkt.destIndex ∧ pkt.destAddr = c.myAddr ∧ ¬ noSuchConn (c.conns h) pkt ∧
        (dispatchPacket c pkt nowMs).conns h = (connInput (c.conns h) pkt nowMs).1) := by
  by_cases haddr : pkt.destAddr = c.myAddr
  · rcases dispatchPacket_cases c pkt nowMs with ⟨hconns, -⟩ | ⟨hknown, hdisp⟩
    · exact Or.inl (congrFun hconns h)
    · rw [hdisp, (perform_spec c _ _ nowMs).1]
      by_cases hslot : h = connSlot pkt.destIndex
      · subst hslot
        rw [Function.update_self]
        exact Or.inr ⟨rfl, haddr, hknown, rfl⟩
      · exact Or.inl (Function.update_of_ne hslot _ _)
  · left
    rw [dispatchPacket, if_pos haddr]

/-- A packet for an unanswered RFC that is no answer. -/
theorem connInput_unanswered {k : ChaosConn} {pkt : Packet} (hstate : k.state = connRfcSent)
    (hno : ¬ answersRfc pkt.opcode) (nowMs : Millis) :
    (connInput k pkt nowMs).1 = { k with lastHeardMs := nowMs } := by
  have hops := hno
  simp only [answersRfc, not_or] at hops
  obtain ⟨hopn, hcls, hlos, hans, hfwd⟩ := hops
  unfold connInput
  simp only [hstate]
  unfold inputRfcSent
  rw [if_neg hopn, if_neg hcls, if_neg hlos, if_neg hans, if_neg hfwd]

/-- `handle_chaos`: what learning the sender leaves, the packet meets. -/
theorem handleChaos_undisturbed {c : ChaosCore} {frame : List Byte} {pkt : Packet}
    (nowMs : Millis) (htype : etherType frame = chaosEthertype)
    (hread : readPacket frame = some pkt)
    (hteaches : pkt.srcAddr >>> 8 = c.myAddr >>> 8 ∧ byteAt frame 6 &&& 1 = 0 →
      heeded c.myAddr (pkt.srcAddr, macAt frame 6) = some (pkt.srcAddr, macAt frame 6) →
      frameTeaches c.myAddr c.myMac frame = some (pkt.srcAddr, macAt frame 6))
    (h : Fin chaosMaxConns) :
    Undisturbed c frame nowMs (c.conns h) ((handleChaos c frame nowMs).conns h) ∨
      (h = connSlot pkt.destIndex ∧ BelongsTo c.myAddr (c.conns h) frame) := by
  obtain ⟨d, hd⟩ : ∃ d, learnSender c frame pkt nowMs = d := ⟨_, rfl⟩
  have hlearn : Undisturbed c frame nowMs (c.conns h) (d.conns h) := by
    rw [← hd]
    unfold learnSender
    split
    · next hsubnet => exact arpLearn_undisturbed nowMs (hteaches hsubnet) h
    · exact .same c frame nowMs _
  have hmy : d.myAddr = c.myAddr := by
    rw [← hd]
    unfold learnSender
    split
    · exact (arpLearn_config c _ _ nowMs).1
    · rfl
  have hhandle : handleChaos c frame nowMs = dispatchPacket d pkt nowMs := by
    rw [handleChaos, hread, ← hd]
  rw [hhandle]
  rcases dispatchPacket_conn d pkt nowMs h with hsame | ⟨hslot, haddr, hknown, hinput⟩
  · rw [hsame]
    exact Or.inl hlearn
  · -- the packet names this connection
    have hfields := hlearn.resent.fields
    have hstate : (d.conns h).state = (c.conns h).state := by rw [hfields]
    have hlocal : (d.conns h).localIndex = (c.conns h).localIndex := by rw [hfields]
    have hremote : (d.conns h).remoteAddr = (c.conns h).remoteAddr := by rw [hfields]
    have hindex : (d.conns h).remoteIndex = (c.conns h).remoteIndex := by rw [hfields]
    simp only [noSuchConn, hstate, hlocal, hremote, hindex, not_or, not_not, not_and] at hknown
    obtain ⟨-, hlocalEq, hremoteEq, hindexEq⟩ := hknown
    by_cases hrfc : (c.conns h).state = connRfcSent
    · by_cases hans : answersRfc pkt.opcode
      · refine Or.inr ⟨hslot, pkt, htype, hread, haddr.trans hmy, hlocalEq.symm,
          hremoteEq.symm, ?_⟩
        rw [if_pos hrfc]
        exact hans
      · left
        rw [hinput, connInput_unanswered (hstate.trans hrfc) hans]
        exact hlearn.heardFrom hrfc
    · refine Or.inr ⟨hslot, pkt, htype, hread, haddr.trans hmy, hlocalEq.symm,
        hremoteEq.symm, ?_⟩
      rw [if_neg hrfc]
      exact (hindexEq hrfc).symm

/-- The one slot a frame may name. -/
def frameSlot (frame : List Byte) : Fin chaosMaxConns :=
  match readPacket frame with
  | none => connSlot 0
  | some pkt => connSlot pkt.destIndex

/-- **One received frame.**  It leaves every connection undisturbed, but the one
in the slot it names, and that one too unless the frame belongs to it. -/
theorem chaosCoreInput_undisturbed (c : ChaosCore) (frame : List Byte) (nowMs : Millis)
    (h : Fin chaosMaxConns) :
    Undisturbed c frame nowMs (c.conns h) ((chaosCoreInput c frame nowMs).conns h) ∨
      (h = frameSlot frame ∧ BelongsTo c.myAddr (c.conns h) frame) := by
  have hsame : Undisturbed c frame nowMs (c.conns h) (c.conns h) := .same c frame nowMs _
  unfold chaosCoreInput
  split
  · exact Or.inl hsame
  · next hlen =>
    split
    · exact Or.inl hsame
    · next htype =>
      split
      · exact Or.inl hsame
      · next hmac =>
        split
        · next harp =>
          left
          unfold handleArp
          split
          · exact hsame
          · next hsize =>
            split
            · exact hsame
            · next hheader =>
              have hlearn := @arpLearn_undisturbed c frame
                (get16At frame 28) (macAt frame 22) nowMs (fun hheeded => by
                  unfold frameTeaches
                  rw [if_neg hlen, if_neg htype, if_neg hmac, if_pos harp, if_neg hsize,
                    if_neg hheader]
                  exact hheeded) h
              simp only
              split
              · exact hlearn
              · exact hlearn
        · next harp =>
          have hchaos : etherType frame = chaosEthertype := by
            by_contra hne
            exact htype ⟨hne, harp⟩
          cases hread : readPacket frame with
          | none =>
              left
              rw [handleChaos, hread]
              exact hsame
          | some pkt =>
              have hslot : frameSlot frame = connSlot pkt.destIndex := by rw [frameSlot, hread]
              rw [hslot]
              refine handleChaos_undisturbed nowMs hchaos hread (fun hsubnet hheeded => ?_) h
              unfold frameTeaches
              rw [if_neg hlen, if_neg htype, if_neg hmac, if_neg harp, hread]
              simp only
              rw [if_pos hsubnet]
              exact hheeded

/-- **Foreign frames do not disturb a connection.**  A received byte string that
does not belong to a connection leaves it undisturbed, and any byte string leaves
all connections but one undisturbed. -/
theorem foreignFrame_undisturbed (c : ChaosCore) (frame : List Byte) (nowMs : Millis) :
    (∀ h, ¬ BelongsTo c.myAddr (c.conns h) frame →
      Undisturbed c frame nowMs (c.conns h) ((chaosCoreInput c frame nowMs).conns h)) ∧
    ∃ h, ∀ g, g ≠ h →
      Undisturbed c frame nowMs (c.conns g) ((chaosCoreInput c frame nowMs).conns g) := by
  refine ⟨fun h hforeign => ?_, frameSlot frame, fun g hg => ?_⟩
  · rcases chaosCoreInput_undisturbed c frame nowMs h with hundisturbed | ⟨-, hbelongs⟩
    · exact hundisturbed
    · exact absurd hbelongs hforeign
  · rcases chaosCoreInput_undisturbed c frame nowMs g with hundisturbed | ⟨hslot, -⟩
    · exact hundisturbed
    · exact absurd hslot hg

/-- The sample connection, opened; a packet of its own is queued, and one of its
host has been read and not acknowledged yet. -/
def resendRun : List CoreEvent :=
  [sampleOpen, ⟨.input sampleOpn, 1100⟩, ⟨.chaosSend 0 (bytesOf "A"), 1500⟩,
    ⟨.input (sampleFrame chopDat 0x0501 0x0100 (bytesOf "B")), 1550⟩, ⟨.chaosRecv 0 1, 1600⟩]

/-- A request for `STATUS` from the same host, by another interface. -/
def statusFrame : List Byte :=
  chaosFrame (Vector.replicate 6 2) (Vector.replicate 6 6) 0o405
    { opcode := chopRfc, destAddr := 0o404, destIndex := 0, srcIndex := 0x78, num := 1, ack := 0,
      data := bytesOf "STATUS" }

/-- That Chaos frame is no packet of the connection, and sends its queued packet
again, with a new acknowledgement. -/
theorem foreignFrame_resends :
    let c := Exec.run coreStep sampleCore resendRun
    let k := c.conns sampleConn
    let k' := (chaosCoreInput c statusFrame 1700).conns sampleConn
    Reachable c ∧ k.state = connOpen ∧ etherType statusFrame = chaosEthertype ∧
      ¬ BelongsTo c.myAddr k statusFrame ∧
      (k.lastAckSent = 0x0500 ∧ k'.lastAckSent = 0x0501) ∧
      (k.sendq (ringSlot 0x0101)).present ∧
      (k.sendq (ringSlot 0x0101)).sentAtMs = 1500 ∧
      (k'.sendq (ringSlot 0x0101)).sentAtMs = 1700 := by
  intro c k k'
  have hreach : Reachable c :=
    ⟨0o404, Vector.replicate 6 2, bytesOf "GENERA", 13, 0x0100, resendRun, rfl⟩
  have hlocal : k.localIndex = 0x20 := by decide +kernel
  refine ⟨hreach, by decide +kernel, etherType_chaosFrame _ _ _ _, ?_, by decide +kernel,
    by decide +kernel, by decide +kernel, by decide +kernel⟩
  rintro ⟨pkt, -, hread, -, hindex, -⟩
  rw [statusFrame, readPacket_chaosFrame] at hread
  obtain rfl := Option.some.inj hread
  rw [hlocal] at hindex
  exact absurd hindex (by decide)

end Chaos
