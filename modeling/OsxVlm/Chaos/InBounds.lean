import OsxVlm.Chaos.Checked

/-!
# The input path stays within its arrays

Every function of `Chaos.Checked` succeeds, and computes what the function of the
same name computes.  What a length in a received frame is compared with before it
is used stands in `Reading`.
-/

namespace Chaos

open Bounded ChaosConnState ChaosCloseKind

/-! ### Loads from a frame -/

theorem load_byteAt {p : List Byte} {i : Nat} (h : i < p.length) :
    load p i = some (byteAt p i) := load_of_lt h 0

theorem checked_get16 {p : List Byte} {i : Nat} (h : i + 1 < p.length) :
    Checked.chaosGet16 p i = some (get16At p i) := by
  rw [Checked.chaosGet16, load_byteAt (by omega), load_byteAt h]
  rfl

theorem checked_macFrom {p : List Byte} {i : Nat} (h : i + 6 ≤ p.length) :
    Checked.macFrom p i = some (macAt p i) := by
  rw [Checked.macFrom, copyOut_of_le h, Option.bind_eq_bind, Option.bind_some, macAt,
    Option.some.injEq]
  ext j hj
  simp only [Vector.getElem_ofFn, byteAt, List.getD_eq_getElem?_getD, List.getElem?_take,
    if_pos hj, List.getElem?_drop]

/-! ### Table indexes -/

theorem slot_ring (n : UShort) : slot chaosRing (n &&& 63).toNat = some (ringSlot n) :=
  slot_val (ringSlot n)

theorem slot_conn (n : UShort) : slot chaosMaxConns (n &&& 31).toNat = some (connSlot n) :=
  slot_val (connSlot n)

theorem checked_arpScan (c : ChaosCore) (addr : UShort) :
    Checked.arpScan c addr (List.range chaosArpEntries) = some (arpFind c addr) := by
  have key : ∀ is : List (Fin chaosArpEntries), Checked.arpScan c addr (is.map Fin.val) =
      some (is.find? fun i => ((c.arp i).valid || (c.arp i).requested) &&
        (c.arp i).addr = addr) := by
    intro is
    induction is with
    | nil => rfl
    | cons i is ih =>
        rw [List.map_cons, Checked.arpScan, slot_val, Option.bind_eq_bind, Option.bind_some, ih,
          List.find?_cons]
        split
        · next hit => rw [hit]
        · next hno => rw [Bool.eq_false_iff.mpr hno]
  rw [← List.map_coe_finRange_eq_range]
  exact key _

theorem checked_arpVictim (arp : Fin chaosArpEntries → ChaosArpEntry)
    (is : List (Fin chaosArpEntries)) (oldest : Millis) (victim : Fin chaosArpEntries) :
    Checked.arpVictim arp (is.map Fin.val) oldest victim.val =
      some (arpVictim arp is oldest victim).val := by
  induction is generalizing oldest victim with
  | nil => rfl
  | cons i is ih =>
      rw [List.map_cons, Checked.arpVictim, slot_val, Option.bind_eq_bind, Option.bind_some,
        arpVictim, ih, ih]
      split
      · rfl
      · split <;> rfl

theorem checked_arpFindCreate (c : ChaosCore) (addr : UShort) :
    Checked.arpFindCreate c addr = some (arpFindCreate c addr) := by
  rw [Checked.arpFindCreate, checked_arpScan, Option.bind_eq_bind, Option.bind_some, arpFindCreate]
  cases arpFind c addr with
  | some i => rfl
  | none =>
      have hvictim := checked_arpVictim c.arp (List.finRange chaosArpEntries)
        (BitVec.allOnes 64) ⟨0, by decide⟩
      rw [List.map_coe_finRange_eq_range] at hvictim
      simp only [hvictim, Option.bind_eq_bind, Option.bind_some, slot_val]

/-! ### Frame buffers -/

/-- A frame buffer filled by its stores. -/
theorem stores_buffer (size : Nat) (ws : List (Nat × List Byte)) (frame : List Byte)
    (hws : Filling 0 ws) (hframe : stored ws = frame) (hsize : frame.length ≤ size) :
    stores (List.replicate size 0) ws = some (frame ++ List.replicate (size - frame.length) 0) := by
  have h := stores_filling [] (List.replicate size (0 : Byte)) hws
    (by rw [hframe, List.length_replicate]; exact hsize)
  rw [List.nil_append, List.nil_append, hframe, List.drop_replicate] at h
  exact h

theorem arpFrame_length (dst src : Mac) (op : Byte) (spa : UShort) (tha : Mac) (tpa : UShort) :
    (arpFrame dst src op spa tha tpa).length = chaosArpFrame := by
  simp only [arpFrame, List.length_append, Vector.length_toList, chaosPut16, List.length_cons,
    List.length_nil, chaosArpFrame, chaosEthHeader]

theorem checked_arpSendRequest (c : ChaosCore) (i : Fin chaosArpEntries) (nowMs : Millis) :
    Checked.arpSendRequest c i nowMs = some (arpSendRequest c i nowMs) := by
  have hfill := stores_buffer chaosArpFrame
    [(0, List.replicate 6 0xFF), (6, c.myMac.toList), (12, [0x08]), (13, [0x06]),
      (14, [0]), (15, [1]), (16, [0x08]), (17, [0x04]), (18, [6]), (19, [2]), (20, [0]), (21, [1]),
      (22, c.myMac.toList), (28, chaosPut16 c.myAddr), (30, List.replicate 6 0),
      (36, chaosPut16 (c.arp i).addr)]
    (arpFrame (Vector.replicate 6 0xFF) c.myMac 1 c.myAddr (Vector.replicate 6 0)
      (c.arp i).addr)
    (by simp [Filling, chaosPut16]) (by simp [stored, arpFrame]) (arpFrame_length _ _ _ _ _ _).le
  rw [arpFrame_length, Nat.sub_self, List.replicate_zero, List.append_nil] at hfill
  rw [Checked.arpSendRequest]
  simp only [chaosEthHeader]
  rw [hfill]
  rfl

theorem checked_arpResolve (c : ChaosCore) (addr : UShort) (nowMs : Millis) :
    Checked.arpResolve c addr nowMs = some (arpResolve c addr nowMs) := by
  rw [Checked.arpResolve, checked_arpFindCreate, Option.bind_eq_bind, Option.bind_some, arpResolve]
  simp only [checked_arpSendRequest]
  split
  · split <;> rfl
  · split <;> rfl

theorem chaosFrame_length (dst src : Mac) (myAddr : UShort) (s : RawSend) :
    (chaosFrame dst src myAddr s).length =
      chaosEthHeader + chaosHeader + min s.data.length chaosMaxData := by
  simp only [chaosFrame, List.length_append, Vector.length_toList, chaosPut16, List.length_cons,
    List.length_nil, chaosEthHeader, chaosHeader, List.length_take]
  omega

theorem checked_sendRaw (c : ChaosCore) (s : RawSend) (nowMs : Millis) :
    Checked.sendRaw c s nowMs = some (sendRaw c s nowMs) := by
  rw [Checked.sendRaw, checked_arpResolve, Option.bind_eq_bind, Option.bind_some, sendRaw]
  obtain ⟨found, d⟩ := arpResolve c s.destAddr nowMs
  cases found with
  | none => rfl
  | some dst =>
      have hcopy : copyOut s.data 0 (min s.data.length chaosMaxData) =
          some (s.data.take chaosMaxData) := by
        rw [copyOut_zero (Nat.min_le_left _ _)]
        congr 1
        rw [List.take_eq_take_iff]
        omega
      have hlen := chaosFrame_length dst d.myMac d.myAddr s
      have hfit : (chaosFrame dst d.myMac d.myAddr s).length ≤ Checked.chaosMaxFrame := by
        rw [hlen]
        unfold Checked.chaosMaxFrame
        omega
      have hfill := stores_buffer Checked.chaosMaxFrame
        [(0, dst.toList), (6, d.myMac.toList), (12, [0x08]), (13, [0x04]),
          (14, [0]), (15, [s.opcode]),
          (16, chaosPut16 (BitVec.ofNat 16 (min s.data.length chaosMaxData) &&& 0xFFF)),
          (18, chaosPut16 s.destAddr), (20, chaosPut16 s.destIndex),
          (22, chaosPut16 d.myAddr), (24, chaosPut16 s.srcIndex),
          (26, chaosPut16 s.num), (28, chaosPut16 s.ack), (30, s.data.take chaosMaxData)]
        (chaosFrame dst d.myMac d.myAddr s)
        (by simp [Filling, chaosPut16]) (by simp [stored, chaosFrame, Nat.min_comm]) hfit
      have hout := copyOut_zero (p := chaosFrame dst d.myMac d.myAddr s ++
        List.replicate (Checked.chaosMaxFrame - (chaosFrame dst d.myMac d.myAddr s).length) 0)
        (n := (chaosFrame dst d.myMac d.myAddr s).length) (by simp)
      rw [List.take_left, hlen] at hout
      simp only [hcopy, Option.bind_eq_bind, Option.bind_some, chaosEthHeader, chaosHeader] at hout ⊢
      rw [hfill, Option.bind_some]
      rw [hlen]
      simp only [chaosEthHeader, chaosHeader, hout, Option.bind_some]

theorem checked_perform (c : ChaosCore) (h : Fin chaosMaxConns) (r : Act) (nowMs : Millis) :
    Checked.perform c h r nowMs = some (c.perform h r nowMs) :=
  foldlM_some (fun c s _ => checked_sendRaw c s nowMs) _

/-! ### Connections -/

theorem checked_andThen {r : Act} {f : ChaosConn → Option Act} {g : ChaosConn → Act}
    (h : f r.1 = some (g r.1)) : Checked.andThen r f = some (r.andThen g) := by
  rw [Checked.andThen, h]
  rfl

theorem checked_connSendControlled {k : ChaosConn} {data : List Byte}
    (h : data.length ≤ chaosMaxData) (opcode : Byte) (nowMs : Millis) :
    Checked.connSendControlled k opcode data nowMs =
      some (connSendControlled k opcode data nowMs) := by
  simp only [Checked.connSendControlled, slot_ring, copyInto_of_le h, Option.bind_eq_bind,
    Option.bind_some]
  rfl

theorem checked_connRetransmit (k : ChaosConn) (nowMs minAgeMs : Millis) :
    Checked.connRetransmit k nowMs minAgeMs = some (connRetransmit k nowMs minAgeMs) := by
  refine foldlM_some (fun r n _ => checked_andThen ?_) _
  rw [Checked.retransmitOne, slot_ring, Option.bind_eq_bind, Option.bind_some, retransmitOne]
  simp only
  split
  · rfl
  · split <;> rfl

theorem checked_clearPresent (q : Fin chaosRing → ChaosPkt) (ns : List UShort) :
    Checked.clearPresent q ns = some (clearPresent q ns) := by
  refine foldlM_some (fun q n _ => ?_) q
  rw [slot_ring]
  rfl

/-- Clearing every slot in turn. -/
theorem clearSlot_all (q : Fin chaosRing → ChaosPkt) :
    (List.finRange chaosRing).foldl Checked.clearSlot q =
      fun s => { q s with present := false } := by
  have key : ∀ (is : List (Fin chaosRing)) (q : Fin chaosRing → ChaosPkt) (s : Fin chaosRing),
      is.foldl Checked.clearSlot q s = if s ∈ is then { q s with present := false } else q s := by
    intro is
    induction is with
    | nil => intro q s; rfl
    | cons i is ih =>
        intro q s
        rw [List.foldl_cons, ih]
        by_cases hs : s = i
        · subst hs
          simp [Checked.clearSlot]
        · simp [Checked.clearSlot, hs]
  funext s
  rw [key, if_pos (List.mem_finRange s)]

theorem checked_connSetClosed {text reason : List Byte} {i nBytes : Nat}
    (h : copyOut text i nBytes = some reason) (k : ChaosConn) (kind : ChaosCloseKind) :
    Checked.connSetClosed k kind text i nBytes = some (connSetClosed k kind reason) := by
  have hfits : i + nBytes ≤ text.length := by
    by_contra hno
    rw [copyOut, if_neg hno] at h
    cases h
  rw [copyOut_of_le hfits] at h
  obtain rfl := Option.some.inj h
  have hcopy : copyOut text i (min nBytes chaosMaxData) =
      some (((text.drop i).take nBytes).take chaosMaxData) := by
    rw [copyOut_of_le (by omega), List.take_take, Nat.min_comm]
  have hroom : (((text.drop i).take nBytes).take chaosMaxData ++ [0]).length ≤
      chaosMaxData + 1 := by
    simp only [List.length_append, List.length_take, List.length_singleton]
    omega
  have hclear := @foldlM_slots _ chaosRing (fun q s => some (Checked.clearSlot q s))
    Checked.clearSlot (fun _ _ => rfl) k.sendq
  rw [clearSlot_all] at hclear
  simp only [Checked.connSetClosed, hcopy, copyInto_of_le hroom, Option.bind_eq_bind,
    Option.bind_some] at hclear ⊢
  rw [hclear]
  rfl

theorem checked_connCloseCls (k : ChaosConn) (reason : List Byte) (kind : ChaosCloseKind) :
    Checked.connCloseCls k reason kind = some (connCloseCls k reason kind) := by
  refine checked_andThen ?_
  rw [checked_connSetClosed (copyOut_zero (Nat.le_refl reason.length)), List.take_length]
  rfl

theorem checked_connMaybeSendEof (k : ChaosConn) (nowMs : Millis) :
    Checked.connMaybeSendEof k nowMs = some (connMaybeSendEof k nowMs) := by
  rw [Checked.connMaybeSendEof, connMaybeSendEof]
  split
  · rw [checked_connSendControlled (Nat.zero_le _)]
    simp [Act.andThen]
  · rfl

theorem checked_noteAck (k : ChaosConn) (ack receipt : UShort) :
    Checked.noteAck k ack receipt = some (noteAck k ack receipt) := by
  rw [Checked.noteAck, noteAck]
  simp only [checked_clearPresent, Option.bind_eq_bind, Option.bind_some]
  generalize (if chaosSeqLt receipt ack then ack else receipt) = upTo
  by_cases hnew : chaosSeqLt k.receiptNum upTo = true
  · rw [if_pos hnew, if_pos hnew]
  · rw [if_neg hnew, if_neg hnew]

theorem checked_connProcessAck (k : ChaosConn) (ack receipt : UShort) (nowMs : Millis) :
    Checked.connProcessAck k ack receipt nowMs = some (connProcessAck k ack receipt nowMs) := by
  rw [Checked.connProcessAck, connProcessAck]
  simp only [checked_noteAck, Option.bind_eq_bind, Option.bind_some, checked_connCloseCls,
    checked_connMaybeSendEof]
  split
  · rfl
  · split <;> rfl

theorem checked_advanceReceived (fuel : Nat) (k : ChaosConn) :
    Checked.advanceReceived fuel k = some (advanceReceived fuel k) := by
  induction fuel generalizing k with
  | zero => rfl
  | succ fuel ih =>
      rw [Checked.advanceReceived, advanceReceived]
      simp only [slot_ring, ih, Option.bind_eq_bind, Option.bind_some]
      split
      · rfl
      · split <;> rfl

/-! ### Learning -/

theorem checked_learnConn (addr : UShort) (nowMs : Millis) (k : ChaosConn) :
    Checked.learnConn addr nowMs k = some (learnConn addr nowMs k) := by
  rw [Checked.learnConn, learnConn]
  split
  · exact checked_connRetransmit k nowMs 0
  · rfl

theorem checked_arpLearn (c : ChaosCore) (addr : UShort) (mac : Mac) (nowMs : Millis) :
    Checked.arpLearn c addr mac nowMs = some (arpLearn c addr mac nowMs) := by
  rw [Checked.arpLearn, arpLearn]
  split
  · rfl
  · rw [checked_arpFindCreate, Option.bind_eq_bind, Option.bind_some]
    simp only
    split
    · rfl
    · refine foldlM_slots (f := fun c h => do
        let r ← Checked.learnConn addr nowMs (c.conns h)
        Checked.perform c h r nowMs) (fun c h => ?_) _
      rw [checked_learnConn, Option.bind_eq_bind, Option.bind_some, checked_perform]

theorem checked_handleArp (c : ChaosCore) (frame : List Byte) (nowMs : Millis) :
    Checked.handleArp c frame nowMs = some (handleArp c frame nowMs) := by
  rw [Checked.handleArp]
  simp only [chaosEthHeader]
  split
  · next hlen => rw [handleArp, if_pos hlen]
  · next hlen =>
    have hsize : 38 ≤ frame.length := Nat.not_lt.mp hlen
    rw [copyOut_of_le (show 14 + 6 ≤ frame.length by omega), Option.bind_eq_bind, Option.bind_some]
    split
    · next hno =>
      have hno' : (frame.drop chaosEthHeader).take 6 ≠ [0, 1, 0x08, 0x04, 6, 2] := hno
      rw [handleArp, if_neg hlen, if_pos hno']
    · next hheader =>
      have hheader' : ¬ (frame.drop chaosEthHeader).take 6 ≠ [0, 1, 0x08, 0x04, 6, 2] := hheader
      rw [handleArp, if_neg hlen, if_neg hheader',
        checked_get16 (show 28 + 1 < frame.length by omega),
        checked_get16 (show 36 + 1 < frame.length by omega),
        checked_macFrom (show 22 + 6 ≤ frame.length by omega),
        load_byteAt (show 20 < frame.length by omega),
        load_byteAt (show 21 < frame.length by omega)]
      simp only [Option.bind_some, Option.bind_eq_bind, checked_arpLearn]
      split
      · rfl
      · generalize arpLearn c (get16At frame 28) (macAt frame 22) nowMs = d
        have hfill := stores_buffer chaosArpFrame
          [(0, (macAt frame 22).toList), (6, d.myMac.toList), (12, [0x08]), (13, [0x06]),
            (14, (frame.drop 14).take 6), (20, [0]), (21, [2]), (22, d.myMac.toList),
            (28, chaosPut16 d.myAddr), (30, (macAt frame 22).toList),
            (36, chaosPut16 (get16At frame 28))]
          (arpFrame (macAt frame 22) d.myMac 2 d.myAddr (macAt frame 22)
            (get16At frame 28))
          (by
            rw [not_not.mp hheader]
            simp [Filling, chaosPut16])
          (by
            rw [not_not.mp hheader]
            simp [stored, arpFrame]) (arpFrame_length _ _ _ _ _ _).le
        rw [arpFrame_length, Nat.sub_self, List.replicate_zero, List.append_nil] at hfill
        rw [hfill]
        rfl

/-! ### Packets -/

/-- The words of a packet `handle_chaos` has read. -/
def wordsOf (pkt : Packet) : Checked.Words :=
  { opcode := pkt.opcode, dataBytes := pkt.data.length, destAddr := pkt.destAddr
    destIndex := pkt.destIndex, srcAddr := pkt.srcAddr, srcIndex := pkt.srcIndex
    num := pkt.num, ack := pkt.ack }

theorem words_opcode (pkt : Packet) : (wordsOf pkt).opcode = pkt.opcode := rfl

theorem words_dataBytes (pkt : Packet) : (wordsOf pkt).dataBytes = pkt.data.length := rfl

theorem words_destAddr (pkt : Packet) : (wordsOf pkt).destAddr = pkt.destAddr := rfl

theorem words_destIndex (pkt : Packet) : (wordsOf pkt).destIndex = pkt.destIndex := rfl

theorem words_srcAddr (pkt : Packet) : (wordsOf pkt).srcAddr = pkt.srcAddr := rfl

theorem words_srcIndex (pkt : Packet) : (wordsOf pkt).srcIndex = pkt.srcIndex := rfl

theorem words_num (pkt : Packet) : (wordsOf pkt).num = pkt.num := rfl

theorem words_ack (pkt : Packet) : (wordsOf pkt).ack = pkt.ack := rfl

/-- What the length checks of `handle_chaos` establish of a packet in its frame. -/
structure Reading (frame : List Byte) (pkt : Packet) : Prop where
  length : Checked.dataAt + pkt.data.length ≤ frame.length
  small : pkt.data.length ≤ chaosMaxData
  opcode : byteAt frame 15 = pkt.opcode
  destIndex : get16At frame 20 = pkt.destIndex
  srcAddr : get16At frame 22 = pkt.srcAddr
  srcIndex : get16At frame 24 = pkt.srcIndex
  num : get16At frame 26 = pkt.num
  data : (frame.drop Checked.dataAt).take pkt.data.length = pkt.data

theorem checked_readWords {frame : List Byte} (h : 30 ≤ frame.length) :
    Checked.readWords frame = some
      { opcode := byteAt frame 15, dataBytes := packetBytes frame, destAddr := get16At frame 18
        destIndex := get16At frame 20, srcAddr := get16At frame 22, srcIndex := get16At frame 24
        num := get16At frame 26, ack := get16At frame 28 } := by
  rw [Checked.readWords]
  simp only [chaosEthHeader]
  rw [load_byteAt (show 15 < frame.length by omega),
    checked_get16 (show 16 + 1 < frame.length by omega),
    checked_get16 (show 18 + 1 < frame.length by omega),
    checked_get16 (show 20 + 1 < frame.length by omega),
    checked_get16 (show 22 + 1 < frame.length by omega),
    checked_get16 (show 24 + 1 < frame.length by omega),
    checked_get16 (show 26 + 1 < frame.length by omega),
    checked_get16 (show 28 + 1 < frame.length by omega)]
  rfl

/-- The checks of `handle_chaos` and what they leave. -/
theorem readPacket_reading {frame : List Byte} {pkt : Packet}
    (h : readPacket frame = some pkt) :
    Reading frame pkt ∧ Checked.readWords frame = some (wordsOf pkt) ∧ 30 ≤ frame.length := by
  unfold readPacket at h
  split at h
  · cases h
  · next hlen =>
    split at h
    · cases h
    · next hbad =>
      obtain rfl := Option.some.inj h
      obtain ⟨hsmall, hfits⟩ := not_or.mp hbad
      have hlong : 30 ≤ frame.length := Nat.not_lt.mp hlen
      simp only [chaosEthHeader, chaosHeader, chaosMaxData] at hsmall hfits
      have hdata : ((frame.drop (chaosEthHeader + chaosHeader)).take (packetBytes frame)).length =
          packetBytes frame := by
        simp only [List.length_take, List.length_drop, chaosEthHeader, chaosHeader]
        omega
      refine ⟨⟨?_, ?_, rfl, rfl, rfl, rfl, rfl, ?_⟩, ?_, hlong⟩
      · rw [hdata]
        simp only [Checked.dataAt, chaosEthHeader, chaosHeader]
        omega
      · rw [hdata]
        unfold chaosMaxData
        omega
      · rw [hdata]
        rfl
      · rw [checked_readWords hlong, wordsOf]
        simp only [hdata]

section Reading

variable {frame : List Byte} {pkt : Packet} (hr : Reading frame pkt)

include hr

theorem Reading.copy : copyOut frame Checked.dataAt pkt.data.length = some pkt.data := by
  rw [copyOut_of_le hr.length, hr.data]

theorem Reading.byteAt {i : Nat} (h : i < pkt.data.length) :
    byteAt frame (Checked.dataAt + i) = Chaos.byteAt pkt.data i := by
  have hat : Chaos.byteAt ((frame.drop Checked.dataAt).take pkt.data.length) i =
      Chaos.byteAt frame (Checked.dataAt + i) := by
    simp only [Chaos.byteAt, List.getD_eq_getElem?_getD, List.getElem?_take, if_pos h,
      List.getElem?_drop]
  rw [← hat, hr.data]

theorem Reading.load {i : Nat} (h : i < pkt.data.length) :
    load frame (Checked.dataAt + i) = some (Chaos.byteAt pkt.data i) := by
  have hlength := hr.length
  rw [load_byteAt (by omega), hr.byteAt h]

theorem Reading.get16 {i : Nat} (h : i + 1 < pkt.data.length) :
    Checked.chaosGet16 frame (Checked.dataAt + i) = some (get16At pkt.data i) := by
  have hlength := hr.length
  rw [checked_get16 (by omega), get16At, hr.byteAt (by omega), Nat.add_assoc, hr.byteAt h]
  rfl

theorem Reading.long : 30 ≤ frame.length := by
  have hlength := hr.length
  simp only [Checked.dataAt, chaosEthHeader, chaosHeader] at hlength
  omega

theorem checked_closeWith (k : ChaosConn) (kind : ChaosCloseKind) :
    Checked.closeWith k kind frame (wordsOf pkt) = some (connSetClosed k kind pkt.data, []) := by
  rw [Checked.closeWith, wordsOf, checked_connSetClosed hr.copy]
  rfl

theorem checked_connQueueInput (k : ChaosConn) :
    Checked.connQueueInput k frame pkt.data.length = some (connQueueInput k pkt) := by
  have hlong := hr.long
  rw [Checked.connQueueInput, connQueueInput]
  simp only [chaosEthHeader]
  rw [checked_get16 (show 26 + 1 < frame.length by omega), hr.num, hr.copy,
    load_byteAt (show 15 < frame.length by omega), hr.opcode]
  simp only [Option.bind_eq_bind, Option.bind_some, slot_ring, copyInto_of_le hr.small,
    checked_advanceReceived]
  split
  · rfl
  split
  · rfl
  split
  · rfl
  · split <;> rfl

theorem checked_losReply (reason : List Byte) :
    Checked.losReply frame reason = some (losReply pkt reason) := by
  have hlong := hr.long
  rw [Checked.losReply]
  simp only [chaosEthHeader]
  rw [checked_get16 (show 22 + 1 < frame.length by omega),
    checked_get16 (show 24 + 1 < frame.length by omega),
    checked_get16 (show 20 + 1 < frame.length by omega), hr.srcAddr, hr.srcIndex, hr.destIndex]
  rfl

/-- The contact name ends at the first space, or with the data. -/
theorem checked_contactScan (fuel n : Nat) (hn : n + fuel = pkt.data.length) :
    Checked.contactScan frame pkt.data.length fuel n =
      some (n + ((pkt.data.drop n).takeWhile (· ≠ 0x20)).length) := by
  induction fuel generalizing n with
  | zero => rw [Checked.contactScan, List.drop_of_length_le (by omega)]; rfl
  | succ fuel ih =>
      have hlt : n < pkt.data.length := by omega
      have hbyte : Chaos.byteAt pkt.data n = pkt.data[n] :=
        List.getD_eq_getElem pkt.data 0 hlt
      rw [Checked.contactScan, if_pos hlt, hr.load hlt, hbyte, Option.bind_eq_bind,
        Option.bind_some, List.drop_eq_getElem_cons hlt, List.takeWhile_cons]
      by_cases hspace : pkt.data[n] = 0x20
      · simp [hspace]
      · rw [if_pos hspace, ih (n + 1) (by omega), if_pos (by simpa using hspace)]
        simp only [List.length_cons, Option.some.injEq]
        omega

end Reading

theorem checked_whenOpen {f : ChaosConn → Option Act} {g : ChaosConn → Act}
    (h : ∀ k, f k = some (g k)) (k : ChaosConn) :
    Checked.whenOpen f k = some (whenOpen g k) := by
  rw [Checked.whenOpen, whenOpen]
  split
  · exact h k
  · rfl

/-- A 16-bit number has at most six octal digits. -/
theorem octal_length (n : UShort) : (octal n.toNat).length ≤ 6 := by
  have hlt : n.toNat < 8 ^ 6 := by
    have := n.isLt
    omega
  have hdigits := (Nat.length_toDigits_le_iff (by omega) (by omega)).mpr hlt
  simpa [octal, bytesOf] using hdigits

section Reading

variable {frame : List Byte} {pkt : Packet} (hr : Reading frame pkt)

include hr

theorem checked_handleRfc (c : ChaosCore) (nowMs : Millis) :
    Checked.handleRfc c frame pkt.data.length nowMs = some (handleRfc c pkt nowMs) := by
  have hlong := hr.long
  obtain ⟨contact, hcontact⟩ : ∃ contact, pkt.data.takeWhile (· ≠ 0x20) = contact := ⟨_, rfl⟩
  have hfront : contact <+: pkt.data := hcontact ▸ List.takeWhile_prefix _
  have hsmall : contact.length ≤ chaosMaxData := hfront.length_le.trans hr.small
  have hscan := checked_contactScan hr pkt.data.length 0 (Nat.zero_add _)
  rw [List.drop_zero, hcontact, Nat.zero_add] at hscan
  have hcopy : copyOut frame Checked.dataAt contact.length = some contact := by
    have hlength := hr.length
    have hle := hfront.length_le
    rw [copyOut_of_le (by omega)]
    have htake : (frame.drop Checked.dataAt).take contact.length =
        ((frame.drop Checked.dataAt).take pkt.data.length).take contact.length := by
      rw [List.take_take, Nat.min_eq_left hle]
    rw [htake, hr.data, ← List.prefix_iff_eq_take.mp hfront]
  have hroom : (contact ++ [0]).length ≤ chaosMaxData + 1 := by
    rw [List.length_append, List.length_singleton]
    omega
  have hname : Checked.cString (contact ++ [0]) = some (Chaos.cString contact) := by
    rw [Checked.cString, if_pos (by simp), Chaos.cString, Chaos.cString, List.takeWhile_append]
    split
    · next hall =>
      have hsame := (List.takeWhile_prefix (l := contact) (· ≠ 0)).eq_of_length hall
      rw [hsame]
      simp
    · rfl
  have hcase : strCaseEq (Chaos.cString contact) (bytesOf "STATUS") =
      strCaseEq contact (bytesOf "STATUS") := by
    have htwice : Chaos.cString (Chaos.cString contact) = Chaos.cString contact := by
      unfold Chaos.cString
      exact List.takeWhile_idem
    rw [strCaseEq, strCaseEq, htwice]
  rw [Checked.handleRfc]
  simp only [chaosEthHeader]
  rw [checked_get16 (show 22 + 1 < frame.length by omega),
    checked_get16 (show 24 + 1 < frame.length by omega),
    checked_get16 (show 26 + 1 < frame.length by omega), hr.srcAddr, hr.srcIndex, hr.num]
  simp only [Option.bind_eq_bind, Option.bind_some, hscan, hcopy, copyInto_of_le hroom, hname,
    hcase, handleRfc, hcontact]
  split
  · -- the host name in its 32 bytes
    have hhost : copyOut c.hostName 0 (min c.hostName.length 32) =
        some (c.hostName.take 32) := by
      rw [copyOut_zero (Nat.min_le_left _ _)]
      congr 1
      rw [List.take_eq_take_iff]
      omega
    have hstore := @store_next _ [] (List.replicate 32 (0 : Byte))
      (c.hostName.take 32) 0 rfl (by simp)
    have hpad : 32 - (c.hostName.take 32).length = 32 - c.hostName.length := by
      rw [List.length_take]
      omega
    rw [List.nil_append, List.nil_append, List.drop_replicate, hpad] at hstore
    rw [hhost, Option.bind_some, hstore, Option.bind_some, checked_sendRaw]
    rfl
  · -- the refusal in its 552 bytes
    obtain ⟨text, htext⟩ : ∃ text,
      bytesOf "No server for contact name " ++ Chaos.cString contact = text := ⟨_, rfl⟩
    have hlength : text.length ≤ chaosMaxData + 63 := by
      have hshort : (Chaos.cString contact).length ≤ contact.length :=
        (List.takeWhile_prefix _).length_le
      have hfixed : (bytesOf "No server for contact name ").length = 27 := by decide
      rw [← htext, List.length_append, hfixed]
      omega
    have hreason : (text.take (chaosMaxData + 63) ++ [0]).length ≤ chaosMaxData + 64 := by
      simp only [List.length_append, List.length_take, List.length_singleton]
      omega
    rw [htext, copyInto_of_le hreason, Option.bind_some, List.take_of_length_le hlength,
      copyOut_zero (by simp), Option.bind_some, List.take_left, checked_sendRaw]

theorem checked_inputRfcSent (k : ChaosConn) (nowMs : Millis) :
    Checked.inputRfcSent k frame (wordsOf pkt) nowMs = some (inputRfcSent k pkt nowMs) := by
  rw [Checked.inputRfcSent, inputRfcSent, words_opcode, words_dataBytes, words_srcIndex, words_num,
    words_ack]
  split
  · split
    · rfl
    · next hlen =>
      have hwindow := hr.get16 (i := 2) (by omega)
      have hreceipt := hr.get16 (i := 0) (by omega)
      rw [Nat.add_zero] at hreceipt
      rw [hwindow, hreceipt]
      simp only [Option.bind_eq_bind, Option.bind_some, checked_connProcessAck]
      exact checked_andThen rfl
  split
  · exact checked_closeWith hr k closeCls
  split
  · exact checked_closeWith hr k closeLos
  split
  · exact checked_closeWith hr k closeAns
  split
  · obtain ⟨line, hline⟩ : ∃ line, bytesOf "Forwarded to host " ++ octal pkt.ack.toNat ++
      bytesOf " (forwarding is not supported)" = line := ⟨_, rfl⟩
    have hlength : line.length ≤ 79 := by
      have hdigits := octal_length pkt.ack
      have hfront : (bytesOf "Forwarded to host ").length = 18 := by decide
      have hback : (bytesOf " (forwarding is not supported)").length = 30 := by decide
      rw [← hline, List.length_append, List.length_append, hfront, hback]
      omega
    have hbuffer : copyInto 80 (line.take 79 ++ [0]) = some (line ++ [0]) := by
      rw [List.take_of_length_le hlength]
      refine copyInto_of_le ?_
      rw [List.length_append, List.length_singleton]
      omega
    have hcopy : copyOut (line ++ [0]) 0 line.length = some line := by
      rw [copyOut_zero (by simp), List.take_left]
    rw [hline]
    simp only [hbuffer, Option.bind_eq_bind, Option.bind_some, checked_connSetClosed hcopy]
  · rfl

theorem checked_inputClosed (k : ChaosConn) :
    Checked.inputClosed k frame (wordsOf pkt) = some (inputClosed k pkt) := by
  rw [Checked.inputClosed, inputClosed, words_opcode, checked_losReply hr]
  split <;> rfl

theorem checked_inputOpen (k : ChaosConn) (nowMs : Millis) :
    Checked.inputOpen k frame (wordsOf pkt) nowMs = some (inputOpen k pkt nowMs) := by
  rw [Checked.inputOpen, inputOpen, words_opcode, words_dataBytes, words_ack]
  split
  · rw [checked_connProcessAck]
    exact checked_andThen (checked_whenOpen (fun k => checked_connQueueInput hr k) _)
  split
  · split
    · rfl
    · next hlen =>
      have hwindow := hr.get16 (i := 2) (by omega)
      have hreceipt := hr.get16 (i := 0) (by omega)
      rw [Nat.add_zero] at hreceipt
      rw [hwindow, hreceipt]
      simp only [Option.bind_eq_bind, Option.bind_some, checked_connProcessAck]
      exact checked_andThen (checked_whenOpen
        (fun k => checked_connRetransmit k nowMs chaosStsRetransmitMs) _)
  split
  · rw [checked_connProcessAck]
    exact checked_andThen (checked_whenOpen (fun _ => rfl) _)
  split
  · rfl
  split
  · exact checked_closeWith hr k closeCls
  split
  · exact checked_closeWith hr k closeLos
  · rfl

theorem checked_connInput (k : ChaosConn) (nowMs : Millis) :
    Checked.connInput k frame (wordsOf pkt) nowMs = some (connInput k pkt nowMs) := by
  unfold Checked.connInput connInput
  cases hstate : k.state with
  | connRfcSent => simpa [hstate] using checked_inputRfcSent hr { k with lastHeardMs := nowMs } nowMs
  | connClosed => simpa [hstate] using checked_inputClosed hr { k with lastHeardMs := nowMs }
  | connOpen => simpa [hstate] using checked_inputOpen hr { k with lastHeardMs := nowMs } nowMs
  | connFree => rfl

theorem checked_dispatchPacket (c : ChaosCore) (nowMs : Millis) :
    Checked.dispatchPacket c frame (wordsOf pkt) nowMs = some (dispatchPacket c pkt nowMs) := by
  rw [Checked.dispatchPacket, dispatchPacket, words_opcode, words_dataBytes, words_destAddr,
    words_destIndex, words_srcAddr, words_srcIndex, slot_conn, checked_losReply hr,
    checked_handleRfc hr]
  simp only [Option.bind_eq_bind, Option.bind_some, checked_sendRaw,
    checked_connInput hr, checked_perform]
  split
  · rfl
  split
  · rfl
  split
  · rfl
  by_cases hno : noSuchConn (c.conns (connSlot pkt.destIndex)) pkt
  · rw [if_pos hno]
    refine (if_pos hno).trans ?_
    split <;> rfl
  · rw [if_neg hno]
    exact if_neg hno

theorem checked_learnSender (c : ChaosCore) (nowMs : Millis) :
    Checked.learnSender c frame (wordsOf pkt) nowMs = some (learnSender c frame pkt nowMs) := by
  have hlong := hr.long
  rw [Checked.learnSender, learnSender, load_byteAt (show 6 < frame.length by omega),
    checked_macFrom (show 6 + 6 ≤ frame.length by omega), words_srcAddr]
  simp only [Option.bind_eq_bind, Option.bind_some, checked_arpLearn]
  by_cases hsubnet : pkt.srcAddr >>> 8 = c.myAddr >>> 8
  · by_cases hgroup : Chaos.byteAt frame 6 &&& 1 = 0
    · rw [if_pos hsubnet, if_pos hgroup, if_pos ⟨hsubnet, hgroup⟩]
    · rw [if_pos hsubnet, if_neg hgroup, if_neg fun h => hgroup h.2]
  · rw [if_neg hsubnet, if_neg fun h => hsubnet h.1]

end Reading

theorem checked_handleChaos (c : ChaosCore) (frame : List Byte) (nowMs : Millis) :
    Checked.handleChaos c frame nowMs = some (handleChaos c frame nowMs) := by
  cases hread : readPacket frame with
  | none =>
      rw [handleChaos, hread, Checked.handleChaos]
      unfold readPacket at hread
      split at hread
      · next hshort => rw [if_pos hshort]
      · next hlen =>
        split at hread
        · next hbad =>
          have hlong : 30 ≤ frame.length := Nat.not_lt.mp hlen
          rw [if_neg hlen, checked_readWords hlong, Option.bind_eq_bind, Option.bind_some,
            if_pos hbad]
        · cases hread
  | some pkt =>
      obtain ⟨hr, hwords, hlong⟩ := readPacket_reading hread
      have hlength := hr.length
      have hsmall := hr.small
      simp only [Checked.dataAt, chaosEthHeader, chaosHeader] at hlength
      have hok : ¬ (chaosMaxData < (wordsOf pkt).dataBytes ∨
          frame.length - chaosEthHeader - chaosHeader < (wordsOf pkt).dataBytes) := by
        simp only [wordsOf, chaosEthHeader, chaosHeader]
        omega
      rw [handleChaos, hread, Checked.handleChaos,
        if_neg (by simp only [chaosEthHeader, chaosHeader]; omega), hwords, Option.bind_eq_bind,
        Option.bind_some, if_neg hok, checked_learnSender hr, Option.bind_eq_bind, Option.bind_some,
        checked_dispatchPacket hr]

/-! ### Every received byte string -/

theorem checked_chaosCoreInput (c : ChaosCore) (frame : List Byte) (nowMs : Millis) :
    Checked.chaosCoreInput c frame nowMs = some (chaosCoreInput c frame nowMs) := by
  rw [Checked.chaosCoreInput, chaosCoreInput]
  by_cases hlen : frame.length < chaosEthHeader
  · rw [if_pos hlen, if_pos hlen]
  · have hlong : 14 ≤ frame.length := Nat.not_lt.mp hlen
    have htype : chaosGet16 (byteAt frame 13) (byteAt frame 12) = etherType frame := rfl
    rw [if_neg hlen, if_neg hlen, load_byteAt (show 12 < frame.length by omega),
      load_byteAt (show 13 < frame.length by omega),
      checked_macFrom (show 6 + 6 ≤ frame.length by omega)]
    simp only [Option.bind_eq_bind, Option.bind_some, htype, checked_handleArp,
      checked_handleChaos]
    split
    · rfl
    · split
      · rfl
      · split <;> rfl

theorem checked_chaosOpcodeName (opcode : Byte) :
    (Checked.chaosOpcodeName opcode).isSome := by
  unfold Checked.chaosOpcodeName
  simp only
  split
  · rfl
  · split
    · next h => rw [load_of_lt h ""]; rfl
    · rfl

/-- The trace of a frame stays within it. -/
theorem checked_chaosTraceFrame (frame : List Byte) : (Checked.chaosTraceFrame frame).isSome := by
  rw [Checked.chaosTraceFrame]
  split
  · rfl
  · next hlen =>
    have hlong : 14 ≤ frame.length := Nat.not_lt.mp hlen
    rw [load_byteAt (show 12 < frame.length by omega),
      load_byteAt (show 13 < frame.length by omega),
      checked_macFrom (show 6 + 6 ≤ frame.length by omega),
      checked_macFrom (show 0 + 6 ≤ frame.length by omega)]
    simp only [Option.bind_eq_bind, Option.bind_some]
    split
    · next hchaos =>
      have hheader : 30 ≤ frame.length := hchaos.2
      obtain ⟨name, hname⟩ := Option.isSome_iff_exists.mp
        (checked_chaosOpcodeName (byteAt frame 15))
      rw [checked_readWords hheader, Option.bind_some]
      simp only [hname, Option.bind_some]
      obtain ⟨n, hn⟩ : ∃ n, min (packetBytes frame)
        (frame.length - chaosEthHeader - chaosHeader) = n := ⟨_, rfl⟩
      have hfits : Checked.dataAt + n ≤ frame.length := by
        have hle := Nat.min_le_right (packetBytes frame)
          (frame.length - chaosEthHeader - chaosHeader)
        rw [hn] at hle
        simp only [Checked.dataAt, chaosEthHeader, chaosHeader] at hle ⊢
        omega
      rw [hn]
      have hbytes := @foldlM_some _ _
        (fun bs i => do
          let b ← load frame (Checked.dataAt + i)
          some (bs ++ [b]))
        (fun bs i => bs ++ [byteAt frame (Checked.dataAt + i)])
        (List.range (if n < 32 then n else 32)) (fun bs i hi => by
          have hlt : i < n := by
            have := List.mem_range.mp hi
            split at this <;> omega
          rw [load_byteAt (by omega)]
          rfl) []
      simp only [Option.bind_eq_bind] at hbytes
      rw [hbytes]
      rfl
    · split
      · next harp =>
        have hsize : 38 ≤ frame.length := harp.2
        simp only [chaosEthHeader]
        rw [load_byteAt (show 16 < frame.length by omega),
          load_byteAt (show 17 < frame.length by omega),
          load_byteAt (show 21 < frame.length by omega),
          checked_get16 (show 28 + 1 < frame.length by omega),
          checked_get16 (show 36 + 1 < frame.length by omega),
          checked_macFrom (show 22 + 6 ≤ frame.length by omega)]
        simp only [Option.bind_some]
        split <;> rfl
      · rfl

/-- **The core survives every frame.**  Whatever its state, and whatever bytes it
receives, `chaos_core_input` makes no access outside an array, and neither does
the trace of the same bytes. -/
theorem chaosCoreInput_inBounds (c : ChaosCore) (frame : List Byte) (nowMs : Millis) :
    Checked.chaosCoreInput c frame nowMs = some (chaosCoreInput c frame nowMs) ∧
      (Checked.chaosTraceFrame frame).isSome :=
  ⟨checked_chaosCoreInput c frame nowMs, checked_chaosTraceFrame frame⟩

end Chaos
