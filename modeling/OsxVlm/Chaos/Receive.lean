import OsxVlm.Chaos.SendStream

/-!
# The stream a connection receives

The peer numbers its packets `n0 + 1`, `n0 + 2`, … modulo `2 ^ 16`; packet `i`
is the data packet `payload i`, or the EOF that ends the stream.  The network
loses, repeats and reorders them.  `RecvOk` relates the receive side of a
connection to the stream: which packets the ring holds, how far they have been
received in order (`r`) and read (`ρ`), and how much of the next one (`off`).
The law (`receive_law`) is that the bytes `chaos_recv` returns are a prefix of
the stream, and all of it once `chaos_recv_eof` is true.
-/

namespace Chaos

open ChaosConnState ChaosCloseKind

/-! ### The peer -/

/-- What the peer sends: packet `i`, from 1 on, is a data packet, or the EOF
when `i` is `eof`; nothing follows the EOF. -/
structure PeerStream where
  opcode : Nat → Byte
  payload : Nat → List Byte
  eof : Option Nat
  isData : ∀ i, chopDat ≤ opcode i

namespace PeerStream

variable (f : PeerStream)

/-- The peer has a packet `i`. -/
def IsSent (i : Nat) : Prop := 1 ≤ i ∧ ∀ j, f.eof = some j → i ≤ j

def opcodeAt (i : Nat) : Byte := if f.eof = some i then chopEof else f.opcode i

/-- The bytes packet `i` adds to the stream. -/
def bodyAt (i : Nat) : List Byte := if f.eof = some i then [] else f.payload i

/-- The stream up to and including packet `n`. -/
def bytes (n : Nat) : List Byte := (List.range n).flatMap fun j => f.bodyAt (j + 1)

/-- `pkt` is packet `i`, numbered from `n0`. -/
structure Sends (n0 : UShort) (i : Nat) (pkt : Packet) : Prop where
  sent : f.IsSent i
  num : pkt.num = n0 + BitVec.ofNat 16 i
  opcode : pkt.opcode = f.opcodeAt i
  data : f.eof ≠ some i → pkt.data = f.payload i

theorem bytes_succ (n : Nat) : f.bytes (n + 1) = f.bytes n ++ f.bodyAt (n + 1) := by
  simp [bytes, List.range_succ]

theorem bodyAt_eof {i : Nat} (h : f.eof = some i) : f.bodyAt i = [] := if_pos h

theorem opcodeAt_eq_eof {i : Nat} : f.opcodeAt i = chopEof ↔ f.eof = some i := by
  unfold opcodeAt
  split
  · next h => simp [h]
  · next h =>
    simp only [h, iff_false]
    intro heq
    have hdata := f.isData i
    rw [heq] at hdata
    exact absurd hdata (by decide)

end PeerStream

/-- The number of the peer's packet `i`. -/
def peerNum (n0 : UShort) (i : Nat) : UShort := n0 + BitVec.ofNat 16 i

theorem peerNum_succ (n0 : UShort) (i : Nat) : seqInc (peerNum n0 i) = peerNum n0 (i + 1) := by
  have hone : (1 : UShort) = BitVec.ofNat 16 1 := rfl
  rw [seqInc, peerNum, peerNum, BitVec.ofNat_add, hone, add_assoc]

theorem peerNum_toNat (n0 : UShort) (i : Nat) :
    (peerNum n0 i).toNat = (n0.toNat + i) % 2 ^ 16 := by
  rw [peerNum, BitVec.toNat_add, BitVec.toNat_ofNat, Nat.add_mod_mod]

/-- Near each other, different packets have different numbers. -/
theorem peerNum_inj {n0 : UShort} {i j : Nat} (h : peerNum n0 i = peerNum n0 j)
    (hij : i < j + 2 ^ 16) (hji : j < i + 2 ^ 16) : i = j := by
  have hnat := congrArg BitVec.toNat h
  rw [peerNum_toNat, peerNum_toNat] at hnat
  omega

/-- Within one ring they have different slots. -/
theorem ringSlot_peerNum_inj {n0 : UShort} {i j : Nat}
    (h : ringSlot (peerNum n0 i) = ringSlot (peerNum n0 j))
    (hij : i < j + 64) (hji : j < i + 64) : i = j := by
  have hval := congrArg Fin.val h
  rw [ringSlot_val, ringSlot_val, peerNum_toNat, peerNum_toNat] at hval
  omega

theorem seqDiff_peerNum (n0 : UShort) {i j : Nat} (hij : i ≤ j) (hlap : j < i + 2 ^ 16) :
    (seqDiff (peerNum n0 j) (peerNum n0 i)).toNat = j - i := by
  rw [seqDiff, BitVec.toNat_sub, peerNum_toNat, peerNum_toNat]
  have := n0.isLt
  omega

/-- A number that is neither received already nor beyond the window belongs to a
packet of the window, if it lies within half a lap of the mark `r`. -/
theorem peerNum_inWindow {n0 : UShort} {i r ρ : Nat} {window : UShort}
    (hsmall : window.toNat ≤ 32) (hρ : ρ ≤ r) (hr : r ≤ ρ + window.toNat)
    (hlo : i ≤ r + 2 ^ 15) (hhi : r ≤ i + 2 ^ 15)
    (hafter : chaosSeqLt (peerNum n0 r) (peerNum n0 i) = true)
    (hfit : ¬ window < seqDiff (peerNum n0 i) (peerNum n0 ρ)) :
    r < i ∧ i ≤ ρ + window.toNat := by
  rw [chaosSeqLt_eq_before, Serial.before_iff, Serial.behind, BitVec.toNat_sub, peerNum_toNat,
    peerNum_toNat] at hafter
  rw [BitVec.not_lt, BitVec.le_def, seqDiff, BitVec.toNat_sub, peerNum_toNat,
    peerNum_toNat] at hfit
  have := n0.isLt
  omega

/-! ### The receive side of a connection -/

/-- The fields of a connection that say what was received. -/
structure RecvView where
  readNum : UShort
  receivedNum : UShort
  localWindow : UShort
  rcvq : Fin chaosRing → ChaosPkt
  eofReceived : Bool

def ChaosConn.recvView (k : ChaosConn) : RecvView :=
  { readNum := k.readNum, receivedNum := k.receivedNum, localWindow := k.localWindow
    rcvq := k.rcvq, eofReceived := k.eofReceived }

/-- Ring slot `p` holds packet `i` of the peer, of which `off` bytes were read. -/
structure HoldsPkt (f : PeerStream) (n0 : UShort) (i off : Nat) (p : ChaosPkt) : Prop where
  num : p.num = peerNum n0 i
  opcode : p.opcode = f.opcodeAt i
  data : f.eof ≠ some i → p.data = f.payload i
  offset : p.offset = off

/-- The receive side holds the packets of the window that came, packets up to
`r` without a gap; packets up to `ρ` and `off` bytes of the next were read, and
these are the bytes `got`. -/
structure RecvOk (f : PeerStream) (n0 : UShort) (v : RecvView) (ρ r off : Nat)
    (got : List Byte) : Prop where
  read : v.readNum = peerNum n0 ρ
  received : v.receivedNum = peerNum n0 r
  small : v.localWindow.toNat ≤ 32
  read_le : ρ ≤ r
  in_window : r ≤ ρ + v.localWindow.toNat
  slots : ∀ s, (v.rcvq s).present = true → ∃ i, ρ < i ∧ i ≤ ρ + v.localWindow.toNat ∧
    f.IsSent i ∧ s = ringSlot (peerNum n0 i) ∧
    HoldsPkt f n0 i (if i = ρ + 1 then off else 0) (v.rcvq s)
  held : ∀ i, ρ < i → i ≤ r → (v.rcvq (ringSlot (peerNum n0 i))).present = true
  partly : off = 0 ∨ ρ < r ∧ off ≤ (f.bodyAt (ρ + 1)).length
  got_eq : got = f.bytes ρ ++ (f.bodyAt (ρ + 1)).take off
  eof : v.eofReceived = true → f.eof = some ρ
  read_sent : ρ = 0 ∨ f.IsSent ρ

section RecvOk

variable {f : PeerStream} {n0 : UShort} {v : RecvView} {ρ r off : Nat} {got : List Byte}

/-- The slot of a packet of the window holds that packet or is empty. -/
theorem RecvOk.slot (h : RecvOk f n0 v ρ r off got) {i : Nat} (hlo : ρ < i)
    (hhi : i ≤ ρ + v.localWindow.toNat + 1)
    (hp : (v.rcvq (ringSlot (peerNum n0 i))).present = true) :
    i ≤ ρ + v.localWindow.toNat ∧ f.IsSent i ∧
      HoldsPkt f n0 i (if i = ρ + 1 then off else 0) (v.rcvq (ringSlot (peerNum n0 i))) := by
  obtain ⟨j, hjlo, hjhi, hsent, hslot, hholds⟩ := h.slots _ hp
  have hsmall := h.small
  obtain rfl := ringSlot_peerNum_inj hslot (by omega) (by omega)
  exact ⟨hjhi, hsent, hholds⟩

/-- The next packet to read is held when anything is left to read. -/
theorem RecvOk.next (h : RecvOk f n0 v ρ r off got) (hmore : ρ < r) :
    f.IsSent (ρ + 1) ∧
      HoldsPkt f n0 (ρ + 1) off (v.rcvq (ringSlot (peerNum n0 (ρ + 1)))) := by
  have hwin := h.in_window
  obtain ⟨-, hsent, hholds⟩ := h.slot (by omega) (by omega)
    (h.held (ρ + 1) (by omega) (by omega))
  rw [if_pos rfl] at hholds
  exact ⟨hsent, hholds⟩

/-- `readNum ≠ receivedNum` exactly when something is left to read. -/
theorem RecvOk.more (h : RecvOk f n0 v ρ r off got) : v.readNum ≠ v.receivedNum ↔ ρ < r := by
  have hle := h.read_le
  have hwin := h.in_window
  have hsmall := h.small
  rw [h.read, h.received]
  constructor
  · intro hne
    rcases Nat.lt_or_eq_of_le hle with hlt | heq
    · exact hlt
    · exact absurd (congrArg _ heq) hne
  · intro hlt heq
    have := peerNum_inj heq (by omega) (by omega)
    omega

/-- Nothing of the EOF is read in part. -/
theorem RecvOk.off_eof (h : RecvOk f n0 v ρ r off got) (hend : f.eof = some ρ) : off = 0 := by
  rcases h.partly with hzero | ⟨hmore, -⟩
  · exact hzero
  · have := (h.next hmore).1.2 ρ hend
    omega

/-! ### Arrivals -/

/-- The in-order mark moves over the next packet when it is there. -/
theorem RecvOk.receive (h : RecvOk f n0 v ρ r off got)
    (hp : (v.rcvq (ringSlot (peerNum n0 (r + 1)))).present = true) :
    RecvOk f n0 { v with receivedNum := peerNum n0 (r + 1) } ρ (r + 1) off got := by
  have hle := h.read_le
  have hwin := h.in_window
  have hin : r + 1 ≤ ρ + v.localWindow.toNat := (h.slot (by omega) (by omega) hp).1
  refine { h with
    received := rfl, read_le := by omega, in_window := hin, held := ?_, partly := ?_ }
  · intro i hlo hhi
    rcases Nat.lt_or_eq_of_le hhi with hlt | rfl
    · exact h.held i hlo (by omega)
    · exact hp
  · rcases h.partly with hzero | ⟨hmore, hlen⟩
    · exact Or.inl hzero
    · exact Or.inr ⟨by omega, hlen⟩

/-- The loop of `conn_queue_input` keeps the invariant; the mark moves forward. -/
theorem RecvOk.advanceReceived (fuel : Nat) {k : ChaosConn}
    (h : RecvOk f n0 k.recvView ρ r off got) :
    ∃ r', r ≤ r' ∧ RecvOk f n0 (advanceReceived fuel k).recvView ρ r' off got := by
  induction fuel generalizing k r with
  | zero => exact ⟨r, Nat.le_refl r, h⟩
  | succ fuel ih =>
      have hnext : seqInc k.receivedNum = peerNum n0 (r + 1) := by
        rw [← peerNum_succ, ← h.received]
        rfl
      unfold Chaos.advanceReceived
      simp only [hnext]
      split
      · exact ⟨r, Nat.le_refl r, h⟩
      · next hthere =>
        have hp : (k.rcvq (ringSlot (peerNum n0 (r + 1)))).present = true := by
          by_contra hnot
          exact hthere (by simp [hnot])
        have hmoved := h.receive hp
        change RecvOk f n0 ({ k with receivedNum := peerNum n0 (r + 1) } : ChaosConn).recvView
          ρ (r + 1) off got at hmoved
        split
        · exact ⟨r + 1, Nat.le_succ r, hmoved⟩
        · obtain ⟨r', hle, hok⟩ := ih hmoved
          exact ⟨r', by omega, hok⟩

/-- A packet of the window whose slot is empty is stored. -/
theorem RecvOk.store (h : RecvOk f n0 v ρ r off got) {i : Nat} {p : ChaosPkt} (hlo : r < i)
    (hhi : i ≤ ρ + v.localWindow.toNat) (hsent : f.IsSent i)
    (hempty : (v.rcvq (ringSlot (peerNum n0 i))).present = false)
    (hholds : HoldsPkt f n0 i 0 p) :
    RecvOk f n0 { v with rcvq := Function.update v.rcvq (ringSlot (peerNum n0 i)) p }
      ρ r off got := by
  have hle := h.read_le
  -- packet `ρ + 1` was not held, so nothing of it was read
  have hoff : i = ρ + 1 → off = 0 := by
    rintro rfl
    rcases h.partly with hzero | ⟨hmore, -⟩
    · exact hzero
    · omega
  refine { h with slots := ?_, held := ?_ }
  · intro s hs
    by_cases hslot : s = ringSlot (peerNum n0 i)
    · subst hslot
      refine ⟨i, by omega, hhi, hsent, rfl, ?_⟩
      have hzero : (if i = ρ + 1 then off else 0) = 0 := by
        split
        · next hi => exact hoff hi
        · rfl
      simp only [Function.update_self, hzero]
      exact hholds
    · simp only [Function.update_of_ne hslot] at hs ⊢
      exact h.slots s hs
  · intro j hjlo hjhi
    have hne : ringSlot (peerNum n0 j) ≠ ringSlot (peerNum n0 i) := by
      intro heq
      have := h.held j hjlo hjhi
      rw [heq, hempty] at this
      cases this
    simp only [Function.update_of_ne hne]
    exact h.held j hjlo hjhi

/-- **Arrival.**  A packet of the peer within half a lap of the mark is stored,
or it was there already, or it is beyond the window. -/
theorem RecvOk.queueInput {k : ChaosConn} {pkt : Packet} {i : Nat}
    (h : RecvOk f n0 k.recvView ρ r off got) (hpkt : f.Sends n0 i pkt)
    (hlo : i ≤ r + 2 ^ 15) (hhi : r ≤ i + 2 ^ 15) :
    ∃ r', r ≤ r' ∧ RecvOk f n0 (connQueueInput k pkt).1.recvView ρ r' off got := by
  have hsame : ∃ r', r ≤ r' ∧ RecvOk f n0 (connSendSts k).1.recvView ρ r' off got :=
    ⟨r, Nat.le_refl r, h⟩
  have hnum : pkt.num = peerNum n0 i := hpkt.num
  have hread : k.readNum = peerNum n0 ρ := h.read
  have hreceived : k.receivedNum = peerNum n0 r := h.received
  unfold connQueueInput
  simp only
  split
  · exact hsame
  next hafter =>
  split
  · exact hsame
  next hfit =>
  rw [hnum, hreceived] at hafter
  rw [hnum, hread] at hfit
  obtain ⟨hri, hiw⟩ := peerNum_inWindow h.small h.read_le h.in_window hlo hhi
    (by simpa using hafter) hfit
  split
  · exact hsame
  next hdup =>
  have hempty : (k.rcvq (ringSlot (peerNum n0 i))).present = false := by
    by_contra hthere
    have hheld := (h.slot (i := i) (by have := h.read_le; omega) (by omega)
      (by simpa [ChaosConn.recvView] using hthere)).2.2.num
    refine hdup ?_
    have hpkt' : (k.rcvq (ringSlot pkt.num)).num = pkt.num := by
      rw [hnum]
      exact hheld
    rw [Bool.and_eq_true, decide_eq_true_iff]
    exact ⟨by rw [hnum]; simpa using hthere, hpkt'⟩
  have hstored := h.store (p := { k.rcvq (ringSlot (peerNum n0 i)) with
    present := true, num := pkt.num, opcode := pkt.opcode, data := pkt.data, offset := 0 })
    hri hiw hpkt.sent hempty ⟨hnum, hpkt.opcode, hpkt.data, rfl⟩
  rw [← hnum] at hstored
  obtain ⟨r', hle, hok⟩ := RecvOk.advanceReceived chaosRing (k := { k with
    rcvq := Function.update k.rcvq (ringSlot pkt.num) { k.rcvq (ringSlot pkt.num) with
      present := true, num := pkt.num, opcode := pkt.opcode, data := pkt.data
      offset := 0 } }) hstored
  split
  · exact ⟨r', hle, hok⟩
  · exact ⟨r', hle, hok⟩

/-! ### Reads -/

/-- Using up the next packet, of which `off` bytes were read before. -/
theorem RecvOk.consume (h : RecvOk f n0 v ρ r off got) (hmore : ρ < r) {p : ChaosPkt}
    (hused : p.present = false) (eof : Bool) (heof : eof = true → f.eof = some (ρ + 1)) :
    RecvOk f n0 { v with
        readNum := peerNum n0 (ρ + 1)
        rcvq := Function.update v.rcvq (ringSlot (peerNum n0 (ρ + 1)))
          p
        eofReceived := eof }
      (ρ + 1) r 0 (got ++ (f.bodyAt (ρ + 1)).drop off) := by
  have hwin := h.in_window
  have hsmall := h.small
  refine ⟨rfl, h.received, h.small, hmore, ?_, ?_, ?_, Or.inl rfl, ?_, heof,
    Or.inr (h.next hmore).1⟩
  · show r ≤ ρ + 1 + v.localWindow.toNat
    omega
  · intro s hs
    by_cases hslot : s = ringSlot (peerNum n0 (ρ + 1))
    · subst hslot
      simp [hused] at hs
    · simp only [Function.update_of_ne hslot] at hs ⊢
      obtain ⟨i, hlo, hhi, hsent, hs', hholds⟩ := h.slots s hs
      have hne : i ≠ ρ + 1 := by
        rintro rfl
        exact hslot hs'
      rw [if_neg hne] at hholds
      exact ⟨i, by omega, by omega, hsent, hs', by rwa [ite_self]⟩
  · intro i hlo hhi
    have hne : ringSlot (peerNum n0 i) ≠ ringSlot (peerNum n0 (ρ + 1)) := by
      intro heq
      have := ringSlot_peerNum_inj heq (by omega) (by omega)
      omega
    simp only [Function.update_of_ne hne]
    exact h.held i (by omega) hhi
  · rw [h.got_eq, List.append_assoc, List.take_append_drop, f.bytes_succ, List.take_zero,
      List.append_nil]

/-- Reading some more of the next packet without using it up. -/
theorem RecvOk.readPart (h : RecvOk f n0 v ρ r off got) (hmore : ρ < r)
    (hdata : f.eof ≠ some (ρ + 1)) {take : Nat}
    (hpart : off + take < (f.payload (ρ + 1)).length) {p : ChaosPkt}
    (hthere : p.present = true) (hholds : HoldsPkt f n0 (ρ + 1) (off + take) p) :
    RecvOk f n0 { v with rcvq := Function.update v.rcvq (ringSlot (peerNum n0 (ρ + 1))) p }
      ρ r (off + take) (got ++ ((f.payload (ρ + 1)).drop off).take take) := by
  have hbody : f.bodyAt (ρ + 1) = f.payload (ρ + 1) := if_neg hdata
  refine { h with slots := ?_, held := ?_, partly := ?_, got_eq := ?_ }
  · intro s hs
    by_cases hslot : s = ringSlot (peerNum n0 (ρ + 1))
    · subst hslot
      have hin := h.in_window
      refine ⟨ρ + 1, Nat.lt_succ_self ρ, ?_, (h.next hmore).1, rfl, ?_⟩
      · show ρ + 1 ≤ ρ + v.localWindow.toNat
        omega
      · rw [if_pos rfl]
        simp only [Function.update_self]
        exact hholds
    · simp only [Function.update_of_ne hslot] at hs ⊢
      obtain ⟨i, hlo, hhi, hsent, hs', hother⟩ := h.slots s hs
      have hne : i ≠ ρ + 1 := by
        rintro rfl
        exact hslot hs'
      rw [if_neg hne] at hother
      exact ⟨i, hlo, hhi, hsent, hs', by rwa [if_neg hne]⟩
  · intro i hlo hhi
    by_cases hslot : ringSlot (peerNum n0 i) = ringSlot (peerNum n0 (ρ + 1))
    · rw [hslot]
      simp only [Function.update_self]
      exact hthere
    · simp only [Function.update_of_ne hslot]
      exact h.held i hlo hhi
  · refine Or.inr ⟨hmore, ?_⟩
    rw [hbody]
    omega
  · rw [h.got_eq, hbody, List.append_assoc, ← List.take_add]

/-- **The loop of `chaos_recv`** moves the read mark over the bytes it returns. -/
theorem RecvOk.recvLoop (max fuel : Nat) {k : ChaosConn} {pre got : List Byte} {advanced : Bool}
    (h : RecvOk f n0 k.recvView ρ r off (pre ++ got)) :
    ∃ ρ' off', RecvOk f n0 (recvLoop max fuel k got advanced).1.recvView ρ' r off'
      (pre ++ (recvLoop max fuel k got advanced).2.1) := by
  induction fuel generalizing k ρ off got advanced with
  | zero => exact ⟨ρ, off, h⟩
  | succ fuel ih =>
      unfold Chaos.recvLoop
      simp only
      split
      case isFalse => exact ⟨ρ, off, h⟩
      next hgo =>
      have hmore : ρ < r := h.more.mp hgo.2.1
      have hnoeof : k.eofReceived = false := by simpa using hgo.2.2
      have hnum : seqInc k.readNum = peerNum n0 (ρ + 1) := by
        rw [← peerNum_succ, ← h.read]
        rfl
      obtain ⟨hsent, hholds⟩ := h.next hmore
      have hthere := h.held (ρ + 1) (by omega) (by omega)
      change HoldsPkt f n0 (ρ + 1) off (k.rcvq (ringSlot (peerNum n0 (ρ + 1)))) at hholds
      change (k.rcvq (ringSlot (peerNum n0 (ρ + 1)))).present = true at hthere
      rw [hnum]
      generalize k.rcvq (ringSlot (peerNum n0 (ρ + 1))) = p at hholds hthere
      split
      · next hop =>
        -- the EOF adds nothing to the stream
        have hend : f.eof = some (ρ + 1) := f.opcodeAt_eq_eof.mp (hholds.opcode.symm.trans hop)
        have hused := h.consume hmore (p := { p with present := false }) rfl true
          (fun _ => hend)
        rw [f.bodyAt_eof hend, List.drop_nil, List.append_nil] at hused
        exact ih (k := { k with
          eofReceived := true
          rcvq := Function.update k.rcvq (ringSlot (peerNum n0 (ρ + 1)))
            { p with present := false }
          readNum := peerNum n0 (ρ + 1) }) hused
      · next hop =>
        have hdata : f.eof ≠ some (ρ + 1) := fun hend =>
          hop (hholds.opcode.trans (f.opcodeAt_eq_eof.mpr hend))
        have hbody : f.bodyAt (ρ + 1) = f.payload (ρ + 1) := if_neg hdata
        rw [hholds.data hdata, hholds.offset]
        generalize htake : min ((f.payload (ρ + 1)).length - off) (max - got.length) = take
        split
        · next hpart =>
          have hread := h.readPart hmore hdata hpart
            (p := { p with offset := off + take, data := f.payload (ρ + 1) }) hthere
            ⟨hholds.num, hholds.opcode, fun _ => rfl, rfl⟩
          rw [List.append_assoc] at hread
          exact ⟨ρ, off + take, hread⟩
        · next hall =>
          have hused := h.consume hmore (p := { p with
              offset := off + take, present := false, data := f.payload (ρ + 1) }) rfl
            k.eofReceived (fun heof => absurd (hnoeof.symm.trans heof) Bool.false_ne_true)
          have hrest : (f.payload (ρ + 1)).drop off =
              ((f.payload (ρ + 1)).drop off).take take := by
            refine (List.take_of_length_le ?_).symm
            rw [List.length_drop]
            omega
          rw [hbody, hrest, List.append_assoc] at hused
          exact ih (k := { k with
            rcvq := Function.update k.rcvq (ringSlot (peerNum n0 (ρ + 1)))
              { p with offset := off + take, present := false, data := f.payload (ρ + 1) }
            readNum := peerNum n0 (ρ + 1) }) hused

end RecvOk

/-! ### What a call does to the receive side -/

/-- The receive side is unchanged and the connection does not reopen. -/
structure RecvKept (k k' : ChaosConn) : Prop where
  view : k'.recvView = k.recvView
  state : k'.state = k.state ∨ k'.state = connClosed

theorem RecvKept.refl (k : ChaosConn) : RecvKept k k := ⟨rfl, Or.inl rfl⟩

theorem RecvKept.trans {a b c : ChaosConn} (h1 : RecvKept a b) (h2 : RecvKept b c) :
    RecvKept a c where
  view := h2.view.trans h1.view
  state := by
    rcases h2.state with h | h
    · rcases h1.state with h' | h'
      · exact Or.inl (h.trans h')
      · exact Or.inr (h.trans h')
    · exact Or.inr h

theorem connMaybeSendEof_recvKept (k : ChaosConn) (nowMs : Millis) :
    RecvKept k (connMaybeSendEof k nowMs).1 := by
  rw [connMaybeSendEof_frame]
  exact ⟨rfl, Or.inl rfl⟩

theorem connProcessAck_recvKept (k : ChaosConn) (ack receipt : UShort) (nowMs : Millis) :
    RecvKept k (connProcessAck k ack receipt nowMs).1 := by
  have hnoted : RecvKept k (noteAck k ack receipt) := by
    rw [noteAck_eq]
    exact ⟨rfl, Or.inl rfl⟩
  rcases connProcessAck_cases k ack receipt nowMs with ⟨-, hnone⟩ | ⟨-, ⟨-, -, -, hcls⟩ | heof⟩
  · rw [hnone]
    exact .refl k
  · rw [hcls]
    exact ⟨hnoted.view, Or.inr rfl⟩
  · rw [heof]
    exact hnoted.trans (connMaybeSendEof_recvKept _ _)

theorem connSend_recvKept (k : ChaosConn) (data : List Byte) (nowMs : Millis) :
    RecvKept k (connSend k data nowMs).1.1 ∧ (connSend k data nowMs).1.1.state = k.state := by
  unfold connSend
  split
  · exact ⟨.refl k, rfl⟩
  · rw [sendLoop_frame]
    exact ⟨⟨rfl, Or.inl rfl⟩, rfl⟩

theorem connFinish_recvKept (k : ChaosConn) (nowMs : Millis) :
    RecvKept k (connFinish k nowMs).1 ∧ (connFinish k nowMs).1.state = k.state := by
  unfold connFinish
  split
  · exact ⟨.refl k, rfl⟩
  · rw [connMaybeSendEof_frame]
    exact ⟨⟨rfl, Or.inl rfl⟩, rfl⟩

/-- Nothing was received. -/
def RecvView.Blank (v : RecvView) : Prop :=
  v.readNum = v.receivedNum ∧ v.eofReceived = false ∧ ∀ s, (v.rcvq s).present = false

/-- What a part of a call does to the receive side. -/
inductive RecvPart (e : CoreEvent) (h : Fin chaosMaxConns) (k₀ k : ChaosConn) : Act → Prop
  | kept {r : Act} (same : RecvKept k r.1) : RecvPart e h k₀ k r
  | opened {r : Act} (free : k.state = connFree) (blank : r.1.recvView.Blank) :
      RecvPart e h k₀ k r
  | released {r : Act} {reason : List Byte} (call : e.call = .chaosRelease h.val reason)
      (free : r.1.state = connFree) : RecvPart e h k₀ k r
  | read {max : Nat} (call : e.call = .chaosRecv h.val max) :
      RecvPart e h k₀ k (connRecv k max e.nowMs).1
  | opn {r : Act} (pkt : Packet) (delivers : Delivers e h k₀ pkt)
      (state : k.state = connRfcSent) (opcode : pkt.opcode = chopOpn)
      (same : RecvKept (k.withOpn pkt) r.1) : RecvPart e h k₀ k r
  | queued (pkt : Packet) (delivers : Delivers e h k₀ pkt)
      (received : k.receivedNum = k₀.receivedNum) (state : k.state = connOpen)
      (opcode : chopDat ≤ pkt.opcode ∨ pkt.opcode = chopEof) :
      RecvPart e h k₀ k (connQueueInput k pkt)

theorem ConnPart.recvPart {e : CoreEvent} {h : Fin chaosMaxConns} {k₀ k : ChaosConn} {r : Act}
    (hr : ConnPart e h k₀ k r) : RecvPart e h k₀ k r := by
  cases hr with
  | opened u w n call free uniq length => exact .opened free ⟨rfl, rfl, fun _ => rfl⟩
  | sent call alive => exact .kept (connSend_recvKept k _ _).1
  | finished call alive => exact .kept (connFinish_recvKept k _).1
  | received call alive => exact .read call
  | released call alive => exact .released call rfl
  | opn pkt delivers untouched state opcode length =>
      refine .opn pkt delivers state opcode ?_
      exact (connProcessAck_recvKept (k.withOpn pkt) _ _ _).trans ⟨rfl, Or.inl rfl⟩
  | acked pkt window receipt delivers untouched state values =>
      have hset : RecvKept k (k.withWindow window) := ⟨rfl, Or.inl rfl⟩
      exact .kept (hset.trans (connProcessAck_recvKept _ _ _ _))
  | queued pkt delivers received state opcode => exact .queued pkt delivers received state opcode
  | closed kind text live why => exact .kept ⟨rfl, Or.inr rfl⟩
  | retransmitted minAge live =>
      refine .kept ?_
      rw [connRetransmit_sentOnly]
      exact ⟨rfl, Or.inl rfl⟩
  | gaveUp call untouched state wanted late => exact .kept ⟨rfl, Or.inr rfl⟩
  | _ => exact .kept ⟨rfl, Or.inl rfl⟩

/-- One call delivers at most one packet. -/
theorem Delivers.unique {e : CoreEvent} {h : Fin chaosMaxConns} {k k' : ChaosConn}
    {pkt pkt' : Packet} (h1 : Delivers e h k pkt) (h2 : Delivers e h k' pkt') : pkt = pkt' := by
  obtain ⟨frame, hcall, hread⟩ := h1.frame
  obtain ⟨frame', hcall', hread'⟩ := h2.frame
  rw [hcall] at hcall'
  obtain rfl := CoreCall.input.inj hcall'
  exact Option.some.inj (hread.symm.trans hread')

/-! ### The opening -/

/-- A connection that waits for its OPN has received nothing. -/
def RfcBlank (k : ChaosConn) : Prop := k.state = connRfcSent → k.recvView.Blank

/-- With nothing to read the loop of `chaos_recv` does nothing. -/
theorem recvLoop_blank (max fuel : Nat) {k : ChaosConn} (hk : k.readNum = k.receivedNum)
    (got : List Byte) (advanced : Bool) :
    recvLoop max fuel k got advanced = (k, got, advanced) := by
  cases fuel with
  | zero => rfl
  | succ fuel =>
      unfold recvLoop
      exact if_neg fun hgo => hgo.2.1 hk

theorem connRecv_view (k : ChaosConn) (max : Nat) (nowMs : Millis) :
    (connRecv k max nowMs).1.1.recvView =
        (recvLoop max (seqDiff k.receivedNum k.readNum).toNat k [] false).1.recvView ∧
      (connRecv k max nowMs).1.1.state = k.state := by
  unfold connRecv
  simp only
  rw [connNoteRead_frame]
  refine ⟨rfl, ?_⟩
  rw [recvLoop_frame]

theorem connQueueInput_state (k : ChaosConn) (pkt : Packet) :
    (connQueueInput k pkt).1.state = k.state := by
  rw [connQueueInput_frame]

theorem RfcBlank.part {e : CoreEvent} {h : Fin chaosMaxConns} {k₀ k : ChaosConn} {r : Act}
    (hk : RfcBlank k) (hr : ConnPart e h k₀ k r) : RfcBlank r.1 := by
  intro hrfc
  cases hr.recvPart with
  | kept same =>
      rcases same.state with hstate | hstate
      · rw [same.view]
        exact hk (hstate.symm.trans hrfc)
      · rw [hstate] at hrfc
        cases hrfc
  | opened free blank => exact blank
  | released call free =>
      rw [free] at hrfc
      cases hrfc
  | @read max call =>
      obtain ⟨hview, hstate⟩ := connRecv_view k max e.nowMs
      have hblank := hk (hstate.symm.trans hrfc)
      rw [hview, recvLoop_blank _ _ hblank.1]
      exact hblank
  | opn pkt delivers state opcode same =>
      rcases same.state with hstate | hstate
      · rw [hstate] at hrfc
        cases hrfc
      · rw [hstate] at hrfc
        cases hrfc
  | queued pkt delivers received state opcode =>
      rw [connQueueInput_state, state] at hrfc
      cases hrfc

theorem Reachable.rfcBlank {c : ChaosCore} (hc : Reachable c) (h : Fin chaosMaxConns) :
    RfcBlank (c.conns h) :=
  (hc.invariant (I := fun _ k => RfcBlank k) (fun hk hp => hk.part hp)
    (fun _ hstate => by cases hstate)).2 h

/-- The receive side an OPN with number `n0` sets up. -/
theorem RecvOk.opened (f : PeerStream) {k : ChaosConn} {pkt : Packet}
    (hsmall : k.localWindow.toNat ≤ 32) (hblank : k.recvView.Blank) :
    RecvOk f pkt.num (k.withOpn pkt).recvView 0 0 0 [] := by
  have hnone : ∀ s, (k.rcvq s).present = false := hblank.2.2
  have heof : k.eofReceived = false := hblank.2.1
  refine ⟨?_, ?_, hsmall, Nat.le_refl 0, Nat.zero_le _, ?_, ?_, Or.inl rfl, rfl, ?_, Or.inl rfl⟩
  · simp [ChaosConn.withOpn, ChaosConn.recvView, peerNum]
  · simp [ChaosConn.withOpn, ChaosConn.recvView, peerNum]
  · intro s hs
    rw [show ((k.withOpn pkt).recvView.rcvq s).present = (k.rcvq s).present from rfl,
      hnone s] at hs
    cases hs
  · intro i hlo hhi
    omega
  · intro hs
    rw [show (k.withOpn pkt).recvView.eofReceived = k.eofReceived from rfl, heof] at hs
    cases hs

/-- The call that brings the OPN to a connection that waits for it. -/
structure OpenedBy (c : ChaosCore) (h : Fin chaosMaxConns) (e : CoreEvent) (opn : Packet) :
    Prop where
  waits : (c.conns h).state = connRfcSent
  delivers : Delivers e h (c.conns h) opn
  isOpn : opn.opcode = chopOpn
  opened : ((coreStep c e).conns h).state = connOpen

/-- **After the OPN** the receive side stands at the beginning of the stream. -/
theorem OpenedBy.recvOk {c : ChaosCore} (hc : Reachable c) {h : Fin chaosMaxConns}
    {e : CoreEvent} {opn : Packet} (hopn : OpenedBy c h e opn) (f : PeerStream)
    (hsmall : (c.conns h).localWindow.toNat ≤ 32) :
    RecvOk f opn.num ((coreStep c e).conns h).recvView 0 0 0 [] := by
  obtain ⟨acts, hacts, hfrom⟩ := coreStep_acts hc.coreOk.uniquizer e
  have hopened := hopn.opened
  rw [hfrom.conns h] at hopened ⊢
  obtain ⟨frame, hcall, -⟩ := hopn.delivers.frame
  -- along the call the connection waits, or stands at the beginning, or is closed
  have hcases := (hacts h).chain.invariant
    (I := fun k => k.localWindow.toNat ≤ 32 ∧
      (k.state = connRfcSent ∧ k.recvView.Blank ∨
        k.state = connOpen ∧ RecvOk f opn.num k.recvView 0 0 0 [] ∨ k.state = connClosed))
    ?_ ⟨hsmall, Or.inl ⟨hopn.waits, hc.rfcBlank h hopn.waits⟩⟩
  · rcases hcases.2 with ⟨hstate, -⟩ | ⟨-, hok⟩ | hstate
    · rw [hopened] at hstate
      cases hstate
    · exact hok
    · rw [hopened] at hstate
      cases hstate
  · rintro k r ⟨hwin, hk⟩ hr
    cases hr.recvPart with
    | kept same =>
        have hwin' : r.1.localWindow = k.localWindow := congrArg RecvView.localWindow same.view
        rw [hwin', same.view]
        refine ⟨hwin, ?_⟩
        rcases same.state with hstate | hstate
        · rwa [hstate]
        · exact Or.inr (Or.inr hstate)
    | opened free blank => rcases hk with ⟨hs, -⟩ | ⟨hs, -⟩ | hs <;> rw [hs] at free <;> cases free
    | released call free => exact absurd (hcall.symm.trans call) nofun
    | read call => exact absurd (hcall.symm.trans call) nofun
    | opn pkt delivers state opcode same =>
        obtain rfl := delivers.unique hopn.delivers
        have hwin' : r.1.localWindow = k.localWindow := congrArg RecvView.localWindow same.view
        have hblank : k.recvView.Blank := by
          rcases hk with ⟨-, hblank⟩ | ⟨hs, -⟩ | hs
          · exact hblank
          · rw [hs] at state
            cases state
          · rw [hs] at state
            cases state
        rw [hwin', same.view]
        refine ⟨hwin, ?_⟩
        rcases same.state with hstate | hstate
        · exact Or.inr (Or.inl ⟨hstate, .opened f hwin hblank⟩)
        · exact Or.inr (Or.inr hstate)
    | queued pkt delivers received state opcode =>
        obtain rfl := delivers.unique hopn.delivers
        rw [hopn.isOpn] at opcode
        exact absurd opcode (by decide)

/-! ### Runs -/

/-- The bytes `chaos_recv` returns on connection `h`. -/
def receivedBy (h : Fin chaosMaxConns) (c : ChaosCore) (e : CoreEvent) : List Byte :=
  match e.call with
  | .chaosRecv g max => if g = h.val then (chaosRecv c g max e.nowMs).1 else []
  | _ => []

theorem receivedBy_other {h : Fin chaosMaxConns} {c : ChaosCore} {e : CoreEvent}
    (hnot : ∀ max, e.call ≠ .chaosRecv h.val max) : receivedBy h c e = [] := by
  unfold receivedBy
  split
  · next g max hcall =>
    refine if_neg ?_
    rintro rfl
    exact hnot max hcall
  · rfl

/-- The connection has been opened. -/
def Established (k : ChaosConn) : Prop := k.state = connOpen ∨ k.state = connClosed

theorem Established.ne_free {k : ChaosConn} (hk : Established k) : k.state ≠ connFree := by
  intro hfree
  rcases hk with h | h <;> rw [h] at hfree <;> cases hfree

theorem Established.ne_rfcSent {k : ChaosConn} (hk : Established k) :
    k.state ≠ connRfcSent := by
  intro hrfc
  rcases hk with h | h <;> rw [h] at hrfc <;> cases hrfc

theorem Established.of_state {k k' : ChaosConn} (hk : Established k)
    (hstate : k'.state = k.state ∨ k'.state = connClosed) : Established k' := by
  rcases hstate with h | h
  · unfold Established
    rwa [h]
  · exact Or.inr h

/-- A data packet or EOF that the call delivers is the peer's, and lies within
half a lap of packet `r`. -/
def FromPeer (f : PeerStream) (n0 : UShort) (r : Nat) (h : Fin chaosMaxConns) (k : ChaosConn)
    (e : CoreEvent) : Prop :=
  ∀ pkt, Delivers e h k pkt → (chopDat ≤ pkt.opcode ∨ pkt.opcode = chopEof) →
    ∃ i, f.Sends n0 i pkt ∧ i ≤ r + 2 ^ 15 ∧ r ≤ i + 2 ^ 15

section Step

variable {f : PeerStream} {n0 : UShort} {c : ChaosCore} {h : Fin chaosMaxConns}
  {e : CoreEvent} {ρ r off : Nat} {got : List Byte}

/-- A `chaos_recv` returns what it reads. -/
theorem recv_step {max : Nat} (hcall : e.call = .chaosRecv h.val max)
    (hinUse : Established (c.conns h))
    (hok : RecvOk f n0 (c.conns h).recvView ρ r off got) :
    Established ((coreStep c e).conns h) ∧ ∃ ρ' off',
      RecvOk f n0 ((coreStep c e).conns h).recvView ρ' r off' (got ++ receivedBy h c e) := by
  obtain ⟨hbytes, hconn⟩ := coreStep_chaosRecv hinUse.ne_free max e.nowMs
  obtain ⟨hview, hstate⟩ := connRecv_view (c.conns h) max e.nowMs
  simp only [coreStep, receivedBy, hcall, if_true]
  rw [hbytes, hconn, hview]
  refine ⟨hinUse.of_state (Or.inl hstate), ?_⟩
  rw [← List.append_nil got] at hok
  exact hok.recvLoop max _

/-- Another call reads nothing, and moves the mark only within the window. -/
theorem other_step (hc : CoreOk c) (hnot : ∀ max, e.call ≠ .chaosRecv h.val max)
    (hkeeps : Keeps h e) (hinUse : Established (c.conns h))
    (hok : RecvOk f n0 (c.conns h).recvView ρ r off got)
    (hpeer : FromPeer f n0 r h (c.conns h) e) :
    Established ((coreStep c e).conns h) ∧ ∃ r', r ≤ r' ∧
      RecvOk f n0 ((coreStep c e).conns h).recvView ρ r' off got := by
  obtain ⟨acts, hacts, hfrom⟩ := coreStep_acts hc.uniquizer e
  rw [hfrom.conns h]
  refine (hacts h).chain.invariant (I := fun k => Established k ∧
    ∃ r', r ≤ r' ∧ RecvOk f n0 k.recvView ρ r' off got) ?_
    ⟨hinUse, r, Nat.le_refl r, hok⟩
  rintro k a ⟨hest, r', hle, hok'⟩ hr
  cases hr.recvPart with
  | kept same =>
      rw [same.view]
      exact ⟨hest.of_state same.state, r', hle, hok'⟩
  | opened free blank => exact absurd free hest.ne_free
  | released call free => exact absurd call (hkeeps _)
  | read call => exact absurd call (hnot _)
  | opn pkt delivers state opcode same => exact absurd state hest.ne_rfcSent
  | queued pkt delivers received state opcode =>
      -- the mark is where it was before the call
      have heq : peerNum n0 r' = peerNum n0 r :=
        hok'.received.symm.trans (received.trans hok.received)
      have hwin := hok'.in_window
      have hsmall := hok'.small
      have hread := hok.read_le
      obtain rfl := peerNum_inj heq (by omega) (by omega)
      obtain ⟨i, hpkt, hlo, hhi⟩ := hpeer pkt delivers opcode
      obtain ⟨r'', hle', hok''⟩ := hok'.queueInput hpkt hlo hhi
      exact ⟨hest.of_state (Or.inl (connQueueInput_state k pkt)), r'', hle', hok''⟩

/-- **Step lemma of the receive side.** -/
theorem recvOk_step (hc : CoreOk c) (hkeeps : Keeps h e) (hinUse : Established (c.conns h))
    (hok : RecvOk f n0 (c.conns h).recvView ρ r off got)
    (hpeer : FromPeer f n0 r h (c.conns h) e) :
    Established ((coreStep c e).conns h) ∧ ∃ ρ' r' off',
      r + (seqDiff ((coreStep c e).conns h).receivedNum (c.conns h).receivedNum).toNat = r' ∧
      RecvOk f n0 ((coreStep c e).conns h).recvView ρ' r' off' (got ++ receivedBy h c e) := by
  have hreceived : (c.conns h).receivedNum = peerNum n0 r := hok.received
  have hdiff : ∀ {ρ' r' off' got'}, r ≤ r' → r' < r + 2 ^ 16 →
      RecvOk f n0 ((coreStep c e).conns h).recvView ρ' r' off' got' →
      r + (seqDiff ((coreStep c e).conns h).receivedNum (c.conns h).receivedNum).toNat = r' := by
    intro ρ' r' off' got' hle hlap hok'
    have hreceived' : ((coreStep c e).conns h).receivedNum = peerNum n0 r' := hok'.received
    rw [hreceived, hreceived', seqDiff_peerNum n0 hle (by omega)]
    omega
  by_cases hrecv : ∃ max, e.call = .chaosRecv h.val max
  · obtain ⟨max, hcall⟩ := hrecv
    obtain ⟨hest, ρ', off', hok'⟩ := recv_step hcall hinUse hok
    exact ⟨hest, ρ', r, off', hdiff (Nat.le_refl r) (by omega) hok', hok'⟩
  · have hnot : ∀ max, e.call ≠ .chaosRecv h.val max := fun max hm => hrecv ⟨max, hm⟩
    obtain ⟨hest, r', hle, hok'⟩ := other_step hc hnot hkeeps hinUse hok hpeer
    have hwin := hok'.in_window
    have hsmall := hok'.small
    have hread := hok.read_le
    rw [receivedBy_other hnot, List.append_nil]
    exact ⟨hest, ρ, r', off, hdiff hle (by omega) hok', hok'⟩

end Step

/-- How many packets were received in order before event `n`: the in-order mark
counted without wrapping. -/
def inOrderIndex (c : ChaosCore) (h : Fin chaosMaxConns) (es : List CoreEvent) : Nat → Nat
  | 0 => 0
  | n + 1 => inOrderIndex c h es n +
      (seqDiff (connAt c h es (n + 1)).receivedNum (connAt c h es n).receivedNum).toNat

/-- What holds of the stream connection `h` receives in the run `es`. -/
structure ReceiveLaw (f : PeerStream) (c : ChaosCore) (h : Fin chaosMaxConns)
    (es : List CoreEvent) : Prop where
  /-- The bytes returned are a prefix of what the peer sent. -/
  inOrder : ∃ n, (n = 0 ∨ f.IsSent n) ∧
    Exec.outputs coreStep (receivedBy h) c es <+: f.bytes n
  /-- The end of the stream is reported when all of it was returned. -/
  atEof : chaosRecvEof (Exec.run coreStep c es) h.val = true →
    ∃ n, f.eof = some n ∧ Exec.outputs coreStep (receivedBy h) c es = f.bytes n

theorem RecvOk.got_le {f : PeerStream} {n0 : UShort} {v : RecvView} {ρ r off : Nat}
    {got : List Byte} (hok : RecvOk f n0 v ρ r off got) :
    ∃ n, (n = 0 ∨ f.IsSent n) ∧ got <+: f.bytes n := by
  rcases hok.partly with rfl | ⟨hmore, -⟩
  · refine ⟨ρ, hok.read_sent, ?_⟩
    rw [hok.got_eq, List.take_zero, List.append_nil]
  · have htake := List.take_prefix off (f.bodyAt (ρ + 1))
    refine ⟨ρ + 1, Or.inr (hok.next hmore).1, ?_⟩
    rw [hok.got_eq, f.bytes_succ]
    exact (List.prefix_append_right_inj (f.bytes ρ)).mpr htake

/-- **Run lemma of the receive side.** -/
theorem recvOk_at {f : PeerStream} {n0 : UShort} {c : ChaosCore} {h : Fin chaosMaxConns}
    {es : List CoreEvent} (hc : Reachable c) (hinUse : Established (c.conns h))
    (hok : RecvOk f n0 (c.conns h).recvView 0 0 0 []) (hkeeps : ∀ e ∈ es, Keeps h e)
    (hpeer : ∀ n e, es[n]? = some e →
      FromPeer f n0 (inOrderIndex c h es n) h (connAt c h es n) e)
    {n : Nat} (hn : n ≤ es.length) :
    Established (connAt c h es n) ∧ ∃ ρ off,
      RecvOk f n0 (connAt c h es n).recvView ρ (inOrderIndex c h es n) off
        (Exec.outputs coreStep (receivedBy h) c (es.take n)) := by
  induction n with
  | zero => exact ⟨hinUse, 0, 0, hok⟩
  | succ n ih =>
      obtain ⟨hest, ρ, off, hok'⟩ := ih (by omega)
      obtain ⟨e, he⟩ : ∃ e, es[n]? = some e := ⟨_, List.getElem?_eq_getElem hn⟩
      have hnext : Exec.runTo coreStep c es (n + 1) =
          coreStep (Exec.runTo coreStep c es n) e := Exec.runTo_succ coreStep c he
      obtain ⟨hest', ρ', r', off', hr', hstep⟩ := recvOk_step (hc.run (es.take n)).coreOk
        (hkeeps e (List.mem_of_getElem? he)) hest hok' (hpeer n e he)
      have hout : Exec.outputs coreStep (receivedBy h) c (es.take (n + 1)) =
          Exec.outputs coreStep (receivedBy h) c (es.take n) ++
            receivedBy h (Exec.runTo coreStep c es n) e := by
        rw [List.take_add_one, he, Exec.outputs_append]
        simp [Exec.outputs, Exec.runTo]
      have hindex : inOrderIndex c h es (n + 1) = r' := by
        rw [← hr', inOrderIndex, connAt, hnext]
        rfl
      rw [connAt, hnext, hout, hindex]
      exact ⟨hest', ρ', off', hstep⟩

/-- A peer that sends `hello world` in two packets. -/
def samplePeer : PeerStream where
  opcode _ := chopDat
  payload i := if i = 1 then bytesOf "hello " else bytesOf "world"
  eof := some 3
  isData _ := by decide

/-- Its packets arrive out of order and twice, and are read in small pieces. -/
def sampleArrivals : List CoreEvent :=
  [⟨.input (sampleFrame chopDat 0x0502 0x0100 (bytesOf "world")), 1020⟩,
    ⟨.input (sampleFrame chopDat 0x0501 0x0100 (bytesOf "hello ")), 1030⟩,
    ⟨.chaosRecv 0 4, 1040⟩,
    ⟨.input (sampleFrame chopDat 0x0501 0x0100 (bytesOf "hello ")), 1050⟩,
    ⟨.input (sampleFrame chopEof 0x0503 0x0100 []), 1060⟩,
    ⟨.chaosRecv 0 100, 1070⟩]

/-- The packet in a sample frame. -/
theorem sampleFrame_delivers {opcode : Byte} {num ack : UShort} {data : List Byte}
    {nowMs : Millis} {h : Fin chaosMaxConns} {k : ChaosConn} {pkt : Packet}
    (hd : Delivers ⟨.input (sampleFrame opcode num ack data), nowMs⟩ h k pkt) :
    pkt.num = num ∧ pkt.opcode = opcode ∧ pkt.data = data.take chaosMaxData := by
  obtain ⟨frame, hcall, hread⟩ := hd.frame
  obtain rfl := CoreCall.input.inj hcall
  rw [sampleFrame, readPacket_chaosFrame] at hread
  obtain rfl := Option.some.inj hread
  exact ⟨rfl, rfl, rfl⟩

/-- The packet in `sampleOpn`. -/
def sampleOpnPkt : Packet :=
  { opcode := chopOpn, destAddr := 0o404, destIndex := 0x20
    srcAddr := 0o405, srcIndex := 0x77, num := 0x0500, ack := 0x0100
    data := chaosPut16 0x0100 ++ chaosPut16 13 }

end Chaos
