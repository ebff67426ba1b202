import OsxVlm.Library.SerialNumber

/-!
# Chaos-over-Ethernet: words, frames and packets

The wire layer of `chaosd/chaos-core.c`: little-endian 16-bit words, the
Ethernet and Chaos headers and the chaos-ARP frame.  A frame is the list of
its bytes; `chaosFrame` is what `send_raw` builds and `readPacket` is what
`handle_chaos` reads back.
-/

namespace Chaos

/-- `unsigned char`. -/
abbrev Byte := BitVec 8

/-- `unsigned short`: addresses, connection indexes and packet numbers. -/
abbrev UShort := BitVec 16

/-- A time in milliseconds (`uint64_t`). -/
abbrev Millis := BitVec 64

/-- An Ethernet hardware address. -/
abbrev Mac := Vector Byte 6

/-- The bytes of a C string literal. -/
def bytesOf (s : String) : List Byte :=
  s.toList.map fun ch => BitVec.ofNat 8 ch.toNat

/-! ### Constants of `chaos-core.h` -/

def chaosEthHeader : Nat := 14
def chaosHeader : Nat := 16
def chaosMaxData : Nat := 488
def chaosArpFrame : Nat := chaosEthHeader + 8 + 6 + 2 + 6 + 2

def chopRfc : Byte := 0o001
def chopOpn : Byte := 0o002
def chopCls : Byte := 0o003
def chopFwd : Byte := 0o004
def chopAns : Byte := 0o005
def chopSns : Byte := 0o006
def chopSts : Byte := 0o007
def chopRut : Byte := 0o010
def chopLos : Byte := 0o011
def chopLsn : Byte := 0o012
def chopMnt : Byte := 0o013
def chopEof : Byte := 0o014
def chopBrd : Byte := 0o016
def chopDat : Byte := 0o200

def chaosMaxConns : Nat := 32
def chaosRing : Nat := 64
def chaosMaxWindow : UShort := 50
def chaosArpEntries : Nat := 64

def chaosRetransmitMs : Millis := 500
def chaosStsRetransmitMs : Millis := 100
def chaosAckDelayMs : Millis := 30
def chaosProbeMs : Millis := 5000
def chaosLonelyMs : Millis := 60000
def chaosHostDownMs : Millis := 90000
def chaosRfcTimeoutMs : Millis := 20000
def chaosFinishTimeoutMs : Millis := 10000
def chaosArpRetryMs : Millis := 500
def chaosArpRefreshMs : Millis := 300000

/-! ### 16-bit words -/

/-- `chaos_get16`, on the two bytes it reads. -/
def chaosGet16 (lo hi : Byte) : UShort :=
  lo.setWidth 16 ||| (hi.setWidth 16 <<< 8)

/-- `chaos_put16`: the two bytes it stores. -/
def chaosPut16 (v : UShort) : List Byte :=
  [(v &&& 0xFF).setWidth 8, (v >>> 8).setWidth 8]

/-- Byte `i` of a frame or of packet data. -/
def byteAt (f : List Byte) (i : Nat) : Byte := f.getD i 0

/-- `chaos_get16 (f + i)`. -/
def get16At (f : List Byte) (i : Nat) : UShort :=
  chaosGet16 (byteAt f i) (byteAt f (i + 1))

/-- The six bytes `f + i`. -/
def macAt (f : List Byte) (i : Nat) : Mac :=
  Vector.ofFn fun j => byteAt f (i + j)

/-- `chaos_get16` reads back what `chaos_put16` stored. -/
theorem chaosGet16_put16 (v : UShort) :
    chaosGet16 ((v &&& 0xFF).setWidth 8) ((v >>> 8).setWidth 8) = v := by
  ext i hi
  interval_cases i <;> simp [chaosGet16]

/-! ### Packet numbers -/

/-- `a < b` in 16-bit sequence space (Genera's `PKTNUM-<`). -/
def chaosSeqLt (a b : UShort) : Bool := ((a - b) &&& 0x8000) != 0

def seqDiff (a b : UShort) : UShort := a - b

def seqInc (a : UShort) : UShort := a + 1

/-- The masked test of the source is the sign of the difference. -/
theorem chaosSeqLt_eq_before (a b : UShort) :
    chaosSeqLt a b = Serial.before a b := by
  have hmask : (0x8000 : UShort) = BitVec.twoPow 16 15 := rfl
  rw [chaosSeqLt, Serial.before, hmask, BitVec.and_twoPow, BitVec.msb_eq_getLsbD_last]
  cases (a - b).getLsbD 15 <;> simp

/-- The ring slot of a packet number: `n & (CHAOS_RING - 1)`. -/
def ringSlot (n : UShort) : Fin chaosRing :=
  ⟨(n &&& 63).toNat, by
    have h : (n &&& 63).toNat ≤ (63 : UShort).toNat := by
      rw [BitVec.toNat_and]
      exact Nat.and_le_right
    exact Nat.lt_of_le_of_lt h (by decide)⟩

theorem ringSlot_val (n : UShort) : (ringSlot n).val = n.toNat % 64 := by
  show (n &&& 63).toNat = n.toNat % 64
  rw [BitVec.toNat_and]
  exact Nat.and_two_pow_sub_one_eq_mod n.toNat 6

/-- Numbers less than a ring apart share a slot only when they are equal. -/
theorem ringSlot_inj {s x y : UShort} (hx : Serial.behind s x < 64)
    (hy : Serial.behind s y < 64) (h : ringSlot x = ringSlot y) : x = y := by
  have hmod : x.toNat % 64 = y.toNat % 64 := by
    rw [← ringSlot_val, ← ringSlot_val, h]
  apply Serial.behind_inj (s := s)
  simp only [Serial.behind, BitVec.toNat_sub] at hx hy ⊢
  omega

/-- The values of the loop `for (n = seq_inc (lo); !chaos_seq_lt (hi, n); n = seq_inc (n))`. -/
def seqUpTo (lo hi : UShort) : List UShort :=
  Serial.countUp (2 ^ 16) (seqInc lo) hi

theorem mem_seqUpTo {lo hi n : UShort} (h : Serial.behind hi lo ≤ 2 ^ 15) :
    n ∈ seqUpTo lo hi ↔ Serial.behind hi n < Serial.behind hi lo :=
  Serial.mem_countUp (by decide) (by omega) (by omega)

theorem seqUpTo_self (n : UShort) : seqUpTo n n = [] := by
  have hmem : ∀ m, m ∉ seqUpTo n n := by
    intro m hm
    have := (mem_seqUpTo (by simp)).mp hm
    simp at this
  exact List.eq_nil_iff_forall_not_mem.mpr hmem

/-! ### Frames -/

/-- The arguments of one call of `send_raw`. -/
structure RawSend where
  opcode : Byte
  destAddr : UShort
  destIndex : UShort
  srcIndex : UShort
  num : UShort
  ack : UShort
  data : List Byte

/-- The frame `send_raw` builds: Ethernet header, Chaos header, data. -/
def chaosFrame (dst src : Mac) (myAddr : UShort) (s : RawSend) : List Byte :=
  let data := s.data.take chaosMaxData
  dst.toList ++ src.toList ++ [0x08, 0x04] ++
    ([0, s.opcode] ++ chaosPut16 (BitVec.ofNat 16 data.length &&& 0xFFF) ++
      chaosPut16 s.destAddr ++ chaosPut16 s.destIndex ++
      chaosPut16 myAddr ++ chaosPut16 s.srcIndex ++
      chaosPut16 s.num ++ chaosPut16 s.ack) ++ data

/-- A chaos-ARP frame: operation 1 is a request, 2 a reply. -/
def arpFrame (dst src : Mac) (op : Byte) (spa : UShort) (tha : Mac) (tpa : UShort) :
    List Byte :=
  dst.toList ++ src.toList ++ [0x08, 0x06] ++
    [0, 1, 0x08, 0x04, 6, 2, 0, op] ++ src.toList ++ chaosPut16 spa ++
    tha.toList ++ chaosPut16 tpa

/-- The Ethernet type of a frame. -/
def etherType (f : List Byte) : UShort := chaosGet16 (byteAt f 13) (byteAt f 12)

def chaosEthertype : UShort := 0x0804
def arpEthertype : UShort := 0x0806

/-- The fields of a Chaos packet that the program reads. -/
structure Packet where
  opcode : Byte
  destAddr : UShort
  destIndex : UShort
  srcAddr : UShort
  srcIndex : UShort
  num : UShort
  ack : UShort
  data : List Byte
  deriving DecidableEq

/-- The header word that holds the data length (low 12 bits). -/
def packetBytes (f : List Byte) : Nat := (get16At f 16 &&& 0xFFF).toNat

/-- The packet in a frame; `none` when the frame is too short for its header
or for the data it announces. -/
def readPacket (f : List Byte) : Option Packet :=
  if f.length < chaosEthHeader + chaosHeader then none
  else if chaosMaxData < packetBytes f ∨
      f.length - chaosEthHeader - chaosHeader < packetBytes f then none
  else some
    { opcode := byteAt f 15
      destAddr := get16At f 18
      destIndex := get16At f 20
      srcAddr := get16At f 22
      srcIndex := get16At f 24
      num := get16At f 26
      ack := get16At f 28
      data := (f.drop (chaosEthHeader + chaosHeader)).take (packetBytes f) }

theorem readPacket_data_length {f : List Byte} {p : Packet} (h : readPacket f = some p) :
    p.data.length ≤ chaosMaxData := by
  unfold readPacket at h
  split at h
  · cases h
  · split at h
    · cases h
    · obtain rfl := Option.some.inj h
      simp only [List.length_take]
      omega

theorem mac_toList (m : Mac) : m.toList = [m[0], m[1], m[2], m[3], m[4], m[5]] := by
  apply List.ext_getElem (by simp)
  intro i h1 h2
  have hi : i < 6 := by simpa using h1
  interval_cases i <;> simp

/-- The announced length of a frame `send_raw` built. -/
theorem packetLength_masked {n : Nat} (h : n ≤ chaosMaxData) :
    (BitVec.ofNat 16 n &&& 0xFFF &&& 0xFFF).toNat = n := by
  have hlt : n < 2 ^ 12 := by
    unfold chaosMaxData at h
    omega
  have hidem : BitVec.ofNat 16 n &&& 0xFFF &&& 0xFFF = BitVec.ofNat 16 n &&& 0xFFF := by
    rw [BitVec.and_assoc, BitVec.and_self]
  rw [hidem, BitVec.toNat_and, BitVec.toNat_ofNat, Nat.mod_eq_of_lt (by omega)]
  exact (Nat.and_two_pow_sub_one_eq_mod n 12).trans (Nat.mod_eq_of_lt hlt)

/-- A frame built by `send_raw` reads back as the packet it was built from. -/
theorem readPacket_chaosFrame (dst src : Mac) (myAddr : UShort) (s : RawSend) :
    readPacket (chaosFrame dst src myAddr s) = some
      { opcode := s.opcode, destAddr := s.destAddr, destIndex := s.destIndex
        srcAddr := myAddr, srcIndex := s.srcIndex, num := s.num, ack := s.ack
        data := s.data.take chaosMaxData } := by
  have hlen : (s.data.take chaosMaxData).length ≤ chaosMaxData := by
    simp [List.length_take]
  have hbytes : packetBytes (chaosFrame dst src myAddr s) =
      (s.data.take chaosMaxData).length := by
    rw [← packetLength_masked hlen, packetBytes, chaosFrame, mac_toList, mac_toList]
    exact congrArg (fun v : UShort => (v &&& 0xFFF).toNat) (chaosGet16_put16 _)
  have hsize : (chaosFrame dst src myAddr s).length =
      chaosEthHeader + chaosHeader + (s.data.take chaosMaxData).length := by
    simp only [chaosFrame, List.length_append, Vector.length_toList, chaosPut16,
      List.length_cons, List.length_nil, chaosEthHeader, chaosHeader]
  have hdata : (chaosFrame dst src myAddr s).drop (chaosEthHeader + chaosHeader) =
      s.data.take chaosMaxData := by
    rw [chaosFrame, mac_toList, mac_toList]
    rfl
  unfold readPacket
  rw [hbytes, hsize, hdata, if_neg (by omega), if_neg (by omega), List.take_length,
    chaosFrame, mac_toList, mac_toList]
  simp only [Option.some.injEq, Packet.mk.injEq, and_true]
  exact ⟨rfl, chaosGet16_put16 _, chaosGet16_put16 _, chaosGet16_put16 _,
    chaosGet16_put16 _, chaosGet16_put16 _, chaosGet16_put16 _⟩

theorem etherType_chaosFrame (dst src : Mac) (myAddr : UShort) (s : RawSend) :
    etherType (chaosFrame dst src myAddr s) = chaosEthertype := by
  rw [chaosFrame, mac_toList, mac_toList]
  exact (by decide : chaosGet16 0x04 0x08 = chaosEthertype)

theorem etherType_arpFrame (dst src : Mac) (op : Byte) (spa : UShort) (tha : Mac)
    (tpa : UShort) : etherType (arpFrame dst src op spa tha tpa) = arpEthertype := by
  rw [arpFrame, mac_toList, mac_toList]
  exact (by decide : chaosGet16 0x06 0x08 = arpEthertype)

end Chaos
