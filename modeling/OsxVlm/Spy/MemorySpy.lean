import Mathlib
import OsxVlm.Library.Execution
import OsxVlm.Spy.MBIN

/-!
# What the memory spy reads and writes

`RemoteMemorySpyLoop` and `SendMBINBuffers` as the accesses they make to the
structures they keep, in order, each with its start and length.  The lengths come
from the operand of a packet, which nothing compares with the bytes received or
with the space there is.
-/

namespace Spy.Memory

open Queue

abbrev Byte := BitVec 8

def PageSize : Nat := 0x100

def REMOTE_MEMORY_PACKET_DATA : Nat := 1284

def REMOTE_MEMORY_PACKET_HEADER : Nat := 10

def REMOTE_MEMORY_ALIGNED_PACKET_HEADER : Nat := 8

/-- `remote_memory_opcode`. -/
inductive Opcode where
  | discard
  | noop
  | ack
  | write
  | read
  | systemStartup
  | trap
  | boot
  | createPages
  | mbin
  | stop
  /-- The other codes, for which the loop has no case. -/
  | other
  deriving DecidableEq

def Opcode.ofByte (b : Byte) : Opcode :=
  match b.toNat with
  | 0 => .discard
  | 1 => .noop
  | 2 => .ack
  | 3 => .write
  | 4 => .read
  | 5 => .systemStartup
  | 6 => .trap
  | 7 => .boot
  | 8 => .createPages
  | 9 => .mbin
  | 10 => .stop
  | _ => .other

/-- `remote_memory_type`. -/
inductive MemoryType where
  | physical
  | virtual
  | register
  | coprocessor
  deriving DecidableEq

/-- Bits 10 and 11 of the operand. -/
def memoryType (operand : Nat) : MemoryType :=
  match operand / 1024 % 4 with
  | 0 => .physical
  | 1 => .virtual
  | 2 => .register
  | _ => .coprocessor

/-- A place and a length in one of the structures; objects in the buffer, bytes in
the others. -/
inductive Access where
  | buffer (start length : Nat)
  /-- Bytes of `pkt` are used, `received` of which came with the datagram. -/
  | pkt (received start length : Nat)
  /-- `recvfrom` stores a datagram. -/
  | receive (length : Nat)
  | reply (start length : Nat)
  /-- Bytes of the guest's buffer, an `rm_aligned_pkt`. -/
  | guest (start length : Nat)
  /-- Bytes of the `pkt` of `SendMBINBuffers`. -/
  | outgoing (start length : Nat)
  /-- `spy_transmit` sends so many bytes of a structure. -/
  | transmit (length : Nat)

/-- A whole `rm_pkt`. -/
def packetSize : Nat := REMOTE_MEMORY_PACKET_HEADER + REMOTE_MEMORY_PACKET_DATA

/-- The access stays inside the structure, and behind nothing not received. -/
def Access.Safe : Access → Prop
  | .buffer start length => start + length ≤ PageSize
  | .pkt received start length => start + length ≤ packetSize ∧ start + length ≤ received
  | .receive length => length ≤ packetSize
  | .reply start length => start + length ≤ packetSize
  | .guest start length =>
      start + length ≤ REMOTE_MEMORY_ALIGNED_PACKET_HEADER + REMOTE_MEMORY_PACKET_DATA
  | .outgoing start length => start + length ≤ packetSize
  | .transmit length => length ≤ packetSize

/-- `read_long` of the bytes at `start`. -/
def readLong (bytes : Nat → Byte) (start : Nat) : BitVec 32 :=
  bytes (start + 3) ++ bytes (start + 2) ++ bytes (start + 1) ++ bytes start

structure State where
  pkt : Nat → Byte
  mbin : MBIN
  memory : EmbPtr → Nat → Byte

inductive Event where
  /-- A datagram; `readable` tells which words of a request memory has. -/
  | datagram (bytes : List Byte) (readable : Nat → Bool)
  /-- The machine has stopped and the debugger is told. -/
  | halted
  /-- `RemoteMemorySpyLoop` stores into the history, `SendMBINBuffers` goes on. -/
  | record
  | send
  /-- The guest. -/
  | supply (bufferPtr : EmbPtr)
  | take
  | queue (bufferPtr : EmbPtr)
  | reclaim
  | write (bufferPtr : EmbPtr) (bytes : Nat → Byte)
  | activate

/-- `recvfrom` leaves the bytes behind a datagram as they were. -/
def receive (pkt : Nat → Byte) (bytes : List Byte) : Nat → Byte :=
  fun i => (bytes.take packetSize).getD i (pkt i)

/-- The operand of a packet. -/
def operand (bytes : Nat → Byte) (start : Nat) : Nat := (readLong bytes start).toNat % 2 ^ 24

/-! ### The accesses of one packet -/

/-- The first `n` objects of the buffer, one after the other. -/
def words (n : Nat) : List Access := (List.range n).map fun i => .buffer i 1

/-- The chunks of four objects of a reply. -/
def replyChunks (nchunks : Nat) : List Access :=
  (List.range nchunks).flatMap fun i =>
    [.buffer (4 * i) 4, .reply (REMOTE_MEMORY_PACKET_HEADER + 20 * i) 20]

/-- The chunks of four objects of a packet. -/
def pktChunks (received nchunks : Nat) : List Access :=
  (List.range nchunks).flatMap fun i =>
    [.pkt received (REMOTE_MEMORY_PACKET_HEADER + 4 + 20 * i) 20, .buffer (4 * i) 4]

/-- The first word memory does not have, or the number of words. -/
def firstFault (nwords : Nat) (readable : Nat → Bool) : Nat :=
  (List.range nwords).findIdx fun i => !readable i

/-- `READ_WRITE_MEMORY_ERROR`. -/
def memoryError : List Access := [.reply 6 1, .transmit REMOTE_MEMORY_PACKET_HEADER]

def acknowledge : List Access := [.transmit REMOTE_MEMORY_PACKET_HEADER]

/-- The `rm_read` case behind the words read. -/
def sendWords (nchunks : Nat) : List Access :=
  replyChunks nchunks ++ [.transmit (REMOTE_MEMORY_PACKET_HEADER + nchunks * 20)]

def readCase (received operand : Nat) (readable : Nat → Bool) : List Access :=
  let nwords := operand % 1024
  let nchunks := (nwords + 3) / 4
  let stored := firstFault nwords readable
  .pkt received REMOTE_MEMORY_PACKET_HEADER 4 ::
    match memoryType operand with
    | .register => words nwords ++ sendWords nchunks
    | .coprocessor => words nwords ++ sendWords nchunks
    | _ => words stored ++ if stored < nwords then memoryError else sendWords nchunks

def writeCase (received operand : Nat) (readable : Nat → Bool) : List Access :=
  let nwords := operand % 1024
  let nchunks := (nwords + 3) / 4
  let stored := firstFault nwords readable
  .pkt received REMOTE_MEMORY_PACKET_HEADER 4 :: pktChunks received nchunks ++
    match memoryType operand with
    | .physical => memoryError
    | .virtual =>
        words (min (stored + 1) nwords) ++ if stored < nwords then memoryError else acknowledge
    | _ => words nwords ++ acknowledge

def mbinCase (m : MBIN) (received operand : Nat) (id : BitVec 32) : List Access :=
  if m.active then
    .pkt received 2 4 ::
      if (m.history (historyID id)).id = id then
        if (m.history (historyID id)).acked then acknowledge else []
      else if m.Accepts id ∧ IsBuffer (takeWord m.hostToGuestSupplyQueue).1 then
        [.pkt received 2 REMOTE_MEMORY_ALIGNED_PACKET_HEADER,
          .guest 0 REMOTE_MEMORY_ALIGNED_PACKET_HEADER,
          .pkt received REMOTE_MEMORY_PACKET_HEADER operand,
          .guest REMOTE_MEMORY_ALIGNED_PACKET_HEADER operand]
      else []
  else []

/-- The switch of `RemoteMemorySpyLoop`. -/
def packetCase (m : MBIN) (pkt : Nat → Byte) (received : Nat) (readable : Nat → Bool) : List Access :=
  match Opcode.ofByte (pkt 9) with
  | .boot => acknowledge
  | .createPages =>
      [.pkt received REMOTE_MEMORY_PACKET_HEADER 4,
        .pkt received (REMOTE_MEMORY_PACKET_HEADER + 4) 4] ++ acknowledge
  | .noop => acknowledge
  | .read => readCase received (operand pkt 6) readable
  | .stop => acknowledge
  | .systemStartup => acknowledge
  | .write => writeCase received (operand pkt 6) readable
  | .mbin => mbinCase m received (operand pkt 6) (readLong pkt 2)
  | _ => []

/-- The head of the loop: the datagram, the reply's header, the packet's header. -/
def headerAccesses (received : Nat) : List Access :=
  [.receive received, .reply 6 3, .reply 9 1, .pkt received 2 4, .reply 2 4, .pkt received 6 4]

/-- The loop of `SendMBINBuffers` for one buffer. -/
def sendAccesses (buffer : Nat → Byte) : List Access :=
  let nBytes := operand buffer 4
  [.guest 4 4, .guest 0 REMOTE_MEMORY_ALIGNED_PACKET_HEADER,
    .outgoing 2 REMOTE_MEMORY_ALIGNED_PACKET_HEADER,
    .guest REMOTE_MEMORY_ALIGNED_PACKET_HEADER nBytes,
    .outgoing REMOTE_MEMORY_PACKET_HEADER nBytes, .guest 7 1, .guest 0 4,
    .transmit (REMOTE_MEMORY_PACKET_HEADER + nBytes)]

/-- The next step of `SendMBINBuffers` takes a buffer whose message it sends. -/
def SendsNext (m : MBIN) : Prop :=
  match m.sending with
  | .idle => filled m.guestToHostQueue ≠ 0 ∧ space m.guestToHostReturnQueue ≠ 0 ∧ m.Sends
  | _ => False

instance (m : MBIN) : Decidable (SendsNext m) := by
  unfold SendsNext
  split <;> infer_instance

/-- The loop waits for a datagram. -/
def Waits (m : MBIN) : Prop :=
  match m.recording with
  | .done => True
  | _ => False

instance (m : MBIN) : Decidable (Waits m) := by
  unfold Waits
  split <;> infer_instance

/-- The buffer `SendMBINBuffers` takes next. -/
def State.nextMessage (s : State) : Nat → Byte := s.memory (takeWord s.mbin.guestToHostQueue).1

/-- The accesses of one step. -/
def State.accesses (s : State) : Event → List Access
  | .datagram bytes readable =>
      if Waits s.mbin then
        let received := (bytes.take packetSize).length
        headerAccesses received ++ packetCase s.mbin (receive s.pkt bytes) received readable
      else []
  | .halted => [.reply 9 1, .transmit REMOTE_MEMORY_PACKET_HEADER]
  | .send => if SendsNext s.mbin then sendAccesses s.nextMessage else []
  | _ => []

def State.step (s : State) : Event → State
  | .datagram bytes _ =>
      if Waits s.mbin then
        let pkt := receive s.pkt bytes
        { s with
          pkt := pkt,
          mbin :=
            if Opcode.ofByte (pkt 9) = .mbin then (s.mbin.request (readLong pkt 2)).1
            else if Opcode.ofByte (pkt 9) = .systemStartup then { s.mbin with mbinSinValid := true }
            else s.mbin }
      else s
  | .halted => s
  | .record => { s with mbin := s.mbin.record }
  | .send =>
      { s with
        mbin := s.mbin.send (Opcode.ofByte (s.nextMessage 7) = .ack) (readLong s.nextMessage 0) }
  | .supply bufferPtr =>
      match putWord s.mbin.hostToGuestSupplyQueue bufferPtr with
      | none => s
      | some queue => { s with mbin := { s.mbin with hostToGuestSupplyQueue := queue } }
  | .take =>
      { s with
        mbin := { s.mbin with hostToGuestQueue := (takeWord s.mbin.hostToGuestQueue).2 } }
  | .queue bufferPtr =>
      match putWord s.mbin.guestToHostQueue bufferPtr with
      | none => s
      | some queue => { s with mbin := { s.mbin with guestToHostQueue := queue } }
  | .reclaim =>
      { s with
        mbin :=
          { s.mbin with
            guestToHostReturnQueue := (takeWord s.mbin.guestToHostReturnQueue).2 } }
  | .write bufferPtr bytes => { s with memory := Function.update s.memory bufferPtr bytes }
  | .activate => { s with mbin := { s.mbin with active := true } }

/-! ### Where every access is safe -/

/-- The words of a read fit the buffer, those before a fault or all of them. -/
def ReadFits (operand : Nat) (readable : Nat → Bool) : Prop :=
  let nwords := operand % 1024
  let stored := firstFault nwords readable
  match memoryType operand with
  | .register => nwords ≤ PageSize
  | .coprocessor => nwords ≤ PageSize
  | _ => if stored < nwords then stored ≤ PageSize else nwords ≤ PageSize

/-- A packet has the bytes its operand promises, and no more words than fit. -/
def PacketFits (m : MBIN) (pkt : Nat → Byte) (received : Nat) (readable : Nat → Bool) : Prop :=
  match Opcode.ofByte (pkt 9) with
  | .createPages => REMOTE_MEMORY_PACKET_HEADER + 8 ≤ received
  | .read => REMOTE_MEMORY_PACKET_HEADER + 4 ≤ received ∧ ReadFits (operand pkt 6) readable
  | .write =>
      REMOTE_MEMORY_PACKET_HEADER + 4 + 20 * ((operand pkt 6 % 1024 + 3) / 4) ≤ received
  | .mbin =>
      m.Accepts (readLong pkt 2) → IsBuffer (takeWord m.hostToGuestSupplyQueue).1 →
        REMOTE_MEMORY_PACKET_HEADER + operand pkt 6 ≤ received
  | _ => True

/-- A datagram has a whole header and fits; a message of the guest fits a packet. -/
def WithinBounds (s : State) : Event → Prop
  | .datagram bytes readable =>
      Waits s.mbin →
        let received := (bytes.take packetSize).length
        REMOTE_MEMORY_PACKET_HEADER ≤ received ∧
          PacketFits s.mbin (receive s.pkt bytes) received readable
  | .send => SendsNext s.mbin → operand s.nextMessage 4 ≤ REMOTE_MEMORY_PACKET_DATA
  | _ => True

/-- All accesses of a list are safe. -/
def AllSafe (as : List Access) : Prop := ∀ a ∈ as, a.Safe

@[simp] theorem allSafe_nil : AllSafe [] := by simp [AllSafe]

@[simp] theorem allSafe_cons {a : Access} {as : List Access} :
    AllSafe (a :: as) ↔ a.Safe ∧ AllSafe as := by simp [AllSafe]

@[simp] theorem allSafe_append {as bs : List Access} :
    AllSafe (as ++ bs) ↔ AllSafe as ∧ AllSafe bs := by
  simp [AllSafe, or_imp, forall_and]

@[simp] theorem allSafe_words {n : Nat} : AllSafe (words n) ↔ n ≤ PageSize := by
  constructor
  · intro h
    rcases Nat.eq_zero_or_pos n with rfl | hpos
    · exact Nat.zero_le _
    · have hlast : (Access.buffer (n - 1) 1).Safe := by
        apply h
        exact List.mem_map.mpr ⟨n - 1, List.mem_range.mpr (by omega), rfl⟩
      simp only [Access.Safe] at hlast
      omega
  · intro h a ha
    obtain ⟨i, hi, rfl⟩ := List.mem_map.mp ha
    have := List.mem_range.mp hi
    simp only [Access.Safe]
    omega

/-- A list of chunks is safe when its last chunk is. -/
theorem allSafe_chunks {chunk : Nat → List Access} {n : Nat} {P : Prop}
    (hlast : 0 < n → (AllSafe (chunk (n - 1)) ↔ P)) (hempty : n = 0 → P)
    (hmono : ∀ i, i < n → AllSafe (chunk (n - 1)) → AllSafe (chunk i)) :
    AllSafe ((List.range n).flatMap chunk) ↔ P := by
  constructor
  · intro h
    rcases Nat.eq_zero_or_pos n with hzero | hpos
    · exact hempty hzero
    · apply (hlast hpos).mp
      intro a ha
      exact h a (List.mem_flatMap.mpr ⟨n - 1, List.mem_range.mpr (by omega), ha⟩)
  · intro hP a ha
    obtain ⟨i, hi, ha⟩ := List.mem_flatMap.mp ha
    have hin := List.mem_range.mp hi
    exact hmono i hin ((hlast (by omega)).mpr hP) a ha

theorem allSafe_replyChunks {n : Nat} : AllSafe (replyChunks n) ↔ 4 * n ≤ PageSize := by
  apply allSafe_chunks
  · intro hpos
    simp only [allSafe_cons, allSafe_nil, Access.Safe, PageSize, packetSize,
      REMOTE_MEMORY_PACKET_HEADER, REMOTE_MEMORY_PACKET_DATA, and_true]
    omega
  · rintro rfl
    decide
  · intro i hi
    simp only [allSafe_cons, allSafe_nil, Access.Safe, PageSize, packetSize,
      REMOTE_MEMORY_PACKET_HEADER, REMOTE_MEMORY_PACKET_DATA, and_true]
    omega

/-- A packet that was received holds its chunks, and then they fit the buffer. -/
theorem allSafe_pktChunks {received n : Nat} (hr : received ≤ packetSize)
    (hhead : REMOTE_MEMORY_PACKET_HEADER + 4 ≤ received) :
    AllSafe (pktChunks received n) ↔ REMOTE_MEMORY_PACKET_HEADER + 4 + 20 * n ≤ received := by
  simp only [packetSize, REMOTE_MEMORY_PACKET_HEADER, REMOTE_MEMORY_PACKET_DATA] at hr hhead ⊢
  apply allSafe_chunks
  · intro hpos
    simp only [allSafe_cons, allSafe_nil, Access.Safe, PageSize, packetSize,
      REMOTE_MEMORY_PACKET_HEADER, REMOTE_MEMORY_PACKET_DATA, and_true]
    omega
  · rintro rfl
    omega
  · intro i hi
    simp only [allSafe_cons, allSafe_nil, Access.Safe, PageSize, packetSize,
      REMOTE_MEMORY_PACKET_HEADER, REMOTE_MEMORY_PACKET_DATA, and_true]
    omega

theorem firstFault_le (nwords : Nat) (readable : Nat → Bool) : firstFault nwords readable ≤ nwords := by
  have hle : (List.range nwords).findIdx (fun i => !readable i) ≤ (List.range nwords).length :=
    List.findIdx_le_length
  simpa [firstFault] using hle

@[simp] theorem allSafe_memoryError : AllSafe memoryError := by
  simp [memoryError, Access.Safe, packetSize, REMOTE_MEMORY_PACKET_HEADER, REMOTE_MEMORY_PACKET_DATA]

@[simp] theorem allSafe_acknowledge : AllSafe acknowledge := by
  simp [acknowledge, Access.Safe, packetSize, REMOTE_MEMORY_PACKET_HEADER, REMOTE_MEMORY_PACKET_DATA]

/-- The words of a reply fit it when they fit the buffer. -/
theorem allSafe_sendWords {nwords : Nat} :
    AllSafe (sendWords ((nwords + 3) / 4)) ↔ nwords ≤ PageSize := by
  unfold sendWords
  rw [allSafe_append, allSafe_replyChunks]
  simp only [allSafe_cons, allSafe_nil, Access.Safe, PageSize, packetSize,
    REMOTE_MEMORY_PACKET_HEADER, REMOTE_MEMORY_PACKET_DATA, and_true]
  omega

theorem allSafe_readCase {received operand : Nat} {readable : Nat → Bool}
    (hr : received ≤ packetSize) :
    AllSafe (readCase received operand readable) ↔
      REMOTE_MEMORY_PACKET_HEADER + 4 ≤ received ∧ ReadFits operand readable := by
  have hle := firstFault_le (operand % 1024) readable
  have hhead : (Access.pkt received REMOTE_MEMORY_PACKET_HEADER 4).Safe ↔
      REMOTE_MEMORY_PACKET_HEADER + 4 ≤ received := by
    simp only [Access.Safe]
    omega
  unfold readCase ReadFits
  dsimp only
  rw [allSafe_cons, hhead]
  apply and_congr_right
  intro _
  split
  · rw [allSafe_append, allSafe_words, allSafe_sendWords, and_self]
  · rw [allSafe_append, allSafe_words, allSafe_sendWords, and_self]
  · split
    · simp
    · rw [allSafe_append, allSafe_words, allSafe_sendWords]
      omega

theorem allSafe_writeCase {received operand : Nat} {readable : Nat → Bool}
    (hr : received ≤ packetSize) :
    AllSafe (writeCase received operand readable) ↔
      REMOTE_MEMORY_PACKET_HEADER + 4 + 20 * ((operand % 1024 + 3) / 4) ≤ received := by
  have hle := firstFault_le (operand % 1024) readable
  unfold writeCase
  dsimp only
  rw [List.cons_append, allSafe_cons, allSafe_append]
  constructor
  · rintro ⟨hhead, hchunks, -⟩
    exact (allSafe_pktChunks hr hhead.2).mp hchunks
  · intro h
    have hwords : operand % 1024 ≤ PageSize := by
      simp only [packetSize, REMOTE_MEMORY_PACKET_HEADER, REMOTE_MEMORY_PACKET_DATA, PageSize] at *
      omega
    refine ⟨⟨by omega, by omega⟩, (allSafe_pktChunks hr (by omega)).mpr h, ?_⟩
    split
    · exact allSafe_memoryError
    · rw [allSafe_append, allSafe_words]
      refine ⟨by omega, ?_⟩
      split
      · exact allSafe_memoryError
      · exact allSafe_acknowledge
    · rw [allSafe_append, allSafe_words]
      exact ⟨hwords, allSafe_acknowledge⟩

theorem allSafe_mbinCase {m : MBIN} {received operand : Nat} {id : BitVec 32}
    (hr : received ≤ packetSize) (hhead : REMOTE_MEMORY_PACKET_HEADER ≤ received) :
    AllSafe (mbinCase m received operand id) ↔
      (m.Accepts id → IsBuffer (takeWord m.hostToGuestSupplyQueue).1 →
        REMOTE_MEMORY_PACKET_HEADER + operand ≤ received) := by
  have hid : (Access.pkt received 2 4).Safe := by
    simp only [Access.Safe, REMOTE_MEMORY_PACKET_HEADER] at *
    omega
  unfold mbinCase
  split
  · next hactive =>
    rw [allSafe_cons]
    simp only [hid, true_and]
    split
    · next hseen =>
      have hno : ¬ m.Accepts id := fun h => h.2.1 hseen
      simp only [hno, false_implies, iff_true]
      split
      · exact allSafe_acknowledge
      · exact allSafe_nil
    · split
      · next haccepts =>
        simp only [haccepts.1, haccepts.2, true_implies, allSafe_cons, allSafe_nil, Access.Safe,
          packetSize, REMOTE_MEMORY_PACKET_HEADER, REMOTE_MEMORY_PACKET_DATA,
          REMOTE_MEMORY_ALIGNED_PACKET_HEADER, and_true] at *
        omega
      · next hno =>
        simp only [allSafe_nil, true_iff]
        intro haccepts hbuffer
        exact absurd ⟨haccepts, hbuffer⟩ hno
  · next hactive =>
    have hno : ¬ m.Accepts id := fun h => hactive h.1
    simp [hno]

theorem allSafe_packetCase {m : MBIN} {pkt : Nat → Byte} {received : Nat} {readable : Nat → Bool}
    (hr : received ≤ packetSize) (hhead : REMOTE_MEMORY_PACKET_HEADER ≤ received) :
    AllSafe (packetCase m pkt received readable) ↔ PacketFits m pkt received readable := by
  unfold packetCase PacketFits
  cases Opcode.ofByte (pkt 9) with
  | read => exact allSafe_readCase hr
  | write => exact allSafe_writeCase hr
  | mbin => exact allSafe_mbinCase hr hhead
  | createPages =>
      simp only [allSafe_append, allSafe_cons, allSafe_nil, allSafe_acknowledge, Access.Safe,
        and_true]
      simp only [packetSize, REMOTE_MEMORY_PACKET_HEADER, REMOTE_MEMORY_PACKET_DATA] at *
      omega
  | _ => simp

theorem allSafe_header {received : Nat} (hr : received ≤ packetSize) :
    AllSafe (headerAccesses received) ↔ REMOTE_MEMORY_PACKET_HEADER ≤ received := by
  simp only [headerAccesses, allSafe_cons, allSafe_nil, Access.Safe, packetSize,
    REMOTE_MEMORY_PACKET_HEADER, REMOTE_MEMORY_PACKET_DATA, and_true] at *
  omega

theorem allSafe_send {buffer : Nat → Byte} :
    AllSafe (sendAccesses buffer) ↔ operand buffer 4 ≤ REMOTE_MEMORY_PACKET_DATA := by
  simp only [sendAccesses, allSafe_cons, allSafe_nil, Access.Safe, packetSize,
    REMOTE_MEMORY_PACKET_HEADER, REMOTE_MEMORY_PACKET_DATA, REMOTE_MEMORY_ALIGNED_PACKET_HEADER,
    and_true]
  omega

/-- One step is safe just where its lengths fit. -/
theorem step_safe_iff (s : State) (e : Event) : AllSafe (s.accesses e) ↔ WithinBounds s e := by
  cases e with
  | datagram bytes readable =>
      have hr : (bytes.take packetSize).length ≤ packetSize := by simp
      simp only [State.accesses, WithinBounds]
      split
      · next hwaits =>
        simp only [hwaits, true_implies]
        rw [allSafe_append, allSafe_header hr]
        apply and_congr_right
        intro hhead
        exact allSafe_packetCase hr hhead
      · next hwaits => simp [hwaits]
  | halted =>
      simp [State.accesses, WithinBounds, Access.Safe, packetSize, REMOTE_MEMORY_PACKET_HEADER,
        REMOTE_MEMORY_PACKET_DATA]
  | send =>
      simp only [State.accesses, WithinBounds]
      split
      · next hsends => simp only [hsends, true_implies, allSafe_send]
      · next hsends => simp [hsends]
  | _ => simp [State.accesses, WithinBounds]

/-- **The memory spy.**  A run stays inside its structures and uses no byte that
was not received exactly when every datagram and every message of the guest fits. -/
theorem spy_safe_iff (s : State) (es : List Event) :
    (∀ a ∈ Exec.outputs State.step State.accesses s es, a.Safe) ↔
      Exec.Allowed State.step WithinBounds s es :=
  Exec.forall_outputs_iff.trans (Exec.allowed_congr step_safe_iff)

/-- A read of 1023 registers. -/
def registerRead : List Byte := [0, 0, 0, 0, 0, 1, 0xff, 0x0b, 0, 4, 0, 0, 0, 0]

/-- A spy with no packet yet and no MBIN channel. -/
def sampleState : State where
  pkt _ := 0
  mbin := .init ⟨8, 0, 0, fun _ => 0⟩ ⟨8, 0, 0, fun _ => 0⟩ ⟨8, 0, 0, fun _ => 0⟩ ⟨8, 0, 0, fun _ => 0⟩
  memory _ _ := 0

/-- The last of the registers is stored far behind the buffer. -/
theorem registerRead_overruns :
    ¬ ∀ a ∈ Exec.outputs State.step State.accesses sampleState
      [.datagram registerRead fun _ => true], a.Safe := by
  intro h
  have hsafe := h (.buffer 1022 1) (by
    simp [Exec.outputs, State.accesses, Waits, sampleState, MBIN.init, packetCase, receive,
      registerRead, packetSize, REMOTE_MEMORY_PACKET_HEADER, REMOTE_MEMORY_PACKET_DATA,
      Opcode.ofByte, readCase, operand, readLong, memoryType, words])
  simp [Access.Safe, PageSize] at hsafe

end Spy.Memory
