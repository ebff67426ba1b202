import Mathlib
import OsxVlm.Queue.Calls

/-!
# A network channel of the macOS back end

Four rings of buffer pointers join the guest and two host threads.  The
transmitter drains `guestToHostQ` into `guestToHostReturnQ`; the receiver fills
buffers from `hostToGuestSupplyQ` and posts them to `hostToGuestQ`.  Each thread
moves from one access of a ring to the next, the guest between any two of them.
-/

namespace Network

open Queue

abbrev EmbPtr := BitVec 32

abbrev Byte := BitVec 8

/-- Octets of an Ethernet address. -/
def ETH_ALEN : Nat := 6

/-- The least frame on the wire. -/
def ETH_ZLEN : Nat := 60

/-- A buffer in guest memory; `data` is what stands there behind the length. -/
structure EmbNetPacket where
  nBytes : Int
  data : Nat → Byte

/-- The frame in a buffer. -/
def EmbNetPacket.frame (packet : EmbNetPacket) : List Byte :=
  (List.range packet.nBytes.toNat).map packet.data

/-- The source address of a frame is made that of the interface. -/
def fixSource (hardwareAddress data : Nat → Byte) : Nat → Byte := fun i =>
  if ETH_ALEN ≤ i ∧ i < 2 * ETH_ALEN then hardwareAddress (i - ETH_ALEN) else data i

/-- `memcmp` of the source address with that of the interface. -/
def sourceDiffers (hardwareAddress data : Nat → Byte) : Bool :=
  (List.range ETH_ALEN).any fun i => data (ETH_ALEN + i) != hardwareAddress i

/-- A short frame is padded with zeros. -/
def padFrame (frame : List Byte) : List Byte :=
  frame ++ List.replicate (ETH_ZLEN - frame.length) 0

/-- The two stores of the receiver into a buffer. -/
def EmbNetPacket.copyIn (packet : EmbNetPacket) (frame : List Byte) : EmbNetPacket where
  nBytes := frame.length
  data i := frame.getD i (packet.data i)

/-- Where the receiver is in `DeliverFrameToGuest`. -/
inductive Receiver where
  | idle
  /-- Called with a frame, about to test the supply queue. -/
  | called (frame : List Byte)
  /-- About to test the receive queue. -/
  | supplied (frame : List Byte)
  /-- Asking for a buffer. -/
  | waiting (frame : List Byte)
  /-- The frame is in the buffer, which is to be posted. -/
  | posting (netPacketPtr : EmbPtr)

/-- What became of a frame. -/
inductive Fate where
  /-- Copied into the buffer, whose frame it is then, and posted. -/
  | posted (netPacketPtr : EmbPtr) (contents : List Byte)
  /-- Counted lost, at a test that saw whether there was no buffer and whether the
  receive queue was full. -/
  | lost (noBuffer receiveFull : Bool)
  /-- Dropped by a receiver that is stopped. -/
  | stopped

structure NetChannel where
  guestToHostQ : EmbQueue EmbPtr
  guestToHostReturnQ : EmbQueue EmbPtr
  hostToGuestSupplyQ : EmbQueue EmbPtr
  hostToGuestQ : EmbQueue EmbPtr
  memory : EmbPtr → EmbNetPacket
  hardwareAddress : Nat → Byte
  /-- There is a vmnet interface; without one frames are dropped. -/
  vmnetInterface : Bool
  netBroken : Bool
  nTransmitFailures : Nat
  nReceivedPacketsLost : Nat
  receiverStop : Bool
  /-- The buffer the transmitter is returning. -/
  transmitter : Option EmbPtr
  receiver : Receiver
  /-- The words that went into each ring, and those that came out of it. -/
  transmitted : List EmbPtr
  drained : List EmbPtr
  returned : List EmbPtr
  reclaimed : List EmbPtr
  supplied : List EmbPtr
  consumed : List EmbPtr
  posted : List EmbPtr
  received : List EmbPtr
  /-- The frames written to the interface. -/
  written : List (List Byte)
  /-- The frames `DeliverFrameToGuest` was called with. -/
  given : List (List Byte)
  fates : List (List Byte × Fate)

/-- The frame of a buffer goes to the interface. -/
def NetChannel.writeFrame (s : NetChannel) (netPacketPtr : EmbPtr) (success : Bool) : NetChannel :=
  let packet := s.memory netPacketPtr
  if s.vmnetInterface = true ∧ 0 < packet.nBytes then
    let differs := sourceDiffers s.hardwareAddress packet.data
    let fixed := { packet with
      data := if differs then fixSource s.hardwareAddress packet.data else packet.data }
    { s with
      memory := Function.update s.memory netPacketPtr fixed,
      netBroken := s.netBroken || differs,
      written := s.written ++ [padFrame fixed.frame],
      nTransmitFailures := if success then s.nTransmitFailures else s.nTransmitFailures + 1 }
  else s

/-- `NetworkChannelTransmitter` at the head of its loop. -/
def NetChannel.takeTransmit (s : NetChannel) (success : Bool) : NetChannel :=
  if filled s.guestToHostQ = 0 then s
  else if space s.guestToHostReturnQ = 0 then s
  else
    let netPacketPtr := (takeWord s.guestToHostQ).1
    let s' :=
      { s with
        guestToHostQ := (takeWord s.guestToHostQ).2,
        drained := s.drained ++ [netPacketPtr] }
    if netPacketPtr = 0 then s'
    else { s'.writeFrame netPacketPtr success with transmitter := some netPacketPtr }

/-- And at its end. -/
def NetChannel.putReturn (s : NetChannel) (netPacketPtr : EmbPtr) : NetChannel :=
  match putWord s.guestToHostReturnQ netPacketPtr with
  | none => s
  | some queue =>
      { s with
        guestToHostReturnQ := queue,
        returned := s.returned ++ [netPacketPtr],
        transmitter := none }

/-- A frame is counted lost. -/
def NetChannel.lose (s : NetChannel) (frame : List Byte) : NetChannel :=
  { s with
    nReceivedPacketsLost := s.nReceivedPacketsLost + 1,
    receiver := .idle,
    fates := s.fates ++
      [(frame, .lost (filled s.hostToGuestSupplyQ = 0) (space s.hostToGuestQ = 0))] }

/-- `EmbQueueTakeWord` on the supply queue, in the wait for a buffer. -/
def NetChannel.askBuffer (s : NetChannel) (frame : List Byte) : NetChannel :=
  let netPacketPtr := (takeWord s.hostToGuestSupplyQ).1
  let s' :=
    { s with
      hostToGuestSupplyQ := (takeWord s.hostToGuestSupplyQ).2,
      consumed :=
        if filled s.hostToGuestSupplyQ = 0 then s.consumed else s.consumed ++ [netPacketPtr] }
  if netPacketPtr = 0 then
    if s.receiverStop then { s' with receiver := .idle, fates := s.fates ++ [(frame, .stopped)] }
    else s'
  else
    let packet := (s.memory netPacketPtr).copyIn frame
    { s' with
      memory := Function.update s.memory netPacketPtr packet,
      receiver := .posting netPacketPtr,
      fates := s.fates ++ [(frame, .posted netPacketPtr packet.frame)] }

/-- One step of `DeliverFrameToGuest`. -/
def NetChannel.receiverStep (s : NetChannel) : NetChannel :=
  match s.receiver with
  | .idle => s
  | .called frame =>
      if space s.hostToGuestSupplyQ = 0 then s.lose frame
      else { s with receiver := .supplied frame }
  | .supplied frame =>
      if space s.hostToGuestQ = 0 then s.lose frame else { s with receiver := .waiting frame }
  | .waiting frame => s.askBuffer frame
  | .posting netPacketPtr =>
      match putWord s.hostToGuestQ netPacketPtr with
      | none => s
      | some queue =>
          { s with
            hostToGuestQ := queue,
            posted := s.posted ++ [netPacketPtr],
            receiver := .idle }

inductive Event where
  /-- The guest queues a buffer to send, or supplies one to fill. -/
  | transmit (netPacketPtr : EmbPtr)
  | supply (netPacketPtr : EmbPtr)
  /-- The guest takes back a sent buffer, or takes a filled one. -/
  | reclaim
  | receive
  /-- The guest writes a buffer. -/
  | write (netPacketPtr : EmbPtr) (packet : EmbNetPacket)
  /-- The transmitter goes on; `success` is what `vmnet_write` answers it. -/
  | transmitter (success : Bool)
  /-- `DeliverFrameToGuest` is called with a frame. -/
  | frame (frame : List Byte)
  | receiver
  | stop

def NetChannel.step (s : NetChannel) : Event → NetChannel
  | .transmit netPacketPtr =>
      match putWord s.guestToHostQ netPacketPtr with
      | none => s
      | some queue =>
          { s with guestToHostQ := queue, transmitted := s.transmitted ++ [netPacketPtr] }
  | .supply netPacketPtr =>
      match putWord s.hostToGuestSupplyQ netPacketPtr with
      | none => s
      | some queue =>
          { s with hostToGuestSupplyQ := queue, supplied := s.supplied ++ [netPacketPtr] }
  | .reclaim =>
      if filled s.guestToHostReturnQ = 0 then s
      else
        { s with
          guestToHostReturnQ := (takeWord s.guestToHostReturnQ).2,
          reclaimed := s.reclaimed ++ [(takeWord s.guestToHostReturnQ).1] }
  | .receive =>
      if filled s.hostToGuestQ = 0 then s
      else
        { s with
          hostToGuestQ := (takeWord s.hostToGuestQ).2,
          received := s.received ++ [(takeWord s.hostToGuestQ).1] }
  | .write netPacketPtr packet =>
      { s with memory := Function.update s.memory netPacketPtr packet }
  | .transmitter success =>
      match s.transmitter with
      | none => s.takeTransmit success
      | some netPacketPtr => s.putReturn netPacketPtr
  | .frame frame =>
      match s.receiver with
      | .idle => { s with receiver := .called frame, given := s.given ++ [frame] }
      | _ => s
  | .receiver => s.receiverStep
  | .stop => { s with receiverStop := true }

/-- The channel before any buffer or frame. -/
def NetChannel.init (transmitQueue returnQueue supplyQueue receiveQueue : EmbQueue EmbPtr)
    (memory : EmbPtr → EmbNetPacket) (hardwareAddress : Nat → Byte) (vmnetInterface : Bool) :
    NetChannel where
  guestToHostQ := transmitQueue
  guestToHostReturnQ := returnQueue
  hostToGuestSupplyQ := supplyQueue
  hostToGuestQ := receiveQueue
  memory := memory
  hardwareAddress := hardwareAddress
  vmnetInterface := vmnetInterface
  netBroken := false
  nTransmitFailures := 0
  nReceivedPacketsLost := 0
  receiverStop := false
  transmitter := none
  receiver := .idle
  transmitted := []
  drained := []
  returned := []
  reclaimed := []
  supplied := []
  consumed := []
  posted := []
  received := []
  written := []
  given := []
  fates := []

/-- What the receiver copies into a buffer is there whole. -/
@[simp] theorem copyIn_frame (packet : EmbNetPacket) (frame : List Byte) :
    (packet.copyIn frame).frame = frame := by
  apply List.ext_getElem
  · simp [EmbNetPacket.frame, EmbNetPacket.copyIn]
  · intro i h1 h2
    simp [EmbNetPacket.frame, EmbNetPacket.copyIn, h2]

end Network
