import OsxVlm.Chaos.Wire

/-!
# One connection of the Chaos NCP

The part of `chaosd/chaos-core.c` that works on a single `ChaosConn`.  The
source hands every packet to `send_raw` on the way; `send_raw` reads and
writes only the ARP table and the emit callback, never a connection, so a
function here returns the new connection together with its calls of
`send_raw` in order (`Act`), and the core performs them.

The debug trace and the meters (counters nothing reads back) are left out.
-/

namespace Chaos

/-- `ChaosConnState`. -/
inductive ChaosConnState
  | connFree
  | connRfcSent
  | connOpen
  | connClosed
  deriving DecidableEq

/-- `ChaosCloseKind`: why a connection left the open (or RFC-sent) state. -/
inductive ChaosCloseKind
  | closeNone
  | closeCls
  | closeLos
  | closeAns
  | closeTimeout
  | closeDone
  deriving DecidableEq

open ChaosConnState ChaosCloseKind

/-- `ChaosPkt`; `data` is the array up to `nBytes`. -/
structure ChaosPkt where
  present : Bool := false
  opcode : Byte := 0
  num : UShort := 0
  offset : Nat := 0
  sentAtMs : Millis := 0
  data : List Byte := []

/-- A controlled packet as it was when its number was assigned, with the
window it was sent in. -/
structure AssignedPkt where
  num : UShort
  opcode : Byte
  data : List Byte
  ackedNum : UShort
  remoteWindow : UShort
  deriving DecidableEq

/-- `ChaosConn`; the default value is the zeroed structure. -/
structure ChaosConn where
  state : ChaosConnState := connFree
  closeKind : ChaosCloseKind := closeNone
  localIndex : UShort := 0
  remoteAddr : UShort := 0
  remoteIndex : UShort := 0
  reason : List Byte := []
  sentNum : UShort := 0
  ackedNum : UShort := 0
  receiptNum : UShort := 0
  remoteWindow : UShort := 0
  sendq : Fin chaosRing → ChaosPkt := fun _ => {}
  eofWanted : Bool := false
  eofSent : Bool := false
  eofNum : UShort := 0
  finishStartMs : Millis := 0
  readNum : UShort := 0
  receivedNum : UShort := 0
  lastAckSent : UShort := 0
  localWindow : UShort := 0
  rcvq : Fin chaosRing → ChaosPkt := fun _ => {}
  eofReceived : Bool := false
  ackDueMs : Millis := 0
  openedMs : Millis := 0
  lastHeardMs : Millis := 0
  lastProbeMs : Millis := 0
  /-- History variable, read by no function: every controlled packet in the
  order its number was assigned. -/
  assigned : List AssignedPkt := []

/-- What a function does: the connection it leaves and its `send_raw` calls. -/
abbrev Act := ChaosConn × List RawSend

/-- First `r`, then `f` on the connection it left. -/
def Act.andThen (r : Act) (f : ChaosConn → Act) : Act :=
  ((f r.1).1, r.2 ++ (f r.1).2)

@[simp] theorem Act.andThen_fst (r : Act) (f : ChaosConn → Act) :
    (r.andThen f).1 = (f r.1).1 := rfl

@[simp] theorem Act.andThen_snd (r : Act) (f : ChaosConn → Act) :
    (r.andThen f).2 = r.2 ++ (f r.1).2 := rfl

/-! ### Transmission -/

/-- Uncontrolled packet on a connection; piggybacks our ack. -/
def connSendUnc (k : ChaosConn) (opcode : Byte) (num : UShort) (data : List Byte) : Act :=
  ({ k with lastAckSent := k.readNum, ackDueMs := 0 },
    [{ opcode, destAddr := k.remoteAddr, destIndex := k.remoteIndex,
       srcIndex := k.localIndex, num, ack := k.readNum, data }])

def connSendSts (k : ChaosConn) : Act :=
  connSendUnc k chopSts 0 (chaosPut16 k.receivedNum ++ chaosPut16 k.localWindow)

/-- (Re)transmit the packet in ring slot `s`. -/
def connTransmit (k : ChaosConn) (s : Fin chaosRing) (nowMs : Millis) : Act :=
  let p := { k.sendq s with sentAtMs := nowMs }
  ({ k with
      sendq := Function.update k.sendq s p
      lastAckSent := k.readNum
      ackDueMs := 0 },
    [{ opcode := p.opcode, destAddr := k.remoteAddr
       destIndex := if p.opcode = chopRfc then 0 else k.remoteIndex
       srcIndex := k.localIndex, num := p.num
       ack := if p.opcode = chopRfc then 0 else k.readNum
       data := p.data }])

def connSendControlled (k : ChaosConn) (opcode : Byte) (data : List Byte)
    (nowMs : Millis) : Act :=
  let num := seqInc k.sentNum
  let s := ringSlot num
  let p := { k.sendq s with present := true, opcode, num, offset := 0, data }
  let k := { k with
    sentNum := num
    sendq := Function.update k.sendq s p
    assigned := k.assigned ++
      [{ num, opcode, data, ackedNum := k.ackedNum, remoteWindow := k.remoteWindow }] }
  connTransmit k s nowMs

/-- One pass of the loop of `conn_retransmit`. -/
def retransmitOne (nowMs minAgeMs : Millis) (n : UShort) (k : ChaosConn) : Act :=
  let p := k.sendq (ringSlot n)
  if !p.present || p.num ≠ n then (k, [])
  else if nowMs - p.sentAtMs < minAgeMs then (k, [])
  else connTransmit k (ringSlot n) nowMs

/-- Send again every packet not yet receipted and not sent for `minAgeMs`. -/
def connRetransmit (k : ChaosConn) (nowMs minAgeMs : Millis) : Act :=
  (seqUpTo k.receiptNum k.sentNum).foldl
    (fun r n => r.andThen (retransmitOne nowMs minAgeMs n)) (k, [])

/-- `present = FALSE` for the slots of the numbers `ns`. -/
def clearPresent (q : Fin chaosRing → ChaosPkt) (ns : List UShort) :
    Fin chaosRing → ChaosPkt :=
  ns.foldl (fun q n =>
    Function.update q (ringSlot n) { q (ringSlot n) with present := false }) q

def connSetClosed (k : ChaosConn) (kind : ChaosCloseKind) (text : List Byte) : ChaosConn :=
  { k with
    state := connClosed
    closeKind := kind
    reason := text.take chaosMaxData
    sendq := fun s => { k.sendq s with present := false }
    receiptNum := k.sentNum
    ackedNum := k.sentNum
    ackDueMs := 0 }

/-- Send our CLS and close: the normal end of a connection we finished. -/
def connCloseCls (k : ChaosConn) (reason : List Byte) (kind : ChaosCloseKind) : Act :=
  (connSendUnc k chopCls 0 reason).andThen fun k => (connSetClosed k kind reason, [])

def connWindowAvailable (k : ChaosConn) : Int :=
  (k.remoteWindow.toNat : Int) - ((seqDiff k.sentNum k.ackedNum).toNat : Int)

/-- If the user has asked to finish and the window allows, send EOF. -/
def connMaybeSendEof (k : ChaosConn) (nowMs : Millis) : Act :=
  if k.state = connOpen ∧ k.eofWanted ∧ ¬ k.eofSent ∧ connWindowAvailable k > 0 then
    (connSendControlled k chopEof [] nowMs).andThen fun k =>
      ({ k with eofSent := true, eofNum := k.sentNum }, [])
  else (k, [])

/-- The part of `conn_process_ack` that moves `receiptNum` and `ackedNum`,
once both values are known to be in range. -/
def noteAck (k : ChaosConn) (ack receipt : UShort) : ChaosConn :=
  let receipt := if chaosSeqLt receipt ack then ack else receipt
  let k := if chaosSeqLt k.receiptNum receipt then
      { k with
        sendq := clearPresent k.sendq (seqUpTo k.receiptNum receipt)
        receiptNum := receipt }
    else k
  if chaosSeqLt k.ackedNum ack then { k with ackedNum := ack } else k

/-- Genera's `PROCESS-ACK`: ack implies receipt; out-of-range values ignored. -/
def connProcessAck (k : ChaosConn) (ack receipt : UShort) (nowMs : Millis) : Act :=
  if chaosSeqLt k.sentNum ack || chaosSeqLt k.sentNum receipt then (k, [])
  else
    let k := noteAck k ack receipt
    if k.eofSent ∧ ¬ chaosSeqLt k.ackedNum k.eofNum ∧ k.state = connOpen then
      connCloseCls k (bytesOf "Finished") closeDone
    else connMaybeSendEof k nowMs

/-! ### The user side -/

/-- The loop of `chaos_send`; `fuel` is the number of bytes left, and every
pass takes at least one. -/
def sendLoop (nowMs : Millis) : Nat → ChaosConn → List Byte → Act × Nat
  | 0, k, _ => ((k, []), 0)
  | fuel + 1, k, data =>
      if data ≠ [] ∧ connWindowAvailable k > 0 then
        let chunk := data.take chaosMaxData
        let r := connSendControlled k chopDat chunk nowMs
        let rest := sendLoop nowMs fuel r.1 (data.drop chaosMaxData)
        ((rest.1.1, r.2 ++ rest.1.2), chunk.length + rest.2)
      else ((k, []), 0)

/-- `chaos_send` on a connection: what it does and how many bytes it took. -/
def connSend (k : ChaosConn) (data : List Byte) (nowMs : Millis) : Act × Nat :=
  if k.state ≠ connOpen ∨ k.eofWanted then ((k, []), 0)
  else sendLoop nowMs data.length k data

/-- `chaos_finish` on a connection. -/
def connFinish (k : ChaosConn) (nowMs : Millis) : Act :=
  if k.state ≠ connOpen ∨ k.eofWanted then (k, [])
  else connMaybeSendEof { k with eofWanted := true, finishStartMs := nowMs } nowMs

/-- The loop of `chaos_recv`.  A pass that does not leave the loop advances
`readNum` towards `receivedNum`, so `fuel` is their distance.  Returns the
connection, the bytes copied out and whether a packet was used up. -/
def recvLoop (max : Nat) :
    Nat → ChaosConn → List Byte → Bool → ChaosConn × List Byte × Bool
  | 0, k, got, advanced => (k, got, advanced)
  | fuel + 1, k, got, advanced =>
      if got.length < max ∧ k.readNum ≠ k.receivedNum ∧ ¬ k.eofReceived then
        let n := seqInc k.readNum
        let s := ringSlot n
        let p := k.rcvq s
        if p.opcode = chopEof then
          recvLoop max fuel
            { k with
              eofReceived := true
              rcvq := Function.update k.rcvq s { p with present := false }
              readNum := n } got true
        else
          let take := min (p.data.length - p.offset) (max - got.length)
          let got := got ++ (p.data.drop p.offset).take take
          let p := { p with offset := p.offset + take }
          if p.offset < p.data.length then
            ({ k with rcvq := Function.update k.rcvq s p }, got, advanced)
          else
            recvLoop max fuel
              { k with
                rcvq := Function.update k.rcvq s { p with present := false }
                readNum := n } got true
      else (k, got, advanced)

/-- The end of `chaos_recv`: tell the peer its window reopened, at once when
half of it has been consumed, else shortly. -/
def connNoteRead (k : ChaosConn) (advanced : Bool) (nowMs : Millis) : Act :=
  if advanced ∧ k.state = connOpen then
    if (k.localWindow.toNat + 1) / 2 ≤ (seqDiff k.readNum k.lastAckSent).toNat ∨
        k.eofReceived then
      connSendSts k
    else if k.ackDueMs = 0 then ({ k with ackDueMs := nowMs + chaosAckDelayMs }, [])
    else (k, [])
  else (k, [])

/-- `chaos_recv` on a connection. -/
def connRecv (k : ChaosConn) (max : Nat) (nowMs : Millis) : Act × List Byte :=
  let r := recvLoop max (seqDiff k.receivedNum k.readNum).toNat k [] false
  (connNoteRead r.1 r.2.2 nowMs, r.2.1)

/-- `chaos_release` on a connection. -/
def connRelease (k : ChaosConn) (reason : List Byte) : Act :=
  let r := if k.state = connOpen then connSendUnc k chopCls 0 reason else (k, [])
  r.andThen fun _ => ({}, [])

/-- The connection `chaos_open` sets up in slot `h` before it sends the RFC. -/
def connNew (localIndex addr window firstNum : UShort) (nowMs : Millis) : ChaosConn :=
  { state := connRfcSent
    localIndex := localIndex
    remoteAddr := addr
    localWindow := window
    remoteWindow := 1
    sentNum := firstNum - 1
    ackedNum := firstNum - 1
    receiptNum := firstNum - 1
    openedMs := nowMs
    lastHeardMs := nowMs
    lastProbeMs := nowMs }

/-! ### Input -/

/-- The loop that moves the in-order mark over everything now contiguous.
Each slot can be used once, so `CHAOS_RING` passes are enough. -/
def advanceReceived : Nat → ChaosConn → ChaosConn
  | 0, k => k
  | fuel + 1, k =>
      let next := seqInc k.receivedNum
      let q := k.rcvq (ringSlot next)
      if !q.present || q.num ≠ next then k
      else
        let k := { k with receivedNum := next }
        if q.opcode = chopEof then k else advanceReceived fuel k

/-- Queue a DAT or EOF in order (Genera's `QUEUE-ORDERED-INPUT-PKT`). -/
def connQueueInput (k : ChaosConn) (pkt : Packet) : Act :=
  let num := pkt.num
  if !chaosSeqLt k.receivedNum num then connSendSts k
  else if k.localWindow < seqDiff num k.readNum then connSendSts k
  else
    let s := ringSlot num
    let p := k.rcvq s
    if p.present && p.num = num then connSendSts k
    else
      let p := { p with present := true, num, opcode := pkt.opcode,
                        data := pkt.data, offset := 0 }
      let k := advanceReceived chaosRing { k with rcvq := Function.update k.rcvq s p }
      -- an out-of-order arrival means something was lost: say what we have
      if num ≠ k.receivedNum ∧ chaosSeqLt k.receivedNum num then connSendSts k
      else (k, [])

/-- `"%o"`. -/
def octal (n : Nat) : List Byte := bytesOf (String.ofList (Nat.toDigits 8 n))

/-- The answer to a packet that fits no connection, or a closed one. -/
def losReply (pkt : Packet) (reason : List Byte) : RawSend :=
  { opcode := chopLos, destAddr := pkt.srcAddr, destIndex := pkt.srcIndex
    srcIndex := pkt.destIndex, num := 0, ack := 0, data := reason }

/-- `w` clamped to `CHAOS_MAX_WINDOW`. -/
def clampWindow (w : UShort) : UShort := if chaosMaxWindow < w then chaosMaxWindow else w

/-- `handle_chaos` on a connection in the RFC-sent state. -/
def inputRfcSent (k : ChaosConn) (pkt : Packet) (nowMs : Millis) : Act :=
  if pkt.opcode = chopOpn then
    if pkt.data.length < 4 then (k, [])
    else
      let k := { k with
        remoteIndex := pkt.srcIndex
        readNum := pkt.num
        receivedNum := pkt.num
        lastAckSent := pkt.num
        remoteWindow := clampWindow (get16At pkt.data 2)
        state := connOpen }
      (connProcessAck k pkt.ack (get16At pkt.data 0) nowMs).andThen connSendSts
  else if pkt.opcode = chopCls then (connSetClosed k closeCls pkt.data, [])
  else if pkt.opcode = chopLos then (connSetClosed k closeLos pkt.data, [])
  else if pkt.opcode = chopAns then (connSetClosed k closeAns pkt.data, [])
  else if pkt.opcode = chopFwd then
    (connSetClosed k closeLos (bytesOf "Forwarded to host " ++ octal pkt.ack.toNat ++
      bytesOf " (forwarding is not supported)"), [])
  else (k, [])

/-- `handle_chaos` on a closed connection. -/
def inputClosed (k : ChaosConn) (pkt : Packet) : Act :=
  if pkt.opcode = chopAns ∨ pkt.opcode = chopCls ∨ pkt.opcode = chopFwd ∨
      pkt.opcode = chopLos ∨ pkt.opcode = chopSts then (k, [])
  else (k, [losReply pkt (bytesOf "Connection in invalid state")])

/-- Run `f` if the connection is still open. -/
def whenOpen (f : ChaosConn → Act) (k : ChaosConn) : Act :=
  if k.state = connOpen then f k else (k, [])

/-- `handle_chaos` on an open connection. -/
def inputOpen (k : ChaosConn) (pkt : Packet) (nowMs : Millis) : Act :=
  if chopDat ≤ pkt.opcode ∨ pkt.opcode = chopEof then
    (connProcessAck k pkt.ack pkt.ack nowMs).andThen
      (whenOpen fun k => connQueueInput k pkt)
  else if pkt.opcode = chopSts then
    if pkt.data.length < 4 then (k, [])
    else
      let k := { k with remoteWindow := clampWindow (get16At pkt.data 2) }
      -- whatever the receipt doesn't cover is probably lost
      (connProcessAck k pkt.ack (get16At pkt.data 0) nowMs).andThen
        (whenOpen fun k => connRetransmit k nowMs chaosStsRetransmitMs)
  else if pkt.opcode = chopSns then
    (connProcessAck k pkt.ack pkt.ack nowMs).andThen (whenOpen connSendSts)
  else if pkt.opcode = chopOpn then connSendSts k
  else if pkt.opcode = chopCls then (connSetClosed k closeCls pkt.data, [])
  else if pkt.opcode = chopLos then (connSetClosed k closeLos pkt.data, [])
  else (k, [])

/-- `handle_chaos` once the packet has been matched to a connection. -/
def connInput (k : ChaosConn) (pkt : Packet) (nowMs : Millis) : Act :=
  let k := { k with lastHeardMs := nowMs }
  match k.state with
  | connRfcSent => inputRfcSent k pkt nowMs
  | connClosed => inputClosed k pkt
  | connOpen => inputOpen k pkt nowMs
  | connFree => (k, [])

/-! ### Timers -/

/-- The delayed STS of `chaos_core_tick`. -/
def tickAck (nowMs : Millis) (k : ChaosConn) : Act :=
  if k.ackDueMs ≠ 0 ∧ k.ackDueMs ≤ nowMs then connSendSts k else (k, [])

/-- Genera's `PROBE-CONN`: SNS when waiting for acks, when the peer's window
is shut, or when it has been quiet a long time. -/
def tickProbe (nowMs heard : Millis) (k : ChaosConn) : Act :=
  if chaosProbeMs ≤ nowMs - k.lastProbeMs then
    let k := { k with lastProbeMs := nowMs }
    if k.ackedNum ≠ k.sentNum ∨ k.remoteWindow = 0 ∨ chaosLonelyMs ≤ heard then
      connSendUnc k chopSns 0 []
    else (k, [])
  else (k, [])

/-- `chaos_core_tick` on one connection. -/
def connTick (k : ChaosConn) (nowMs : Millis) : Act :=
  if k.state = connRfcSent then
    if chaosRfcTimeoutMs ≤ nowMs - k.openedMs then
      (connSetClosed k closeTimeout (bytesOf "Host not responding"), [])
    else connRetransmit k nowMs chaosRetransmitMs
  else if k.state ≠ connOpen then (k, [])
  else
    let heard := nowMs - k.lastHeardMs
    if chaosHostDownMs ≤ heard then
      (connSetClosed k closeTimeout (bytesOf "Host stopped responding"), [])
    else if k.eofWanted ∧ chaosFinishTimeoutMs ≤ nowMs - k.finishStartMs then
      connCloseCls k (bytesOf "Finished (EOF not acknowledged)") closeDone
    else
      ((connRetransmit k nowMs chaosRetransmitMs).andThen (tickAck nowMs)).andThen
        (tickProbe nowMs heard)

end Chaos
