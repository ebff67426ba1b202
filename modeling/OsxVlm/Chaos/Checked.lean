import OsxVlm.Library.BoundedArray
import OsxVlm.Chaos.Step

/-!
# The input path with its arrays

`chaos_core_input` and all it calls, written with the arrays of the source: the
received bytes, the frame buffers, the 64-slot rings, the data area of a packet,
the message buffers and the connection and ARP tables.  Every access is one of
`Library.BoundedArray` and fails outside its array.  The names are those of the
functions of `Chaos.Conn` and `Chaos.Core`, which say what is computed.
-/

namespace Chaos.Checked

open Bounded ChaosConnState ChaosCloseKind

def chaosMaxFrame : Nat := chaosEthHeader + chaosHeader + chaosMaxData

/-- `chaos_get16 (p + i)`. -/
def chaosGet16 (p : List Byte) (i : Nat) : Option UShort := do
  let lo ← load p i
  let hi ← load p (i + 1)
  some (Chaos.chaosGet16 lo hi)

/-- The hardware address at `p + i`. -/
def macFrom (p : List Byte) (i : Nat) : Option Mac := do
  let bs ← copyOut p i 6
  some (Vector.ofFn fun j => byteAt bs j)

/-! ### ARP -/

/-- The first loop of `arp_find`. -/
def arpScan (c : ChaosCore) (addr : UShort) : List Nat → Option (Option (Fin chaosArpEntries))
  | [] => some none
  | i :: is => do
      let s ← slot chaosArpEntries i
      if ((c.arp s).valid || (c.arp s).requested) && (c.arp s).addr = addr then some (some s)
      else arpScan c addr is

/-- Its second loop. -/
def arpVictim (arp : Fin chaosArpEntries → ChaosArpEntry) :
    List Nat → Millis → Nat → Option Nat
  | [], _, victim => some victim
  | i :: is, oldest, victim => do
      let s ← slot chaosArpEntries i
      if !(arp s).valid && !(arp s).requested then some i
      else if (arp s).learnedMs < oldest then arpVictim arp is (arp s).learnedMs i
      else arpVictim arp is oldest victim

def arpFindCreate (c : ChaosCore) (addr : UShort) :
    Option (Fin chaosArpEntries × ChaosCore) := do
  match ← arpScan c addr (List.range chaosArpEntries) with
  | some s => some (s, c)
  | none =>
      let victim ← arpVictim c.arp (List.range chaosArpEntries) (BitVec.allOnes 64) 0
      let s ← slot chaosArpEntries victim
      some (s, c.setArp s { addr })

def arpSendRequest (c : ChaosCore) (i : Fin chaosArpEntries) (nowMs : Millis) :
    Option ChaosCore := do
  let e := c.arp i
  let a := chaosEthHeader
  let f ← stores (List.replicate chaosArpFrame 0)
    [(0, List.replicate 6 0xFF), (6, c.myMac.toList), (12, [0x08]), (13, [0x06]),
      (a, [0]), (a + 1, [1]), (a + 2, [0x08]), (a + 3, [0x04]), (a + 4, [6]), (a + 5, [2]),
      (a + 6, [0]), (a + 7, [1]), (a + 8, c.myMac.toList), (a + 14, chaosPut16 c.myAddr),
      (a + 16, List.replicate 6 0), (a + 22, chaosPut16 e.addr)]
  some (emitFrame (c.setArp i { e with requested := true, requestedMs := nowMs }) f)

def arpResolve (c : ChaosCore) (addr : UShort) (nowMs : Millis) :
    Option (Option Mac × ChaosCore) := do
  let (i, c) ← arpFindCreate c addr
  let e := c.arp i
  if e.valid then
    let c ← if chaosArpRefreshMs < nowMs - e.learnedMs ∧
        (¬ e.requested ∨ chaosArpRetryMs * 20 ≤ nowMs - e.requestedMs) then
      arpSendRequest c i nowMs
    else some c
    some (some e.mac, c)
  else
    let c ← if ¬ e.requested ∨ chaosArpRetryMs ≤ nowMs - e.requestedMs then
      arpSendRequest c i nowMs
    else some c
    some (none, c)

/-! ### Transmission -/

def sendRaw (c : ChaosCore) (s : RawSend) (nowMs : Millis) : Option ChaosCore := do
  let nBytes := min s.data.length chaosMaxData
  match ← arpResolve c s.destAddr nowMs with
  | (none, c) => some c
  | (some dst, c) =>
      let ch := chaosEthHeader
      let data ← copyOut s.data 0 nBytes
      let f ← stores (List.replicate chaosMaxFrame 0)
        [(0, dst.toList), (6, c.myMac.toList), (12, [0x08]), (13, [0x04]),
          (ch, [0]), (ch + 1, [s.opcode]),
          (ch + 2, chaosPut16 (BitVec.ofNat 16 nBytes &&& 0xFFF)),
          (ch + 4, chaosPut16 s.destAddr), (ch + 6, chaosPut16 s.destIndex),
          (ch + 8, chaosPut16 c.myAddr), (ch + 10, chaosPut16 s.srcIndex),
          (ch + 12, chaosPut16 s.num), (ch + 14, chaosPut16 s.ack), (ch + chaosHeader, data)]
      let out ← copyOut f 0 (chaosEthHeader + chaosHeader + nBytes)
      some (emitFrame c out)

def perform (c : ChaosCore) (h : Fin chaosMaxConns) (r : Act) (nowMs : Millis) :
    Option ChaosCore :=
  r.2.foldlM (fun c s => sendRaw c s nowMs) (c.setConn h r.1)

/-- First `r`, then `f` on the connection it left. -/
def andThen (r : Act) (f : ChaosConn → Option Act) : Option Act := do
  let r' ← f r.1
  some (r'.1, r.2 ++ r'.2)

def connSendControlled (k : ChaosConn) (opcode : Byte) (data : List Byte) (nowMs : Millis) :
    Option Act := do
  let num := seqInc k.sentNum
  let s ← slot chaosRing (num &&& 63).toNat
  let data ← copyInto chaosMaxData data
  let p := { k.sendq s with present := true, opcode, num, offset := 0, data }
  let k := { k with
    sentNum := num
    sendq := Function.update k.sendq s p
    assigned := k.assigned ++
      [{ num, opcode, data, ackedNum := k.ackedNum, remoteWindow := k.remoteWindow }] }
  some (connTransmit k s nowMs)

def retransmitOne (nowMs minAgeMs : Millis) (n : UShort) (k : ChaosConn) : Option Act := do
  let s ← slot chaosRing (n &&& 63).toNat
  let p := k.sendq s
  if !p.present || p.num ≠ n then some (k, [])
  else if nowMs - p.sentAtMs < minAgeMs then some (k, [])
  else some (connTransmit k s nowMs)

def connRetransmit (k : ChaosConn) (nowMs minAgeMs : Millis) : Option Act :=
  (seqUpTo k.receiptNum k.sentNum).foldlM
    (fun r n => andThen r (retransmitOne nowMs minAgeMs n)) (k, [])

/-- `sendq[s].present = FALSE`. -/
def clearSlot (q : Fin chaosRing → ChaosPkt) (s : Fin chaosRing) : Fin chaosRing → ChaosPkt :=
  Function.update q s { q s with present := false }

def clearPresent (q : Fin chaosRing → ChaosPkt) (ns : List UShort) :
    Option (Fin chaosRing → ChaosPkt) :=
  ns.foldlM (fun q n => do
    let s ← slot chaosRing (n &&& 63).toNat
    some (clearSlot q s)) q

/-- `conn_set_closed`: the message is the `nBytes` bytes from `text + i`. -/
def connSetClosed (k : ChaosConn) (kind : ChaosCloseKind) (text : List Byte) (i nBytes : Nat) :
    Option ChaosConn := do
  let nBytes := min nBytes chaosMaxData
  let reason ← copyOut text i nBytes
  let _ ← copyInto (chaosMaxData + 1) (reason ++ [0])
  let sendq ← (List.range chaosRing).foldlM (fun q i => do
    some (clearSlot q (← slot chaosRing i))) k.sendq
  some { k with
    state := connClosed
    closeKind := kind
    reason
    sendq
    receiptNum := k.sentNum
    ackedNum := k.sentNum
    ackDueMs := 0 }

def connCloseCls (k : ChaosConn) (reason : List Byte) (kind : ChaosCloseKind) : Option Act :=
  andThen (connSendUnc k chopCls 0 reason) fun k => do
    let k ← connSetClosed k kind reason 0 reason.length
    some (k, [])

def connMaybeSendEof (k : ChaosConn) (nowMs : Millis) : Option Act := do
  if k.state = connOpen ∧ k.eofWanted ∧ ¬ k.eofSent ∧ connWindowAvailable k > 0 then
    let r ← connSendControlled k chopEof [] nowMs
    some ({ r.1 with eofSent := true, eofNum := r.1.sentNum }, r.2)
  else some (k, [])

def noteAck (k : ChaosConn) (ack receipt : UShort) : Option ChaosConn := do
  let receipt := if chaosSeqLt receipt ack then ack else receipt
  let k ← if chaosSeqLt k.receiptNum receipt then do
      let sendq ← clearPresent k.sendq (seqUpTo k.receiptNum receipt)
      some { k with sendq, receiptNum := receipt }
    else some k
  some (if chaosSeqLt k.ackedNum ack then { k with ackedNum := ack } else k)

def connProcessAck (k : ChaosConn) (ack receipt : UShort) (nowMs : Millis) : Option Act := do
  if chaosSeqLt k.sentNum ack || chaosSeqLt k.sentNum receipt then some (k, [])
  else
    let k ← noteAck k ack receipt
    if k.eofSent ∧ ¬ chaosSeqLt k.ackedNum k.eofNum ∧ k.state = connOpen then
      connCloseCls k (bytesOf "Finished") closeDone
    else connMaybeSendEof k nowMs

/-! ### Learning -/

def learnConn (addr : UShort) (nowMs : Millis) (k : ChaosConn) : Option Act :=
  if (k.state = connRfcSent ∨ k.state = connOpen) ∧ k.remoteAddr = addr then
    connRetransmit k nowMs 0
  else some (k, [])

def arpLearn (c : ChaosCore) (addr : UShort) (mac : Mac) (nowMs : Millis) :
    Option ChaosCore := do
  if addr = 0 ∨ addr = c.myAddr then some c
  else
    let (i, c) ← arpFindCreate c addr
    let e := c.arp i
    let wasValid := e.valid && e.mac = mac
    let c := c.setArp i { e with mac, valid := true, requested := false, learnedMs := nowMs }
    if wasValid then some c
    else
      (List.range chaosMaxConns).foldlM (fun c i => do
        let h ← slot chaosMaxConns i
        let r ← learnConn addr nowMs (c.conns h)
        perform c h r nowMs) c

def handleArp (c : ChaosCore) (frame : List Byte) (nowMs : Millis) : Option ChaosCore := do
  let a := chaosEthHeader
  if frame.length < chaosArpFrame then some c
  else
    let header ← copyOut frame a 6
    if header ≠ [0, 1, 0x08, 0x04, 6, 2] then some c
    else
      let spa ← chaosGet16 frame (a + 14)
      let tpa ← chaosGet16 frame (a + 22)
      let sha ← macFrom frame (a + 8)
      let c ← arpLearn c spa sha nowMs
      let op0 ← load frame (a + 6)
      let op1 ← load frame (a + 7)
      if op0 ≠ 0 ∨ op1 ≠ 1 ∨ tpa ≠ c.myAddr then some c
      else
        let f ← stores (List.replicate chaosArpFrame 0)
          [(0, sha.toList), (6, c.myMac.toList), (12, [0x08]), (13, [0x06]), (a, header),
            (a + 6, [0]), (a + 7, [2]), (a + 8, c.myMac.toList), (a + 14, chaosPut16 c.myAddr),
            (a + 16, sha.toList), (a + 22, chaosPut16 spa)]
        some (emitFrame c f)

/-! ### Packets -/

/-- The header words `handle_chaos` reads. -/
structure Words where
  opcode : Byte
  dataBytes : Nat
  destAddr : UShort
  destIndex : UShort
  srcAddr : UShort
  srcIndex : UShort
  num : UShort
  ack : UShort

def readWords (frame : List Byte) : Option Words := do
  let ch := chaosEthHeader
  let opcode ← load frame (ch + 1)
  let count ← chaosGet16 frame (ch + 2)
  let destAddr ← chaosGet16 frame (ch + 4)
  let destIndex ← chaosGet16 frame (ch + 6)
  let srcAddr ← chaosGet16 frame (ch + 8)
  let srcIndex ← chaosGet16 frame (ch + 10)
  let num ← chaosGet16 frame (ch + 12)
  let ack ← chaosGet16 frame (ch + 14)
  some { opcode, dataBytes := (count &&& 0xFFF).toNat, destAddr, destIndex, srcAddr, srcIndex,
         num, ack }

/-- Where the data of a packet starts in its frame. -/
def dataAt : Nat := chaosEthHeader + chaosHeader

def advanceReceived : Nat → ChaosConn → Option ChaosConn
  | 0, k => some k
  | fuel + 1, k => do
      let next := seqInc k.receivedNum
      let s ← slot chaosRing (next &&& 63).toNat
      let q := k.rcvq s
      if !q.present || q.num ≠ next then some k
      else
        let k := { k with receivedNum := next }
        if q.opcode = chopEof then some k else advanceReceived fuel k

def connQueueInput (k : ChaosConn) (frame : List Byte) (dataBytes : Nat) : Option Act := do
  let num ← chaosGet16 frame (chaosEthHeader + 12)
  if !chaosSeqLt k.receivedNum num then some (connSendSts k)
  else if k.localWindow < seqDiff num k.readNum then some (connSendSts k)
  else
    let s ← slot chaosRing (num &&& 63).toNat
    let p := k.rcvq s
    if p.present && p.num = num then some (connSendSts k)
    else
      let opcode ← load frame (chaosEthHeader + 1)
      let bytes ← copyOut frame dataAt dataBytes
      let data ← copyInto chaosMaxData bytes
      let p := { p with present := true, num, opcode, data, offset := 0 }
      let k ← advanceReceived chaosRing { k with rcvq := Function.update k.rcvq s p }
      if num ≠ k.receivedNum ∧ chaosSeqLt k.receivedNum num then some (connSendSts k)
      else some (k, [])

/-- The loop of `handle_rfc` that finds the end of the contact name. -/
def contactScan (frame : List Byte) (dataBytes : Nat) : Nat → Nat → Option Nat
  | 0, contactBytes => some contactBytes
  | fuel + 1, contactBytes =>
      if contactBytes < dataBytes then do
        let b ← load frame (dataAt + contactBytes)
        if b ≠ 0x20 then contactScan frame dataBytes fuel (contactBytes + 1)
        else some contactBytes
      else some contactBytes

/-- The string in an array, which must end within it. -/
def cString (bs : List Byte) : Option (List Byte) :=
  if 0 ∈ bs then some (Chaos.cString bs) else none

def handleRfc (c : ChaosCore) (frame : List Byte) (dataBytes : Nat) (nowMs : Millis) :
    Option ChaosCore := do
  let srcAddr ← chaosGet16 frame (chaosEthHeader + 8)
  let srcIndex ← chaosGet16 frame (chaosEthHeader + 10)
  let num ← chaosGet16 frame (chaosEthHeader + 12)
  let contactBytes ← contactScan frame dataBytes dataBytes 0
  let bytes ← copyOut frame dataAt contactBytes
  let contact ← copyInto (chaosMaxData + 1) (bytes ++ [0])
  let name ← cString contact
  if strCaseEq name (bytesOf "STATUS") then
    let host ← copyOut c.hostName 0 (min c.hostName.length 32)
    let ans ← store (List.replicate 32 0) 0 host
    sendRaw c { opcode := chopAns, destAddr := srcAddr, destIndex := srcIndex, srcIndex := 0,
                num := 0, ack := num, data := ans } nowMs
  else
    let text := bytesOf "No server for contact name " ++ name
    -- `snprintf` keeps to its buffer; the packet is read back from it
    let reason ← copyInto (chaosMaxData + 64) (text.take (chaosMaxData + 63) ++ [0])
    let data ← copyOut reason 0 text.length
    sendRaw c { opcode := chopCls, destAddr := srcAddr, destIndex := srcIndex, srcIndex := 0,
                num := 0, ack := num, data } nowMs

/-- `send_los_reply`. -/
def losReply (frame : List Byte) (reason : List Byte) : Option RawSend := do
  let destAddr ← chaosGet16 frame (chaosEthHeader + 8)
  let destIndex ← chaosGet16 frame (chaosEthHeader + 10)
  let srcIndex ← chaosGet16 frame (chaosEthHeader + 6)
  some { opcode := chopLos, destAddr, destIndex, srcIndex, num := 0, ack := 0, data := reason }

/-- `conn_set_closed` with the data of the packet. -/
def closeWith (k : ChaosConn) (kind : ChaosCloseKind) (frame : List Byte) (w : Words) :
    Option Act := do
  let k ← connSetClosed k kind frame dataAt w.dataBytes
  some (k, [])

def inputRfcSent (k : ChaosConn) (frame : List Byte) (w : Words) (nowMs : Millis) :
    Option Act := do
  if w.opcode = chopOpn then
    if w.dataBytes < 4 then some (k, [])
    else
      let window ← chaosGet16 frame (dataAt + 2)
      let k := { k with
        remoteIndex := w.srcIndex
        readNum := w.num
        receivedNum := w.num
        lastAckSent := w.num
        remoteWindow := clampWindow window
        state := connOpen }
      let receipt ← chaosGet16 frame dataAt
      let r ← connProcessAck k w.ack receipt nowMs
      andThen r fun k => some (connSendSts k)
  else if w.opcode = chopCls then closeWith k closeCls frame w
  else if w.opcode = chopLos then closeWith k closeLos frame w
  else if w.opcode = chopAns then closeWith k closeAns frame w
  else if w.opcode = chopFwd then
    let line := bytesOf "Forwarded to host " ++ octal w.ack.toNat ++
      bytesOf " (forwarding is not supported)"
    let text ← copyInto 80 (line.take 79 ++ [0])
    let k ← connSetClosed k closeLos text 0 line.length
    some (k, [])
  else some (k, [])

def inputClosed (k : ChaosConn) (frame : List Byte) (w : Words) : Option Act := do
  if w.opcode = chopAns ∨ w.opcode = chopCls ∨ w.opcode = chopFwd ∨
      w.opcode = chopLos ∨ w.opcode = chopSts then some (k, [])
  else
    let s ← losReply frame (bytesOf "Connection in invalid state")
    some (k, [s])

/-- Run `f` if the connection is still open. -/
def whenOpen (f : ChaosConn → Option Act) (k : ChaosConn) : Option Act :=
  if k.state = connOpen then f k else some (k, [])

def inputOpen (k : ChaosConn) (frame : List Byte) (w : Words) (nowMs : Millis) :
    Option Act := do
  if chopDat ≤ w.opcode ∨ w.opcode = chopEof then
    let r ← connProcessAck k w.ack w.ack nowMs
    andThen r (whenOpen fun k => connQueueInput k frame w.dataBytes)
  else if w.opcode = chopSts then
    if w.dataBytes < 4 then some (k, [])
    else
      let window ← chaosGet16 frame (dataAt + 2)
      let k := { k with remoteWindow := clampWindow window }
      let receipt ← chaosGet16 frame dataAt
      let r ← connProcessAck k w.ack receipt nowMs
      andThen r (whenOpen fun k => connRetransmit k nowMs chaosStsRetransmitMs)
  else if w.opcode = chopSns then
    let r ← connProcessAck k w.ack w.ack nowMs
    andThen r (whenOpen fun k => some (connSendSts k))
  else if w.opcode = chopOpn then some (connSendSts k)
  else if w.opcode = chopCls then closeWith k closeCls frame w
  else if w.opcode = chopLos then closeWith k closeLos frame w
  else some (k, [])

def connInput (k : ChaosConn) (frame : List Byte) (w : Words) (nowMs : Millis) : Option Act :=
  let k := { k with lastHeardMs := nowMs }
  match k.state with
  | connRfcSent => inputRfcSent k frame w nowMs
  | connClosed => inputClosed k frame w
  | connOpen => inputOpen k frame w nowMs
  | connFree => some (k, [])

def dispatchPacket (c : ChaosCore) (frame : List Byte) (w : Words) (nowMs : Millis) :
    Option ChaosCore := do
  if w.destAddr ≠ c.myAddr then some c
  else if w.opcode = chopRfc then handleRfc c frame w.dataBytes nowMs
  else if w.opcode = chopBrd ∨ w.opcode = chopRut ∨ w.opcode = chopMnt ∨
      w.opcode = chopLsn then some c
  else
    let h ← slot chaosMaxConns (w.destIndex &&& 31).toNat
    let k := c.conns h
    if k.state = connFree ∨ k.localIndex ≠ w.destIndex ∨ k.remoteAddr ≠ w.srcAddr ∨
        (k.state ≠ connRfcSent ∧ k.remoteIndex ≠ w.srcIndex) then
      if w.opcode = chopAns ∨ w.opcode = chopCls ∨ w.opcode = chopFwd ∨
          w.opcode = chopLos then some c
      else
        let s ← losReply frame (bytesOf "No such connection")
        sendRaw c s nowMs
    else
      let r ← connInput k frame w nowMs
      perform c h r nowMs

def learnSender (c : ChaosCore) (frame : List Byte) (w : Words) (nowMs : Millis) :
    Option ChaosCore := do
  if w.srcAddr >>> 8 = c.myAddr >>> 8 then
    let b ← load frame 6
    if b &&& 1 = 0 then
      let mac ← macFrom frame 6
      arpLearn c w.srcAddr mac nowMs
    else some c
  else some c

def handleChaos (c : ChaosCore) (frame : List Byte) (nowMs : Millis) : Option ChaosCore := do
  if frame.length < chaosEthHeader + chaosHeader then some c
  else
    let w ← readWords frame
    if chaosMaxData < w.dataBytes ∨
        frame.length - chaosEthHeader - chaosHeader < w.dataBytes then some c
    else
      let c ← learnSender c frame w nowMs
      dispatchPacket c frame w nowMs

def chaosCoreInput (c : ChaosCore) (frame : List Byte) (nowMs : Millis) : Option ChaosCore := do
  if frame.length < chaosEthHeader then some c
  else
    let hi ← load frame 12
    let lo ← load frame 13
    let etherType := Chaos.chaosGet16 lo hi
    if etherType ≠ chaosEthertype ∧ etherType ≠ arpEthertype then some c
    else
      let src ← macFrom frame 6
      if src = c.myMac then some c
      else if etherType = arpEthertype then handleArp c frame nowMs
      else handleChaos c frame nowMs

/-! ### The trace -/

/-- `chaos_opcode_name`. -/
def chaosOpcodeName (opcode : Byte) : Option String :=
  let names := ["?00", "RFC", "OPN", "CLS", "FWD", "ANS", "SNS", "STS", "RUT", "LOS", "LSN",
    "MNT", "EOF", "UNC", "BRD"]
  if chopDat ≤ opcode then some (if 0o300 ≤ opcode then "DWD" else "DAT")
  else if opcode.toNat < names.length then load names opcode.toNat
  else some "???"

/-- What a line of the trace says after the two hardware addresses. -/
inductive TraceBody
  /-- A Chaos packet: its opcode, header and the bytes of its data shown. -/
  | chaos (name : String) (w : Words) (shown : List Byte) (more : Bool)
  | chaosArp (op : Byte) (spa : UShort) (sha : Mac) (tpa : UShort)
  | otherArp
  | other (etherType : UShort) (nBytes : Nat)

/-- A line of the trace. -/
structure TraceLine where
  src : Mac
  dst : Mac
  body : TraceBody

/-- `chaos_trace_frame`: the line it prints, if any. -/
def chaosTraceFrame (frame : List Byte) : Option (Option TraceLine) := do
  if frame.length < chaosEthHeader then some none
  else
    let hi ← load frame 12
    let lo ← load frame 13
    let etherType := Chaos.chaosGet16 lo hi
    let src ← macFrom frame 6
    let dst ← macFrom frame 0
    if etherType = chaosEthertype ∧ chaosEthHeader + chaosHeader ≤ frame.length then
      let w ← readWords frame
      let name ← chaosOpcodeName w.opcode
      let n := min w.dataBytes (frame.length - chaosEthHeader - chaosHeader)
      let shown := if n < 32 then n else 32
      let bytes ← (List.range shown).foldlM (fun bs i => do
        let b ← load frame (dataAt + i)
        some (bs ++ [b])) []
      some (some ⟨src, dst, .chaos name w bytes (shown < n)⟩)
    else if etherType = arpEthertype ∧ chaosArpFrame ≤ frame.length then
      let a := chaosEthHeader
      let p0 ← load frame (a + 2)
      let p1 ← load frame (a + 3)
      if p0 = 0x08 ∧ p1 = 0x04 then
        let op ← load frame (a + 7)
        let spa ← chaosGet16 frame (a + 14)
        let sha ← macFrom frame (a + 8)
        let tpa ← chaosGet16 frame (a + 22)
        some (some ⟨src, dst, .chaosArp op spa sha tpa⟩)
      else some (some ⟨src, dst, .otherArp⟩)
    else some (some ⟨src, dst, .other etherType frame.length⟩)

end Chaos.Checked
