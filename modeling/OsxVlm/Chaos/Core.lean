import OsxVlm.Library.Execution
import OsxVlm.Chaos.Conn

/-!
# The Chaos core: ARP, the connection table, input and timers

The rest of `chaosd/chaos-core.c`.  The emit callback is the list `emitted`
of the frames handed to it.  `coreStep` is one call of the interface of
`chaos-core.h`; a state of the core is `Reachable` when some run of such
calls leads to it from `chaos_core_init`.
-/

namespace Chaos

open ChaosConnState ChaosCloseKind

/-- `ChaosArpEntry`. -/
structure ChaosArpEntry where
  valid : Bool := false
  addr : UShort := 0
  mac : Mac := Vector.replicate 6 0
  learnedMs : Millis := 0
  requestedMs : Millis := 0
  requested : Bool := false

/-- `ChaosCore`, without the meters and the debug switch. -/
structure ChaosCore where
  myAddr : UShort
  myMac : Mac
  hostName : List Byte
  localWindow : UShort
  initialPktNum : UShort
  conns : Fin chaosMaxConns → ChaosConn := fun _ => {}
  uniquizer : UShort := 1
  arp : Fin chaosArpEntries → ChaosArpEntry := fun _ => {}
  /-- Every frame given to the emit callback, oldest first. -/
  emitted : List (List Byte) := []

/-- The bytes of a C string held in an array: up to the first NUL. -/
def cString (bs : List Byte) : List Byte := bs.takeWhile (· ≠ 0)

/-- `chaos_core_init`; `main` then sets the window and the first RFC number. -/
def chaosCoreInit (myAddr : UShort) (myMac : Mac) (hostName : List Byte)
    (localWindow initialPktNum : UShort) : ChaosCore :=
  { myAddr, myMac, hostName := (cString hostName).take 32, localWindow, initialPktNum }

def emitFrame (c : ChaosCore) (frame : List Byte) : ChaosCore :=
  { c with emitted := c.emitted ++ [frame] }

def ChaosCore.setConn (c : ChaosCore) (h : Fin chaosMaxConns) (k : ChaosConn) : ChaosCore :=
  { c with conns := Function.update c.conns h k }

def ChaosCore.setArp (c : ChaosCore) (i : Fin chaosArpEntries) (e : ChaosArpEntry) :
    ChaosCore :=
  { c with arp := Function.update c.arp i e }

/-! ### ARP -/

/-- `arp_find` without `create`. -/
def arpFind (c : ChaosCore) (addr : UShort) : Option (Fin chaosArpEntries) :=
  (List.finRange chaosArpEntries).find? fun i =>
    ((c.arp i).valid || (c.arp i).requested) && (c.arp i).addr = addr

/-- The entry `arp_find` gives up for a new address: the first unused one,
else the one learned longest ago. -/
def arpVictim (arp : Fin chaosArpEntries → ChaosArpEntry) :
    List (Fin chaosArpEntries) → Millis → Fin chaosArpEntries → Fin chaosArpEntries
  | [], _, victim => victim
  | i :: is, oldest, victim =>
      if !(arp i).valid && !(arp i).requested then i
      else if (arp i).learnedMs < oldest then arpVictim arp is (arp i).learnedMs i
      else arpVictim arp is oldest victim

/-- `arp_find` with `create`. -/
def arpFindCreate (c : ChaosCore) (addr : UShort) : Fin chaosArpEntries × ChaosCore :=
  match arpFind c addr with
  | some i => (i, c)
  | none =>
      let victim := arpVictim c.arp (List.finRange chaosArpEntries)
        (BitVec.allOnes 64) ⟨0, by decide⟩
      (victim, c.setArp victim { addr })

def arpSendRequest (c : ChaosCore) (i : Fin chaosArpEntries) (nowMs : Millis) : ChaosCore :=
  let e := c.arp i
  let f := arpFrame (Vector.replicate 6 0xFF) c.myMac 1 c.myAddr (Vector.replicate 6 0) e.addr
  emitFrame (c.setArp i { e with requested := true, requestedMs := nowMs }) f

/-- `chaos_arp_lookup`. -/
def chaosArpLookup (c : ChaosCore) (addr : UShort) : Option Mac :=
  match arpFind c addr with
  | some i => if (c.arp i).valid then some (c.arp i).mac else none
  | none => none

/-- Resolve for transmission.  Unknown: send (rate-limited) ARP and fail.
Old: use it, but refresh in the background. -/
def arpResolve (c : ChaosCore) (addr : UShort) (nowMs : Millis) : Option Mac × ChaosCore :=
  let r := arpFindCreate c addr
  let i := r.1
  let c := r.2
  let e := c.arp i
  if e.valid then
    (some e.mac,
      if chaosArpRefreshMs < nowMs - e.learnedMs ∧
          (¬ e.requested ∨ chaosArpRetryMs * 20 ≤ nowMs - e.requestedMs) then
        arpSendRequest c i nowMs
      else c)
  else
    (none,
      if ¬ e.requested ∨ chaosArpRetryMs ≤ nowMs - e.requestedMs then
        arpSendRequest c i nowMs
      else c)

/-! ### Transmission -/

/-- Build and send one chaos packet.  When the hardware address is not yet
known the frame is dropped; an ARP request is out. -/
def sendRaw (c : ChaosCore) (s : RawSend) (nowMs : Millis) : ChaosCore :=
  match arpResolve c s.destAddr nowMs with
  | (some dst, c) => emitFrame c (chaosFrame dst c.myMac c.myAddr s)
  | (none, c) => c

def sendAll (c : ChaosCore) (sends : List RawSend) (nowMs : Millis) : ChaosCore :=
  sends.foldl (fun c s => sendRaw c s nowMs) c

/-- Store what a function did to connection `h` and send its packets. -/
def ChaosCore.perform (c : ChaosCore) (h : Fin chaosMaxConns) (r : Act) (nowMs : Millis) :
    ChaosCore :=
  sendAll (c.setConn h r.1) r.2 nowMs

/-- Let `f` act on every connection in turn. -/
def ChaosCore.performEach (c : ChaosCore) (f : ChaosConn → Act) (nowMs : Millis) :
    ChaosCore :=
  (List.finRange chaosMaxConns).foldl (fun c h => c.perform h (f (c.conns h)) nowMs) c

/-- The frames dropped for want of this hardware address go out now. -/
def learnConn (addr : UShort) (nowMs : Millis) (k : ChaosConn) : Act :=
  if (k.state = connRfcSent ∨ k.state = connOpen) ∧ k.remoteAddr = addr then
    connRetransmit k nowMs 0
  else (k, [])

def arpLearn (c : ChaosCore) (addr : UShort) (mac : Mac) (nowMs : Millis) : ChaosCore :=
  if addr = 0 ∨ addr = c.myAddr then c
  else
    let r := arpFindCreate c addr
    let i := r.1
    let c := r.2
    let e := c.arp i
    let wasValid := e.valid && e.mac = mac
    let c := c.setArp i { e with mac, valid := true, requested := false, learnedMs := nowMs }
    if wasValid then c
    else c.performEach (learnConn addr nowMs) nowMs

def handleArp (c : ChaosCore) (frame : List Byte) (nowMs : Millis) : ChaosCore :=
  if frame.length < chaosArpFrame then c
  else if (frame.drop chaosEthHeader).take 6 ≠ [0, 1, 0x08, 0x04, 6, 2] then c
  else
    let spa := get16At frame 28
    let tpa := get16At frame 36
    let sha := macAt frame 22
    let c := arpLearn c spa sha nowMs
    if byteAt frame 20 ≠ 0 ∨ byteAt frame 21 ≠ 1 ∨ tpa ≠ c.myAddr then c
    else emitFrame c (arpFrame sha c.myMac 2 c.myAddr sha spa)

/-! ### The connection table -/

/-- `conn_for_handle`: handles are C ints. -/
def connForHandle (c : ChaosCore) (h : Int) : Option (Fin chaosMaxConns) :=
  if hr : 0 ≤ h ∧ h.toNat < chaosMaxConns then
    if (c.conns ⟨h.toNat, hr.2⟩).state = connFree then none else some ⟨h.toNat, hr.2⟩
  else none

/-- `chaos_state`. -/
def chaosState (c : ChaosCore) (h : Int) : ChaosConnState :=
  match connForHandle c h with
  | none => connFree
  | some i => (c.conns i).state

/-- The next value of the uniquizer: 11 bits, never zero. -/
def nextUniquizer (u : UShort) : UShort :=
  let u := (u + 1) &&& 0x7FF
  if u = 0 then 1 else u

/-- `chaos_open`: the handle, -1 when the request is refused. -/
def chaosOpen (c : ChaosCore) (addr : UShort) (contact : List Byte) (nowMs : Millis) :
    Int × ChaosCore :=
  if contact.length = 0 ∨ chaosMaxData < contact.length then (-1, c)
  else
    match (List.finRange chaosMaxConns).find? fun h => (c.conns h).state = connFree with
    | none => (-1, c)
    | some h =>
        let localIndex := (c.uniquizer <<< 5) ||| BitVec.ofNat 16 h.val
        let k := connNew localIndex addr c.localWindow c.initialPktNum nowMs
        let c := { c with
          uniquizer := nextUniquizer c.uniquizer
          initialPktNum := c.initialPktNum + 0x0100 }
        (h.val, c.perform h (connSendControlled k chopRfc contact nowMs) nowMs)

/-- `chaos_send_room`. -/
def chaosSendRoom (c : ChaosCore) (h : Int) : Nat :=
  match connForHandle c h with
  | none => 0
  | some i =>
      let k := c.conns i
      if k.state ≠ connOpen ∨ k.eofWanted then 0
      else (connWindowAvailable k).toNat * chaosMaxData

/-- `chaos_send`: how many bytes were taken. -/
def chaosSend (c : ChaosCore) (h : Int) (data : List Byte) (nowMs : Millis) :
    Nat × ChaosCore :=
  match connForHandle c h with
  | none => (0, c)
  | some i =>
      let r := connSend (c.conns i) data nowMs
      (r.2, c.perform i r.1 nowMs)

/-- `chaos_finish`. -/
def chaosFinish (c : ChaosCore) (h : Int) (nowMs : Millis) : ChaosCore :=
  match connForHandle c h with
  | none => c
  | some i => c.perform i (connFinish (c.conns i) nowMs) nowMs

/-- `chaos_recv_ready`. -/
def chaosRecvReady (c : ChaosCore) (h : Int) : Bool :=
  match connForHandle c h with
  | none => false
  | some i =>
      let k := c.conns i
      k.readNum ≠ k.receivedNum && !k.eofReceived

/-- `chaos_recv_eof`. -/
def chaosRecvEof (c : ChaosCore) (h : Int) : Bool :=
  match connForHandle c h with
  | none => false
  | some i => (c.conns i).eofReceived

/-- `chaos_recv`: the bytes stored in the caller's buffer of `max` bytes. -/
def chaosRecv (c : ChaosCore) (h : Int) (max : Nat) (nowMs : Millis) :
    List Byte × ChaosCore :=
  match connForHandle c h with
  | none => ([], c)
  | some i =>
      let r := connRecv (c.conns i) max nowMs
      (r.2, c.perform i r.1 nowMs)

/-- `chaos_release`. -/
def chaosRelease (c : ChaosCore) (h : Int) (reason : List Byte) (nowMs : Millis) :
    ChaosCore :=
  match connForHandle c h with
  | none => c
  | some i => c.perform i (connRelease (c.conns i) (cString reason)) nowMs

/-! ### Input -/

/-- `tolower` in the C locale. -/
def toLower (b : Byte) : Byte := if 0x41 ≤ b ∧ b ≤ 0x5A then b + 0x20 else b

/-- `0 == strcasecmp (a, b)`. -/
def strCaseEq (a b : List Byte) : Bool :=
  (cString a).map toLower = (cString b).map toLower

/-- The STATUS server: the host name, 32 bytes, zero padded. -/
def statusAnswer (hostName : List Byte) : List Byte :=
  hostName.take 32 ++ List.replicate (32 - hostName.length) 0

def handleRfc (c : ChaosCore) (pkt : Packet) (nowMs : Millis) : ChaosCore :=
  let contact := pkt.data.takeWhile (· ≠ 0x20)
  let reply (opcode : Byte) (data : List Byte) : RawSend :=
    { opcode, destAddr := pkt.srcAddr, destIndex := pkt.srcIndex
      srcIndex := 0, num := 0, ack := pkt.num, data }
  if strCaseEq contact (bytesOf "STATUS") then
    sendRaw c (reply chopAns (statusAnswer c.hostName)) nowMs
  else
    sendRaw c (reply chopCls (bytesOf "No server for contact name " ++ cString contact)) nowMs

/-- The connection slot of an index: its low bits. -/
def connSlot (index : UShort) : Fin chaosMaxConns :=
  ⟨(index &&& 31).toNat, by
    have h : (index &&& 31).toNat ≤ (31 : UShort).toNat := by
      rw [BitVec.toNat_and]
      exact Nat.and_le_right
    exact Nat.lt_of_le_of_lt h (by decide)⟩

/-- The packet does not belong to connection `k` of the slot it names. -/
def noSuchConn (k : ChaosConn) (pkt : Packet) : Prop :=
  k.state = connFree ∨ k.localIndex ≠ pkt.destIndex ∨ k.remoteAddr ≠ pkt.srcAddr ∨
    (k.state ≠ connRfcSent ∧ k.remoteIndex ≠ pkt.srcIndex)

instance (k : ChaosConn) (pkt : Packet) : Decidable (noSuchConn k pkt) :=
  inferInstanceAs (Decidable (_ ∨ _))

/-- `handle_chaos` after the sender's hardware address has been learned. -/
def dispatchPacket (c : ChaosCore) (pkt : Packet) (nowMs : Millis) : ChaosCore :=
  if pkt.destAddr ≠ c.myAddr then c
  else if pkt.opcode = chopRfc then handleRfc c pkt nowMs
  else if pkt.opcode = chopBrd ∨ pkt.opcode = chopRut ∨ pkt.opcode = chopMnt ∨
      pkt.opcode = chopLsn then c
  else
    let h := connSlot pkt.destIndex
    let k := c.conns h
    if noSuchConn k pkt then
      if pkt.opcode = chopAns ∨ pkt.opcode = chopCls ∨ pkt.opcode = chopFwd ∨
          pkt.opcode = chopLos then c
      else sendRaw c (losReply pkt (bytesOf "No such connection")) nowMs
    else c.perform h (connInput k pkt nowMs) nowMs

/-- A directly connected sender (same subnet) teaches us its MAC. -/
def learnSender (c : ChaosCore) (frame : List Byte) (pkt : Packet) (nowMs : Millis) :
    ChaosCore :=
  if pkt.srcAddr >>> 8 = c.myAddr >>> 8 ∧ byteAt frame 6 &&& 1 = 0 then
    arpLearn c pkt.srcAddr (macAt frame 6) nowMs
  else c

def handleChaos (c : ChaosCore) (frame : List Byte) (nowMs : Millis) : ChaosCore :=
  match readPacket frame with
  | none => c
  | some pkt => dispatchPacket (learnSender c frame pkt nowMs) pkt nowMs

/-- `chaos_core_input`. -/
def chaosCoreInput (c : ChaosCore) (frame : List Byte) (nowMs : Millis) : ChaosCore :=
  if frame.length < chaosEthHeader then c
  else if etherType frame ≠ chaosEthertype ∧ etherType frame ≠ arpEthertype then c
  else if macAt frame 6 = c.myMac then c
  else if etherType frame = arpEthertype then handleArp c frame nowMs
  else handleChaos c frame nowMs

/-- `chaos_core_tick`. -/
def chaosCoreTick (c : ChaosCore) (nowMs : Millis) : ChaosCore :=
  c.performEach (fun k => connTick k nowMs) nowMs

/-! ### Runs -/

/-- A call of the interface of `chaos-core.h`. -/
inductive CoreCall
  | chaosOpen (addr : UShort) (contact : List Byte)
  | chaosSend (h : Int) (data : List Byte)
  | chaosFinish (h : Int)
  | chaosRecv (h : Int) (max : Nat)
  | chaosRelease (h : Int) (reason : List Byte)
  | input (frame : List Byte)
  | tick

/-- A call and the time it is made at. -/
structure CoreEvent where
  call : CoreCall
  nowMs : Millis

/-- One call of the interface. -/
def coreStep (c : ChaosCore) (e : CoreEvent) : ChaosCore :=
  match e.call with
  | .chaosOpen addr contact => (chaosOpen c addr contact e.nowMs).2
  | .chaosSend h data => (chaosSend c h data e.nowMs).2
  | .chaosFinish h => chaosFinish c h e.nowMs
  | .chaosRecv h max => (chaosRecv c h max e.nowMs).2
  | .chaosRelease h reason => chaosRelease c h reason e.nowMs
  | .input frame => chaosCoreInput c frame e.nowMs
  | .tick => chaosCoreTick c e.nowMs

/-- The state after some calls, at any times, on a freshly initialised core. -/
def Reachable (c : ChaosCore) : Prop :=
  ∃ myAddr myMac hostName localWindow initialPktNum es,
    c = Exec.run coreStep
      (chaosCoreInit myAddr myMac hostName localWindow initialPktNum) es

/-! ### A sample core -/

/-- A core at address 404, with Genera's window. -/
def sampleCore : ChaosCore :=
  chaosCoreInit 0o404 (Vector.replicate 6 2) (bytesOf "GENERA") 13 0x0100

theorem sampleCore_reachable : Reachable sampleCore :=
  ⟨0o404, Vector.replicate 6 2, bytesOf "GENERA", 13, 0x0100, [], rfl⟩

/-- The slot of its first connection. -/
def sampleConn : Fin chaosMaxConns := ⟨0, by decide⟩

/-- Its first call: a connection to host 405. -/
def sampleOpen : CoreEvent := ⟨.chaosOpen 0o405 (bytesOf "TELNET"), 1000⟩

/-- A frame from host 405 for that connection. -/
def sampleFrame (opcode : Byte) (num ack : UShort) (data : List Byte) : List Byte :=
  chaosFrame (Vector.replicate 6 2) (Vector.replicate 6 4) 0o405
    { opcode, destAddr := 0o404, destIndex := 0x20, srcIndex := 0x77, num, ack, data }

/-- The OPN that answers it, with a window of 13. -/
def sampleOpn : List Byte :=
  sampleFrame chopOpn 0x0500 0x0100 (chaosPut16 0x0100 ++ chaosPut16 13)

end Chaos
