import OsxVlm.Chaos.Core

/-!
# The stream front end

`chaosd/chaos-stream.c`: the clients of the Unix socket and the connections of
the core they use.  A client's socket is named by the client's slot.  What the
kernel does is an argument: the results of `read` and `write`, the events `poll`
reports and how many new clients `accept` returns.

The output buffer holds the bytes from `outOff` to `outLen`, so `out_compact`
is the identity.  The debug output is left out.
-/

namespace Stream

open Chaos ChaosConnState ChaosCloseKind

def streamMaxClients : Nat := chaosMaxConns
def streamLineMax : Nat := 600
def streamOutbuf : Nat := 8192
def streamInbuf : Nat := 4096

inductive ClientState
  | clientFree
  | clientLine
  | clientWaitOpn
  | clientStream
  | clientDrain
  deriving DecidableEq

open ClientState

/-- Text of a `LOS` line, or the arguments of `chaos_open`. -/
abbrev Answer := Except (List Byte) (UShort × List Byte)

/-- `StreamClient`; the default value is a free slot.  `inBuf` and `out` are the
parts of the buffers in use. -/
structure StreamClient where
  state : ClientState := clientFree
  conn : Int := -1
  addr : UShort := 0
  line : List Byte := []
  inBuf : List Byte := []
  out : List Byte := []
  sockEof : Bool := false
  finished : Bool := false
  wrShut : Bool := false
  skipLf : Bool := false
  /-- History variables, read by no function: the bytes `read` returned, the
  line taken as the request and what was made of it, the bytes put into
  `inBuf`, the bytes `chaos_recv` returned and those `write` took. -/
  taken : List Byte := []
  request : Option (List Byte) := none
  answer : Option Answer := none
  placed : List Byte := []
  relayed : List Byte := []
  written : List Byte := []

structure StreamHost where
  name : List Byte
  addr : UShort
  deriving DecidableEq

/-- A connection given back to the core, with the client that had it. -/
structure Release where
  client : StreamClient
  conn : ChaosConn
  reason : List Byte

structure StreamServer where
  core : ChaosCore
  hosts : List StreamHost
  clients : Fin streamMaxClients → StreamClient := fun _ => {}
  /-- History variable: every `chaos_release` of a connection, oldest first. -/
  releases : List Release := []

def StreamServer.setClient (s : StreamServer) (i : Fin streamMaxClients) (k : StreamClient) :
    StreamServer :=
  { s with clients := Function.update s.clients i k }

/-- What a call of `write` returns: a count, `EAGAIN` or `EINTR`, or an error. -/
inductive WriteResult
  | wrote (n : Nat)
  | again
  | failed

/-- What a call of `read` returns: bytes (none at the end of the stream),
`EAGAIN` or `EINTR`, or an error. -/
inductive ReadResult
  | got (buf : List Byte)
  | again
  | failed

/-! ### Client helpers -/

/-- `chaos_release` of the client's connection. -/
def releaseConn (s : StreamServer) (i : Fin streamMaxClients) (reason : List Byte)
    (nowMs : Millis) : StreamServer :=
  let k := s.clients i
  { s with
    core := chaosRelease s.core k.conn reason nowMs
    releases := s.releases ++ match connForHandle s.core k.conn with
      | none => []
      | some h => [{ client := k, conn := s.core.conns h, reason }] }

def clientClose (s : StreamServer) (i : Fin streamMaxClients) (reason : List Byte)
    (nowMs : Millis) : StreamServer :=
  (if 0 ≤ (s.clients i).conn then releaseConn s i reason nowMs else s).setClient i {}

def outAppend (k : StreamClient) (data : List Byte) : StreamClient :=
  { k with out := k.out ++ data.take (streamOutbuf - k.out.length) }

/-- A byte of a status line: what is not printable becomes a space. -/
def printable (b : Byte) : Byte := if 0x20 ≤ b ∧ b < 0x7F then b else 0x20

def crLf : List Byte := [13, 10]

/-- A status line; its array holds `CHAOS_MAX_DATA + 32` bytes. -/
def outLine (k : StreamClient) (verb text : List Byte) : StreamClient :=
  let head := verb ++ [0x20]
  let body := (text.map printable).take (chaosMaxData + 32 - 3 - head.length)
  outAppend k ((head ++ body).rdropWhile (· = 0x20) ++ crLf)

def failClient (k : StreamClient) (verb text : List Byte) : StreamClient :=
  { outLine k verb (cString text) with state := clientDrain }

/-- The value of a string of octal digits. -/
def octalValue (ds : List Byte) : Nat := ds.foldl (fun v d => 8 * v + (d.toNat - 0x30)) 0

def isOctalDigit (b : Byte) : Bool := 0x30 ≤ b && b ≤ 0x37

def resolveHost (hosts : List StreamHost) (name : List Byte) : Option UShort :=
  if name ≠ [] ∧ name.all isOctalDigit then
    let a := octalValue name
    if a = 0 ∨ 0xFFFF < a then none else some (BitVec.ofNat 16 a)
  else (hosts.find? fun host => strCaseEq host.name name).map StreamHost.addr

def isBlank (b : Byte) : Bool := b = 0x20 || b = 9

/-- The part of `handle_request` that reads the line: an error text, or the
address and the contact to open. -/
def parseRequest (hosts : List StreamHost) (myAddr : UShort) (line : List Byte) : Answer :=
  let p := (cString line).dropWhile isBlank
  if (p.take 3).map toLower ≠ bytesOf "rfc" ∨ ¬ isBlank (byteAt p 3) then
    .error (bytesOf "Only RFC <host> <contact> [args] is supported")
  else
    let p := (p.drop 3).dropWhile isBlank
    let host := p.takeWhile fun b => !isBlank b
    let p := (p.dropWhile fun b => !isBlank b).dropWhile isBlank
    let contact := p.rdropWhile isBlank
    if host = [] ∨ contact = [] then .error (bytesOf "Usage: RFC <host> <contact> [args]")
    else
      match resolveHost hosts host with
      | none => .error ((bytesOf "Unknown host " ++ host).take 127)
      | some addr =>
          if addr = myAddr then .error (bytesOf "That is chaosd's own address")
          else .ok (addr, contact)

/-- The client's request line is complete. -/
def handleRequest (s : StreamServer) (i : Fin streamMaxClients) (nowMs : Millis) :
    StreamServer :=
  let answer := parseRequest s.hosts s.core.myAddr (s.clients i).line
  let k := { s.clients i with request := some (s.clients i).line, answer := some answer }
  match answer with
  | .error text => s.setClient i (failClient k (bytesOf "LOS") text)
  | .ok (addr, contact) =>
      let r := chaosOpen s.core addr contact nowMs
      let k := { k with addr, conn := r.1 }
      let s := { s with core := r.2 }
      if r.1 < 0 then
        s.setClient i (failClient k (bytesOf "LOS")
          (bytesOf "Too many connections, or contact too long"))
      else s.setClient i { k with state := clientWaitOpn }

/-- The line ended with `b`, and `buf` follows in the same read: anything after
the line is stream data. -/
def endLine (k : StreamClient) (b : Byte) (buf : List Byte) : StreamClient :=
  let rest := if b = 13 ∧ buf.head? = some 10 then buf.tail else buf
  if rest ≠ [] then
    { k with
      inBuf := rest.take streamInbuf, placed := rest.take streamInbuf, skipLf := false }
  else { k with skipLf := b = 13 && buf.head? ≠ some 10 }

/-- Take bytes read from the socket in the LINE state. -/
def lineInput (s : StreamServer) (i : Fin streamMaxClients) (nowMs : Millis) :
    List Byte → StreamServer
  | [] => s
  | b :: buf =>
      let k := s.clients i
      if b = 13 ∨ b = 10 then handleRequest (s.setClient i (endLine k b buf)) i nowMs
      else if streamLineMax - 1 ≤ k.line.length then
        s.setClient i (failClient k (bytesOf "LOS") (bytesOf "Request line too long"))
      else lineInput (s.setClient i { k with line := k.line ++ [b] }) i nowMs buf

/-- Take bytes read from the socket after the LINE state. -/
def streamInput (k : StreamClient) (buf : List Byte) : StreamClient :=
  let buf := if k.skipLf ∧ buf.head? = some 10 then buf.tail else buf
  { k with skipLf := false, inBuf := k.inBuf ++ buf, placed := k.placed ++ buf }

def abortedByUser : List Byte := bytesOf "Connection aborted by user"

def closedByUser : List Byte := bytesOf "Connection closed by user"

/-- How many bytes `client_read` asks for. -/
def readWant (k : StreamClient) : Nat :=
  if k.state = clientLine then 256 else streamInbuf - k.inBuf.length

/-- `client_read` once `read` has returned the bytes `buf`. -/
def clientTake (s : StreamServer) (i : Fin streamMaxClients) (buf : List Byte)
    (nowMs : Millis) : StreamServer :=
  let k := { s.clients i with taken := (s.clients i).taken ++ buf }
  if k.state = clientLine then lineInput (s.setClient i k) i nowMs buf
  else s.setClient i (streamInput k buf)

/-- Readable socket. -/
def clientRead (s : StreamServer) (i : Fin streamMaxClients) (result : ReadResult)
    (nowMs : Millis) : StreamServer :=
  let k := s.clients i
  if readWant k = 0 then s
  else
    match result with
    | .again => s
    | .failed => clientClose s i abortedByUser nowMs
    | .got buf =>
        if buf.take (readWant k) = [] then
          if k.state = clientLine ∨ k.state = clientWaitOpn then
            clientClose s i abortedByUser nowMs
          else s.setClient i { k with sockEof := true }
        else clientTake s i (buf.take (readWant k)) nowMs

/-- The loop of `client_write`: the bytes taken, those left and whether a call
failed.  The socket takes no more once the results are used up. -/
def writeLoop : List WriteResult → List Byte → List Byte × List Byte × Bool
  | _, [] => ([], [], false)
  | [], out => ([], out, false)
  | .again :: _, out => ([], out, false)
  | .failed :: _, out => ([], out, true)
  | .wrote n :: results, out =>
      let r := writeLoop results (out.drop n)
      (out.take n ++ r.1, r.2)

/-- Writable socket (or just try): `false` when the client was closed. -/
def clientWrite (s : StreamServer) (i : Fin streamMaxClients) (results : List WriteResult)
    (nowMs : Millis) : StreamServer × Bool :=
  let k := s.clients i
  let r := writeLoop results k.out
  let s := s.setClient i { k with out := r.2.1, written := k.written ++ r.1 }
  if r.2.2 then (clientClose s i closedByUser nowMs, false) else (s, true)

/-! ### Service -/

/-- Socket to chaos. -/
def serviceSend (s : StreamServer) (i : Fin streamMaxClients) (nowMs : Millis) : StreamServer :=
  let k := s.clients i
  if k.inBuf ≠ [] ∧ chaosState s.core k.conn = connOpen then
    let r := chaosSend s.core k.conn k.inBuf nowMs
    { s with core := r.2 }.setClient i { k with inBuf := k.inBuf.drop r.1 }
  else s

def serviceFinish (s : StreamServer) (i : Fin streamMaxClients) (nowMs : Millis) :
    StreamServer :=
  let k := s.clients i
  if k.sockEof ∧ k.inBuf = [] ∧ ¬ k.finished ∧ chaosState s.core k.conn = connOpen then
    { s with core := chaosFinish s.core k.conn nowMs }.setClient i { k with finished := true }
  else s

/-- Chaos to socket, as far as the output buffer has room. -/
def serviceRecv (s : StreamServer) (i : Fin streamMaxClients) (nowMs : Millis) : StreamServer :=
  let k := s.clients i
  if k.out.length < streamOutbuf then
    let r := chaosRecv s.core k.conn (streamOutbuf - k.out.length) nowMs
    { s with core := r.2 }.setClient i
      { k with out := k.out ++ r.1, relayed := k.relayed ++ r.1 }
  else s

def serviceShut (s : StreamServer) (i : Fin streamMaxClients) : StreamServer :=
  let k := s.clients i
  if chaosRecvEof s.core k.conn ∧ k.out = [] ∧ ¬ k.wrShut then
    s.setClient i { k with wrShut := true }
  else s

/-- The connection is closed and all of it has been written. -/
def streamDone (s : StreamServer) (i : Fin streamMaxClients) : Prop :=
  let k := s.clients i
  chaosState s.core k.conn = connClosed ∧ ¬ chaosRecvReady s.core k.conn ∧ k.out = []

instance (s : StreamServer) (i : Fin streamMaxClients) : Decidable (streamDone s i) :=
  inferInstanceAs (Decidable (_ ∧ _))

/-- The end of `client_service` in the DRAIN state. -/
def serviceDrain (s : StreamServer) (i : Fin streamMaxClients) (results : List WriteResult)
    (nowMs : Millis) : StreamServer :=
  let r := clientWrite s i results nowMs
  if r.2 ∧ (r.1.clients i).out = [] then
    clientClose r.1 i (bytesOf "Request failed") nowMs
  else r.1

/-- The STREAM case of `client_service`, once the connection has been found. -/
def serviceStream (s : StreamServer) (i : Fin streamMaxClients) (results : List WriteResult)
    (nowMs : Millis) : StreamServer :=
  let s := serviceRecv (serviceFinish (serviceSend s i nowMs) i nowMs) i nowMs
  let r := clientWrite s i results nowMs
  if r.2 then
    let s := serviceShut r.1 i
    if streamDone s i then clientClose s i (bytesOf "Connection closed") nowMs else s
  else r.1

/-- `"OPN Connection to host %o\r\n"`. -/
def opnLine (addr : UShort) : List Byte :=
  bytesOf "OPN Connection to host " ++ octal addr.toNat ++ crLf

/-- `"ANS %zu\r\n"`. -/
def ansLine (n : Nat) : List Byte :=
  bytesOf "ANS " ++ bytesOf (String.ofList (Nat.toDigits 10 n)) ++ crLf

/-- What a client still waiting for the OPN is told when its connection closed. -/
def closedLine (k : StreamClient) (conn : ChaosConn) : StreamClient :=
  match conn.closeKind with
  | closeCls => outLine k (bytesOf "CLS") conn.reason
  | closeAns => outAppend (outAppend k (ansLine conn.reason.length)) conn.reason
  | closeTimeout => outLine k (bytesOf "LOS") (bytesOf "Timed out: " ++ cString conn.reason)
  | _ => outLine k (bytesOf "LOS") conn.reason

/-- The WAIT_OPN case of `client_service`. -/
def serviceWait (s : StreamServer) (i : Fin streamMaxClients) (results : List WriteResult)
    (nowMs : Millis) : StreamServer :=
  let k := s.clients i
  match connForHandle s.core k.conn with
  | none =>
      serviceDrain (s.setClient i (failClient k (bytesOf "LOS") (bytesOf "Connection vanished")))
        i results nowMs
  | some h =>
      if (s.core.conns h).state = connOpen then
        serviceStream
          (s.setClient i { outAppend k (opnLine k.addr) with state := clientStream })
          i results nowMs
      else if (s.core.conns h).state = connClosed then
        let s := releaseConn (s.setClient i (closedLine k (s.core.conns h))) i [] nowMs
        serviceDrain (s.setClient i { s.clients i with conn := -1, state := clientDrain })
          i results nowMs
      else s

/-- Advance one client's state machine. -/
def clientService (s : StreamServer) (i : Fin streamMaxClients) (results : List WriteResult)
    (nowMs : Millis) : StreamServer :=
  let k := s.clients i
  match k.state with
  | clientWaitOpn => serviceWait s i results nowMs
  | clientStream =>
      if connForHandle s.core k.conn = none then
        serviceDrain (s.setClient i { k with state := clientDrain }) i results nowMs
      else serviceStream s i results nowMs
  | clientDrain => serviceDrain s i results nowMs
  | _ => s

/-- Let `f` act on the clients in turn, the free ones excepted. -/
def StreamServer.eachClient (s : StreamServer)
    (f : StreamServer → Fin streamMaxClients → StreamServer) : StreamServer :=
  (List.finRange streamMaxClients).foldl
    (fun s i => if (s.clients i).state = clientFree then s else f s i) s

def streamService (s : StreamServer) (results : Fin streamMaxClients → List WriteResult)
    (nowMs : Millis) : StreamServer :=
  s.eachClient fun s i => clientService s i (results i) nowMs

/-! ### Polling -/

/-- `stream_adopt`: a new client in the first free slot. -/
def streamAdopt (s : StreamServer) : StreamServer :=
  match (List.finRange streamMaxClients).find? fun i => (s.clients i).state = clientFree with
  | none => s
  | some i => s.setClient i { state := clientLine }

/-- `POLLIN` is asked for. -/
def wantsRead (s : StreamServer) (i : Fin streamMaxClients) : Bool :=
  let k := s.clients i
  match k.state with
  | clientLine => true
  | clientWaitOpn => k.inBuf.length < streamInbuf
  | clientStream => !k.sockEof && k.inBuf = [] && 0 < chaosSendRoom s.core k.conn
  | _ => false

/-- `POLLOUT` is asked for. -/
def wantsWrite (s : StreamServer) (i : Fin streamMaxClients) : Bool := (s.clients i).out ≠ []

/-- What one client's socket does in a `stream_step`: the events `poll` returns
and the results of the calls of `write` and `read` they lead to. -/
structure ClientIo where
  pollIn : Bool := false
  pollOut : Bool := false
  pollHup : Bool := false
  pollErr : Bool := false
  results : List WriteResult := []
  result : ReadResult := .again

/-- `stream_step` for one client that was polled for `asked` (in, out). -/
def clientPoll (s : StreamServer) (i : Fin streamMaxClients) (asked : Bool × Bool)
    (io : ClientIo) (nowMs : Millis) : StreamServer :=
  if !asked.1 && !asked.2 then s
  else
    let r := if asked.2 && (io.pollOut || io.pollHup || io.pollErr) then
        clientWrite s i io.results nowMs
      else (s, true)
    if r.2 && (io.pollIn || io.pollHup || io.pollErr) then
      if asked.1 then clientRead r.1 i io.result nowMs
      else if !asked.2 || io.pollErr then clientClose r.1 i abortedByUser nowMs
      else r.1
    else r.1

/-- `stream_step`, once `poll` has returned. -/
def streamStep (s : StreamServer) (io : Fin streamMaxClients → ClientIo) (accepted : Nat)
    (results : Fin streamMaxClients → List WriteResult) (nowMs : Millis) : StreamServer :=
  let polled := s.eachClient fun t i =>
    clientPoll t i (wantsRead s i, wantsWrite s i) (io i) nowMs
  streamService (Nat.iterate streamAdopt accepted polled) results nowMs

/-! ### Runs -/

/-- A call made by the main loop of `chaosd.c`. -/
inductive StreamCall
  | input (frame : List Byte)
  | tick
  | service (results : Fin streamMaxClients → List WriteResult)
  | step (io : Fin streamMaxClients → ClientIo) (accepted : Nat)
      (results : Fin streamMaxClients → List WriteResult)

structure StreamEvent where
  call : StreamCall
  nowMs : Millis

def serverStep (s : StreamServer) (e : StreamEvent) : StreamServer :=
  match e.call with
  | .input frame => { s with core := chaosCoreInput s.core frame e.nowMs }
  | .tick => { s with core := chaosCoreTick s.core e.nowMs }
  | .service results => streamService s results e.nowMs
  | .step io accepted results => streamStep s io accepted results e.nowMs

/-- `stream_init`, with the `-H` hosts, on a freshly initialised core. -/
def streamInit (core : ChaosCore) (hosts : List StreamHost) : StreamServer := { core, hosts }

/-- The state after some calls of the main loop on a freshly initialised server. -/
def ReachableServer (s : StreamServer) : Prop :=
  ∃ myAddr myMac hostName localWindow initialPktNum hosts es,
    s = Exec.run serverStep
      (streamInit (chaosCoreInit myAddr myMac hostName localWindow initialPktNum) hosts) es

/-! ### A sample server -/

/-- A server on the sample core, without `-H` hosts, after some calls. -/
def sampleServer (es : List StreamEvent) : StreamServer :=
  Exec.run serverStep (streamInit sampleCore []) es

theorem sampleServer_reachable (es : List StreamEvent) : ReachableServer (sampleServer es) :=
  ⟨0o404, Vector.replicate 6 2, bytesOf "GENERA", 13, 0x0100, [], es, rfl⟩

/-- The slot of its first client. -/
def sampleClient : Fin streamMaxClients := ⟨0, by decide⟩

/-- A new client is accepted. -/
def sampleAccept : StreamCall := .step (fun _ => {}) 1 fun _ => []

/-- The client sends `buf`. -/
def sampleSends (buf : List Byte) : StreamCall :=
  .step (fun i => if i = sampleClient then { pollIn := true, result := .got buf } else {}) 0
    fun _ => []

end Stream
