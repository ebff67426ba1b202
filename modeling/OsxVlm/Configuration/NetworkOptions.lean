import Mathlib
import OsxVlm.Library.CText

/-!
# The network interfaces of the configuration

The option is a list of specifications, each for one device:

    device:INTERNET|a.b.c.d;options
    device:CHAOS|octal
    device:MAC|xx:xx:xx:xx:xx:xx

A device has one entry of the table, with its first address, and further addresses in
nodes behind it.  The loop keeps a pointer to the interface before the last node that
it allocated, for a MAC to be recorded there; the pointer stays from one specification
to the next.
-/

namespace Configuration

open CText

def maxNetworkInterfaces : Nat := 8

def posixPathMax : Nat := 256

def ethIp : Nat := 0x0800

def ethChaos : Nat := 0x0804

/-- Where an interface is: in the table, or in a node from `malloc`. -/
inductive Loc where
  | table (i : Nat)
  | node (n : Nat)
  deriving DecidableEq

structure NetworkInterface where
  present : Bool
  device : List Char
  myProtocol : Nat
  myAddress : Nat
  myHostAddress : Nat
  haveMac : Bool
  myMac : List Nat
  myOptions : List Char
  anotherAddress : Option Loc
  deriving DecidableEq

/-- What `memset` leaves. -/
def NetworkInterface.zero : NetworkInterface :=
  { present := false
    device := []
    myProtocol := 0
    myAddress := 0
    myHostAddress := 0
    haveMac := false
    myMac := [0, 0, 0, 0, 0, 0]
    myOptions := []
    anotherAddress := none }

inductive Fault where
  | punt (message : String) (argument : List Char)
  /-- `free` of an entry of the table. -/
  | freesTable (i : Nat)
  /-- A name or options that its array does not hold. -/
  | overflow
  /-- A chain of addresses that comes back to itself. -/
  | loops
  deriving DecidableEq

/-- The memory of the loop, and the pointer that it keeps. -/
structure State where
  memory : Loc → NetworkInterface
  allocated : Nat
  freed : List Nat
  ointerface : Option Loc

namespace State

def initial : State :=
  { memory := fun _ => .zero
    allocated := 0
    freed := []
    ointerface := none }

def write (s : State) (loc : Loc) (f : NetworkInterface → NetworkInterface) : State :=
  { s with memory := Function.update s.memory loc (f (s.memory loc)) }

/-- The last interface of a chain, in at most `fuel` steps. -/
def lastAddress (memory : Loc → NetworkInterface) : Nat → Loc → Option Loc
  | 0, _ => none
  | fuel + 1, loc =>
      match (memory loc).anotherAddress with
      | none => some loc
      | some next => lastAddress memory fuel next

/-- The first entry of the device, or else the first one that is free. -/
def findEntry (s : State) (device : List Char) : Option Nat :=
  (List.range maxNetworkInterfaces).find? fun i =>
    !(s.memory (.table i)).present || (s.memory (.table i)).device = device

/-- The interface that a specification is for.  A device that has a MAC gets no new one. -/
def findInterface (s : State) (device : List Char) : Except Fault (State × Loc) :=
  match s.findEntry device with
  | none => .error (.punt "Too many distinct network interfaces in %s" device)
  | some i =>
      if (s.memory (.table i)).present ∧ ¬ (s.memory (.table i)).haveMac then
        match lastAddress s.memory (s.allocated + 1) (.table i) with
        | none => .error .loops
        | some last =>
            let new := Loc.node s.allocated
            let linked := s.write last fun r => { r with anotherAddress := some new }
            let cleared := linked.write new fun _ => .zero
            .ok ({ cleared with allocated := s.allocated + 1, ointerface := some last }, new)
      else .ok (s, .table i)

def setDevice (s : State) (interface : Loc) (device : List Char) : Except Fault State :=
  if device.length ≤ posixPathMax then
    .ok (s.write interface fun r => { r with device := device })
  else .error .overflow

/-- `free` takes nodes only. -/
def free (s : State) : Loc → Except Fault State
  | .table i => .error (.freesTable i)
  | .node n => .ok { s with freed := n :: s.freed }

end State

/-! ### The parts of a specification -/

/-- What stands before the options. -/
inductive Value where
  | mac (bytes : List Nat)
  | address (protocol addr : Nat)
  deriving DecidableEq

def macKeyword : List Char := ['M', 'A', 'C', '|']
def chaosKeyword : List Char := ['C', 'H', 'A', 'O', 'S', '|']
def internetKeyword : List Char := ['I', 'N', 'T', 'E', 'R', 'N', 'E', 'T', '|']
def hostKeyword : List Char := ['h', 'o', 's', 't', '=']

/-- The text after a keyword. -/
def afterKeyword (keyword value : List Char) : Option (List Char) :=
  if keyword <+: value then some (value.drop keyword.length) else none

/-- `strncasecmp`: the text after a keyword in either case. -/
def afterAnyCase (keyword value : List Char) : Option (List Char) :=
  if (value.take keyword.length).map Char.toLower = keyword.map Char.toLower then
    some (value.drop keyword.length)
  else none

/-- `VerifyHostName`, where a local host is rejected. -/
def verifyHostName (gethostbyname : List Char → Option Nat) (name : List Char) : Option Nat :=
  if name = [] ∨ name = "unix".toList ∨ name = "localhost".toList then none
  else
    match gethostbyname name with
    | some addr => some addr
    | none => if ntohl (inetAddr name) = ntohl inaddrNone then none else some (ntohl (inetAddr name))

def readMac (text : List Char) : Except Fault Value :=
  match scanBytes 6 text with
  | some bytes => .ok (.mac bytes)
  | none => .error (.punt "failed to parse MAC address %s" text)

def readChaos (text : List Char) : Except Fault Value :=
  let (hostAddress, rest) := strtoul 8 text
  if rest = [] then .ok (.address ethChaos (ntohl hostAddress))
  else .error (.punt "Invalid chaos address in specification of network interface: %s" text)

def readInternet (text : List Char) : Except Fault Value :=
  let hostAddress := ntohl (inetAddr text)
  if hostAddress = ntohl inaddrNone then
    .error (.punt "Invalid Internet address in specification of network interface: %s" text)
  else .ok (.address ethIp hostAddress)

def readHost (gethostbyname : List Char → Option Nat) (text : List Char) : Except Fault Value :=
  match verifyHostName gethostbyname text with
  | some hostAddress => .ok (.address ethIp (ntohl hostAddress))
  | none => .error (.punt "Unknown host in specification of network interface: %s" text)

def readValue (gethostbyname : List Char → Option Nat) (value : List Char) : Except Fault Value :=
  match afterAnyCase macKeyword value with
  | some text => readMac text
  | none =>
      match (afterKeyword chaosKeyword value).or
          (afterKeyword (chaosKeyword.map Char.toLower) value) with
      | some text => readChaos text
      | none =>
          match (afterKeyword internetKeyword value).or
              (afterKeyword (internetKeyword.map Char.toLower) value) with
          | some text => readInternet text
          | none => readHost gethostbyname value

/-- `strcasestr` for `host=`: the text after it. -/
def afterHost : List Char → Option (List Char)
  | [] => none
  | ch :: rest => (afterAnyCase hostKeyword (ch :: rest)).or (afterHost rest)

/-- The host's address among the options, read as the protocol of the interface has it. -/
def hostAddress (protocol : Nat) (options : List Char) : Except Fault Nat :=
  match afterHost options with
  | none => .ok 0
  | some hp =>
      if protocol = ethChaos then
        if (strtoul 8 hp).1 ≠ 0 then .ok ((strtoul 8 hp).1 % 2 ^ 32)
        else .error (.punt "%s: could not parse host address \"%s\"" hp)
      else if protocol = ethIp then
        if ntohl (inetAddr hp) ≠ ntohl inaddrNone then .ok (ntohl (inetAddr hp))
        else .error (.punt "%s: could not parse host address \"%s\"" hp)
      else .ok 0

/-! ### One specification -/

namespace State

/-- The interface that a MAC goes to: where a pointer is kept, the one at hand is freed. -/
def macInterface (s : State) (interface : Loc) : Except Fault (State × Loc) :=
  match s.ointerface with
  | some o => do
      let s ← s.free interface
      pure (s, o)
  | none => pure (s, interface)

def record (s : State) (interface : Loc) : Value → Except Fault (State × Loc)
  | .mac bytes => do
      let (s, interface) ← s.macInterface interface
      pure (s.write interface fun r => { r with haveMac := true, myMac := bytes }, interface)
  | .address protocol addr =>
      pure (s.write interface fun r => { r with myProtocol := protocol, myAddress := addr },
        interface)

/-- The host of the options, which are copied first. -/
def hostOption (protocol : Nat) : Option (List Char) → Except Fault Nat
  | none => pure 0
  | some text =>
      if text.length ≤ posixPathMax then hostAddress protocol text else throw .overflow

/-- The options are taken down, and the interface ends its chain. -/
def finish (s : State) (interface : Loc) (options : Option (List Char)) : Except Fault State := do
  let host ← hostOption (s.memory interface).myProtocol options
  pure (s.write interface fun r =>
    { r with
      myHostAddress := host
      myOptions := options.getD []
      anotherAddress := none
      present := true })

def place (gethostbyname : List Char → Option Nat) (s : State) (device value : List Char)
    (options : Option (List Char)) : Except Fault State := do
  let (s, interface) ← s.findInterface device
  let s ← s.setDevice interface device
  let v ← readValue gethostbyname value
  let (s, interface) ← s.record interface v
  s.finish interface options

def interpretSpec (gethostbyname : List Char → Option Nat) (s : State) (spec : List Char) :
    Except Fault State :=
  match cut ':' spec with
  | (device, some rest) =>
      if ';' ∈ device then
        .error (.punt "Invalid syntax in specification of network interface: %s" spec)
      else s.place gethostbyname device (cut ';' rest).1 (cut ';' rest).2
  | (_, none) => s.place gethostbyname [] (cut ';' spec).1 (cut ';' spec).2

/-- The loop over the specifications: it ends with the text. -/
def interpretFrom (gethostbyname : List Char → Option Nat) (s : State) (text : List Char) :
    Except Fault State :=
  if text = [] then .ok s
  else
    match s.interpretSpec gethostbyname (cut ',' text).1 with
    | .error fault => .error fault
    | .ok s =>
        match h : (cut ',' text).2 with
        | none => .ok s
        | some rest => interpretFrom gethostbyname s rest
  termination_by text.length
  decreasing_by exact cut_length h

end State

/-- `InterpretNetworkOptions`, for what the option is when there is one. -/
def interpretNetworkOptions (gethostbyname : List Char → Option Nat)
    (option : Option (List Char)) : Except Fault State :=
  match option with
  | none => .error (.punt "At least one network interface must be defined" [])
  | some text => State.initial.interpretFrom gethostbyname text

end Configuration
