import OsxVlm.Chaos.Step

/-!
# A call as a list of operations

What one call of the interface does to the core, taken apart into the single
writes and `send_raw` calls it makes, in their order.  `coreStep_ops` says that
running the list is the call.  Between two operations of one call the ARP table
may already have changed, so a fact about the table is shown operation by
operation.
-/

namespace Chaos

open ChaosConnState ChaosCloseKind

/-- One operation of a call. -/
inductive CoreOp
  /-- A connection is stored. -/
  | conn (h : Fin chaosMaxConns) (k : ChaosConn)
  /-- `chaos_open` takes the next index and packet number. -/
  | number (uniquizer initialPktNum : UShort)
  /-- `arp_learn` stores a hardware address. -/
  | learn (addr : UShort) (mac : Mac)
  /-- `send_raw`. -/
  | send (s : RawSend)
  /-- `handle_arp` answers a request. -/
  | reply (sha : Mac) (spa : UShort)

/-- The entry `arp_learn` writes for an address. -/
def arpStore (c : ChaosCore) (addr : UShort) (mac : Mac) (nowMs : Millis) : ChaosCore :=
  let r := arpFindCreate c addr
  r.2.setArp r.1
    { r.2.arp r.1 with mac, valid := true, requested := false, learnedMs := nowMs }

/-- One operation. -/
def opStep (nowMs : Millis) (c : ChaosCore) : CoreOp → ChaosCore
  | .conn h k => c.setConn h k
  | .number uniquizer initialPktNum => { c with uniquizer, initialPktNum }
  | .learn addr mac => arpStore c addr mac nowMs
  | .send s => sendRaw c s nowMs
  | .reply sha spa => emitFrame c (arpFrame sha c.myMac 2 c.myAddr sha spa)

/-- A list of operations. -/
def runOps (nowMs : Millis) (c : ChaosCore) (ops : List CoreOp) : ChaosCore :=
  ops.foldl (opStep nowMs) c

@[simp] theorem runOps_nil (nowMs : Millis) (c : ChaosCore) : runOps nowMs c [] = c := rfl

@[simp] theorem runOps_cons (nowMs : Millis) (c : ChaosCore) (op : CoreOp) (ops : List CoreOp) :
    runOps nowMs c (op :: ops) = runOps nowMs (opStep nowMs c op) ops := rfl

theorem runOps_append (nowMs : Millis) (c : ChaosCore) (ops ops' : List CoreOp) :
    runOps nowMs c (ops ++ ops') = runOps nowMs (runOps nowMs c ops) ops' :=
  List.foldl_append

/-! ### The operations of each call -/

/-- Storing what a function did to connection `h` and sending its packets. -/
def connOps (h : Fin chaosMaxConns) (r : Act) : List CoreOp :=
  .conn h r.1 :: r.2.map .send

/-- The same for every connection in turn. -/
def eachOps (c : ChaosCore) (f : ChaosConn → Act) : List CoreOp :=
  (List.finRange chaosMaxConns).flatMap fun h => connOps h (f (c.conns h))

/-- The entry of `addr` already holds `mac`. -/
def arpKnown (c : ChaosCore) (addr : UShort) (mac : Mac) : Bool :=
  let r := arpFindCreate c addr
  (r.2.arp r.1).valid && (r.2.arp r.1).mac = mac

/-- `arp_learn`. -/
def learnOps (c : ChaosCore) (addr : UShort) (mac : Mac) (nowMs : Millis) : List CoreOp :=
  if addr = 0 ∨ addr = c.myAddr then []
  else .learn addr mac ::
    (if arpKnown c addr mac then [] else eachOps c (learnConn addr nowMs))

/-- `handle_arp`. -/
def arpOps (c : ChaosCore) (frame : List Byte) (nowMs : Millis) : List CoreOp :=
  if frame.length < chaosArpFrame then []
  else if (frame.drop chaosEthHeader).take 6 ≠ [0, 1, 0x08, 0x04, 6, 2] then []
  else learnOps c (get16At frame 28) (macAt frame 22) nowMs ++
    (if byteAt frame 20 ≠ 0 ∨ byteAt frame 21 ≠ 1 ∨ get16At frame 36 ≠ c.myAddr then []
      else [.reply (macAt frame 22) (get16At frame 28)])

/-- The answer of `handle_rfc`. -/
def rfcReply (c : ChaosCore) (pkt : Packet) : RawSend :=
  let contact := pkt.data.takeWhile (· ≠ 0x20)
  let reply (opcode : Byte) (data : List Byte) : RawSend :=
    { opcode, destAddr := pkt.srcAddr, destIndex := pkt.srcIndex
      srcIndex := 0, num := 0, ack := pkt.num, data }
  if strCaseEq contact (bytesOf "STATUS") then reply chopAns (statusAnswer c.hostName)
  else reply chopCls (bytesOf "No server for contact name " ++ cString contact)

/-- `handle_chaos` after the sender's hardware address has been learned. -/
def dispatchOps (c : ChaosCore) (pkt : Packet) (nowMs : Millis) : List CoreOp :=
  if pkt.destAddr ≠ c.myAddr then []
  else if pkt.opcode = chopRfc then [.send (rfcReply c pkt)]
  else if pkt.opcode = chopBrd ∨ pkt.opcode = chopRut ∨ pkt.opcode = chopMnt ∨
      pkt.opcode = chopLsn then []
  else if noSuchConn (c.conns (connSlot pkt.destIndex)) pkt then
    if pkt.opcode = chopAns ∨ pkt.opcode = chopCls ∨ pkt.opcode = chopFwd ∨
        pkt.opcode = chopLos then []
    else [.send (losReply pkt (bytesOf "No such connection"))]
  else connOps (connSlot pkt.destIndex)
    (connInput (c.conns (connSlot pkt.destIndex)) pkt nowMs)

/-- What the sender of a packet teaches. -/
def senderOps (c : ChaosCore) (frame : List Byte) (pkt : Packet) (nowMs : Millis) :
    List CoreOp :=
  if pkt.srcAddr >>> 8 = c.myAddr >>> 8 ∧ byteAt frame 6 &&& 1 = 0 then
    learnOps c pkt.srcAddr (macAt frame 6) nowMs
  else []

/-- `handle_chaos`. -/
def chaosOps (c : ChaosCore) (frame : List Byte) (nowMs : Millis) : List CoreOp :=
  match readPacket frame with
  | none => []
  | some pkt =>
      let ops := senderOps c frame pkt nowMs
      ops ++ dispatchOps (runOps nowMs c ops) pkt nowMs

/-- `chaos_core_input`. -/
def inputOps (c : ChaosCore) (frame : List Byte) (nowMs : Millis) : List CoreOp :=
  if frame.length < chaosEthHeader then []
  else if etherType frame ≠ chaosEthertype ∧ etherType frame ≠ arpEthertype then []
  else if macAt frame 6 = c.myMac then []
  else if etherType frame = arpEthertype then arpOps c frame nowMs
  else chaosOps c frame nowMs

/-- `chaos_open`. -/
def openOps (c : ChaosCore) (addr : UShort) (contact : List Byte) (nowMs : Millis) :
    List CoreOp :=
  if contact.length = 0 ∨ chaosMaxData < contact.length then []
  else
    match (List.finRange chaosMaxConns).find? fun h => (c.conns h).state = connFree with
    | none => []
    | some h =>
        let localIndex := (c.uniquizer <<< 5) ||| BitVec.ofNat 16 h.val
        let k := connNew localIndex addr c.localWindow c.initialPktNum nowMs
        .number (nextUniquizer c.uniquizer) (c.initialPktNum + 0x0100) ::
          connOps h (connSendControlled k chopRfc contact nowMs)

/-- A call on a handle. -/
def handleOps (c : ChaosCore) (h : Int) (f : ChaosConn → Act) : List CoreOp :=
  match connForHandle c h with
  | none => []
  | some i => connOps i (f (c.conns i))

/-- The operations of a call. -/
def coreOps (c : ChaosCore) (e : CoreEvent) : List CoreOp :=
  match e.call with
  | .chaosOpen addr contact => openOps c addr contact e.nowMs
  | .chaosSend h data => handleOps c h fun k => (connSend k data e.nowMs).1
  | .chaosFinish h => handleOps c h fun k => connFinish k e.nowMs
  | .chaosRecv h max => handleOps c h fun k => (connRecv k max e.nowMs).1
  | .chaosRelease h reason => handleOps c h fun k => connRelease k (cString reason)
  | .input frame => inputOps c frame e.nowMs
  | .tick => eachOps c fun k => connTick k e.nowMs

/-! ### Running them is the call -/

theorem perform_ops (c : ChaosCore) (h : Fin chaosMaxConns) (r : Act) (nowMs : Millis) :
    c.perform h r nowMs = runOps nowMs c (connOps h r) := by
  rw [ChaosCore.perform, sendAll, connOps, runOps_cons, runOps, List.foldl_map]
  rfl

/-- Each connection is met as it was before the loop. -/
theorem performEach_ops {c d : ChaosCore} (hconns : d.conns = c.conns) (f : ChaosConn → Act)
    (nowMs : Millis) : d.performEach f nowMs = runOps nowMs d (eachOps c f) := by
  have key : ∀ (hs : List (Fin chaosMaxConns)) (d : ChaosCore), hs.Nodup →
      (∀ h ∈ hs, d.conns h = c.conns h) →
      hs.foldl (fun c h => c.perform h (f (c.conns h)) nowMs) d =
        runOps nowMs d (hs.flatMap fun h => connOps h (f (c.conns h))) := by
    intro hs
    induction hs with
    | nil => intro d _ _; rfl
    | cons h hs ih =>
        intro d hnodup hsame
        obtain ⟨hnot, hnodup⟩ := List.nodup_cons.mp hnodup
        rw [List.foldl_cons, List.flatMap_cons, runOps_append, hsame h List.mem_cons_self,
          perform_ops]
        refine ih _ hnodup fun g hg => ?_
        have hne : g ≠ h := fun heq => hnot (heq ▸ hg)
        rw [← perform_ops, (perform_spec d h _ nowMs).1, Function.update_of_ne hne]
        exact hsame g (List.mem_cons_of_mem h hg)
  exact key _ d (List.nodup_finRange _) fun h _ => by rw [hconns]

theorem arpLearn_ops (c : ChaosCore) (addr : UShort) (mac : Mac) (nowMs : Millis) :
    arpLearn c addr mac nowMs = runOps nowMs c (learnOps c addr mac nowMs) := by
  unfold arpLearn learnOps
  split
  · rfl
  · rw [runOps_cons]
    have hconns : (arpStore c addr mac nowMs).conns = c.conns := (arpFindCreate_spec c addr).1
    show (if arpKnown c addr mac then arpStore c addr mac nowMs
      else (arpStore c addr mac nowMs).performEach (learnConn addr nowMs) nowMs) = _
    split
    · rfl
    · exact performEach_ops hconns _ nowMs

theorem handleRfc_ops (c : ChaosCore) (pkt : Packet) (nowMs : Millis) :
    handleRfc c pkt nowMs = runOps nowMs c [.send (rfcReply c pkt)] := by
  unfold handleRfc rfcReply
  simp only
  split <;> rfl

theorem dispatchPacket_ops (c : ChaosCore) (pkt : Packet) (nowMs : Millis) :
    dispatchPacket c pkt nowMs = runOps nowMs c (dispatchOps c pkt nowMs) := by
  unfold dispatchPacket dispatchOps
  split
  · rfl
  split
  · exact handleRfc_ops c pkt nowMs
  split
  · rfl
  simp only
  split
  · split <;> rfl
  · exact perform_ops c _ _ nowMs

theorem learnSender_ops (c : ChaosCore) (frame : List Byte) (pkt : Packet) (nowMs : Millis) :
    learnSender c frame pkt nowMs = runOps nowMs c (senderOps c frame pkt nowMs) := by
  unfold learnSender senderOps
  split
  · exact arpLearn_ops c _ _ nowMs
  · rfl

theorem arpLearn_config (c : ChaosCore) (addr : UShort) (mac : Mac) (nowMs : Millis) :
    (arpLearn c addr mac nowMs).myAddr = c.myAddr ∧
      (arpLearn c addr mac nowMs).myMac = c.myMac := by
  obtain ⟨acts, -, hfrom⟩ := arpLearn_acts c addr mac nowMs
  exact ⟨hfrom.config.1, hfrom.config.2.1⟩

theorem handleArp_ops (c : ChaosCore) (frame : List Byte) (nowMs : Millis) :
    handleArp c frame nowMs = runOps nowMs c (arpOps c frame nowMs) := by
  unfold handleArp arpOps
  split
  · rfl
  split
  · rfl
  have hconfig := arpLearn_config c (get16At frame 28) (macAt frame 22) nowMs
  rw [runOps_append, ← arpLearn_ops]
  simp only [hconfig.1]
  split
  · rfl
  · rw [runOps_cons, opStep, hconfig.1]
    rfl

theorem handleChaos_ops (c : ChaosCore) (frame : List Byte) (nowMs : Millis) :
    handleChaos c frame nowMs = runOps nowMs c (chaosOps c frame nowMs) := by
  unfold handleChaos chaosOps
  cases readPacket frame with
  | none => rfl
  | some pkt =>
      simp only
      rw [runOps_append, ← learnSender_ops, dispatchPacket_ops]

theorem chaosCoreInput_ops (c : ChaosCore) (frame : List Byte) (nowMs : Millis) :
    chaosCoreInput c frame nowMs = runOps nowMs c (inputOps c frame nowMs) := by
  unfold chaosCoreInput inputOps
  split
  · rfl
  split
  · rfl
  split
  · rfl
  split
  · exact handleArp_ops c frame nowMs
  · exact handleChaos_ops c frame nowMs

theorem chaosOpen_ops (c : ChaosCore) (addr : UShort) (contact : List Byte) (nowMs : Millis) :
    (chaosOpen c addr contact nowMs).2 = runOps nowMs c (openOps c addr contact nowMs) := by
  unfold chaosOpen openOps
  split
  · rfl
  cases (List.finRange chaosMaxConns).find? fun h => (c.conns h).state = connFree with
  | none => rfl
  | some h =>
      rw [runOps_cons]
      exact perform_ops _ h _ nowMs

theorem handle_ops (c : ChaosCore) (h : Int) (f : ChaosConn → Act) (nowMs : Millis) :
    (match connForHandle c h with
      | none => c
      | some i => c.perform i (f (c.conns i)) nowMs) = runOps nowMs c (handleOps c h f) := by
  unfold handleOps
  cases connForHandle c h with
  | none => rfl
  | some i => exact perform_ops c i _ nowMs

/-- **A call is its operations, one after the other.** -/
theorem coreStep_ops (c : ChaosCore) (e : CoreEvent) :
    coreStep c e = runOps e.nowMs c (coreOps c e) := by
  obtain ⟨call, nowMs⟩ := e
  cases call with
  | chaosOpen addr contact => exact chaosOpen_ops c addr contact nowMs
  | chaosSend h data =>
      refine Eq.trans ?_ (handle_ops c h (fun k => (connSend k data nowMs).1) nowMs)
      show (chaosSend c h data nowMs).2 = _
      unfold chaosSend
      cases connForHandle c h <;> rfl
  | chaosFinish h => exact handle_ops c h (fun k => connFinish k nowMs) nowMs
  | chaosRecv h max =>
      refine Eq.trans ?_ (handle_ops c h (fun k => (connRecv k max nowMs).1) nowMs)
      show (chaosRecv c h max nowMs).2 = _
      unfold chaosRecv
      cases connForHandle c h <;> rfl
  | chaosRelease h reason =>
      exact handle_ops c h (fun k => connRelease k (cString reason)) nowMs
  | input frame => exact chaosCoreInput_ops c frame nowMs
  | tick =>
      show c.performEach (fun k => connTick k nowMs) nowMs =
        runOps nowMs c (eachOps c fun k => connTick k nowMs)
      exact performEach_ops rfl _ nowMs

/-! ### What a frame teaches -/

/-- An address and the hardware address taught for it. -/
abbrev Taught := UShort × Mac

/-- `arp_learn` ignores the address 0 and the host's own. -/
def heeded (myAddr : UShort) (t : Taught) : Option Taught :=
  if t.1 = 0 ∨ t.1 = myAddr then none else some t

/-- The address a received frame teaches: that of the sender of a chaos-ARP frame,
or of a Chaos packet from the same subnet. -/
def frameTeaches (myAddr : UShort) (myMac : Mac) (frame : List Byte) : Option Taught :=
  if frame.length < chaosEthHeader then none
  else if etherType frame ≠ chaosEthertype ∧ etherType frame ≠ arpEthertype then none
  else if macAt frame 6 = myMac then none
  else if etherType frame = arpEthertype then
    if frame.length < chaosArpFrame then none
    else if (frame.drop chaosEthHeader).take 6 ≠ [0, 1, 0x08, 0x04, 6, 2] then none
    else heeded myAddr (get16At frame 28, macAt frame 22)
  else
    match readPacket frame with
    | none => none
    | some pkt =>
        if pkt.srcAddr >>> 8 = myAddr >>> 8 ∧ byteAt frame 6 &&& 1 = 0 then
          heeded myAddr (pkt.srcAddr, macAt frame 6)
        else none

/-- What a call teaches. -/
def callTeaches (myAddr : UShort) (myMac : Mac) : CoreCall → Option Taught
  | .input frame => frameTeaches myAddr myMac frame
  | _ => none

/-- The operation that stores it. -/
def teachOps (t : Option Taught) : List CoreOp :=
  t.toList.map fun t => .learn t.1 t.2

/-- The operation writes no hardware address. -/
def CoreOp.keepsMacs : CoreOp → Prop
  | .learn _ _ => False
  | _ => True

theorem connOps_keepsMacs {h : Fin chaosMaxConns} {r : Act} :
    ∀ op ∈ connOps h r, op.keepsMacs := by
  intro op hop
  rcases List.mem_cons.mp hop with rfl | hop
  · trivial
  · obtain ⟨s, -, rfl⟩ := List.mem_map.mp hop
    trivial

theorem eachOps_keepsMacs (c : ChaosCore) (f : ChaosConn → Act) :
    ∀ op ∈ eachOps c f, op.keepsMacs := by
  intro op hop
  obtain ⟨h, -, hop⟩ := List.mem_flatMap.mp hop
  exact connOps_keepsMacs op hop

theorem handleOps_keepsMacs (c : ChaosCore) (h : Int) (f : ChaosConn → Act) :
    ∀ op ∈ handleOps c h f, op.keepsMacs := by
  unfold handleOps
  cases connForHandle c h with
  | none => simp
  | some i => exact connOps_keepsMacs

theorem dispatchOps_keepsMacs {c : ChaosCore} {pkt : Packet} {nowMs : Millis} :
    ∀ op ∈ dispatchOps c pkt nowMs, op.keepsMacs := by
  unfold dispatchOps
  split
  · simp
  split
  · simp [CoreOp.keepsMacs]
  split
  · simp
  split
  · split
    · simp
    · simp [CoreOp.keepsMacs]
  · exact connOps_keepsMacs

theorem openOps_keepsMacs {c : ChaosCore} {addr : UShort} {contact : List Byte}
    {nowMs : Millis} : ∀ op ∈ openOps c addr contact nowMs, op.keepsMacs := by
  unfold openOps
  split
  · simp
  cases (List.finRange chaosMaxConns).find? fun h => (c.conns h).state = connFree with
  | none => simp
  | some h =>
      intro op hop
      rcases List.mem_cons.mp hop with rfl | hop
      · trivial
      · exact connOps_keepsMacs op hop

/-- `ops` stores what `t` teaches, and then no hardware address. -/
def TeachesFirst (t : Option Taught) (ops : List CoreOp) : Prop :=
  ∃ rest, (∀ op ∈ rest, op.keepsMacs) ∧ ops = teachOps t ++ rest

theorem TeachesFirst.of_keeps {ops : List CoreOp} (h : ∀ op ∈ ops, op.keepsMacs) :
    TeachesFirst none ops := ⟨ops, h, rfl⟩

theorem TeachesFirst.append {t : Option Taught} {ops ops' : List CoreOp}
    (h : TeachesFirst t ops) (h' : ∀ op ∈ ops', op.keepsMacs) : TeachesFirst t (ops ++ ops') := by
  obtain ⟨rest, hrest, rfl⟩ := h
  refine ⟨rest ++ ops', fun op hop => ?_, by rw [List.append_assoc]⟩
  rcases List.mem_append.mp hop with hop | hop
  · exact hrest op hop
  · exact h' op hop

theorem learnOps_teaches (c : ChaosCore) (addr : UShort) (mac : Mac) (nowMs : Millis) :
    TeachesFirst (heeded c.myAddr (addr, mac)) (learnOps c addr mac nowMs) := by
  unfold learnOps heeded
  split
  · exact .of_keeps (by simp)
  · cases arpKnown c addr mac with
    | true => exact ⟨[], by simp, rfl⟩
    | false => exact ⟨_, eachOps_keepsMacs c (learnConn addr nowMs), rfl⟩

theorem inputOps_teaches (c : ChaosCore) (frame : List Byte) (nowMs : Millis) :
    TeachesFirst (frameTeaches c.myAddr c.myMac frame) (inputOps c frame nowMs) := by
  have hnone : TeachesFirst none [] := .of_keeps (by simp)
  unfold inputOps frameTeaches
  split
  · exact hnone
  split
  · exact hnone
  split
  · exact hnone
  split
  · unfold arpOps
    split
    · exact hnone
    split
    · exact hnone
    refine (learnOps_teaches c _ _ nowMs).append ?_
    split <;> simp [CoreOp.keepsMacs]
  · unfold chaosOps
    cases readPacket frame with
    | none => exact hnone
    | some pkt =>
        refine TeachesFirst.append ?_ dispatchOps_keepsMacs
        unfold senderOps
        simp only
        split
        · exact learnOps_teaches c _ _ nowMs
        · exact hnone

/-- **A call stores the one address its frame teaches, before all else.** -/
theorem coreOps_teaches (c : ChaosCore) (e : CoreEvent) :
    TeachesFirst (callTeaches c.myAddr c.myMac e.call) (coreOps c e) := by
  obtain ⟨call, nowMs⟩ := e
  cases call with
  | chaosOpen addr contact => exact .of_keeps openOps_keepsMacs
  | chaosSend h data =>
      exact .of_keeps (handleOps_keepsMacs c h fun k => (connSend k data nowMs).1)
  | chaosFinish h => exact .of_keeps (handleOps_keepsMacs c h fun k => connFinish k nowMs)
  | chaosRecv h max =>
      exact .of_keeps (handleOps_keepsMacs c h fun k => (connRecv k max nowMs).1)
  | chaosRelease h reason =>
      exact .of_keeps (handleOps_keepsMacs c h fun k => connRelease k (cString reason))
  | input frame => exact inputOps_teaches c frame nowMs
  | tick => exact .of_keeps (eachOps_keepsMacs c fun k => connTick k nowMs)

end Chaos
