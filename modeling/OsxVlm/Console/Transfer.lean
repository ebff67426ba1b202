import OsxVlm.Library.Execution

/-!
# Console transfers

`ConsoleWrite` and `ConsoleRead` go round a loop as long as their result is
`EWOULDBLOCK`: each turn polls the connection and, when it is ready, makes one `write` or
`read` of what is still missing.  A turn carries what the host answers in it.  A `read` or
a `write` that succeeds leaves `errno` alone, and `poll` may set it.
-/

namespace Console

/-- The error codes that the loops know, and the others. -/
inductive Errno where
  | esuccess
  | ewouldblock
  | ebadf
  | enxio
  | eio
  | enospc
  | other (code : Nat)
  deriving DecidableEq, Repr

/-- The bits of `revents` that are looked at; `ready` is `POLLIN` for a read and `POLLOUT`
for a write. -/
structure Revents where
  ready : Bool
  nval : Bool
  hup : Bool
  err : Bool
  deriving DecidableEq, Repr

/-- What `read` or `write` answers. -/
inductive Outcome where
  | bytes (actualBytes : Nat)
  | error (errno : Errno)
  deriving DecidableEq, Repr

/-- What the host answers in one turn; `pollErrno` is there when `poll` sets `errno`. -/
structure Turn where
  pollErrno : Option Errno
  revents : Revents
  outcome : Outcome
  deriving DecidableEq, Repr

/-- A turn without data is decided by what `poll` reports, in this order. -/
def notReady (revents : Revents) : Errno :=
  if revents.nval then .ebadf
  else if revents.hup then .enxio
  else if revents.err then .eio
  else .ewouldblock

/-! ### Writing -/

/-- A call of `ConsoleWrite` under way; `accepted` is what the server has taken. -/
structure WriteCall where
  data : Nat
  nBytes : Nat
  result : Errno
  errno : Errno
  memory : Nat → UInt8
  accepted : List UInt8

/-- What lies in memory from an address on. -/
def bytesAt (memory : Nat → UInt8) (data nBytes : Nat) : List UInt8 :=
  (List.range nBytes).map fun i => memory (data + i)

/-- One turn of the loop of `ConsoleWrite`. -/
def consoleWrite (s : WriteCall) (turn : Turn) : WriteCall :=
  if s.result ≠ .ewouldblock then s
  else
    let errno := turn.pollErrno.getD s.errno
    if turn.revents.ready then
      match turn.outcome with
      | .bytes actualBytes =>
          let accepted := s.accepted ++ bytesAt s.memory s.data actualBytes
          if actualBytes = s.nBytes then
            { s with result := .esuccess, errno := errno, accepted := accepted }
          else
            { s with
              result := .ewouldblock, errno := errno, accepted := accepted,
              nBytes := s.nBytes - actualBytes, data := s.data + actualBytes }
      | .error errno => { s with result := errno, errno := errno }
    else { s with result := notReady turn.revents, errno := errno }

/-! ### Reading -/

/-- A call of `ConsoleRead` under way; `consumed` is how far the stream of the server has
been read. -/
structure ReadCall where
  data : Nat
  nBytes : Nat
  result : Errno
  errno : Errno
  memory : Nat → UInt8
  stream : Nat → UInt8
  consumed : Nat

/-- The next bytes of the stream, stored from an address on. -/
def store (memory : Nat → UInt8) (data nBytes : Nat) (stream : Nat → UInt8) (consumed : Nat) :
    Nat → UInt8 :=
  fun a => if data ≤ a ∧ a < data + nBytes then stream (consumed + (a - data)) else memory a

/-- One turn of the loop of `ConsoleRead`. -/
def consoleRead (s : ReadCall) (turn : Turn) : ReadCall :=
  if s.result ≠ .ewouldblock then s
  else
    let errno := turn.pollErrno.getD s.errno
    if turn.revents.ready then
      match turn.outcome with
      | .bytes actualBytes =>
          let memory := store s.memory s.data actualBytes s.stream s.consumed
          let consumed := s.consumed + actualBytes
          if actualBytes = s.nBytes then
            { s with result := .esuccess, errno := errno, memory := memory, consumed := consumed }
          else if actualBytes = 0 ∧ errno ≠ .ewouldblock then
            -- the end of the file, unless `errno` is left over from an earlier call
            { s with result := .enospc, errno := errno }
          else
            { s with
              result := .ewouldblock, errno := errno, memory := memory, consumed := consumed,
              nBytes := s.nBytes - actualBytes, data := s.data + actualBytes }
      | .error errno => { s with result := errno, errno := errno }
    else { s with result := notReady turn.revents, errno := errno }

/-- The host moves no more than it was asked for, and a failed call has an error code. -/
def HostAnswers (nBytes : Nat) (turn : Turn) : Prop :=
  match turn.outcome with
  | .bytes actualBytes => actualBytes ≤ nBytes
  | .error errno => errno ≠ .esuccess

instance (nBytes : Nat) (turn : Turn) : Decidable (HostAnswers nBytes turn) := by
  unfold HostAnswers
  split <;> infer_instance

/-- In this turn `read` reports the end of the file. -/
def ReportsEof (s : ReadCall) (turn : Turn) : Prop :=
  s.result = .ewouldblock ∧ turn.revents.ready ∧ turn.outcome = .bytes 0

/-- The code that `errno` holds when `read` returns without an error. -/
def errnoAtRead (s : ReadCall) (turn : Turn) : Errno := turn.pollErrno.getD s.errno

/-- What a write owes: a success means that the whole buffer was accepted in order, nothing
is changed, and only the buffer is handed to the server. -/
structure WriteComplete (s : WriteCall) (turns : List Turn) : Prop where
  accepted : (Exec.run consoleWrite s turns).result = .esuccess →
    (Exec.run consoleWrite s turns).accepted = s.accepted ++ bytesAt s.memory s.data s.nBytes
  unchanged : (Exec.run consoleWrite s turns).memory = s.memory
  within : ∀ n, s.data ≤ (Exec.runTo consoleWrite s turns n).data ∧
    (Exec.runTo consoleWrite s turns n).data + (Exec.runTo consoleWrite s turns n).nBytes ≤
      s.data + s.nBytes

/-- What a read owes: a success means that the next bytes of the stream fill the buffer,
nothing else is changed, only the buffer is handed to the server, and a reported end of
file is an error. -/
structure ReadComplete (s : ReadCall) (turns : List Turn) : Prop where
  stored : (Exec.run consoleRead s turns).result = .esuccess →
    (Exec.run consoleRead s turns).consumed = s.consumed + s.nBytes ∧
    bytesAt (Exec.run consoleRead s turns).memory s.data s.nBytes =
      (List.range s.nBytes).map fun i => s.stream (s.consumed + i)
  unchanged : ∀ a, a < s.data ∨ s.data + s.nBytes ≤ a →
    (Exec.run consoleRead s turns).memory a = s.memory a
  within : ∀ n, s.data ≤ (Exec.runTo consoleRead s turns n).data ∧
    (Exec.runTo consoleRead s turns n).data + (Exec.runTo consoleRead s turns n).nBytes ≤
      s.data + s.nBytes
  eofReported : ∀ n turn, turns[n]? = some turn →
    ReportsEof (Exec.runTo consoleRead s turns n) turn →
    (Exec.runTo consoleRead s turns (n + 1)).result ≠ .esuccess ∧
    (Exec.runTo consoleRead s turns (n + 1)).result ≠ .ewouldblock

theorem notReady_ne_esuccess (revents : Revents) : notReady revents ≠ .esuccess := by
  unfold notReady
  split_ifs <;> simp

theorem bytesAt_add (memory : Nat → UInt8) (data m n : Nat) :
    bytesAt memory data (m + n) = bytesAt memory data m ++ bytesAt memory (data + m) n := by
  simp [bytesAt, List.range_add, Nat.add_assoc, Function.comp_def]

/-! ### The writing loop -/

section Write

variable {s₀ s : WriteCall} {turn : Turn} {turns : List Turn}

/-- The part of the buffer that the server has accepted, and the part still to come. -/
structure Written (s₀ s : WriteCall) : Prop where
  memory : s.memory = s₀.memory
  begin : s₀.data ≤ s.data
  rest : s.data + s.nBytes = s₀.data + s₀.nBytes
  nonempty : 1 ≤ s.nBytes
  accepted : s.result ≠ .esuccess →
    s.accepted = s₀.accepted ++ bytesAt s₀.memory s₀.data (s.data - s₀.data)
  finished : s.result = .esuccess →
    s.accepted = s₀.accepted ++ bytesAt s₀.memory s₀.data s₀.nBytes

theorem Written.step (h : Written s₀ s) (hhost : HostAnswers s.nBytes turn) :
    Written s₀ (consoleWrite s turn) := by
  unfold consoleWrite
  by_cases hloop : s.result ≠ .ewouldblock
  · rwa [if_pos hloop]
  rw [if_neg hloop]
  have hacc : s.accepted = s₀.accepted ++ bytesAt s₀.memory s₀.data (s.data - s₀.data) :=
    h.accepted (by rw [not_not.mp hloop]; simp)
  by_cases hready : turn.revents.ready
  · simp only [hready, if_true]
    cases hout : turn.outcome with
    | error errno =>
        rw [HostAnswers, hout] at hhost
        exact ⟨h.memory, h.begin, h.rest, h.nonempty, fun _ => hacc, fun he => absurd he hhost⟩
    | bytes actualBytes =>
        rw [HostAnswers, hout] at hhost
        -- what is accepted now comes right after what was accepted before
        have hmore : s.accepted ++ bytesAt s.memory s.data actualBytes =
            s₀.accepted ++ bytesAt s₀.memory s₀.data (s.data + actualBytes - s₀.data) := by
          have hsplit : s.data + actualBytes - s₀.data = s.data - s₀.data + actualBytes := by
            have := h.begin
            omega
          rw [hsplit, bytesAt_add, hacc, h.memory, Nat.add_sub_cancel' h.begin, List.append_assoc]
        simp only
        split
        · rename_i hall
          refine ⟨h.memory, h.begin, h.rest, h.nonempty, fun hne => absurd rfl hne, fun _ => ?_⟩
          rw [hmore, hall, h.rest, Nat.add_sub_cancel_left]
        · rename_i hpart
          have hrest := h.rest
          have hbegin := h.begin
          exact ⟨h.memory, by simp only; omega, by simp only; omega, by simp only; omega,
            fun _ => hmore, nofun⟩
  · simp only [hready, Bool.false_eq_true, if_false]
    exact ⟨h.memory, h.begin, h.rest, h.nonempty, fun _ => hacc,
      fun he => absurd he (notReady_ne_esuccess _)⟩

theorem written_run (hloop : s.result = .ewouldblock) (hn : 1 ≤ s.nBytes)
    (hhost : Exec.Allowed consoleWrite (fun s turn => HostAnswers s.nBytes turn) s turns) :
    Written s (Exec.run consoleWrite s turns) := by
  refine Exec.run_invariant (fun t turn hturn ht => ht.step hturn) hhost ?_
  exact ⟨rfl, le_refl _, rfl, hn, fun _ => by simp [bytesAt], fun he => by simp [hloop] at he⟩

theorem writeComplete (hloop : s.result = .ewouldblock) (hn : 1 ≤ s.nBytes)
    (hhost : Exec.Allowed consoleWrite (fun s turn => HostAnswers s.nBytes turn) s turns) :
    WriteComplete s turns := by
  have h := written_run hloop hn hhost
  refine ⟨h.finished, h.memory, fun n => ?_⟩
  have hbefore := written_run hloop hn (hhost.take n)
  exact ⟨hbefore.begin, hbefore.rest.le⟩

end Write

/-! ### The reading loop -/

section Read

variable {s₀ s : ReadCall} {turn : Turn} {turns : List Turn}

theorem store_store (memory stream : Nat → UInt8) (data consumed m n : Nat) :
    store (store memory data m stream consumed) (data + m) n stream (consumed + m) =
      store memory data (m + n) stream consumed := by
  funext a
  unfold store
  by_cases h₁ : data + m ≤ a ∧ a < data + m + n
  · rw [if_pos h₁, if_pos (by omega)]
    congr 1
    omega
  · rw [if_neg h₁]
    by_cases h₂ : data ≤ a ∧ a < data + m
    · rw [if_pos h₂, if_pos (by omega)]
    · rw [if_neg h₂, if_neg (by omega)]

/-- The part of the buffer that has been filled, and the part still to come. -/
structure Filled (s₀ s : ReadCall) : Prop where
  stream : s.stream = s₀.stream
  begin : s₀.data ≤ s.data
  rest : s.data + s.nBytes = s₀.data + s₀.nBytes
  nonempty : 1 ≤ s.nBytes
  stored : s.result ≠ .esuccess →
    s.consumed = s₀.consumed + (s.data - s₀.data) ∧
    s.memory = store s₀.memory s₀.data (s.data - s₀.data) s₀.stream s₀.consumed
  finished : s.result = .esuccess →
    s.consumed = s₀.consumed + s₀.nBytes ∧
    s.memory = store s₀.memory s₀.data s₀.nBytes s₀.stream s₀.consumed

theorem Filled.step (h : Filled s₀ s) (hhost : HostAnswers s.nBytes turn) :
    Filled s₀ (consoleRead s turn) := by
  unfold consoleRead
  by_cases hloop : s.result ≠ .ewouldblock
  · rwa [if_pos hloop]
  rw [if_neg hloop]
  have hst := h.stored (by rw [not_not.mp hloop]; simp)
  by_cases hready : turn.revents.ready
  · simp only [hready, if_true]
    cases hout : turn.outcome with
    | error errno =>
        rw [HostAnswers, hout] at hhost
        exact ⟨h.stream, h.begin, h.rest, h.nonempty, fun _ => hst, fun he => absurd he hhost⟩
    | bytes actualBytes =>
        rw [HostAnswers, hout] at hhost
        have hsplit : s.data + actualBytes - s₀.data = s.data - s₀.data + actualBytes := by
          have := h.begin
          omega
        -- what is stored now comes right after what was stored before
        have hconsumed : s.consumed + actualBytes =
            s₀.consumed + (s.data + actualBytes - s₀.data) := by
          rw [hst.1, hsplit, Nat.add_assoc]
        have hmore : store s.memory s.data actualBytes s.stream s.consumed =
            store s₀.memory s₀.data (s.data + actualBytes - s₀.data) s₀.stream s₀.consumed := by
          rw [hsplit, ← store_store, hst.2, hst.1, h.stream, Nat.add_sub_cancel' h.begin]
        have hrest := h.rest
        have hbegin := h.begin
        simp only
        split
        · rename_i hall
          refine ⟨h.stream, h.begin, h.rest, h.nonempty, fun hne => absurd rfl hne, fun _ => ?_⟩
          have hwhole : s.data + actualBytes - s₀.data = s₀.nBytes := by omega
          exact ⟨by simp only; rw [hconsumed, hwhole], by simp only; rw [hmore, hwhole]⟩
        · rename_i hpart
          split
          · exact ⟨h.stream, h.begin, h.rest, h.nonempty, fun _ => hst, nofun⟩
          · exact ⟨h.stream, by simp only; omega, by simp only; omega, by simp only; omega,
              fun _ => ⟨hconsumed, hmore⟩, nofun⟩
  · simp only [hready, Bool.false_eq_true, if_false]
    exact ⟨h.stream, h.begin, h.rest, h.nonempty, fun _ => hst,
      fun he => absurd he (notReady_ne_esuccess _)⟩

theorem filled_run (hloop : s.result = .ewouldblock) (hn : 1 ≤ s.nBytes)
    (hhost : Exec.Allowed consoleRead (fun s turn => HostAnswers s.nBytes turn) s turns) :
    Filled s (Exec.run consoleRead s turns) := by
  refine Exec.run_invariant (fun t turn hturn ht => ht.step hturn) hhost ?_
  refine ⟨rfl, le_refl _, rfl, hn, fun _ => ⟨by simp, ?_⟩, fun he => by simp [hloop] at he⟩
  funext a
  rw [store, if_neg (by omega)]

/-- The memory, whatever the result: nothing outside of the buffer. -/
theorem Filled.unchanged (h : Filled s₀ s) {a : Nat}
    (ha : a < s₀.data ∨ s₀.data + s₀.nBytes ≤ a) : s.memory a = s₀.memory a := by
  have hrest := h.rest
  by_cases hres : s.result = .esuccess
  · rw [(h.finished hres).2, store, if_neg (by omega)]
  · rw [(h.stored hres).2, store, if_neg (by omega)]

theorem bytesAt_store (memory stream : Nat → UInt8) (data consumed n : Nat) :
    bytesAt (store memory data n stream consumed) data n =
      (List.range n).map fun i => stream (consumed + i) := by
  refine List.map_congr_left fun i hi => ?_
  have := List.mem_range.mp hi
  rw [store, if_pos (by omega), Nat.add_sub_cancel_left]

/-- The end of the file is taken for one unless `errno` says that the call would block. -/
theorem eof_result (hn : 1 ≤ s.nBytes) (heof : ReportsEof s turn) :
    ((consoleRead s turn).result ≠ .esuccess ∧ (consoleRead s turn).result ≠ .ewouldblock) ↔
      errnoAtRead s turn ≠ .ewouldblock := by
  obtain ⟨hloop, hready, hout⟩ := heof
  have hne : ¬ (0 = s.nBytes) := by omega
  by_cases herr : errnoAtRead s turn = .ewouldblock
  · simp [consoleRead, hloop, hready, hout, hne, show turn.pollErrno.getD s.errno = _ from herr,
      herr]
  · have herr' : turn.pollErrno.getD s.errno ≠ .ewouldblock := herr
    simp [consoleRead, hloop, hready, hout, hne, herr', herr]

/-- **When console transfers are complete or reported.**  Writes always are.  A read is,
except that an end of file is not reported while `errno` is left at `EWOULDBLOCK`: then the
loop goes round again. -/
theorem consoleTransfers_iff {w : WriteCall} {writeTurns : List Turn}
    (hwloop : w.result = .ewouldblock) (hwn : 1 ≤ w.nBytes)
    (hwhost : Exec.Allowed consoleWrite (fun s turn => HostAnswers s.nBytes turn) w writeTurns)
    (hloop : s.result = .ewouldblock) (hn : 1 ≤ s.nBytes)
    (hhost : Exec.Allowed consoleRead (fun s turn => HostAnswers s.nBytes turn) s turns) :
    WriteComplete w writeTurns ∧ ReadComplete s turns ↔
      ∀ n turn, turns[n]? = some turn → ReportsEof (Exec.runTo consoleRead s turns n) turn →
        errnoAtRead (Exec.runTo consoleRead s turns n) turn ≠ .ewouldblock := by
  have hfilled : ∀ n, Filled s (Exec.runTo consoleRead s turns n) := fun n =>
    filled_run hloop hn (hhost.take n)
  have heof : ∀ n turn, turns[n]? = some turn →
      ReportsEof (Exec.runTo consoleRead s turns n) turn →
      (((Exec.runTo consoleRead s turns (n + 1)).result ≠ .esuccess ∧
          (Exec.runTo consoleRead s turns (n + 1)).result ≠ .ewouldblock) ↔
        errnoAtRead (Exec.runTo consoleRead s turns n) turn ≠ .ewouldblock) := by
    intro n turn hturn hreports
    rw [Exec.runTo_succ consoleRead s hturn]
    exact eof_result (hfilled n).nonempty hreports
  constructor
  · intro h n turn hturn hreports
    exact (heof n turn hturn hreports).mp (h.2.eofReported n turn hturn hreports)
  · intro h
    have hend := filled_run hloop hn hhost
    refine ⟨writeComplete hwloop hwn hwhost, ⟨fun hres => ?_, fun a ha => hend.unchanged ha,
      fun n => ⟨(hfilled n).begin, (hfilled n).rest.le⟩, fun n turn hturn hreports =>
        (heof n turn hturn hreports).mpr (h n turn hturn hreports)⟩⟩
    obtain ⟨hconsumed, hmemory⟩ := hend.finished hres
    exact ⟨hconsumed, by rw [hmemory, bytesAt_store]⟩

/-- With a stale `EWOULDBLOCK` the end of the file keeps the loop going for ever. -/
theorem run_eof_stale (hloop : s.result = .ewouldblock) (hn : 1 ≤ s.nBytes)
    (hstale : s.errno = .ewouldblock) {revents : Revents} (hready : revents.ready) (n : Nat) :
    (Exec.run consoleRead s (List.replicate n ⟨none, revents, .bytes 0⟩)).result =
      .ewouldblock := by
  induction n generalizing s with
  | zero => exact hloop
  | succ n ih =>
      rw [List.replicate_succ, Exec.run_cons]
      have hne : ¬ (0 = s.nBytes) := by omega
      refine ih ?_ ?_ ?_ <;> simp [consoleRead, hloop, hready, hstale, hne, hn]

end Read

/-- The connection is ready, and `read` or `write` answers `actualBytes`. -/
def readyTurn (actualBytes : Nat) : Turn := ⟨none, ⟨true, false, false, false⟩, .bytes actualBytes⟩

/-- A read of four bytes, with the code that a call before it left in `errno`. -/
def readFour (errno : Errno) : ReadCall :=
  ⟨0, 4, .ewouldblock, errno, fun _ => 0, fun i => i.toUInt8, 0⟩

def writeFour : WriteCall := ⟨0, 4, .ewouldblock, .esuccess, fun a => a.toUInt8, []⟩

theorem consoleTransfers_iff_partial :
    (WriteComplete writeFour [readyTurn 1, readyTurn 3] ∧
      ReadComplete (readFour .esuccess) [readyTurn 3, readyTurn 1]) ↔
    ∀ n turn, [readyTurn 3, readyTurn 1][n]? = some turn →
      ReportsEof (Exec.runTo consoleRead (readFour .esuccess) [readyTurn 3, readyTurn 1] n) turn →
      errnoAtRead (Exec.runTo consoleRead (readFour .esuccess) [readyTurn 3, readyTurn 1] n) turn ≠
        .ewouldblock :=
  consoleTransfers_iff (s := readFour .esuccess) (w := writeFour) rfl (by decide) (by decide) rfl
    (by decide) (by decide)

/-- A server that has gone, met with `EWOULDBLOCK` in `errno`, is not reported. -/
theorem not_readComplete_stale :
    ¬ (WriteComplete writeFour [] ∧ ReadComplete (readFour .ewouldblock) [readyTurn 0]) := by
  intro h
  exact (h.2.eofReported 0 (readyTurn 0) rfl ⟨rfl, rfl, rfl⟩).2 rfl

end Console
