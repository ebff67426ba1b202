import Mathlib
import OsxVlm.Library.Execution
import OsxVlm.Queue.Calls
import OsxVlm.Disk.BoundedTransfer

/-!
# Disk commands are answered once and in order

`DiskLife` takes an element from the command queue, serves it and puts it on the
status queue; the guest may move between any two of these.  A transfer that
fails leaves `error_pending` set, which flushes the transfers behind it until a
reset.
-/

namespace Disk

open Queue

/-- A served command: the command as it was taken, and what became of it. -/
structure Served where
  cmd : EmbDiskCmd
  status : EmbDiskStatus
  moves : List Move

structure State where
  channel : DiskChannel
  memory : EmbPtr → EmbDiskQueueElement
  inhibitDisk : Bool
  commandQueue : EmbQueue EmbPtr
  statusQueue : EmbQueue EmbPtr
  /-- The element `DiskLife` has served and is putting on the status queue. -/
  holding : Option EmbPtr
  /-- What the guest has put on the command queue. -/
  queued : List EmbPtr
  /-- The words `DiskLife` has taken. -/
  words : List EmbPtr
  /-- The elements among them, with what became of each. -/
  served : List (EmbPtr × Served)
  /-- The elements put on the status queue. -/
  returned : List EmbPtr
  /-- Those the guest has taken from it. -/
  collected : List EmbPtr

/-- `DiskLife` at the head of its loop. -/
def State.takeCommand (s : State) (host : Host) : State :=
  if filled s.commandQueue = 0 then s
  else if s.inhibitDisk = true ∨ space s.statusQueue = 0 then s
  else
    let commandPtr := (takeWord s.commandQueue).1
    let command := s.memory commandPtr
    let answer := serve host s.channel command
    if commandPtr = 0 then
      { s with
        commandQueue := (takeWord s.commandQueue).2,
        words := s.words ++ [commandPtr] }
    else
      { s with
        commandQueue := (takeWord s.commandQueue).2,
        words := s.words ++ [commandPtr],
        memory := Function.update s.memory commandPtr answer.command,
        channel := answer.channel,
        holding := some commandPtr,
        served := s.served ++ [(commandPtr, ⟨command.cmd, answer.command.status, answer.moves⟩)] }

/-- `DiskLife` at the end of its loop. -/
def State.putStatus (s : State) (commandPtr : EmbPtr) : State :=
  match putWord s.statusQueue commandPtr with
  | none => s
  | some statusQueue =>
      { s with
        statusQueue := statusQueue,
        holding := none,
        returned := s.returned ++ [commandPtr] }

inductive Event where
  /-- The guest queues a command; it waits where the queue is full. -/
  | queue (commandPtr : EmbPtr)
  /-- The guest takes an element from the status queue. -/
  | collect
  /-- The guest writes an element. -/
  | write (commandPtr : EmbPtr) (command : EmbDiskQueueElement)
  /-- The guest writes its part of the channel. -/
  | channel (readOnly : Bool) (numberOfPages blocksize : EmbWord)
  | inhibit (inhibitDisk : Bool)
  /-- The partition is detached. -/
  | detach
  /-- `DiskLife` goes on, and its system calls answer as `host` does. -/
  | diskLife (host : Host)

def State.step (s : State) : Event → State
  | .queue commandPtr =>
      match putWord s.commandQueue commandPtr with
      | none => s
      | some commandQueue =>
          { s with commandQueue := commandQueue, queued := s.queued ++ [commandPtr] }
  | .collect =>
      if filled s.statusQueue = 0 then s
      else
        { s with
          statusQueue := (takeWord s.statusQueue).2,
          collected := s.collected ++ [(takeWord s.statusQueue).1] }
  | .write commandPtr command =>
      { s with memory := Function.update s.memory commandPtr command }
  | .channel readOnly numberOfPages blocksize =>
      { s with
        channel :=
          { s.channel with
            readOnly := readOnly, numberOfPages := numberOfPages, blocksize := blocksize } }
  | .inhibit inhibitDisk => { s with inhibitDisk := inhibitDisk }
  | .detach => { s with channel := { s.channel with fd := -1 } }
  | .diskLife host =>
      match s.holding with
      | none => s.takeCommand host
      | some commandPtr => s.putStatus commandPtr

/-- The channel when it is attached, with both queues empty. -/
def State.init (channel : DiskChannel) (memory : EmbPtr → EmbDiskQueueElement)
    (commandQueue statusQueue : EmbQueue EmbPtr) : State where
  channel := channel
  memory := memory
  inhibitDisk := false
  commandQueue := commandQueue
  statusQueue := statusQueue
  holding := none
  queued := []
  words := []
  served := []
  returned := []
  collected := []

/-! ### Every element comes back once -/

/-- The words in the queues, and the room for the element being put. -/
structure Inv (s : State) : Prop where
  commands : ∃ l, Holds s.commandQueue l ∧ s.queued = s.words ++ l
  statuses : ∃ l, Holds s.statusQueue l ∧ s.returned = s.collected ++ l ∧
    (s.holding ≠ none → l.length + 1 < s.statusQueue.queueSize)
  elements : s.words.filter (· ≠ 0) = s.served.map Prod.fst
  answered : s.served.map Prod.fst = s.returned ++ s.holding.toList

theorem Inv.init {channel : DiskChannel} {memory : EmbPtr → EmbDiskQueueElement}
    {commandQueue statusQueue : EmbQueue EmbPtr} (hc : Holds commandQueue [])
    (hs : Holds statusQueue []) : Inv (State.init channel memory commandQueue statusQueue) where
  commands := ⟨[], hc, rfl⟩
  statuses := ⟨[], hs, rfl, fun h => absurd rfl h⟩
  elements := rfl
  answered := rfl

variable {s : State}

theorem Inv.queue (h : Inv s) (commandPtr : EmbPtr) : Inv (s.step (.queue commandPtr)) := by
  obtain ⟨l, hholds, hqueued⟩ := h.commands
  simp only [State.step]
  split
  · exact h
  · next commandQueue hput =>
      have hadded := (hholds.of_putWord hput).2
      exact { h with commands := ⟨l ++ [commandPtr], hadded, by simp [hqueued]⟩ }

theorem Inv.collect (h : Inv s) : Inv (s.step .collect) := by
  obtain ⟨l, hholds, hreturned, hroom⟩ := h.statuses
  simp only [State.step]
  split
  · exact h
  · next hne =>
      cases l with
      | nil =>
          have := hholds.filled_eq
          exact absurd this hne
      | cons p l =>
          obtain ⟨hp, hrest⟩ := hholds.takeWord_cons
          have hsize := takeWord_queueSize (q := s.statusQueue)
          have hstill : s.holding ≠ none → l.length + 1 < (takeWord s.statusQueue).2.queueSize := by
            intro hholding
            have := hroom hholding
            simp only [List.length_cons] at this
            omega
          exact { h with statuses := ⟨l, hrest, by simp [hreturned, hp], hstill⟩ }

theorem Inv.takeCommand (h : Inv s) (hidle : s.holding = none) (host : Host) :
    Inv (s.takeCommand host) := by
  obtain ⟨l, hholds, hqueued⟩ := h.commands
  obtain ⟨ls, hstatus, hreturned, -⟩ := h.statuses
  have hanswered := h.answered
  rw [hidle, Option.toList_none, List.append_nil] at hanswered
  unfold State.takeCommand
  split
  · exact h
  · next hne =>
      split
      · exact h
      · next hroom =>
          cases l with
          | nil => exact absurd hholds.filled_eq hne
          | cons p l =>
              obtain ⟨hp, hrest⟩ := hholds.takeWord_cons
              have hspace := hstatus.space_eq
              have hlt := hstatus.room
              simp only [hp]
              split
              · next hzero =>
                  have helements : (s.words ++ [p]).filter (· ≠ 0) = s.served.map Prod.fst := by
                    simp [List.filter_append, hzero, ← h.elements]
                  exact
                    { h with
                      commands := ⟨l, hrest, by simp [hqueued]⟩,
                      elements := helements }
              · next hnonzero =>
                  refine ⟨⟨l, hrest, by simp [hqueued]⟩, ⟨ls, hstatus, hreturned, ?_⟩, ?_, ?_⟩
                  · intro _
                    show ls.length + 1 < s.statusQueue.queueSize
                    grind
                  · have hkept : p ≠ 0#32 := hnonzero
                    simp [List.filter_append, hkept, ← h.elements]
                  · simp [hanswered]

/-- The element being put finds room, so it never waits. -/
theorem Inv.putStatus (h : Inv s) {commandPtr : EmbPtr} (hholding : s.holding = some commandPtr) :
    Inv (s.putStatus commandPtr) ∧ (s.putStatus commandPtr).holding = none := by
  obtain ⟨l, hholds, hreturned, hroom⟩ := h.statuses
  obtain ⟨q, hput, hadded⟩ := hholds.putWord (hroom (by rw [hholding]; simp)) commandPtr
  have hanswered := h.answered
  unfold State.putStatus
  rw [hput]
  refine ⟨⟨h.commands, ⟨_, hadded, by simp [hreturned], by simp⟩, h.elements, ?_⟩, rfl⟩
  simp [hanswered, hholding]

theorem Inv.step (h : Inv s) (e : Event) : Inv (s.step e) := by
  cases e with
  | queue commandPtr => exact h.queue commandPtr
  | collect => exact h.collect
  | write commandPtr command => exact ⟨h.commands, h.statuses, h.elements, h.answered⟩
  | channel readOnly numberOfPages blocksize =>
      exact ⟨h.commands, h.statuses, h.elements, h.answered⟩
  | inhibit inhibitDisk => exact ⟨h.commands, h.statuses, h.elements, h.answered⟩
  | detach => exact ⟨h.commands, h.statuses, h.elements, h.answered⟩
  | diskLife host =>
      simp only [State.step]
      split
      · next hidle => exact h.takeCommand hidle host
      · next commandPtr hholding => exact (h.putStatus hholding).1

/-- The elements come back in the order they were queued, each once; the one
being put is the only one still out. -/
structure Answered (s : State) : Prop where
  /-- The words taken are the first that were queued. -/
  taken_prefix : s.words <+: s.queued
  /-- Each element taken was served, and goes to the status queue in that order. -/
  returned_eq : s.words.filter (· ≠ 0) = s.returned ++ s.holding.toList
  served_eq : s.served.map Prod.fst = s.words.filter (· ≠ 0)
  /-- What the guest has collected is the first of what was returned. -/
  collected_prefix : s.collected <+: s.returned
  /-- An element being put is on the status queue after the next step. -/
  put_now : ∀ host, s.holding ≠ none → (s.step (.diskLife host)).holding = none

theorem Inv.law (h : Inv s) : Answered s := by
  obtain ⟨l, -, hqueued⟩ := h.commands
  obtain ⟨ls, -, hreturned, -⟩ := h.statuses
  refine ⟨⟨l, hqueued.symm⟩, h.elements.trans h.answered, h.elements.symm, ⟨ls, hreturned.symm⟩, ?_⟩
  intro host hne
  obtain ⟨commandPtr, hholding⟩ := Option.ne_none_iff_exists'.mp hne
  simp only [State.step, hholding]
  exact (h.putStatus hholding).2

/-! ### Errors are sticky -/

def EmbDiskCmd.Resets (cmd : EmbDiskCmd) : Prop := cmd = .resetCmd ∨ cmd = .initializeCmd

/-- A transfer that was answered `LostStatus`. -/
def Served.Failed (a : Served) : Prop := a.cmd.Transfers ∧ a.status = .lostStatus

/-- A failed transfer, and no reset behind it. -/
def Unreset (served : List (EmbPtr × Served)) : Prop :=
  ∃ (i : Nat) (a : EmbPtr × Served), served[i]? = some a ∧ a.2.Failed ∧
    ∀ (j : Nat) (b : EmbPtr × Served), i < j → served[j]? = some b → ¬ b.2.cmd.Resets

/-- Behind a failed transfer every transfer is aborted untouched until a reset. -/
def Sticky (served : List (EmbPtr × Served)) : Prop :=
  ∀ (n : Nat) (a : EmbPtr × Served), served[n]? = some a → Unreset (served.take n) → a.2.cmd.Transfers →
    a.2.status = .abortStatus ∧ a.2.moves = []

/-- `DiskLife` takes an element when it goes on. -/
def State.Takes (s : State) : Prop :=
  s.holding = none ∧ filled s.commandQueue ≠ 0 ∧ ¬ (s.inhibitDisk = true ∨ space s.statusQueue = 0) ∧
    (takeWord s.commandQueue).1 ≠ 0

/-- A command that is taken is not a write to a unit that is read-only, and finds
the partition open if it is a transfer that is tried. -/
def Serviceable (s : State) : Event → Prop
  | .diskLife _ =>
      s.Takes →
        let command := s.memory (takeWord s.commandQueue).1
        (command.cmd = .writeCmd → s.channel.readOnly = false) ∧
          (command.cmd.Transfers → s.channel.errorPending = false → s.channel.fd ≠ -1)
  | _ => True

variable {host : Host} {channel : DiskChannel} {command : EmbDiskQueueElement}

theorem serve_transfers_writable (hcmd : command.cmd.Transfers)
    (hw : command.cmd = .writeCmd → channel.readOnly = false) :
    serve host channel command = transfer host channel command := by
  rw [serve_transfers hcmd, if_neg]
  rintro ⟨hwrite, hro⟩
  rw [hw hwrite] at hro
  cases hro

/-- With an error pending a transfer is flushed. -/
theorem transfer_pending (host : Host) (command : EmbDiskQueueElement)
    (h : channel.errorPending = true) :
    (transfer host channel command).command.status = .abortStatus ∧
      (transfer host channel command).moves = [] ∧
      (transfer host channel command).channel = channel := by
  unfold transfer
  rw [if_pos h]
  exact ⟨rfl, rfl, rfl⟩

/-- A transfer that was tried and lost leaves the error pending. -/
theorem transfer_lost (hclear : channel.errorPending = false) (hopen : channel.fd ≠ -1)
    (hlost : (transfer host channel command).command.status = .lostStatus) :
    (transfer host channel command).channel.errorPending = true := by
  unfold transfer at hlost ⊢
  rw [if_neg (by rw [hclear]; decide), if_neg hopen] at hlost ⊢
  split at hlost
  · cases hlost
  · rfl

/-- Only a reset clears a pending error. -/
theorem serve_keeps (h : channel.errorPending = true) (hno : ¬ command.cmd.Resets) :
    (serve host channel command).channel.errorPending = true := by
  unfold serve EmbDiskCmd.Resets at *
  cases hcmd : command.cmd with
  | writeCmd =>
      simp only
      split
      · exact h
      · rw [(transfer_pending host command h).2.2]
        exact h
  | readCmd =>
      simp only
      rw [(transfer_pending host command h).2.2]
      exact h
  | resetCmd => simp [hcmd] at hno
  | initializeCmd => simp [hcmd] at hno
  | other => exact h

/-- What one more served command means for a failure before it. -/
theorem unreset_append {served : List (EmbPtr × Served)} {a : EmbPtr × Served} :
    Unreset (served ++ [a]) ↔ a.2.Failed ∨ Unreset served ∧ ¬ a.2.cmd.Resets := by
  unfold Unreset
  constructor
  · rintro ⟨i, b, hb, hfailed, hafter⟩
    rcases Nat.lt_trichotomy i served.length with hlt | heq | hgt
    · right
      refine ⟨⟨i, b, by rwa [List.getElem?_append_left hlt] at hb, hfailed, ?_⟩, ?_⟩
      · intro j c hj hc
        have hlen : j < served.length := (List.getElem?_eq_some_iff.mp hc).1
        exact hafter j c hj (by rwa [List.getElem?_append_left hlen])
      · exact hafter served.length a hlt (by simp)
    · left
      subst heq
      obtain rfl : a = b := by simpa using hb
      exact hfailed
    · rw [List.getElem?_eq_none (by simp; omega)] at hb
      cases hb
  · rintro (hfailed | ⟨⟨i, b, hb, hfailed, hafter⟩, hno⟩)
    · refine ⟨served.length, a, by simp, hfailed, ?_⟩
      intro j c hj hc
      rw [List.getElem?_eq_none (by simp; omega)] at hc
      cases hc
    · have hlt : i < served.length := (List.getElem?_eq_some_iff.mp hb).1
      refine ⟨i, b, by rwa [List.getElem?_append_left hlt], hfailed, ?_⟩
      intro j c hj hc
      rcases Nat.lt_trichotomy j served.length with hlt | heq | hgt
      · exact hafter j c hj (by rwa [List.getElem?_append_left hlt] at hc)
      · subst heq
        obtain rfl : a = c := by simpa using hc
        exact hno
      · rw [List.getElem?_eq_none (by simp; omega)] at hc
        cases hc

theorem sticky_append {served : List (EmbPtr × Served)} {a : EmbPtr × Served}
    (h : Sticky served)
    (ha : Unreset served → a.2.cmd.Transfers → a.2.status = .abortStatus ∧ a.2.moves = []) :
    Sticky (served ++ [a]) := by
  intro n b hb hun htransfers
  rcases Nat.lt_trichotomy n served.length with hlt | heq | hgt
  · rw [List.getElem?_append_left hlt] at hb
    rw [List.take_append_of_le_length (by omega)] at hun
    exact h n b hb hun htransfers
  · subst heq
    obtain rfl : a = b := by simpa using hb
    exact ha (by simpa using hun) htransfers
  · rw [List.getElem?_eq_none (by simp; omega)] at hb
    cases hb

/-- A failure that no reset has answered is pending, and has been sticky so far. -/
structure Flushing (s : State) : Prop where
  sticky : Sticky s.served
  pending : Unreset s.served → s.channel.errorPending = true

theorem Flushing.takeCommand (h : Flushing s) (hidle : s.holding = none)
    (hok : Serviceable s (.diskLife host)) : Flushing (s.takeCommand host) := by
  unfold State.takeCommand
  split
  · exact h
  · next hne =>
    split
    · exact h
    · next hroom =>
      dsimp only
      split
      · exact ⟨h.sticky, h.pending⟩
      · next hnonzero =>
        obtain ⟨hwritable, hopen⟩ := hok ⟨hidle, hne, hroom, hnonzero⟩
        constructor
        · apply sticky_append h.sticky
          intro hun htransfers
          rw [serve_transfers_writable htransfers hwritable]
          have hflushed := transfer_pending host (s.memory (takeWord s.commandQueue).1)
            (h.pending hun)
          exact ⟨hflushed.1, hflushed.2.1⟩
        · intro hun
          rcases unreset_append.mp hun with ⟨htransfers, hlost⟩ | ⟨hun, hno⟩
          · cases hpending : s.channel.errorPending with
            | true =>
                dsimp only
                rw [serve_transfers_writable htransfers hwritable, (transfer_pending host _ hpending).2.2]
                exact hpending
            | false =>
                dsimp only at hlost ⊢
                rw [serve_transfers_writable htransfers hwritable] at hlost ⊢
                exact transfer_lost hpending (hopen htransfers hpending) hlost
          · exact serve_keeps (h.pending hun) hno

theorem Flushing.step (e : Event) (hok : Serviceable s e) (h : Flushing s) :
    Flushing (s.step e) := by
  cases e with
  | queue commandPtr =>
      simp only [State.step]
      split <;> exact ⟨h.sticky, h.pending⟩
  | collect =>
      simp only [State.step]
      split <;> exact ⟨h.sticky, h.pending⟩
  | write commandPtr command => exact ⟨h.sticky, h.pending⟩
  | channel readOnly numberOfPages blocksize => exact ⟨h.sticky, h.pending⟩
  | inhibit inhibitDisk => exact ⟨h.sticky, h.pending⟩
  | detach => exact ⟨h.sticky, h.pending⟩
  | diskLife host =>
      simp only [State.step]
      split
      · next hidle => exact h.takeCommand hidle hok
      · next commandPtr hholding =>
          unfold State.putStatus
          split <;> exact ⟨h.sticky, h.pending⟩

/-- **Disk commands.**  In every run each element is answered once and in order;
and errors are sticky in every run in which no write met a read-only unit and no
transfer was tried without an open partition. -/
theorem diskLife_law (channel : DiskChannel) (memory : EmbPtr → EmbDiskQueueElement)
    (commandQueue statusQueue : EmbQueue EmbPtr) (hc : Holds commandQueue [])
    (hs : Holds statusQueue []) (es : List Event) :
    let s := Exec.run State.step (State.init channel memory commandQueue statusQueue) es
    Answered s ∧
      (Exec.Allowed State.step Serviceable (State.init channel memory commandQueue statusQueue) es →
        Sticky s.served) := by
  intro s
  constructor
  · have hinv : Inv s := Exec.run_invariant (A := fun _ _ => True) (fun s e _ h => h.step e)
      (Exec.allowed_of_forall fun _ _ _ => trivial) (Inv.init hc hs)
    exact hinv.law
  · intro hok
    have hflushing : Flushing s := Exec.run_invariant (fun s e hok h => h.step e hok) hok
      ⟨by simp [Sticky, State.init], by simp [Unreset, State.init]⟩
    exact hflushing.sticky

def sampleRing : EmbQueue EmbPtr where
  queueSize := 10
  putIndex := 0
  takeIndex := 0
  elementArray _ := 0

theorem sampleRing_holds : Holds sampleRing [] := .empty (by decide) rfl

theorem diskLife_sample :
    let init := State.init sampleChannel (fun _ => sampleRead 2 1 2048) sampleRing sampleRing
    let es := [.queue 0x100, .diskLife wholeHost]
    Holds sampleRing [] ∧ Exec.Allowed State.step Serviceable init es ∧
      Answered (Exec.run State.step init es) ∧ Sticky (Exec.run State.step init es).served := by
  intro init es
  have hallowed : Exec.Allowed State.step Serviceable init es := by
    simp [es, init, Exec.Allowed, Serviceable, State.step, State.init, sampleRing, putWord,
      increment, sampleRead, sampleChannel]
  have hlaw := diskLife_law sampleChannel (fun _ => sampleRead 2 1 2048) sampleRing sampleRing
    sampleRing_holds sampleRing_holds es
  exact ⟨sampleRing_holds, hallowed, hlaw.1, hlaw.2 hallowed⟩

/-- Guest memory with a write at 0x100 and reads elsewhere. -/
def sampleMemory (p : EmbPtr) : EmbDiskQueueElement :=
  if p = 0x100 then { sampleRead 2 1 2048 with cmd := .writeCmd } else sampleRead 2 1 2048

/-- On a read-only unit a write is lost, and the read behind it is done. -/
theorem read_after_lost_write :
    ¬ Sticky (Exec.run State.step
      (State.init { sampleChannel with readOnly := true } sampleMemory sampleRing sampleRing)
      [.queue 0x100, .queue 0x200, .diskLife wholeHost, .diskLife wholeHost,
        .diskLife wholeHost]).served := by
  have hserved : (Exec.run State.step
      (State.init { sampleChannel with readOnly := true } sampleMemory sampleRing sampleRing)
      [.queue 0x100, .queue 0x200, .diskLife wholeHost, .diskLife wholeHost,
        .diskLife wholeHost]).served.map (fun a => (a.2.cmd, a.2.status)) =
          [(.writeCmd, .lostStatus), (.readCmd, .wonStatus)] := by
    simp [State.step, State.init, State.takeCommand, State.putStatus, sampleRing, putWord, takeWord,
      filled, space, increment, sampleMemory, serve, transfer, sampleChannel, sampleRead, doDiskIO,
      wholeHost, transferLoop, vectors, NIOVectors, wholeCall, byteCount]
  obtain ⟨a, rest, hlist, ha, hrest⟩ := List.map_eq_cons_iff.mp hserved
  obtain ⟨b, rest, rfl, hb, hrest⟩ := List.map_eq_cons_iff.mp hrest
  obtain rfl := List.map_eq_nil_iff.mp hrest
  simp only [Prod.mk.injEq] at ha hb
  rw [hlist]
  intro hsticky
  have hfailed : Unreset [a] := by
    refine ⟨0, a, rfl, ⟨.inr ha.1, ha.2⟩, ?_⟩
    intro j c hj hc
    rw [List.getElem?_eq_none hj] at hc
    cases hc
  have hflushed := (hsticky 1 b rfl hfailed (.inl hb.1)).1
  rw [hb.2] at hflushed
  cases hflushed

end Disk
