import OsxVlm.ColdLoad.Screen

/-!
# The history of the cold load

Every output command is stored in a ring of 1024 before it is handled, and `clsoSelect`
empties the ring.  A display that is opened again gets the commands of the ring once more,
from the first that says where the cursor stands.
-/

namespace ColdLoad

/-! ### The ring -/

/-- `command_history`, `command_history_top` and `command_history_wrapped`. -/
structure History where
  commands : Nat → Command
  top : Nat
  wrapped : Bool

namespace History

/-- The command is stored. -/
def store (h : History) (command : Command) : History :=
  let h' := { h with commands := Function.update h.commands h.top command, top := h.top + 1 }
  if h'.top = 1024 then { h' with top := 0, wrapped := true } else h'

/-- What `handle_output_command` does to the history. -/
def handleOutputCommand (h : History) (command : Command) : History :=
  match operator command with
  | .select => { h with top := 0, wrapped := false }
  | _ => h

/-- One command of `manage_cold_load_output`. -/
def output (h : History) (command : Command) : History :=
  (h.store command).handleOutputCommand command

end History

/-- The history and the screen together. -/
structure Channel where
  history : History
  screen : Screen

/-- One command of `manage_cold_load_output`. -/
def Channel.output (c : Channel) (command : Command) : Option Channel :=
  (c.screen.handleOutputCommand command).map fun screen => ⟨c.history.output command, screen⟩

/-! ### The replay -/

/-- The variables of `replay_command_history`, and the commands that it has handed on. -/
structure Replay where
  history : History
  i : Nat
  havePos : Bool
  executed : List Command

/-- One turn of the loop. -/
def Replay.turn (r : Replay) : Replay :=
  let i := if r.i = 1024 then 0 else r.i
  let command := r.history.commands i
  let havePos := r.havePos || operator command == .setCursorpos
  if havePos then
    ⟨r.history.handleOutputCommand command, i + 1, havePos, r.executed ++ [command]⟩
  else ⟨r.history, i + 1, havePos, r.executed⟩

/-- The loop, for as many turns as there is fuel. -/
def Replay.loop : Nat → Replay → Option Replay
  | 0, _ => none
  | fuel + 1, r => if r.i = r.history.top then some r else loop fuel r.turn

/-- Where the loop begins. -/
def History.replay (h : History) : Replay := ⟨h, if h.wrapped then h.top + 1 else 0, false, []⟩

/-! ### What a replay owes -/

/-- After `clsoSelect`, whatever the array holds. -/
def emptied (contents : Nat → Command) : History := ⟨contents, 0, false⟩

theorem handleOutputCommand_select (h : History) {command : Command}
    (hop : operator command = .select) :
    h.output command = emptied (h.store command).commands := by
  rw [History.output, History.handleOutputCommand, hop]
  rfl

/-- The history after some commands. -/
def recorded (contents : Nat → Command) (commands : List Command) : History :=
  commands.foldl History.output (emptied contents)

/-- The last 1024 commands. -/
def retained (commands : List Command) : List Command := commands.drop (commands.length - 1024)

/-- The commands from the first on that sets the cursor. -/
def fromCursorpos (commands : List Command) : List Command :=
  commands.dropWhile fun command => operator command != .setCursorpos

def Draws (command : Command) : Prop :=
  operator command = .drawChar ∨ operator command = .lozengedChar

/-- Some command draws a character in the cell. -/
def Drawn (commands : List Command) (y x : Nat) : Prop :=
  ∃ front command back, commands = front ++ command :: back ∧ Draws command ∧
    front.foldl moveCursor (0, 0) = (x, y)

/-- The replay ends, hands on the retained commands from the first known cursor on, each once
and in order, and draws on a blank screen of the same size what they drew. -/
structure Repeats (contents : Nat → Command) (commands : List Command) : Prop where
  executes : ∃ fuel r, (recorded contents commands).replay.loop fuel = some r ∧
    r.executed = fromCursorpos (retained commands)
  recreates : ∀ fuel r, (recorded contents commands).replay.loop fuel = some r →
    ∀ (before blankScreen : Screen) (c : Channel),
      before.WellFormed → blankScreen.WellFormed → blankScreen.width = before.width →
      blankScreen.height = before.height →
      PartialRun.run Channel.output ⟨emptied contents, before⟩ commands = some c →
      ∃ screen, PartialRun.run Screen.handleOutputCommand blankScreen r.executed = some screen ∧
        ∀ y x, Drawn (fromCursorpos (retained commands)) y x →
          screen.cell y x = c.screen.cell y x

/-! ### What is recorded -/

section Recorded

variable {contents : Nat → Command} {commands : List Command}

theorem output_of_ne_select (h : History) {command : Command} (hop : operator command ≠ .select) :
    h.output command = h.store command := by
  unfold History.output History.handleOutputCommand
  split
  · contradiction
  · rfl

variable (contents) in
/-- The ring holds the last 1024 commands, each in the slot of its number. -/
theorem recorded_spec (hselect : ∀ c ∈ commands, operator c ≠ .select) :
    (recorded contents commands).top = commands.length % 1024 ∧
    (recorded contents commands).wrapped = decide (1024 ≤ commands.length) ∧
    ∀ k (hk : k < commands.length), commands.length ≤ k + 1024 →
      (recorded contents commands).commands (k % 1024) = commands.get ⟨k, hk⟩ := by
  induction commands using List.reverseRecOn with
  | nil => exact ⟨rfl, rfl, fun k hk => absurd hk (by simp)⟩
  | append_singleton cs c ih =>
      obtain ⟨htop, hwrapped, hslots⟩ := ih fun c' hc' => hselect c' (List.mem_append_left _ hc')
      have hstep : recorded contents (cs ++ [c]) = (recorded contents cs).store c := by
        rw [recorded, List.foldl_append]
        exact output_of_ne_select _ (hselect c (by simp))
      have hcommands : ((recorded contents cs).store c).commands =
          Function.update (recorded contents cs).commands (cs.length % 1024) c := by
        unfold History.store
        simp only [htop]
        split <;> rfl
      rw [hstep]
      refine ⟨?_, ?_, fun k hk hlast => ?_⟩
      · unfold History.store
        simp only [htop, List.length_append, List.length_singleton]
        split
        · simp only
          omega
        · simp only
          omega
      · unfold History.store
        simp only [htop, List.length_append, List.length_singleton]
        split
        · simp only [true_eq_decide_iff]
          omega
        · simp only [hwrapped, decide_eq_decide]
          omega
      · rw [hcommands]
        simp only [List.length_append, List.length_singleton] at hk hlast
        by_cases hnew : k = cs.length
        · subst hnew
          simp
        · rw [Function.update_of_ne (by omega), hslots k (by omega) (by omega)]
          simp [List.getElem_append_left (show k < cs.length by omega)]

end Recorded

/-! ### The loop -/

namespace Replay

variable {r : Replay} {command : Command}

theorem loop_of_eq (h : r.i = r.history.top) (fuel : Nat) : loop (fuel + 1) r = some r := if_pos h

theorem loop_of_ne (h : r.i ≠ r.history.top) (fuel : Nat) :
    loop (fuel + 1) r = loop fuel r.turn := if_neg h

/-- More fuel does not change what the loop ends with. -/
theorem loop_unique {fuel fuel' : Nat} {a b : Replay} (ha : loop fuel r = some a)
    (hb : loop fuel' r = some b) : a = b := by
  induction fuel generalizing r fuel' with
  | zero => cases ha
  | succ fuel ih =>
      cases fuel' with
      | zero => cases hb
      | succ fuel' =>
          by_cases h : r.i = r.history.top
          · rw [loop_of_eq h] at ha hb
            exact (Option.some.inj ha).symm.trans (Option.some.inj hb)
          · rw [loop_of_ne h] at ha hb
            exact ih ha hb

theorem turn_eq (hcommand : r.history.commands (r.i % 1024) = command) (hi : r.i ≤ 1024)
    (hselect : operator command ≠ .select) :
    r.turn = ⟨r.history, r.i % 1024 + 1, r.havePos || operator command == .setCursorpos,
      if r.havePos || operator command == .setCursorpos then r.executed ++ [command]
      else r.executed⟩ := by
  have hindex : (if r.i = 1024 then 0 else r.i) = r.i % 1024 := by
    split <;> omega
  have hhistory : r.history.handleOutputCommand command = r.history := by
    unfold History.handleOutputCommand
    split
    · contradiction
    · rfl
  unfold turn
  simp only [hindex, hcommand, hhistory]
  split <;> rfl

/-- From its start to `top` the loop reads the slots in order. -/
theorem loop_reads (cs : List Command) (hi : r.i ≤ 1024) (htop : 0 < r.history.top)
    (htop' : r.history.top < 1024) (hfew : cs.length < 1024)
    (hend : (r.i + cs.length) % 1024 = r.history.top)
    (hslots : ∀ j (hj : j < cs.length),
      r.history.commands ((r.i + j) % 1024) = cs.get ⟨j, hj⟩)
    (hselect : ∀ c ∈ cs, operator c ≠ .select) :
    ∃ r', loop (cs.length + 1) r = some r' ∧
      r'.executed = r.executed ++ if r.havePos then cs else fromCursorpos cs := by
  induction cs generalizing r with
  | nil =>
      refine ⟨r, loop_of_eq ?_ 0, by simp [fromCursorpos]⟩
      simp only [List.length_nil] at hend
      omega
  | cons c cs ih =>
      simp only [List.length_cons] at hfew hend
      have hne : r.i ≠ r.history.top := by omega
      have hfirst : r.history.commands (r.i % 1024) = c := hslots 0 (by simp)
      have hturn := turn_eq hfirst hi (hselect c List.mem_cons_self)
      obtain ⟨r', hloop, hexec⟩ := ih (r := r.turn) (by rw [hturn]; simp only; omega)
        (by rw [hturn]; exact htop) (by rw [hturn]; exact htop') (by omega)
        (by rw [hturn]; simp only; omega)
        (fun j hj => by
          have := hslots (j + 1) (by simpa using hj)
          rw [hturn]
          simp only
          rw [show (r.i % 1024 + 1 + j) % 1024 = (r.i + (j + 1)) % 1024 by omega]
          exact this)
        fun c' hc' => hselect c' (List.mem_cons_of_mem c hc')
      refine ⟨r', by rw [List.length_cons, loop_of_ne hne]; exact hloop, ?_⟩
      rw [hexec, hturn]
      cases hpos : r.havePos with
      | true => simp
      | false =>
          by_cases hset : operator c = .setCursorpos
          · simp [fromCursorpos, hset]
          · simp [fromCursorpos, hset]

/-- With `top` back at the start of the array the loop never meets it. -/
theorem loop_forever (fuel : Nat) (htop : r.history.top = 0) (hi : 1 ≤ r.i) (hi' : r.i ≤ 1024)
    (hselect : ∀ k < 1024, operator (r.history.commands k) ≠ .select) :
    loop fuel r = none := by
  induction fuel generalizing r with
  | zero => rfl
  | succ fuel ih =>
      have hturn := turn_eq rfl hi' (hselect (r.i % 1024) (Nat.mod_lt _ (by decide)))
      rw [loop_of_ne (by omega)]
      refine ih ?_ ?_ ?_ ?_ <;> rw [hturn]
      · exact htop
      · exact Nat.le_add_left 1 _
      · simp only
        omega
      · exact hselect

end Replay

section Loop

variable {contents : Nat → Command} {commands : List Command}

variable (contents) in
/-- Where the loop reads the retained commands, the oldest of a full ring apart. -/
theorem replay_reads (hselect : ∀ c ∈ commands, operator c ≠ .select)
    (htop : commands.length < 1024 ∨ commands.length % 1024 ≠ 0) :
    ∃ fuel r, (recorded contents commands).replay.loop fuel = some r ∧
      r.executed = fromCursorpos
        (if commands.length < 1024 then commands
          else commands.drop (commands.length - 1023)) := by
  obtain ⟨hrtop, hwrapped, hslots⟩ := recorded_spec contents hselect
  by_cases hfew : commands.length < 1024
  · rw [if_pos hfew]
    have hstart : (recorded contents commands).replay.i = 0 := by
      simp only [History.replay, hwrapped]
      exact if_neg (by simpa using hfew)
    by_cases hnil : commands.length = 0
    · refine ⟨1, _, Replay.loop_of_eq ?_ 0, ?_⟩
      · rw [hstart]
        show 0 = (recorded contents commands).top
        omega
      · rw [List.length_eq_zero_iff.mp hnil]
        rfl
    · obtain ⟨r, hloop, hexec⟩ := Replay.loop_reads
        (r := (recorded contents commands).replay) commands (by omega)
        (show 0 < (recorded contents commands).top by omega)
        (show (recorded contents commands).top < 1024 by omega) hfew
        (show _ = (recorded contents commands).top by rw [hstart]; omega)
        (fun j hj => by
          rw [hstart, Nat.zero_add]
          exact hslots j hj (by omega))
        hselect
      exact ⟨_, r, hloop, by simpa [History.replay] using hexec⟩
  · rw [if_neg hfew]
    have hfull : commands.length % 1024 ≠ 0 := htop.resolve_left hfew
    have hstart : (recorded contents commands).replay.i = commands.length % 1024 + 1 := by
      simp only [History.replay, hwrapped, hrtop]
      exact if_pos (by simpa using hfew)
    have hlen : (commands.drop (commands.length - 1023)).length = 1023 := by
      rw [List.length_drop]
      omega
    obtain ⟨r, hloop, hexec⟩ := Replay.loop_reads
      (r := (recorded contents commands).replay) (commands.drop (commands.length - 1023))
      (by omega) (show 0 < (recorded contents commands).top by omega)
      (show (recorded contents commands).top < 1024 by omega) (by omega)
      (show _ = (recorded contents commands).top by rw [hstart, hlen]; omega)
      (fun j hj => by
        have hslot := hslots (commands.length - 1023 + j) (by omega) (by omega)
        rw [hstart]
        show (recorded contents commands).commands _ = _
        rw [show (commands.length % 1024 + 1 + j) % 1024 =
          (commands.length - 1023 + j) % 1024 by omega, hslot]
        simp [List.getElem_drop])
      fun c hc => hselect c (List.mem_of_mem_drop hc)
    exact ⟨_, r, hloop, by simpa [History.replay] using hexec⟩

/-- The ring is full and its oldest command in the first slot. -/
theorem replay_forever (hselect : ∀ c ∈ commands, operator c ≠ .select)
    (hmany : 1024 ≤ commands.length) (hwrap : commands.length % 1024 = 0) (fuel : Nat) :
    (recorded contents commands).replay.loop fuel = none := by
  obtain ⟨htop, hwrapped, hslots⟩ := recorded_spec contents hselect
  have hstart : (recorded contents commands).replay.i = 1 := by
    simp only [History.replay, hwrapped, htop, hwrap]
    exact if_pos (by simpa using hmany)
  refine Replay.loop_forever fuel (htop.trans hwrap) (by omega) (by omega) fun k hk => ?_
  have hslot := hslots (commands.length - 1024 + k) (by omega) (by omega)
  rw [show (commands.length - 1024 + k) % 1024 = k by omega] at hslot
  show operator ((recorded contents commands).commands k) ≠ _
  rw [hslot]
  exact hselect _ (List.get_mem _ _)

end Loop

/-! ### What a replay draws -/

/-- Two screens of one size under one cursor, which agree in some cells. -/
structure Agree (P : Nat → Nat → Prop) (s t : Screen) : Prop where
  left : s.WellFormed
  right : t.WellFormed
  size : s.width = t.width ∧ s.height = t.height
  cursor : (s.currentX, s.currentY) = (t.currentX, t.currentY)
  cells : ∀ y x, P y x → s.cell y x = t.cell y x

namespace Agree

variable {P Q : Nat → Nat → Prop} {s s' t : Screen} {command : Command}

theorem mono (h : Agree P s t) (hPQ : ∀ y x, Q y x → P y x) : Agree Q s t :=
  ⟨h.left, h.right, h.size, h.cursor, fun y x hQ => h.cells y x (hPQ y x hQ)⟩

/-- A command does the same to both, and they agree where it drew. -/
theorem step (h : Agree P s t) (hstep : s.handleOutputCommand command = some s') :
    ∃ t', t.handleOutputCommand command = some t' ∧
      Agree (fun y x => P y x ∨ Draws command ∧ (s.currentX, s.currentY) = (x, y)) s' t' := by
  have hx : s.currentX = t.currentX := (Prod.mk.inj h.cursor).1
  have hy : s.currentY = t.currentY := (Prod.mk.inj h.cursor).2
  have hguard : s.OutputGuard command := by
    by_contra hnot
    rw [Screen.handleOutputCommand_none h.left hnot] at hstep
    cases hstep
  have hguard' : t.OutputGuard command := by
    unfold Screen.OutputGuard at hguard ⊢
    rwa [← hx, ← hy, ← h.size.2]
  obtain ⟨u, hu, hafter⟩ := Screen.handleOutputCommand_spec h.left hguard
  obtain rfl : u = s' := Option.some.inj (hu.symm.trans hstep)
  obtain ⟨t', ht', hafter'⟩ := Screen.handleOutputCommand_spec h.right hguard'
  refine ⟨t', ht', hafter.wellFormed, hafter'.wellFormed, ⟨?_, ?_⟩, ?_, fun y x hP => ?_⟩
  · rw [hafter.size.1, hafter'.size.1, h.size.1]
  · rw [hafter.size.2, hafter'.size.2, h.size.2]
  · rw [hafter.cursor, hafter'.cursor, Screen.cursorAfter, Screen.cursorAfter, h.cursor]
  · rw [hafter.cells, hafter'.cells]
    obtain hP | ⟨hdraws, hat⟩ := hP
    · unfold Screen.cellsAfter
      rw [hx, hy, h.size.1, h.size.2, h.cells y x hP]
    · obtain ⟨rfl, rfl⟩ := Prod.mk.inj hat
      unfold Screen.cellsAfter
      -- outside of the screen nothing is shown in either
      have hout : ¬ (s.currentY < s.height ∧ s.currentX < s.width) →
          s.cell s.currentY s.currentX = t.cell s.currentY s.currentX := fun hnot => by
        rw [Screen.cell_outside h.left hnot,
          Screen.cell_outside h.right (by rw [← h.size.1, ← h.size.2]; exact hnot)]
      by_cases hin : s.currentY < s.height ∧ s.currentX < s.width
      · have hin' : s.currentY < t.height ∧ s.currentX < t.width := by
          rw [← h.size.1, ← h.size.2]
          exact hin
        obtain hop | hop := hdraws <;> simp [hop, hin, hin', ← hx, ← hy]
      · have hin' : ¬ (s.currentY < t.height ∧ s.currentX < t.width) := by
          rw [← h.size.1, ← h.size.2]
          exact hin
        obtain hop | hop := hdraws <;>
          simp only [hop, hin, hin', ← hx, ← hy, and_false, if_false, hout hin]

/-- And so does a run of commands. -/
theorem run {cs : List Command} (h : Agree P s t)
    (hrun : PartialRun.run Screen.handleOutputCommand s cs = some s') :
    ∃ t', PartialRun.run Screen.handleOutputCommand t cs = some t' ∧
      Agree (fun y x => P y x ∨ ∃ front c back, cs = front ++ c :: back ∧ Draws c ∧
        front.foldl moveCursor (s.currentX, s.currentY) = (x, y)) s' t' := by
  induction cs generalizing P s t with
  | nil =>
      obtain rfl : s = s' := Option.some.inj hrun
      refine ⟨t, rfl, h.mono fun y x hQ => ?_⟩
      obtain hP | ⟨front, c, back, hnil, -⟩ := hQ
      · exact hP
      · simp at hnil
  | cons c cs ih =>
      cases hs : s.handleOutputCommand c with
      | none => simp [PartialRun.run, hs] at hrun
      | some u =>
          rw [PartialRun.run_cons hs] at hrun
          obtain ⟨v, hv, hagree⟩ := h.step hs
          obtain ⟨t', ht', hend⟩ := ih hagree hrun
          have hguard : s.OutputGuard c := by
            by_contra hnot
            rw [Screen.handleOutputCommand_none h.left hnot] at hs
            cases hs
          have hcursor : (u.currentX, u.currentY) = moveCursor (s.currentX, s.currentY) c := by
            obtain ⟨w, hw, hafter⟩ := Screen.handleOutputCommand_spec h.left hguard
            obtain rfl : w = u := Option.some.inj (hw.symm.trans hs)
            exact hafter.cursor
          refine ⟨t', by rw [PartialRun.run_cons hv]; exact ht', hend.mono fun y x hQ => ?_⟩
          obtain hP | ⟨front, c', back, heq, hdraws, hat⟩ := hQ
          · exact .inl (.inl hP)
          · cases front with
            | nil =>
                obtain ⟨rfl, -⟩ := List.cons.inj heq
                exact .inl (.inr ⟨hdraws, hat⟩)
            | cons d front =>
                obtain ⟨rfl, rfl⟩ := List.cons.inj heq
                refine .inr ⟨front, c', back, rfl, hdraws, ?_⟩
                rw [hcursor]
                exact hat

end Agree

section Recreate

variable {contents : Nat → Command} {commands : List Command}

theorem run_output {c c' : Channel}
    (h : PartialRun.run Channel.output c commands = some c') :
    PartialRun.run Screen.handleOutputCommand c.screen commands = some c'.screen := by
  induction commands generalizing c with
  | nil =>
      obtain rfl : c = c' := Option.some.inj h
      rfl
  | cons command commands ih =>
      cases hs : c.screen.handleOutputCommand command with
      | none => simp [PartialRun.run, Channel.output, hs] at h
      | some screen =>
          have hout : c.output command = some ⟨c.history.output command, screen⟩ := by
            rw [Channel.output, hs]
            rfl
          rw [PartialRun.run_cons hout] at h
          rw [PartialRun.run_cons hs]
          exact ih h

/-- A well formed screen of a given size. -/
def Sized (width height : Nat) (s : Screen) : Prop :=
  s.WellFormed ∧ s.width = width ∧ s.height = height

theorem Sized.step {width height : Nat} {s s' : Screen} {command : Command}
    (h : Sized width height s) (hstep : s.handleOutputCommand command = some s') :
    Sized width height s' := by
  by_cases hguard : s.OutputGuard command
  · obtain ⟨t, ht, hafter⟩ := Screen.handleOutputCommand_spec h.1 hguard
    obtain rfl : t = s' := Option.some.inj (ht.symm.trans hstep)
    exact ⟨hafter.wellFormed, hafter.size.1.trans h.2.1, hafter.size.2.trans h.2.2⟩
  · rw [Screen.handleOutputCommand_none h.1 hguard] at hstep
    cases hstep

theorem handleOutputCommand_setCursorpos (s : Screen) {command : Command}
    (hop : operator command = .setCursorpos) :
    s.handleOutputCommand command =
      some { s with currentX := commandX command, currentY := commandY command } := by
  rw [Screen.handleOutputCommand, hop]

/-- The commands from a known cursor on draw the same on a blank screen. -/
theorem recreates_of_suffix {front : List Command} {before blankScreen after : Screen}
    (hbefore : before.WellFormed) (hblank : blankScreen.WellFormed)
    (hwidth : blankScreen.width = before.width) (hheight : blankScreen.height = before.height)
    (hrun : PartialRun.run Screen.handleOutputCommand before (front ++ fromCursorpos commands) =
      some after) :
    ∃ screen,
      PartialRun.run Screen.handleOutputCommand blankScreen (fromCursorpos commands) = some screen ∧
      ∀ y x, Drawn (fromCursorpos commands) y x → screen.cell y x = after.cell y x := by
  rw [PartialRun.run_append] at hrun
  obtain ⟨m, hm, hrest⟩ := Option.bind_eq_some_iff.mp hrun
  have hsized : Sized before.width before.height m :=
    PartialRun.run_invariant (A := fun _ => True) (fun _ _ _ h _ hstep => h.step hstep)
      ⟨hbefore, rfl, rfl⟩ (fun _ _ => trivial) hm
  cases hfrom : fromCursorpos commands with
  | nil =>
      refine ⟨blankScreen, rfl, fun y x hdrawn => ?_⟩
      obtain ⟨a, c, b, hsplit, -⟩ := hdrawn
      simp at hsplit
  | cons c cs =>
      have hset : operator c = .setCursorpos := by
        have hhead := List.head?_dropWhile_not (fun c => operator c != .setCursorpos) commands
        rw [show commands.dropWhile _ = c :: cs from hfrom] at hhead
        simpa using hhead
      have hm' := handleOutputCommand_setCursorpos m hset
      have hb' := handleOutputCommand_setCursorpos blankScreen hset
      rw [hfrom, PartialRun.run_cons hm'] at hrest
      have hagree : Agree (fun _ _ => False)
          { m with currentX := commandX c, currentY := commandY c }
          { blankScreen with currentX := commandX c, currentY := commandY c } :=
        ⟨(hsized.step hm').1, (Sized.step ⟨hblank, hwidth, hheight⟩ hb').1,
          ⟨hsized.2.1.trans hwidth.symm, hsized.2.2.trans hheight.symm⟩, rfl,
          fun _ _ hfalse => hfalse.elim⟩
      obtain ⟨screen, hscreen, hend⟩ := hagree.run hrest
      refine ⟨screen, by rw [PartialRun.run_cons hb']; exact hscreen, fun y x hdrawn => ?_⟩
      obtain ⟨front', d, back, hsplit, hdraws, hat⟩ := hdrawn
      refine (hend.cells y x (.inr ?_)).symm
      cases front' with
      | nil =>
          obtain ⟨rfl, -⟩ := List.cons.inj hsplit
          obtain hop | hop := hdraws <;> rw [hop] at hset <;> cases hset
      | cons e front' =>
          obtain ⟨rfl, rfl⟩ := List.cons.inj hsplit
          refine ⟨front', d, back, rfl, hdraws, ?_⟩
          rw [List.foldl_cons] at hat
          rw [← hat, moveCursor, hset]

/-- The oldest command of a full ring sets the cursor. -/
def OldestSetsCursor (commands : List Command) : Prop :=
  ∃ command, commands[commands.length - 1024]? = some command ∧
    operator command = .setCursorpos

/-- A full ring, without the command that the loop leaves out. -/
theorem retained_eq_cons (hmany : 1024 ≤ commands.length) :
    ∃ oldest, commands[commands.length - 1024]? = some oldest ∧
      retained commands = oldest :: commands.drop (commands.length - 1023) := by
  have hlt : commands.length - 1024 < commands.length := by omega
  refine ⟨commands[commands.length - 1024], List.getElem?_eq_getElem hlt, ?_⟩
  rw [retained, List.drop_eq_getElem_cons hlt,
    show commands.length - 1024 + 1 = commands.length - 1023 by omega]

/-- What the loop leaves out does not matter exactly when it does not set the cursor. -/
theorem fromCursorpos_retained_iff (hmany : 1024 ≤ commands.length) :
    fromCursorpos (commands.drop (commands.length - 1023)) = fromCursorpos (retained commands) ↔
      ¬ OldestSetsCursor commands := by
  obtain ⟨oldest, holdest, hretained⟩ := retained_eq_cons hmany
  rw [hretained, OldestSetsCursor, holdest]
  by_cases hset : operator oldest = .setCursorpos
  · have hlong : fromCursorpos (oldest :: commands.drop (commands.length - 1023)) =
        oldest :: commands.drop (commands.length - 1023) := by
      simp [fromCursorpos, hset]
    rw [hlong]
    constructor
    · intro heq
      have hle : (fromCursorpos (commands.drop (commands.length - 1023))).length ≤
          (commands.drop (commands.length - 1023)).length :=
        (List.dropWhile_suffix _).length_le
      rw [heq, List.length_cons] at hle
      omega
    · intro hnot
      exact absurd ⟨oldest, rfl, hset⟩ hnot
  · constructor
    · intro _ hc
      obtain ⟨c, hc, hop⟩ := hc
      obtain rfl := Option.some.inj hc
      exact hset hop
    · intro _
      simp [fromCursorpos, hset]

/-- **When the replay repeats the history.**  A full ring has its oldest command in slot `top`,
and the loop begins behind it: it is left out, and with it in slot 0 the loop does not end. -/
theorem repeats_iff (contents : Nat → Command) {commands : List Command}
    (hselect : ∀ c ∈ commands, operator c ≠ .select) :
    Repeats contents commands ↔ commands.length < 1024 ∨
      commands.length % 1024 ≠ 0 ∧ ¬ OldestSetsCursor commands := by
  have hfew : commands.length < 1024 → retained commands = commands := fun hlt => by
    rw [retained, show commands.length - 1024 = 0 by omega, List.drop_zero]
  constructor
  · intro h
    by_cases hlt : commands.length < 1024
    · exact .inl hlt
    · obtain ⟨fuel, r, hloop, hexec⟩ := h.executes
      have hwrap : commands.length % 1024 ≠ 0 := fun hzero => by
        rw [replay_forever hselect (by omega) hzero] at hloop
        cases hloop
      obtain ⟨fuel', r', hloop', hexec'⟩ := replay_reads contents hselect (.inr hwrap)
      obtain rfl := Replay.loop_unique hloop hloop'
      rw [if_neg hlt, hexec] at hexec'
      exact .inr ⟨hwrap, (fromCursorpos_retained_iff (by omega)).mp hexec'.symm⟩
  · intro h
    obtain ⟨fuel, r, hloop, hexec⟩ := replay_reads contents hselect (h.imp_right And.left)
    have hright : r.executed = fromCursorpos (retained commands) := by
      rw [hexec]
      by_cases hlt : commands.length < 1024
      · rw [if_pos hlt, hfew hlt]
      · rw [if_neg hlt]
        exact (fromCursorpos_retained_iff (by omega)).mpr (h.resolve_left hlt).2
    refine ⟨⟨fuel, r, hloop, hright⟩, ?_⟩
    intro fuel' r' hloop' before blankScreen c hbefore hblank hwidth hheight hrun
    obtain rfl := Replay.loop_unique hloop hloop'
    rw [hright]
    obtain ⟨front, hfront⟩ : ∃ front, commands = front ++ fromCursorpos (retained commands) := by
      have hsuffix : fromCursorpos (retained commands) <:+ commands :=
        (List.dropWhile_suffix _).trans (List.drop_suffix _ _)
      obtain ⟨front, hfront⟩ := hsuffix
      exact ⟨front, hfront.symm⟩
    have hscreens := run_output hrun
    rw [hfront] at hscreens
    exact recreates_of_suffix hbefore hblank hwidth hheight hscreens

end Recreate

/-- A position and a character. -/
theorem repeats_iff_two :
    Repeats (fun _ => 0) [0x01000000, 0x00000041] ↔
      [(0x01000000 : Command), 0x00000041].length < 1024 ∨
        [(0x01000000 : Command), 0x00000041].length % 1024 ≠ 0 ∧
          ¬ OldestSetsCursor [0x01000000, 0x00000041] :=
  repeats_iff _ fun c hc => by
    obtain rfl | rfl : c = 0x01000000 ∨ c = 0x00000041 := by simpa using hc
    · decide
    · decide

/-- The replay of a full ring with `top` at 0 does not end. -/
theorem not_repeats_of_wrapped {contents : Nat → Command} {commands : List Command}
    (hselect : ∀ c ∈ commands, operator c ≠ .select) (hmany : 1024 ≤ commands.length)
    (hwrap : commands.length % 1024 = 0) : ¬ Repeats contents commands := by
  intro h
  obtain ⟨fuel, r, hloop, -⟩ := h.executes
  rw [replay_forever hselect hmany hwrap] at hloop
  cases hloop

/-- So it is with 1024 beeps. -/
theorem not_repeats_beeps :
    ∃ commands : List Command, (∀ c ∈ commands, c = 0x0A000000) ∧ commands.length = 1024 ∧
      ¬ Repeats (fun _ => 0) commands := by
  have hlen : (List.replicate 1024 (0x0A000000 : Command)).length = 1024 := List.length_replicate
  refine ⟨List.replicate 1024 0x0A000000, fun c hc => List.eq_of_mem_replicate hc, hlen,
    not_repeats_of_wrapped (fun c hc => ?_) hlen.ge (by rw [hlen])⟩
  rw [List.eq_of_mem_replicate hc]
  decide

end ColdLoad
