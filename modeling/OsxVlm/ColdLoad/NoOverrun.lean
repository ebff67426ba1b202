import OsxVlm.ColdLoad.Screen

/-!
# The screen array is not overrun

Commands, resizes, exposures and cursor blinks come in any order.  The array keeps its
shape through all of them.  Every command but two guards its accesses itself: the two that
clear read the line of the cursor without asking whether the array has it.
-/

namespace ColdLoad

/-- What can happen to the screen. -/
inductive Event where
  | output (command : Command)
  | resize (newWidthPixels newHeightPixels : Int)
  | expose (newState fepCursor : Int)
  | hideCursor
  | showCursor (newState fepCursor : Int)
  | visibility (visible : Bool)
  | freeze (frozen : Bool)
  deriving DecidableEq, Repr

namespace Screen

/-- One event; `expose` is the repaint of `handle_input`. -/
def step (s : Screen) : Event → Option Screen
  | .output command => s.handleOutputCommand command
  | .resize newWidthPixels newHeightPixels => s.allocScreenArray newWidthPixels newHeightPixels
  | .expose newState fepCursor => do
      let s' ← s.hideCursor
      let _ ← s'.redisplayScreenArray 0 0 s'.width s'.height
      s'.showCursorInternal newState fepCursor
  | .hideCursor => s.hideCursor
  | .showCursor newState fepCursor => s.showCursorInternal newState fepCursor
  | .visibility visible => some { s with visibility := visible }
  | .freeze frozen => some { s with cursorFrozen := frozen }

/-- The event hides a cursor. -/
def Hides (s : Screen) : Event → Prop
  | .expose _ _ | .hideCursor => s.cursorVisible = true
  | .showCursor newState _ =>
      s.visibility = true ∧ s.cursorFrozen = false ∧ s.cursorVisible = true ∧
        s.cursorState ≠ newState
  | _ => False

/-- What an event asks of the cursor: a row of the array where a line is cleared, and an `int`
behind it where that is computed. -/
def Guard (s : Screen) (e : Event) : Prop :=
  (∀ command, e = .output command → s.OutputGuard command) ∧
    (s.Hides e → s.currentX + 1 < 2 ^ 31)

/-- A resize leaves at least one row and one column. -/
def Fits : Event → Prop
  | .resize newWidthPixels newHeightPixels =>
      1 ≤ newWidth newWidthPixels ∧ 1 ≤ newHeight newHeightPixels
  | _ => True

instance (e : Event) : Decidable (Fits e) := by
  unfold Fits
  split <;> infer_instance

variable {s s' : Screen} {e : Event}

theorem WellFormed.congr (h : s.WellFormed) (harray : s'.screenArray = s.screenArray)
    (hwidth : s'.width = s.width) (hheight : s'.height = s.height)
    (hrow : s'.currentY = s.currentY) : s'.WellFormed :=
  ⟨by rw [harray, hheight]; exact h.lines, by rw [harray, hwidth]; exact h.chars,
    by rw [harray, hwidth]; exact h.lengths, by rw [hrow]; exact h.row⟩

theorem hideCursor_some (h : s.WellFormed) (hx : s.cursorVisible = true → s.currentX + 1 < 2 ^ 31) :
    s.hideCursor = some { s with cursorVisible := false } := by
  rw [hideCursor_eq h, if_neg fun hc => hc.2 (hx hc.1)]

/-- Showing the cursor draws, and may hide it before. -/
theorem showCursorInternal_spec (h : s.WellFormed) (newState fepCursor : Int)
    (hx : s.Hides (.showCursor newState fepCursor) → s.currentX + 1 < 2 ^ 31) :
    ∃ s', s.showCursorInternal newState fepCursor = some s' ∧ s'.WellFormed := by
  unfold showCursorInternal
  by_cases hvis : (s.visibility && !s.cursorFrozen) = true
  · rw [if_pos hvis]
    have hbits : s.visibility = true ∧ s.cursorFrozen = false := by simpa using hvis
    by_cases hstale : (s.cursorVisible && s.cursorState != newState) = true
    · have hboth : s.cursorVisible = true ∧ s.cursorState ≠ newState := by simpa using hstale
      rw [if_pos hstale, hideCursor_some h fun _ => hx ⟨hbits.1, hbits.2, hboth.1, hboth.2⟩]
      exact ⟨_, rfl, h.congr rfl rfl rfl rfl⟩
    · rw [if_neg hstale]
      refine ⟨_, rfl, ?_⟩
      simp only
      split
      · exact h.congr rfl rfl rfl rfl
      · exact h
  · rw [if_neg hvis]
    exact ⟨s, rfl, h⟩

/-- A guarded event goes through and leaves the array in shape. -/
theorem step_spec (h : s.WellFormed) (hguard : s.Guard e) :
    ∃ s', s.step e = some s' ∧ s'.WellFormed := by
  cases e with
  | output command =>
      obtain ⟨s', hs', hafter⟩ := handleOutputCommand_spec h (hguard.1 command rfl)
      exact ⟨s', hs', hafter.wellFormed⟩
  | resize newWidthPixels newHeightPixels =>
      obtain ⟨s', hs', hwf, -⟩ := allocScreenArray_spec h newWidthPixels newHeightPixels
      exact ⟨s', hs', hwf⟩
  | expose newState fepCursor =>
      have hhidden : ({ s with cursorVisible := false } : Screen).WellFormed :=
        h.congr rfl rfl rfl rfl
      obtain ⟨css, hcss⟩ := redisplayScreenArray_spec hhidden 0 0 s.width s.height
      obtain ⟨s', hs', hwf⟩ := showCursorInternal_spec hhidden newState fepCursor
        fun hc => absurd hc.2.2.1 (by simp)
      exact ⟨s', by simp [step, hideCursor_some h hguard.2, hcss, hs'], hwf⟩
  | hideCursor => exact ⟨_, hideCursor_some h hguard.2, h.congr rfl rfl rfl rfl⟩
  | showCursor newState fepCursor => exact showCursorInternal_spec h newState fepCursor hguard.2
  | visibility visible => exact ⟨_, rfl, h.congr rfl rfl rfl rfl⟩
  | freeze frozen => exact ⟨_, rfl, h.congr rfl rfl rfl rfl⟩

/-- An event whose guard is not met does something undefined. -/
theorem step_none (h : s.WellFormed) (hguard : ¬ s.Guard e) : s.step e = none := by
  rw [Guard, not_and_or] at hguard
  obtain hguard | hguard := hguard
  · push Not at hguard
    obtain ⟨command, rfl, hnot⟩ := hguard
    exact handleOutputCommand_none h hnot
  · obtain ⟨hhides, hx⟩ : s.Hides e ∧ ¬ s.currentX + 1 < 2 ^ 31 := by
      simpa [Classical.not_imp] using hguard
    have hnone : s.cursorVisible = true → s.hideCursor = none := fun hvis => by
      rw [hideCursor_eq h, if_pos ⟨hvis, hx⟩]
    cases e with
    | expose newState fepCursor => simp [step, hnone hhides]
    | hideCursor => exact hnone hhides
    | showCursor newState fepCursor =>
        obtain ⟨hvis, hfrozen, hcursor, hstate⟩ := hhides
        simp [step, showCursorInternal, hvis, hfrozen, hcursor, hstate, hnone hcursor]
    | output command => exact absurd hhides id
    | resize newWidthPixels newHeightPixels => exact absurd hhides id
    | visibility visible => exact absurd hhides id
    | freeze frozen => exact absurd hhides id

theorem step_isSome_iff (h : s.WellFormed) : (s.step e).isSome ↔ s.Guard e := by
  by_cases hguard : s.Guard e
  · obtain ⟨s', hs', -⟩ := step_spec h hguard
    simp [hs', hguard]
  · simp [step_none h hguard, hguard]

theorem step_wellFormed (h : s.WellFormed) (hstep : s.step e = some s') : s'.WellFormed := by
  by_cases hguard : s.Guard e
  · obtain ⟨t, ht, hwf⟩ := step_spec h hguard
    obtain rfl : t = s' := Option.some.inj (ht.symm.trans hstep)
    exact hwf
  · rw [step_none h hguard] at hstep
    cases hstep

/-! ### Runs -/

/-- The screen after the first allocation. -/
def first (newWidthPixels newHeightPixels : Int) (s : Screen) : Prop :=
  initial.allocScreenArray newWidthPixels newHeightPixels = some s

/-- What is asked of a run: no access leaves the array, the array keeps its shape, and resizes
keep what they can. -/
structure NeverOverrun (s : Screen) (events : List Event) : Prop where
  inBounds : (PartialRun.run step s events).isSome
  shape : ∀ n t, PartialRun.run step s (events.take n) = some t →
    t.screenArray.length = t.height ∧
      ∀ l ∈ t.screenArray, l.chars.length = t.width ∧ l.length ≤ t.width
  kept : ∀ n newWidthPixels newHeightPixels t t',
    events[n]? = some (.resize newWidthPixels newHeightPixels) →
    PartialRun.run step s (events.take n) = some t →
    t.allocScreenArray newWidthPixels newHeightPixels = some t' →
    (t'.width : Int) = newWidth newWidthPixels ∧
      (t'.height : Int) = newHeight newHeightPixels ∧ KeepsCells t t'

/-- **When the screen array is not overrun.**  A run stays inside exactly when the cursor stands
in a row of the array at every command that clears, and never reaches the last column of an
`int`; its shape and the resizes are right in any run. -/
theorem neverOverrun_iff {newWidthPixels newHeightPixels : Int}
    (hfirst : first newWidthPixels newHeightPixels s) {events : List Event}
    (hfits : ∀ e ∈ events, Fits e) :
    NeverOverrun s events ↔ PartialRun.Guarded step Guard s events := by
  have hs : s.WellFormed := by
    obtain ⟨t, ht, hwf, -⟩ :=
      allocScreenArray_spec wellFormed_initial newWidthPixels newHeightPixels
    obtain rfl : t = s := Option.some.inj (ht.symm.trans hfirst)
    exact hwf
  have hinv : ∀ (s t : Screen) (e : Event), s.WellFormed → Fits e → s.step e = some t →
      t.WellFormed :=
    fun _ _ _ h _ hstep => step_wellFormed h hstep
  have hiff := PartialRun.run_isSome_iff hinv (fun _ _ h _ => step_isSome_iff h) hs hfits
  have hreached : ∀ n t, PartialRun.run step s (events.take n) = some t → t.WellFormed :=
    fun n t ht => PartialRun.run_invariant hinv hs
      (fun e he => hfits e (List.mem_of_mem_take he)) ht
  constructor
  · intro h
    exact hiff.mp h.inBounds
  · intro h
    refine ⟨hiff.mpr h, fun n t ht => ?_, fun n w hgt t t' he ht ht' => ?_⟩
    · have hwf := hreached n t ht
      exact ⟨hwf.lines, fun l hl => ⟨hwf.chars l hl, hwf.lengths l hl⟩⟩
    · obtain ⟨u, hu, -, hwidth, hheight, hkeeps⟩ := allocScreenArray_spec (hreached n t ht) w hgt
      obtain rfl : u = t' := Option.some.inj (hu.symm.trans ht')
      have hfit : 1 ≤ newWidth w ∧ 1 ≤ newHeight hgt := hfits _ (List.mem_of_getElem? he)
      exact ⟨by omega, by omega, hkeeps⟩

/-- Two rows of ten columns, blank. -/
def small : Screen :=
  { initial with
    screenArray := List.replicate 2 ⟨0, List.replicate 10 blank⟩
    width := 10
    height := 2 }

theorem first_small : first 86 76 small := by unfold first; decide

theorem neverOverrun_iff_small :
    NeverOverrun small [.output 0x00000041, .resize 94 88, .output 0x02000000, .hideCursor] ↔
      PartialRun.Guarded step Guard small
        [.output 0x00000041, .resize 94 88, .output 0x02000000, .hideCursor] :=
  neverOverrun_iff first_small (by decide)

/-- The cursor is put into row 2 of two, and the rest of its line is cleared. -/
theorem not_neverOverrun_small :
    ¬ NeverOverrun small [.output 0x01002000, .output 0x02000000] := by
  intro h
  exact absurd h.inBounds (by decide)

end Screen

end ColdLoad
