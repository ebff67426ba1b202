import OsxVlm.Library.PartialRun

/-!
# The screen of the cold load

Lisp sends output commands, X sends events, and both work on `screen_array`: a line has
`width` characters, of which the first `length` are shown.  Every access to the array is
checked here: there is no result where the code would leave it.  What is drawn on the
window, and pixels, are left out.
-/

namespace ColdLoad

/-! ### Commands -/

inductive Operator where
  | drawChar
  | setCursorpos
  | clearRestOfLine
  | clearRestOfWindow
  | lozengedChar
  | beep
  | select
  | deselect
  | other
  deriving DecidableEq, Repr

abbrev Command := BitVec 32

def operator (command : Command) : Operator :=
  match ((command >>> 24) &&& 0xff).toNat with
  | 0 => .drawChar
  | 1 => .setCursorpos
  | 2 => .clearRestOfLine
  | 3 => .clearRestOfWindow
  | 5 => .lozengedChar
  | 10 => .beep
  | 11 => .select
  | 12 => .deselect
  | _ => .other

def commandChar (command : Command) : BitVec 8 := (command &&& 0xff).setWidth 8
def commandX (command : Command) : Nat := (command &&& 0xfff).toNat
def commandY (command : Command) : Nat := ((command >>> 12) &&& 0xfff).toNat

/-- What a command does to the position of the cursor. -/
def moveCursor (position : Nat × Nat) (command : Command) : Nat × Nat :=
  match operator command with
  | .drawChar | .lozengedChar => (position.1 + 1, position.2)
  | .setCursorpos => (commandX command, commandY command)
  | _ => position

/-! ### Lines -/

abbrev blank : BitVec 8 := 32

structure Line where
  length : Nat
  chars : List (BitVec 8)
  deriving DecidableEq, Repr

namespace Line

def setChar (l : Line) (x : Nat) (c : BitVec 8) : Option Line :=
  if x < l.chars.length then some { l with chars := l.chars.set x c } else none

/-- The loop that fills the gap up to the cursor. -/
def fill (l : Line) (x : Nat) : Option Line :=
  (List.range' l.length (x - l.length)).foldlM (fun l x => l.setChar x blank) l

/-- `clsoDrawChar` on the line of the cursor. -/
def drawChar (l : Line) (x : Nat) (c : BitVec 8) : Option Line :=
  if l.length ≤ x then do
    let l' ← l.fill x
    { l' with length := x + 1 }.setChar x c
  else l.setChar x c

/-- `clsoClearRestOfLine`. -/
def clearRest (l : Line) (x : Nat) : Line := if x < l.length then { l with length := x } else l

/-- What is shown at a place of the line. -/
def cell (l : Line) (x : Nat) : BitVec 8 := if x < l.length then l.chars.getD x blank else blank

/-- `memcpy` of the characters of an old line to the start of a new one. -/
def copyFrom (old : Line) (newWidth : Nat) : Option Line :=
  let length := if old.length < newWidth then old.length else newWidth
  if length ≤ old.chars.length then
    some ⟨length, old.chars.take length ++ List.replicate (newWidth - length) blank⟩
  else none

end Line

/-! ### The screen -/

structure Screen where
  screenArray : List Line
  width : Nat
  height : Nat
  currentX : Nat
  currentY : Nat
  cursorVisible : Bool
  cursorFrozen : Bool
  cursorState : Int
  visibility : Bool
  deriving DecidableEq, Repr

/-- One more, as an `int`. -/
def intSucc (n : Nat) : Option Nat := if n + 1 < 2 ^ 31 then some (n + 1) else none

namespace Screen

/-- An access to line `y` that replaces it. -/
def modifyLine (s : Screen) (y : Nat) (f : Line → Option Line) : Option Screen := do
  let l ← s.screenArray[y]?
  let l' ← f l
  some { s with screenArray := s.screenArray.set y l' }

/-- `redisplay_line`: the characters that it reads. -/
def redisplayLine (s : Screen) (y x xlim : Nat) : Option (List (BitVec 8)) := do
  let l ← s.screenArray[y]?
  (List.range' x (xlim - x)).mapM fun cx => l.chars[cx]?

def redisplayScreenArray (s : Screen) (minx miny maxx maxy : Nat) :
    Option (List (List (BitVec 8))) :=
  let thisMaxy := if s.height < maxy then s.height else maxy
  (List.range' miny (thisMaxy - miny)).mapM fun y => do
    let l ← s.screenArray[y]?
    let thisMaxx := if l.length < maxx then l.length else maxx
    if minx < thisMaxx then s.redisplayLine y minx thisMaxx else some []

def hideCursor (s : Screen) : Option Screen :=
  if s.cursorVisible then do
    let maxx ← intSucc s.currentX
    let maxy ← intSucc s.currentY
    let _ ← s.redisplayScreenArray s.currentX s.currentY maxx maxy
    some { s with cursorVisible := false }
  else some s

/-- `show_cursor_internal`; `fepCursor` is the state of the cursor that Lisp has set. -/
def showCursorInternal (s : Screen) (newState fepCursor : Int) : Option Screen :=
  if s.visibility && !s.cursorFrozen then
    (if s.cursorVisible && s.cursorState != newState then s.hideCursor else some s).map fun s' =>
      if !s'.cursorVisible then { s' with cursorState := fepCursor, cursorVisible := true } else s'
  else some s

def clearLine (s : Screen) (y : Nat) : Option Screen :=
  s.modifyLine y fun l => some { l with length := 0 }

/-- `clsoDrawChar`, where the cursor is on the screen. -/
def drawAtCursor (s : Screen) (command : Command) : Option Screen :=
  if s.currentY < s.height ∧ s.currentX < s.width then do
    let s' ← s.modifyLine s.currentY fun l => l.drawChar s.currentX (commandChar command)
    let _ ← s'.redisplayLine s.currentY s.currentX (s.currentX + 1)
    some s'
  else some s

/-- `handle_output_command`, but for the history. -/
def handleOutputCommand (s : Screen) (command : Command) : Option Screen :=
  match operator command with
  | .drawChar | .lozengedChar => do
      let s' ← s.drawAtCursor command
      let currentX ← intSucc s.currentX
      some { s' with currentX := currentX }
  | .setCursorpos =>
      some { s with currentX := commandX command, currentY := commandY command }
  | .clearRestOfWindow => do
      let s' ← (List.range' (s.currentY + 1) (s.height - (s.currentY + 1))).foldlM clearLine s
      s'.modifyLine s.currentY fun l => some (l.clearRest s.currentX)
  | .clearRestOfLine => s.modifyLine s.currentY fun l => some (l.clearRest s.currentX)
  | .select => (List.range' 0 s.height).foldlM clearLine s
  | .beep | .deselect | .other => some s

/-! ### Allocation -/

def newWidth (newWidthPixels : Int) : Int := (newWidthPixels - (3 + 3)).tdiv 8
def newHeight (newHeightPixels : Int) : Int := (newHeightPixels - (32 + 12 + 3 + 5)).tdiv 12

/-- Line `y` of the new array. -/
def newLine (s : Screen) (newWidth y : Nat) : Option Line :=
  if y < s.height then do
    let old ← s.screenArray[y]?
    old.copyFrom newWidth
  else some ⟨0, List.replicate newWidth blank⟩

/-- `alloc_screen_array`, for sizes that are not negative. -/
def allocScreenArray (s : Screen) (newWidthPixels newHeightPixels : Int) : Option Screen :=
  let newWidth := (newWidth newWidthPixels).toNat
  let newHeight := (newHeight newHeightPixels).toNat
  if newWidth = s.width ∧ newHeight = s.height then some s
  else do
    let screenArray ← (List.range newHeight).mapM (s.newLine newWidth)
    some { s with screenArray := screenArray, width := newWidth, height := newHeight }

/-- Before the first allocation. -/
def initial : Screen := ⟨[], 0, 0, 0, 0, false, false, 0, false⟩

/-- What is shown in a cell. -/
def cell (s : Screen) (y x : Nat) : BitVec 8 :=
  match s.screenArray[y]? with
  | some l => l.cell x
  | none => blank

/-- The array has `height` lines of `width` characters, of which at most these are shown;
the row of the cursor has 12 bits. -/
structure WellFormed (s : Screen) : Prop where
  lines : s.screenArray.length = s.height
  chars : ∀ l ∈ s.screenArray, l.chars.length = s.width
  lengths : ∀ l ∈ s.screenArray, l.length ≤ s.width
  row : s.currentY < 4096

end Screen

/-! ### What the commands do to a line -/

namespace Line

variable {l : Line} {x : Nat} {c : BitVec 8}

theorem setChar_of_lt (h : x < l.chars.length) :
    l.setChar x c = some { l with chars := l.chars.set x c } := if_pos h

theorem fill_loop (n : Nat) (l : Line) {a : Nat} (h : a + n ≤ l.chars.length) :
    ∃ chars, (List.range' a n).foldlM (fun l x => l.setChar x blank) l = some ⟨l.length, chars⟩ ∧
      chars.length = l.chars.length ∧
      ∀ i, chars.getD i blank = if a ≤ i ∧ i < a + n then blank else l.chars.getD i blank := by
  induction n generalizing l a with
  | zero =>
      refine ⟨l.chars, rfl, rfl, fun i => ?_⟩
      rw [if_neg (by omega)]
  | succ n ih =>
      obtain ⟨chars, hfold, hlen, hget⟩ :=
        ih { l with chars := l.chars.set a blank } (a := a + 1)
          (by simp only [List.length_set]; omega)
      refine ⟨chars, ?_, by rw [hlen, List.length_set], fun i => ?_⟩
      · rw [List.range'_succ, List.foldlM_cons, setChar_of_lt (by omega)]
        exact hfold
      · rw [hget i]
        by_cases hi : a + 1 ≤ i ∧ i < a + 1 + n
        · rw [if_pos hi, if_pos (by omega)]
        · rw [if_neg hi]
          by_cases ha : i = a
          · subst ha
            rw [if_pos (by omega), List.getD_eq_getElem?_getD, List.getElem?_set_self (by omega)]
            rfl
          · rw [if_neg (by omega), List.getD_eq_getElem?_getD, List.getElem?_set_ne (by omega),
              ← List.getD_eq_getElem?_getD]

/-- Drawing shows one character more, and blanks up to it. -/
theorem drawChar_spec (hx : x < l.chars.length) :
    ∃ l', l.drawChar x c = some l' ∧ l'.chars.length = l.chars.length ∧
      l'.length = max l.length (x + 1) ∧
      ∀ i, l'.cell i = if i = x then c else l.cell i := by
  have hset : ∀ chars : List (BitVec 8), x < chars.length → ∀ i,
      (chars.set x c).getD i blank = if i = x then c else chars.getD i blank := by
    intro chars hlt i
    by_cases hi : i = x
    · subst hi
      rw [if_pos rfl, List.getD_eq_getElem?_getD, List.getElem?_set_self hlt]
      rfl
    · rw [if_neg hi, List.getD_eq_getElem?_getD, List.getElem?_set_ne (Ne.symm hi),
        ← List.getD_eq_getElem?_getD]
  unfold drawChar
  by_cases hlen : l.length ≤ x
  · obtain ⟨chars, hfill, hchars, hget⟩ := fill_loop (x - l.length) l (a := l.length) (by omega)
    have hfill' : l.fill x = some ⟨l.length, chars⟩ := hfill
    rw [if_pos hlen, hfill', Option.bind_eq_bind, Option.bind_some, setChar_of_lt (by simpa [hchars])]
    refine ⟨_, rfl, by simp [hchars], by simp only; omega, fun i => ?_⟩
    simp only [cell, hset chars (by omega) i, hget]
    by_cases hi : i = x
    · simp [hi]
    · by_cases hin : i < x + 1
      · rw [if_pos hin, if_neg hi, if_neg hi]
        by_cases hl : i < l.length
        · rw [if_neg (by omega), if_pos hl]
        · rw [if_pos (by omega), if_neg hl]
      · rw [if_neg hin, if_neg hi, if_neg (by omega)]
  · rw [if_neg hlen, setChar_of_lt hx]
    refine ⟨_, rfl, by simp, by simp only; omega, fun i => ?_⟩
    simp only [cell, hset l.chars hx i]
    by_cases hi : i = x
    · rw [if_pos hi, if_pos hi, if_pos (by omega)]
    · rw [if_neg hi, if_neg hi]

@[simp] theorem clearRest_chars : (l.clearRest x).chars = l.chars := by
  unfold clearRest
  split <;> rfl

theorem clearRest_length_le : (l.clearRest x).length ≤ l.length := by
  unfold clearRest
  split
  · simp only
    omega
  · exact le_refl _

theorem clearRest_cell (i : Nat) :
    (l.clearRest x).cell i = if x ≤ i then blank else l.cell i := by
  unfold clearRest cell
  split
  · simp only
    by_cases hi : x ≤ i
    · rw [if_neg (by omega), if_pos hi]
    · rw [if_pos (by omega), if_neg hi, if_pos (by omega)]
  · by_cases hi : x ≤ i
    · rw [if_neg (by omega), if_pos hi]
    · rw [if_neg hi]

/-- A resized line shows what fits of the old one. -/
theorem copyFrom_spec {old : Line} (newWidth : Nat) (hold : old.length ≤ old.chars.length) :
    ∃ l', old.copyFrom newWidth = some l' ∧ l'.chars.length = newWidth ∧
      l'.length = min old.length newWidth ∧ ∀ i < newWidth, l'.cell i = old.cell i := by
  have hmin : (if old.length < newWidth then old.length else newWidth) =
      min old.length newWidth := by
    split <;> omega
  unfold copyFrom
  simp only [hmin]
  rw [if_pos (by omega)]
  refine ⟨_, rfl, ?_, rfl, fun i hi => ?_⟩
  · simp only [List.length_append, List.length_take, List.length_replicate]
    omega
  · unfold cell
    simp only
    by_cases hlen : i < old.length
    · rw [if_pos (by omega), if_pos hlen, List.getD_append _ _ _ _ (by rw [List.length_take]; omega),
        List.getD_eq_getElem?_getD, List.getElem?_take_of_lt (by omega),
        ← List.getD_eq_getElem?_getD]
    · rw [if_neg (by omega), if_neg hlen]

end Line

/-! ### What the commands do to the screen -/

namespace Screen

variable {s : Screen} {y x : Nat}

theorem WellFormed.line (h : s.WellFormed) (hy : y < s.height) :
    ∃ l, s.screenArray[y]? = some l ∧ l.chars.length = s.width ∧ l.length ≤ s.width := by
  have hlt : y < s.screenArray.length := by rw [h.lines]; exact hy
  have hmem := List.getElem_mem hlt
  exact ⟨s.screenArray[y], List.getElem?_eq_getElem hlt, h.chars _ hmem, h.lengths _ hmem⟩

theorem WellFormed.no_line (h : s.WellFormed) (hy : ¬ y < s.height) :
    s.screenArray[y]? = none := List.getElem?_eq_none (by rw [h.lines]; omega)

/-- `s'` is `s` with another array, of the same size, that shows `cells`. -/
structure Redrawn (s s' : Screen) (cells : Nat → Nat → BitVec 8) : Prop where
  same : s' = { s with screenArray := s'.screenArray }
  wellFormed : s'.WellFormed
  cells : ∀ y x, s'.cell y x = cells y x

theorem Redrawn.congr {s' : Screen} {cells cells' : Nat → Nat → BitVec 8} (h : Redrawn s s' cells)
    (hcells : ∀ y x, cells y x = cells' y x) : Redrawn s s' cells' :=
  ⟨h.same, h.wellFormed, fun y x => (h.cells y x).trans (hcells y x)⟩

theorem modifyLine_spec (h : s.WellFormed) (hy : y < s.height) {f : Line → Option Line}
    {g : Nat → BitVec 8}
    (hf : ∀ l, l.chars.length = s.width → l.length ≤ s.width → (∀ x, l.cell x = s.cell y x) →
      ∃ l', f l = some l' ∧ l'.chars.length = s.width ∧ l'.length ≤ s.width ∧
        ∀ x, l'.cell x = g x) :
    ∃ s', s.modifyLine y f = some s' ∧
      Redrawn s s' fun y' x => if y' = y then g x else s.cell y' x := by
  obtain ⟨l, hl, hchars, hlen⟩ := h.line hy
  obtain ⟨l', hfl, hchars', hlen', hcells⟩ := hf l hchars hlen fun x => by rw [cell, hl]
  have hlt : y < s.screenArray.length := by rw [h.lines]; exact hy
  have hmem : ∀ k ∈ s.screenArray.set y l', k ∈ s.screenArray ∨ k = l' := fun k hk =>
    List.mem_or_eq_of_mem_set hk
  refine ⟨{ s with screenArray := s.screenArray.set y l' }, by simp [modifyLine, hl, hfl], rfl,
    ⟨by simp [h.lines], fun k hk => ?_, fun k hk => ?_, h.row⟩, fun y' x => ?_⟩
  · obtain hold | rfl := hmem k hk
    · exact h.chars k hold
    · exact hchars'
  · obtain hold | rfl := hmem k hk
    · exact h.lengths k hold
    · exact hlen'
  · unfold cell
    by_cases hy' : y' = y
    · subst hy'
      simp [List.getElem?_set_self hlt, hcells]
    · simp [List.getElem?_set_ne (Ne.symm hy'), hy']

theorem modifyLine_none (h : s.WellFormed) (hy : ¬ y < s.height) (f : Line → Option Line) :
    s.modifyLine y f = none := by
  simp [modifyLine, h.no_line hy]

theorem clearLine_spec (h : s.WellFormed) (hy : y < s.height) :
    ∃ s', s.clearLine y = some s' ∧
      Redrawn s s' fun y' x => if y' = y then blank else s.cell y' x :=
  modifyLine_spec h hy fun l hchars _ _ =>
    ⟨_, rfl, hchars, Nat.zero_le _, fun x => by simp [Line.cell]⟩

/-- Lines cleared one after the other. -/
theorem clearLines_spec (n : Nat) {s : Screen} {a : Nat} (h : s.WellFormed)
    (hend : a + n ≤ s.height) :
    ∃ s', (List.range' a n).foldlM clearLine s = some s' ∧
      Redrawn s s' fun y x => if a ≤ y ∧ y < a + n then blank else s.cell y x := by
  induction n generalizing s a with
  | zero =>
      refine ⟨s, rfl, rfl, h, fun y x => ?_⟩
      rw [if_neg (by omega)]
  | succ n ih =>
      obtain ⟨t, ht, hredrawn⟩ := clearLine_spec h (show a < s.height by omega)
      have hheight : t.height = s.height := by rw [hredrawn.same]
      obtain ⟨u, hu, hrest⟩ := ih hredrawn.wellFormed (a := a + 1) (by omega)
      refine ⟨u, ?_, ?_, hrest.wellFormed, fun y x => ?_⟩
      · rw [List.range'_succ, List.foldlM_cons, ht]
        exact hu
      · rw [hrest.same, hredrawn.same]
      · rw [hrest.cells, hredrawn.cells]
        by_cases hy : y = a
        · rw [if_neg (by omega), if_pos hy, if_pos (by omega)]
        · rw [if_neg hy]
          exact if_congr (by omega) rfl rfl

/-- Reading within a line. -/
theorem redisplayLine_spec (h : s.WellFormed) (hy : y < s.height) {n : Nat}
    (hx : n ≤ s.width) (x : Nat) : ∃ cs, s.redisplayLine y x n = some cs := by
  obtain ⟨l, hl, hchars, -⟩ := h.line hy
  rw [redisplayLine, hl, Option.bind_eq_bind, Option.bind_some]
  obtain ⟨cs, hcs, -⟩ := PartialRun.mapM_forall₂ (f := fun cx => l.chars[cx]?)
    (P := fun _ _ => True) (List.range' x (n - x)) fun cx hcx => by
      have := List.mem_range'_1.mp hcx
      exact ⟨_, List.getElem?_eq_getElem (by omega), trivial⟩
  exact ⟨cs, hcs⟩

/-- Redisplaying keeps to the array, wherever the rectangle lies. -/
theorem redisplayScreenArray_spec (h : s.WellFormed) (minx miny maxx maxy : Nat) :
    ∃ css, s.redisplayScreenArray minx miny maxx maxy = some css := by
  unfold redisplayScreenArray
  have hmaxy : (if s.height < maxy then s.height else maxy) = min s.height maxy := by
    split <;> omega
  simp only [hmaxy]
  obtain ⟨css, hcss, -⟩ := PartialRun.mapM_forall₂ (P := fun _ _ => True)
    (f := fun y => do
      let l ← s.screenArray[y]?
      let thisMaxx := if l.length < maxx then l.length else maxx
      if minx < thisMaxx then s.redisplayLine y minx thisMaxx else some [])
    (List.range' miny (min s.height maxy - miny)) fun y hy => by
      have hrow := List.mem_range'_1.mp hy
      obtain ⟨l, hl, -, hlen⟩ := h.line (show y < s.height by omega)
      have hmaxx : (if l.length < maxx then l.length else maxx) = min l.length maxx := by
        split <;> omega
      simp only [hl, Option.bind_eq_bind, Option.bind_some, hmaxx]
      obtain ⟨cs, hcs⟩ := redisplayLine_spec h (show y < s.height by omega)
        (show min l.length maxx ≤ s.width by omega) minx
      split
      · exact ⟨cs, hcs, trivial⟩
      · exact ⟨[], rfl, trivial⟩
  exact ⟨css, hcss⟩

/-- Hiding the cursor computes the place behind it. -/
theorem hideCursor_eq (h : s.WellFormed) :
    s.hideCursor = if s.cursorVisible = true ∧ ¬ s.currentX + 1 < 2 ^ 31 then none
      else some { s with cursorVisible := false } := by
  unfold hideCursor
  by_cases hvis : s.cursorVisible = true
  · rw [if_pos hvis]
    by_cases hx : s.currentX + 1 < 2 ^ 31
    · have hy : s.currentY + 1 < 2 ^ 31 := by have := h.row; omega
      obtain ⟨css, hcss⟩ := redisplayScreenArray_spec h s.currentX s.currentY (s.currentX + 1)
        (s.currentY + 1)
      rw [if_neg (fun hc => hc.2 hx), intSucc, if_pos hx, intSucc, if_pos hy]
      simp [hcss]
    · rw [if_pos ⟨hvis, hx⟩, intSucc, if_neg hx]
      rfl
  · rw [if_neg hvis, if_neg (by simp [hvis])]
    have hfalse : s.cursorVisible = false := by simpa using hvis
    rw [← hfalse]

/-- What a command asks of the cursor. -/
def OutputGuard (s : Screen) (command : Command) : Prop :=
  match operator command with
  | .drawChar | .lozengedChar => s.currentX + 1 < 2 ^ 31
  | .clearRestOfLine | .clearRestOfWindow => s.currentY < s.height
  | _ => True

instance (s : Screen) (command : Command) : Decidable (s.OutputGuard command) := by
  unfold OutputGuard
  split <;> infer_instance

/-- Where a command leaves the cursor. -/
def cursorAfter (s : Screen) (command : Command) : Nat × Nat :=
  moveCursor (s.currentX, s.currentY) command

/-- What a command shows in a cell. -/
def cellsAfter (s : Screen) (command : Command) (y x : Nat) : BitVec 8 :=
  match operator command with
  | .drawChar | .lozengedChar =>
      if (y = s.currentY ∧ x = s.currentX) ∧ y < s.height ∧ x < s.width then commandChar command
      else s.cell y x
  | .clearRestOfLine => if y = s.currentY ∧ s.currentX ≤ x then blank else s.cell y x
  | .clearRestOfWindow =>
      if s.currentY < y ∨ y = s.currentY ∧ s.currentX ≤ x then blank else s.cell y x
  | .select => blank
  | _ => s.cell y x

/-- What a command leaves. -/
structure After (s : Screen) (command : Command) (s' : Screen) : Prop where
  wellFormed : s'.WellFormed
  size : s'.width = s.width ∧ s'.height = s.height
  cursor : (s'.currentX, s'.currentY) = s.cursorAfter command
  cells : ∀ y x, s'.cell y x = s.cellsAfter command y x

theorem cell_of_height_le (h : s.WellFormed) (hy : ¬ y < s.height) : s.cell y x = blank := by
  rw [cell, h.no_line hy]

/-- A cell outside of the screen shows nothing. -/
theorem cell_outside (h : s.WellFormed) (hout : ¬ (y < s.height ∧ x < s.width)) :
    s.cell y x = blank := by
  by_cases hy : y < s.height
  · obtain ⟨l, hl, -, hlen⟩ := h.line hy
    rw [cell, hl]
    exact if_neg (by omega)
  · exact cell_of_height_le h hy

section Handle

variable {command : Command}

/-- A screen redrawn under the same cursor. -/
theorem After.of_redrawn {s' : Screen} {cells : Nat → Nat → BitVec 8} (h : Redrawn s s' cells)
    (hcursor : s.cursorAfter command = (s.currentX, s.currentY))
    (hcells : ∀ y x, cells y x = s.cellsAfter command y x) : s.After command s' := by
  refine ⟨h.wellFormed, ?_, ?_, fun y x => (h.cells y x).trans (hcells y x)⟩
  · rw [h.same]
    exact ⟨rfl, rfl⟩
  · rw [hcursor, h.same]

theorem handle_draw (h : s.WellFormed)
    (hop : operator command = .drawChar ∨ operator command = .lozengedChar)
    (hguard : s.currentX + 1 < 2 ^ 31) :
    ∃ s', s.handleOutputCommand command = some s' ∧ s.After command s' := by
  have hhandle : s.handleOutputCommand command =
      (s.drawAtCursor command).bind fun s' => some { s' with currentX := s.currentX + 1 } := by
    have hsucc : intSucc s.currentX = some (s.currentX + 1) := if_pos hguard
    unfold handleOutputCommand
    obtain hop | hop := hop <;> simp only [hop, hsucc, Option.bind_eq_bind, Option.bind_some]
  have hcursor : s.cursorAfter command = (s.currentX + 1, s.currentY) := by
    unfold cursorAfter moveCursor
    obtain hop | hop := hop <;> rw [hop]
  have hcells : ∀ y x, s.cellsAfter command y x =
      if (y = s.currentY ∧ x = s.currentX) ∧ y < s.height ∧ x < s.width then commandChar command
      else s.cell y x := by
    intro y x
    unfold cellsAfter
    obtain hop | hop := hop <;> rw [hop]
  rw [hhandle]
  by_cases hin : s.currentY < s.height ∧ s.currentX < s.width
  · obtain ⟨t, ht, hredrawn⟩ := modifyLine_spec h hin.1
      (f := fun l => l.drawChar s.currentX (commandChar command))
      (g := fun x => if x = s.currentX then commandChar command else s.cell s.currentY x)
      fun l hchars hlen hl => by
        obtain ⟨l', hdraw, hchars', hlen', hcell⟩ :=
          Line.drawChar_spec (l := l) (c := commandChar command) (hchars ▸ hin.2)
        refine ⟨l', hdraw, hchars'.trans hchars, by omega, fun x => ?_⟩
        rw [hcell, hl]
    have hsize : t.width = s.width ∧ t.height = s.height ∧ t.currentY = s.currentY := by
      rw [hredrawn.same]
      exact ⟨rfl, rfl, rfl⟩
    obtain ⟨cs, hcs⟩ := redisplayLine_spec hredrawn.wellFormed (y := s.currentY)
      (n := s.currentX + 1) (by omega) (by omega) s.currentX
    refine ⟨{ t with currentX := s.currentX + 1 }, by simp [drawAtCursor, if_pos hin, ht, hcs], ?_⟩
    refine ⟨⟨hredrawn.wellFormed.lines, hredrawn.wellFormed.chars, hredrawn.wellFormed.lengths,
      hredrawn.wellFormed.row⟩, ⟨hsize.1, hsize.2.1⟩, by rw [hcursor, hsize.2.2], fun y x => ?_⟩
    rw [hcells]
    refine (hredrawn.cells y x).trans ?_
    by_cases hy : y = s.currentY
    · subst hy
      by_cases hx : x = s.currentX
      · subst hx
        simp [hin]
      · simp [hx]
    · simp [hy]
  · refine ⟨{ s with currentX := s.currentX + 1 }, by simp [drawAtCursor, if_neg hin], ?_⟩
    refine ⟨⟨h.lines, h.chars, h.lengths, h.row⟩, ⟨rfl, rfl⟩, hcursor.symm, fun y x => ?_⟩
    rw [hcells, if_neg]
    · rfl
    · intro hc
      obtain ⟨⟨rfl, rfl⟩, hboth⟩ := hc
      exact hin hboth

theorem handle_clearRestOfLine (h : s.WellFormed) (hop : operator command = .clearRestOfLine)
    (hguard : s.currentY < s.height) :
    ∃ s', s.handleOutputCommand command = some s' ∧ s.After command s' := by
  obtain ⟨t, ht, hredrawn⟩ := modifyLine_spec h hguard
    (f := fun l => some (l.clearRest s.currentX))
    (g := fun x => if s.currentX ≤ x then blank else s.cell s.currentY x)
    fun l hchars hlen hl => ⟨_, rfl, by simp [hchars], Line.clearRest_length_le.trans hlen,
      fun x => by rw [Line.clearRest_cell, hl]⟩
  refine ⟨t, by simp [handleOutputCommand, hop, ht],
    .of_redrawn hredrawn (by simp [cursorAfter, moveCursor, hop]) fun y x => ?_⟩
  by_cases hy : y = s.currentY
  · simp [cellsAfter, hop, hy]
  · simp [cellsAfter, hop, hy]

theorem handle_clearRestOfWindow (h : s.WellFormed) (hop : operator command = .clearRestOfWindow)
    (hguard : s.currentY < s.height) :
    ∃ s', s.handleOutputCommand command = some s' ∧ s.After command s' := by
  obtain ⟨t, ht, hclear⟩ := clearLines_spec (s.height - (s.currentY + 1)) h
    (a := s.currentY + 1) (by omega)
  have hheight : t.height = s.height := by rw [hclear.same]
  obtain ⟨u, hu, hredrawn⟩ := modifyLine_spec hclear.wellFormed (y := s.currentY) (by omega)
    (f := fun l => some (l.clearRest s.currentX))
    (g := fun x => if s.currentX ≤ x then blank else t.cell s.currentY x)
    fun l hchars hlen hl => ⟨_, rfl, by simp [hchars], Line.clearRest_length_le.trans hlen,
      fun x => by rw [Line.clearRest_cell, hl]⟩
  have hsame : Redrawn s u fun y' x =>
      if y' = s.currentY then if s.currentX ≤ x then blank else t.cell s.currentY x
      else t.cell y' x := by
    refine ⟨?_, hredrawn.wellFormed, hredrawn.cells⟩
    rw [hredrawn.same, hclear.same]
  refine ⟨u, by simp [handleOutputCommand, hop, ht, hu],
    .of_redrawn hsame (by simp [cursorAfter, moveCursor, hop]) fun y x => ?_⟩
  simp only [cellsAfter, hop, hclear.cells]
  by_cases hy : y = s.currentY
  · subst hy
    simp
  · rw [if_neg hy]
    by_cases hbelow : s.currentY < y
    · have hcleared : s.currentY < y ∨ y = s.currentY ∧ s.currentX ≤ x := .inl hbelow
      rw [if_pos hcleared]
      by_cases hin : y < s.height
      · rw [if_pos (by omega)]
      · rw [if_neg (by omega), cell_of_height_le h hin]
    · rw [if_neg (by omega), if_neg (by simp [hbelow, hy])]

theorem handle_select (h : s.WellFormed) (hop : operator command = .select) :
    ∃ s', s.handleOutputCommand command = some s' ∧ s.After command s' := by
  obtain ⟨t, ht, hclear⟩ := clearLines_spec s.height h (a := 0) (by omega)
  refine ⟨t, by simp [handleOutputCommand, hop, ht],
    .of_redrawn hclear (by simp [cursorAfter, moveCursor, hop]) fun y x => ?_⟩
  simp only [cellsAfter, hop]
  by_cases hy : y < s.height
  · rw [if_pos (by omega)]
  · rw [if_neg (by omega), cell_of_height_le h hy]

/-- **What a command does**, when its guard is met. -/
theorem handleOutputCommand_spec (h : s.WellFormed) (hguard : s.OutputGuard command) :
    ∃ s', s.handleOutputCommand command = some s' ∧ s.After command s' := by
  unfold OutputGuard at hguard
  cases hop : operator command with
  | drawChar => exact handle_draw h (.inl hop) (by simpa [hop] using hguard)
  | lozengedChar => exact handle_draw h (.inr hop) (by simpa [hop] using hguard)
  | clearRestOfLine => exact handle_clearRestOfLine h hop (by simpa [hop] using hguard)
  | clearRestOfWindow => exact handle_clearRestOfWindow h hop (by simpa [hop] using hguard)
  | select => exact handle_select h hop
  | setCursorpos =>
      refine ⟨{ s with currentX := commandX command, currentY := commandY command },
        by rw [handleOutputCommand, hop], ?_, ⟨rfl, rfl⟩, by rw [cursorAfter, moveCursor, hop],
        fun y x => by rw [cellsAfter, hop]; rfl⟩
      refine ⟨h.lines, h.chars, h.lengths, ?_⟩
      show commandY command < 4096
      unfold commandY
      rw [BitVec.toNat_and]
      exact Nat.and_lt_two_pow (n := 12) _ (by decide)
  | beep | deselect | other =>
      exact ⟨s, by rw [handleOutputCommand, hop], h, ⟨rfl, rfl⟩, by rw [cursorAfter, moveCursor, hop],
        fun y x => by simp only [cellsAfter, hop]⟩

/-- Without its guard a command leaves the array, or the range of an `int`. -/
theorem handleOutputCommand_none (h : s.WellFormed) (hguard : ¬ s.OutputGuard command) :
    s.handleOutputCommand command = none := by
  unfold OutputGuard at hguard
  cases hop : operator command with
  | drawChar | lozengedChar =>
      rw [hop] at hguard
      have hsucc : intSucc s.currentX = none := if_neg hguard
      simp only [handleOutputCommand, hop, hsucc, Option.bind_eq_bind, Option.bind_none,
        Option.bind_fun_none]
  | clearRestOfLine =>
      rw [hop] at hguard
      simp only [handleOutputCommand, hop]
      exact modifyLine_none h hguard _
  | clearRestOfWindow =>
      rw [hop] at hguard
      have hnone : s.height - (s.currentY + 1) = 0 := by omega
      simp only [handleOutputCommand, hop, hnone, List.range'_zero, List.foldlM_nil]
      exact modifyLine_none h hguard _
  | setCursorpos | select | beep | deselect | other => simp [hop] at hguard

end Handle

/-! ### What an allocation does -/

/-- Every cell inside both sizes shows what it showed. -/
def KeepsCells (s s' : Screen) : Prop :=
  ∀ y x, y < s.height → x < s.width → y < s'.height → x < s'.width → s'.cell y x = s.cell y x

theorem newLine_spec (h : s.WellFormed) (newWidth y : Nat) :
    ∃ l, s.newLine newWidth y = some l ∧ l.chars.length = newWidth ∧ l.length ≤ newWidth ∧
      (y < s.height → ∀ x < newWidth, l.cell x = s.cell y x) := by
  unfold newLine
  by_cases hy : y < s.height
  · obtain ⟨old, hold, hchars, hlen⟩ := h.line hy
    obtain ⟨l, hl, hlchars, hllen, hcells⟩ := Line.copyFrom_spec newWidth
      (show old.length ≤ old.chars.length by omega)
    rw [if_pos hy, hold]
    exact ⟨l, hl, hlchars, by omega, fun _ x hx => by rw [hcells x hx, cell, hold]⟩
  · rw [if_neg hy]
    exact ⟨_, rfl, List.length_replicate, Nat.zero_le _, fun hlt => absurd hlt hy⟩

theorem allocScreenArray_spec (h : s.WellFormed) (newWidthPixels newHeightPixels : Int) :
    ∃ s', s.allocScreenArray newWidthPixels newHeightPixels = some s' ∧ s'.WellFormed ∧
      s'.width = (newWidth newWidthPixels).toNat ∧
      s'.height = (newHeight newHeightPixels).toNat ∧ KeepsCells s s' := by
  unfold allocScreenArray
  by_cases hsame : (newWidth newWidthPixels).toNat = s.width ∧
      (newHeight newHeightPixels).toNat = s.height
  · rw [if_pos hsame]
    exact ⟨s, rfl, h, hsame.1.symm, hsame.2.symm, fun _ _ _ _ _ _ => rfl⟩
  · obtain ⟨ls, hls, hall⟩ := PartialRun.mapM_forall₂
      (List.range (newHeight newHeightPixels).toNat)
      fun y _ => newLine_spec h (newWidth newWidthPixels).toNat y
    rw [if_neg hsame, hls]
    have hlen : ls.length = (newHeight newHeightPixels).toNat := by
      rw [← hall.length_eq, List.length_range]
    have hget : ∀ y l, ls[y]? = some l → l.chars.length = (newWidth newWidthPixels).toNat ∧
        l.length ≤ (newWidth newWidthPixels).toNat ∧
        (y < s.height → ∀ x < (newWidth newWidthPixels).toNat, l.cell x = s.cell y x) := by
      intro y l hl
      obtain ⟨hlt, rfl⟩ := List.getElem?_eq_some_iff.mp hl
      have := hall.get (i := y) (by rw [List.length_range]; omega) hlt
      simpa using this
    have hmem : ∀ l ∈ ls, ∃ y, ls[y]? = some l := fun l hl => by
      obtain ⟨y, hy, rfl⟩ := List.mem_iff_getElem.mp hl
      exact ⟨y, List.getElem?_eq_getElem hy⟩
    refine ⟨_, rfl, ⟨hlen, fun l hl => ?_, fun l hl => ?_, h.row⟩, rfl, rfl, ?_⟩
    · obtain ⟨y, hy⟩ := hmem l hl
      exact (hget y l hy).1
    · obtain ⟨y, hy⟩ := hmem l hl
      exact (hget y l hy).2.1
    · intro y x hy hx hy' hx'
      have hlt : y < ls.length := by rw [hlen]; exact hy'
      have hl := (hget y ls[y] (List.getElem?_eq_getElem hlt)).2.2 hy x hx'
      rw [← hl, cell]
      simp only [List.getElem?_eq_getElem hlt]

theorem wellFormed_initial : initial.WellFormed :=
  ⟨rfl, fun _ hl => absurd hl List.not_mem_nil, fun _ hl => absurd hl List.not_mem_nil, by decide⟩

end Screen

end ColdLoad
