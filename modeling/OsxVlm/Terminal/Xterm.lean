import Mathlib
import OsxVlm.Library.Execution
import OsxVlm.Terminal.Screen

/-!
# The terminal that `ansiSink` writes to

The sink turns operations into the output of an xterm whose autowrap is off:
there the cursor stays on the last column, and what comes next falls on it.  The
two renderers agree as long as nothing falls on the last column that the grid
drops.
-/

namespace Terminal

/-- What is written to the terminal: a character, `BEL`, `CR`, `LF`, or a control
sequence `ESC [`. -/
inductive Control where
  | print (c : Char)
  | bel
  | cr
  | lf
  /-- `ESC [ row ; col H`. -/
  | cup (row col : Nat)
  /-- `ESC [ J`. -/
  | eraseBelow
  /-- `ESC [ 2 J`. -/
  | eraseAll
  /-- `ESC [ K`. -/
  | eraseRight
  /-- `ESC [ 2 K`. -/
  | eraseLine
  /-- `ESC [ n @`. -/
  | insertBlank (n : Nat)
  /-- `ESC [ n P`. -/
  | deleteChar (n : Nat)

def ansiSink : Op3600 → List Control
  | .char code => [.print (glyphFor code)]
  | .beep => [.bel]
  | .newline => [.cr, .lf, .eraseLine]
  | .clear => [.cup 1 1, .eraseAll]
  | .clearEow => [.eraseBelow]
  | .clearEol => [.eraseRight]
  | .insertChars n => if 0 < n then [.insertBlank n] else []
  | .deleteChars n => if 0 < n then [.deleteChar n] else []
  | .move x y => [.cup (y + 1) (x + 1)]
  | .unknown _ => []

/-- An xterm with autowrap off. -/
structure Xterm where
  cols : Nat
  rows : Nat
  cell : Nat → Nat → Char
  row : Nat
  col : Nat

namespace Xterm

/-- The cells of the cursor's row become those of `f`. -/
def editRow (x : Xterm) (f : Nat → Char) : Xterm :=
  { x with cell := fun r c => if r = x.row then f c else x.cell r c }

def control (x : Xterm) : Control → Xterm
  | .print g =>
      { x.editRow (fun c => if c = x.col then g else x.cell x.row c) with
        col := min (x.col + 1) (x.cols - 1) }
  | .bel => x
  | .cr => { x with col := 0 }
  | .lf =>
      if x.rows ≤ x.row + 1 then
        { x with cell := fun r c => if r + 1 < x.rows then x.cell (r + 1) c else ' ' }
      else { x with row := x.row + 1 }
  | .cup row col => { x with row := min (row - 1) (x.rows - 1), col := min (col - 1) (x.cols - 1) }
  | .eraseBelow =>
      { x with
        cell := fun r c =>
          if x.row < r ∨ r = x.row ∧ x.col ≤ c then ' ' else x.cell r c }
  | .eraseAll => { x with cell := fun _ _ => ' ' }
  | .eraseRight => x.editRow fun c => if x.col ≤ c then ' ' else x.cell x.row c
  | .eraseLine => x.editRow fun _ => ' '
  | .insertBlank n =>
      x.editRow fun c =>
        if c < x.col then x.cell x.row c
        else if c < x.col + n then ' '
        else x.cell x.row (c - n)
  | .deleteChar n =>
      x.editRow fun c =>
        if c < x.col then x.cell x.row c
        else if c + n < x.cols then x.cell x.row (c + n)
        else ' '

/-- The cursor is home on a blank screen. -/
def new (cols rows : Nat) : Xterm :=
  { cols := cols, rows := rows, cell := fun _ _ => ' ', row := 0, col := 0 }

/-- The terminal after an operation went through the sink. -/
def feed (x : Xterm) (op : Op3600) : Xterm := (ansiSink op).foldl control x

end Xterm

/-- Every cell shows the same character. -/
def ShowsSame (s : Screen) (x : Xterm) : Prop :=
  ∀ r < s.rows, ∀ c < s.cols, s.cell r c = x.cell r c

/-- The renderers agree, cursors included. -/
structure Agree (s : Screen) (x : Xterm) : Prop where
  wellFormed : s.WellFormed
  cols_eq : x.cols = s.cols
  rows_eq : x.rows = s.rows
  row_eq : x.row = s.cursorRow
  col_eq : x.col = min s.cursorCol (s.cols - 1)
  shows : ShowsSame s x

/-- With the cursor past the edge the operation leaves the last column as it is. -/
def Harmless (s : Screen) : Op3600 → Prop
  | .char code =>
      s.cursorCol = s.cols → glyphFor code = s.cell s.cursorRow (s.cols - 1)
  | .clearEow => s.cursorCol = s.cols → s.cell s.cursorRow (s.cols - 1) = ' '
  | .clearEol => s.cursorCol = s.cols → s.cell s.cursorRow (s.cols - 1) = ' '
  | .insertChars n => s.cursorCol = s.cols → 0 < n → s.cell s.cursorRow (s.cols - 1) = ' '
  | .deleteChars n => s.cursorCol = s.cols → 0 < n → s.cell s.cursorRow (s.cols - 1) = ' '
  | _ => True

section Cells

variable {s : Screen}

/-- The row of the cursor after an edit, and the other rows. -/
theorem cell_editRow (h : s.WellFormed) (f : List Char → List Char) (r c : Nat) :
    (s.editRow f).cell r c =
      if r = s.cursorRow then ((f (s.grid[r]?.getD []))[c]?).getD ' ' else s.cell r c := by
  unfold Screen.editRow Screen.cell
  dsimp only
  rw [List.getElem?_modify]
  by_cases hr : r = s.cursorRow
  · have hlt : r < s.grid.length := by
      rw [h.grid_length, hr]
      exact h.cursorRow_lt
    simp [hr, List.getElem?_eq_getElem (hr ▸ hlt)]
  · rw [if_neg hr]
    cases s.grid[r]? with
    | none => rfl
    | some row => simp [Ne.symm hr]

theorem row_length (h : s.WellFormed) {r : Nat} (hr : r < s.rows) :
    (s.grid[r]?.getD []).length = s.cols := by
  have hlt : r < s.grid.length := by
    rw [h.grid_length]
    exact hr
  rw [List.getElem?_eq_getElem hlt]
  exact h.row_length _ (List.getElem_mem hlt)

theorem blankFrom_get (k : Nat) (row : List Char) (c : Nat) :
    ((Screen.blankFrom k row)[c]?).getD ' ' = if k ≤ c then ' ' else (row[c]?).getD ' ' := by
  unfold Screen.blankFrom
  rw [List.getElem?_append, List.length_take, List.getElem?_replicate, List.getElem?_take]
  grind

theorem insertBlanks_get {cols k n : Nat} {row : List Char} (hrow : row.length = cols)
    (hk : k ≤ cols) {c : Nat} (hc : c < cols) :
    ((Screen.insertBlanks cols k n row)[c]?).getD ' ' =
      if c < k then (row[c]?).getD ' ' else if c < k + n then ' '
      else (row[c - n]?).getD ' ' := by
  unfold Screen.insertBlanks
  simp only [List.getElem?_take, List.getElem?_append, List.length_append, List.length_take,
    List.length_replicate, List.getElem?_replicate, List.getElem?_drop]
  grind

theorem deleteCells_get {cols k n : Nat} {row : List Char} (hrow : row.length = cols)
    (hk : k ≤ cols) {c : Nat} (hc : c < cols) :
    ((Screen.deleteCells cols k n row)[c]?).getD ' ' =
      if c < k then (row[c]?).getD ' ' else if c + n < cols then (row[c + n]?).getD ' '
      else ' ' := by
  unfold Screen.deleteCells
  simp only [List.getElem?_take, List.getElem?_append, List.length_append, List.length_take,
    List.length_drop, List.getElem?_replicate, List.getElem?_drop]
  grind

theorem cell_blankRow {n c : Nat} : ((blankRow n)[c]?).getD ' ' = ' ' := by
  unfold blankRow
  rw [List.getElem?_replicate]
  split <;> rfl

theorem cell_set (row : List Char) (k c : Nat) (g : Char) (hk : k < row.length) :
    ((row.set k g)[c]?).getD ' ' = if c = k then g else (row[c]?).getD ' ' := by
  rw [List.getElem?_set]
  by_cases hc : c = k
  · rw [if_pos hc.symm, if_pos hk, if_pos hc]
    rfl
  · rw [if_neg (Ne.symm hc), if_neg hc]

end Cells

section Step

variable {s : Screen} {x : Xterm}

/-- The cursors stand on the same cell, or the grid's is past the edge. -/
theorem Agree.cursor (h : Agree s x) :
    (s.cursorCol < s.cols ∧ x.col = s.cursorCol) ∨
      (s.cursorCol = s.cols ∧ x.col = s.cols - 1) := by
  have hcol := h.col_eq
  have hle := h.wellFormed.cursorCol_le
  have hpos := h.wellFormed.cols_pos
  omega

/-- An edit of the cursor's row on both sides. -/
theorem Agree.editRow (h : Agree s x) {f : List Char → List Char} {g : Nat → Char} :
    ShowsSame (s.editRow f) (x.editRow g) ↔
      ∀ c < s.cols, ((f (s.grid[s.cursorRow]?.getD []))[c]?).getD ' ' = g c := by
  have hrow := h.wellFormed.cursorRow_lt
  constructor
  · intro hsame c hc
    have hcell := hsame s.cursorRow hrow c hc
    rw [cell_editRow h.wellFormed, if_pos rfl] at hcell
    exact hcell.trans (if_pos h.row_eq.symm)
  · intro hall r hr c hc
    rw [cell_editRow h.wellFormed]
    unfold Xterm.editRow
    dsimp only
    rw [h.row_eq]
    by_cases hcur : r = s.cursorRow
    · rw [if_pos hcur, if_pos hcur, hcur]
      exact hall c hc
    · rw [if_neg hcur, if_neg hcur]
      exact h.shows r hr c hc

/-- The cells of the cursor's row, seen by both. -/
theorem Agree.rowCell (h : Agree s x) {c : Nat} (hc : c < s.cols) :
    ((s.grid[s.cursorRow]?.getD [])[c]?).getD ' ' = x.cell x.row c := by
  rw [h.row_eq]
  exact h.shows _ h.wellFormed.cursorRow_lt c hc

/-- Only the last column differs. -/
theorem lastColumn_iff {n : Nat} (hn : 0 < n) {v g : Nat → Char} {b : Char}
    (hg : ∀ c < n, g c = if n - 1 ≤ c then b else v c) :
    (∀ c < n, v c = g c) ↔ v (n - 1) = b := by
  constructor
  · intro h
    rw [h (n - 1) (by omega), hg (n - 1) (by omega), if_pos le_rfl]
  · intro h c hc
    rw [hg c hc]
    split
    · next hle =>
      obtain rfl : c = n - 1 := by omega
      exact h
    · rfl

/-- What a change of the cursor's row shows, when it is to be blank from the
cursor on or shifted from there. -/
theorem Agree.editRow_iff (h : Agree s x) {f : List Char → List Char} {g : Nat → Char}
    (hin : s.cursorCol < s.cols → x.col = s.cursorCol → ∀ c < s.cols,
      ((f (s.grid[s.cursorRow]?.getD []))[c]?).getD ' ' = g c)
    {b : Char}
    (hpast : s.cursorCol = s.cols → x.col = s.cols - 1 →
      (∀ c < s.cols, ((f (s.grid[s.cursorRow]?.getD []))[c]?).getD ' ' = x.cell x.row c) ∧
        ∀ c < s.cols, g c = if s.cols - 1 ≤ c then b else x.cell x.row c) :
    ShowsSame (s.editRow f) (x.editRow g) ↔
      (s.cursorCol = s.cols → s.cell s.cursorRow (s.cols - 1) = b) := by
  rw [h.editRow]
  have hpos := h.wellFormed.cols_pos
  rcases h.cursor with ⟨hlt, hcol⟩ | ⟨hedge, hcol⟩
  · exact ⟨fun _ hedge => by omega, fun _ => hin hlt hcol⟩
  · obtain ⟨hsame, hg⟩ := hpast hedge hcol
    have hlast : s.cell s.cursorRow (s.cols - 1) = x.cell x.row (s.cols - 1) := by
      rw [h.row_eq]
      exact h.shows _ h.wellFormed.cursorRow_lt _ (by omega)
    rw [hlast, forall_prop_of_true hedge, ← lastColumn_iff hpos hg]
    exact forall₂_congr fun c hc => by rw [hsame c hc]

theorem apply_size (s : Screen) (op : Op3600) :
    (s.apply op).cols = s.cols ∧ (s.apply op).rows = s.rows := by
  cases op with
  | char code =>
      unfold Screen.apply
      dsimp only [Screen.touch]
      split <;> exact ⟨rfl, rfl⟩
  | newline =>
      unfold Screen.apply
      dsimp only
      split <;> exact ⟨rfl, rfl⟩
  | _ => exact ⟨rfl, rfl⟩

theorem ShowsSame.congr {s' : Screen} {x' : Xterm} (hcols : s.cols = s'.cols)
    (hrows : s.rows = s'.rows) (hcell : ∀ r c, s.cell r c = s'.cell r c)
    (hx : ∀ r c, x.cell r c = x'.cell r c) : ShowsSame s x ↔ ShowsSame s' x' := by
  unfold ShowsSame
  simp only [hcols, hrows, hcell, hx]

/-- An edit that leaves the cells of the row. -/
theorem Agree.editRow_same (h : Agree s x) {f : List Char → List Char}
    (hf : ∀ c < s.cols, ((f (s.grid[s.cursorRow]?.getD []))[c]?).getD ' ' =
      ((s.grid[s.cursorRow]?.getD [])[c]?).getD ' ') : ShowsSame (s.editRow f) x := by
  intro r hr c hc
  rw [cell_editRow h.wellFormed]
  split
  · next hrow =>
    rw [hrow, hf c hc, h.rowCell hc, h.row_eq]
  · exact h.shows r hr c hc

/-- A character falls on the last column of the terminal only. -/
theorem Agree.shows_print (h : Agree s x) (code : Nat) :
    ShowsSame (s.apply (.char code)) (x.feed (.char code)) ↔ Harmless s (.char code) := by
  have hlen := row_length h.wellFormed h.wellFormed.cursorRow_lt
  have hset : ∀ r c, (s.apply (.char code)).cell r c =
      (s.editRow (·.set s.cursorCol (glyphFor code))).cell r c := by
    intro r c
    change (if s.cursorCol < s.cols then s.editRow (·.set s.cursorCol (glyphFor code))
      else s).cell r c = _
    split
    · rfl
    · next hge =>
      rw [cell_editRow h.wellFormed]
      split
      · next hr =>
        rw [hr, List.set_eq_of_length_le (by omega)]
        rfl
      · rfl
  have hiff := h.editRow_iff (f := (·.set s.cursorCol (glyphFor code)))
    (g := fun c => if c = x.col then glyphFor code else x.cell x.row c) (b := glyphFor code)
    (fun hlt hcol c hc => by
      rw [cell_set _ _ _ _ (by omega), hcol, h.rowCell hc])
    (fun hedge hcol => by
      refine ⟨fun c hc => ?_, fun c hc => ?_⟩
      · rw [List.set_eq_of_length_le (by omega), h.rowCell hc]
      · rw [hcol]
        exact if_congr (by omega) rfl rfl)
  obtain ⟨hcols, hrows⟩ := apply_size s (.char code)
  have hshows : ShowsSame (s.apply (.char code)) (x.feed (.char code)) ↔
      ShowsSame (s.editRow (·.set s.cursorCol (glyphFor code)))
        (x.editRow fun c => if c = x.col then glyphFor code else x.cell x.row c) :=
    ShowsSame.congr hcols hrows hset fun _ _ => rfl
  rw [hshows, hiff]
  exact forall_congr' fun _ => eq_comm

theorem Agree.shows_clearEol (h : Agree s x) :
    ShowsSame (s.apply .clearEol) (x.feed .clearEol) ↔ Harmless s .clearEol := by
  apply h.editRow_iff
  · intro hlt hcol c hc
    rw [blankFrom_get, hcol, h.rowCell hc]
  · intro hedge hcol
    refine ⟨fun c hc => ?_, fun c hc => ?_⟩
    · rw [blankFrom_get, if_neg (by omega), h.rowCell hc]
    · rw [hcol]

theorem Agree.shows_insertChars (h : Agree s x) (n : Nat) :
    ShowsSame (s.apply (.insertChars n)) (x.feed (.insertChars n)) ↔
      Harmless s (.insertChars n) := by
  have hlen := row_length h.wellFormed h.wellFormed.cursorRow_lt
  have hle := h.wellFormed.cursorCol_le
  have hget := fun c (hc : c < s.cols) =>
    insertBlanks_get (n := min n (s.cols - min s.cursorCol s.cols)) hlen
      (Nat.min_le_right s.cursorCol _) hc
  rcases Nat.eq_zero_or_pos n with rfl | hn
  · refine iff_of_true (h.editRow_same fun c hc => ?_) fun _ hpos => absurd hpos (lt_irrefl 0)
    rw [hget c hc, Nat.zero_min, Nat.add_zero, Nat.sub_zero]
    split
    · rfl
    · rfl
  · have hfeed : x.feed (.insertChars n) = x.control (.insertBlank n) := by
      change List.foldl Xterm.control x (if 0 < n then [.insertBlank n] else []) = _
      rw [if_pos hn]
      rfl
    rw [hfeed]
    change ShowsSame (s.editRow _) (x.editRow _) ↔
      (s.cursorCol = s.cols → 0 < n → s.cell s.cursorRow (s.cols - 1) = ' ')
    rw [h.editRow_iff (b := ' ')]
    · exact forall_congr' fun _ => ⟨fun hblank _ => hblank, fun hblank => hblank hn⟩
    · intro hlt hcol c hc
      rw [hget c hc, h.rowCell hc, hcol, h.rowCell (by omega)]
      grind
    · intro hedge hcol
      refine ⟨fun c hc => ?_, fun c hc => ?_⟩
      · rw [hget c hc, if_pos (by omega), h.rowCell hc]
      · rw [hcol]
        grind

theorem Agree.shows_deleteChars (h : Agree s x) (n : Nat) :
    ShowsSame (s.apply (.deleteChars n)) (x.feed (.deleteChars n)) ↔
      Harmless s (.deleteChars n) := by
  have hlen := row_length h.wellFormed h.wellFormed.cursorRow_lt
  have hle := h.wellFormed.cursorCol_le
  have hget := fun c (hc : c < s.cols) =>
    deleteCells_get (n := min n (s.cols - min s.cursorCol s.cols)) hlen
      (Nat.min_le_right s.cursorCol _) hc
  rcases Nat.eq_zero_or_pos n with rfl | hn
  · refine iff_of_true (h.editRow_same fun c hc => ?_) fun _ hpos => absurd hpos (lt_irrefl 0)
    rw [hget c hc, Nat.zero_min, Nat.add_zero, if_pos hc]
    split
    · rfl
    · rfl
  · have hfeed : x.feed (.deleteChars n) = x.control (.deleteChar n) := by
      change List.foldl Xterm.control x (if 0 < n then [.deleteChar n] else []) = _
      rw [if_pos hn]
      rfl
    rw [hfeed]
    change ShowsSame (s.editRow _) (x.editRow _) ↔
      (s.cursorCol = s.cols → 0 < n → s.cell s.cursorRow (s.cols - 1) = ' ')
    rw [h.editRow_iff (b := ' ')]
    · exact forall_congr' fun _ => ⟨fun hblank _ => hblank, fun hblank => hblank hn⟩
    · intro hlt hcol c hc
      rw [hget c hc, h.rowCell hc, hcol, h.cols_eq, Nat.min_eq_left hle]
      refine if_ctx_congr Iff.rfl (fun _ => rfl) fun hge => ?_
      by_cases hright : c + n < s.cols
      · rw [Nat.min_eq_left (by omega), if_pos hright, if_pos hright, h.rowCell hright]
      · rw [if_neg (by omega), if_neg hright]
    · intro hedge hcol
      refine ⟨fun c hc => ?_, fun c hc => ?_⟩
      · rw [hget c hc, if_pos (by omega), h.rowCell hc]
      · rw [hcol, h.cols_eq]
        grind

/-- The rows below the cursor are blank on both sides. -/
theorem Agree.shows_clearEow (h : Agree s x) :
    ShowsSame (s.apply .clearEow) (x.feed .clearEow) ↔ Harmless s .clearEow := by
  have hclear := h.wellFormed.clearEol
  have hcur : s.cursorRow + 1 ≤ s.clearEol.grid.length := by
    rw [hclear.grid_length]
    exact h.wellFormed.cursorRow_lt
  have hcell : ∀ r < s.rows, ∀ c, (s.apply .clearEow).cell r c =
      if r ≤ s.cursorRow then s.clearEol.cell r c else ' ' := by
    intro r hr c
    change (((s.clearEol.grid.take (s.cursorRow + 1) ++
      List.replicate (s.rows - (s.cursorRow + 1)) (blankRow s.cols))[r]?.getD [])[c]?).getD ' ' = _
    rw [List.getElem?_append, List.length_take, Nat.min_eq_left hcur]
    by_cases hle : r ≤ s.cursorRow
    · rw [if_pos (by omega), if_pos hle, List.getElem?_take, if_pos (by omega)]
      rfl
    · rw [if_neg (by omega), if_neg hle, List.getElem?_replicate, if_pos (by omega)]
      exact cell_blankRow
  have hiff := h.shows_clearEol
  rw [show Harmless s .clearEow = Harmless s .clearEol from rfl, ← hiff]
  refine forall₂_congr fun r hr => forall₂_congr fun c hc => ?_
  rw [hcell r hr c]
  change _ = (if x.row < r ∨ r = x.row ∧ x.col ≤ c then ' ' else x.cell r c) ↔
    s.clearEol.cell r c = if r = x.row then (if x.col ≤ c then ' ' else x.cell x.row c) else
      x.cell r c
  have hbelow : s.cursorRow < r → s.clearEol.cell r c = x.cell r c := by
    intro hlt
    change (s.editRow _).cell r c = _
    rw [cell_editRow h.wellFormed, if_neg (by omega)]
    exact h.shows r hr c hc
  rw [h.row_eq]
  grind

theorem Agree.shows_newline (h : Agree s x) :
    ShowsSame (s.apply .newline) (x.feed .newline) := by
  have hrow := h.wellFormed.cursorRow_lt
  have hlen := h.wellFormed.grid_length
  intro r hr c hc
  rw [(apply_size s .newline).2] at hr
  rw [(apply_size s .newline).1] at hc
  have hshow := fun r hr => h.shows r hr c hc
  unfold Screen.apply
  dsimp only
  by_cases hlast : s.rows - 1 ≤ s.cursorRow
  · rw [if_pos hlast]
    have hfeed : (x.feed .newline).cell r c =
        if r + 1 < s.rows then x.cell (r + 1) c else ' ' := by
      change ((({ x with col := 0 } : Xterm).control .lf).control .eraseLine).cell r c = _
      unfold Xterm.control
      dsimp only
      rw [h.rows_eq, h.row_eq, if_pos (by omega)]
      unfold Xterm.editRow
      dsimp only
      grind
    rw [hfeed]
    change (((s.grid.tail ++ [blankRow s.cols])[r]?.getD [])[c]?).getD ' ' = _
    rw [List.getElem?_append, List.length_tail, hlen]
    by_cases hlt : r + 1 < s.rows
    · rw [if_pos (by omega), if_pos hlt, List.getElem?_tail]
      exact hshow (r + 1) hlt
    · rw [if_neg (by omega), if_neg hlt]
      obtain rfl : r = s.rows - 1 := by omega
      rw [Nat.sub_self]
      exact cell_blankRow
  · rw [if_neg hlast]
    have hfeed : (x.feed .newline).cell r c =
        if r = s.cursorRow + 1 then ' ' else x.cell r c := by
      change ((({ x with col := 0 } : Xterm).control .lf).control .eraseLine).cell r c = _
      unfold Xterm.control
      dsimp only
      rw [h.rows_eq, h.row_eq, if_neg (by omega)]
      rfl
    rw [hfeed]
    change (((s.grid.set (s.cursorRow + 1) (blankRow s.cols))[r]?.getD [])[c]?).getD ' ' = _
    rw [List.getElem?_set]
    by_cases hr' : r = s.cursorRow + 1
    · rw [if_pos hr'.symm, if_pos (by omega), if_pos hr']
      exact cell_blankRow
    · rw [if_neg (Ne.symm hr'), if_neg hr']
      exact hshow r hr

theorem shows_clear (s : Screen) (x : Xterm) : ShowsSame (s.apply .clear) (x.feed .clear) := by
  intro r hr c _
  have hr' : r < s.rows := hr
  change (((blankGrid s.cols s.rows)[r]?.getD [])[c]?).getD ' ' = ' '
  unfold blankGrid
  rw [List.getElem?_replicate, if_pos hr']
  exact cell_blankRow

/-- **One operation**: the screens stay the same exactly when it is harmless. -/
theorem Agree.shows_iff (h : Agree s x) (op : Op3600) :
    ShowsSame (s.apply op) (x.feed op) ↔ Harmless s op := by
  cases op with
  | char code => exact h.shows_print code
  | beep => exact iff_of_true h.shows trivial
  | newline => exact iff_of_true h.shows_newline trivial
  | clear => exact iff_of_true (shows_clear s x) trivial
  | clearEow => exact h.shows_clearEow
  | clearEol => exact h.shows_clearEol
  | insertChars n => exact h.shows_insertChars n
  | deleteChars n => exact h.shows_deleteChars n
  | move _ _ => exact iff_of_true h.shows trivial
  | unknown _ => exact iff_of_true h.shows trivial

theorem apply_newline (s : Screen) :
    (s.apply .newline).cursorRow =
        (if s.rows - 1 ≤ s.cursorRow then s.rows - 1 else s.cursorRow + 1) ∧
      (s.apply .newline).cursorCol = 0 := by
  unfold Screen.apply
  dsimp only
  split <;> exact ⟨rfl, rfl⟩

theorem feed_newline (x : Xterm) :
    (x.feed .newline).cols = x.cols ∧ (x.feed .newline).rows = x.rows ∧
      (x.feed .newline).row = (if x.rows ≤ x.row + 1 then x.row else x.row + 1) ∧
      (x.feed .newline).col = 0 := by
  change let y := (({ x with col := 0 } : Xterm).control .lf).control .eraseLine
    y.cols = x.cols ∧ y.rows = x.rows ∧
      y.row = (if x.rows ≤ x.row + 1 then x.row else x.row + 1) ∧ y.col = 0
  unfold Xterm.control
  dsimp only
  split <;> exact ⟨rfl, rfl, rfl, rfl⟩

/-- The cursors go together, harmless or not. -/
theorem Agree.cursors (h : Agree s x) (op : Op3600) :
    (x.feed op).cols = (s.apply op).cols ∧ (x.feed op).rows = (s.apply op).rows ∧
      (x.feed op).row = (s.apply op).cursorRow ∧
      (x.feed op).col = min (s.apply op).cursorCol ((s.apply op).cols - 1) := by
  have hcols := h.cols_eq
  have hrows := h.rows_eq
  have hrow := h.row_eq
  have hcol := h.col_eq
  have hpos := h.wellFormed.cols_pos
  have hpos' := h.wellFormed.rows_pos
  have hlt := h.wellFormed.cursorRow_lt
  have hle := h.wellFormed.cursorCol_le
  cases op with
  | char code =>
      have hsize := apply_size s (.char code)
      have hcur : (s.apply (.char code)).cursorRow = s.cursorRow ∧
          (s.apply (.char code)).cursorCol = min (s.cursorCol + 1) s.cols := by
        unfold Screen.apply
        dsimp only
        split <;> exact ⟨rfl, rfl⟩
      rw [hsize.1, hsize.2, hcur.1, hcur.2]
      refine ⟨hcols, hrows, hrow, ?_⟩
      change min (x.col + 1) (x.cols - 1) = _
      omega
  | newline =>
      obtain ⟨hrow', hcol'⟩ := apply_newline s
      obtain ⟨hxcols, hxrows, hxrow, hxcol⟩ := feed_newline x
      rw [hrow', hcol', (apply_size s .newline).1, (apply_size s .newline).2]
      refine ⟨hxcols.trans hcols, hxrows.trans hrows, hxrow.trans ?_, hxcol.trans ?_⟩
      · rw [hrows, hrow]
        split <;> split <;> omega
      · exact (Nat.zero_min _).symm
  | clear =>
      refine ⟨hcols, hrows, ?_, ?_⟩
      · exact Nat.zero_min _
      · exact (Nat.zero_min _).trans (Nat.zero_min _).symm
  | insertChars n =>
      have hfeed : x.feed (.insertChars n) = x ∨
          x.feed (.insertChars n) = x.control (.insertBlank n) := by
        change List.foldl Xterm.control x (if 0 < n then [.insertBlank n] else []) = x ∨
          List.foldl Xterm.control x (if 0 < n then [.insertBlank n] else []) = _
        split
        · exact .inr rfl
        · exact .inl rfl
      obtain hfeed | hfeed := hfeed <;> rw [hfeed] <;> exact ⟨hcols, hrows, hrow, hcol⟩
  | deleteChars n =>
      have hfeed : x.feed (.deleteChars n) = x ∨
          x.feed (.deleteChars n) = x.control (.deleteChar n) := by
        change List.foldl Xterm.control x (if 0 < n then [.deleteChar n] else []) = x ∨
          List.foldl Xterm.control x (if 0 < n then [.deleteChar n] else []) = _
        split
        · exact .inr rfl
        · exact .inl rfl
      obtain hfeed | hfeed := hfeed <;> rw [hfeed] <;> exact ⟨hcols, hrows, hrow, hcol⟩
  | move a b =>
      refine ⟨hcols, hrows, ?_, ?_⟩
      · change min (b + 1 - 1) (x.rows - 1) = min b (s.rows - 1)
        rw [hrows, Nat.add_sub_cancel]
      · change min (a + 1 - 1) (x.cols - 1) = min (min a (s.cols - 1)) (s.cols - 1)
        rw [hcols, Nat.add_sub_cancel, Nat.min_assoc, Nat.min_self]
  | _ => exact ⟨hcols, hrows, hrow, hcol⟩

theorem Agree.step (h : Agree s x) {op : Op3600} (hok : Harmless s op) :
    Agree (s.apply op) (x.feed op) := by
  obtain ⟨hcols, hrows, hrow, hcol⟩ := h.cursors op
  exact ⟨h.wellFormed.apply op, hcols, hrows, hrow, hcol, (h.shows_iff op).mpr hok⟩

end Step

theorem agree_new (cols rows : Nat) :
    Agree (Screen.new cols rows) (Xterm.new (max 1 cols) (max 1 rows)) where
  wellFormed := Screen.wellFormed_new cols rows
  cols_eq := rfl
  rows_eq := rfl
  row_eq := rfl
  col_eq := (Nat.zero_min _).symm
  shows := by
    intro r hr c _
    have hr' : r < max 1 rows := hr
    change (((blankGrid (max 1 cols) (max 1 rows))[r]?.getD [])[c]?).getD ' ' = ' '
    unfold blankGrid
    rw [List.getElem?_replicate, if_pos hr']
    exact cell_blankRow

/-- The screens stay the same along the operations exactly as long as each is
harmless. -/
theorem Agree.run_iff {s : Screen} {x : Xterm} (h : Agree s x) (ops : List Op3600) :
    (∀ n ≤ ops.length, ShowsSame (Exec.runTo Screen.apply s ops n)
        (Exec.runTo Xterm.feed x ops n)) ↔
      Exec.Allowed Screen.apply Harmless s ops := by
  induction ops generalizing s x with
  | nil => exact iff_of_true (fun n _ => by simpa [Exec.runTo] using h.shows) trivial
  | cons op ops ih =>
      unfold Exec.Allowed
      constructor
      · intro hall
        have hok := (h.shows_iff op).mp (hall 1 (by simp))
        refine ⟨hok, (ih (h.step hok)).mp fun n hn => ?_⟩
        exact hall (n + 1) (Nat.succ_le_succ hn)
      · intro hallowed n hn
        cases n with
        | zero => exact h.shows
        | succ n => exact (ih (h.step hallowed.1)).mpr hallowed.2 n (Nat.le_of_succ_le_succ hn)

/-- **The two renderers agree** on every cell after every operation exactly when
no operation falls on the last column that the grid drops. -/
theorem renderers_agree (cols rows : Nat) (ops : List Op3600) :
    (∀ n ≤ ops.length, ShowsSame (Exec.runTo Screen.apply (Screen.new cols rows) ops n)
        (Exec.runTo Xterm.feed (Xterm.new (max 1 cols) (max 1 rows)) ops n)) ↔
      Exec.Allowed Screen.apply Harmless (Screen.new cols rows) ops :=
  (agree_new cols rows).run_iff ops

/-- Three columns are filled and the line is cleared from the cursor on: the grid
clears nothing, the terminal its last column. -/
theorem last_column_differs :
    ¬ShowsSame
      (Exec.run Screen.apply (Screen.new 3 1) [.char 97, .char 98, .char 99, .clearEol])
      (Exec.run Xterm.feed (Xterm.new 3 1) [.char 97, .char 98, .char 99, .clearEol]) := by
  intro h
  exact absurd (h 0 (by decide) 2 (by decide)) (by decide)

end Terminal
