import Mathlib

/-!
# The grid of the 3600 terminal

Decoded operations of the server are applied to a grid of characters.  A
character in the last column leaves the cursor past the edge, where further
characters are dropped.
-/

namespace Terminal

/-- The operations that the decoder yields. -/
inductive Op3600 where
  | char (code : Nat)
  | beep
  | newline
  | clear
  | clearEow
  | clearEol
  | insertChars (n : Nat)
  | deleteChars (n : Nat)
  | move (x y : Nat)
  | unknown (byte : Nat)
  deriving DecidableEq

/-- Unicode for Genera codes 0..037. -/
def sailGlyphs : List Char :=
  ['·', '↓', 'α', 'β', '∧', '¬', 'ε', 'π',
   'λ', 'γ', 'δ', '↑', '±', '⊕', '∞', '∂',
   '⊂', '⊃', '∩', '∪', '∀', '∃', '⊗', '↔',
   '←', '→', '≠', '◊', '≤', '≥', '≡', '∨']

def integralGlyph : Char := '∫'

def glyphFor (code : Nat) : Char :=
  match sailGlyphs[code]? with
  | some g => g
  | none => if code = 127 then integralGlyph else Char.ofNat code

structure Screen where
  cols : Nat
  rows : Nat
  grid : List (List Char)
  cursorRow : Nat
  cursorCol : Nat
  version : Nat
  beeps : Nat
  unknownBytes : List Nat

def blankRow (cols : Nat) : List Char := List.replicate cols ' '

def blankGrid (cols rows : Nat) : List (List Char) := List.replicate rows (blankRow cols)

namespace Screen

def new (cols rows : Nat) : Screen :=
  { cols := max 1 cols
    rows := max 1 rows
    grid := blankGrid (max 1 cols) (max 1 rows)
    cursorRow := 0
    cursorCol := 0
    version := 0
    beeps := 0
    unknownBytes := [] }

/-- The character in a cell. -/
def cell (s : Screen) (r c : Nat) : Char := ((s.grid[r]?.getD [])[c]?).getD ' '

/-- The row of the cursor is changed by `f`. -/
def editRow (s : Screen) (f : List Char → List Char) : Screen :=
  { s with grid := s.grid.modify s.cursorRow f }

def touch (s : Screen) : Screen := { s with version := s.version + 1 }

/-- The blanks from column `c` on. -/
def blankFrom (c : Nat) (row : List Char) : List Char :=
  row.take c ++ List.replicate (row.length - c) ' '

def clearEol (s : Screen) : Screen := s.editRow (blankFrom s.cursorCol)

/-- Blanks go in at `col`, and what is pushed past the edge is lost. -/
def insertBlanks (cols col n : Nat) (row : List Char) : List Char :=
  (row.take col ++ List.replicate n ' ' ++ row.drop col).take cols

def deleteCells (cols col n : Nat) (row : List Char) : List Char :=
  let rest := row.take col ++ row.drop (col + n)
  rest ++ List.replicate (cols - rest.length) ' '

def apply (s : Screen) : Op3600 → Screen
  | .char code =>
      let t := if s.cursorCol < s.cols then s.editRow (·.set s.cursorCol (glyphFor code)) else s
      { t with cursorCol := min (s.cursorCol + 1) s.cols }.touch
  | .beep => { s with beeps := s.beeps + 1 }.touch
  | .newline =>
      if s.rows - 1 ≤ s.cursorRow then
        { s with
          grid := s.grid.tail ++ [blankRow s.cols]
          cursorCol := 0
          cursorRow := s.rows - 1 }.touch
      else
        { s with
          grid := s.grid.set (s.cursorRow + 1) (blankRow s.cols)
          cursorCol := 0
          cursorRow := s.cursorRow + 1 }.touch
  | .clear =>
      { s with grid := blankGrid s.cols s.rows, cursorRow := 0, cursorCol := 0 }.touch
  | .clearEow =>
      let t := s.clearEol
      { t with
        grid := t.grid.take (s.cursorRow + 1) ++
          List.replicate (s.rows - (s.cursorRow + 1)) (blankRow s.cols) }.touch
  | .clearEol => s.clearEol.touch
  | .insertChars n =>
      let col := min s.cursorCol s.cols
      (s.editRow (insertBlanks s.cols col (min n (s.cols - col)))).touch
  | .deleteChars n =>
      let col := min s.cursorCol s.cols
      (s.editRow (deleteCells s.cols col (min n (s.cols - col)))).touch
  | .move x y =>
      { s with cursorCol := min x (s.cols - 1), cursorRow := min y (s.rows - 1) }.touch
  | .unknown byte => { s with unknownBytes := s.unknownBytes ++ [byte] }

/-- What fits of the old grid is kept. -/
def resize (s : Screen) (cols rows : Int) : Screen :=
  let cols := (max 1 cols).toNat
  let rows := (max 1 rows).toNat
  let keep (old : List Char) : List Char :=
    old.take cols ++ List.replicate (cols - old.length) ' '
  { s with
    cols := cols
    rows := rows
    grid := (s.grid.take rows).map keep ++ List.replicate (rows - s.grid.length) (blankRow cols)
    cursorRow := min s.cursorRow (rows - 1)
    cursorCol := min s.cursorCol cols }.touch

def reset (s : Screen) : Screen :=
  { s with grid := blankGrid s.cols s.rows, cursorRow := 0, cursorCol := 0, beeps := 0 }.touch

/-- The grid has its size and the cursor is on it, or just past the edge. -/
structure WellFormed (s : Screen) : Prop where
  rows_pos : 0 < s.rows
  cols_pos : 0 < s.cols
  grid_length : s.grid.length = s.rows
  row_length : ∀ row ∈ s.grid, row.length = s.cols
  cursorRow_lt : s.cursorRow < s.rows
  cursorCol_le : s.cursorCol ≤ s.cols

theorem wellFormed_new (cols rows : Nat) : (new cols rows).WellFormed where
  rows_pos := by
    change 0 < max 1 rows
    omega
  cols_pos := by
    change 0 < max 1 cols
    omega
  grid_length := List.length_replicate
  row_length := by
    intro row hrow
    rw [List.eq_of_mem_replicate hrow]
    exact List.length_replicate
  cursorRow_lt := by
    change 0 < max 1 rows
    omega
  cursorCol_le := Nat.zero_le _

theorem WellFormed.touch {s : Screen} (h : s.WellFormed) : s.touch.WellFormed := { h with }

/-- An edit that keeps the length of the row keeps the grid in shape. -/
theorem WellFormed.editRow {s : Screen} (h : s.WellFormed) {f : List Char → List Char}
    (hf : ∀ row, row.length = s.cols → (f row).length = s.cols) : (s.editRow f).WellFormed :=
  { h with
    grid_length := by
      unfold Screen.editRow
      dsimp only
      rw [List.length_modify]
      exact h.grid_length
    row_length := by
      intro row hrow
      unfold Screen.editRow at hrow
      dsimp only at hrow
      obtain ⟨r, hr⟩ := List.mem_iff_getElem?.mp hrow
      rw [List.getElem?_modify] at hr
      obtain ⟨old, hold, rfl⟩ := Option.map_eq_some_iff.mp hr
      have hlen := h.row_length old (List.mem_of_getElem? hold)
      split
      · exact hf old hlen
      · exact hlen }

theorem blankFrom_length {c : Nat} {row : List Char} (h : c ≤ row.length) :
    (blankFrom c row).length = row.length := by
  unfold blankFrom
  rw [List.length_append, List.length_take, List.length_replicate]
  omega

theorem insertBlanks_length {cols k n : Nat} {row : List Char} (hrow : row.length = cols) :
    (insertBlanks cols k n row).length = cols := by
  unfold insertBlanks
  simp only [List.length_take, List.length_append, List.length_replicate, List.length_drop]
  omega

theorem deleteCells_length {cols k n : Nat} {row : List Char} (hrow : row.length = cols) :
    (deleteCells cols k n row).length = cols := by
  unfold deleteCells
  simp only [List.length_take, List.length_append, List.length_replicate, List.length_drop]
  omega

theorem WellFormed.clearEol {s : Screen} (h : s.WellFormed) : s.clearEol.WellFormed := by
  apply h.editRow
  intro row hrow
  rw [blankFrom_length (hrow ▸ h.cursorCol_le), hrow]

/-- **Every operation keeps the grid in shape.** -/
theorem WellFormed.apply {s : Screen} (h : s.WellFormed) (op : Op3600) :
    (s.apply op).WellFormed := by
  have hrows := h.rows_pos
  have hcols := h.cols_pos
  have hrow := h.cursorRow_lt
  have hblank : (blankRow s.cols).length = s.cols := List.length_replicate
  cases op with
  | char code =>
      have hset : (s.editRow (·.set s.cursorCol (glyphFor code))).WellFormed := by
        apply h.editRow
        intro row hrow
        rw [List.length_set, hrow]
      unfold Screen.apply
      dsimp only
      apply touch
      split
      · exact { hset with cursorCol_le := Nat.min_le_right _ _ }
      · exact { h with cursorCol_le := Nat.min_le_right _ _ }
  | beep => exact { h with }
  | newline =>
      unfold Screen.apply
      dsimp only
      split
      · apply touch
        exact { h with
          grid_length := by
            dsimp only
            rw [List.length_append, List.length_tail, h.grid_length]
            change s.rows - 1 + 1 = s.rows
            omega
          row_length := by
            intro row hmem
            rcases List.mem_append.mp hmem with hmem | hmem
            · exact h.row_length row (List.mem_of_mem_tail hmem)
            · rw [List.mem_singleton.mp hmem]
              exact hblank
          cursorRow_lt := by
            dsimp only
            omega
          cursorCol_le := Nat.zero_le _ }
      · apply touch
        exact { h with
          grid_length := by
            dsimp only
            rw [List.length_set]
            exact h.grid_length
          row_length := by
            intro row hmem
            rcases List.mem_or_eq_of_mem_set hmem with hmem | rfl
            · exact h.row_length row hmem
            · exact hblank
          cursorRow_lt := by
            dsimp only
            omega
          cursorCol_le := Nat.zero_le _ }
  | clear =>
      apply touch
      exact { h with
        grid_length := List.length_replicate
        row_length := by
          intro row hmem
          rw [List.eq_of_mem_replicate hmem]
          exact hblank
        cursorRow_lt := hrows
        cursorCol_le := Nat.zero_le _ }
  | clearEow =>
      have ht := h.clearEol
      apply touch
      exact { ht with
        grid_length := by
          dsimp only
          rw [List.length_append, List.length_take, List.length_replicate, ht.grid_length]
          change min (s.cursorRow + 1) s.rows + _ = s.rows
          omega
        row_length := by
          intro row hmem
          rcases List.mem_append.mp hmem with hmem | hmem
          · exact ht.row_length row (List.mem_of_mem_take hmem)
          · rw [List.eq_of_mem_replicate hmem]
            exact hblank }
  | clearEol => exact h.clearEol.touch
  | insertChars n =>
      apply touch
      apply h.editRow
      intro row hrow
      exact insertBlanks_length hrow
  | deleteChars n =>
      apply touch
      apply h.editRow
      intro row hrow
      exact deleteCells_length hrow
  | move x y =>
      apply touch
      exact { h with
        cursorRow_lt := by
          dsimp only
          omega
        cursorCol_le := by
          dsimp only
          omega }
  | unknown byte => exact { h with }

/-- A new size keeps the grid in shape. -/
theorem WellFormed.resize {s : Screen} (h : s.WellFormed) (cols rows : Int) :
    (s.resize cols rows).WellFormed where
  rows_pos := by
    change 0 < (max 1 rows).toNat
    omega
  cols_pos := by
    change 0 < (max 1 cols).toNat
    omega
  grid_length := by
    change List.length (_ ++ _) = (max 1 rows).toNat
    rw [List.length_append, List.length_map, List.length_take, List.length_replicate]
    omega
  row_length := by
    intro row hrow
    change row.length = (max 1 cols).toNat
    rcases List.mem_append.mp hrow with hrow | hrow
    · obtain ⟨old, -, rfl⟩ := List.mem_map.mp hrow
      rw [List.length_append, List.length_take, List.length_replicate]
      omega
    · rw [List.eq_of_mem_replicate hrow]
      exact List.length_replicate
  cursorRow_lt := by
    change min s.cursorRow ((max 1 rows).toNat - 1) < (max 1 rows).toNat
    omega
  cursorCol_le := Nat.min_le_right _ _

theorem WellFormed.reset {s : Screen} (h : s.WellFormed) : s.reset.WellFormed := by
  have hclear := h.apply .clear
  exact { hclear with }

end Screen

end Terminal
