import OsxVlm.Terminal.Screen
import OsxVlm.Library.Execution

/-!
# The rows of the grid as arrays

A `Screen` keeps its grid as an array of arrays, and changes them in place: two entries for
one array would be changed together.  Here the rows are references to arrays, and an access
outside an array has no result.
-/

namespace Terminal

/-! ### The decoder -/

structure Decoder3600 where
  /-- The op byte that waits for its arguments, or 0. -/
  pending : Nat
  args : List Nat

namespace Decoder3600

def ground : Decoder3600 := ⟨0, []⟩

/-- A byte, and the operation that it completes. -/
def feedByte (d : Decoder3600) (b : Nat) : Decoder3600 × List Op3600 :=
  if d.pending ≠ 0 then
    let args := d.args ++ [b]
    let need := if d.pending = 0o207 then 2 else 1
    if args.length < need then ({ d with args := args }, [])
    else
      let a0 := args.getD 0 0
      let a1 := args.getD 1 0
      if d.pending = 0o205 then (ground, [.insertChars a0])
      else if d.pending = 0o206 then (ground, [.deleteChars a0])
      else (ground, [.move a0 a1])
  else if b < 0o200 then (d, [.char b])
  else
    match b with
    | 0o200 => (d, [.beep])
    | 0o201 => (d, [.newline])
    | 0o202 => (d, [.clear])
    | 0o203 => (d, [.clearEow])
    | 0o204 => (d, [.clearEol])
    | 0o205 | 0o206 | 0o207 => (⟨b, []⟩, [])
    | _ => (d, [.unknown b])

def feed (d : Decoder3600) : List Nat → Decoder3600 × List Op3600
  | [] => (d, [])
  | b :: bytes =>
      let (d, ops) := d.feedByte b
      let (d, rest) := d.feed bytes
      (d, ops ++ rest)

end Decoder3600

/-! ### Glyphs -/

/-- `SAIL_GLYPHS`. -/
def sailGlyphStrings : List String :=
  ["·", "↓", "α", "β", "∧", "¬", "ε", "π",
   "λ", "γ", "δ", "↑", "±", "⊕", "∞", "∂",
   "⊂", "⊃", "∩", "∪", "∀", "∃", "⊗", "↔",
   "←", "→", "≠", "◊", "≤", "≥", "≡", "∨"]

/-- `glyphFor`, which yields a string. -/
def glyphString (code : Nat) : String :=
  if code < 0o40 then sailGlyphStrings.getD code ""
  else if code = 0o177 then "∫"
  else String.singleton (Char.ofNat code)

theorem sailGlyphStrings_eq : sailGlyphStrings = sailGlyphs.map String.singleton := by decide

/-- Every glyph is one character. -/
theorem glyphString_eq (code : Nat) : glyphString code = String.singleton (glyphFor code) := by
  unfold glyphString glyphFor
  by_cases h : code < 0o40
  · have hlt : code < sailGlyphs.length := h
    rw [if_pos h, sailGlyphStrings_eq, List.getD_eq_getElem?_getD, List.getElem?_map,
      List.getElem?_eq_getElem hlt]
    rfl
  · have hge : sailGlyphs.length ≤ code := Nat.le_of_not_lt h
    rw [if_neg h, List.getElem?_eq_none hge]
    by_cases hintegral : code = 0o177
    · subst hintegral
      rfl
    · rw [if_neg hintegral]
      simp only
      rw [if_neg hintegral]

/-! ### The screen -/

/-- A `Screen` with its arrays: what each holds, and how many there are so far. -/
structure ScreenObject where
  cols : Nat
  rows : Nat
  arrays : Nat → List String
  allocated : Nat
  grid : List Nat
  cursorRow : Nat
  cursorCol : Nat
  version : Nat
  beeps : Nat
  unknownBytes : List Nat
  decoder : Decoder3600

namespace ScreenObject

def touch (s : ScreenObject) : ScreenObject := { s with version := s.version + 1 }

def withRow (s : ScreenObject) (row : Nat) (cells : List String) : ScreenObject :=
  { s with arrays := Function.update s.arrays row cells }

/-- `#blankRow`: a new array. -/
def blankRow (s : ScreenObject) : ScreenObject × Nat :=
  ({ s.withRow s.allocated (List.replicate s.cols " ") with allocated := s.allocated + 1 },
    s.allocated)

/-- So many blank rows. -/
def blankRows (s : ScreenObject) : Nat → ScreenObject × List Nat
  | 0 => (s, [])
  | n + 1 =>
      let (s, rows) := s.blankRows n
      let (s, row) := s.blankRow
      (s, rows ++ [row])

/-- The assignment of a `#blankGrid`. -/
def setBlankGrid (s : ScreenObject) : ScreenObject :=
  let (s, grid) := s.blankRows s.rows
  { s with grid := grid }

/-- An assignment to an element of a row. -/
def setCell (s : ScreenObject) (row c : Nat) (cell : String) : Option ScreenObject :=
  if c < (s.arrays row).length then some (s.withRow row ((s.arrays row).set c cell)) else none

/-- An assignment to an element of the grid. -/
def setRow (s : ScreenObject) (r row : Nat) : Option ScreenObject :=
  if r < s.grid.length then some { s with grid := s.grid.set r row } else none

/-- The loop that assigns `n` elements of a row, from column `c` on. -/
def fillCells (row : Nat) (value : ScreenObject → Nat → Option String) :
    Nat → Nat → ScreenObject → Option ScreenObject
  | _, 0, s => some s
  | c, n + 1, s => do
      let cell ← value s c
      let s ← s.setCell row c cell
      fillCells row value (c + 1) n s

/-- `#clearEol`. -/
def clearEol (s : ScreenObject) : Option ScreenObject := do
  let row ← s.grid[s.cursorRow]?
  fillCells row (fun _ _ => some " ") s.cursorCol (s.cols - s.cursorCol) s

/-- The loop of `clearEow`. -/
def blankBelow : Nat → Nat → ScreenObject → Option ScreenObject
  | _, 0, s => some s
  | r, n + 1, s => do
      let (s, row) := s.blankRow
      let s ← s.setRow r row
      blankBelow (r + 1) n s

def apply (s : ScreenObject) : Op3600 → Option ScreenObject
  | .char code => do
      let s ←
        if s.cursorCol < s.cols then do
          let row ← s.grid[s.cursorRow]?
          s.setCell row s.cursorCol (glyphString code)
        else pure s
      return { s with cursorCol := min (s.cursorCol + 1) s.cols }.touch
  | .beep => some { s with beeps := s.beeps + 1 }.touch
  | .newline => do
      let s := { s with cursorCol := 0 }
      if s.rows - 1 ≤ s.cursorRow then
        let s := { s with grid := s.grid.tail }
        let (s, row) := s.blankRow
        return { s with grid := s.grid ++ [row], cursorRow := s.rows - 1 }.touch
      else
        let s := { s with cursorRow := s.cursorRow + 1 }
        let (s, row) := s.blankRow
        let s ← s.setRow s.cursorRow row
        return s.touch
  | .clear => some { s.setBlankGrid with cursorRow := 0, cursorCol := 0 }.touch
  | .clearEow => do
      let s ← s.clearEol
      let s ← blankBelow (s.cursorRow + 1) (s.rows - (s.cursorRow + 1)) s
      return s.touch
  | .clearEol => do
      let s ← s.clearEol
      return s.touch
  | .insertChars n => do
      let row ← s.grid[s.cursorRow]?
      let at' := min s.cursorCol s.cols
      let n := min n (s.cols - at')
      let cells := s.arrays row
      let cells := cells.take at' ++ List.replicate n " " ++ cells.drop at'
      if cells.length < s.cols then none
      else return (s.withRow row (cells.take s.cols)).touch
  | .deleteChars n => do
      let row ← s.grid[s.cursorRow]?
      let at' := min s.cursorCol s.cols
      let n := min n (s.cols - at')
      let cells := s.arrays row
      let cells := cells.take at' ++ cells.drop (at' + n)
      return (s.withRow row (cells ++ List.replicate (s.cols - cells.length) " ")).touch
  | .move x y =>
      some { s with cursorCol := min x (s.cols - 1), cursorRow := min y (s.rows - 1) }.touch
  | .unknown byte => some { s with unknownBytes := s.unknownBytes ++ [byte] }

def applyAll (s : ScreenObject) (ops : List Op3600) : Option ScreenObject := ops.foldlM apply s

def writeBytes (s : ScreenObject) (bytes : List Nat) : Option ScreenObject :=
  let (decoder, ops) := s.decoder.feed bytes
  { s with decoder := decoder }.applyAll ops

/-- The outer loop of `resize`. -/
def copyRows (old : List Nat) : Nat → Nat → ScreenObject → Option ScreenObject
  | _, 0, s => some s
  | r, n + 1, s => do
      let source ← old[r]?
      let row ← s.grid[r]?
      let s ← fillCells row (fun s c => (s.arrays source)[c]?) 0
        (min s.cols (s.arrays source).length) s
      copyRows old (r + 1) n s

def resize (s : ScreenObject) (cols rows : Int) : Option ScreenObject := do
  let cols := (max 1 cols).toNat
  let rows := (max 1 rows).toNat
  let old := s.grid
  let s := { s with cols := cols, rows := rows }.setBlankGrid
  let s ← copyRows old 0 (min rows old.length) s
  return { s with
    cursorRow := min s.cursorRow (rows - 1)
    cursorCol := min s.cursorCol cols }.touch

def reset (s : ScreenObject) : ScreenObject :=
  { s.setBlankGrid with
    cursorRow := 0
    cursorCol := 0
    beeps := 0
    decoder := .ground }.touch

/-- The constructor. -/
def new (cols rows : Option Int) : ScreenObject :=
  { cols := (max 1 (cols.getD 80)).toNat
    rows := (max 1 (rows.getD 24)).toNat
    arrays := fun _ => []
    allocated := 0
    grid := []
    cursorRow := 0
    cursorCol := 0
    version := 0
    beeps := 0
    unknownBytes := []
    decoder := .ground : ScreenObject }.setBlankGrid

/-- A call of one of the methods. -/
inductive Call where
  | apply (op : Op3600)
  | writeBytes (bytes : List Nat)
  | resize (cols rows : Int)
  | reset

def call (s : ScreenObject) : Call → Option ScreenObject
  | .apply op => s.apply op
  | .writeBytes bytes => s.writeBytes bytes
  | .resize cols rows => s.resize cols rows
  | .reset => some s.reset

/-- A grid of as many rows as there are to be, each an array of its own with as many cells of
one character, and the cursor on it or just past the edge. -/
structure GridInvariant (s : ScreenObject) : Prop where
  grid_length : s.grid.length = s.rows
  row_length : ∀ row ∈ s.grid, (s.arrays row).length = s.cols
  cell_length : ∀ row ∈ s.grid, ∀ cell ∈ s.arrays row, cell.length = 1
  cursorRow_lt : s.cursorRow < s.rows
  cursorCol_le : s.cursorCol ≤ s.cols
  nodup : s.grid.Nodup

/-! ### Arrays of their own -/

def contents (s : ScreenObject) : List (List String) := s.grid.map s.arrays

/-- No array is the grid's twice, and none is still to be made. -/
structure Separate (s : ScreenObject) : Prop where
  nodup : s.grid.Nodup
  allocated : ∀ row ∈ s.grid, row < s.allocated

section Rows

variable {s t : ScreenObject} {r row c n : Nat} {cells : List String}

/-- A change of one of different arrays changes one row. -/
theorem contents_withRow (h : s.Separate) (hrow : s.grid[r]? = some row) (cells : List String) :
    (s.withRow row cells).contents = s.contents.set r cells := by
  have hr : r < s.grid.length := (List.getElem?_eq_some_iff.mp hrow).1
  apply List.ext_getElem?
  intro j
  unfold contents withRow
  simp only [List.getElem?_set, List.getElem?_map, List.length_map]
  by_cases hj : r = j
  · subst hj
    rw [if_pos rfl, if_pos hr, hrow]
    exact congrArg some (Function.update_self _ _ _)
  · rw [if_neg hj]
    cases hother : s.grid[j]? with
    | none => rfl
    | some other =>
        have hne : other ≠ row := by
          intro heq
          exact hj ((List.getElem?_inj hr h.nodup).mp (by rw [hrow, hother, heq]))
        exact congrArg some (Function.update_of_ne hne _ _)

/-- A change of an array that is not in the grid changes nothing there. -/
theorem contents_withRow_of_not_mem (h : row ∉ s.grid) :
    (s.withRow row cells).contents = s.contents := by
  unfold contents withRow
  refine List.map_congr_left fun other hother => Function.update_of_ne ?_ _ _
  intro heq
  exact h (heq ▸ hother)

theorem contents_getElem? (hrow : s.grid[r]? = some row) : s.contents[r]? = some (s.arrays row) := by
  rw [contents, List.getElem?_map, hrow]
  rfl

theorem Separate.withRow (h : s.Separate) : (s.withRow row cells).Separate := ⟨h.nodup, h.allocated⟩

theorem Separate.not_mem (h : s.Separate) : s.allocated ∉ s.grid := fun hmem =>
  Nat.lt_irrefl _ (h.allocated _ hmem)

theorem withRow_withRow (cells cells' : List String) :
    (s.withRow row cells).withRow row cells' = s.withRow row cells' := by
  unfold ScreenObject.withRow
  simp only [Function.update_idem]

/-- The loop assigns one element after the other. -/
theorem fillCells_eq {value : ScreenObject → Nat → Option String} {f : Nat → String}
    (hvalue : ∀ cells, ∀ j, c ≤ j → j < c + n → value (s.withRow row cells) j = some (f j))
    (hlength : c + n ≤ cells.length) :
    fillCells row value c n (s.withRow row cells) =
      some (s.withRow row (cells.take c ++ (List.range' c n).map f ++ cells.drop (c + n))) := by
  induction n generalizing c cells with
  | zero =>
      rw [fillCells, List.range'_zero, List.map_nil, List.append_nil, Nat.add_zero,
        List.take_append_drop]
  | succ n ih =>
      have hself : (s.withRow row cells).arrays row = cells := Function.update_self _ _ _
      have hset : (s.withRow row cells).setCell row c (f c) =
          some (s.withRow row (cells.set c (f c))) := by
        rw [setCell, hself, if_pos (by omega), withRow_withRow]
      have hstep := @ih (c + 1) (cells.set c (f c))
        (fun cells j h1 h2 => hvalue cells j (by omega) (by omega)) (by
          rw [List.length_set]
          omega)
      have hset' : (cells.set c (f c)).take (c + 1) = cells.take c ++ [f c] := by
        rw [List.take_add_one, List.take_set_of_le le_rfl, List.getElem?_set_self (by omega)]
        rfl
      rw [fillCells, hvalue cells c le_rfl (by omega)]
      simp only [Option.bind_eq_bind, Option.bind_some]
      rw [hset, Option.bind_some, hstep, hset', List.drop_set_of_lt (by omega), List.range'_succ,
        List.map_cons, List.append_assoc (cells.take c), List.singleton_append,
        show c + 1 + n = c + (n + 1) by omega]

/-- A new array does not touch the grid. -/
theorem blankRow_contents (h : s.Separate) : s.blankRow.1.contents = s.contents :=
  contents_withRow_of_not_mem h.not_mem

theorem blankRow_arrays : s.blankRow.1.arrays s.blankRow.2 = List.replicate s.cols " " :=
  Function.update_self _ _ _

theorem blankRow_arrays_of_lt (h : row < s.allocated) :
    s.blankRow.1.arrays row = s.arrays row :=
  Function.update_of_ne (by omega) _ _

/-- Blank rows are new arrays, one after the other. -/
theorem blankRows_eq (s : ScreenObject) (n : Nat) :
    ∃ A, s.blankRows n = ({ s with arrays := A, allocated := s.allocated + n },
        List.range' s.allocated n) ∧
      (∀ row < s.allocated, A row = s.arrays row) ∧
      ∀ row ∈ List.range' s.allocated n, A row = List.replicate s.cols " " := by
  induction n with
  | zero => exact ⟨s.arrays, rfl, fun _ _ => rfl, fun row hrow => by simp at hrow⟩
  | succ n ih =>
      obtain ⟨A, hrows, hold, hnew⟩ := ih
      refine ⟨Function.update A (s.allocated + n) (List.replicate s.cols " "), ?_,
        fun row hrow => ?_, fun row hrow => ?_⟩
      · rw [blankRows, hrows, List.range'_concat, Nat.one_mul]
        rfl
      · rw [Function.update_of_ne (by omega), hold row hrow]
      · by_cases hlast : row = s.allocated + n
        · rw [hlast, Function.update_self]
        · have hmem : row ∈ List.range' s.allocated n := by
            rw [List.mem_range'_1] at hrow ⊢
            omega
          rw [Function.update_of_ne hlast, hnew row hmem]

/-- A blank grid is of new arrays. -/
theorem setBlankGrid_spec (s : ScreenObject) :
    s.setBlankGrid.Separate ∧
      s.setBlankGrid.contents = List.replicate s.rows (List.replicate s.cols " ") ∧
      (∀ row < s.allocated, s.setBlankGrid.arrays row = s.arrays row) ∧
      (∀ row < s.allocated, row ∉ s.setBlankGrid.grid) ∧
      ∃ A n grid, s.setBlankGrid = { s with arrays := A, allocated := n, grid := grid } := by
  obtain ⟨A, hrows, hold, hnew⟩ := s.blankRows_eq s.rows
  have hgrid : s.setBlankGrid = { s with
      arrays := A
      allocated := s.allocated + s.rows
      grid := List.range' s.allocated s.rows } := by
    rw [setBlankGrid, hrows]
  refine ⟨⟨?_, fun row hrow => ?_⟩, ?_, fun row hrow => ?_, fun row hrow => ?_, A, _, _, hgrid⟩
  · rw [hgrid]
    exact List.nodup_range'
  · rw [hgrid] at hrow ⊢
    rw [List.mem_range'_1] at hrow
    exact hrow.2
  · rw [hgrid, contents]
    rw [List.map_congr_left hnew, List.map_const', List.length_range']
  · rw [hgrid]
    exact hold row hrow
  · rw [hgrid]
    intro hmem
    rw [List.mem_range'_1] at hmem
    omega

/-- A new array in the place of another. -/
theorem setRow_blankRow (h : s.Separate) (hr : r < s.grid.length) :
    ∃ A n grid, s.blankRow.1.setRow r s.blankRow.2 =
        some { s with arrays := A, allocated := n, grid := grid } ∧
      { s with arrays := A, allocated := n, grid := grid }.Separate ∧
      { s with arrays := A, allocated := n, grid := grid }.contents =
        s.contents.set r (List.replicate s.cols " ") := by
  refine ⟨s.blankRow.1.arrays, s.allocated + 1, s.grid.set r s.allocated, if_pos hr,
    ⟨h.nodup.set h.not_mem, fun row hrow => ?_⟩, ?_⟩
  · rcases List.mem_or_eq_of_mem_set hrow with hrow | hrow
    · exact Nat.lt_succ_of_lt (h.allocated row hrow)
    · rw [hrow]
      exact Nat.lt_succ_self _
  · change (s.grid.set r s.allocated).map s.blankRow.1.arrays = _
    rw [List.map_set, ← blankRow_contents h]
    exact congrArg _ blankRow_arrays

/-- The loop of `clearEow` replaces the rows one after the other. -/
theorem blankBelow_spec (n : Nat) : ∀ {s : ScreenObject} {r : Nat}, s.Separate →
    r + n ≤ s.grid.length →
    ∃ A m grid, blankBelow r n s = some { s with arrays := A, allocated := m, grid := grid } ∧
      { s with arrays := A, allocated := m, grid := grid }.Separate ∧
      { s with arrays := A, allocated := m, grid := grid }.contents =
        s.contents.take r ++ List.replicate n (List.replicate s.cols " ") ++
          s.contents.drop (r + n) := by
  induction n with
  | zero =>
      intro s r h _
      refine ⟨s.arrays, s.allocated, s.grid, rfl, h, ?_⟩
      rw [List.replicate_zero, List.append_nil, Nat.add_zero, List.take_append_drop]
  | succ n ih =>
      intro s r h hn
      obtain ⟨A, m, grid, hset, hseparate, hcontents⟩ := setRow_blankRow h (r := r) (by omega)
      have hlength : grid.length = s.grid.length := by
        have hmap := congrArg List.length hcontents
        rw [contents, contents, List.length_set, List.length_map, List.length_map] at hmap
        exact hmap
      obtain ⟨A', m', grid', hrest, hseparate', hcontents'⟩ := ih hseparate (r := r + 1) (by
        rw [hlength]
        omega)
      refine ⟨A', m', grid', ?_, hseparate', hcontents'.trans ?_⟩
      · rw [blankBelow]
        change (s.blankRow.1.setRow r s.blankRow.2).bind _ = _
        rw [hset]
        exact hrest
      · have hr : r < s.contents.length := by
          rw [contents, List.length_map]
          omega
        rw [hcontents, List.drop_set_of_lt (by omega), List.take_add_one,
          List.take_set_of_le le_rfl, List.getElem?_set_self hr, List.replicate_succ,
          show r + 1 + n = r + (n + 1) by omega]
        simp only [Option.toList_some, List.append_assoc, List.cons_append, List.nil_append]

/-- What is copied into a row of a new grid. -/
def overlay (source cells : List String) : List String :=
  source.take cells.length ++ cells.drop source.length

theorem overlay_length (source cells : List String) :
    (overlay source cells).length = cells.length := by
  unfold overlay
  rw [List.length_append, List.length_take, List.length_drop]
  omega

/-- The inner loop of `resize`. -/
theorem fillCells_source {source : Nat} (hsource : source ≠ row)
    (hlength : (s.arrays row).length = s.cols) :
    fillCells row (fun s c => (s.arrays source)[c]?) 0 (min s.cols (s.arrays source).length) s =
      some (s.withRow row (overlay (s.arrays source) (s.arrays row))) := by
  have hself : s.withRow row (s.arrays row) = s := by
    unfold ScreenObject.withRow
    rw [Function.update_eq_self]
  have hfill := @fillCells_eq s row 0 (min s.cols (s.arrays source).length) (s.arrays row)
    (fun s c => (s.arrays source)[c]?) (fun j => (s.arrays source).getD j "")
    (fun cells j _ hj => by
      have hother : (s.withRow row cells).arrays source = s.arrays source :=
        Function.update_of_ne hsource _ _
      have hlt : j < (s.arrays source).length := by omega
      rw [hother, List.getD_eq_getElem?_getD, List.getElem?_eq_getElem hlt]
      rfl) (by omega)
  rw [hself] at hfill
  rw [hfill]
  congr 2
  unfold overlay
  rw [List.take_zero, List.nil_append, Nat.zero_add, hlength]
  congr 1
  · apply List.ext_getElem
    · rw [List.length_map, List.length_range', List.length_take]
    · intro j h1 h2
      rw [List.length_take] at h2
      rw [List.getElem_map, List.getElem_range', List.getElem_take,
        List.getD_eq_getElem?_getD, List.getElem?_eq_getElem (by omega)]
      simp
  · by_cases hle : s.cols ≤ (s.arrays source).length
    · rw [Nat.min_eq_left hle, List.drop_of_length_le (by omega), List.drop_of_length_le (by omega)]
    · rw [Nat.min_eq_right (by omega)]

/-- The rows of another grid are copied into this one's. -/
theorem copyRows_spec {old : List Nat} (n : Nat) : ∀ {s : ScreenObject} {r : Nat}, s.Separate →
    (∀ source ∈ old, source ∉ s.grid) → (∀ row ∈ s.grid, (s.arrays row).length = s.cols) →
    r + n ≤ old.length → r + n ≤ s.grid.length →
    ∃ A, copyRows old r n s = some { s with arrays := A } ∧
      ∀ j, { s with arrays := A }.contents[j]? =
        if r ≤ j ∧ j < r + n then
          (s.contents[j]?).map (overlay (s.arrays (old.getD j 0)))
        else s.contents[j]? := by
  induction n with
  | zero =>
      intro s r _ _ _ _ _
      refine ⟨s.arrays, rfl, fun j => ?_⟩
      rw [if_neg (by omega)]
  | succ n ih =>
      intro s r h hold hlength hn hn'
      have hsource : old[r]? = some (old[r]) := List.getElem?_eq_getElem (by omega)
      have hrow : s.grid[r]? = some (s.grid[r]) := List.getElem?_eq_getElem (by omega)
      set source := old[r] with hsourceDef
      set row := s.grid[r] with hrowDef
      have hmem : source ∈ old := List.mem_of_getElem? hsource
      have hrowMem : row ∈ s.grid := List.mem_of_getElem? hrow
      have hne : source ≠ row := fun heq => hold source hmem (heq ▸ hrowMem)
      have hfill := fillCells_source hne (hlength row hrowMem)
      set u := s.withRow row (overlay (s.arrays source) (s.arrays row)) with hu
      have hother : ∀ other ∈ old, u.arrays other = s.arrays other := by
        intro other hmem
        refine Function.update_of_ne ?_ _ _
        intro heq
        rw [heq] at hmem
        exact hold row hmem hrowMem
      have hu_length : ∀ other ∈ u.grid, (u.arrays other).length = u.cols := by
        intro other hmem
        by_cases heq : other = row
        · subst heq
          rw [hu, withRow]
          dsimp only
          rw [Function.update_self, overlay_length]
          exact hlength row hrowMem
        · rw [hu, withRow]
          dsimp only
          rw [Function.update_of_ne heq]
          exact hlength other hmem
      obtain ⟨A, hrest, hcontents⟩ := ih (s := u) (r := r + 1) h.withRow hold hu_length
        (by omega) (by
          change r + 1 + n ≤ s.grid.length
          omega)
      refine ⟨A, ?_, fun j => (hcontents j).trans ?_⟩
      · rw [copyRows, hsource, hrow]
        simp only [Option.bind_eq_bind, Option.bind_some]
        rw [hfill]
        exact hrest
      · have hcontentsU : u.contents =
            s.contents.set r (overlay (s.arrays source) (s.arrays row)) :=
          contents_withRow h hrow _
        rw [hcontentsU]
        by_cases hj : j = r
        · subst hj
          rw [if_neg (by omega), if_pos (by omega), contents_getElem? hrow,
            List.getElem?_set_self (by
              rw [contents, List.length_map]
              omega), List.getD_eq_getElem?_getD, hsource]
          rfl
        · rw [List.getElem?_set_ne (Ne.symm hj)]
          by_cases hin : r + 1 ≤ j ∧ j < r + 1 + n
          · have hlt : j < old.length := by omega
            rw [if_pos hin, if_pos (by omega), hother]
            rw [List.getD_eq_getElem?_getD, List.getElem?_eq_getElem hlt]
            exact List.getElem_mem hlt
          · rw [if_neg hin, if_neg (by omega)]

end Rows

/-! ### What the arrays show -/

/-- A row of characters as cells. -/
def text (row : List Char) : List String := row.map String.singleton

/-- The object shows the grid of characters. -/
structure Shows (s : ScreenObject) (S : Screen) : Prop where
  cols : s.cols = S.cols
  rows : s.rows = S.rows
  contents : s.contents = S.grid.map text
  cursorRow : s.cursorRow = S.cursorRow
  cursorCol : s.cursorCol = S.cursorCol
  version : s.version = S.version
  beeps : s.beeps = S.beeps
  unknownBytes : s.unknownBytes = S.unknownBytes

/-- A method ends, with arrays of its own that show this. -/
def Ends (result : Option ScreenObject) (S : Screen) : Prop :=
  ∃ t, result = some t ∧ t.Separate ∧ t.Shows S

@[simp] theorem text_blankRow (cols : Nat) : text (Terminal.blankRow cols) =
    List.replicate cols " " := by
  rw [text, Terminal.blankRow, List.map_replicate]
  rfl

section Shows

variable {s : ScreenObject} {S : Screen}

theorem Shows.touch (h : s.Shows S) : s.touch.Shows S.touch :=
  { h with version := congrArg (· + 1) h.version }

theorem Ends.touch {result : Option ScreenObject} (h : Ends result S) :
    Ends (result.map ScreenObject.touch) S.touch := by
  obtain ⟨t, rfl, hseparate, hshows⟩ := h
  exact ⟨t.touch, rfl, ⟨hseparate.nodup, hseparate.allocated⟩, hshows.touch⟩

/-- The row of the cursor, as an array and as characters. -/
theorem Shows.cursor (h : s.Shows S) (hS : S.WellFormed) :
    ∃ row R, s.grid[s.cursorRow]? = some row ∧ S.grid[S.cursorRow]? = some R ∧
      s.arrays row = text R ∧ R.length = S.cols := by
  have hlt : S.cursorRow < S.grid.length := hS.grid_length.symm ▸ hS.cursorRow_lt
  have hR : S.grid[S.cursorRow]? = some (S.grid[S.cursorRow]) := List.getElem?_eq_getElem hlt
  have hcontents : s.contents[s.cursorRow]? = some (text (S.grid[S.cursorRow])) := by
    rw [h.contents, h.cursorRow, List.getElem?_map, hR]
    rfl
  rw [ScreenObject.contents, List.getElem?_map] at hcontents
  obtain ⟨row, hrow, htext⟩ := Option.map_eq_some_iff.mp hcontents
  exact ⟨row, _, hrow, hR, htext, hS.row_length _ (List.getElem_mem hlt)⟩

/-- A change of the cursor's array is an edit of its row. -/
theorem Shows.edit (h : s.Shows S) (hseparate : s.Separate) {row : Nat} {R : List Char}
    {cells : List String} {f : List Char → List Char} (hrow : s.grid[s.cursorRow]? = some row)
    (hR : S.grid[S.cursorRow]? = some R) (hcells : cells = text (f R)) :
    (s.withRow row cells).Shows (S.editRow f) :=
  { h with
    contents := by
      rw [contents_withRow hseparate hrow, h.contents, h.cursorRow, hcells]
      change _ = (S.grid.modify S.cursorRow f).map text
      apply List.ext_getElem?
      intro j
      rw [List.getElem?_map, List.getElem?_modify, List.getElem?_set, List.getElem?_map,
        List.length_map]
      by_cases hj : S.cursorRow = j
      · subst hj
        rw [hR, if_pos rfl, if_pos (List.getElem?_eq_some_iff.mp hR).1]
        simp
      · simp [hj] }

theorem text_blankFrom (c : Nat) (row : List Char) :
    text (Screen.blankFrom c row) = (text row).take c ++ List.replicate (row.length - c) " " := by
  unfold text Screen.blankFrom
  rw [List.map_append, List.map_take, List.map_replicate]
  rfl

theorem text_insertBlanks (cols col n : Nat) (row : List Char) :
    text (Screen.insertBlanks cols col n row) =
      ((text row).take col ++ List.replicate n " " ++ (text row).drop col).take cols := by
  unfold text Screen.insertBlanks
  rw [List.map_take, List.map_append, List.map_append, List.map_take, List.map_replicate,
    List.map_drop]
  rfl

theorem text_deleteCells (cols col n : Nat) (row : List Char) :
    text (Screen.deleteCells cols col n row) =
      (text row).take col ++ (text row).drop (col + n) ++ List.replicate
        (cols - ((text row).take col ++ (text row).drop (col + n)).length) " " := by
  unfold text Screen.deleteCells
  simp only [List.map_append, List.map_take, List.map_drop, List.map_replicate, List.length_append,
    List.length_take, List.length_drop, List.length_map]
  rfl

/-- `#clearEol` blanks the rest of the row. -/
theorem clearEol_ends (hseparate : s.Separate) (h : s.Shows S) (hS : S.WellFormed) :
    Ends s.clearEol S.clearEol := by
  obtain ⟨row, R, hrow, hR, htext, hlength⟩ := h.cursor hS
  have hself : s.withRow row (s.arrays row) = s := by
    unfold ScreenObject.withRow
    rw [Function.update_eq_self]
  have hle := hS.cursorCol_le
  have hlen : (s.arrays row).length = s.cols := by
    rw [htext, text, List.length_map, hlength, h.cols]
  have hfill := @fillCells_eq s row s.cursorCol (s.cols - s.cursorCol) (s.arrays row)
    (fun _ _ => some " ") (fun _ => " ") (fun _ _ _ _ => rfl) (by
      rw [hlen, h.cols, h.cursorCol]
      omega)
  rw [hself] at hfill
  refine ⟨_, by
    rw [clearEol, hrow]
    exact hfill, hseparate.withRow, h.edit hseparate hrow hR ?_⟩
  rw [text_blankFrom, ← htext, hlength, List.map_const', List.length_range',
    List.drop_of_length_le (by omega), List.append_nil, h.cols, h.cursorCol]

/-- A character replaces one cell. -/
theorem char_ends (hseparate : s.Separate) (h : s.Shows S) (hS : S.WellFormed) (code : Nat) :
    Ends (s.apply (.char code)) (S.apply (.char code)) := by
  have hcols := h.cols
  have hcol := h.cursorCol
  unfold ScreenObject.apply Screen.apply
  dsimp only
  rw [hcols, hcol]
  by_cases hlt : S.cursorCol < S.cols
  · obtain ⟨row, R, hrow, hR, htext, hlength⟩ := h.cursor hS
    have hset : s.setCell row S.cursorCol (glyphString code) =
        some (s.withRow row ((s.arrays row).set S.cursorCol (glyphString code))) :=
      if_pos (by rw [htext, text, List.length_map, hlength]; exact hlt)
    have hcells : (s.arrays row).set S.cursorCol (glyphString code) =
        text (R.set S.cursorCol (glyphFor code)) := by
      rw [htext, glyphString_eq, text, text, List.map_set]
    have hshows := h.edit hseparate hrow hR (f := (·.set S.cursorCol (glyphFor code))) hcells
    rw [if_pos hlt, if_pos hlt, hrow]
    simp only [Option.bind_eq_bind, Option.bind_some]
    rw [hset]
    exact ⟨_, rfl, ⟨hseparate.nodup, hseparate.allocated⟩,
      { hshows.touch with cursorCol := congrArg₂ (fun a b => min (a + 1) b) hcol hcols }⟩
  · rw [if_neg hlt, if_neg hlt]
    exact ⟨_, rfl, ⟨hseparate.nodup, hseparate.allocated⟩,
      { h.touch with cursorCol := congrArg₂ (fun a b => min (a + 1) b) hcol hcols }⟩

theorem Shows.grid_length (h : s.Shows S) (hS : S.WellFormed) : s.grid.length = s.rows := by
  have hmap := congrArg List.length h.contents
  rw [ScreenObject.contents, List.length_map, List.length_map, hS.grid_length] at hmap
  exact hmap.trans h.rows.symm

/-- A newline puts a new array into the grid. -/
theorem newline_ends (hseparate : s.Separate) (h : s.Shows S) (hS : S.WellFormed) :
    Ends (s.apply .newline) (S.apply .newline) := by
  have hlength := h.grid_length hS
  have hrow := h.cursorRow ▸ h.rows ▸ hS.cursorRow_lt
  unfold ScreenObject.apply Screen.apply
  dsimp only
  by_cases hlast : s.rows - 1 ≤ s.cursorRow
  · rw [if_pos hlast, if_pos (h.rows ▸ h.cursorRow ▸ hlast)]
    refine ⟨_, rfl, ⟨?_, fun row hmem => ?_⟩, { h.touch with
      contents := ?_
      cursorRow := congrArg (· - 1) h.rows
      cursorCol := rfl }⟩
    · refine List.nodup_append.mpr ⟨hseparate.nodup.sublist (List.tail_sublist _),
        List.nodup_singleton _, ?_⟩
      intro row hmem other hother heq
      rw [heq, List.mem_singleton.mp hother] at hmem
      exact hseparate.not_mem (List.mem_of_mem_tail hmem)
    · rcases List.mem_append.mp hmem with hmem | hmem
      · exact Nat.lt_succ_of_lt (hseparate.allocated row (List.mem_of_mem_tail hmem))
      · rw [List.mem_singleton.mp hmem]
        exact Nat.lt_succ_self _
    · have hcontents := (blankRow_contents hseparate).trans h.contents
      have htail : s.grid.tail.map s.blankRow.1.arrays = (S.grid.map text).tail := by
        rw [← hcontents, List.map_tail]
        rfl
      have hnew : s.blankRow.1.arrays s.allocated = text (Terminal.blankRow S.cols) := by
        rw [text_blankRow, ← h.cols]
        exact blankRow_arrays
      change (s.grid.tail ++ [s.allocated]).map s.blankRow.1.arrays =
        (S.grid.tail ++ [Terminal.blankRow S.cols]).map text
      rw [List.map_append, List.map_append, htail, List.map_singleton, hnew, List.map_tail,
        List.map_singleton]
  · rw [if_neg hlast, if_neg (h.rows ▸ h.cursorRow ▸ hlast)]
    let u : ScreenObject := { s with cursorCol := 0, cursorRow := s.cursorRow + 1 }
    have hu : u.Separate := ⟨hseparate.nodup, hseparate.allocated⟩
    obtain ⟨A, n, grid, hset, hseparate', hcontents⟩ :=
      setRow_blankRow hu (r := s.cursorRow + 1) (by
        change s.cursorRow + 1 < s.grid.length
        omega)
    refine ⟨({ u with arrays := A, allocated := n, grid := grid } : ScreenObject).touch, ?_,
      ⟨hseparate'.nodup, hseparate'.allocated⟩, { h.touch with
        contents := ?_
        cursorRow := congrArg (· + 1) h.cursorRow
        cursorCol := rfl }⟩
    · change (u.blankRow.1.setRow (s.cursorRow + 1) u.blankRow.2).bind _ = _
      rw [hset]
      rfl
    · refine hcontents.trans ?_
      change s.contents.set _ (List.replicate s.cols " ") = List.map text (S.grid.set _ _)
      rw [h.contents, List.map_set, text_blankRow, h.cols, h.cursorRow]

/-- A blank grid is blank rows. -/
theorem setBlankGrid_shows (h : s.Shows S) :
    s.setBlankGrid.Shows { S with grid := blankGrid S.cols S.rows } := by
  obtain ⟨-, hcontents, -, -, A, n, grid, heq⟩ := s.setBlankGrid_spec
  rw [heq] at hcontents ⊢
  exact { h with
    contents := by
      rw [hcontents, blankGrid, List.map_replicate, text_blankRow, h.cols, h.rows] }

/-- The rows below the cursor are replaced, and the rest of its own row is blanked. -/
theorem clearEow_ends (hseparate : s.Separate) (h : s.Shows S) (hS : S.WellFormed) :
    Ends (s.apply .clearEow) (S.apply .clearEow) := by
  obtain ⟨t, ht, hseparate', hshows⟩ := clearEol_ends hseparate h hS
  have hS' := hS.clearEol
  have hlt : S.clearEol.cursorRow < S.clearEol.rows := hS'.cursorRow_lt
  have hlength : t.grid.length = S.clearEol.rows :=
    (hshows.grid_length hS').trans hshows.rows
  obtain ⟨A, m, grid, hbelow, hseparate'', hcontents⟩ :=
    blankBelow_spec (t.rows - (t.cursorRow + 1)) hseparate' (r := t.cursorRow + 1) (by
      rw [hshows.rows, hshows.cursorRow, hlength]
      omega)
  refine ⟨({ t with arrays := A, allocated := m, grid := grid } : ScreenObject).touch, ?_,
    ⟨hseparate''.nodup, hseparate''.allocated⟩, { hshows.touch with contents := ?_ }⟩
  · unfold ScreenObject.apply
    dsimp only
    rw [ht]
    change (blankBelow _ _ t).bind _ = _
    rw [hbelow]
    rfl
  · refine hcontents.trans ?_
    change _ = List.map text (S.clearEol.grid.take (S.cursorRow + 1) ++
      List.replicate (S.rows - (S.cursorRow + 1)) (Terminal.blankRow S.cols))
    have hdrop : t.contents.drop (t.cursorRow + 1 + (t.rows - (t.cursorRow + 1))) = [] := by
      apply List.drop_of_length_le
      rw [ScreenObject.contents, List.length_map, hlength, hshows.rows]
      omega
    rw [hdrop, List.append_nil, hshows.contents, hshows.rows, hshows.cursorRow, hshows.cols,
      List.map_append, List.map_take, List.map_replicate, text_blankRow]
    rfl

theorem insertChars_ends (hseparate : s.Separate) (h : s.Shows S) (hS : S.WellFormed) (n : Nat) :
    Ends (s.apply (.insertChars n)) (S.apply (.insertChars n)) := by
  obtain ⟨row, R, hrow, hR, htext, hlength⟩ := h.cursor hS
  have hedit := h.edit hseparate hrow hR
    (text_insertBlanks S.cols (min S.cursorCol S.cols)
      (min n (S.cols - min S.cursorCol S.cols)) R).symm
  unfold ScreenObject.apply Screen.apply
  dsimp only
  rw [hrow, h.cols, h.cursorCol]
  simp only [Option.bind_eq_bind, Option.bind_some]
  rw [if_neg, htext]
  · exact ⟨_, rfl, ⟨hseparate.nodup, hseparate.allocated⟩, hedit.touch⟩
  · rw [htext]
    simp only [List.length_append, List.length_take, List.length_replicate, List.length_drop, text,
      List.length_map, hlength]
    omega

theorem deleteChars_ends (hseparate : s.Separate) (h : s.Shows S) (hS : S.WellFormed) (n : Nat) :
    Ends (s.apply (.deleteChars n)) (S.apply (.deleteChars n)) := by
  obtain ⟨row, R, hrow, hR, htext, -⟩ := h.cursor hS
  have hedit := h.edit hseparate hrow hR
    (text_deleteCells S.cols (min S.cursorCol S.cols)
      (min n (S.cols - min S.cursorCol S.cols)) R).symm
  unfold ScreenObject.apply Screen.apply
  dsimp only
  rw [hrow, h.cols, h.cursorCol]
  simp only [Option.bind_eq_bind, Option.bind_some]
  rw [htext]
  exact ⟨_, rfl, ⟨hseparate.nodup, hseparate.allocated⟩, hedit.touch⟩

/-- **An operation never leaves its arrays**, and they show what it does to the grid. -/
theorem apply_ends (hseparate : s.Separate) (h : s.Shows S) (hS : S.WellFormed) (op : Op3600) :
    Ends (s.apply op) (S.apply op) := by
  cases op with
  | char code => exact char_ends hseparate h hS code
  | beep =>
      exact ⟨_, rfl, ⟨hseparate.nodup, hseparate.allocated⟩,
        { h.touch with beeps := congrArg (· + 1) h.beeps }⟩
  | newline => exact newline_ends hseparate h hS
  | clear =>
      have hblank := s.setBlankGrid_spec.1
      exact ⟨_, rfl, ⟨hblank.nodup, hblank.allocated⟩,
        { (setBlankGrid_shows h).touch with cursorRow := rfl, cursorCol := rfl }⟩
  | clearEow => exact clearEow_ends hseparate h hS
  | clearEol =>
      obtain ⟨t, ht, hends⟩ := (clearEol_ends hseparate h hS).touch
      refine ⟨t, ?_, hends⟩
      rw [← ht]
      unfold ScreenObject.apply
      dsimp only
      cases s.clearEol with
      | none => rfl
      | some u => rfl
  | insertChars n => exact insertChars_ends hseparate h hS n
  | deleteChars n => exact deleteChars_ends hseparate h hS n
  | move x y =>
      exact ⟨_, rfl, ⟨hseparate.nodup, hseparate.allocated⟩, { h.touch with
        cursorRow := congrArg (fun rows => min y (rows - 1)) h.rows
        cursorCol := congrArg (fun cols => min x (cols - 1)) h.cols }⟩
  | unknown byte =>
      exact ⟨_, rfl, ⟨hseparate.nodup, hseparate.allocated⟩,
        { h with unknownBytes := congrArg (· ++ [byte]) h.unknownBytes }⟩

/-- What fits of the old arrays is copied. -/
theorem resize_ends (hseparate : s.Separate) (h : s.Shows S) (cols rows : Int) :
    Ends (s.resize cols rows) (S.resize cols rows) := by
  let u : ScreenObject := { s with cols := (max 1 cols).toNat, rows := (max 1 rows).toNat }
  let U : Screen := { S with cols := (max 1 cols).toNat, rows := (max 1 rows).toNat }
  obtain ⟨hblank, hcontents, hold, hnew, A, n, grid, heq⟩ := u.setBlankGrid_spec
  have hlengths : s.grid.length = S.grid.length := by
    have hmap := congrArg List.length h.contents
    rw [ScreenObject.contents, List.length_map, List.length_map] at hmap
    exact hmap
  have hgrid : u.setBlankGrid.grid.length = u.rows := by
    have hmap := congrArg List.length hcontents
    rw [ScreenObject.contents, List.length_map, List.length_replicate] at hmap
    exact hmap
  have hcols : u.setBlankGrid.cols = u.cols := by rw [heq]
  obtain ⟨A', hcopy, hcopied⟩ := copyRows_spec (min u.rows s.grid.length) hblank (r := 0)
    (fun source hsource => hnew source (hseparate.allocated source hsource))
    (fun row hrow => by
      have hmem : u.setBlankGrid.arrays row ∈ u.setBlankGrid.contents :=
        List.mem_map_of_mem hrow
      rw [hcontents] at hmem
      rw [List.eq_of_mem_replicate hmem, List.length_replicate, hcols])
    (by omega) (by omega)
  let v : ScreenObject := { u.setBlankGrid with arrays := A' }
  have hv : v.contents = (U.resize cols rows).grid.map text := by
    apply List.ext_getElem?
    intro j
    refine (hcopied j).trans ?_
    change _ = ((((S.grid.take u.rows).map fun row => row.take u.cols ++
      List.replicate (u.cols - row.length) ' ') ++
        List.replicate (u.rows - S.grid.length) (Terminal.blankRow u.cols)).map text)[j]?
    rw [hcontents, List.map_append, List.map_replicate, text_blankRow, List.map_map,
      List.getElem?_append, List.length_map, List.length_take, List.getElem?_replicate,
      List.getElem?_replicate, List.getElem?_map, List.getElem?_take]
    by_cases hj : j < min u.rows s.grid.length
    · have hR : S.grid[j]? = some (S.grid[j]) := List.getElem?_eq_getElem (by omega)
      have hsource : s.grid[j]? = some (s.grid[j]) := List.getElem?_eq_getElem (by omega)
      have htext : s.arrays (s.grid[j]) = text (S.grid[j]) := by
        have hrow := contents_getElem? hsource
        rw [h.contents, List.getElem?_map, hR] at hrow
        exact (Option.some_inj.mp hrow).symm
      have hlt : s.grid[j] < s.allocated := hseparate.allocated _ (List.getElem_mem _)
      rw [if_pos (by omega), if_pos (by omega), if_pos (by omega), if_pos (by omega), hR,
        List.getD_eq_getElem?_getD, hsource]
      simp only [Option.getD_some, Option.map_some, Function.comp_apply]
      rw [hold _ hlt]
      change some (overlay (s.arrays (s.grid[j])) _) = _
      rw [htext, overlay, List.length_replicate, List.drop_replicate, text, List.length_map, text,
        List.map_append, List.map_take, List.map_replicate]
      rfl
    · have hpast : ¬ j < min u.rows S.grid.length := by omega
      rw [if_neg (by omega), if_neg hpast]
      by_cases hin : j < u.rows
      · rw [if_pos hin, if_pos (by omega)]
      · rw [if_neg hin, if_neg (by omega)]
  refine ⟨{ v with
      cursorRow := min v.cursorRow ((max 1 rows).toNat - 1)
      cursorCol := min v.cursorCol (max 1 cols).toNat }.touch, ?_,
    ⟨hblank.nodup, hblank.allocated⟩, ?_⟩
  · change (copyRows s.grid 0 (min u.rows s.grid.length) u.setBlankGrid).bind _ = _
    rw [hcopy]
    rfl
  · have hu : u.Shows U := { h with cols := rfl, rows := rfl }
    have hshows := setBlankGrid_shows hu
    exact { hshows.touch with
      contents := hv
      cursorRow := congrArg (fun row => min row ((max 1 rows).toNat - 1)) hshows.cursorRow
      cursorCol := congrArg (fun col => min col (max 1 cols).toNat) hshows.cursorCol }

theorem reset_ends (h : s.Shows S) : Ends (some s.reset) S.reset := by
  have hblank := s.setBlankGrid_spec.1
  exact ⟨_, rfl, ⟨hblank.nodup, hblank.allocated⟩,
    { (setBlankGrid_shows h).touch with cursorRow := rfl, cursorCol := rfl, beeps := rfl }⟩

end Shows

/-! ### Runs of the methods -/

/-- The arrays are the grid's own, and show one in shape. -/
def Sound (s : ScreenObject) : Prop := s.Separate ∧ ∃ S : Screen, S.WellFormed ∧ s.Shows S

theorem Ends.sound {result : Option ScreenObject} {S : Screen} (h : Ends result S)
    (hS : S.WellFormed) : ∃ t, result = some t ∧ t.Sound := by
  obtain ⟨t, rfl, hseparate, hshows⟩ := h
  exact ⟨t, rfl, hseparate, S, hS, hshows⟩

section Runs

variable {s : ScreenObject}

/-- The constructor makes a blank grid. -/
theorem new_sound (cols rows : Option Int) : (new cols rows).Sound := by
  let S : Screen := Screen.new (cols.getD 80).toNat (rows.getD 24).toNat
  let u : ScreenObject :=
    { cols := (max 1 (cols.getD 80)).toNat
      rows := (max 1 (rows.getD 24)).toNat
      arrays := fun _ => []
      allocated := 0
      grid := []
      cursorRow := 0
      cursorCol := 0
      version := 0
      beeps := 0
      unknownBytes := []
      decoder := .ground }
  have hu : u.Shows { S with grid := [] } :=
    { cols := by
        change (max 1 (cols.getD 80)).toNat = max 1 (cols.getD 80).toNat
        omega
      rows := by
        change (max 1 (rows.getD 24)).toNat = max 1 (rows.getD 24).toNat
        omega
      contents := rfl
      cursorRow := rfl
      cursorCol := rfl
      version := rfl
      beeps := rfl
      unknownBytes := rfl }
  exact ⟨u.setBlankGrid_spec.1, S, Screen.wellFormed_new _ _, setBlankGrid_shows hu⟩

theorem apply_sound (h : s.Sound) (op : Op3600) : ∃ t, s.apply op = some t ∧ t.Sound := by
  obtain ⟨hseparate, S, hS, hshows⟩ := h
  exact (apply_ends hseparate hshows hS op).sound (hS.apply op)

/-- The operations one after the other. -/
theorem applyAll_sound (ops : List Op3600) :
    ∀ {s : ScreenObject}, s.Sound → ∃ t, s.applyAll ops = some t ∧ t.Sound := by
  induction ops with
  | nil => exact fun h => ⟨_, rfl, h⟩
  | cons op ops ih =>
      intro s h
      obtain ⟨t, ht, hsound⟩ := apply_sound h op
      obtain ⟨t', ht', hsound'⟩ := ih hsound
      refine ⟨t', ?_, hsound'⟩
      rw [applyAll, List.foldlM_cons, ht]
      exact ht'

theorem writeBytes_sound (h : s.Sound) (bytes : List Nat) :
    ∃ t, s.writeBytes bytes = some t ∧ t.Sound := by
  obtain ⟨hseparate, S, hS, hshows⟩ := h
  exact applyAll_sound _ ⟨⟨hseparate.nodup, hseparate.allocated⟩, S, hS, { hshows with }⟩

theorem call_sound (h : s.Sound) (c : Call) : ∃ t, s.call c = some t ∧ t.Sound := by
  cases c with
  | apply op => exact apply_sound h op
  | writeBytes bytes => exact writeBytes_sound h bytes
  | resize cols rows =>
      obtain ⟨hseparate, S, hS, hshows⟩ := h
      exact (resize_ends hseparate hshows cols rows).sound (hS.resize cols rows)
  | reset =>
      obtain ⟨-, S, hS, hshows⟩ := h
      exact (reset_ends hshows).sound hS.reset

theorem calls_sound (calls : List Call) :
    ∀ {s : ScreenObject}, s.Sound → ∃ t, calls.foldlM call s = some t ∧ t.Sound := by
  induction calls with
  | nil => exact fun h => ⟨_, rfl, h⟩
  | cons c calls ih =>
      intro s h
      obtain ⟨t, ht, hsound⟩ := call_sound h c
      obtain ⟨t', ht', hsound'⟩ := ih hsound
      refine ⟨t', ?_, hsound'⟩
      rw [List.foldlM_cons, ht]
      exact ht'

/-- The shape of the characters is the shape of the arrays. -/
theorem Sound.gridInvariant (h : s.Sound) : s.GridInvariant := by
  obtain ⟨hseparate, S, hS, hshows⟩ := h
  have hrow : ∀ row ∈ s.grid, ∃ R ∈ S.grid, s.arrays row = text R := by
    intro row hmem
    have hcontents : s.arrays row ∈ s.contents := List.mem_map_of_mem hmem
    rw [hshows.contents] at hcontents
    obtain ⟨R, hR, htext⟩ := List.mem_map.mp hcontents
    exact ⟨R, hR, htext.symm⟩
  refine ⟨hshows.grid_length hS, fun row hmem => ?_, fun row hmem cell hcell => ?_, ?_, ?_,
    hseparate.nodup⟩
  · obtain ⟨R, hR, htext⟩ := hrow row hmem
    rw [htext, text, List.length_map, hS.row_length R hR, hshows.cols]
  · obtain ⟨R, hR, htext⟩ := hrow row hmem
    rw [htext] at hcell
    obtain ⟨ch, -, rfl⟩ := List.mem_map.mp hcell
    exact String.length_singleton
  · rw [hshows.cursorRow, hshows.rows]
    exact hS.cursorRow_lt
  · rw [hshows.cursorCol, hshows.cols]
    exact hS.cursorCol_le

end Runs

/-- **A screen keeps its grid in shape, each row an array of its own**, whatever its methods are
called with. -/
theorem gridInvariant_of_calls (cols rows : Option Int) (calls : List Call) :
    ∃ s, calls.foldlM call (new cols rows) = some s ∧ s.GridInvariant := by
  obtain ⟨s, hs, hsound⟩ := calls_sound calls (new_sound cols rows)
  exact ⟨s, hs, hsound.gridInvariant⟩

end ScreenObject

end Terminal
