import Mathlib
import OsxVlm.Library.Decimal

/-!
# What a caller is shown of the screen

A screen is rendered against the grid that the caller was last shown: in full
without its blank edges, as the rows that changed, or as unchanged.  The results
do not say how far down a full rendering begins, nor that a text is a rendering
of its own and not a list of changed rows; with that told, they determine the
grid (`read_latest`).
-/

namespace Terminal

open Decimal

/-- The text of a row. -/
abbrev Line := { text : List Char // '\n' ∉ text }

def blankLine : Line := ⟨[], by simp⟩

/-- Both ends are dropped; blank rows inside are content. -/
def trimBlankEdges (lines : List Line) : List Line :=
  (lines.dropWhile (· = blankLine)).rdropWhile (· = blankLine)

inductive ScreenMode where
  | auto
  | full
  | changed
  | none
  deriving DecidableEq

def joinLines (lines : List (List Char)) : List Char := ['\n'].intercalate lines

/-- The length of a string in code units. -/
def codeUnits (text : List Char) : Nat :=
  (text.map fun ch => if ch.toNat < 0x10000 then 1 else 2).sum

/-- The row `i`, blank where the grid has none. -/
def rowAt (lines : List Line) (i : Nat) : Line := lines[i]?.getD blankLine

structure ScreenRenderer where
  last : Option (List Line)

namespace ScreenRenderer

def new : ScreenRenderer := ⟨none⟩

def fullText (lines : List Line) : List Char := joinLines ((trimBlankEdges lines).map Subtype.val)

def changedRows (prev lines : List Line) : List Nat :=
  (List.range (max prev.length lines.length)).filter fun i => rowAt prev i ≠ rowAt lines i

def unchangedText : List Char := "(screen unchanged)".toList

def heading : List Char := "changed:\n".toList

/-- A row number, padded to two places, and the row. -/
def entry (i : Nat) (line : Line) : List Char :=
  (padded 1 i).leftpad 2 ' ' ++ '|' :: ' ' :: line.val

def diffText (prev lines : List Line) : List Char :=
  heading ++ joinLines ((changedRows prev lines).map fun i => entry i (rowAt lines i))

def render (r : ScreenRenderer) (lines : List Line) (mode : ScreenMode) :
    ScreenRenderer × Option (List Char) :=
  if mode = .none then (r, none)
  else
    let full := fullText lines
    (⟨some lines⟩,
      if mode = .full then some full
      else
        match r.last with
        | none => some full
        | some prev =>
            if changedRows prev lines = [] ∧ prev.length = lines.length then some unchangedText
            else
              let diff := diffText prev lines
              -- The cheaper one, unless the rows are asked for.
              if mode = .changed ∨ codeUnits diff < codeUnits full then some diff
              else some full)

end ScreenRenderer

/-! ### The reader -/

/-- A call of `render`. -/
structure RenderCall where
  lines : List Line
  mode : ScreenMode

/-- A result with the height of the grid, and how many blank rows a full rendering
leaves out above. -/
structure Shown where
  text : List Char
  rows : Nat
  top : Option Nat
  deriving DecidableEq

namespace ScreenRenderer

/-- The screen is shown whole, and not as changed rows or as unchanged. -/
def showsWhole (r : ScreenRenderer) (lines : List Line) (mode : ScreenMode) : Bool :=
  match r.last with
  | none => true
  | some prev =>
      mode = .full ||
        (mode ≠ .changed && ¬ (changedRows prev lines = [] ∧ prev.length = lines.length) &&
          ¬ codeUnits (diffText prev lines) < codeUnits (fullText lines))

def blankAbove (lines : List Line) : Nat := (lines.takeWhile (· = blankLine)).length

/-- What is seen of the calls. -/
def shown (r : ScreenRenderer) : List RenderCall → List Shown
  | [] => []
  | c :: calls =>
      let (next, text) := r.render c.lines c.mode
      let top := if r.showsWhole c.lines c.mode then some (blankAbove c.lines) else none
      (text.toList.map fun text => ⟨text, c.lines.length, top⟩) ++ next.shown calls

end ScreenRenderer

/-- The lines of the last grid that was rendered. -/
def latest (calls : List RenderCall) : Option (List (List Char)) :=
  (calls.filter (·.mode ≠ .none)).getLast?.map fun c => c.lines.map Subtype.val

namespace Shown

open ScreenRenderer

def readEntry (text : List Char) : Nat × List Char :=
  let rest := text.dropWhile (· = ' ')
  let digits := rest.takeWhile Char.isDigit
  (value digits, rest.drop (digits.length + 2))

/-- The grid after a result, from the one before it. -/
def read (grid : List (List Char)) (s : Shown) : List (List Char) :=
  match s.top with
  | some top =>
      let kept := if s.text = [] then [] else s.text.splitOn '\n'
      List.replicate top [] ++ kept ++ List.replicate (s.rows - top - kept.length) []
  | none =>
      if s.text = unchangedText then grid
      else
        let entries := ((s.text.drop heading.length).splitOn '\n').filter (· ≠ [])
        (List.range s.rows).map fun i =>
          ((entries.map readEntry).lookup i).getD (grid[i]?.getD [])

/-- A caller starts with no grid. -/
def readAll (results : List Shown) : Option (List (List Char)) :=
  results.foldl (fun grid s => some (s.read (grid.getD []))) none

end Shown

/-! ### Reading back -/

open ScreenRenderer

theorem readEntry_entry (i : Nat) (line : Line) :
    Shown.readEntry (entry i line) = (i, line.val) := by
  have hpad : (entry i line).dropWhile (· = ' ') = padded 1 i ++ '|' :: ' ' :: line.val := by
    have hfirst : ∀ c ∈ (padded 1 i ++ '|' :: ' ' :: line.val).head?, ¬ c = ' ' := by
      cases h : padded 1 i with
      | nil => simp
      | cons c cs =>
          have hdigit := isDigit_padded 1 i c (by simp [h])
          rintro d hd rfl
          simp only [List.cons_append, List.head?_cons, Option.mem_some_iff] at hd
          rw [hd] at hdigit
          exact absurd hdigit (by decide)
    unfold entry List.leftpad
    rw [List.append_assoc, List.dropWhile_append_of_pos (by simp +contextual)]
    exact List.dropWhile_eq_self_iff.mpr fun hl => by
      have := hfirst _ (List.head?_eq_some_head (List.length_pos_iff.mp hl))
      simpa [List.head_eq_getElem] using this
  have hdigits : (padded 1 i ++ '|' :: ' ' :: line.val).takeWhile Char.isDigit = padded 1 i :=
    takeWhile_padded (by simp)
  simp only [Shown.readEntry, hpad, hdigits, value_padded, Prod.mk.injEq, true_and]
  rw [List.drop_append, List.drop_eq_nil_of_le (by omega)]
  simp

/-- No newline is in an entry, and it is not empty. -/
theorem entry_ne_nil (i : Nat) (line : Line) : entry i line ≠ [] := by
  simp [entry]

theorem newline_notMem_entry (i : Nat) (line : Line) : '\n' ∉ entry i line := by
  intro h
  unfold entry List.leftpad at h
  simp only [List.mem_append, List.mem_replicate, List.mem_cons] at h
  rcases h with (⟨-, h⟩ | h) | h | h | h
  · exact absurd h (by decide)
  · exact absurd (isDigit_padded 1 i _ h) (by decide)
  · exact absurd h (by decide)
  · exact absurd h (by decide)
  · exact line.property h

/-- What is dropped of a grid is blank. -/
theorem trimBlankEdges_spec (lines : List Line) :
    List.replicate (blankAbove lines) blankLine ++ trimBlankEdges lines ++
      List.replicate (lines.length - blankAbove lines - (trimBlankEdges lines).length) blankLine =
      lines := by
  have habove : lines.takeWhile (· = blankLine) = List.replicate (blankAbove lines) blankLine :=
    List.eq_replicate_iff.mpr ⟨rfl, fun x hx => by simpa using List.mem_takeWhile_imp hx⟩
  have hbelow : (lines.dropWhile (· = blankLine)).rtakeWhile (· = blankLine) =
      List.replicate ((lines.dropWhile (· = blankLine)).rtakeWhile (· = blankLine)).length
        blankLine :=
    List.eq_replicate_iff.mpr ⟨rfl, fun x hx => by simpa using List.mem_rtakeWhile_imp hx⟩
  have hwhole : lines.takeWhile (· = blankLine) ++ (trimBlankEdges lines ++
      (lines.dropWhile (· = blankLine)).rtakeWhile (· = blankLine)) = lines := by
    rw [trimBlankEdges, List.rdropWhile_append_rtakeWhile, List.takeWhile_append_dropWhile]
  have hlength := congrArg List.length hwhole
  simp only [List.length_append] at hlength
  have hcount : ((lines.dropWhile (· = blankLine)).rtakeWhile (· = blankLine)).length =
      lines.length - blankAbove lines - (trimBlankEdges lines).length := by
    unfold blankAbove
    omega
  rw [← hcount, ← hbelow, ← habove, List.append_assoc]
  exact hwhole

theorem splitOn_joinLines {lines : List (List Char)} (hne : lines ≠ [])
    (h : ∀ line ∈ lines, '\n' ∉ line) : (joinLines lines).splitOn '\n' = lines :=
  List.splitOn_intercalate '\n' h hne

/-- The last line that is kept is not blank, so a text without lines is an empty one. -/
theorem read_fullText (lines : List Line) :
    (if fullText lines = [] then [] else (fullText lines).splitOn '\n') =
      (trimBlankEdges lines).map Subtype.val := by
  by_cases htrim : trimBlankEdges lines = []
  · simp [fullText, htrim, joinLines]
  · have hsplit : (fullText lines).splitOn '\n' = (trimBlankEdges lines).map Subtype.val := by
      refine splitOn_joinLines (mt List.map_eq_nil_iff.mp htrim) fun line hline => ?_
      obtain ⟨l, -, rfl⟩ := List.mem_map.mp hline
      exact l.property
    have htext : fullText lines ≠ [] := by
      intro hnil
      rw [hnil, List.splitOn_nil] at hsplit
      have hlast : (trimBlankEdges lines).getLast htrim = blankLine := by
        obtain ⟨l, hl⟩ : ∃ l, trimBlankEdges lines = [l] :=
          List.length_eq_one_iff.mp (by simpa using (congrArg List.length hsplit).symm)
        simp only [hl, List.map_cons, List.map_nil, List.cons.injEq, and_true] at hsplit
        simp only [hl, List.getLast_singleton]
        exact Subtype.ext hsplit.symm
      have hnot := List.rdropWhile_last_not _ _ htrim
      exact hnot (decide_eq_true hlast)
    rw [if_neg htext, hsplit]

/-- A full rendering tells the grid, once the reader knows where it begins. -/
theorem read_whole (grid : List (List Char)) (lines : List Line) :
    Shown.read grid ⟨fullText lines, lines.length, some (blankAbove lines)⟩ =
      lines.map Subtype.val := by
  simp only [Shown.read, read_fullText]
  conv_rhs => rw [← trimBlankEdges_spec lines]
  simp [blankLine]

theorem lookup_graph {α : Type*} (f : Nat → α) (rows : List Nat) (i : Nat) :
    (rows.map fun j => (j, f j)).lookup i = if i ∈ rows then some (f i) else none := by
  induction rows with
  | nil => rfl
  | cons j rows ih =>
      simp only [List.map_cons, List.lookup_cons, ih, List.mem_cons]
      by_cases h : i = j
      · simp [h]
      · have hbeq : (i == j) = false := by simpa using h
        simp [hbeq, h]

theorem drop_heading (text : List Char) : (heading ++ text).drop heading.length = text := by
  simp

/-- The entries of a diff. -/
theorem diff_entries (prev lines : List Line) :
    ((((diffText prev lines).drop heading.length).splitOn '\n').filter (· ≠ [])).map
        Shown.readEntry =
      (changedRows prev lines).map fun i => (i, (rowAt lines i).val) := by
  rw [diffText, drop_heading]
  by_cases hrows : changedRows prev lines = []
  · simp [hrows, joinLines]
  · rw [splitOn_joinLines (by simpa using hrows) (by
      intro line hline
      obtain ⟨i, -, rfl⟩ := List.mem_map.mp hline
      exact newline_notMem_entry i _)]
    rw [List.filter_eq_self.mpr (by
      intro line hline
      obtain ⟨i, -, rfl⟩ := List.mem_map.mp hline
      simpa using entry_ne_nil i _)]
    simp [readEntry_entry]

theorem mem_changedRows {prev lines : List Line} {i : Nat} :
    i ∈ changedRows prev lines ↔
      i < max prev.length lines.length ∧ rowAt prev i ≠ rowAt lines i := by
  simp [changedRows]

theorem rowAt_val (lines : List Line) (i : Nat) :
    ((lines.map Subtype.val)[i]?).getD [] = (rowAt lines i).val := by
  rw [List.getElem?_map, rowAt]
  cases lines[i]? <;> rfl

theorem heading_head : heading.head? = some 'c' := by decide

theorem unchangedText_head : unchangedText.head? = some '(' := by decide

theorem diffText_ne (prev lines : List Line) : diffText prev lines ≠ unchangedText := by
  intro h
  have hhead := congrArg List.head? h
  rw [diffText, List.head?_append, heading_head, unchangedText_head] at hhead
  exact absurd hhead (by simp)

/-- The changed rows tell the grid to a reader who knows the one before. -/
theorem read_diff (prev lines : List Line) :
    Shown.read (prev.map Subtype.val) ⟨diffText prev lines, lines.length, none⟩ =
      lines.map Subtype.val := by
  unfold Shown.read
  dsimp only
  rw [if_neg (diffText_ne prev lines), diff_entries]
  apply List.ext_getElem (by simp)
  intro i hi _
  have hlt : i < lines.length := by simpa using hi
  have hrow : lines[i].val = (rowAt lines i).val := by simp [rowAt, hlt]
  rw [List.getElem_map, List.getElem_range, List.getElem_map, hrow,
    lookup_graph (fun i => (rowAt lines i).val), rowAt_val]
  by_cases hmem : i ∈ changedRows prev lines
  · rw [if_pos hmem, Option.getD_some]
  · have hsame : rowAt prev i = rowAt lines i := by
      by_contra hdiff
      exact hmem (mem_changedRows.mpr ⟨by omega, hdiff⟩)
    rw [if_neg hmem, Option.getD_none, hsame]

/-- Rows that are the same in grids of one height. -/
theorem eq_of_changedRows_nil {prev lines : List Line} (h : changedRows prev lines = [])
    (hlength : prev.length = lines.length) : prev = lines := by
  apply List.ext_getElem hlength
  intro i hi hi'
  have hsame : rowAt prev i = rowAt lines i := by
    by_contra hdiff
    have := mem_changedRows.mpr ⟨by omega, hdiff⟩
    simp [h] at this
  simpa [rowAt, hi, hi'] using hsame

theorem read_unchanged (grid : List (List Char)) (rows : Nat) :
    Shown.read grid ⟨unchangedText, rows, none⟩ = grid := by
  simp [Shown.read]

/-- **One call**: what it shows tells the grid to a reader who has the one before. -/
theorem read_render {r : ScreenRenderer} {grid : List (List Char)} {lines : List Line}
    {mode : ScreenMode} (hmode : mode ≠ .none)
    (hgrid : ∀ prev, r.last = some prev → grid = prev.map Subtype.val) :
    ∃ text, r.render lines mode = (⟨some lines⟩, some text) ∧
      Shown.read grid ⟨text, lines.length,
        if r.showsWhole lines mode then some (blankAbove lines) else none⟩ =
        lines.map Subtype.val := by
  cases hlast : r.last with
  | none =>
      refine ⟨fullText lines, by simp [render, hmode, hlast], ?_⟩
      rw [showsWhole, hlast, if_pos rfl, read_whole]
  | some prev =>
      obtain rfl := hgrid prev hlast
      by_cases hfull : mode = .full
      · refine ⟨fullText lines, by simp [render, hfull], ?_⟩
        rw [if_pos (by simp [showsWhole, hlast, hfull]), read_whole]
      by_cases hsame : changedRows prev lines = [] ∧ prev.length = lines.length
      · refine ⟨unchangedText, by simp [render, hmode, hfull, hlast, hsame], ?_⟩
        rw [if_neg (by simp [showsWhole, hlast, hfull, hsame]), read_unchanged,
          eq_of_changedRows_nil hsame.1 hsame.2]
      by_cases hdiff : mode = .changed ∨ codeUnits (diffText prev lines) < codeUnits (fullText lines)
      · refine ⟨diffText prev lines, by simp [render, hmode, hfull, hlast, hsame, hdiff], ?_⟩
        rw [if_neg (by
          rcases hdiff with hdiff | hdiff <;> simp [showsWhole, hlast, hfull, hdiff]), read_diff]
      · refine ⟨fullText lines, by simp [render, hmode, hfull, hlast, hsame, hdiff], ?_⟩
        obtain ⟨hchanged, hcost⟩ := not_or.mp hdiff
        rw [if_pos (by simp [showsWhole, hlast, hfull, hsame, hchanged, hcost]), read_whole]

theorem latest_cons (c : RenderCall) (calls : List RenderCall) :
    latest (c :: calls) =
      if c.mode = .none then latest calls
      else some ((latest calls).getD (c.lines.map Subtype.val)) := by
  unfold latest
  by_cases hmode : c.mode = .none
  · simp [hmode]
  · rw [if_neg hmode, List.filter_cons_of_pos (by simpa using hmode), List.getLast?_cons]
    cases (calls.filter (·.mode ≠ .none)).getLast? <;> rfl

/-- A reader whose grid is the renderer's goes on to the last one. -/
theorem foldl_read (calls : List RenderCall) : ∀ (r : ScreenRenderer),
    (r.shown calls).foldl (fun grid s => some (s.read (grid.getD [])))
        (r.last.map (·.map Subtype.val)) =
      (latest calls).or (r.last.map (·.map Subtype.val)) := by
  induction calls with
  | nil => intro r; rfl
  | cons c calls ih =>
      intro r
      rw [latest_cons, shown]
      by_cases hmode : c.mode = .none
      · simpa [render, hmode] using ih r
      · have hgrid : ∀ prev, r.last = some prev →
            (r.last.map (·.map Subtype.val)).getD [] = prev.map Subtype.val :=
          fun prev hprev => by simp [hprev]
        obtain ⟨text, hrender, hread⟩ :
            ∃ text, r.render c.lines c.mode = (⟨some c.lines⟩, some text) ∧
              Shown.read ((r.last.map (·.map Subtype.val)).getD []) ⟨text, c.lines.length,
                if r.showsWhole c.lines c.mode then some (blankAbove c.lines) else none⟩ =
                c.lines.map Subtype.val :=
          read_render hmode hgrid
        have htail := ih ⟨some c.lines⟩
        simp only [Option.map_some] at htail
        simp only [hrender, Option.toList_some, List.map_cons, List.map_nil, List.cons_append,
          List.nil_append, List.foldl_cons, hread, htail, hmode, if_false]
        cases latest calls <;> rfl

/-- **The screen diffs determine the screen** for a reader who also knows of each result
whether it is a rendering of its own and how many blank rows that leaves out above: the
reader has the lines of the last grid that was rendered. -/
theorem read_latest (calls : List RenderCall) :
    Shown.readAll (ScreenRenderer.new.shown calls) = latest calls := by
  have hfold := foldl_read calls ScreenRenderer.new
  rw [Shown.readAll]
  simpa [ScreenRenderer.new] using hfold

/-- The results alone, with the heights of the grids. -/
def results (r : ScreenRenderer) (calls : List RenderCall) : List (List Char × Nat) :=
  (r.shown calls).map fun s => (s.text, s.rows)

/-- One row of text above a blank one is shown as the same row below it; and a screen may
itself look like a list of changed rows. -/
theorem results_ambiguous :
    (¬ ∀ calls calls' : List RenderCall,
      results .new calls = results .new calls' → latest calls = latest calls') ∧
    ∃ calls calls' : List RenderCall, results .new calls = results .new calls' ∧
      (∀ c ∈ calls ++ calls', blankAbove c.lines = 0) ∧ latest calls ≠ latest calls' := by
  let a : Line := ⟨['a'], by decide⟩
  let b : Line := ⟨['b'], by decide⟩
  let top : Line := ⟨"changed:".toList, by decide⟩
  let row : Line := ⟨" 0| b".toList, by decide⟩
  constructor
  · intro h
    have heq := h [⟨[a, blankLine], .auto⟩] [⟨[blankLine, a], .auto⟩] (by decide)
    exact absurd heq (by decide)
  · exact ⟨[⟨[a, blankLine], .auto⟩, ⟨[b, blankLine], .changed⟩],
      [⟨[a, blankLine], .auto⟩, ⟨[top, row], .full⟩], by decide, by decide, by decide⟩

end Terminal
