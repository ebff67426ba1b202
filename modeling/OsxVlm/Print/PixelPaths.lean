import Mathlib

/-!
# Pixel outlines

`psvec` outlines the ink of a bitmap by rectangles, one for each vertical stack of
identical row runs, and checks an outline by scanning it at the pixel centres.  The
numbers of the check are halves of integers, or quotients by which zero is divided.
-/

namespace Psvec

/-- `bit_rows`: the bits of a raster, row by row. -/
def bitRows (w h : Nat) (raster : List UInt8) : List (List Nat) :=
  let stride := w / 8
  (List.range h).map fun r =>
    (List.range w).map fun c =>
      ((raster.getD (r * stride + (c >>> 3)) 0).toNat >>> (7 - (c &&& 7))) &&& 1

/-! ### The sweep -/

/-- The first column of a run and the one behind it. -/
abbrev Span := Nat × Nat

/-- The runs of ink of a row, from column `c` on. -/
def spans : List Nat → Nat → List Span
  | [], _ => []
  | b :: line, c =>
      if b ≠ 0 then
        let e := c + 1 + (line.takeWhile (· ≠ 0)).length
        (c, e) :: spans (line.dropWhile (· ≠ 0)) e
      else spans line (c + 1)
termination_by line => line.length
decreasing_by
  · simp only [List.length_cons]
    have := (List.dropWhile_sublist (p := (· ≠ 0)) (l := line)).length_le
    omega
  · simp only [List.length_cons]
    omega

structure Rect where
  x0 : Nat
  y0 : Nat
  x1 : Nat
  y1 : Nat
  deriving DecidableEq

structure Sweep where
  /-- The runs that go on, with their starting rows. -/
  openRuns : List (Span × Nat) := []
  rects : List Rect := []

def setDefault (openRuns : List (Span × Nat)) (span : Span) (r : Nat) : List (Span × Nat) :=
  if span ∈ openRuns.map Prod.fst then openRuns else openRuns ++ [(span, r)]

/-- One row.  The set of its runs is walked in the order in which they were found; the
rectangles are sorted in the end. -/
def Sweep.row (s : Sweep) (line : List Nat) (r : Nat) : Sweep :=
  let here := spans line 0
  { rects := s.rects ++ (s.openRuns.filter fun o => o.1 ∉ here).map fun o =>
      ⟨o.1.1, o.2, o.1.2, r⟩
    openRuns := here.foldl (fun openRuns span => setDefault openRuns span r)
      (s.openRuns.filter fun o => o.1 ∈ here) }

def Sweep.rows (s : Sweep) : List (List Nat) → Nat → Sweep
  | [], _ => s
  | line :: lines, r => (s.row line r).rows lines (r + 1)

/-- The runs that end before row `r`. -/
def Sweep.closed (s : Sweep) (here : List Span) : List (Span × Nat) :=
  s.openRuns.filter fun o => o.1 ∉ here

def Sweep.kept (s : Sweep) (here : List Span) : List (Span × Nat) :=
  s.openRuns.filter fun o => o.1 ∈ here

/-- The runs that begin in row `r`. -/
def Sweep.fresh (s : Sweep) (here : List Span) (r : Nat) : List (Span × Nat) :=
  (here.filter fun span => span ∉ (s.kept here).map Prod.fst).map (·, r)

/-- A step of an outline behind its start. -/
inductive Segment where
  | l (x y : ℚ)
  | c (x1 y1 x2 y2 x3 y3 : ℚ)

structure Path where
  start : ℚ × ℚ
  segments : List Segment

def Rect.path (r : Rect) : Path where
  start := (r.x0, r.y0)
  segments := [.l r.x1 r.y0, .l r.x1 r.y1, .l r.x0 r.y1]

/-- The order of the key `(y0, x0)`. -/
def Rect.le (a b : Rect) : Bool := decide (a.y0 < b.y0 ∨ a.y0 = b.y0 ∧ a.x0 ≤ b.x0)

def pixelRects (w h : Nat) (raster : List UInt8) : List Rect :=
  let rows := bitRows w h raster ++ [List.replicate w 0]
  (Sweep.rows {} rows 0).rects.mergeSort Rect.le

/-- `pixel_paths` -/
def pixelPaths (w h : Nat) (raster : List UInt8) : List Path := (pixelRects w h raster).map Rect.path

/-! ### The check -/

abbrev Point := ℚ × ℚ

/-- The end points of the lines a segment is flattened to. -/
def Segment.points (p : Point) (steps : Nat) : Segment → List Point
  | .l x y => [(x, y)]
  | .c x1 y1 x2 y2 x3 y3 =>
      (List.range steps).map fun k =>
        let t : ℚ := (k + 1) / steps
        let u := 1 - t
        (u ^ 3 * p.1 + 3 * u * u * t * x1 + 3 * u * t * t * x2 + t ^ 3 * x3,
          u ^ 3 * p.2 + 3 * u * u * t * y1 + 3 * u * t * t * y2 + t ^ 3 * y3)

/-- The lines from a point along others, and the last point. -/
def polyline (p : Point) : List Point → List (Point × Point) × Point
  | [] => ([], p)
  | q :: qs =>
      let r := polyline q qs
      ((p, q) :: r.1, r.2)

def flattenSegments (steps : Nat) (p : Point) : List Segment → List (Point × Point) × Point
  | [] => ([], p)
  | seg :: segs =>
      let first := polyline p (seg.points p steps)
      let rest := flattenSegments steps first.2 segs
      (first.1 ++ rest.1, rest.2)

def Path.flatten (steps : Nat) (path : Path) : List (Point × Point) :=
  let r := flattenSegments steps path.start path.segments
  if r.2 ≠ path.start then r.1 ++ [(r.2, path.start)] else r.1

def flatten (paths : List Path) : List (Point × Point) := paths.flatMap (Path.flatten 8)

/-- Where a line crosses the height `y`, and which way. -/
def crossing (y : ℚ) (seg : Point × Point) : Option (ℚ × Int) :=
  let ((x0, y0), (x1, y1)) := seg
  if decide (y0 ≤ y) ≠ decide (y1 ≤ y) then
    some (x0 + (y - y0) * (x1 - x0) / (y1 - y0), if y1 > y0 then 1 else -1)
  else none

/-- The order of pairs. -/
def pairLe (a b : ℚ × Int) : Bool := decide (a.1 < b.1 ∨ a.1 = b.1 ∧ a.2 ≤ b.2)

/-- Takes in the crossings up to `x`. -/
def advance (x : ℚ) : List (ℚ × Int) → Int → List (ℚ × Int) × Int
  | [], wind => ([], wind)
  | p :: xs, wind => if p.1 ≤ x then advance x xs (wind + p.2) else (p :: xs, wind)

structure Count where
  diff : Nat := 0
  ink : Nat := 0

/-- The columns of a row from `c` on. -/
def scanColumns : List Nat → Nat → List (ℚ × Int) → Int → Count → Count
  | [], _, _, _, n => n
  | on :: line, c, xs, wind, n =>
      let (xs, wind) := advance (c + 1 / 2) xs wind
      scanColumns line (c + 1) xs wind
        { diff := n.diff + if (on ≠ 0) ≠ (wind ≠ 0) then 1 else 0, ink := n.ink + on }

def scanRows (segs : List (Point × Point)) : List (List Nat) → Nat → Count → Count
  | [], _, n => n
  | line :: lines, r, n =>
      let xs := (segs.filterMap (crossing (r + 1 / 2))).mergeSort pairLe
      scanRows segs lines (r + 1) (scanColumns line 0 xs 0 n)

/-- `mismatch`: the differing pixels and the ink pixels. -/
def mismatch (w h : Nat) (raster : List UInt8) (paths : List Path) : Count :=
  scanRows (flatten paths) (bitRows w h raster) 0 {}

end Psvec
