import Mathlib
import OsxVlm.Print.PixelPaths

/-!
# The outline is exact

Every ink pixel lies in one rectangle and every other pixel in none: the runs of a row
are counted column by column, the rows swept so far pixel by pixel.  The crossings of a
row then sum up, from the left to a column, to minus the number of rectangles there.
-/

namespace Psvec

/-! ### Runs -/

/-- The run has the column `c`. -/
def Span.has (c : Nat) (s : Span) : Bool := decide (s.1 ≤ c ∧ c < s.2)

/-- The bit of a row at a column. -/
def inkAt (line : List Nat) (c : Nat) : Prop := line.getD c 0 ≠ 0

instance (line : List Nat) (c : Nat) : Decidable (inkAt line c) :=
  inferInstanceAs (Decidable (_ ≠ _))

theorem span_bounds {line : List Nat} {c : Nat} {s : Span} (h : s ∈ spans line c) :
    c ≤ s.1 ∧ s.1 < s.2 ∧ s.2 ≤ c + line.length := by
  fun_induction spans line c with
  | case1 => simp at h
  | case2 b line c hb e ih =>
      have hlen := congrArg List.length (List.takeWhile_append_dropWhile (p := (· ≠ 0)) (l := line))
      rw [List.length_append] at hlen
      simp only [List.length_cons]
      rcases List.mem_cons.mp h with rfl | h
      · dsimp only
        omega
      · have := ih h
        omega
  | case3 b line c hb ih =>
      have := ih h
      simp only [List.length_cons]
      omega

theorem countP_spans_below {line : List Nat} {c k : Nat} (hk : k < c) :
    (spans line c).countP (Span.has k) = 0 := by
  rw [List.countP_eq_zero]
  intro s hs
  have := span_bounds hs
  simp only [Span.has, decide_eq_true_eq]
  omega

theorem inkAt_takeWhile {line : List Nat} {k : Nat} (hk : k < (line.takeWhile (· ≠ 0)).length) :
    inkAt line k := by
  induction line generalizing k with
  | nil => exact absurd hk (Nat.not_lt_zero k)
  | cons b line ih =>
      by_cases hb : b = 0
      · simp [hb] at hk
      · cases k with
        | zero => exact hb
        | succ k =>
            rw [List.takeWhile_cons_of_pos (by simpa using hb), List.length_cons] at hk
            exact ih (by omega)

theorem inkAt_dropWhile {line : List Nat} {k : Nat}
    (hk : (line.takeWhile (· ≠ 0)).length ≤ k) :
    inkAt line k ↔ inkAt (line.dropWhile (· ≠ 0)) (k - (line.takeWhile (· ≠ 0)).length) := by
  unfold inkAt
  conv_lhs => rw [← List.takeWhile_append_dropWhile (p := (· ≠ 0)) (l := line)]
  rw [List.getD_append_right _ _ _ _ hk]

/-- A column is in one run if there is ink, and otherwise in none. -/
theorem countP_spans (line : List Nat) (c k : Nat) :
    (spans line c).countP (Span.has (c + k)) = if inkAt line k then 1 else 0 := by
  fun_induction spans line c generalizing k with
  | case1 => simp [inkAt]
  | case2 b line c hb e ih =>
      rw [List.countP_cons]
      by_cases hk : k < e - c
      · have hink : inkAt (b :: line) k := by
          cases k with
          | zero => exact hb
          | succ k =>
              have hrun : k < (line.takeWhile (· ≠ 0)).length := by omega
              have hrest : inkAt line k := inkAt_takeWhile hrun
              exact hrest
        have hhas : Span.has (c + k) (c, e) = true := by
          simp only [Span.has, decide_eq_true_eq]
          omega
        rw [countP_spans_below (by omega), if_pos hhas, if_pos hink]
      · obtain ⟨j, rfl⟩ : ∃ j, k = j + 1 := ⟨k - 1, by omega⟩
        have hhas : ¬ Span.has (c + (j + 1)) (c, e) = true := by
          simp only [Span.has, decide_eq_true_eq]
          omega
        have hrest := ih (j - (line.takeWhile (· ≠ 0)).length)
        have hcolumn : e + (j - (line.takeWhile (· ≠ 0)).length) = c + (j + 1) := by omega
        rw [hcolumn] at hrest
        rw [hrest, if_neg hhas, Nat.add_zero]
        exact if_congr (inkAt_dropWhile (by omega)).symm rfl rfl
  | case3 b line c hb ih =>
      cases k with
      | zero =>
          rw [countP_spans_below (show c + 0 < c + 1 by omega)]
          exact (if_neg hb).symm
      | succ k =>
          have hcolumn : c + 1 + k = c + (k + 1) := by omega
          rw [← hcolumn]
          exact ih k

theorem nodup_spans (line : List Nat) (c : Nat) : (spans line c).Nodup := by
  fun_induction spans line c with
  | case1 => exact List.nodup_nil
  | case2 b line c hb e ih =>
      refine List.nodup_cons.mpr ⟨fun hmem => ?_, ih⟩
      have hbounds := span_bounds hmem
      dsimp only at hbounds
      omega
  | case3 b line c hb ih => exact ih

/-! ### The sweep -/

/-- The rectangle has the pixel in column `c` and row `r`. -/
def Rect.has (c r : Nat) (q : Rect) : Bool := decide (q.x0 ≤ c ∧ c < q.x1 ∧ q.y0 ≤ r ∧ r < q.y1)

/-- The run has had the pixel since it was opened. -/
def openHas (c r : Nat) (o : Span × Nat) : Bool := decide (o.1.1 ≤ c ∧ c < o.1.2 ∧ o.2 ≤ r)

/-- Ink in the rows before `r`. -/
def InkBefore (lines : Nat → List Nat) (r c j : Nat) : Prop := j < r ∧ inkAt (lines j) c

/-- What holds after the rows before `r` of a bitmap of width `w`. -/
structure Sweep.Exact (s : Sweep) (lines : Nat → List Nat) (w r : Nat) : Prop where
  nodup : (s.openRuns.map Prod.fst).Nodup
  open_bounds : ∀ o ∈ s.openRuns, o.1.1 < o.1.2 ∧ o.1.2 ≤ w ∧ o.2 < r
  rect_bounds : ∀ q ∈ s.rects, q.x0 < q.x1 ∧ q.x1 ≤ w ∧ q.y0 < q.y1 ∧ q.y1 ≤ r
  /-- A pixel of these rows is in one rectangle or in one open run if there is ink, and
  otherwise in none. -/
  count : ∀ c j, j < r →
    s.rects.countP (Rect.has c j) + s.openRuns.countP (openHas c j) =
      if inkAt (lines j) c then 1 else 0

theorem foldl_setDefault (here : List Span) (openRuns : List (Span × Nat)) (r : Nat)
    (hnodup : here.Nodup) :
    here.foldl (fun openRuns span => setDefault openRuns span r) openRuns =
      openRuns ++ (here.filter fun span => span ∉ openRuns.map Prod.fst).map (·, r) := by
  induction here generalizing openRuns with
  | nil => simp
  | cons span here ih =>
      obtain ⟨hspan, hhere⟩ := List.nodup_cons.mp hnodup
      rw [List.foldl_cons, ih _ hhere]
      by_cases hmem : span ∈ openRuns.map Prod.fst
      · rw [setDefault, if_pos hmem, List.filter_cons_of_neg (by simpa using hmem)]
      · have hfilter : (here.filter fun other => other ∉ (openRuns ++ [(span, r)]).map Prod.fst) =
            here.filter fun other => other ∉ openRuns.map Prod.fst := by
          refine List.filter_congr fun other hother => ?_
          have hne : other ≠ span := fun heq => hspan (heq ▸ hother)
          simp [hne]
        rw [setDefault, if_neg hmem, hfilter, List.filter_cons_of_pos (by simpa using hmem),
          List.map_cons, List.append_assoc]
        rfl

variable {s : Sweep} {lines : Nat → List Nat} {w r : Nat}

theorem row_openRuns (s : Sweep) (line : List Nat) (r : Nat) :
    (s.row line r).openRuns = s.kept (spans line 0) ++ s.fresh (spans line 0) r :=
  foldl_setDefault _ _ r (nodup_spans line 0)

theorem row_rects (s : Sweep) (line : List Nat) (r : Nat) :
    (s.row line r).rects =
      s.rects ++ (s.closed (spans line 0)).map fun o => ⟨o.1.1, o.2, o.1.2, r⟩ := rfl

theorem countP_closed_kept (s : Sweep) (here : List Span) (p : Span × Nat → Bool) :
    s.openRuns.countP p = (s.kept here).countP p + (s.closed here).countP p := by
  rw [List.countP_eq_countP_filter_add s.openRuns p fun o => decide (o.1 ∈ here)]
  congr 2
  exact List.filter_congr fun o _ => by simp

/-- A rectangle that is closed has the pixels its run had. -/
theorem countP_closed (s : Sweep) (here : List Span) {c j : Nat} (hj : j < r) :
    ((s.closed here).map fun o => (⟨o.1.1, o.2, o.1.2, r⟩ : Rect)).countP (Rect.has c j) =
      (s.closed here).countP (openHas c j) := by
  rw [List.countP_map]
  refine List.countP_congr fun o _ => ?_
  simp only [Function.comp_apply, Rect.has, openHas, decide_eq_true_eq]
  omega

theorem keys_row (s : Sweep) (here : List Span) (r : Nat) :
    (s.kept here ++ s.fresh here r).map Prod.fst =
      (s.kept here).map Prod.fst ++
        here.filter fun span => span ∉ (s.kept here).map Prod.fst := by
  rw [List.map_append, Sweep.fresh, List.map_map]
  congr 1
  exact List.map_id _

theorem nodup_keys (hnodup : (s.openRuns.map Prod.fst).Nodup) {here : List Span}
    (hhere : here.Nodup) : ((s.kept here ++ s.fresh here r).map Prod.fst).Nodup := by
  rw [keys_row]
  refine List.Nodup.append (hnodup.sublist (List.filter_sublist.map _)) (hhere.filter _) ?_
  intro span hkept hfresh
  simpa [hkept] using (List.mem_filter.mp hfresh).2

/-- The runs that are open are those of the row. -/
theorem keys_perm (hnodup : (s.openRuns.map Prod.fst).Nodup) {here : List Span}
    (hhere : here.Nodup) : ((s.kept here ++ s.fresh here r).map Prod.fst).Perm here := by
  refine (List.perm_ext_iff_of_nodup (nodup_keys hnodup hhere) hhere).mpr fun span => ?_
  rw [keys_row, List.mem_append, List.mem_filter]
  constructor
  · rintro (hkept | ⟨hmem, -⟩)
    · obtain ⟨o, ho, rfl⟩ := List.mem_map.mp hkept
      simpa using (List.mem_filter.mp ho).2
    · exact hmem
  · intro hmem
    by_cases hkept : span ∈ (s.kept here).map Prod.fst
    · exact .inl hkept
    · exact .inr ⟨hmem, by simpa using hkept⟩

theorem Sweep.Exact.closed_bounds (h : s.Exact lines w r) (here : List Span) :
    ∀ q ∈ (s.closed here).map fun o => (⟨o.1.1, o.2, o.1.2, r⟩ : Rect),
      q.x0 < q.x1 ∧ q.x1 ≤ w ∧ q.y0 < q.y1 ∧ q.y1 ≤ r := by
  intro q hq
  obtain ⟨o, ho, rfl⟩ := List.mem_map.mp hq
  have hbounds := h.open_bounds o (List.mem_of_mem_filter ho)
  exact ⟨hbounds.1, hbounds.2.1, hbounds.2.2, le_rfl⟩

/-- In the row that is swept the open runs have the ink. -/
theorem countP_row (h : s.Exact lines w r) (c : Nat) :
    (s.row (lines r) r).openRuns.countP (openHas c r) = if inkAt (lines r) c then 1 else 0 := by
  have hperm := keys_perm (r := r) h.nodup (nodup_spans (lines r) 0)
  have hcount : (s.row (lines r) r).openRuns.countP (openHas c r) =
      ((s.row (lines r) r).openRuns.map Prod.fst).countP (Span.has c) := by
    rw [List.countP_map]
    refine List.countP_congr fun o ho => ?_
    have hle : o.2 ≤ r := by
      rw [row_openRuns, List.mem_append] at ho
      rcases ho with ho | ho
      · exact (h.open_bounds o (List.mem_of_mem_filter ho)).2.2.le
      · obtain ⟨span, -, rfl⟩ := List.mem_map.mp ho
        exact le_rfl
    simp only [Function.comp_apply, openHas, Span.has, decide_eq_true_eq]
    omega
  have hspans := countP_spans (lines r) 0 c
  rw [Nat.zero_add] at hspans
  rw [hcount, row_openRuns, hperm.countP_eq, hspans]

/-- One row of the sweep. -/
theorem Sweep.Exact.row (h : s.Exact lines w r) (hw : (lines r).length ≤ w) :
    (s.row (lines r) r).Exact lines w (r + 1) := by
  have hopen := row_openRuns s (lines r) r
  constructor
  case nodup =>
    rw [hopen]
    exact nodup_keys h.nodup (nodup_spans (lines r) 0)
  case open_bounds =>
    intro o ho
    rw [hopen, List.mem_append] at ho
    rcases ho with ho | ho
    · have hbounds := h.open_bounds o (List.mem_of_mem_filter ho)
      omega
    · obtain ⟨span, hspan, rfl⟩ := List.mem_map.mp ho
      have hbounds := span_bounds (List.mem_of_mem_filter hspan)
      dsimp only
      omega
  case rect_bounds =>
    intro q hq
    rw [row_rects, List.mem_append] at hq
    rcases hq with hq | hq
    · have hbounds := h.rect_bounds q hq
      omega
    · have hbounds := h.closed_bounds _ q hq
      omega
  case count =>
    intro c j hj
    rcases Nat.eq_or_lt_of_le (Nat.le_of_lt_succ hj) with rfl | hlt
    · have hrects : (s.row (lines j) j).rects.countP (Rect.has c j) = 0 := by
        rw [List.countP_eq_zero]
        intro q hq
        have hle : q.y1 ≤ j := by
          rw [row_rects, List.mem_append] at hq
          rcases hq with hq | hq
          · exact (h.rect_bounds q hq).2.2.2
          · exact (h.closed_bounds _ q hq).2.2.2
        simp only [Rect.has, decide_eq_true_eq]
        omega
      rw [hrects, Nat.zero_add]
      exact countP_row h c
    · have hfresh : (s.fresh (spans (lines r) 0) r).countP (openHas c j) = 0 := by
        rw [List.countP_eq_zero]
        intro o ho
        obtain ⟨span, -, rfl⟩ := List.mem_map.mp ho
        simp only [openHas, decide_eq_true_eq]
        omega
      rw [← h.count c j hlt, row_rects, hopen, List.countP_append, List.countP_append,
        countP_closed s _ hlt, hfresh, countP_closed_kept s (spans (lines r) 0)]
      omega

theorem Sweep.Exact.rows (h : s.Exact lines w r) (ls : List (List Nat))
    (hlines : ∀ i, i < ls.length → lines (r + i) = ls.getD i [])
    (hw : ∀ line ∈ ls, line.length ≤ w) : (s.rows ls r).Exact lines w (r + ls.length) := by
  induction ls generalizing s r with
  | nil => exact h
  | cons line ls ih =>
      have hline : lines r = line := hlines 0 (Nat.succ_pos _)
      have hrow := h.row (by rw [hline]; exact hw line List.mem_cons_self)
      rw [hline] at hrow
      have hrest := ih hrow (fun i hi => by
        have hnext := hlines (i + 1) (Nat.succ_lt_succ hi)
        rw [Nat.add_assoc, Nat.add_comm 1 i]
        exact hnext) fun line' hline' => hw line' (List.mem_cons_of_mem _ hline')
      have hlength : r + 1 + ls.length = r + (line :: ls).length := by
        rw [List.length_cons]
        omega
      rw [hlength] at hrest
      exact hrest

theorem rows_append (s : Sweep) (ls ls' : List (List Nat)) (r : Nat) :
    s.rows (ls ++ ls') r = (s.rows ls r).rows ls' (r + ls.length) := by
  induction ls generalizing s r with
  | nil => rfl
  | cons line ls ih =>
      rw [List.cons_append, Sweep.rows, Sweep.rows, ih, List.length_cons, Nat.add_assoc,
        Nat.add_comm 1]

theorem spans_blank (w c : Nat) : spans (List.replicate w 0) c = [] := by
  induction w generalizing c with
  | zero => rw [List.replicate_zero, spans]
  | succ w ih =>
      rw [List.replicate_succ, spans, if_neg (by decide)]
      exact ih (c + 1)

/-! ### The rectangles -/

variable {h : Nat} {raster : List UInt8}

/-- Pixels of the bitmap. -/
def ink (w h : Nat) (raster : List UInt8) (c r : Nat) : Prop :=
  inkAt ((bitRows w h raster).getD r []) c

instance (w h : Nat) (raster : List UInt8) (c r : Nat) : Decidable (ink w h raster c r) :=
  inferInstanceAs (Decidable (inkAt _ _))

theorem length_bitRows : (bitRows w h raster).length = h := by
  simp [bitRows]

theorem length_of_mem_bitRows {line : List Nat} (hline : line ∈ bitRows w h raster) :
    line.length = w := by
  obtain ⟨r, -, rfl⟩ := List.mem_map.mp hline
  simp

theorem exact_bitRows :
    (Sweep.rows {} (bitRows w h raster) 0).Exact (fun r => (bitRows w h raster).getD r []) w h := by
  have hempty : (Sweep.Exact {} (fun r => (bitRows w h raster).getD r []) w 0) :=
    ⟨List.nodup_nil, fun _ ho => (List.not_mem_nil ho).elim, fun _ hq => (List.not_mem_nil hq).elim,
      fun c j hj => absurd hj (Nat.not_lt_zero j)⟩
  have hrows := hempty.rows (bitRows w h raster) (fun i _ => by rw [Nat.zero_add])
    fun line hline => (length_of_mem_bitRows hline).le
  rw [Nat.zero_add, length_bitRows] at hrows
  exact hrows

/-- The row of zeros closes all runs. -/
theorem pixelRects_perm : (pixelRects w h raster).Perm
    ((Sweep.rows {} (bitRows w h raster) 0).rects ++
      (Sweep.rows {} (bitRows w h raster) 0).openRuns.map fun o => ⟨o.1.1, o.2, o.1.2, h⟩) := by
  refine (List.mergeSort_perm _ _).trans (List.Perm.of_eq ?_)
  rw [rows_append, length_bitRows, Nat.zero_add]
  show (Sweep.row _ _ h).rects = _
  rw [row_rects, spans_blank, Sweep.closed, List.filter_eq_self.mpr fun o _ => by simp]

theorem pixelRects_bounds {q : Rect} (hq : q ∈ pixelRects w h raster) :
    q.x0 < q.x1 ∧ q.x1 ≤ w ∧ q.y0 < q.y1 ∧ q.y1 ≤ h := by
  rw [pixelRects_perm.mem_iff, List.mem_append] at hq
  rcases hq with hq | hq
  · exact exact_bitRows.rect_bounds q hq
  · obtain ⟨o, ho, rfl⟩ := List.mem_map.mp hq
    have hbounds := exact_bitRows.open_bounds o ho
    exact ⟨hbounds.1, hbounds.2.1, hbounds.2.2, le_rfl⟩

/-- A pixel is in one rectangle if it is ink, and otherwise in none. -/
theorem countP_pixelRects {c r : Nat} (hr : r < h) :
    (pixelRects w h raster).countP (Rect.has c r) = if ink w h raster c r then 1 else 0 := by
  rw [pixelRects_perm.countP_eq, List.countP_append, List.countP_map]
  refine Eq.trans (congrArg _ (List.countP_congr fun o _ => ?_)) (exact_bitRows.count c r hr)
  simp only [Function.comp_apply, Rect.has, openHas, decide_eq_true_eq]
  omega

/-- Where no point is counted twice, no two members share one. -/
theorem pairwise_of_countP_le_one {α β : Type} {P : β → α → Bool} {l : List α}
    (hcount : ∀ x, l.countP (P x) ≤ 1) :
    l.Pairwise fun a b => ∀ x, ¬ (P x a = true ∧ P x b = true) := by
  induction l with
  | nil => exact List.Pairwise.nil
  | cons a l ih =>
      refine List.Pairwise.cons (fun b hb x hx => ?_) (ih fun x => ?_)
      · have hpos : 0 < l.countP (P x) := List.countP_pos_iff.mpr ⟨b, hb, hx.2⟩
        have hle := hcount x
        rw [List.countP_cons_of_pos hx.1] at hle
        omega
      · exact (List.Sublist.countP_le (List.sublist_cons_self a l)).trans (hcount x)

theorem pixelRects_disjoint : (pixelRects w h raster).Pairwise fun a b =>
    ∀ x : Nat × Nat, ¬ (Rect.has x.1 x.2 a = true ∧ Rect.has x.1 x.2 b = true) := by
  refine pairwise_of_countP_le_one fun x => ?_
  by_cases hr : x.2 < h
  · rw [countP_pixelRects hr]
    split <;> omega
  · refine (List.countP_eq_zero.mpr fun q hq => ?_).le.trans (Nat.zero_le 1)
    have hbounds := pixelRects_bounds hq
    simp only [Rect.has, decide_eq_true_eq]
    omega

/-! ### The check of the outline -/

/-- The directions of the crossings up to `y`, added up. -/
def total (xs : List (ℚ × Int)) (y : ℚ) : Int :=
  ((xs.filter fun p => p.1 ≤ y).map Prod.snd).sum

def Sorted (xs : List (ℚ × Int)) : Prop := xs.Pairwise fun a b => a.1 ≤ b.1

theorem total_perm {xs ys : List (ℚ × Int)} (h : xs.Perm ys) (y : ℚ) : total xs y = total ys y :=
  ((h.filter _).map _).sum_eq

theorem total_append (xs ys : List (ℚ × Int)) (y : ℚ) :
    total (xs ++ ys) y = total xs y + total ys y := by
  simp [total]

theorem total_cons (p : ℚ × Int) (xs : List (ℚ × Int)) (y : ℚ) :
    total (p :: xs) y = (if p.1 ≤ y then p.2 else 0) + total xs y := by
  unfold total
  by_cases hp : p.1 ≤ y
  · rw [List.filter_cons_of_pos (by simpa using hp), if_pos hp, List.map_cons, List.sum_cons]
  · rw [List.filter_cons_of_neg (by simpa using hp), if_neg hp, zero_add]

/-- What `advance` took in and what it left, up to any height behind it. -/
theorem advance_spec {xs : List (ℚ × Int)} (hsorted : Sorted xs) (x : ℚ) (wind : Int) :
    Sorted (advance x xs wind).1 ∧ (advance x xs wind).2 = wind + total xs x ∧
      ∀ y, x ≤ y → (advance x xs wind).2 + total (advance x xs wind).1 y = wind + total xs y := by
  induction xs generalizing wind with
  | nil => exact ⟨hsorted, by simp [advance, total], fun y _ => rfl⟩
  | cons p xs ih =>
      obtain ⟨hle, hrest⟩ := List.pairwise_cons.mp hsorted
      rw [advance]
      by_cases hp : p.1 ≤ x
      · obtain ⟨hs, hwind, hbehind⟩ := ih hrest (wind + p.2)
        rw [if_pos hp]
        refine ⟨hs, ?_, fun y hy => ?_⟩
        · rw [hwind, total_cons, if_pos hp, add_assoc]
        · rw [hbehind y hy, total_cons, if_pos (hp.trans hy), add_assoc]
      · have hzero : total (p :: xs) x = 0 := by
          have hnone : ((p :: xs).filter fun q => q.1 ≤ x) = [] := by
            refine List.filter_eq_nil_iff.mpr fun q hq => ?_
            rcases List.mem_cons.mp hq with rfl | hq
            · simpa using hp
            · have := hle q hq
              simp only [decide_eq_true_eq, not_le] at hp ⊢
              exact lt_of_lt_of_le hp this
          rw [total, hnone]
          rfl
        rw [if_neg hp]
        exact ⟨hsorted, by rw [hzero, add_zero], fun y _ => rfl⟩

theorem scanColumns_diff {T : ℚ → Int} (line : List Nat) (c : Nat) (xs : List (ℚ × Int))
    (wind : Int) (n : Count) (hsorted : Sorted xs)
    (htotal : ∀ y : ℚ, (c : ℚ) + 1 / 2 ≤ y → wind + total xs y = T y)
    (hink : ∀ k, k < line.length → (inkAt line k ↔ T (((c + k : Nat) : ℚ) + 1 / 2) ≠ 0)) :
    (scanColumns line c xs wind n).diff = n.diff := by
  induction line generalizing c xs wind n with
  | nil => rfl
  | cons on line ih =>
      obtain ⟨hs, hwind, hbehind⟩ := advance_spec hsorted ((c : ℚ) + 1 / 2) wind
      rw [scanColumns]
      rw [ih (c + 1) _ _ _ hs (fun y hy => ?_) fun k hk => ?_]
      · have hhere := hink 0 (Nat.succ_pos _)
        rw [Nat.add_zero, ← htotal _ le_rfl, ← hwind] at hhere
        have hsame : (on ≠ 0) = ((advance ((c : ℚ) + 1 / 2) xs wind).2 ≠ 0) := propext hhere
        dsimp only
        rw [if_neg fun hne => hne hsame, Nat.add_zero]
      · have hle : (c : ℚ) + 1 / 2 ≤ y := by
          push_cast at hy
          linarith
        rw [hbehind y hle, htotal y hle]
      · have hnext := hink (k + 1) (Nat.succ_lt_succ hk)
        have hsum : c + (k + 1) = c + 1 + k := by omega
        rw [hsum] at hnext
        exact hnext

/-- A point with integer coordinates. -/
def corner (x y : Nat) : Point := (x, y)

theorem flatten_rect {q : Rect} (hy : q.y0 < q.y1) :
    q.path.flatten 8 =
      [(corner q.x0 q.y0, corner q.x1 q.y0), (corner q.x1 q.y0, corner q.x1 q.y1),
        (corner q.x1 q.y1, corner q.x0 q.y1), (corner q.x0 q.y1, corner q.x0 q.y0)] := by
  have hne : corner q.x0 q.y1 ≠ corner q.x0 q.y0 := by
    intro heq
    have := Nat.cast_injective (Prod.mk.inj heq).2
    omega
  unfold Path.flatten
  simp only [Rect.path, flattenSegments, Segment.points, polyline]
  exact (if_pos hne).trans rfl

theorem cast_le_half {a r : Nat} : (a : ℚ) ≤ (r : ℚ) + 1 / 2 ↔ a ≤ r := by
  constructor
  · intro h
    by_contra hlt
    have : ((r + 1 : Nat) : ℚ) ≤ a := Nat.cast_le.mpr (by omega)
    push_cast at this
    linarith
  · intro h
    have : (a : ℚ) ≤ r := Nat.cast_le.mpr h
    linarith

theorem crossing_horizontal (r a b y : Nat) :
    crossing ((r : ℚ) + 1 / 2) (corner a y, corner b y) = none := by
  simp [crossing, corner]

theorem crossing_vertical (r x y0 y1 : Nat) :
    crossing ((r : ℚ) + 1 / 2) (corner x y0, corner x y1) =
      if (y0 ≤ r ↔ y1 ≤ r) then none else some ((x : ℚ), if y0 < y1 then 1 else -1) := by
  simp only [crossing, corner, cast_le_half, sub_self, mul_zero, zero_div, add_zero, gt_iff_lt,
    Nat.cast_lt, ne_eq, decide_eq_decide, ite_not]

/-- A rectangle that reaches over the row is crossed at both sides. -/
theorem crossings_rect {q : Rect} (hy : q.y0 < q.y1) (r : Nat) :
    (q.path.flatten 8).filterMap (crossing ((r : ℚ) + 1 / 2)) =
      if q.y0 ≤ r ∧ r < q.y1 then [((q.x1 : ℚ), 1), ((q.x0 : ℚ), -1)] else [] := by
  rw [flatten_rect hy]
  simp only [List.filterMap_cons, List.filterMap_nil, crossing_horizontal]
  by_cases hin : q.y0 ≤ r ∧ r < q.y1
  · have hup : crossing ((r : ℚ) + 1 / 2) (corner q.x1 q.y0, corner q.x1 q.y1) =
        some ((q.x1 : ℚ), 1) := by
      rw [crossing_vertical, if_neg (by omega), if_pos hy]
    have hdown : crossing ((r : ℚ) + 1 / 2) (corner q.x0 q.y1, corner q.x0 q.y0) =
        some ((q.x0 : ℚ), -1) := by
      rw [crossing_vertical, if_neg (by omega), if_neg (by omega)]
    rw [hup, hdown, if_pos hin]
  · have hnone (x y0 y1 : Nat) (hsame : y0 ≤ r ↔ y1 ≤ r) :
        crossing ((r : ℚ) + 1 / 2) (corner x y0, corner x y1) = none := by
      rw [crossing_vertical, if_pos hsame]
    rw [hnone _ _ _ (by omega), hnone _ _ _ (by omega), if_neg hin]

/-- Up to a column, the crossings of a row add up to minus the rectangles there. -/
theorem total_crossings {rects : List Rect} (hrects : ∀ q ∈ rects, q.x0 < q.x1 ∧ q.y0 < q.y1)
    (c r : Nat) :
    total ((flatten (rects.map Rect.path)).filterMap (crossing ((r : ℚ) + 1 / 2)))
      ((c : ℚ) + 1 / 2) = -(rects.countP (Rect.has c r) : Int) := by
  induction rects with
  | nil => simp [flatten, total]
  | cons q rects ih =>
      obtain ⟨hx, hy⟩ := hrects q List.mem_cons_self
      have hrest := ih fun q' hq' => hrects q' (List.mem_cons_of_mem _ hq')
      have hsplit : flatten ((q :: rects).map Rect.path) =
          q.path.flatten 8 ++ flatten (rects.map Rect.path) := rfl
      rw [hsplit, List.filterMap_append, total_append, hrest, crossings_rect hy,
        List.countP_cons]
      have hhere : total (if q.y0 ≤ r ∧ r < q.y1 then [((q.x1 : ℚ), 1), ((q.x0 : ℚ), -1)] else [])
          ((c : ℚ) + 1 / 2) = -(if Rect.has c r q = true then 1 else 0) := by
        by_cases hrow : q.y0 ≤ r ∧ r < q.y1
        · rw [if_pos hrow, total_cons, total_cons]
          simp only [cast_le_half, Rect.has, decide_eq_true_eq, total, List.filter_nil,
            List.map_nil, List.sum_nil]
          split <;> split <;> split <;> omega
        · have hnot : ¬ Rect.has c r q = true := by
            simp only [Rect.has, decide_eq_true_eq]
            omega
          rw [if_neg hrow, if_neg hnot]
          rfl
      rw [hhere]
      push_cast
      split <;> omega

theorem sorted_mergeSort (xs : List (ℚ × Int)) : Sorted (xs.mergeSort pairLe) := by
  have hsorted : (xs.mergeSort pairLe).Pairwise fun a b => pairLe a b := by
    refine List.pairwise_mergeSort (fun a b c hab hbc => ?_) (fun a b => ?_) xs
    · simp only [pairLe, decide_eq_true_eq] at hab hbc ⊢
      rcases hab with hab | ⟨hab, hab'⟩
      · rcases hbc with hbc | ⟨hbc, -⟩
        · exact .inl (hab.trans hbc)
        · exact .inl (hbc ▸ hab)
      · rcases hbc with hbc | ⟨hbc, hbc'⟩
        · exact .inl (hab ▸ hbc)
        · exact .inr ⟨hab.trans hbc, hab'.trans hbc'⟩
    · simp only [pairLe, Bool.or_eq_true, decide_eq_true_eq]
      rcases lt_trichotomy a.1 b.1 with hlt | heq | hgt
      · exact .inl (.inl hlt)
      · rcases le_total a.2 b.2 with hle | hle
        · exact .inl (.inr ⟨heq, hle⟩)
        · exact .inr (.inr ⟨heq.symm, hle⟩)
      · exact .inr (.inl hgt)
  refine hsorted.imp fun hab => ?_
  simp only [pairLe, decide_eq_true_eq] at hab
  rcases hab with hab | hab
  · exact hab.le
  · exact hab.1.le

theorem scanRows_diff {segs : List (Point × Point)} (ls : List (List Nat)) (r : Nat) (n : Count)
    (hink : ∀ i, i < ls.length → ∀ k, k < (ls.getD i []).length →
      (inkAt (ls.getD i []) k ↔ total (segs.filterMap (crossing (((r + i : Nat) : ℚ) + 1 / 2)))
        ((k : ℚ) + 1 / 2) ≠ 0)) :
    (scanRows segs ls r n).diff = n.diff := by
  induction ls generalizing r n with
  | nil => rfl
  | cons line ls ih =>
      rw [scanRows]
      rw [ih (r + 1) _ fun i hi k hk => ?_]
      · refine scanColumns_diff line 0 _ 0 n (sorted_mergeSort _) (fun y _ => zero_add _) fun k hk => ?_
        rw [Nat.zero_add, total_perm (List.mergeSort_perm _ _)]
        exact hink 0 (Nat.succ_pos _) k hk
      · have hnext := hink (i + 1) (Nat.succ_lt_succ hi) k hk
        have hsum : r + (i + 1) = r + 1 + i := by omega
        rw [hsum] at hnext
        exact hnext

/-- Twice the area inside the corners of a path of lines, positive when they go round
counterclockwise. -/
def signedArea : List Point → ℚ
  | p :: q :: ps => p.1 * q.2 - q.1 * p.2 + signedArea (q :: ps)
  | _ => 0

def Segment.endpoint : Segment → Point
  | .l x y => (x, y)
  | .c _ _ _ _ x3 y3 => (x3, y3)

/-- The corners of a closed path, back to the first one. -/
def Path.corners (path : Path) : List Point :=
  path.start :: (path.segments.map Segment.endpoint ++ [path.start])

theorem signedArea_pos {q : Rect} (hx : q.x0 < q.x1) (hy : q.y0 < q.y1) :
    0 < signedArea q.path.corners := by
  have hx' : (q.x0 : ℚ) < q.x1 := Nat.cast_lt.mpr hx
  have hy' : (q.y0 : ℚ) < q.y1 := Nat.cast_lt.mpr hy
  simp only [Path.corners, Rect.path, Segment.endpoint, List.map_cons, List.map_nil,
    List.cons_append, List.nil_append, signedArea]
  nlinarith

/-- The outline is exact: its rectangles are inside the bitmap, counterclockwise and
disjoint, they have exactly the pixels with ink, and the check finds no pixel that differs. -/
theorem pixelPaths_exact (w h : Nat) (raster : List UInt8) :
    pixelPaths w h raster = (pixelRects w h raster).map Rect.path ∧
    (∀ q ∈ pixelRects w h raster, q.x1 ≤ w ∧ q.y1 ≤ h ∧ 0 < signedArea q.path.corners) ∧
    ((pixelRects w h raster).Pairwise fun a b =>
      ∀ x : Nat × Nat, ¬ (Rect.has x.1 x.2 a = true ∧ Rect.has x.1 x.2 b = true)) ∧
    (∀ c r, (∃ q ∈ pixelRects w h raster, Rect.has c r q = true) ↔ r < h ∧ ink w h raster c r) ∧
    (mismatch w h raster (pixelPaths w h raster)).diff = 0 := by
  refine ⟨rfl, fun q hq => ?_, pixelRects_disjoint, fun c r => ?_, ?_⟩
  · obtain ⟨hx, hw, hy, hh⟩ := pixelRects_bounds hq
    exact ⟨hw, hh, signedArea_pos hx hy⟩
  · rw [← List.countP_pos_iff]
    by_cases hr : r < h
    · rw [countP_pixelRects hr]
      split <;> simp_all
    · have hzero : (pixelRects w h raster).countP (Rect.has c r) = 0 := by
        refine List.countP_eq_zero.mpr fun q hq => ?_
        have hbounds := pixelRects_bounds hq
        simp only [Rect.has, decide_eq_true_eq]
        omega
      rw [hzero]
      simp [hr]
  · refine scanRows_diff (bitRows w h raster) 0 {} fun i hi k hk => ?_
    rw [length_bitRows] at hi
    rw [Nat.zero_add, pixelPaths, total_crossings (fun q hq => by
      have hbounds := pixelRects_bounds hq
      exact ⟨hbounds.1, hbounds.2.2.1⟩), countP_pixelRects hi]
    show ink w h raster k i ↔ _
    split <;> simp_all

end Psvec
