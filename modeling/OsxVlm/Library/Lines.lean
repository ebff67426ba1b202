import Mathlib

/-!
# The lines of a text of bytes

A text is cut after each `\n`, each `\r\n` and each `\r` that stands alone, and the lines
keep their ends.  Lines put one after the other are cut back into the same lines
exactly when no two neighbours run together.
-/

namespace Lines

def LF : UInt8 := 10
def CR : UInt8 := 13

def splitlines : List UInt8 → List (List UInt8)
  | [] => []
  | c :: rest =>
      if c = LF then [c] :: splitlines rest
      else if c = CR ∧ rest.head? ≠ some LF then [c] :: splitlines rest
      else
        match splitlines rest with
        | [] => [[c]]
        | line :: lines => (c :: line) :: lines

/-- A line that has its end. -/
def Terminated (line : List UInt8) : Prop :=
  line.getLast? = some LF ∨ line.getLast? = some CR

/-- A line that another one can follow: the first has its end, and that end is not the
first half of a `\r\n`. -/
def Parted (line next : List UInt8) : Prop :=
  Terminated line ∧ ¬ (line.getLast? = some CR ∧ next.head? = some LF)

instance (line : List UInt8) : Decidable (Terminated line) := by
  unfold Terminated
  infer_instance

instance (line next : List UInt8) : Decidable (Parted line next) := by
  unfold Parted
  infer_instance

@[simp] theorem splitlines_nil : splitlines [] = [] := rfl

theorem splitlines_eq_nil {text : List UInt8} : splitlines text = [] ↔ text = [] := by
  cases text with
  | nil => simp
  | cons c rest =>
      simp only [splitlines, reduceCtorEq, iff_false]
      split_ifs
      · simp
      · simp
      · split <;> simp

theorem flatten_splitlines (text : List UInt8) : (splitlines text).flatten = text := by
  induction text with
  | nil => rfl
  | cons c rest ih =>
      rw [splitlines]
      split_ifs
      · simp [ih]
      · simp [ih]
      · cases hrest : splitlines rest with
        | nil => simp [splitlines_eq_nil.1 hrest]
        | cons line lines =>
            rw [hrest] at ih
            rw [← ih]
            rfl

theorem ne_nil_of_mem {text line : List UInt8} (h : line ∈ splitlines text) : line ≠ [] := by
  induction text generalizing line with
  | nil => simp at h
  | cons c rest ih =>
      rw [splitlines] at h
      split_ifs at h
      · rcases List.mem_cons.1 h with rfl | h
        · simp
        · exact ih h
      · rcases List.mem_cons.1 h with rfl | h
        · simp
        · exact ih h
      · cases hrest : splitlines rest with
        | nil => simp_all
        | cons first lines =>
            rw [hrest] at h
            rcases List.mem_cons.1 h with rfl | h
            · simp
            · exact ih (hrest ▸ List.mem_cons_of_mem _ h)

/-- The first byte of a text is the first byte of its first line. -/
theorem head_splitlines {text line : List UInt8} {lines : List (List UInt8)}
    (h : splitlines text = line :: lines) : line.head? = text.head? := by
  have hne := ne_nil_of_mem (h ▸ List.mem_cons_self : line ∈ splitlines text)
  have hflat := flatten_splitlines text
  rw [h] at hflat
  cases line with
  | nil => exact absurd rfl hne
  | cons c line => simp [← hflat]

/-- What follows a line that has its end does not change the line. -/
theorem splitlines_append {line rest : List UInt8} (hline : splitlines line = [line])
    (hend : Terminated line) (hnext : ¬ (line.getLast? = some CR ∧ rest.head? = some LF)) :
    splitlines (line ++ rest) = line :: splitlines rest := by
  induction line with
  | nil => simp at hline
  | cons c line ih =>
      rw [List.cons_append, splitlines]
      rw [splitlines] at hline
      by_cases hlf : c = LF
      · rw [if_pos hlf] at hline ⊢
        have hnil : line = [] := by simpa [splitlines_eq_nil] using hline
        simp [hnil]
      rw [if_neg hlf] at hline ⊢
      by_cases hcr : c = CR ∧ line.head? ≠ some LF
      · rw [if_pos hcr] at hline
        have hnil : line = [] := by simpa [splitlines_eq_nil] using hline
        subst hnil
        have hrest : rest.head? ≠ some LF := fun h => hnext ⟨by simp [hcr.1], h⟩
        simp [hcr.1, hrest]
      rw [if_neg hcr] at hline
      cases line with
      | nil =>
          rcases hend with h | h
          · exact absurd (by simpa using h) hlf
          · exact absurd ⟨by simpa using h, by simp⟩ hcr
      | cons d line =>
          have hsame : ¬ (c = CR ∧ (d :: line ++ rest).head? ≠ some LF) := hcr
          rw [if_neg hsame]
          have hone : splitlines (d :: line) = [d :: line] := by
            cases hrest : splitlines (d :: line) with
            | nil => simp [splitlines_eq_nil] at hrest
            | cons first lines => simp_all
          rw [ih hone (by simpa [Terminated] using hend) (by simpa using hnext)]

/-- The lines of a text, each a line by itself. -/
theorem splitlines_of_mem {text line : List UInt8} (h : line ∈ splitlines text) :
    splitlines line = [line] := by
  induction text generalizing line with
  | nil => simp at h
  | cons c rest ih =>
      rw [splitlines] at h
      split_ifs at h with hlf hcr
      · rcases List.mem_cons.1 h with rfl | h
        · simp [splitlines, hlf]
        · exact ih h
      · rcases List.mem_cons.1 h with rfl | h
        · simp [splitlines, hcr.1]
        · exact ih h
      · cases hrest : splitlines rest with
        | nil =>
            have hnil := splitlines_eq_nil.1 hrest
            simp only [hrest, List.mem_singleton] at h
            subst hnil h
            simp_all [splitlines]
        | cons first lines =>
            rw [hrest] at h
            rcases List.mem_cons.1 h with rfl | h
            · have hfirst : splitlines first = [first] :=
                ih (hrest ▸ List.mem_cons_self)
              rw [splitlines, if_neg hlf, head_splitlines hrest, if_neg hcr, hfirst]
            · exact ih (hrest ▸ List.mem_cons_of_mem _ h)

/-- No two lines of a text run together. -/
theorem isChain_splitlines (text : List UInt8) : (splitlines text).IsChain Parted := by
  induction text with
  | nil => simp
  | cons c rest ih =>
      rw [splitlines]
      split_ifs with hlf hcr
      · cases hrest : splitlines rest with
        | nil => simp
        | cons first lines =>
            rw [hrest] at ih
            refine List.isChain_cons_cons.2 ⟨⟨Or.inl (by simp [hlf]), ?_⟩, ih⟩
            simp [hlf, LF, CR]
      · cases hrest : splitlines rest with
        | nil => simp
        | cons first lines =>
            rw [hrest] at ih
            refine List.isChain_cons_cons.2 ⟨⟨Or.inr (by simp [hcr.1]), ?_⟩, ih⟩
            rw [head_splitlines hrest]
            exact fun h => hcr.2 h.2
      · cases hrest : splitlines rest with
        | nil => simp
        | cons first lines =>
            rw [hrest] at ih
            have hne : first ≠ [] := ne_nil_of_mem (hrest ▸ List.mem_cons_self)
            cases lines with
            | nil => simp
            | cons second lines =>
                rw [List.isChain_cons_cons] at ih ⊢
                have hlast : (c :: first).getLast? = first.getLast? := by
                  cases first with
                  | nil => exact absurd rfl hne
                  | cons d first => simp
                refine ⟨?_, ih.2⟩
                rw [Parted, Terminated, hlast]
                exact ih.1

/-- Lines put one after the other are the lines of the text that results, if and only if
no two of them run together. -/
theorem splitlines_flatten {lines : List (List UInt8)}
    (hlines : ∀ line ∈ lines, splitlines line = [line]) :
    splitlines lines.flatten = lines ↔ lines.IsChain Parted := by
  constructor
  · intro h
    exact h ▸ isChain_splitlines lines.flatten
  · intro h
    induction lines with
    | nil => simp
    | cons line lines ih =>
        have hline := hlines line (by simp)
        have hrest := ih (fun l hl => hlines l (by simp [hl])) h.tail
        cases lines with
        | nil => simpa using hline
        | cons next lines =>
            have hparted := (List.isChain_cons_cons.1 h).1
            have hhead : (next :: lines).flatten.head? = next.head? :=
              (head_splitlines hrest).symm
            rw [List.flatten_cons, splitlines_append hline hparted.1
              (by rw [hhead]; exact hparted.2), hrest]

/-- Every line but the last has its end. -/
theorem terminated_of_append {lines more : List (List UInt8)}
    (h : (lines ++ more).IsChain Parted) (hmore : more ≠ []) :
    ∀ line ∈ lines, Terminated line := by
  induction lines with
  | nil => simp
  | cons line lines ih =>
      intro l hl
      rcases List.mem_cons.1 hl with rfl | hl
      · cases hrest : lines ++ more with
        | nil => simp [hmore] at hrest
        | cons next rest =>
            rw [List.cons_append, hrest] at h
            exact (List.isChain_cons_cons.1 h).1.1
      · exact ih h.tail l hl

/-- A line that begins with a line feed is a line feed. -/
theorem eq_of_head_LF {line : List UInt8} (hline : splitlines line = [line])
    (h : line.head? = some LF) : line = [LF] := by
  cases line with
  | nil => simp at h
  | cons c rest =>
      simp only [List.head?_cons, Option.some.injEq] at h
      simp only [splitlines, h, if_pos, List.cons.injEq, splitlines_eq_nil] at hline
      simp [h, hline.2]

/-- Lines whose last has its end, before lines that do not begin with a line feed. -/
theorem isChain_append_of_head {lines more : List (List UInt8)}
    (hlines : lines.IsChain Parted) (hmore : more.IsChain Parted)
    (hend : ∀ line ∈ lines.getLast?, Terminated line)
    (hhead : ∀ next ∈ more.head?, next.head? ≠ some LF) :
    (lines ++ more).IsChain Parted := by
  refine List.isChain_append.2 ⟨hlines, hmore, fun line hline next hnext => ?_⟩
  exact ⟨hend line hline, fun h => hhead next hnext h.2⟩

/-- Lines whose last ends in a line feed can be before any others. -/
theorem isChain_append_of_LF {lines more : List (List UInt8)}
    (hlines : lines.IsChain Parted) (hmore : more.IsChain Parted)
    (hend : ∀ line ∈ lines.getLast?, line.getLast? = some LF) :
    (lines ++ more).IsChain Parted := by
  refine List.isChain_append.2 ⟨hlines, hmore, fun line hline next hnext => ?_⟩
  refine ⟨Or.inl (hend line hline), fun h => ?_⟩
  rw [hend line hline] at h
  simp [LF, CR] at h

end Lines
