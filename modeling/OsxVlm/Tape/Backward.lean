import Mathlib
import OsxVlm.Tape.WellFormed

/-!
# Backward tape motion

A step back from behind a record or a tape mark returns to its start.  An erase gap,
which forward motion passes over, is taken for the trailer of a record of nearly two
gigabytes, so spacing back over files goes wrong where a gap is in the way.
-/

namespace Rmt

open Simh

/-! ### One step -/

/-- What a step back over an item reports. -/
def kindOf : Item → Back
  | .mark => .mark
  | _ => .data

def kindOfBlock : Block → Back
  | .mark => .mark
  | _ => .data

/-- A step back from behind a record or a mark undoes the step over it. -/
theorem backOne_undoes {t : Tape} {before after : List Item} {i : Item} {eom : Bool}
    (h : At t.image t.pos (before ++ [i]) after eom) (hi : i ≠ .gap) :
    t.backOne = some (kindOf i, { t with pos := (bytes before).length }) := by
  have hpos := h.pos_eq
  rw [bytes_append, bytes_singleton, List.length_append] at hpos
  rw [backOne_eq h]
  cases i with
  | gap => exact absurd rfl hi
  | mark =>
      have hlen : t.pos - 4 = (bytes before).length := by
        rw [hpos]
        exact Nat.add_sub_cancel _ 4
      rw [← hlen]
      rfl
  | record r =>
      have hlen : t.pos - 4 - dataLength r.header % 2 - dataLength r.header - 4 =
          (bytes before).length := by
        rw [hpos, Item.bytes, length_record]
        omega
      rw [if_neg (show lastWord (.record r) ≠ tapeMark from r.not_mark), ← hlen]
      rfl

theorem backLoop_mark {t t' : Tape} {perFile : Bool} {n : Nat}
    (h : t.backOne = some (.mark, t')) :
    t.backLoop perFile (n + 1) = t'.backLoop perFile n := by
  rw [Tape.backLoop]
  split <;> simp_all

theorem backLoop_data {t t' : Tape} {perFile : Bool} {n : Nat}
    (h : t.backOne = some (.data, t')) :
    t.backLoop perFile (n + 1) = t'.backLoop perFile (if perFile then n + 1 else n) := by
  rw [Tape.backLoop]
  split <;> simp_all

theorem backLoop_start {t : Tape} {perFile : Bool} {n : Nat} (h : t.pos = 0) :
    t.backLoop perFile n = some { t with pos := 0 } := by
  have hback : t.backOne = some (.bot, { t with pos := 0 }) := if_pos h
  cases n with
  | zero =>
      rw [Tape.backLoop]
      rw [← h]
  | succ n =>
      rw [Tape.backLoop]
      split <;> simp_all

/-- `bsr` by one does the same. -/
theorem bsr_undoes {t : Tape} {before after : List Item} {i : Item} {eom : Bool}
    (h : At t.image t.pos (before ++ [i]) after eom) (hi : i ≠ .gap) :
    t.bsr 1 = some { t.reposition with pos := (bytes before).length } := by
  have hback := @backOne_undoes t.reposition before after i eom h hi
  show t.reposition.backLoop false 1 = _
  cases i with
  | gap => exact absurd rfl hi
  | mark => rw [backLoop_mark hback, Tape.backLoop]
  | record r => rw [backLoop_data hback, if_neg (by decide), Tape.backLoop]

/-! ### Forward and back -/

/-- The item a block was read from is the last one that was passed. -/
theorem next_passed {l : List Item} (h : (next l).1 ≠ .eom) :
    ∃ gaps i, l = gaps ++ [i] ++ (next l).2 ∧ i ≠ .gap ∧ kindOf i = kindOfBlock (next l).1 := by
  induction l with
  | nil => exact absurd rfl h
  | cons i l ih =>
      cases i with
      | record r => exact ⟨[], .record r, rfl, nofun, rfl⟩
      | mark => exact ⟨[], .mark, rfl, nofun, rfl⟩
      | gap =>
          obtain ⟨gaps, i, hl, hi, hkind⟩ := ih h
          exact ⟨.gap :: gaps, i, congrArg (Item.gap :: ·) hl, hi, hkind⟩

/-- From the start of `after` the tape came to a later place, behind `passed`. -/
def Passed (before after : List Item) (eom : Bool) (t' : Tape) (passed : List Item) : Prop :=
  ∃ rest, after = passed ++ rest ∧ At t'.image t'.pos (before ++ passed) rest eom

theorem passed_readBlock {t : Tape} {before after : List Item} {eom : Bool}
    (h : At t.image t.pos before after eom) :
    ∃ passed, Passed before after eom t.readBlock.2 passed ∧ (t.readBlock.1 ≠ .eom →
      ∃ l i, passed = l ++ [i] ∧ i ≠ .gap ∧ kindOf i = kindOfBlock t.readBlock.1) := by
  obtain ⟨passed, hafter, hblock, hat⟩ := readBlock_at h
  refine ⟨passed, ⟨(next after).2, hafter, hat⟩, fun hne => ?_⟩
  rw [hblock] at hne ⊢
  obtain ⟨l, i, hl, hi, hkind⟩ := next_passed hne
  exact ⟨l, i, List.append_cancel_right (hafter.symm.trans hl), hi, hkind⟩

theorem passed_skipFile {t : Tape} {before after : List Item} {eom : Bool}
    (h : At t.image t.pos before after eom) :
    ∃ passed, Passed before after eom t.skipFile.2 passed := by
  fun_induction Tape.skipFile t generalizing before after with
  | case1 t t' hread =>
      obtain ⟨passed, hpassed, -⟩ := passed_readBlock h
      rw [hread] at hpassed
      exact ⟨passed, hpassed⟩
  | case2 t t' hread =>
      obtain ⟨passed, hpassed, -⟩ := passed_readBlock h
      rw [hread] at hpassed
      exact ⟨passed, hpassed⟩
  | case3 t bs t' hread ih =>
      obtain ⟨passed, hpassed, -⟩ := passed_readBlock h
      rw [hread] at hpassed
      obtain ⟨rest, rfl, hat⟩ := hpassed
      obtain ⟨passed', rest', hrest, hat'⟩ := ih hat
      refine ⟨passed ++ passed', rest', ?_, ?_⟩
      · rw [hrest, List.append_assoc]
      · rw [← List.append_assoc]
        exact hat'

/-- A motion forward over one item or one file. -/
inductive Forward where
  | readBlock
  | fsr
  | fsf

def Tape.forward (t : Tape) : Forward → Tape
  | .readBlock => t.readBlock.2
  | .fsr => t.fsr 1
  | .fsf => t.fsf 1

theorem fsr_one (t : Tape) : t.fsr 1 = t.reposition.readBlock.2 := by
  show Tape.fsrLoop 1 t.reposition = _
  rw [Tape.fsrLoop]
  split <;> simp_all [Tape.fsrLoop]

theorem fsf_one (t : Tape) : t.fsf 1 = t.reposition.skipFile.2 := by
  show Tape.fsfLoop 1 t.reposition = _
  rw [Tape.fsfLoop]
  split <;> simp_all [Tape.fsfLoop]

theorem passed_forward {t : Tape} {before after : List Item} {eom : Bool}
    (h : At t.image t.pos before after eom) (m : Forward) :
    ∃ passed, Passed before after eom (t.forward m) passed := by
  cases m with
  | readBlock =>
      obtain ⟨passed, hpassed, -⟩ := passed_readBlock h
      exact ⟨passed, hpassed⟩
  | fsr =>
      obtain ⟨passed, hpassed, -⟩ := @passed_readBlock t.reposition before after eom h
      exact ⟨passed, by rw [Tape.forward, fsr_one]; exact hpassed⟩
  | fsf =>
      obtain ⟨passed, hpassed⟩ := @passed_skipFile t.reposition before after eom h
      exact ⟨passed, by rw [Tape.forward, fsf_one]; exact hpassed⟩

/-! ### Spacing back over files -/

/-- What stands before the `k`-th preceding mark; the items are given last first. -/
def beforeMark : Nat → List Item → List Item
  | 0, l => l
  | _, [] => []
  | k + 1, .mark :: l => beforeMark k l
  | k + 1, _ :: l => beforeMark (k + 1) l

/-- An erase gap stands behind the `k`-th preceding mark. -/
def gapInWay : Nat → List Item → Bool
  | 0, _ => false
  | _, [] => false
  | k + 1, .mark :: l => gapInWay k l
  | k + 1, .record _ :: l => gapInWay (k + 1) l
  | _ + 1, .gap :: _ => true

/-- The place one item earlier. -/
theorem At.previous {image : List Byte} {pos : Nat} {before after : List Item} {i : Item}
    {eom : Bool} (h : At image pos (before ++ [i]) after eom) :
    At image (bytes before).length before (i :: after) eom := by
  refine ⟨?_, rfl⟩
  rw [h.image_eq, bytes_append, bytes_singleton, bytes_cons, List.append_assoc, List.append_assoc]

theorem backLoop_clear (l : List Item) {t : Tape} {after : List Item} {eom : Bool} {k : Nat}
    (h : At t.image t.pos l.reverse after eom) (hclear : gapInWay k l = false) :
    t.backLoop true k = some { t with pos := (bytes (beforeMark k l).reverse).length } := by
  induction l generalizing t after k with
  | nil =>
      have hstart : beforeMark k [] = [] := by cases k <;> rfl
      rw [backLoop_start h.pos_eq, hstart]
      rfl
  | cons i l ih =>
      cases k with
      | zero =>
          rw [Tape.backLoop, beforeMark, ← h.pos_eq]
      | succ k =>
          rw [List.reverse_cons] at h
          have hprevious := At.previous h
          cases i with
          | mark =>
              have hback := backOne_undoes h Item.noConfusion
              rw [backLoop_mark hback]
              exact ih hprevious hclear
          | record r =>
              have hback := backOne_undoes h Item.noConfusion
              rw [backLoop_data hback]
              exact ih hprevious hclear
          | gap => exact Bool.noConfusion hclear

/-- Over a gap the tape goes to its start, unless it is longer than the gap's word says. -/
theorem backLoop_gap (l : List Item) {t : Tape} {after : List Item} {eom : Bool} {k : Nat}
    (h : At t.image t.pos l.reverse after eom) (hgap : gapInWay k l = true)
    (hpos : t.pos ≤ gapJump) : t.backLoop true k = some { t with pos := 0 } := by
  induction l generalizing t after k with
  | nil => cases k <;> exact Bool.noConfusion hgap
  | cons i l ih =>
      cases k with
      | zero => exact Bool.noConfusion hgap
      | succ k =>
          rw [List.reverse_cons] at h
          have hprevious := At.previous h
          have hle : (bytes l.reverse).length ≤ t.pos := by
            rw [h.pos_eq, bytes_append, List.length_append]
            omega
          cases i with
          | mark =>
              have hback := backOne_undoes h nofun
              rw [backLoop_mark hback]
              exact ih hprevious hgap (hle.trans hpos)
          | record r =>
              have hback := backOne_undoes h nofun
              rw [backLoop_data hback]
              exact ih hprevious hgap (hle.trans hpos)
          | gap =>
              have hback := backOne_gap h
              rw [Nat.sub_eq_zero_of_le hpos] at hback
              rw [backLoop_data hback]
              exact backLoop_start rfl

theorem bytes_length_eq_zero {l : List Item} : (bytes l).length = 0 ↔ l = [] := by
  cases l with
  | nil => simp [bytes]
  | cons i l =>
      have := item_length i
      rw [bytes_cons, List.length_append]
      simp only [reduceCtorEq, iff_false]
      omega

/-- `bsf` stops right before the `k`-th preceding mark, or at the start of the tape. -/
def StopsAtMark (t : Tape) (before : List Item) (k : Nat) : Prop :=
  t.bsf k = some { t.reposition with pos := (bytes (beforeMark k before.reverse).reverse).length }

/-- No gap is in the way; or `bsf` has to go to the start anyway, and a gap leads there. -/
def ClearWay (t : Tape) (before : List Item) (k : Nat) : Prop :=
  gapInWay k before.reverse = false ∨ beforeMark k before.reverse = [] ∧ t.pos ≤ gapJump

theorem stopsAtMark_of_clearWay {t : Tape} {before after : List Item} {eom : Bool} {k : Nat}
    (h : At t.image t.pos before after eom) (hclear : ClearWay t before k) :
    StopsAtMark t before k := by
  have hat : At t.reposition.image t.reposition.pos before.reverse.reverse after eom := by
    rw [List.reverse_reverse]
    exact h
  show t.reposition.backLoop true k = _
  rcases hclear with hclear | ⟨hstart, hpos⟩
  · exact backLoop_clear _ hat hclear
  · cases hgap : gapInWay k before.reverse with
    | false => exact backLoop_clear _ hat hgap
    | true =>
        rw [backLoop_gap _ hat hgap hpos, hstart]
        rfl

theorem clearWay_of_stopsAtMark {t : Tape} {before after : List Item} {eom : Bool} {k : Nat}
    (h : At t.image t.pos before after eom) (hpos : t.pos ≤ gapJump)
    (hstops : StopsAtMark t before k) : ClearWay t before k := by
  cases hgap : gapInWay k before.reverse with
  | false => exact .inl hgap
  | true =>
      have hat : At t.reposition.image t.reposition.pos before.reverse.reverse after eom := by
        rw [List.reverse_reverse]
        exact h
      have hzero : t.bsf k = some { t.reposition with pos := 0 } := backLoop_gap _ hat hgap hpos
      have hlength : 0 = (bytes (beforeMark k before.reverse).reverse).length :=
        congrArg Tape.pos (Option.some_inj.mp (hzero.symm.trans hstops))
      have hempty := bytes_length_eq_zero.mp hlength.symm
      exact .inr ⟨List.reverse_eq_nil_iff.mp hempty, hpos⟩

/-- A step back undoes a step forward over a record or a mark, whatever gaps there are;
spacing back over files stops where it should whenever no gap is in the way, and up to two
gigabytes only then. -/
theorem backward_motion {t : Tape} {before after : List Item} {eom : Bool}
    (h : At t.image t.pos before after eom) :
    (t.readBlock.1 ≠ .eom → ∃ l i, i ≠ .gap ∧ kindOf i = kindOfBlock t.readBlock.1 ∧
      Passed before after eom t.readBlock.2 (l ++ [i])) ∧
    (∀ m, ∃ passed, Passed before after eom (t.forward m) passed ∧
      ∀ l i, passed = l ++ [i] → i ≠ .gap →
        (t.forward m).backOne =
          some (kindOf i, { t.forward m with pos := (bytes (before ++ l)).length }) ∧
        (t.forward m).bsr 1 =
          some { (t.forward m).reposition with pos := (bytes (before ++ l)).length }) ∧
    ∀ k, (ClearWay t before k → StopsAtMark t before k) ∧
      (t.pos ≤ gapJump → StopsAtMark t before k → ClearWay t before k) := by
  refine ⟨fun hne => ?_, fun m => ?_, fun k => ⟨stopsAtMark_of_clearWay h,
    clearWay_of_stopsAtMark h⟩⟩
  · obtain ⟨passed, hpassed, hlast⟩ := passed_readBlock h
    obtain ⟨l, i, rfl, hi, hkind⟩ := hlast hne
    exact ⟨l, i, hi, hkind, hpassed⟩
  · obtain ⟨passed, hpassed⟩ := passed_forward h m
    refine ⟨passed, hpassed, ?_⟩
    rintro l i rfl hi
    obtain ⟨rest, -, hat⟩ := hpassed
    rw [← List.append_assoc] at hat
    exact ⟨backOne_undoes hat hi, bsr_undoes hat hi⟩

def oneByte : Record where
  header := 1
  data := [0x41]
  pad := [0]
  header_lt := by decide
  not_mark := by decide
  not_gap := by decide
  not_eom := by decide
  length_data := rfl
  length_pad := rfl

/-- Behind a record, a mark and a gap. -/
def behindGap : Tape where
  image := bytes [.record oneByte, .mark, .gap]
  pos := 18

theorem at_behindGap : At behindGap.image behindGap.pos [.record oneByte, .mark, .gap] [] false :=
  ⟨by decide, by decide⟩

theorem backward_motion_sample : StopsAtMark behindGap [.record oneByte, .mark, .gap] 2 :=
  ((backward_motion at_behindGap).2.2 2).1 (.inr ⟨rfl, by decide +kernel⟩)

/-- The first preceding mark is at 10, and `bsf` goes to the start. -/
theorem gap_passes_mark :
    ¬ ∀ (t : Tape) (before after : List Item) (k : Nat),
      At t.image t.pos before after false → StopsAtMark t before k := by
  intro h
  have hstops := h behindGap _ _ 1 at_behindGap
  have hclear := clearWay_of_stopsAtMark at_behindGap (by decide +kernel) hstops
  exact absurd hclear (by
    unfold ClearWay
    decide +kernel)

end Rmt
