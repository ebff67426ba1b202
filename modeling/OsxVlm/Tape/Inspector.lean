import Mathlib
import OsxVlm.Tape.Rmtd

/-!
# The tape inspector

`tapedump` walks an image by itself.  Where it finds nothing bad, it finds the
blocks the server reads.
-/

namespace Rmt

open Simh

inductive Entry where
  | data (bs : List Byte)
  | mark
  | eom
  | bad (message : String)
  deriving DecidableEq

/-- `records` on the rest of the image from offset `i`. -/
def recordsAt : List Byte → Nat → List Entry
  | [], _ => []
  | b0 :: b1 :: b2 :: b3 :: rest, i =>
      let header := unpack b0 b1 b2 b3
      if header = tapeMark then .mark :: recordsAt rest (i + 4)
      else if header = eomMark then [.eom]
      else if header = eraseGap then recordsAt rest (i + 4)
      else
        let length := dataLength header
        if rest.length < length then
          [.bad s!"record claims {length} bytes but only {rest.length} remain"]
        else
          match h : rest.drop (length + length % 2) with
          | t0 :: t1 :: t2 :: t3 :: rest' =>
              let trailer := unpack t0 t1 t2 t3
              if dataLength trailer ≠ length then
                [.bad s!"trailer {trailer} != header {length}"]
              else .data (rest.take length) :: recordsAt rest' (i + 4 + (length + length % 2) + 4)
          | _ => [.bad s!"missing trailer for {length}-byte record"]
  | _, i => [.bad s!"truncated header at offset {i}"]
termination_by rest => rest.length
decreasing_by
  · simp only [List.length_cons]
    omega
  · simp only [List.length_cons]
    omega
  · have := congrArg List.length h
    simp only [List.length_drop, List.length_cons] at this ⊢
    omega

def records (data : List Byte) : List Entry := recordsAt data 0

def Entry.isBad : Entry → Bool
  | .bad _ => true
  | _ => false

/-- What the inspector finds up to the end of medium, as blocks. -/
def blocksOf : List Entry → List Block
  | .data bs :: es => .data bs :: blocksOf es
  | .mark :: es => .mark :: blocksOf es
  | _ => []

/-- The blocks the server reads, up to the end of medium. -/
def Tape.readBlocks (t : Tape) : List Block :=
  match _h : t.readBlock with
  | (.eom, _) => []
  | (.mark, t') => .mark :: t'.readBlocks
  | (.data bs, t') => .data bs :: t'.readBlocks
termination_by t.image.length - t.pos
decreasing_by
  all_goals
    obtain ⟨himage, hlt⟩ := readBlock_advance _h nofun
    rw [himage]
    exact hlt

/-! ### Both read the same -/

theorem readBlocks_eom {t t' : Tape} (h : t.readBlock = (.eom, t')) : t.readBlocks = [] := by
  rw [Tape.readBlocks]
  split <;> simp_all

theorem readBlocks_mark {t t' : Tape} (h : t.readBlock = (.mark, t')) :
    t.readBlocks = .mark :: t'.readBlocks := by
  rw [Tape.readBlocks]
  split <;> simp_all

theorem readBlocks_data {t t' : Tape} {bs : List Byte} (h : t.readBlock = (.data bs, t')) :
    t.readBlocks = .data bs :: t'.readBlocks := by
  rw [Tape.readBlocks]
  split <;> simp_all

/-- Tapes from which the same block is read. -/
theorem readBlocks_congr {t u : Tape} (h : t.readBlock = u.readBlock) :
    t.readBlocks = u.readBlocks := by
  match hread : u.readBlock with
  | (.eom, t') => rw [readBlocks_eom (h.trans hread), readBlocks_eom hread]
  | (.mark, t') => rw [readBlocks_mark (h.trans hread), readBlocks_mark hread]
  | (.data bs, t') => rw [readBlocks_data (h.trans hread), readBlocks_data hread]

/-- The server's view of what stands at the position. -/
theorem readBlock_of_drop {t : Tape} {rest : List Byte} (h : t.image.drop t.pos = rest) :
    t.readBlock = ((readBlockAt rest t.pos).1, { t with pos := (readBlockAt rest t.pos).2 }) := by
  unfold Tape.readBlock
  rw [h]

/-- Behind the word at the position. -/
theorem drop_word {t : Tape} {b0 b1 b2 b3 : Byte} {rest : List Byte}
    (h : t.image.drop t.pos = b0 :: b1 :: b2 :: b3 :: rest) : t.image.drop (t.pos + 4) = rest := by
  rw [← List.drop_drop, h]
  rfl

theorem readBlocks_eq (rest : List Byte) (t : Tape) (hdrop : t.image.drop t.pos = rest)
    (hgood : ∀ e ∈ recordsAt rest t.pos, e.isBad = false) :
    t.readBlocks = blocksOf (recordsAt rest t.pos) := by
  generalize hi : t.pos = i at hgood ⊢
  fun_induction recordsAt rest i generalizing t with
  | case1 => exact readBlocks_eom (readBlock_of_drop hdrop)
  | case2 b0 b1 b2 b3 rest i header hmark ih =>
      have hread := readBlock_of_drop hdrop
      simp only [readBlockAt] at hread
      rw [if_pos hmark] at hread
      rw [readBlocks_mark hread, blocksOf]
      exact congrArg (Block.mark :: ·) (ih _ (drop_word hdrop)
        (congrArg (· + 4) hi) fun e he => hgood e (List.mem_cons_of_mem _ he))
  | case3 b0 b1 b2 b3 rest i header hmark heom =>
      have hread := readBlock_of_drop hdrop
      simp only [readBlockAt] at hread
      rw [if_neg hmark, if_neg (fun h => absurd (heom.symm.trans h) (by decide)), if_pos heom]
        at hread
      exact readBlocks_eom hread
  | case4 b0 b1 b2 b3 rest i header hmark heom hgap ih =>
      have hread := readBlock_of_drop hdrop
      have hnext := drop_word hdrop
      simp only [readBlockAt] at hread
      rw [if_neg hmark, if_pos hgap] at hread
      have hskip := @readBlock_of_drop { t with pos := t.pos + 4 } rest hnext
      rw [readBlocks_congr (hread.trans hskip.symm)]
      exact ih _ hnext (congrArg (· + 4) hi) hgood
  | case5 => exact absurd (hgood _ (List.mem_singleton_self _)) (by simp [Entry.isBad])
  | case6 => exact absurd (hgood _ (List.mem_singleton_self _)) (by simp [Entry.isBad])
  | case7 b0 b1 b2 b3 rest i header hmark heom hgap length hlength t0 t1 t2 t3 rest' hrest trailer
      htrailer ih =>
      have hread := readBlock_of_drop hdrop
      simp only [readBlockAt] at hread
      rw [if_neg hmark, if_neg hgap, if_neg heom] at hread
      change t.readBlock = (.data (rest.take length),
        { t with pos := t.pos + 4 + min rest.length (length + length % 2 + 4) }) at hread
      have hle : length + length % 2 + 4 ≤ rest.length := by
        have := congrArg List.length hrest
        simp only [List.length_drop, List.length_cons] at this
        omega
      have hnext : t.image.drop (t.pos + (4 + (length + length % 2) + 4)) = rest' := by
        rw [← Nat.add_assoc, ← Nat.add_assoc, ← List.drop_drop, ← List.drop_drop,
          drop_word hdrop, hrest]
        rfl
      have hpos : t.pos + 4 + min rest.length (length + length % 2 + 4) =
          t.pos + (4 + (length + length % 2) + 4) := by omega
      rw [hpos] at hread
      rw [readBlocks_data hread, blocksOf]
      exact congrArg (Block.data _ :: ·) (ih _ hnext (by dsimp only; omega)
        fun e he => hgood e (List.mem_cons_of_mem _ he))
  | case8 => exact absurd (hgood _ (List.mem_singleton_self _)) (by simp [Entry.isBad])
  | case9 => exact absurd (hgood _ (List.mem_singleton_self _)) (by simp [Entry.isBad])

end Rmt
