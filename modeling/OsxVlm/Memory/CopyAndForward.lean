import Mathlib
import OsxVlm.Memory.Attributes
import OsxVlm.Memory.VirtualMemory

/-!
# Copying an object and forwarding to the copy

`VirtualMemoryCopyandForward` looks for a forwarding pointer and copies the tags
in one pass: `memccpy` stops behind the first byte that is the data type of one.
The forwarding pointers that the function leaves have a cdr code in that byte, so
it does not stop at its own.
-/

namespace VM

def typeGCForward : Tag := 37
def cdrNil : Tag := 1

/-- The low six bits of a tag. -/
def tagType (tag : Tag) : Tag := tag &&& 0x3F

/-- `memccpy` of `n` tags: stops behind the first that is `c`, and says whether it did. -/
def memccpy (c : Tag) : Nat → (Nat → Tag) → Nat → Nat → (Nat → Tag) × Bool
  | 0, tags, _, _ => (tags, false)
  | n + 1, tags, dst, src =>
      let tag := tags src
      let tags := Function.update tags dst tag
      if tag = c then (tags, true) else memccpy c n tags (dst + 1) (src + 1)

/-- The loop over the data: a word goes to its copy, and its place points there. -/
def forwardData : Nat → (Nat → Integer) → Nat → Nat → Integer → Nat → Integer
  | 0, data, _, _, _ => data
  | n + 1, data, todata, fromdata, forward =>
      let data := Function.update data todata (data fromdata)
      let data := Function.update data fromdata forward
      forwardData n data (todata + 1) (fromdata + 1) (forward + 1)

/-- The memory, and whether it was copied; the end of the data is found with 32 bits. -/
def virtualMemoryCopyandForward (m : Memory) (fromVma toVma count : Nat) : Memory × Bool :=
  let edata := (fromVma + count) % 2 ^ 32
  match memccpy typeGCForward count m.tagSpace toVma fromVma with
  | (tags, true) => ({ m with tagSpace := tags }, false)
  | (tags, false) =>
      ({ m with
        tagSpace := fun a =>
          if fromVma ≤ a ∧ a < fromVma + count then typeGCForward ||| cdrNil <<< 6 else tags a
        dataSpace := forwardData (edata - fromVma) m.dataSpace toVma fromVma toVma }, true)

/-! ### The two passes -/

section Passes

variable {src dst n : Nat}

/-- `f` with `n` words from `src` on also at `dst`. -/
def copied {α : Type*} (f : Nat → α) (src dst n : Nat) (a : Nat) : α :=
  if dst ≤ a ∧ a < dst + n then f (src + (a - dst)) else f a

/-- The ranges of `n` words have none in common. -/
def Apart (src dst n : Nat) : Prop := src + n ≤ dst ∨ dst + n ≤ src

theorem copied_dst {α : Type*} {f : Nat → α} {i : Nat} (hi : i < n) :
    copied f src dst n (dst + i) = f (src + i) := by
  unfold copied
  rw [if_pos (by omega), Nat.add_sub_cancel_left]

theorem copied_update {α : Type*} {f : Nat → α} (hdisj : Apart src dst (n + 1)) :
    copied (Function.update f dst (f src)) (src + 1) (dst + 1) n = copied f src dst (n + 1) := by
  unfold Apart at hdisj
  funext a
  unfold copied
  by_cases hin : dst + 1 ≤ a ∧ a < dst + 1 + n
  · have hne : src + 1 + (a - (dst + 1)) ≠ dst := by omega
    have heq : src + 1 + (a - (dst + 1)) = src + (a - dst) := by omega
    rw [if_pos hin, if_pos (by omega), Function.update_of_ne hne, heq]
  · rw [if_neg hin]
    by_cases hfirst : a = dst
    · subst hfirst
      rw [if_pos (by omega), Function.update_self, Nat.sub_self, Nat.add_zero]
    · rw [if_neg (by omega), Function.update_of_ne hfirst]

/-- `memccpy` copies the tags up to the first one that is `c`, or all. -/
theorem memccpy_cases (c : Tag) (tags : Nat → Tag) (hdisj : Apart src dst n) :
    (memccpy c n tags dst src = (copied tags src dst n, false) ∧ ∀ i < n, tags (src + i) ≠ c) ∨
      ∃ i < n, memccpy c n tags dst src = (copied tags src dst (i + 1), true) ∧
        tags (src + i) = c ∧ ∀ j < i, tags (src + j) ≠ c := by
  induction n generalizing tags src dst with
  | zero =>
      left
      refine ⟨?_, by intros; omega⟩
      show (tags, false) = _
      congr 1
      funext a
      exact (if_neg (by omega)).symm
  | succ n ih =>
      have hstep := hdisj
      unfold Apart at hstep
      have hkeep : ∀ i < n,
          Function.update tags dst (tags src) (src + 1 + i) = tags (src + (i + 1)) := by
        intro i hi
        rw [Function.update_of_ne (by omega), Nat.add_assoc, Nat.add_comm 1 i]
      unfold memccpy
      dsimp only
      by_cases hc : tags src = c
      · right
        refine ⟨0, Nat.succ_pos n, ?_, hc, by intros; omega⟩
        rw [if_pos hc]
        congr 1
        funext a
        unfold copied
        by_cases ha : a = dst
        · subst ha
          rw [Function.update_self, if_pos (by omega), Nat.sub_self, Nat.add_zero]
        · rw [Function.update_of_ne ha, if_neg (by omega)]
      · rw [if_neg hc]
        have hrest : Apart (src + 1) (dst + 1) n := by
          unfold Apart
          omega
        rcases ih (Function.update tags dst (tags src)) hrest with ⟨heq, hnone⟩ | ⟨i, hi, heq, hhit, hbefore⟩
        · left
          refine ⟨by rw [heq, copied_update hdisj], ?_⟩
          intro i hi
          cases i with
          | zero => exact hc
          | succ i =>
              rw [← hkeep i (by omega)]
              exact hnone i (by omega)
        · right
          have hdisj' : Apart src dst (i + 1 + 1) := by
            unfold Apart
            omega
          refine ⟨i + 1, by omega, by rw [heq, copied_update hdisj'], ?_, ?_⟩
          · rw [← hkeep i hi]
            exact hhit
          · intro j hj
            cases j with
            | zero => exact hc
            | succ j =>
                rw [← hkeep j (by omega)]
                exact hbefore j (by omega)

theorem forwardData_eq (data : Nat → Integer) (forward : Integer) (hdisj : Apart src dst n)
    (a : Nat) :
    forwardData n data dst src forward a =
      if src ≤ a ∧ a < src + n then forward + BitVec.ofNat 32 (a - src)
      else copied data src dst n a := by
  induction n generalizing data src dst forward with
  | zero =>
      unfold copied
      rw [if_neg (by omega), if_neg (by omega)]
      rfl
  | succ n ih =>
      have hstep := hdisj
      unfold Apart at hstep
      unfold forwardData
      dsimp only
      rw [ih _ _ (by unfold Apart; omega)]
      by_cases hin : src ≤ a ∧ a < src + (n + 1)
      · rw [if_pos hin]
        by_cases hfirst : a = src
        · subst hfirst
          unfold copied
          rw [if_neg (by omega), if_neg (by omega), Function.update_self, Nat.sub_self]
          simp
        · have hsub : a - src = a - (src + 1) + 1 := by omega
          rw [if_pos (by omega), hsub, BitVec.ofNat_add, BitVec.add_comm (BitVec.ofNat 32 _),
            ← BitVec.add_assoc]
          rfl
      · rw [if_neg hin, if_neg (by omega)]
        have hsource : src ≠ dst := by omega
        have hout : copied (Function.update (Function.update data dst (data src)) src forward)
            (src + 1) (dst + 1) n a =
            copied (Function.update data dst (data src)) (src + 1) (dst + 1) n a := by
          unfold copied
          split
          · exact Function.update_of_ne (by omega) _ _
          · exact Function.update_of_ne (by omega) _ _
        rw [hout, copied_update hdisj]

end Passes

/-! ### When a copy comes out right -/

variable {m : Memory} {fromVma toVma count : Nat}

/-- A word of the source is a forwarding pointer. -/
def Forwarded (m : Memory) (fromVma count : Nat) : Prop :=
  ∃ i < count, tagType (m.tagSpace (fromVma + i)) = typeGCForward

/-- The `i`th word is the first of the source whose whole tag is the data type of a
forwarding pointer. -/
def FirstBare (m : Memory) (fromVma count i : Nat) : Prop :=
  i < count ∧ m.tagSpace (fromVma + i) = typeGCForward ∧
    ∀ j < i, m.tagSpace (fromVma + j) ≠ typeGCForward

/-- The two memories have the same word at `a`. -/
def SameAt (m m' : Memory) (a : Nat) : Prop :=
  m'.tagSpace a = m.tagSpace a ∧ m'.dataSpace a = m.dataSpace a

/-- A copy from memory `m` to `m'`, which fails just on forwarded memory. -/
def CopiesOrFails (m : Memory) (fromVma toVma count : Nat) (m' : Memory) (result : Bool) : Prop :=
  (result = false ↔ Forwarded m fromVma count) ∧
  (result = false → ∀ i < count, SameAt m m' (fromVma + i) ∧ SameAt m m' (toVma + i)) ∧
  (result = true →
    (∀ i < count, m'.tagSpace (toVma + i) = m.tagSpace (fromVma + i) ∧
      m'.dataSpace (toVma + i) = m.dataSpace (fromVma + i)) ∧
    (∀ i < count, tagType (m'.tagSpace (fromVma + i)) = typeGCForward ∧
      m'.dataSpace (fromVma + i) = BitVec.ofNat 32 (toVma + i)) ∧
    ∀ a, (∀ i < count, a ≠ fromVma + i ∧ a ≠ toVma + i) → SameAt m m' a)

theorem tagType_bare : tagType typeGCForward = typeGCForward := by decide

theorem forwarded_of_bare {i : Nat} (h : FirstBare m fromVma count i) :
    Forwarded m fromVma count :=
  ⟨i, h.1, by rw [h.2.1, tagType_bare]⟩

/-- What the call does, by whether there is a bare tag. -/
theorem virtualMemoryCopyandForward_cases (hapart : Apart fromVma toVma count) :
    ((∀ i < count, m.tagSpace (fromVma + i) ≠ typeGCForward) ∧
      virtualMemoryCopyandForward m fromVma toVma count =
        ({ m with
          tagSpace := fun a =>
            if fromVma ≤ a ∧ a < fromVma + count then typeGCForward ||| cdrNil <<< 6
            else copied m.tagSpace fromVma toVma count a
          dataSpace := forwardData ((fromVma + count) % 2 ^ 32 - fromVma) m.dataSpace toVma fromVma
            toVma }, true)) ∨
    ∃ i, FirstBare m fromVma count i ∧
      virtualMemoryCopyandForward m fromVma toVma count =
        ({ m with tagSpace := copied m.tagSpace fromVma toVma (i + 1) }, false) := by
  unfold virtualMemoryCopyandForward
  rcases memccpy_cases typeGCForward m.tagSpace hapart with ⟨heq, hnone⟩ | ⟨i, hi, heq, hhit, hbefore⟩
  · left
    rw [heq]
    exact ⟨hnone, rfl⟩
  · right
    rw [heq]
    exact ⟨i, ⟨hi, hhit, hbefore⟩, rfl⟩

/-- A call that stops leaves the ranges alone just when the copied tags stood there
already. -/
theorem copiesOrFails_bare_iff (hapart : Apart fromVma toVma count) {i : Nat}
    (hbare : FirstBare m fromVma count i) :
    CopiesOrFails m fromVma toVma count
        { m with tagSpace := copied m.tagSpace fromVma toVma (i + 1) } false ↔
      ∀ j ≤ i, m.tagSpace (toVma + j) = m.tagSpace (fromVma + j) := by
  have hi := hbare.1
  unfold Apart at hapart
  constructor
  · rintro ⟨-, hsame, -⟩ j hj
    have hword := (hsame rfl j (by omega)).2.1
    unfold copied at hword
    dsimp only at hword
    rw [if_pos (by omega), Nat.add_sub_cancel_left] at hword
    exact hword.symm
  · intro hfront
    refine ⟨iff_of_true rfl (forwarded_of_bare hbare), ?_, by intro h; cases h⟩
    intro _ j hj
    refine ⟨⟨if_neg (by omega), rfl⟩, ⟨?_, rfl⟩⟩
    show copied m.tagSpace fromVma toVma (i + 1) (toVma + j) = m.tagSpace (toVma + j)
    unfold copied
    split
    · next hin =>
        rw [Nat.add_sub_cancel_left]
        exact (hfront j (by omega)).symm
    · rfl

/-- A call that goes through is right where nothing was forwarded, and the data was
copied or stood there already. -/
theorem copiesOrFails_through_iff (hfrom : fromVma + count ≤ 2 ^ 32)
    (hapart : Apart fromVma toVma count) :
    CopiesOrFails m fromVma toVma count
        { m with
          tagSpace := fun a =>
            if fromVma ≤ a ∧ a < fromVma + count then typeGCForward ||| cdrNil <<< 6
            else copied m.tagSpace fromVma toVma count a
          dataSpace := forwardData ((fromVma + count) % 2 ^ 32 - fromVma) m.dataSpace toVma fromVma
            toVma } true ↔
      ¬ Forwarded m fromVma count ∧
        (fromVma + count < 2 ^ 32 ∨
          ∀ i < count, m.dataSpace (fromVma + i) = m.dataSpace (toVma + i) ∧
            m.dataSpace (fromVma + i) = BitVec.ofNat 32 (toVma + i)) := by
  have hdata : ∀ a, forwardData ((fromVma + count) % 2 ^ 32 - fromVma) m.dataSpace toVma fromVma
      toVma a =
      if fromVma + count < 2 ^ 32 then
        if fromVma ≤ a ∧ a < fromVma + count then BitVec.ofNat 32 (toVma + (a - fromVma))
        else copied m.dataSpace fromVma toVma count a
      else m.dataSpace a := by
    intro a
    split
    · next hlt =>
        rw [Nat.mod_eq_of_lt hlt, Nat.add_sub_cancel_left, forwardData_eq _ _ hapart,
          BitVec.ofNat_add]
        rfl
    · next hge =>
        have hend : (fromVma + count) % 2 ^ 32 - fromVma = 0 := by
          have heq : fromVma + count = 2 ^ 32 := by omega
          rw [heq, Nat.mod_self, Nat.zero_sub]
        rw [hend]
        rfl
  unfold Apart at hapart
  constructor
  · rintro ⟨hresult, -, hthrough⟩
    obtain ⟨hcopy, hforward, -⟩ := hthrough rfl
    refine ⟨fun hhit => by simpa using hresult.mpr hhit, ?_⟩
    by_cases hlt : fromVma + count < 2 ^ 32
    · exact .inl hlt
    · right
      intro i hi
      have hcopy := (hcopy i hi).2
      have hforward := (hforward i hi).2
      dsimp only at hcopy hforward
      rw [hdata, if_neg hlt] at hcopy hforward
      exact ⟨hcopy.symm, hforward⟩
  · rintro ⟨hno, hmoved⟩
    refine ⟨iff_of_false (by simp) hno, (by intro h; cases h), fun _ => ⟨?_, ?_, ?_⟩⟩
    · intro i hi
      refine ⟨(if_neg (by omega)).trans (copied_dst hi), ?_⟩
      dsimp only
      rw [hdata]
      split
      · rw [if_neg (by omega), copied_dst hi]
      · next hge => exact ((hmoved.resolve_left hge) i hi).1.symm
    · intro i hi
      have hin : fromVma ≤ fromVma + i ∧ fromVma + i < fromVma + count := by omega
      dsimp only
      rw [hdata, if_pos hin]
      refine ⟨by decide, ?_⟩
      split
      · rw [Nat.add_sub_cancel_left]
      · next hge => exact ((hmoved.resolve_left hge) i hi).2
    · intro a hout
      have hsource : ¬ (fromVma ≤ a ∧ a < fromVma + count) := by
        intro hin
        exact (hout (a - fromVma) (by omega)).1 (by omega)
      have hdest : ¬ (toVma ≤ a ∧ a < toVma + count) := by
        intro hin
        exact (hout (a - toVma) (by omega)).2 (by omega)
      unfold SameAt
      dsimp only
      rw [hdata]
      unfold copied
      simp [hsource, hdest]

/-- The copy comes out right on memory without a forwarding pointer whose end the code
can tell, and on memory with a bare one whose tags stand at the destination already.
Memory that was copied is copied again. -/
theorem virtualMemoryCopyandForward_copiesOrFails_iff (hfrom : fromVma + count ≤ 2 ^ 32)
    (hapart : Apart fromVma toVma count) (m : Memory) :
    (CopiesOrFails m fromVma toVma count (virtualMemoryCopyandForward m fromVma toVma count).1
        (virtualMemoryCopyandForward m fromVma toVma count).2 ↔
      (¬ Forwarded m fromVma count ∧
        (fromVma + count < 2 ^ 32 ∨
          ∀ i < count, m.dataSpace (fromVma + i) = m.dataSpace (toVma + i) ∧
            m.dataSpace (fromVma + i) = BitVec.ofNat 32 (toVma + i))) ∨
      ∃ i, FirstBare m fromVma count i ∧
        ∀ j ≤ i, m.tagSpace (toVma + j) = m.tagSpace (fromVma + j)) ∧
    ((virtualMemoryCopyandForward m fromVma toVma count).2 = true →
      (virtualMemoryCopyandForward (virtualMemoryCopyandForward m fromVma toVma count).1 fromVma
        toVma count).2 = true) := by
  rcases virtualMemoryCopyandForward_cases (m := m) hapart with ⟨hnone, heq⟩ | ⟨i, hbare, heq⟩
  · refine ⟨?_, ?_⟩
    · rw [heq, copiesOrFails_through_iff hfrom hapart]
      constructor
      · exact .inl
      · rintro (h | ⟨i, hbare, -⟩)
        · exact h
        · exact absurd hbare.2.1 (hnone i hbare.1)
    · -- the forwarding pointers it left are not bare
      intro _
      rcases virtualMemoryCopyandForward_cases
          (m := (virtualMemoryCopyandForward m fromVma toVma count).1) hapart with
        ⟨-, hagain⟩ | ⟨i, hbare, -⟩
      · rw [hagain]
      · have htag := hbare.2.1
        have hi := hbare.1
        rw [heq] at htag
        dsimp only at htag
        rw [if_pos (by omega)] at htag
        exact absurd htag (by decide)
  · refine ⟨?_, ?_⟩
    · rw [heq, copiesOrFails_bare_iff hapart hbare]
      constructor
      · exact fun hfront => .inr ⟨i, hbare, hfront⟩
      · rintro (⟨hno, -⟩ | ⟨i', hbare', hfront⟩)
        · exact absurd (forwarded_of_bare hbare) hno
        · have heqi : i = i' := by
            rcases Nat.lt_trichotomy i i' with hlt | heqi | hgt
            · exact absurd hbare.2.1 (hbare'.2.2 i hlt)
            · exact heqi
            · exact absurd hbare'.2.1 (hbare.2.2 i' hgt)
          rw [heqi]
          exact hfront
    · rw [heq]
      intro h
      cases h

theorem virtualMemoryCopyandForward_copiesOrFails_empty :
    (CopiesOrFails (Memory.empty false) 0 8 8 (virtualMemoryCopyandForward (Memory.empty false) 0 8 8).1
        (virtualMemoryCopyandForward (Memory.empty false) 0 8 8).2 ↔
      (¬ Forwarded (Memory.empty false) 0 8 ∧
        (0 + 8 < 2 ^ 32 ∨
          ∀ i < 8, (Memory.empty false).dataSpace (0 + i) = (Memory.empty false).dataSpace (8 + i) ∧
            (Memory.empty false).dataSpace (0 + i) = BitVec.ofNat 32 (8 + i))) ∨
      ∃ i, FirstBare (Memory.empty false) 0 8 i ∧
        ∀ j ≤ i, (Memory.empty false).tagSpace (8 + j) = (Memory.empty false).tagSpace (0 + j)) ∧
    ((virtualMemoryCopyandForward (Memory.empty false) 0 8 8).2 = true →
      (virtualMemoryCopyandForward (virtualMemoryCopyandForward (Memory.empty false) 0 8 8).1 0 8
        8).2 = true) :=
  virtualMemoryCopyandForward_copiesOrFails_iff (by decide) (.inl (by decide)) _

/-- One word copied twice: the second call says that it was copied, and takes the
forwarding pointer for the word. -/
theorem virtualMemoryCopyandForward_twice :
    let first := (virtualMemoryCopyandForward (Memory.empty false) 0 8 1).1
    let second := virtualMemoryCopyandForward first 0 8 1
    Forwarded first 0 1 ∧ second.2 = true ∧ second.1.dataSpace 8 = 8 ∧
      ¬ CopiesOrFails first 0 8 1 second.1 second.2 := by
  have hforwarded : Forwarded (virtualMemoryCopyandForward (Memory.empty false) 0 8 1).1 0 1 :=
    ⟨0, by decide, by decide⟩
  have hthrough : (virtualMemoryCopyandForward
      (virtualMemoryCopyandForward (Memory.empty false) 0 8 1).1 0 8 1).2 = true := by decide
  refine ⟨hforwarded, hthrough, by decide, ?_⟩
  rintro ⟨hresult, -⟩
  have hfails := hresult.mpr hforwarded
  rw [hthrough] at hfails
  cases hfails

end VM
