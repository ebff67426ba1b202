import Mathlib

/-!
# Searching and splitting lists

The last place of a pattern in a list, and the pieces between the places of a
separator, taken from the left without overlap.  `splitOn_first` says what one
step of the split does, `lastIndexOf_lt` which place is found; a separator may
overlap itself, so both speak of places and not of decompositions.
-/

namespace Substring

variable {α : Type*} [DecidableEq α]

/-- The pattern `p` stands in `t` at place `i`. -/
def OccursAt (p t : List α) (i : Nat) : Prop := p <+: t.drop i

instance (p t : List α) (i : Nat) : Decidable (OccursAt p t i) :=
  inferInstanceAs (Decidable (_ <+: _))

/-- The last place of `p` in `t`, `-1` if there is none. -/
def lastIndexOf (p : List α) : List α → Int
  | [] => if p = [] then 0 else -1
  | a :: t =>
      let i := lastIndexOf p t
      if 0 ≤ i then i + 1 else if p <+: a :: t then 0 else -1

/-- The first place of `p` in `t`. -/
def indexOf (p t : List α) : Option Nat :=
  (List.range (t.length + 1)).find? fun i => OccursAt p t i

/-- The pieces of a list between the places of `sep`; `skip` elements of a place
are still to be passed over. -/
def splitFrom (sep : List α) : List α → Nat → List (List α)
  | [], _ => [[]]
  | _ :: t, skip + 1 => splitFrom sep t skip
  | a :: t, 0 =>
      if sep <+: a :: t then [] :: splitFrom sep t (sep.length - 1)
      else (splitFrom sep t 0).modifyHead (a :: ·)

def splitOn (sep t : List α) : List (List α) := splitFrom sep t 0

section OccursAt

variable {p t : List α} {i : Nat}

omit [DecidableEq α] in
theorem occursAt_iff : OccursAt p t i ↔ ∃ r, t.drop i = p ++ r := by
  unfold OccursAt
  exact ⟨fun ⟨r, hr⟩ => ⟨r, hr.symm⟩, fun ⟨r, hr⟩ => ⟨r, hr.symm⟩⟩

omit [DecidableEq α] in
theorem OccursAt.le (h : OccursAt p t i) (hp : p ≠ []) : i + p.length ≤ t.length := by
  have hlen := h.length_le
  rw [List.length_drop] at hlen
  have := List.length_pos_of_ne_nil hp
  omega

omit [DecidableEq α] in
theorem occursAt_succ (a : α) : OccursAt p (a :: t) (i + 1) ↔ OccursAt p t i := Iff.rfl

omit [DecidableEq α] in
/-- Places after the first part of a list are places of the second. -/
theorem occursAt_append_right (s : List α) : OccursAt p (s ++ t) (s.length + i) ↔ OccursAt p t i := by
  unfold OccursAt
  rw [List.drop_append, List.drop_of_length_le (by omega), List.nil_append,
    Nat.add_sub_cancel_left]

omit [DecidableEq α] in
/-- Places that end in the first part do not depend on the second. -/
theorem occursAt_append_left (s : List α) (hle : i + p.length ≤ t.length) :
    OccursAt p (t ++ s) i ↔ OccursAt p t i := by
  unfold OccursAt
  rw [List.drop_append_of_le_length (by omega)]
  constructor
  · intro h
    apply List.prefix_of_prefix_length_le h (List.prefix_append _ s)
    rw [List.length_drop]
    omega
  · intro h
    exact h.trans (List.prefix_append _ s)

omit [DecidableEq α] in
theorem OccursAt.getElem? (h : OccursAt p t i) {j : Nat} (hj : j < p.length) :
    t[i + j]? = p[j]? := by
  obtain ⟨r, hr⟩ := h
  rw [← List.getElem?_drop, ← hr, List.getElem?_append_left hj]

omit [DecidableEq α] in
theorem OccursAt.infix (h : OccursAt p t i) : p <:+: t :=
  h.isInfix.trans (List.drop_suffix i t).isInfix

omit [DecidableEq α] in
theorem infix_iff_occursAt : p <:+: t ↔ ∃ i, OccursAt p t i := by
  constructor
  · rintro ⟨s, r, rfl⟩
    refine ⟨s.length, r, ?_⟩
    rw [List.append_assoc, List.drop_left]
  · rintro ⟨i, h⟩
    exact h.infix

omit [DecidableEq α] in
/-- Two places of a pattern whose first element comes once do not overlap. -/
theorem OccursAt.apart {r : α} {rest : List α} (hr : r ∉ rest) {j : Nat}
    (hi : OccursAt (r :: rest) t i) (hj : OccursAt (r :: rest) t j) (hlt : i < j) :
    i + (r :: rest).length ≤ j := by
  by_contra hover
  have hinside : j - i < (r :: rest).length := by omega
  have hhead := hj.getElem? (j := 0) (Nat.succ_pos _)
  have hsame := hi.getElem? hinside
  rw [Nat.add_zero] at hhead
  rw [show i + (j - i) = j by omega, hhead] at hsame
  obtain ⟨n, hn⟩ : ∃ n, j - i = n + 1 := ⟨j - i - 1, by omega⟩
  rw [hn, List.getElem?_cons_zero, List.getElem?_cons_succ] at hsame
  exact hr (List.mem_of_getElem? hsame.symm)

end OccursAt

/-! ### The last place -/

section Last

variable {p t : List α}

theorem lastIndexOf_ge (p t : List α) : -1 ≤ lastIndexOf p t := by
  induction t with
  | nil =>
      unfold lastIndexOf
      split <;> omega
  | cons a t ih =>
      unfold lastIndexOf
      dsimp only
      split
      · omega
      · split <;> omega

/-- The last place lies before `i` exactly if the pattern stands nowhere from `i` on. -/
theorem lastIndexOf_lt (hp : p ≠ []) {i : Nat} :
    lastIndexOf p t < i ↔ ∀ j, i ≤ j → ¬ OccursAt p t j := by
  induction t generalizing i with
  | nil =>
      unfold lastIndexOf
      rw [if_neg hp]
      have hlen := List.length_pos_of_ne_nil hp
      constructor
      · intro _ j _ hj
        have hle := hj.le hp
        rw [List.length_nil] at hle
        omega
      · intro _
        omega
  | cons a t ih =>
      have hge := lastIndexOf_ge p t
      have hany := ih (i := 0)
      unfold lastIndexOf
      dsimp only
      cases i with
      | zero =>
          split
          · next hpos =>
            constructor
            · intro h
              omega
            · intro h
              have : lastIndexOf p t < (0 : Nat) := hany.mpr fun j _ hj => h (j + 1) (by omega) hj
              omega
          · next hneg =>
            have hnone := hany.mp (by omega)
            split
            · next hhere =>
              constructor
              · intro h
                omega
              · intro h
                exact absurd hhere (h 0 le_rfl)
            · next hnot =>
              constructor
              · intro _ j _ hj
                cases j with
                | zero => exact hnot hj
                | succ j => exact hnone j (Nat.zero_le j) hj
              · intro _
                omega
      | succ i =>
          have hshift : (∀ j, i + 1 ≤ j → ¬ OccursAt p (a :: t) j) ↔
              ∀ j, i ≤ j → ¬ OccursAt p t j := by
            constructor
            · intro h j hj
              exact h (j + 1) (by omega)
            · intro h j hj
              obtain ⟨j, rfl⟩ : ∃ j', j = j' + 1 := ⟨j - 1, by omega⟩
              exact h j (by omega)
          rw [hshift, ← ih]
          split
          · omega
          · split <;> omega

theorem OccursAt.le_lastIndexOf (hp : p ≠ []) {i : Nat} (h : OccursAt p t i) :
    (i : Int) ≤ lastIndexOf p t := by
  by_contra hlt
  exact (lastIndexOf_lt hp).mp (by omega) i le_rfl h

/-- The place found is a place of the pattern. -/
theorem occursAt_of_lastIndexOf (hp : p ≠ []) {i : Nat} (h : lastIndexOf p t = i) :
    OccursAt p t i := by
  by_contra hnot
  have hlt : lastIndexOf p t < i := by
    rw [lastIndexOf_lt hp]
    intro j hj hat
    have hle := hat.le_lastIndexOf hp
    obtain rfl : j = i := by omega
    exact hnot hat
  omega

/-- The last place does not lie after the start of the second part exactly if
the pattern stands nowhere later in it. -/
theorem lastIndexOf_append_le (hp : p ≠ []) (s : List α) :
    lastIndexOf p (s ++ t) ≤ s.length ↔ ∀ j, 0 < j → ¬ OccursAt p t j := by
  have hlt := lastIndexOf_lt (t := s ++ t) hp (i := s.length + 1)
  rw [Nat.cast_succ, Int.lt_add_one_iff] at hlt
  rw [hlt]
  constructor
  · intro h j hj hat
    apply h (s.length + j) (by omega)
    rwa [occursAt_append_right]
  · intro h j hj hat
    obtain ⟨n, rfl⟩ : ∃ n, j = s.length + n := ⟨j - s.length, by omega⟩
    rw [occursAt_append_right] at hat
    exact h n (by omega) hat

end Last

/-! ### The first place -/

theorem occursAt_of_indexOf {p t : List α} {i : Nat} (h : indexOf p t = some i) :
    OccursAt p t i ∧ ∀ j, j < i → ¬ OccursAt p t j := by
  obtain ⟨hat, -, hfirst⟩ := List.find?_range_eq_some.mp h
  constructor
  · exact of_decide_eq_true hat
  · intro j hj hocc
    have hnot := hfirst j hj
    rw [decide_eq_true hocc] at hnot
    cases hnot

/-! ### Splitting -/

section Split

variable {sep t : List α}

theorem splitFrom_ne_nil (sep t : List α) (skip : Nat) : splitFrom sep t skip ≠ [] := by
  induction t generalizing skip with
  | nil => nofun
  | cons a t ih =>
      cases skip with
      | zero =>
          unfold splitFrom
          split
          · nofun
          · intro h
            rw [List.modifyHead_eq_nil_iff] at h
            exact ih 0 h
      | succ skip => exact ih skip

theorem splitFrom_skip (sep t : List α) (skip : Nat) :
    splitFrom sep t skip = splitOn sep (t.drop skip) := by
  induction t generalizing skip with
  | nil =>
      rw [List.drop_nil]
      rfl
  | cons a t ih =>
      cases skip with
      | zero => rfl
      | succ skip => exact ih skip

/-- Without a place of the separator there is one piece. -/
theorem splitOn_none (hnone : ∀ i, ¬ OccursAt sep t i) : splitOn sep t = [t] := by
  induction t with
  | nil => rfl
  | cons a t ih =>
      have hrest := ih fun i hi => hnone (i + 1) hi
      have hnot : ¬ sep <+: a :: t := hnone 0
      unfold splitOn at hrest ⊢
      rw [splitFrom, if_neg hnot, hrest]
      rfl

/-- The first piece ends at the first place of the separator. -/
theorem splitOn_first (hsep : sep ≠ []) {i : Nat} (hat : OccursAt sep t i)
    (hfirst : ∀ j, j < i → ¬ OccursAt sep t j) :
    splitOn sep t = t.take i :: splitOn sep (t.drop (i + sep.length)) := by
  induction i generalizing t with
  | zero =>
      cases t with
      | nil =>
          have hle := hat.le hsep
          have := List.length_pos_of_ne_nil hsep
          rw [List.length_nil] at hle
          omega
      | cons a t =>
          obtain ⟨n, hn⟩ : ∃ n, sep.length = n + 1 :=
            ⟨sep.length - 1, by have := List.length_pos_of_ne_nil hsep; omega⟩
          have hhere : sep <+: a :: t := hat
          unfold splitOn
          rw [splitFrom, if_pos hhere, splitFrom_skip, hn]
          rw [Nat.add_sub_cancel, Nat.zero_add, List.drop_succ_cons]
          rfl
  | succ i ih =>
      cases t with
      | nil =>
          have hle := hat.le hsep
          rw [List.length_nil] at hle
          omega
      | cons a t =>
          have hrest := ih (t := t) hat fun j hj => hfirst (j + 1) (by omega)
          have hnot : ¬ sep <+: a :: t := hfirst 0 (by omega)
          unfold splitOn at hrest ⊢
          rw [splitFrom, if_neg hnot, hrest, Nat.add_right_comm]
          rfl

/-- Every list has a first place of a separator that stands in it. -/
theorem exists_first {i : Nat} (hat : OccursAt sep t i) :
    ∃ j, j ≤ i ∧ OccursAt sep t j ∧ ∀ n, n < j → ¬ OccursAt sep t n := by
  refine ⟨Nat.find ⟨i, hat⟩, Nat.find_min' _ hat, Nat.find_spec ⟨i, hat⟩, fun n hn => ?_⟩
  exact Nat.find_min ⟨i, hat⟩ hn

/-- The pieces are `vs` when each is followed by the separator, exactly if no
separator starts before the end of a piece or stands in what is left. -/
theorem splitOn_pieces (hsep : sep ≠ []) (vs : List (List α)) (rest : List α) :
    (splitOn sep (vs.flatMap (· ++ sep) ++ rest)).dropLast = vs ↔
      (∀ v ∈ vs, ∀ i, i < v.length → ¬ OccursAt sep (v ++ sep) i) ∧
        ∀ i, ¬ OccursAt sep rest i := by
  induction vs with
  | nil =>
      rw [List.flatMap_nil, List.nil_append]
      constructor
      · intro h
        refine ⟨fun v hv => absurd hv List.not_mem_nil, fun i hi => ?_⟩
        obtain ⟨j, -, hj, hfirst⟩ := exists_first hi
        rw [splitOn_first hsep hj hfirst] at h
        have hne : splitOn sep (rest.drop (j + sep.length)) ≠ [] := splitFrom_ne_nil _ _ _
        rw [List.dropLast_cons_of_ne_nil hne] at h
        cases h
      · rintro ⟨-, hnone⟩
        rw [splitOn_none hnone]
        rfl
  | cons v vs ih =>
      let t := v ++ sep ++ (vs.flatMap (· ++ sep) ++ rest)
      have ht : (v :: vs).flatMap (· ++ sep) ++ rest = t := by
        rw [List.flatMap_cons, List.append_assoc]
      have hlen : (v ++ sep).length = v.length + sep.length := List.length_append
      have hinside : ∀ i, i ≤ v.length → (OccursAt sep t i ↔ OccursAt sep (v ++ sep) i) := by
        intro i hi
        exact occursAt_append_left _ (by omega)
      have hend : OccursAt sep t v.length := by
        rw [hinside _ le_rfl]
        unfold OccursAt
        rw [List.drop_left]
      obtain ⟨j, hle, hj, hfirst⟩ := exists_first hend
      have hne : splitOn sep (t.drop (j + sep.length)) ≠ [] := splitFrom_ne_nil _ _ _
      rw [ht, splitOn_first hsep hj hfirst, List.dropLast_cons_of_ne_nil hne, List.cons_eq_cons]
      have htake : t.take j = v ↔ j = v.length := by
        constructor
        · intro h
          have hlen' := congrArg List.length h
          rw [List.length_take] at hlen'
          have htl : t.length = (v ++ sep).length + _ := List.length_append
          omega
        · rintro rfl
          rw [show t = v ++ (sep ++ (vs.flatMap (· ++ sep) ++ rest)) from List.append_assoc _ _ _,
            List.take_left]
      rw [htake]
      constructor
      · rintro ⟨rfl, htail⟩
        rw [← hlen, List.drop_left] at htail
        obtain ⟨hvs, hrest⟩ := ih.mp htail
        refine ⟨fun w hw => ?_, hrest⟩
        rcases List.mem_cons.mp hw with rfl | hw
        · intro i hi
          rw [← hinside i hi.le]
          exact hfirst i hi
        · exact hvs w hw
      · rintro ⟨hall, hrest⟩
        have hjv : j = v.length := by
          by_contra hjne
          have hlt : j < v.length := by omega
          exact hall v List.mem_cons_self j hlt ((hinside j hlt.le).mp hj)
        refine ⟨hjv, ?_⟩
        rw [hjv, ← hlen, List.drop_left]
        exact ih.mpr ⟨fun w hw => hall w (List.mem_cons_of_mem v hw), hrest⟩

end Split

end Substring
