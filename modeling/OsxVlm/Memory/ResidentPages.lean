import Mathlib
import OsxVlm.Memory.VirtualMemory
import OsxVlm.Memory.FaultHandler

/-!
# Pages that were made writable

Every fault that was retried has noted its page in a ring.  Lisp asks for the pages of the ring
one by one, by their attributes; when there are no more, the ring is emptied.  What is delivered
until then are the pages noted since the ring was empty, or the last of them when they were more
than the ring holds.
-/

namespace VM

namespace ResidentPages

variable {m : Memory} {mask : VMAttribute} {sense : Bool} {pages : Nat → Nat}
variable {r : ResidentPages} {noted : List Nat}

/-- A page that a scan asks for. -/
def wanted (m : Memory) (mask : VMAttribute) (sense : Bool) (vma : Nat) : Bool :=
  decide (m.attributeTable (pageNumber vma) &&& mask = mask) == sense

/-- Where the entries end. -/
def limit (r : ResidentPages) : Nat := if r.wrap then residentPagesSize else r.pointer

def emptied (r : ResidentPages) : ResidentPages :=
  { r with pointer := 0, scan := 0, wrap := false }

/-- `VirtualMemoryResidentScan` is called until it answers false, or so many times. -/
def scans (m : Memory) (mask : VMAttribute) (sense : Bool) :
    Nat → ResidentPages → List Nat × ResidentPages
  | 0, r => ([], r)
  | calls + 1, r =>
      match virtualMemoryResidentScan m r mask sense with
      | (some (vma, _), r) =>
          let (found, r) := scans m mask sense calls r
          (vma :: found, r)
      | (none, r) => ([], r)

/-! ### One scan -/

theorem find_none {left scan : Nat} (h : find m mask sense pages left scan = none) :
    (List.range' scan left).filter (wanted m mask sense ∘ pages) = [] := by
  induction left generalizing scan with
  | zero => rfl
  | succ left ih =>
      unfold find at h
      split at h
      · cases h
      · next hskip =>
        have hskip' : ¬ (wanted m mask sense ∘ pages) scan = true := hskip
        rw [List.range'_succ, List.filter_cons_of_neg hskip']
        exact ih h

theorem find_some {left scan i : Nat} (h : find m mask sense pages left scan = some i) :
    scan ≤ i ∧ i < scan + left ∧
      (List.range' scan left).filter (wanted m mask sense ∘ pages) =
        i :: (List.range' (i + 1) (scan + left - (i + 1))).filter (wanted m mask sense ∘ pages) := by
  induction left generalizing scan with
  | zero => cases h
  | succ left ih =>
      unfold find at h
      split at h
      · next hfound =>
        obtain rfl := Option.some_inj.mp h
        have hfound' : (wanted m mask sense ∘ pages) scan = true := hfound
        refine ⟨le_rfl, by omega, ?_⟩
        rw [List.range'_succ, List.filter_cons_of_pos hfound',
          show scan + (left + 1) - (scan + 1) = left by omega]
      · next hskip =>
        obtain ⟨hle, hlt, hrest⟩ := ih h
        have hskip' : ¬ (wanted m mask sense ∘ pages) scan = true := hskip
        refine ⟨by omega, by omega, ?_⟩
        rw [List.range'_succ, List.filter_cons_of_neg hskip', hrest,
          show scan + 1 + left - (i + 1) = scan + (left + 1) - (i + 1) by omega]

theorem scan_none (h : find m mask sense r.pages (r.limit - r.scan) r.scan = none) :
    virtualMemoryResidentScan m r mask sense = (none, r.emptied) := by
  unfold limit at h
  unfold virtualMemoryResidentScan
  dsimp only
  rw [h]
  rfl

theorem scan_some {i : Nat} (h : find m mask sense r.pages (r.limit - r.scan) r.scan = some i) :
    virtualMemoryResidentScan m r mask sense =
      (some (r.pages i, r.limit - i), { r with scan := i + 1 }) := by
  unfold limit at h
  unfold virtualMemoryResidentScan
  dsimp only
  rw [h]
  rfl

/-- The wanted entries are delivered in their order, and then the ring is emptied. -/
theorem scans_eq {calls : Nat} (hcalls : r.limit - r.scan < calls) :
    scans m mask sense calls r =
      (((List.range' r.scan (r.limit - r.scan)).filter (wanted m mask sense ∘ r.pages)).map r.pages,
        r.emptied) := by
  induction calls generalizing r with
  | zero => omega
  | succ calls ih =>
      unfold scans
      cases hfind : find m mask sense r.pages (r.limit - r.scan) r.scan with
      | none =>
          rw [scan_none hfind, find_none hfind]
          rfl
      | some i =>
          obtain ⟨hle, hlt, hrest⟩ := find_some hfind
          have hnext : { r with scan := i + 1 }.limit = r.limit := rfl
          have hlater := @ih { r with scan := i + 1 } (by rw [hnext]; dsimp only; omega)
          rw [hnext] at hlater
          rw [scan_some hfind, hrest, show r.scan + (r.limit - r.scan) - (i + 1) =
            r.limit - (i + 1) by omega]
          dsimp only
          rw [hlater]
          rfl

/-! ### What the ring holds -/

/-- The pages noted since the ring was empty; those before the last ones are lost. -/
structure Holds (r : ResidentPages) (noted : List Nat) : Prop where
  scan : r.scan = 0
  pointer : r.pointer = noted.length % residentPagesSize
  wrap : r.wrap = decide (residentPagesSize ≤ noted.length)
  pages : ∀ k (h : k < noted.length), noted.length ≤ k + residentPagesSize →
    r.pages (k % residentPagesSize) = noted[k]

theorem Holds.emptied (r : ResidentPages) : r.emptied.Holds [] :=
  ⟨rfl, rfl, rfl, fun _ h => absurd h (Nat.not_lt_zero _)⟩

theorem Holds.note (h : r.Holds noted) (vma : Nat) : (r.note vma).Holds (noted ++ [vma]) := by
  have hpointer := h.pointer
  have hpages : ∀ k (hk : k < (noted ++ [vma]).length),
      (noted ++ [vma]).length ≤ k + residentPagesSize →
        Function.update r.pages r.pointer vma (k % residentPagesSize) = (noted ++ [vma])[k] := by
    intro k hk hlast
    rw [List.length_append, List.length_singleton] at hk hlast
    by_cases hnew : k = noted.length
    · subst hnew
      rw [← hpointer, Function.update_self, List.getElem_concat_length rfl]
    · have hother : k % residentPagesSize ≠ r.pointer := by
        rw [hpointer]
        unfold residentPagesSize at *
        omega
      rw [Function.update_of_ne hother, List.getElem_append_left (by omega)]
      exact h.pages k (by omega) (by omega)
  have hlength : (noted ++ [vma]).length = noted.length + 1 := by
    rw [List.length_append, List.length_singleton]
  unfold ResidentPages.note
  dsimp only
  split
  · next hend =>
    refine ⟨h.scan, ?_, ?_, hpages⟩
    · rw [hlength]
      change 0 = _
      unfold residentPagesSize at *
      omega
    · rw [hlength]
      refine (decide_eq_true ?_).symm
      unfold residentPagesSize at *
      omega
  · next hend =>
    refine ⟨h.scan, ?_, ?_, hpages⟩
    · rw [hlength]
      change r.pointer + 1 = _
      unfold residentPagesSize at *
      omega
    · rw [hlength]
      refine h.wrap.trans (decide_eq_decide.mpr ?_)
      unfold residentPagesSize at *
      omega

theorem Holds.notes (h : r.Holds noted) (vmas : List Nat) :
    (vmas.foldl ResidentPages.note r).Holds (noted ++ vmas) := by
  induction vmas generalizing r noted with
  | nil => rwa [List.append_nil]
  | cons vma vmas ih =>
      rw [List.append_cons]
      exact ih (h.note vma)

/-- The entries are the last pages noted; in a ring that has gone over its end, turned. -/
theorem Holds.entries (h : r.Holds noted) :
    ((List.range' 0 r.limit).map r.pages).Perm
      (noted.drop (noted.length - residentPagesSize)) := by
  by_cases hfull : residentPagesSize ≤ noted.length
  · have hlimit : r.limit = residentPagesSize := by
      unfold limit
      rw [h.wrap, decide_eq_true hfull, if_pos rfl]
    rw [hlimit]
    have hturned : ((List.range' 0 residentPagesSize).map r.pages).rotate noted.length =
        noted.drop (noted.length - residentPagesSize) := by
      apply List.ext_getElem
      · rw [List.length_rotate, List.length_map, List.length_range', List.length_drop]
        omega
      · intro k hk hk'
        rw [List.length_rotate, List.length_map, List.length_range'] at hk
        rw [List.getElem_rotate, List.getElem_map, List.getElem_drop, List.getElem_range',
          ← h.pages _ _ (by omega), List.length_map, List.length_range']
        congr 1
        unfold residentPagesSize at *
        omega
    rw [← hturned]
    exact (List.rotate_perm _ _).symm
  · have hlimit : r.limit = noted.length := by
      unfold limit
      rw [h.wrap, decide_eq_false hfull, h.pointer, if_neg Bool.false_ne_true]
      exact Nat.mod_eq_of_lt (Nat.lt_of_not_le hfull)
    rw [hlimit, show noted.length - residentPagesSize = 0 by omega, List.drop_zero]
    apply List.Perm.of_eq
    apply List.ext_getElem
    · rw [List.length_map, List.length_range']
    · intro k hk hk'
      rw [List.getElem_map, List.getElem_range', ← h.pages k hk' (by omega)]
      congr 1
      unfold residentPagesSize at *
      omega

theorem Holds.limit_le (h : r.Holds noted) : r.limit ≤ residentPagesSize := by
  unfold limit
  split
  · exact le_rfl
  · rw [h.pointer]
    exact (Nat.mod_lt _ (by decide)).le

end ResidentPages

/-- **The ring.**  After any faults, the pages delivered by a scan to its end are those of the last
16384 faults that are wanted, each as often as it was noted; and the ring is empty again. -/
theorem residentPages_delivered {r : ResidentPages} (h : r.Holds []) (m : Memory)
    (mask : VMAttribute) (sense : Bool) (vmas : List Nat) {calls : Nat}
    (hcalls : residentPagesSize < calls) :
    (ResidentPages.scans m mask sense calls (vmas.foldl ResidentPages.note r)).1.Perm
        ((vmas.drop (vmas.length - residentPagesSize)).filter
          (ResidentPages.wanted m mask sense)) ∧
      (ResidentPages.scans m mask sense calls (vmas.foldl ResidentPages.note r)).2.Holds [] := by
  have hnoted := h.notes vmas
  rw [List.nil_append] at hnoted
  have hlimit := hnoted.limit_le
  rw [ResidentPages.scans_eq (by omega), hnoted.scan, Nat.sub_zero, ← List.filter_map]
  exact ⟨hnoted.entries.filter _, ResidentPages.Holds.emptied _⟩

/-- Two faults on one page and one on another, from the start on. -/
theorem residentPages_delivered_sample :
    (ResidentPages.scans (Memory.empty false) .exists false 16385
        ([0x12345, 0x20000, 0x12346].foldl ResidentPages.note ⟨fun _ => 0, 0, false, 0⟩)).1.Perm
      [0x12345, 0x20000, 0x12346] :=
  (residentPages_delivered (ResidentPages.Holds.emptied ⟨fun _ => 0, 0, false, 0⟩)
    (Memory.empty false) .exists false [0x12345, 0x20000, 0x12346] (by decide)).1

end VM
