import Mathlib
import OsxVlm.World.LoadMap

/-!
# What the canonical load map holds

The entries of the result are read off the run of the loop, one entry of the old map
after the other.
-/

namespace VM

variable {virtualMemoryRead : Nat → LispObj} {malloc : Nat → LoadMapEntry}
  {s : Canonicalizing} {e : LoadMapEntry} {es r : List LoadMapEntry} {page : Nat}

/-- `e'` loads what `e` does; where a page is read from is not compared. -/
structure SameWords (e e' : LoadMapEntry) : Prop where
  address : e'.address = e.address
  opcode : e'.opcode = e.opcode
  count : e'.count = e.count
  data : e.opcode ≠ .dataPages → e'.data = e.data
  world : e.opcode = .dataPages → e'.world = e.world

/-- One constant for each word of the entry. -/
def constants (virtualMemoryRead : Nat → LispObj) (e : LoadMapEntry) : List LoadMapEntry :=
  (List.range e.count).map fun j =>
    setConstant e ((e.address + j) % 2 ^ 32) (virtualMemoryRead ((e.address + j) % 2 ^ 32))

/-- The map with every entry that is not aligned replaced, in place and in order. -/
def replaced (virtualMemoryRead : Nat → LispObj) (es : List LoadMapEntry) : List LoadMapEntry :=
  es.flatMap fun e => if e.aligned then [e] else constants virtualMemoryRead e

def dataPages (es : List LoadMapEntry) : List LoadMapEntry :=
  es.filter fun e => e.opcode = .dataPages

/-- The pages that the entries take in the file. -/
def filePages (es : List LoadMapEntry) : Nat := (es.map LoadMapEntry.pageCount).sum

/-- What the canonical map is to be. -/
structure Leaves (virtualMemoryRead : Nat → LispObj) (es r : List LoadMapEntry) : Prop where
  replaced : List.Forall₂ SameWords (replaced virtualMemoryRead es) r
  aligned : ∀ e ∈ dataPages r, e.aligned
  /-- The pages of each entry follow those of the entries before. -/
  pages : ∀ before e after, dataPages r = before ++ e :: after →
    e.data.tag = typeFixnum ∧ e.data.data.toNat = filePages before

/-- A page number is a 32-bit word. -/
def PagesFit (es : List LoadMapEntry) : Prop :=
  ∀ k, k < es.length → filePages (es.take k) < 2 ^ 32

/-- The arrays are kept to, and if the save goes on, the map is as it is to be. -/
def Canonicalizes (virtualMemoryRead : Nat → LispObj) (malloc : Nat → LoadMapEntry)
    (a : MapEntries) : Prop :=
  (canonicalizeVLMLoadMapEntries virtualMemoryRead malloc a).2 = true ∧
    ∀ r, (canonicalizeVLMLoadMapEntries virtualMemoryRead malloc a).1 = some r →
      Leaves virtualMemoryRead a.toList r

/-! ### One round -/

namespace Canonicalizing

def done (s : Canonicalizing) : List LoadMapEntry :=
  (List.range s.i).map s.wiredMapEntries.entry

def rest (s : Canonicalizing) : List LoadMapEntry :=
  (List.range (s.wiredMapEntries.length - s.i)).map fun k => s.wiredMapEntries.entry (s.i + k)

theorem toList_eq (h : s.i ≤ s.wiredMapEntries.length) :
    s.wiredMapEntries.toList = s.done ++ s.rest := by
  unfold MapEntries.toList done rest
  conv_lhs => rw [← Nat.add_sub_cancel' h, List.range_add, List.map_append, List.map_map]
  rfl

theorem rest_cons (h : s.i < s.wiredMapEntries.length) :
    s.rest = s.wiredMapEntries.entry s.i ::
      (List.range (s.wiredMapEntries.length - (s.i + 1))).map
        fun k => s.wiredMapEntries.entry (s.i + 1 + k) := by
  obtain ⟨m, hm⟩ : ∃ m, s.wiredMapEntries.length - s.i = m + 1 := ⟨_ - 1, (Nat.sub_add_cancel
    (Nat.sub_pos_of_lt h)).symm⟩
  have hm' : s.wiredMapEntries.length - (s.i + 1) = m := by omega
  unfold rest
  rw [hm, hm', List.range_succ_eq_map, List.map_cons, List.map_map, Nat.add_zero]
  congr 1
  apply List.map_congr_left
  intro k _
  simp only [Function.comp_apply]
  congr 1
  omega

theorem assign_done :
    s.assign.done = s.done ++
      [{ s.wiredMapEntries.entry s.i with data := ⟨typeFixnum, BitVec.ofNat 32 s.pageNumber⟩ }] := by
  simp only [done, assign]
  rw [List.range_succ, List.map_append, List.map_singleton, Function.update_self]
  congr 1
  apply List.map_congr_left
  intro k hk
  rw [List.mem_range] at hk
  exact Function.update_of_ne (by omega) _ _

theorem assign_rest (h : s.i < s.wiredMapEntries.length) :
    s.rest = s.wiredMapEntries.entry s.i :: s.assign.rest := by
  rw [rest_cons h]
  simp only [rest, assign]
  congr 1
  apply List.map_congr_left
  intro k _
  rw [Function.update_of_ne (by omega)]

theorem convert_done :
    (s.convert virtualMemoryRead malloc).done = s.done ++
      (List.range (s.wiredMapEntries.entry s.i).count).map fun j =>
        setConstant (malloc (s.i + j)) (((s.wiredMapEntries.entry s.i).address + j) % 2 ^ 32)
          (virtualMemoryRead (((s.wiredMapEntries.entry s.i).address + j) % 2 ^ 32)) := by
  simp only [done, convert]
  rw [List.range_add, List.map_append, List.map_map]
  congr 1
  · apply List.map_congr_left
    intro k hk
    rw [List.mem_range] at hk
    unfold memcpyEntries
    rw [if_neg (by omega), if_neg (by omega), if_pos (by omega)]
    congr 1
    omega
  · apply List.map_congr_left
    intro j hj
    rw [List.mem_range] at hj
    simp only [Function.comp_apply]
    unfold memcpyEntries
    rw [if_pos (by omega), if_neg (by omega), if_neg (by omega), Nat.add_sub_cancel_left]

theorem convert_rest (virtualMemoryRead : Nat → LispObj) (malloc : Nat → LoadMapEntry)
    (h : s.i < s.wiredMapEntries.length) :
    s.rest = s.wiredMapEntries.entry s.i :: (s.convert virtualMemoryRead malloc).rest := by
  rw [rest_cons h]
  simp only [rest, convert]
  congr 1
  rw [show s.wiredMapEntries.length + (s.wiredMapEntries.entry s.i).count - 1 -
    (s.i + (s.wiredMapEntries.entry s.i).count) = s.wiredMapEntries.length - (s.i + 1) by omega]
  apply List.map_congr_left
  intro k hk
  rw [List.mem_range] at hk
  unfold memcpyEntries
  rw [if_neg (by omega), if_pos (by omega)]
  congr 1
  omega

/-- The last `memcpy` goes one element too far. -/
theorem convert_inBounds : (s.convert virtualMemoryRead malloc).inBounds = false := by
  simp only [convert, Bool.and_eq_false_iff, decide_eq_false_iff_not]
  omega

end Canonicalizing

/-! ### The run -/

/-- The entries that the loop makes of those left, from a page number on. -/
inductive Canonical (virtualMemoryRead : Nat → LispObj) :
    Nat → List LoadMapEntry → List LoadMapEntry → Prop where
  | nil (page : Nat) : Canonical virtualMemoryRead page [] []
  | assign {page : Nat} {e : LoadMapEntry} {es r : List LoadMapEntry} (haligned : e.aligned)
      (hr : Canonical virtualMemoryRead ((page + e.pageCount) % 2 ^ 32) es r) :
      Canonical virtualMemoryRead page (e :: es)
        ({ e with data := ⟨typeFixnum, BitVec.ofNat 32 page⟩ } :: r)
  | convert {page : Nat} {e : LoadMapEntry} {es r : List LoadMapEntry} (haligned : ¬ e.aligned)
      (malloc : Nat → LoadMapEntry) (hr : Canonical virtualMemoryRead page es r) :
      Canonical virtualMemoryRead page (e :: es)
        ((List.range e.count).map (fun j =>
          setConstant (malloc j) ((e.address + j) % 2 ^ 32)
            (virtualMemoryRead ((e.address + j) % 2 ^ 32))) ++ r)

/-- What the loop leaves, and that it keeps to the arrays only where all is aligned. -/
theorem Canonicalizing.loop_spec (hi : s.i ≤ s.wiredMapEntries.length) :
    ∃ tail, (s.loop virtualMemoryRead malloc).wiredMapEntries.toList = s.done ++ tail ∧
      Canonical virtualMemoryRead s.pageNumber s.rest tail ∧
      ((s.loop virtualMemoryRead malloc).inBounds = true ↔
        s.inBounds = true ∧ ∀ e ∈ s.rest, e.aligned) := by
  induction hrest : s.rest generalizing s with
  | nil =>
      have hlen : s.wiredMapEntries.length - s.i = 0 := by
        simpa [Canonicalizing.rest] using congrArg List.length hrest
      have hend : s.loop virtualMemoryRead malloc = s := by
        rw [Canonicalizing.loop, dif_neg (by omega)]
      refine ⟨[], ?_, .nil _, ?_⟩
      · rw [hend, toList_eq hi, hrest]
      · rw [hend]
        simp
  | cons e es ih =>
      have hlt : s.i < s.wiredMapEntries.length := by
        by_contra hge
        have hlen : s.wiredMapEntries.length - s.i = 0 := by omega
        rw [Canonicalizing.rest, hlen] at hrest
        cases hrest
      rw [Canonicalizing.loop, dif_pos hlt]
      split
      · next haligned =>
        have hcons := assign_rest hlt
        rw [hrest, List.cons.injEq] at hcons
        obtain ⟨rfl, hes⟩ := hcons
        obtain ⟨tail, htail, hcanonical, hbounds⟩ := @ih s.assign hlt hes.symm
        refine ⟨_ :: tail, ?_, .assign haligned hcanonical, ?_⟩
        · rw [htail, assign_done, List.append_assoc, List.singleton_append]
        · rw [hbounds, List.forall_mem_cons]
          exact ⟨fun h => ⟨h.1, haligned, h.2⟩, fun h => ⟨h.1, h.2.2⟩⟩
      · next haligned =>
        have hcons := convert_rest virtualMemoryRead malloc hlt
        rw [hrest, List.cons.injEq] at hcons
        obtain ⟨rfl, hes⟩ := hcons
        obtain ⟨tail, htail, hcanonical, hbounds⟩ :=
          @ih (s.convert virtualMemoryRead malloc) (by
            simp only [Canonicalizing.convert]
            omega) hes.symm
        refine ⟨_ ++ tail, ?_, .convert haligned (fun j => malloc (s.i + j)) hcanonical, ?_⟩
        · rw [htail, convert_done, List.append_assoc]
        · rw [hbounds, convert_inBounds, List.forall_mem_cons]
          exact ⟨fun h => absurd h.1 Bool.false_ne_true, fun h => absurd h.2.1 haligned⟩

/-! ### The map -/

theorem dataPages_constants (malloc : Nat → LoadMapEntry) (es : List LoadMapEntry) :
    dataPages ((List.range e.count).map (fun j =>
      setConstant (malloc j) ((e.address + j) % 2 ^ 32)
        (virtualMemoryRead ((e.address + j) % 2 ^ 32))) ++ es) = dataPages es := by
  unfold dataPages
  rw [List.filter_append, List.filter_eq_nil_iff.mpr, List.nil_append]
  intro e' he'
  obtain ⟨j, -, rfl⟩ := List.mem_map.mp he'
  simp [setConstant]

theorem sameWords_constants (malloc : Nat → LoadMapEntry) :
    List.Forall₂ SameWords (constants virtualMemoryRead e)
      ((List.range e.count).map fun j =>
        setConstant (malloc j) ((e.address + j) % 2 ^ 32)
          (virtualMemoryRead ((e.address + j) % 2 ^ 32))) := by
  unfold constants
  rw [List.forall₂_map_left_iff, List.forall₂_map_right_iff, List.forall₂_same]
  intro j _
  constructor
  · rfl
  · rfl
  · rfl
  · intro _
    rfl
  · intro h
    cases h

section Canonical

variable (h : Canonical virtualMemoryRead page es r) (hes : ∀ e ∈ es, e.opcode = .dataPages)
include h hes

theorem Canonical.replaced : List.Forall₂ SameWords (replaced virtualMemoryRead es) r := by
  induction h with
  | nil => exact .nil
  | assign haligned hr ih =>
      have htail := ih fun e he => hes e (List.mem_cons_of_mem _ he)
      rw [VM.replaced, List.flatMap_cons, if_pos haligned]
      refine .cons ⟨rfl, rfl, rfl, ?_, fun _ => rfl⟩ htail
      intro hne
      exact absurd (hes _ List.mem_cons_self) hne
  | convert haligned malloc hr ih =>
      have htail := ih fun e he => hes e (List.mem_cons_of_mem _ he)
      rw [VM.replaced, List.flatMap_cons, if_neg haligned]
      exact List.rel_append (sameWords_constants malloc) htail

/-- The data pages of the result, one after the other. -/
theorem Canonical.dataPages_spec :
    (dataPages r).map LoadMapEntry.pageCount =
        (es.filter fun e => e.aligned).map LoadMapEntry.pageCount ∧
      (∀ e ∈ dataPages r, e.aligned) ∧
      ∀ before e after, dataPages r = before ++ e :: after →
        e.data = ⟨typeFixnum, BitVec.ofNat 32 (page + filePages before)⟩ := by
  induction h with
  | nil =>
      refine ⟨rfl, by simp [dataPages], ?_⟩
      intro before e after hsplit
      rw [dataPages, List.filter_nil, List.nil_eq_append_iff] at hsplit
      cases hsplit.2
  | @assign page e es r haligned hr ih =>
      obtain ⟨hcounts, hall, hpages⟩ := ih fun e he => hes e (List.mem_cons_of_mem _ he)
      have hop : e.opcode = .dataPages := hes e List.mem_cons_self
      have hcons : dataPages ({ e with data := ⟨typeFixnum, BitVec.ofNat 32 page⟩ } :: r) =
          { e with data := ⟨typeFixnum, BitVec.ofNat 32 page⟩ } :: dataPages r :=
        List.filter_cons_of_pos (by simp [hop])
      rw [hcons]
      refine ⟨?_, ?_, ?_⟩
      · rw [List.filter_cons_of_pos (by simpa using haligned), List.map_cons, List.map_cons, hcounts]
        rfl
      · rw [List.forall_mem_cons]
        exact ⟨haligned, hall⟩
      · intro before e' after hsplit
        cases before with
        | nil =>
            rw [List.nil_append, List.cons.injEq] at hsplit
            obtain ⟨rfl, -⟩ := hsplit
            rfl
        | cons first before =>
            rw [List.cons_append, List.cons.injEq] at hsplit
            obtain ⟨rfl, hsplit⟩ := hsplit
            have hcount : filePages ({ e with data := ⟨typeFixnum, BitVec.ofNat 32 page⟩ } :: before)
                = e.pageCount + filePages before := by
              unfold filePages
              rw [List.map_cons, List.sum_cons]
              rfl
            rw [hpages before e' after hsplit, hcount]
            congr 1
            apply BitVec.eq_of_toNat_eq
            rw [BitVec.toNat_ofNat, BitVec.toNat_ofNat, ← Nat.add_assoc, Nat.mod_add_mod]
  | convert haligned malloc hr ih =>
      obtain ⟨hcounts, hall, hpages⟩ := ih fun e he => hes e (List.mem_cons_of_mem _ he)
      rw [dataPages_constants, List.filter_cons_of_neg (by simpa using haligned)]
      exact ⟨hcounts, hall, hpages⟩

end Canonical

theorem filePages_take (es : List LoadMapEntry) (k : Nat) :
    filePages (es.take k) = ((es.map LoadMapEntry.pageCount).take k).sum := by
  rw [filePages, List.map_take]

/-- Whether the pages fit depends on their counts only. -/
theorem pagesFit_congr {es es' : List LoadMapEntry}
    (h : es.map LoadMapEntry.pageCount = es'.map LoadMapEntry.pageCount) :
    PagesFit es ↔ PagesFit es' := by
  have hlen : es.length = es'.length := by simpa using congrArg List.length h
  unfold PagesFit
  simp only [filePages_take, h, hlen]

/-- The map is right where page numbers do not wrap around. -/
theorem Canonical.leaves_iff (h : Canonical virtualMemoryRead 0 es r)
    (hes : ∀ e ∈ es, e.opcode = .dataPages) :
    Leaves virtualMemoryRead es r ↔ PagesFit (es.filter fun e => e.aligned) := by
  obtain ⟨hcounts, hall, hpages⟩ := h.dataPages_spec hes
  rw [← pagesFit_congr hcounts]
  constructor
  · intro hleaves k hk
    have hsplit : dataPages r =
        (dataPages r).take k ++ (dataPages r)[k] :: (dataPages r).drop (k + 1) := by
      rw [← List.drop_eq_getElem_cons hk, List.take_append_drop]
    rw [← (hleaves.pages _ _ _ hsplit).2]
    exact BitVec.isLt _
  · intro hfit
    refine ⟨h.replaced hes, hall, ?_⟩
    intro before e after hsplit
    rw [hpages before e after hsplit, Nat.zero_add]
    refine ⟨rfl, ?_⟩
    have hlt := hfit before.length (by
      rw [hsplit, List.length_append, List.length_cons]
      omega)
    rw [hsplit, List.take_left] at hlt
    rw [BitVec.toNat_ofNat, Nat.mod_eq_of_lt hlt]

theorem Canonical.length (h : Canonical virtualMemoryRead page es r)
    (haligned : ∀ e ∈ es, e.aligned) : r.length = es.length := by
  induction h with
  | nil => rfl
  | assign _ _ ih =>
      rw [List.length_cons, List.length_cons,
        ih fun e he => haligned e (List.mem_cons_of_mem _ he)]
  | convert hnot _ _ _ => exact absurd (haligned _ List.mem_cons_self) hnot

/-- **The canonical load map.**  It holds what it is to hold as long as page numbers do
not wrap around.  That the arrays are kept to as well is so if and only if every entry
starts on a page boundary and the pages of a map that the header holds fit. -/
theorem canonicalize_iff (virtualMemoryRead : Nat → LispObj) (malloc : Nat → LoadMapEntry)
    (a : MapEntries) (hes : ∀ e ∈ a.toList, e.opcode = .dataPages) :
    (∀ r, (canonicalizeVLMLoadMapEntries virtualMemoryRead malloc a).1 = some r →
      PagesFit (a.toList.filter fun e => e.aligned) → Leaves virtualMemoryRead a.toList r) ∧
    (Canonicalizes virtualMemoryRead malloc a ↔
      (∀ e ∈ a.toList, e.aligned) ∧ (headerFits a.length → PagesFit a.toList)) := by
  obtain ⟨tail, htail, hcanonical, hbounds⟩ :=
    @Canonicalizing.loop_spec virtualMemoryRead malloc ⟨a, 0, 0, true⟩ (Nat.zero_le _)
  have hrest : Canonicalizing.rest ⟨a, 0, 0, true⟩ = a.toList := by
    simp [Canonicalizing.rest, MapEntries.toList]
  have hdone : Canonicalizing.done ⟨a, 0, 0, true⟩ = [] := rfl
  rw [hrest] at hcanonical hbounds
  rw [hdone, List.nil_append] at htail
  have hlen : ∀ a : MapEntries, a.toList.length = a.length := by
    intro a
    simp [MapEntries.toList]
  have hresult : ∀ r, (canonicalizeVLMLoadMapEntries virtualMemoryRead malloc a).1 = some r →
      r = tail := by
    intro r hr
    unfold canonicalizeVLMLoadMapEntries at hr
    dsimp only at hr
    split at hr
    · cases hr
      exact htail
    · cases hr
  refine ⟨?_, ?_⟩
  · intro r hr hfit
    rw [hresult r hr]
    exact (hcanonical.leaves_iff hes).mpr hfit
  · have hall : (∀ e ∈ a.toList, e.aligned) → (a.toList.filter fun e => e.aligned) = a.toList := by
      intro haligned
      rw [List.filter_eq_self]
      simpa using haligned
    constructor
    · intro h
      obtain ⟨hin, hleaves⟩ := h
      have haligned := (hbounds.mp hin).2
      refine ⟨haligned, ?_⟩
      intro hfits
      rw [← hall haligned]
      apply (hcanonical.leaves_iff hes).mp
      apply hleaves
      unfold canonicalizeVLMLoadMapEntries
      dsimp only
      rw [← hlen, htail, hcanonical.length haligned, hlen, if_pos hfits]
    · intro h
      obtain ⟨haligned, hfit⟩ := h
      refine ⟨hbounds.mpr ⟨rfl, haligned⟩, ?_⟩
      intro r hr
      have hr' := hr
      unfold canonicalizeVLMLoadMapEntries at hr'
      dsimp only at hr'
      rw [← hlen, htail, hcanonical.length haligned, hlen] at hr'
      split at hr'
      · next hfits =>
        rw [hresult r hr]
        apply (hcanonical.leaves_iff hes).mpr
        rw [hall haligned]
        exact hfit hfits
      · cases hr'

/-- An array of one entry of `count` words from `address` on. -/
def oneEntry (address count : Nat) : MapEntries :=
  ⟨1, fun _ => ⟨address, .dataPages, count, ⟨0, 0⟩, 0⟩⟩

theorem canonicalize_sample :
    Canonicalizes (fun _ => ⟨0, 0⟩) (oneEntry 0 0).entry (oneEntry 8192 10000) := by
  apply (canonicalize_iff _ _ _ (by decide)).2.mpr
  refine ⟨by decide, ?_⟩
  intro _ k hk
  rw [Nat.lt_one_iff.mp hk]
  decide

/-- The entry behind the array is copied. -/
theorem convert_strays :
    ¬ Canonicalizes (fun _ => ⟨0, 0⟩) (oneEntry 0 0).entry (oneEntry 8193 2) := by
  intro h
  obtain ⟨tail, -, -, hbounds⟩ := @Canonicalizing.loop_spec (fun _ => ⟨0, 0⟩)
    (oneEntry 0 0).entry ⟨oneEntry 8193 2, 0, 0, true⟩ (by decide)
  have haligned := (hbounds.mp h.1).2 ((oneEntry 8193 2).entry 0) List.mem_cons_self
  exact absurd haligned (by decide)

end VM
