import Mathlib
import OsxVlm.World.LoadMap

/-!
# Repaving the stack regions

Pages of the stacks that a world file leaves out are created when their whole wad is
missing.  Memory only grows: pages that exist stay as they are and new ones are
stamped, so that the region tables read the same from beginning to end.
-/

namespace VM

def typeArray : Tag := 22

/-! ### The region tables -/

def regionPageExistsP (m : Memory) (vma : Nat) : Bool := created m vma

def readRegionTableBase (m : Memory) (cell : Nat) : Memory × Option Nat :=
  if !regionPageExistsP m cell then (m, none)
  else
    let (m, q) := virtualMemoryReadUncached m cell
    if q.tag &&& 0x3F ≠ typeArray then (m, none)
    else (m, if regionPageExistsP m q.data.toNat then some q.data.toNat else none)

def readRegionTableEntry (m : Memory) (base n : Nat) : Memory × Option Integer :=
  let vma := (base + 1 + n) % 2 ^ 32
  if !regionPageExistsP m vma then (m, none)
  else
    let (m, q) := virtualMemoryReadUncached m vma
    if q.tag &&& 0x3F ≠ 0x08 then (m, none) else (m, some q.data)

/-- Reads that follow one another as long as they succeed. -/
def readNext {α β : Type} (r : Memory × Option α) (next : Memory → α → Memory × Option β) :
    Memory × Option β :=
  match r with
  | (m, none) => (m, none)
  | (m, some a) => next m a

structure RegionTables where
  originBase : Nat
  lengthBase : Nat
  freePointerBase : Nat
  bitsBase : Nat

def readRegionTables (m : Memory) : Memory × Option RegionTables :=
  readNext (readRegionTableBase m 0xF804110A) fun m originBase =>
    readNext (readRegionTableBase m 0xF804110B) fun m lengthBase =>
      readNext (readRegionTableBase m 0xF804110C) fun m freePointerBase =>
        readNext (readRegionTableBase m 0xF804110E) fun m bitsBase =>
          (m, some ⟨originBase, lengthBase, freePointerBase, bitsBase⟩)

structure Region where
  originQuantum : Integer
  length : Integer
  freePointer : Integer
  bits : Integer

def readRegion (m : Memory) (tables : RegionTables) (n : Nat) : Memory × Option Region :=
  readNext (readRegionTableEntry m tables.originBase n) fun m originQuantum =>
    readNext (readRegionTableEntry m tables.lengthBase n) fun m length =>
      readNext (readRegionTableEntry m tables.freePointerBase n) fun m freePointer =>
        readNext (readRegionTableEntry m tables.bitsBase n) fun m bits =>
          (m, some ⟨originQuantum, length, freePointer, bits⟩)

/-! ### Repaving -/

def Region.origin (r : Region) : Nat := ((r.originQuantum &&& 0xFFFF) <<< 16).toNat

def Region.nPages (r : Region) : Nat := (r.freePointer.toNat + 8191) / 8192

/-- The checks on a table entry. -/
def Region.repaves (r : Region) : Bool :=
  !(r.freePointer == 0 || r.length == 0 || decide (r.length.toNat <<< 16 < r.freePointer.toNat)) &&
    r.bits &&& 0x20 != 0 && decide (r.nPages ≤ 0x1000)

def virtualAddressWadMappedP (m : Memory) (vma : Nat) : Bool := wadCreated m vma

/-- Tags 0xFF and data all ones. -/
def stampPage (m : Memory) (vma : Nat) : Memory :=
  m.writeWords vma 8192 (fun _ => 0xFFFFFFFF) (fun _ => 0xFF)

/-- `left` pages of a region from `page` on; it ends where a page cannot be created. -/
def repavePages (origin : Nat) : Nat → Nat → Memory → Memory
  | 0, _, m => m
  | left + 1, page, m =>
      let vma := (origin + page * 8192) % 2 ^ 32
      if regionPageExistsP m vma then repavePages origin left (page + 1) m
      else if virtualAddressWadMappedP m vma then repavePages origin left (page + 1) m
      else
        let (m, size) := ensureVirtualAddress m vma false
        if size = 0 then m else repavePages origin left (page + 1) (stampPage m vma)

def repaveRegion (tables : RegionTables) (m : Memory) (n : Nat) : Memory :=
  match readRegion m tables n with
  | (m, none) => m
  | (m, some r) => if r.repaves then repavePages r.origin r.nPages 0 m else m

def repaveStackRegions (m : Memory) : Memory :=
  match readRegionTables m with
  | (m, none) => m
  | (m, some tables) => (List.range 0x400).foldl (repaveRegion tables) m

/-! ### Memory grows -/

variable {P : Nat → Prop} {m m' m'' : Memory} {vma : Nat}

/-- Pages that existed are as they were; the new ones are stamped and satisfy `P`. -/
structure Grown (P : Nat → Prop) (m m' : Memory) : Prop where
  kept : ∀ a, created m a = true →
    m'.attributeTable (pageNumber a) = m.attributeTable (pageNumber a) ∧
      m'.tagSpace a = m.tagSpace a ∧ m'.dataSpace a = m.dataSpace a
  stamped : ∀ a, created m a = false → created m' a = true →
    P (pageNumber a) ∧ m'.tagSpace a = 0xFF ∧ m'.dataSpace a = 0xFFFFFFFF

theorem Grown.created (h : Grown P m m') {a : Nat} (ha : created m a = true) :
    VM.created m' a = true := by
  unfold VM.created at *
  rw [(h.kept a ha).1]
  exact ha

theorem Grown.refl (P : Nat → Prop) (m : Memory) : Grown P m m := by
  constructor
  · exact fun _ _ => ⟨rfl, rfl, rfl⟩
  · intro a hno ha
    rw [hno] at ha
    cases ha

theorem Grown.trans (h : Grown P m m') (h' : Grown P m' m'') : Grown P m m'' := by
  constructor
  · intro a ha
    obtain ⟨hattr, htag, hdata⟩ := h.kept a ha
    obtain ⟨hattr', htag', hdata'⟩ := h'.kept a (h.created ha)
    exact ⟨hattr'.trans hattr, htag'.trans htag, hdata'.trans hdata⟩
  · intro a hno ha
    by_cases hmid : VM.created m' a = true
    · obtain ⟨hP, htag, hdata⟩ := h.stamped a hno hmid
      obtain ⟨-, htag', hdata'⟩ := h'.kept a hmid
      exact ⟨hP, htag'.trans htag, hdata'.trans hdata⟩
    · exact h'.stamped a (Bool.eq_false_of_not_eq_true hmid) ha

/-- A page is reached when it exists, or some page of its wad does. -/
def Reachable (m : Memory) (vma : Nat) : Prop := created m vma = true ∨ wadCreated m vma = true

theorem Grown.reachable (h : Grown P m m') (hreach : Reachable m vma) : Reachable m' vma := by
  obtain hcreated | hwad := hreach
  · exact Or.inl (h.created hcreated)
  · right
    obtain ⟨p, hp, hex⟩ := wadCreated_iff.mp hwad
    have hpage : pageNumber (8192 * p) = p := by
      unfold pageNumber
      omega
    have hkept := @Grown.created P m m' h (8192 * p) (by
      unfold VM.created
      rw [hpage]
      exact hex)
    unfold VM.created at hkept
    rw [hpage] at hkept
    exact wadCreated_iff.mpr ⟨p, hp, hkept⟩

/-! ### Reading the tables -/

/-- Only protections differ. -/
structure SameWordsAs (m m' : Memory) : Prop where
  attributeTable : m'.attributeTable = m.attributeTable
  tagSpace : m'.tagSpace = m.tagSpace
  dataSpace : m'.dataSpace = m.dataSpace

theorem SameWordsAs.grown (h : SameWordsAs m m') (P : Nat → Prop) : Grown P m m' := by
  constructor
  · intro a _
    rw [h.attributeTable, h.tagSpace, h.dataSpace]
    exact ⟨rfl, rfl, rfl⟩
  · intro a hno ha
    unfold created at hno ha
    rw [h.attributeTable, hno] at ha
    cases ha

theorem SameWordsAs.trans (h : SameWordsAs m m') (h' : SameWordsAs m' m'') : SameWordsAs m m'' :=
  ⟨h'.attributeTable.trans h.attributeTable, h'.tagSpace.trans h.tagSpace,
    h'.dataSpace.trans h.dataSpace⟩

theorem virtualMemoryReadUncached_same (m : Memory) (vma : Nat) :
    SameWordsAs m (virtualMemoryReadUncached m vma).1 := by
  unfold virtualMemoryReadUncached
  dsimp only
  split
  · exact ⟨rfl, rfl, rfl⟩
  · exact ⟨rfl, rfl, rfl⟩

theorem readRegionTableBase_same (m : Memory) (cell : Nat) :
    SameWordsAs m (readRegionTableBase m cell).1 := by
  unfold readRegionTableBase
  split
  · exact ⟨rfl, rfl, rfl⟩
  · dsimp only
    split
    · exact virtualMemoryReadUncached_same m cell
    · exact virtualMemoryReadUncached_same m cell

theorem readNext_same {α β : Type} {r : Memory × Option α}
    {next : Memory → α → Memory × Option β} (h : SameWordsAs m r.1)
    (hnext : ∀ m a, SameWordsAs m (next m a).1) : SameWordsAs m (readNext r next).1 := by
  obtain ⟨m', r⟩ := r
  cases r with
  | none => exact h
  | some a => exact h.trans (hnext m' a)

theorem readRegionTables_same (m : Memory) : SameWordsAs m (readRegionTables m).1 := by
  unfold readRegionTables
  apply readNext_same (readRegionTableBase_same m _)
  intro m _
  apply readNext_same (readRegionTableBase_same m _)
  intro m _
  apply readNext_same (readRegionTableBase_same m _)
  intro m _
  apply readNext_same (readRegionTableBase_same m _)
  intro m _
  exact ⟨rfl, rfl, rfl⟩

/-- What a table word is read as. -/
def tableEntry (m : Memory) (base n : Nat) : Option Integer :=
  let vma := (base + 1 + n) % 2 ^ 32
  if created m vma ∧ m.tagSpace vma &&& 0x3F = 0x08 then some (m.dataSpace vma) else none

theorem readRegionTableEntry_eq (m : Memory) (base n : Nat) :
    (readRegionTableEntry m base n).2 = tableEntry m base n ∧
      SameWordsAs m (readRegionTableEntry m base n).1 := by
  unfold readRegionTableEntry tableEntry regionPageExistsP
  dsimp only
  split
  · next hno =>
    rw [Bool.not_eq_true'] at hno
    rw [if_neg (by rw [hno]; exact fun h => absurd h.1 Bool.false_ne_true)]
    exact ⟨rfl, rfl, rfl, rfl⟩
  · next hcreated =>
    rw [Bool.not_eq_true', Bool.not_eq_false] at hcreated
    have hsame := virtualMemoryReadUncached_same m ((base + 1 + n) % 2 ^ 32)
    simp only [hcreated, true_and, ne_eq, ite_not]
    by_cases htag : m.tagSpace ((base + 1 + n) % 2 ^ 32) &&& 0x3F = 0x08
    · rw [if_pos htag, if_pos (by exact htag)]
      exact ⟨rfl, hsame⟩
    · rw [if_neg htag, if_neg (by exact htag)]
      exact ⟨rfl, hsame⟩

/-- A stamped word is no table entry. -/
theorem Grown.tableEntry (h : Grown P m m') (base n : Nat) :
    tableEntry m' base n = tableEntry m base n := by
  unfold VM.tableEntry
  dsimp only
  generalize (base + 1 + n) % 2 ^ 32 = vma
  by_cases hcreated : VM.created m vma = true
  · obtain ⟨-, htag, hdata⟩ := h.kept vma hcreated
    rw [h.created hcreated, hcreated, htag, hdata]
  · have hold : (if VM.created m vma = true ∧ m.tagSpace vma &&& 0x3F = 0x08 then
        some (m.dataSpace vma) else none) = none := if_neg fun h => hcreated h.1
    rw [hold]
    split
    · next hnew =>
      obtain ⟨-, htag, -⟩ := h.stamped vma (Bool.eq_false_of_not_eq_true hcreated) hnew.1
      rw [htag] at hnew
      exact absurd hnew.2 (by decide)
    · rfl

/-- The entries of all four tables. -/
def regionEntry (m : Memory) (tables : RegionTables) (n : Nat) : Option Region :=
  (tableEntry m tables.originBase n).bind fun originQuantum =>
    (tableEntry m tables.lengthBase n).bind fun length =>
      (tableEntry m tables.freePointerBase n).bind fun freePointer =>
        (tableEntry m tables.bitsBase n).map fun bits =>
          ⟨originQuantum, length, freePointer, bits⟩

theorem Grown.regionEntry (h : Grown P m m') (tables : RegionTables) (n : Nat) :
    regionEntry m' tables n = regionEntry m tables n := by
  unfold VM.regionEntry
  rw [h.tableEntry, h.tableEntry, h.tableEntry, h.tableEntry]

theorem readNext_entry {β : Type} {base n : Nat} {next : Memory → Integer → Memory × Option β}
    {f : Integer → Option β} (hm : SameWordsAs m m')
    (hnext : ∀ m'' a, SameWordsAs m m'' → (next m'' a).2 = f a ∧ SameWordsAs m'' (next m'' a).1) :
    (readNext (readRegionTableEntry m' base n) next).2 = (tableEntry m base n).bind f ∧
      SameWordsAs m' (readNext (readRegionTableEntry m' base n) next).1 := by
  obtain ⟨hentry, hsame⟩ := readRegionTableEntry_eq m' base n
  rw [(hm.grown fun _ => True).tableEntry] at hentry
  rw [← hentry]
  cases hread : readRegionTableEntry m' base n with
  | mk m'' r =>
      rw [hread] at hsame
      cases r with
      | none => exact ⟨rfl, hsame⟩
      | some a =>
          obtain ⟨hresult, hsame'⟩ := hnext m'' a (hm.trans hsame)
          exact ⟨hresult, hsame.trans hsame'⟩

theorem readRegion_eq (m : Memory) (tables : RegionTables) (n : Nat) :
    (readRegion m tables n).2 = regionEntry m tables n ∧
      SameWordsAs m (readRegion m tables n).1 := by
  unfold readRegion regionEntry
  apply readNext_entry ⟨rfl, rfl, rfl⟩
  intro m₁ originQuantum h₁
  apply readNext_entry h₁
  intro m₂ length h₂
  apply readNext_entry h₂
  intro m₃ freePointer h₃
  rw [Option.map_eq_bind]
  apply readNext_entry h₃
  intro m₄ bits h₄
  exact ⟨rfl, rfl, rfl, rfl⟩

/-! ### A page -/

/-- A page whose wad is missing is created and stamped. -/
theorem grown_create (hpage : vma % 8192 = 0) (hno : created m vma = false)
    (hwad : wadCreated m vma = false) (hP : P (pageNumber vma)) :
    ∃ m', ensureVirtualAddress m vma false = (m', 8192) ∧ Grown P m (stampPage m' vma) ∧
      created (stampPage m' vma) vma = true := by
  have hensure : ensureVirtualAddress m vma false =
      ((m.mapWad (wadNumber vma) (computeProtection (defaultAttributes m.enableIDS false false))
        ).setAttribute (pageNumber vma) (defaultAttributes m.enableIDS false false), 8192) := by
    unfold ensureVirtualAddress
    dsimp only
    rw [if_neg (by
      unfold created at hno
      rw [hno]
      exact Bool.false_ne_true), if_neg (by
      rw [hwad]
      exact Bool.false_ne_true)]
  refine ⟨_, hensure, ?_, ?_⟩
  · constructor
    · intro a ha
      have hother : wadNumber a ≠ wadNumber vma := by
        intro heq
        have hwad' := wadCreated_of_created ha
        rw [wadCreated_iff, heq, ← wadCreated_iff, hwad] at hwad'
        cases hwad'
      have hpages : pageNumber a ≠ pageNumber vma := by
        intro heq
        apply hother
        rw [← pageNumber_div, heq, pageNumber_div]
      have houtside : ¬ (vma ≤ a ∧ a < vma + 8192) := by
        unfold pageNumber at hpages
        omega
      simp only [stampPage, Memory.writeWords, Memory.setAttribute, Memory.mapWad, if_neg houtside,
        if_neg hpages, if_neg hother, and_self]
    · intro a hold ha
      have hsame : pageNumber a = pageNumber vma := by
        by_contra hne
        unfold created at hold ha
        simp only [stampPage, Memory.writeWords, Memory.setAttribute, Memory.mapWad,
          if_neg hne] at ha
        rw [hold] at ha
        cases ha
      have hinside : vma ≤ a ∧ a < vma + 8192 := by
        unfold pageNumber at hsame
        omega
      rw [hsame]
      simp only [stampPage, Memory.writeWords, if_pos hinside]
      exact ⟨hP, trivial, trivial⟩
  · simp only [created, stampPage, Memory.writeWords, Memory.setAttribute, if_pos]
    exact vmExists_default _ _ _

/-! ### The regions -/

theorem repavePages_grown {origin left page : Nat} (horigin : origin % 8192 = 0)
    (hP : ∀ k, page ≤ k → k < page + left → P (pageNumber ((origin + k * 8192) % 2 ^ 32))) :
    Grown P m (repavePages origin left page m) ∧
      ∀ k, page ≤ k → k < page + left →
        Reachable (repavePages origin left page m) ((origin + k * 8192) % 2 ^ 32) := by
  induction left generalizing page m with
  | zero =>
      refine ⟨Grown.refl P m, ?_⟩
      intro k hlo hhi
      omega
  | succ left ih =>
      have hrest : ∀ k, page + 1 ≤ k → k < page + 1 + left →
          P (pageNumber ((origin + k * 8192) % 2 ^ 32)) := by
        intro k hlo hhi
        exact hP k (by omega) (by omega)
      -- the first page is reached, and stays so
      have hstep : ∀ m₁, Grown P m m₁ → Reachable m₁ ((origin + page * 8192) % 2 ^ 32) →
          Grown P m (repavePages origin left (page + 1) m₁) ∧
            ∀ k, page ≤ k → k < page + (left + 1) →
              Reachable (repavePages origin left (page + 1) m₁) ((origin + k * 8192) % 2 ^ 32) := by
        intro m₁ hgrown hfirst
        obtain ⟨hgrown', hreach⟩ := @ih m₁ (page + 1) hrest
        refine ⟨hgrown.trans hgrown', ?_⟩
        intro k hlo hhi
        by_cases hk : k = page
        · rw [hk]
          exact hgrown'.reachable hfirst
        · exact hreach k (by omega) (by omega)
      unfold repavePages
      dsimp only
      split
      · next hexists => exact hstep m (Grown.refl P m) (Or.inl hexists)
      · next hexists =>
        split
        · next hwad => exact hstep m (Grown.refl P m) (Or.inr hwad)
        · next hwad =>
          obtain ⟨m₁, hensure, hgrown, hcreated⟩ := @grown_create P m
            ((origin + page * 8192) % 2 ^ 32) (by omega) (Bool.eq_false_of_not_eq_true hexists)
            (Bool.eq_false_of_not_eq_true hwad) (hP page le_rfl (by omega))
          rw [hensure]
          dsimp only
          rw [if_neg (by decide)]
          exact hstep _ hgrown (Or.inl hcreated)

/-- A stack with a plausible free pointer. -/
structure Region.IsStack (r : Region) : Prop where
  stack : r.bits &&& 0x20 ≠ 0
  freePointer_pos : 0 < r.freePointer.toNat
  freePointer_le : r.freePointer.toNat ≤ r.length.toNat * 65536
  nPages_le : r.nPages ≤ 4096

theorem Region.repaves_iff (r : Region) : r.repaves = true ↔ r.IsStack := by
  have hzero : ∀ x : Integer, (x == 0) = true ↔ x.toNat = 0 := by
    intro x
    rw [beq_iff_eq, BitVec.toNat_eq]
    rfl
  unfold Region.repaves
  rw [Bool.and_eq_true, Bool.and_eq_true, Bool.not_eq_true', Bool.or_eq_false_iff,
    Bool.or_eq_false_iff, ← Bool.not_eq_true, ← Bool.not_eq_true, hzero, hzero,
    decide_eq_false_iff_not, decide_eq_true_eq, bne_iff_ne, Nat.shiftLeft_eq]
  constructor
  · intro h
    obtain ⟨⟨⟨⟨hfree, -⟩, hle⟩, hstack⟩, hpages⟩ := h
    exact ⟨hstack, by omega, by omega, hpages⟩
  · intro h
    obtain ⟨hstack, hpos, hle, hpages⟩ := h
    exact ⟨⟨⟨⟨by omega, by omega⟩, by omega⟩, hstack⟩, hpages⟩

theorem Region.origin_mod (r : Region) : r.origin % 8192 = 0 := by
  unfold Region.origin
  rw [BitVec.toNat_shiftLeft, Nat.shiftLeft_eq]
  omega

/-- The pages of the words below the free pointer of a stack. -/
def StackPage (m : Memory) (tables : RegionTables) (p : Nat) : Prop :=
  ∃ n r j, n < 0x400 ∧ (readRegion m tables n).2 = some r ∧ r.IsStack ∧
    j < r.freePointer.toNat ∧ pageNumber ((r.origin + j) % 2 ^ 32) = p

/-- One table entry is dealt with. -/
theorem repaveRegion_grown {tables : RegionTables} {m₀ : Memory} {n : Nat} (hn : n < 0x400)
    (h : Grown (StackPage m₀ tables) m₀ m) :
    Grown (StackPage m₀ tables) m (repaveRegion tables m n) ∧
      ∀ r, (readRegion m₀ tables n).2 = some r → r.IsStack → ∀ j, j < r.freePointer.toNat →
        Reachable (repaveRegion tables m n) ((r.origin + j) % 2 ^ 32) := by
  obtain ⟨hentry, hsame⟩ := readRegion_eq m tables n
  rw [h.regionEntry, ← (readRegion_eq m₀ tables n).1] at hentry
  unfold repaveRegion
  cases hread : readRegion m tables n with
  | mk m₁ r =>
      rw [hread] at hentry hsame
      dsimp only at hentry hsame ⊢
      rw [← hentry]
      cases r with
      | none =>
          refine ⟨hsame.grown _, ?_⟩
          intro r hr
          cases hr
      | some r =>
          dsimp only
          by_cases hstack : r.IsStack
          · rw [if_pos (r.repaves_iff.mpr hstack)]
            have hpos := hstack.freePointer_pos
            have horigin := r.origin_mod
            obtain ⟨hgrown, hreach⟩ := @repavePages_grown (StackPage m₀ tables) m₁ r.origin r.nPages 0
              horigin (by
                intro k _ hk
                unfold Region.nPages at hk
                exact ⟨n, r, k * 8192, hn, hentry.symm, hstack, by omega, rfl⟩)
            refine ⟨(hsame.grown _).trans hgrown, ?_⟩
            intro r' hr' _ j hj
            cases hr'
            have hpage := hreach (j / 8192) (Nat.zero_le _) (by
              unfold Region.nPages
              omega)
            unfold Reachable created wadCreated pageNumber wadNumber at hpage ⊢
            rw [show (r.origin + j) % 2 ^ 32 / 8192 = (r.origin + j / 8192 * 8192) % 2 ^ 32 / 8192 by
              omega, show (r.origin + j) % 2 ^ 32 / 65536 =
              (r.origin + j / 8192 * 8192) % 2 ^ 32 / 65536 by omega]
            exact hpage
          · rw [if_neg (fun h => hstack (r.repaves_iff.mp h))]
            refine ⟨hsame.grown _, ?_⟩
            intro r' hr' hstack'
            cases hr'
            exact absurd hstack' hstack

/-- **Repaving the stack regions.**  All words of the stacks are reached afterwards, the
pages that existed are as they were, and the new ones lie in the stacks and are stamped. -/
theorem repaveStackRegions_spec (m : Memory) (tables : RegionTables)
    (hreadable : (readRegionTables m).2 = some tables) :
    (∀ n, n < 0x400 → ∀ r, (readRegion m tables n).2 = some r → r.IsStack →
      ∀ j, j < r.freePointer.toNat →
        Reachable (repaveStackRegions m) ((r.origin + j) % 2 ^ 32)) ∧
    Grown (StackPage m tables) m (repaveStackRegions m) := by
  have hsame := readRegionTables_same m
  unfold repaveStackRegions
  cases hread : readRegionTables m with
  | mk m₁ r =>
      rw [hread] at hreadable hsame
      dsimp only at hreadable hsame
      subst hreadable
      dsimp only
      have hrun : ∀ k, k ≤ 0x400 →
          Grown (StackPage m tables) m ((List.range k).foldl (repaveRegion tables) m₁) ∧
            ∀ n, n < k → ∀ r, (readRegion m tables n).2 = some r → r.IsStack →
              ∀ j, j < r.freePointer.toNat →
                Reachable ((List.range k).foldl (repaveRegion tables) m₁)
                  ((r.origin + j) % 2 ^ 32) := by
        intro k hk
        induction k with
        | zero =>
            refine ⟨hsame.grown _, ?_⟩
            intro n hn
            exact absurd hn (Nat.not_lt_zero n)
        | succ k ih =>
            obtain ⟨hgrown, hreach⟩ := ih (by omega)
            rw [List.range_succ, List.foldl_append, List.foldl_cons, List.foldl_nil]
            obtain ⟨hstep, hlast⟩ := repaveRegion_grown (show k < 0x400 by omega) hgrown
            refine ⟨hgrown.trans hstep, ?_⟩
            intro n hn r hr hstack j hj
            by_cases hnk : n = k
            · subst hnk
              exact hlast r hr hstack j hj
            · exact hstep.reachable (hreach n (by omega) r hr hstack j hj)
      obtain ⟨hgrown, hreach⟩ := hrun 0x400 le_rfl
      exact ⟨hreach, hgrown⟩

/-- One stack of two pages at 0x10000, and no page but that of the tables. -/
def sampleRegions : Memory :=
  { Memory.empty false with
    attributeTable := fun p => if p = 0x7C020 then 0x70 else 0
    tagSpace := fun a => if a < 0xF8041200 then typeArray else typeFixnum
    dataSpace := fun a =>
      if a = 0xF804110A then 0xF8041200
      else if a = 0xF804110B then 0xF8041300
      else if a = 0xF804110C then 0xF8041400
      else if a = 0xF804110E then 0xF8041500
      else if a = 0xF8041201 then 1
      else if a = 0xF8041301 then 1
      else if a = 0xF8041401 then 0x2001
      else if a = 0xF8041501 then 0x20
      else 0 }

theorem repaveStackRegions_sample : Reachable (repaveStackRegions sampleRegions) 0x12000 :=
  (repaveStackRegions_spec sampleRegions ⟨0xF8041200, 0xF8041300, 0xF8041400, 0xF8041500⟩ rfl).1 0
    (by decide) ⟨1, 1, 0x2001, 0x20⟩ rfl (by constructor <;> decide) 0x2000 (by decide)

end VM
