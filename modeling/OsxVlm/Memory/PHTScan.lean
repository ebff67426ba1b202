import Mathlib
import OsxVlm.Memory.Attributes
import OsxVlm.Memory.VirtualMemory
import OsxVlm.Memory.Scan

/-!
# What the scan of the attribute table finds

`VirtualMemoryPHTScan` first goes by wads to the first one with a page, and then
by pages.  For each wad it takes a whole wad off the words that are left, also
for the one it started in the middle of; the pages at the end of the range that
this leaves out are not looked at.
-/

namespace VM

/-- The pages with a word of `[vma, vma + count)` whose attributes include `mask`. -/
def matchingPages (m : Memory) (vma count : Nat) (mask : VMAttribute) : Set Nat :=
  {p | p < 2 ^ 19 ∧ (∃ a, vma ≤ a ∧ a < vma + count ∧ pageNumber a = p) ∧
    m.attributeTable p &&& mask = mask}

/-- The scan gives the lowest matching page, and nothing where there is none. -/
def FindsLowest (m : Memory) (vma count : Nat) (mask : VMAttribute) : Prop :=
  (∀ a, virtualMemoryPHTScan m vma count mask true = some a ↔
    ∃ p, a = 8192 * p ∧ IsLeast (matchingPages m vma count mask) p) ∧
  (virtualMemoryPHTScan m vma count mask true = none ↔ matchingPages m vma count mask = ∅)

/-- The pages that do not exist have no attribute. -/
def AbsentClear (m : Memory) : Prop :=
  ∀ p < 2 ^ 19, vmExists (m.attributeTable p) = false → m.attributeTable p = 0

variable {m : Memory} {vma count : Nat} {mask : VMAttribute}

theorem mem_matchingPages {p : Nat} :
    p ∈ matchingPages m vma count mask ↔
      p < 2 ^ 19 ∧ (pageNumber vma ≤ p ∧ 8192 * p < vma + count ∧ 0 < count) ∧
        m.attributeTable p &&& mask = mask := by
  have hmeets : (∃ a, vma ≤ a ∧ a < vma + count ∧ pageNumber a = p) ↔
      pageNumber vma ≤ p ∧ 8192 * p < vma + count ∧ 0 < count := by
    unfold pageNumber
    constructor
    · rintro ⟨a, hlow, hhigh, rfl⟩
      omega
    · rintro ⟨hlow, hhigh, hpos⟩
      exact ⟨max vma (8192 * p), by omega, by omega, by omega⟩
  show p < 2 ^ 19 ∧ (∃ a, vma ≤ a ∧ a < vma + count ∧ pageNumber a = p) ∧ _ ↔ _
  rw [hmeets]

/-- The loop over pages stops at the first that matches. -/
theorem findPage_eq_some_iff {left attr a : Nat} {n : Int} :
    findPage m mask true left attr n = some a ↔
      ∃ p, a = 8192 * p ∧ IsLeast {p | attr ≤ p ∧ p < attr + left ∧ 8192 * (p - attr : Int) < n ∧
        m.attributeTable p &&& mask = mask} p := by
  induction left generalizing attr n with
  | zero =>
      simp only [findPage, reduceCtorEq, false_iff, not_exists, not_and]
      rintro p - ⟨⟨hlow, hhigh, -⟩, -⟩
      omega
  | succ left ih =>
      unfold findPage
      by_cases hn : n ≤ 0
      · rw [if_pos hn]
        simp only [reduceCtorEq, false_iff, not_exists, not_and]
        rintro p - ⟨⟨hlow, -, hleft, -⟩, -⟩
        omega
      · rw [if_neg hn]
        by_cases hmatch : m.attributeTable attr &&& mask = mask
        · simp only [hmatch, decide_true, beq_self_eq_true, if_true, Option.some.injEq]
          constructor
          · rintro rfl
            refine ⟨attr, rfl, ⟨le_refl _, by omega, by omega, hmatch⟩, ?_⟩
            rintro p ⟨hlow, -⟩
            exact hlow
          · rintro ⟨p, rfl, ⟨hlow, -⟩, hleast⟩
            have hle : p ≤ attr := hleast ⟨le_refl _, by omega, by omega, hmatch⟩
            have heq : p = attr := Nat.le_antisymm hle hlow
            rw [heq]
        · -- the first page is out, so the others decide
          have hset : {p | attr ≤ p ∧ p < attr + (left + 1) ∧ 8192 * (p - attr : Int) < n ∧
              m.attributeTable p &&& mask = mask} =
              {p | attr + 1 ≤ p ∧ p < attr + 1 + left ∧ 8192 * (p - (attr + 1 : Nat) : Int) < n - 8192 ∧
                m.attributeTable p &&& mask = mask} := by
            ext p
            constructor
            · rintro ⟨hlow, hhigh, hleft, hp⟩
              have hne : p ≠ attr := by
                rintro rfl
                exact hmatch hp
              exact ⟨by omega, by omega, by omega, hp⟩
            · rintro ⟨hlow, hhigh, hleft, hp⟩
              exact ⟨by omega, by omega, by omega, hp⟩
          have hfalse : (decide (m.attributeTable attr &&& mask = mask) == true) = false := by
            simp [hmatch]
          rw [hfalse, hset]
          exact ih

/-- The loop over wads has passed `k` wads, none with a page. -/
theorem skipWads_eq (left wad : Nat) (n : Int) :
    ∃ k, skipWads m left wad n = (wad + k, n - 65536 * k) ∧ k ≤ left ∧
      (∀ w, wad ≤ w → w < wad + k → wadCreated m (65536 * w) = false) ∧
      (k = 0 → left = 0 ∨ n ≤ 0 ∨ wadCreated m (65536 * wad) = true) := by
  induction left generalizing wad n with
  | zero => exact ⟨0, by simp [skipWads], le_refl _, by intros; omega, fun _ => .inl rfl⟩
  | succ left ih =>
      unfold skipWads
      by_cases hskip : (0 < n && !wadCreated m (65536 * wad)) = true
      · rw [if_pos hskip]
        obtain ⟨k, heq, hle, hclear, -⟩ := ih (wad + 1) (n - 65536)
        refine ⟨k + 1, ?_, by omega, ?_, by omega⟩
        · rw [heq]
          ext
          · show wad + 1 + k = wad + (k + 1)
            omega
          · show n - 65536 - 65536 * (k : Int) = n - 65536 * ((k + 1 : Nat) : Int)
            omega
        · intro w hlow hhigh
          rcases Nat.eq_or_lt_of_le hlow with heq' | hlt
          · subst heq'
            simp only [Bool.and_eq_true, Bool.not_eq_true'] at hskip
            exact hskip.2
          · exact hclear w hlt (by omega)
      · refine ⟨0, ?_, Nat.zero_le _, by intros; omega, fun _ => .inr ?_⟩
        · rw [if_neg hskip]
          simp
        · simp only [Bool.and_eq_true, decide_eq_true_eq, Bool.not_eq_true', not_and,
            Bool.not_eq_false] at hskip
          rcases Int.lt_or_le 0 n with hpos | hneg
          · exact .inr (hskip hpos)
          · exact .inl hneg

/-- A page with a matching attribute exists, and so does its wad. -/
theorem wadCreated_of_match {p : Nat} (hclear : AbsentClear m) (hmask : mask ≠ 0)
    (hlt : p < 2 ^ 19) (hp : m.attributeTable p &&& mask = mask) : wadCreated m (65536 * (p / 8)) = true := by
  apply wadCreated_iff.mpr
  refine ⟨p, by unfold wadNumber; omega, ?_⟩
  by_contra hex
  rw [hclear p hlt (by simpa using hex)] at hp
  exact hmask (by simpa using hp.symm)

/-- The pages that a scan whose first wad has no page takes off too many. -/
def lostPages (m : Memory) (vma : Nat) : Nat :=
  if wadCreated m vma then 0 else pageNumber vma % 8

/-- The matching pages that the loops look at. -/
def lookedAt (m : Memory) (vma count : Nat) (mask : VMAttribute) : Set Nat :=
  {p | p < 2 ^ 19 ∧ pageNumber vma ≤ p ∧ 8192 * (p + lostPages m vma) < vma + count ∧
    m.attributeTable p &&& mask = mask}

theorem wadCreated_wadNumber (m : Memory) (vma : Nat) :
    wadCreated m (65536 * wadNumber vma) = wadCreated m vma := by
  have hnumber : wadNumber (65536 * wadNumber vma) = wadNumber vma := by
    unfold wadNumber
    omega
  unfold wadCreated
  rw [hnumber]

theorem virtualMemoryPHTScan_eq_some_iff (hvma : vma < 2 ^ 32) (hclear : AbsentClear m)
    (hmask : mask ≠ 0) (a : Nat) :
    virtualMemoryPHTScan m vma count mask true = some a ↔
      ∃ p, a = 8192 * p ∧ IsLeast (lookedAt m vma count mask) p := by
  obtain ⟨k, hskip, hle, habsent, hstart⟩ := @skipWads_eq m (2 ^ 16 - wadNumber vma)
    (wadNumber vma) (count + pageOffset vma)
  have hwad : wadNumber vma < 2 ^ 16 := by
    unfold wadNumber
    omega
  have hpage : pageNumber vma / 8 = wadNumber vma := pageNumber_div vma
  have hsplit : 8192 * pageNumber vma + pageOffset vma = vma := by
    unfold pageNumber pageOffset
    omega
  unfold virtualMemoryPHTScan
  rw [hskip]
  dsimp only
  rw [findPage_eq_some_iff]
  -- the loop over pages looks at just these
  have hset : {p | max (pageNumber vma) (8 * (wadNumber vma + k)) ≤ p ∧
      p < max (pageNumber vma) (8 * (wadNumber vma + k)) +
        (2 ^ 19 - max (pageNumber vma) (8 * (wadNumber vma + k))) ∧
      8192 * (p - (max (pageNumber vma) (8 * (wadNumber vma + k)) : Nat) : Int) <
        count + pageOffset vma - 65536 * k ∧
      m.attributeTable p &&& mask = mask} = lookedAt m vma count mask := by
    rcases Nat.eq_zero_or_pos k with hzero | hpos
    · subst hzero
      have hcase := hstart rfl
      rw [wadCreated_wadNumber] at hcase
      ext p
      show _ ↔ p < 2 ^ 19 ∧ pageNumber vma ≤ p ∧ 8192 * (p + lostPages m vma) < vma + count ∧ _
      unfold lostPages
      rcases hcase with hleft | hn | hcreated
      · omega
      · constructor
        · rintro ⟨hlow, -, hcount, -⟩
          omega
        · rintro ⟨-, hlow, hcount, -⟩
          split at hcount <;> omega
      · rw [if_pos hcreated]
        constructor
        · rintro ⟨hlow, hhigh, hcount, hp⟩
          exact ⟨by omega, by omega, by omega, hp⟩
        · rintro ⟨hlt, hlow, hcount, hp⟩
          exact ⟨by omega, by omega, by omega, hp⟩
    · have hnot := habsent (wadNumber vma) (le_refl _) (by omega)
      rw [wadCreated_wadNumber] at hnot
      ext p
      show _ ↔ p < 2 ^ 19 ∧ pageNumber vma ≤ p ∧ 8192 * (p + lostPages m vma) < vma + count ∧ _
      unfold lostPages
      rw [if_neg (by simp [hnot])]
      constructor
      · rintro ⟨hlow, hhigh, hcount, hp⟩
        exact ⟨by omega, by omega, by omega, hp⟩
      · rintro ⟨hlt, hlow, hcount, hp⟩
        have hbehind : wadNumber vma + k ≤ p / 8 := by
          by_contra hbefore
          have hcreated := wadCreated_of_match hclear hmask hlt hp
          rw [habsent (p / 8) (by omega) (by omega)] at hcreated
          cases hcreated
        exact ⟨by omega, by omega, by omega, hp⟩
  rw [hset]

theorem virtualMemoryPHTScan_eq_none_iff (hvma : vma < 2 ^ 32) (hclear : AbsentClear m)
    (hmask : mask ≠ 0) :
    virtualMemoryPHTScan m vma count mask true = none ↔ lookedAt m vma count mask = ∅ := by
  rw [Set.eq_empty_iff_forall_notMem, Option.eq_none_iff_forall_not_mem]
  constructor
  · intro hnone p hp
    obtain ⟨q, hq⟩ := (OrderBot.bddBelow _).exists_isLeast_of_nonempty ⟨p, hp⟩
    exact hnone _ ((virtualMemoryPHTScan_eq_some_iff hvma hclear hmask _).mpr ⟨q, rfl, hq⟩)
  · intro hempty a ha
    obtain ⟨p, -, hp⟩ := (virtualMemoryPHTScan_eq_some_iff hvma hclear hmask a).mp ha
    exact hempty p hp.1

/-- The pages looked at are matching ones, but for a range without a word. -/
theorem lookedAt_subset (hcount : 0 < count) :
    lookedAt m vma count mask ⊆ matchingPages m vma count mask := by
  rintro p ⟨hlt, hlow, hhigh, hp⟩
  exact mem_matchingPages.mpr ⟨hlt, ⟨hlow, by omega, hcount⟩, hp⟩

theorem not_mem_matchingPages_zero (p : Nat) : p ∉ matchingPages m vma 0 mask := by
  intro hp
  exact absurd (mem_matchingPages.mp hp).2.1.2.2 (Nat.lt_irrefl 0)

/-- The scan finds the lowest matching page just when it does not start in the middle
of an empty wad with the lowest match on the pages it takes off too many, nor looks
at a page for a range without a word. -/
theorem virtualMemoryPHTScan_findsLowest_iff (hvma : vma < 2 ^ 32) (hclear : AbsentClear m)
    (hmask : mask ≠ 0) :
    FindsLowest m vma count mask ↔
      (count = 0 → pageOffset vma = 0 ∨ m.attributeTable (pageNumber vma) &&& mask ≠ mask) ∧
      (wadCreated m vma = true ∨ pageNumber vma % 8 = 0 ∨
        ∀ p, IsLeast (matchingPages m vma count mask) p →
          8192 * (p + pageNumber vma % 8) < vma + count) := by
  have hpage : pageNumber vma < 2 ^ 19 := by
    unfold pageNumber
    omega
  have hsplit : 8192 * pageNumber vma + pageOffset vma = vma := by
    unfold pageNumber pageOffset
    omega
  unfold FindsLowest
  simp only [virtualMemoryPHTScan_eq_some_iff hvma hclear hmask,
    virtualMemoryPHTScan_eq_none_iff hvma hclear hmask]
  constructor
  · rintro ⟨hsome, hnone⟩
    refine ⟨?_, ?_⟩
    · rintro rfl
      by_contra hpartial
      push Not at hpartial
      have hcreated := wadCreated_of_match hclear hmask hpage hpartial.2
      rw [pageNumber_div, wadCreated_wadNumber] at hcreated
      have hempty : matchingPages m vma 0 mask = ∅ :=
        Set.eq_empty_iff_forall_notMem.mpr not_mem_matchingPages_zero
      have hlooked : pageNumber vma ∈ lookedAt m vma 0 mask := by
        refine ⟨hpage, le_refl _, ?_, hpartial.2⟩
        unfold lostPages
        rw [if_pos hcreated]
        omega
      rw [hnone.mpr hempty] at hlooked
      exact hlooked
    · by_contra hlost
      push Not at hlost
      obtain ⟨habsent, -, p, hleast, hge⟩ := hlost
      obtain ⟨p', hp', hlooked⟩ := (hsome (8192 * p)).mpr ⟨p, rfl, hleast⟩
      have heq : p' = p := by omega
      subst heq
      have hlt := hlooked.1.2.2.1
      unfold lostPages at hlt
      rw [if_neg habsent] at hlt
      omega
  · rintro ⟨hzero, hlost⟩
    have hiff : ∀ p, IsLeast (lookedAt m vma count mask) p ↔
        IsLeast (matchingPages m vma count mask) p := by
      rcases Nat.eq_zero_or_pos count with hcount | hcount
      · subst hcount
        intro p
        constructor
        · rintro ⟨⟨hlt, hlow, hhigh, hp⟩, -⟩
          have hoff : pageOffset vma < 8192 := Nat.mod_lt _ (by decide)
          have heq : p = pageNumber vma := by omega
          subst heq
          rcases hzero rfl with hoff | hno
          · omega
          · exact absurd hp hno
        · rintro ⟨hmem, -⟩
          exact absurd hmem (not_mem_matchingPages_zero p)
      · have hin : ∀ p, IsLeast (matchingPages m vma count mask) p →
            p ∈ lookedAt m vma count mask := by
          rintro p hleast
          obtain ⟨hlt, ⟨hlow, hhigh, -⟩, hp⟩ := mem_matchingPages.mp hleast.1
          refine ⟨hlt, hlow, ?_, hp⟩
          unfold lostPages
          split
          · omega
          · next habsent =>
            rcases hlost with hcreated | hfirst | hnear
            · exact absurd hcreated habsent
            · omega
            · exact hnear p hleast
        intro p
        constructor
        · rintro ⟨hmem, hleast⟩
          obtain ⟨p', hp'⟩ := (OrderBot.bddBelow _).exists_isLeast_of_nonempty
            ⟨p, lookedAt_subset hcount hmem⟩
          have heq : p = p' :=
            Nat.le_antisymm (hleast (hin p' hp')) (hp'.2 (lookedAt_subset hcount hmem))
          rwa [heq]
        · intro hleast
          exact ⟨hin p hleast, fun q hq => hleast.2 (lookedAt_subset hcount hq)⟩
    refine ⟨fun a => by simp only [hiff], ?_⟩
    rw [Set.eq_empty_iff_forall_notMem, Set.eq_empty_iff_forall_notMem]
    constructor
    · intro hnone p hp
      obtain ⟨q, hq⟩ := (OrderBot.bddBelow _).exists_isLeast_of_nonempty ⟨p, hp⟩
      exact hnone q ((hiff q).mpr hq).1
    · intro hnone p hp
      obtain ⟨q, hq⟩ := (OrderBot.bddBelow _).exists_isLeast_of_nonempty ⟨p, hp⟩
      exact hnone q ((hiff q).mp hq).1

/-- One page exists, the first of the second wad. -/
def onePage : Memory := (Memory.empty false).setAttribute 8 .exists

theorem onePage_absentClear : AbsentClear onePage := by
  intro p _ hex
  show (if p = 8 then VMAttribute.exists else 0) = 0
  split
  · next heq =>
      subst heq
      cases hex
  · rfl

theorem virtualMemoryPHTScan_findsLowest_onePage :
    FindsLowest onePage 0 65537 .exists ↔
      ((65537 : Nat) = 0 →
        pageOffset 0 = 0 ∨ onePage.attributeTable (pageNumber 0) &&& .exists ≠ .exists) ∧
      (wadCreated onePage 0 = true ∨ pageNumber 0 % 8 = 0 ∨
        ∀ p, IsLeast (matchingPages onePage 0 65537 .exists) p →
          8192 * (p + pageNumber 0 % 8) < 0 + 65537) :=
  virtualMemoryPHTScan_findsLowest_iff (by decide) onePage_absentClear (by decide)

/-- From the last page of an empty wad, two pages: the second is not looked at. -/
theorem virtualMemoryPHTScan_misses_onePage :
    AbsentClear onePage ∧ virtualMemoryPHTScan onePage (7 * 8192) (2 * 8192) .exists true = none ∧
      IsLeast (matchingPages onePage (7 * 8192) (2 * 8192) .exists) 8 ∧
      ¬ FindsLowest onePage (7 * 8192) (2 * 8192) .exists := by
  have hlost : lostPages onePage (7 * 8192) = 7 := by decide
  have hnone : virtualMemoryPHTScan onePage (7 * 8192) (2 * 8192) .exists true = none := by
    rw [virtualMemoryPHTScan_eq_none_iff (by decide) onePage_absentClear (by decide),
      Set.eq_empty_iff_forall_notMem]
    rintro p ⟨-, hlow, hhigh, -⟩
    rw [hlost] at hhigh
    unfold pageNumber at hlow
    omega
  have hleast : IsLeast (matchingPages onePage (7 * 8192) (2 * 8192) .exists) 8 := by
    refine ⟨mem_matchingPages.mpr ⟨by decide, by decide, by decide⟩, ?_⟩
    intro p hp
    obtain ⟨-, ⟨hlow, -⟩, hmatch⟩ := mem_matchingPages.mp hp
    by_contra hlt
    have heq : p = 7 := by
      unfold pageNumber at hlow
      omega
    subst heq
    exact absurd hmatch (by decide)
  refine ⟨onePage_absentClear, hnone, hleast, ?_⟩
  rintro ⟨-, hempty⟩
  rw [hempty.mp hnone] at hleast
  exact hleast.1

end VM
