import OsxVlm.Print.Restructure

/-!
# Where the cuts fall

What `split_document` and `split_chunk` return for a document and for a chunk that are
given as their parts, and which parts there are when they return something.
-/

namespace Psfix

open Lines

/-! ### Lines by their indices -/

theorem indices_append (p : Line → Bool) (a b : List Line) :
    indices p (a ++ b) = indices p a ++ (indices p b).map (· + a.length) := by
  unfold indices
  rw [List.zipIdx_append, List.filter_append, List.map_append, Nat.zero_add,
    List.zipIdx_eq_map_add (i := a.length), List.filter_map, List.map_map, List.map_map]
  simp [Function.comp_def, Nat.add_comm]

theorem indices_none {p : Line → Bool} {a : List Line} (h : ∀ line ∈ a, p line = false) :
    indices p a = [] := by
  simp only [indices, List.map_eq_nil_iff, List.filter_eq_nil_iff]
  intro l hl
  simp [h l.1 (List.fst_mem_of_mem_zipIdx hl)]

theorem indices_cons {p : Line → Bool} {x : Line} (hx : p x) (b : List Line) :
    indices p (x :: b) = 0 :: (indices p b).map (· + 1) := by
  have h := indices_append p [x] b
  simpa [indices, hx] using h

theorem length_indices (p : Line → Bool) (a : List Line) :
    (indices p a).length = a.countP p := by
  induction a with
  | nil => rfl
  | cons x a ih =>
      have h := indices_append p [x] a
      rw [List.singleton_append] at h
      rw [h, List.length_append, List.length_map, ih, List.countP_cons]
      cases hx : p x <;> simp [indices, hx, Nat.add_comm]

/-- The first line that a pattern matches. -/
theorem exists_first {p : Line → Bool} {a : List Line} (h : 0 < a.countP p) :
    ∃ before x after, a = before ++ x :: after ∧ p x ∧ ∀ line ∈ before, p line = false := by
  obtain ⟨x, hx, hp⟩ := List.countP_pos_iff.1 h
  obtain ⟨y, before, after, hnone, hy, heq, -⟩ := List.exists_of_eraseP hx hp
  exact ⟨before, y, after, heq, hy, fun line hl => by simpa using hnone line hl⟩

/-- The last line that a pattern matches. -/
theorem exists_last {p : Line → Bool} {a : List Line} (h : 0 < a.countP p) :
    ∃ before x after, a = before ++ x :: after ∧ p x ∧ ∀ line ∈ after, p line = false := by
  have hrev : 0 < a.reverse.countP p := by rwa [List.countP_reverse]
  obtain ⟨before, x, after, heq, hx, hnone⟩ := exists_first hrev
  refine ⟨after.reverse, x, before.reverse, ?_, hx, by simpa using hnone⟩
  rw [← List.reverse_reverse a, heq]
  simp

theorem slice_append (a b c : List Line) :
    slice (a ++ b ++ c) a.length (a.length + b.length) = b := by
  unfold slice
  rw [← List.length_append, List.take_left, List.drop_left]

/-! ### `split_document` -/

/-- A line that begins neither a page nor the trailer. -/
def Plain (line : Line) : Prop := pageRe line = none ∧ trailerRe line = false

instance (line : Line) : Decidable (Plain line) := by
  unfold Plain
  infer_instance

theorem Marks.scan_append (m : Marks) (i : Nat) (a b : List Line) :
    m.scan i (a ++ b) = (m.scan i a).scan (i + a.length) b := by
  induction a generalizing m i with
  | nil => rfl
  | cons line a ih =>
      rw [List.cons_append, Marks.scan, Marks.scan, ih, List.length_cons, Nat.add_assoc,
        Nat.add_comm 1]

theorem Marks.scan_plain {a : List Line} (m : Marks) (i : Nat) (h : ∀ line ∈ a, Plain line) :
    m.scan i a = m := by
  induction a generalizing i with
  | nil => rfl
  | cons line a ih =>
      obtain ⟨hpage, htrailer⟩ := h line (by simp)
      rw [Marks.scan, Marks.line, hpage]
      simp only [htrailer, Bool.false_eq_true, and_false, if_false]
      exact ih (i + 1) fun l hl => h l (by simp [hl])

/-- Past the beginning of the trailer only the pages are marked. -/
theorem Marks.scan_trailer {a : List Line} {m : Marks} {stop : Nat} (i : Nat)
    (hstop : m.trailerStart = some stop) (h : ∀ line ∈ a, pageRe line = none) :
    m.scan i a = m := by
  induction a generalizing i with
  | nil => rfl
  | cons line a ih =>
      rw [Marks.scan, Marks.line, h line (by simp)]
      simp only [hstop, reduceCtorEq, false_and, if_false]
      exact ih (i + 1) fun l hl => h l (by simp [hl])

theorem Marks.trailerStart_scan {m : Marks} {stop : Nat} (i : Nat) (a : List Line)
    (hstop : m.trailerStart = some stop) : (m.scan i a).trailerStart = some stop := by
  induction a generalizing m i with
  | nil => exact hstop
  | cons line a ih =>
      refine ih (i + 1) ?_
      unfold Marks.line
      split
      · exact hstop
      · simp [hstop]

/-- A chunk with its ordinal. -/
def IsChunk (chunk : Int × List Line) : Prop :=
  ∃ page rest, chunk.2 = page :: rest ∧ pageRe page = some chunk.1 ∧ ∀ line ∈ rest, Plain line

/-- Where chunks begin that follow each other from index `i` on. -/
def starts (i : Nat) : List (Int × List Line) → List Nat
  | [] => []
  | chunk :: chunks => i :: starts (i + chunk.2.length) chunks

theorem Marks.scan_chunks {chunks : List (Int × List Line)} (m : Marks) (i : Nat)
    (h : ∀ chunk ∈ chunks, IsChunk chunk) :
    m.scan i (chunks.flatMap Prod.snd) =
      { m with
        pageIdx := m.pageIdx ++ starts i chunks
        ordinals := m.ordinals ++ chunks.map Prod.fst } := by
  induction chunks generalizing m i with
  | nil => simp [Marks.scan, starts]
  | cons chunk chunks ih =>
      obtain ⟨page, rest, hchunk, hpage, hrest⟩ := h chunk (by simp)
      rw [List.flatMap_cons, Marks.scan_append, ih _ _ fun c hc => h c (by simp [hc])]
      rw [hchunk, Marks.scan, Marks.line, hpage]
      simp only [Marks.scan_plain _ _ hrest]
      simp [starts, hchunk]

/-- The slices between the beginnings are the chunks. -/
theorem slices_starts (before : List Line) (chunks : List (Int × List Line))
    (after : List Line) (hne : chunks ≠ []) :
    (((chunks.map Prod.fst).zip ((starts before.length chunks).zip
      ((starts before.length chunks).tail ++
        [before.length + (chunks.flatMap Prod.snd).length]))).map fun c =>
        (c.1, slice (before ++ chunks.flatMap Prod.snd ++ after) c.2.1 c.2.2)) = chunks := by
  induction chunks generalizing before with
  | nil => exact absurd rfl hne
  | cons chunk chunks ih =>
      cases chunks with
      | nil =>
          have h := slice_append before chunk.2 after
          simp only [List.append_assoc] at h
          simp [starts, h]
      | cons next chunks =>
          have hrest := ih (before ++ chunk.2) (by simp)
          have h := slice_append before chunk.2 ((next :: chunks).flatMap Prod.snd ++ after)
          simp only [List.length_append, List.append_assoc, starts, List.map_cons,
            List.tail_cons, List.flatMap_cons] at hrest h ⊢
          simp only [List.cons_append, List.zip_cons_cons, List.map_cons, h, List.cons.injEq,
            true_and]
          simpa [Nat.add_assoc] using hrest

/-- `split_document` of a document that is a header, chunks and a trailer. -/
theorem splitDocument_parts {header trailer : List Line} {chunks : List (Int × List Line)}
    (hheader : ∀ line ∈ header, Plain line) (hne : chunks ≠ [])
    (hchunks : ∀ chunk ∈ chunks, IsChunk chunk)
    (hmark : ∀ line ∈ trailer.head?, trailerRe line = true)
    (htrailer : ∀ line ∈ trailer, pageRe line = none) :
    splitDocument (header ++ chunks.flatMap Prod.snd ++ trailer) =
      some (header, chunks, trailer) := by
  have hscan : Marks.scan {} 0 (header ++ chunks.flatMap Prod.snd ++ trailer) =
      { pageIdx := starts header.length chunks
        ordinals := chunks.map Prod.fst
        trailerStart :=
          if trailer = [] then none
          else some (header.length + (chunks.flatMap Prod.snd).length) } := by
    rw [Marks.scan_append, Marks.scan_append, Marks.scan_plain _ _ hheader,
      Marks.scan_chunks _ _ hchunks]
    cases trailer with
    | nil => simp [Marks.scan]
    | cons mark rest =>
        have hpage := htrailer mark (by simp)
        have htrail := hmark mark (by simp)
        rw [Marks.scan, Marks.line, hpage]
        simp only [htrail, and_self, if_true]
        rw [Marks.scan_trailer _ rfl fun l hl => htrailer l (by simp [hl])]
        simp
  have hstop : (if trailer = [] then none
      else some (header.length + (chunks.flatMap Prod.snd).length)).getD
        (header ++ chunks.flatMap Prod.snd ++ trailer).length =
      header.length + (chunks.flatMap Prod.snd).length := by
    split_ifs with h <;> simp [h]
  have hslices := slices_starts header chunks trailer hne
  rw [splitDocument, hscan]
  simp only [hstop]
  cases chunks with
  | nil => exact absurd rfl hne
  | cons chunk chunks =>
      simp only [starts, List.tail_cons] at hslices ⊢
      rw [hslices, ← List.length_append, List.drop_left, List.append_assoc, List.take_left]

/-- The line that begins the trailer. -/
def isMark (line : Line) : Bool := pageRe line = none && trailerRe line

/-- Lines without a trailer are a header and chunks. -/
theorem exists_chunks {lines : List Line} (h : ∀ line ∈ lines, isMark line = false) :
    ∃ (header : List Line) (chunks : List (Int × List Line)),
      lines = header ++ chunks.flatMap Prod.snd ∧
        (∀ line ∈ header, Plain line) ∧ ∀ chunk ∈ chunks, IsChunk chunk := by
  induction lines with
  | nil => exact ⟨[], [], rfl, by simp, by simp⟩
  | cons line lines ih =>
      obtain ⟨header, chunks, heq, hheader, hchunks⟩ := ih fun l hl => h l (by simp [hl])
      cases hpage : pageRe line with
      | none =>
          have hline : Plain line := ⟨hpage, by simpa [isMark, hpage] using h line (by simp)⟩
          refine ⟨line :: header, chunks, by simp [heq], ?_, hchunks⟩
          intro l hl
          rcases List.mem_cons.1 hl with rfl | hl
          · exact hline
          · exact hheader l hl
      | some ordinal =>
          refine ⟨[], (ordinal, line :: header) :: chunks, by simp [heq], by simp, ?_⟩
          intro c hc
          rcases List.mem_cons.1 hc with rfl | hc
          · exact ⟨line, header, rfl, hpage, hheader⟩
          · exact hchunks c hc

theorem Marks.pageIdx_scan {a : List Line} (m : Marks) (i : Nat)
    (h : ∀ line ∈ a, pageRe line = none) : (m.scan i a).pageIdx = m.pageIdx := by
  induction a generalizing m i with
  | nil => rfl
  | cons line a ih =>
      rw [Marks.scan, ih _ _ fun l hl => h l (by simp [hl]), Marks.line, h line (by simp)]
      dsimp only
      split_ifs <;> rfl

theorem Marks.length_ordinals {m : Marks} (i : Nat) (a : List Line)
    (h : m.ordinals.length = m.pageIdx.length) :
    (m.scan i a).ordinals.length = (m.scan i a).pageIdx.length := by
  induction a generalizing m i with
  | nil => exact h
  | cons line a ih =>
      refine ih (i + 1) ?_
      unfold Marks.line
      split
      · simp [h]
      · split_ifs <;> exact h

/-- The last page lies in the lines that have one. -/
theorem Marks.last_page {a : List Line} (m : Marks) (i : Nat)
    (h : ∃ line ∈ a, pageRe line ≠ none) :
    ∃ before q, (m.scan i a).pageIdx = before ++ [q] ∧ i ≤ q := by
  induction a generalizing m i with
  | nil => simp at h
  | cons line a ih =>
      by_cases hlater : ∃ l ∈ a, pageRe l ≠ none
      · obtain ⟨before, q, hq, hle⟩ := ih (m.line i line) (i + 1) hlater
        exact ⟨before, q, hq, by omega⟩
      · have hnone : ∀ l ∈ a, pageRe l = none := by simpa using hlater
        have hline : pageRe line ≠ none := by
          obtain ⟨l, hl, hpage⟩ := h
          rcases List.mem_cons.1 hl with rfl | hl
          · exact hpage
          · exact absurd (hnone l hl) hpage
        obtain ⟨ordinal, hordinal⟩ := Option.ne_none_iff_exists'.1 hline
        refine ⟨m.pageIdx, i, ?_, le_rfl⟩
        rw [Marks.scan, Marks.pageIdx_scan _ _ hnone, Marks.line, hordinal]

/-- A page after the beginning of the trailer leaves the last chunk empty. -/
theorem exists_empty_chunk {before after : List Line} {mark : Line}
    {header trailer : List Line} {chunks : List (Int × List Line)}
    (hbefore : ∀ line ∈ before, isMark line = false) (hmark : isMark mark)
    (hafter : ∃ line ∈ after, pageRe line ≠ none)
    (h : splitDocument (before ++ mark :: after) = some (header, chunks, trailer)) :
    ∃ chunk ∈ chunks, chunk.2 = [] := by
  obtain ⟨head, parts, hparts, hhead, hchunks⟩ := exists_chunks hbefore
  obtain ⟨hpage, htrailer⟩ : pageRe mark = none ∧ trailerRe mark := by
    simpa [isMark] using hmark
  have hfirst : (Marks.scan {} 0 before).trailerStart = none := by
    rw [hparts, Marks.scan_append, Marks.scan_plain _ _ hhead, Marks.scan_chunks _ _ hchunks]
  have hsplit : before ++ mark :: after = (before ++ [mark]) ++ after := by simp
  have hseen : (Marks.scan {} 0 (before ++ [mark])).trailerStart = some before.length := by
    rw [Marks.scan_append, Marks.scan, Marks.line, hpage]
    simp [hfirst, htrailer, Marks.scan]
  obtain ⟨m, hm⟩ : ∃ m, Marks.scan {} 0 (before ++ mark :: after) = m := ⟨_, rfl⟩
  have hstop : m.trailerStart = some before.length := by
    rw [← hm, hsplit, Marks.scan_append]
    exact Marks.trailerStart_scan _ _ hseen
  obtain ⟨pages, q, hpages, hq⟩ : ∃ pages q, m.pageIdx = pages ++ [q] ∧ before.length ≤ q := by
    rw [← hm, hsplit, Marks.scan_append]
    obtain ⟨pages, q, heq, hle⟩ := Marks.last_page (Marks.scan {} 0 (before ++ [mark]))
      (0 + (before ++ [mark]).length) hafter
    exact ⟨pages, q, heq, by simp at hle; omega⟩
  have hlength : m.ordinals.length = m.pageIdx.length := by
    rw [← hm]
    exact Marks.length_ordinals 0 _ rfl
  obtain ⟨ordinals, ordinal, hordinals⟩ :
      ∃ ordinals ordinal, m.ordinals = ordinals ++ [ordinal] := by
    rcases List.eq_nil_or_concat' m.ordinals with hnil | hconcat
    · simp [hnil, hpages] at hlength
    · exact hconcat
  have hsame : ordinals.length = pages.length := by
    simpa [hordinals, hpages] using hlength
  have hends : (pages ++ [q]).tail.length = pages.length := by simp
  rw [splitDocument, hm, hordinals, hpages] at h
  have hlast : (ordinal, slice (before ++ mark :: after) q before.length) ∈ chunks := by
    cases hp : pages ++ [q] with
    | nil => simp at hp
    | cons first later =>
        rw [hp] at h hends
        simp only [hstop, Option.getD_some, Option.some.injEq, Prod.mk.injEq] at h
        rw [← h.2.1, ← hp, List.zip_append (by simpa using hends.symm),
          List.zip_append (by simp [hsame, ← hends])]
        simp
  refine ⟨_, hlast, ?_⟩
  simp only [slice, List.drop_eq_nil_iff, List.length_take]
  omega

/-- What `split_document` returns, unless a chunk is empty. -/
theorem parts_of_splitDocument {lines header trailer : List Line}
    {chunks : List (Int × List Line)}
    (h : splitDocument lines = some (header, chunks, trailer))
    (hfull : ∀ chunk ∈ chunks, chunk.2 ≠ []) :
    lines = header ++ chunks.flatMap Prod.snd ++ trailer ∧ chunks ≠ [] ∧
      (∀ line ∈ header, Plain line) ∧ (∀ chunk ∈ chunks, IsChunk chunk) ∧
      (∀ line ∈ trailer.head?, trailerRe line = true) ∧
      ∀ line ∈ trailer, pageRe line = none := by
  obtain ⟨before, rest, hlines, hbefore, hhead, hrest⟩ : ∃ before rest, lines = before ++ rest ∧
      (∀ line ∈ before, isMark line = false) ∧ (∀ line ∈ rest.head?, isMark line) ∧
      ∀ line ∈ rest, pageRe line = none := by
    by_cases hmark : 0 < lines.countP isMark
    · obtain ⟨before, mark, after, heq, hm, hbefore⟩ := exists_first hmark
      refine ⟨before, mark :: after, heq, hbefore, by simpa using hm, ?_⟩
      by_contra hpage
      have hafter : ∃ line ∈ after, pageRe line ≠ none := by
        obtain ⟨line, hline, hne⟩ : ∃ line ∈ mark :: after, pageRe line ≠ none := by
          simpa only [not_forall, exists_prop] using hpage
        rcases List.mem_cons.1 hline with rfl | hline
        · simp only [isMark, Bool.and_eq_true, decide_eq_true_eq] at hm
          exact absurd hm.1 hne
        · exact ⟨line, hline, hne⟩
      obtain ⟨chunk, hchunk, hempty⟩ := exists_empty_chunk hbefore hm hafter (heq ▸ h)
      exact hfull chunk hchunk hempty
    · refine ⟨lines, [], by simp, ?_, by simp, by simp⟩
      simpa [List.countP_eq_zero] using hmark
  obtain ⟨head, parts, hparts, hplain, hchunks⟩ := exists_chunks hbefore
  have htrail : ∀ line ∈ rest.head?, trailerRe line = true := fun line hl => by
    have := hhead line hl
    simp only [isMark, Bool.and_eq_true] at this
    exact this.2
  have hne : parts ≠ [] := by
    intro hnil
    have hnone : ∀ line ∈ lines, pageRe line = none := by
      intro line hline
      rw [hlines, hparts, hnil] at hline
      rcases List.mem_append.1 hline with hline | hline
      · exact (hplain line (by simpa using hline)).1
      · exact hrest line hline
    have hpages := Marks.pageIdx_scan {} 0 hnone
    rw [splitDocument, hpages] at h
    simp at h
  rw [hlines, hparts] at h ⊢
  rw [splitDocument_parts hplain hne hchunks htrail hrest] at h
  simp only [Option.some.injEq, Prod.mk.injEq] at h
  obtain ⟨rfl, rfl, rfl⟩ := h
  exact ⟨rfl, hne, hplain, hchunks, htrail, hrest⟩

/-! ### `split_chunk` -/

theorem skipBlanks_eq {gap : List Line} {hi n : Nat} (lo : Nat) (hlo : lo ≤ n) (hn : n ≤ hi)
    (hblank : ∀ k, lo ≤ k → k < n → blank (gap.getD k []))
    (hstop : n = hi ∨ blank (gap.getD n []) = false) : skipBlanks gap lo hi = n := by
  rw [skipBlanks]
  rcases Nat.lt_or_eq_of_le hlo with hlt | rfl
  · rw [if_pos ⟨by omega, hblank lo le_rfl hlt⟩]
    exact skipBlanks_eq (lo + 1) hlt hn (fun k hk => hblank k (by omega)) hstop
  · rw [if_neg]
    rintro ⟨hlt, hb⟩
    rcases hstop with rfl | hstop
    · exact absurd hlt (lt_irrefl _)
    · exact absurd (hstop.symm.trans hb) (by simp)
termination_by n - lo

theorem dropBlanks_eq {gap : List Line} {lo n : Nat} (hi : Nat) (hlo : lo ≤ n) (hn : n ≤ hi)
    (hblank : ∀ k, n ≤ k → k < hi → blank (gap.getD k []))
    (hstop : n = lo ∨ blank (gap.getD (n - 1) []) = false) : dropBlanks gap lo hi = n := by
  induction hi with
  | zero => rw [dropBlanks, Nat.le_zero.1 hn]
  | succ hi ih =>
      rw [dropBlanks]
      rcases Nat.lt_or_eq_of_le hn with hlt | rfl
      · rw [if_pos ⟨by omega, hblank hi (by omega) (by omega)⟩]
        exact ih (by omega) fun k hk hk' => hblank k hk (by omega)
      · rw [if_neg]
        rintro ⟨hlt, hb⟩
        rcases hstop with h | h
        · omega
        · rw [Nat.add_sub_cancel] at h
          exact absurd (h.symm.trans hb) (by simp)

/-- The two loops find what stands between the blank lines. -/
theorem slice_core {before core after : List Line} (hbefore : ∀ line ∈ before, blank line)
    (hafter : ∀ line ∈ after, blank line) (hfirst : ∀ line ∈ core.head?, blank line = false)
    (hlast : ∀ line ∈ core.getLast?, blank line = false) (hcore : core = [] → after = []) :
    let gap := before ++ core ++ after
    let lo := skipBlanks gap 0 gap.length
    slice gap lo (dropBlanks gap lo gap.length) = core := by
  intro gap lo
  have hlo : lo = before.length := by
    refine skipBlanks_eq 0 (Nat.zero_le _) (by simp [gap]) ?_ ?_
    · intro k _ hk
      have : gap.getD k [] = before[k] := by
        simp [gap, List.getD_eq_getElem?_getD, List.getElem?_append_left, hk,
          List.append_assoc]
      rw [this]
      exact hbefore _ (List.getElem_mem hk)
    · cases core with
      | nil => exact Or.inl (by simp [gap, hcore rfl])
      | cons x core =>
          right
          have : gap.getD before.length [] = x := by simp [gap]
          rw [this]
          exact hfirst x rfl
  have hhi : dropBlanks gap lo gap.length = before.length + core.length := by
    refine dropBlanks_eq _ (by omega) (by simp [gap]) ?_ ?_
    · intro k hk hk'
      have hlt : k - (before.length + core.length) < after.length := by
        simp [gap] at hk'
        omega
      have : gap.getD k [] = after[k - (before.length + core.length)] := by
        rw [List.getD_eq_getElem?_getD,
          List.getElem?_append_right (by simpa using hk), List.length_append,
          List.getElem?_eq_getElem hlt]
        rfl
      rw [this]
      exact hafter _ (List.getElem_mem hlt)
    · rcases List.eq_nil_or_concat' core with hnil | ⟨init, x, hx⟩
      · exact Or.inl (by simp [hlo, hnil])
      · right
        have hidx : before.length + core.length - 1 = (before ++ init).length := by
          simp [hx]
        have hgap : gap = (before ++ init) ++ x :: after := by simp [gap, hx]
        have : gap.getD (before ++ init).length [] = x := by
          rw [hgap, List.getD_eq_getElem?_getD, List.getElem?_append_right le_rfl]
          simp
        rw [hidx, this]
        exact hlast x (by simp [hx])
  rw [hhi, hlo]
  exact slice_append before core after

/-- What `split_chunk` does with the core of a gap. -/
def splitCore (drawing core : List Line) : Option (List Line × List Line) :=
  if core = [] then some (drawing, [])
  else if 5 ≤ core.length ∧ strip (core.getD 0 []) = ascii "restore" ∧
      strip (core.getD 1 []) = ascii "restore" ∧ strip (core.getD 2 []) = ascii "save" ∧
      strip (core.getD (core.length - 1) []) = saveLgp2 then
    some (drawing, slice core 3 (core.length - 1))
  else none

/-- `split_chunk` of a chunk that has one line that ends a page. -/
theorem splitChunk_parts {strokes before core after : List Line} {next : Line}
    (hnext : nextPageRe next) (hstrokes : ∀ line ∈ strokes, nextPageRe line = false)
    (hgap : ∀ line ∈ before ++ core ++ after, nextPageRe line = false)
    (hbefore : ∀ line ∈ before, blank line) (hafter : ∀ line ∈ after, blank line)
    (hfirst : ∀ line ∈ core.head?, blank line = false)
    (hlast : ∀ line ∈ core.getLast?, blank line = false) (hcore : core = [] → after = []) :
    splitChunk (strokes ++ next :: (before ++ core ++ after)) =
      splitCore (strokes ++ [next]) core := by
  have hcut : indices nextPageRe (strokes ++ next :: (before ++ core ++ after)) =
      [strokes.length] := by
    rw [indices_append, indices_none hstrokes, indices_cons hnext, indices_none hgap]
    simp
  have hassoc : strokes ++ next :: (before ++ core ++ after) =
      (strokes ++ [next]) ++ (before ++ core ++ after) := by simp
  have hlength : strokes.length + 1 = (strokes ++ [next]).length := by simp
  have hslice := slice_core hbefore hafter hfirst hlast hcore
  dsimp only at hslice
  rw [splitChunk, hcut]
  simp only [hassoc, hlength, List.take_left, List.drop_left, hslice]
  rfl

/-- Every gap is a core between blank lines. -/
theorem exists_core (gap : List Line) :
    ∃ before core after, gap = before ++ core ++ after ∧ (∀ line ∈ before, blank line) ∧
      (∀ line ∈ after, blank line) ∧ (∀ line ∈ core.head?, blank line = false) ∧
      (∀ line ∈ core.getLast?, blank line = false) ∧ (core = [] → after = []) := by
  by_cases hall : ∀ line ∈ gap, blank line
  · exact ⟨gap, [], [], by simp, hall, by simp, by simp, by simp, fun _ => rfl⟩
  have hsome : 0 < gap.countP (fun line => !blank line) := by
    simpa [List.countP_pos_iff] using hall
  obtain ⟨before, x, rest, heq, hx, hbefore⟩ := exists_first hsome
  have hmore : 0 < (x :: rest).countP (fun line => !blank line) := by
    simp only [List.countP_cons, hx, if_true]
    omega
  obtain ⟨init, y, after, hrest, hy, hafter⟩ := exists_last hmore
  have hhead : (init ++ [y]).head? = some x := by
    cases init <;> simp_all
  refine ⟨before, init ++ [y], after, by simp [heq, hrest], ?_, ?_, ?_, ?_, by simp⟩
  · simpa using hbefore
  · simpa using hafter
  · simpa [hhead] using hx
  · simpa using hy

/-- The chunks that `split_chunk` can split have one line that ends a page. -/
theorem exists_nextPage {chunk drawing mach : List Line}
    (h : splitChunk chunk = some (drawing, mach)) :
    ∃ strokes next gap, chunk = strokes ++ next :: gap ∧ nextPageRe next ∧
      (∀ line ∈ strokes, nextPageRe line = false) ∧
      ∀ line ∈ gap, nextPageRe line = false := by
  have hone : chunk.countP nextPageRe = 1 := by
    rw [← length_indices]
    unfold splitChunk at h
    split at h
    · simp_all
    · simp at h
  obtain ⟨strokes, next, gap, heq, hnext, hstrokes⟩ :=
    exists_first (hone ▸ Nat.one_pos : 0 < chunk.countP nextPageRe)
  refine ⟨strokes, next, gap, heq, hnext, hstrokes, ?_⟩
  rw [heq, List.countP_append, List.countP_cons_of_pos hnext] at hone
  have hzero : gap.countP nextPageRe = 0 := by omega
  simpa [List.countP_eq_zero] using hzero

end Psfix
