import OsxVlm.Print.ReversedJob

/-!
# What page reversal keeps

The pieces of a job are put together without a look at how their last lines end.  Every
line comes out once, in its place, exactly when no two lines run together that were not
neighbours in the job: the last page may come before others only if its last line has its
end, and a download may follow other lines only if no carriage return comes to stand before
its line feed.
-/

namespace Psfix

open Lines

/-- What the reordering should come to: the document as it was, or the lines of a job with
the downloads before all the pages and the pages in ascending order, where only blank lines
and the lines around the downloads are missing. -/
def Lossless (data : List UInt8) (result : List UInt8 × Bool) : Prop :=
  result = (data, false) ∨
    ∃ job : Job, splitlines data = job.lines ∧ result.2 = true ∧
      splitlines result.1 = job.reordered ∧
      (splitlines result.1 ++ job.stripped).Perm (splitlines data ++ splitlines additiveSetup) ∧
      (∀ line ∈ job.stripped, blank line ∨ strip line = ascii "restore" ∨
        strip line = ascii "save" ∨ strip line = saveLgp2) ∧
      (job.pages.reverse.map PageBlock.ordinal =
        (List.range job.pages.length).map fun k => ((k + 1 : Nat) : Int)) ∧
      ∃ before after, splitlines result.1 = before ++ job.machinery ++ after ∧
        job.pages.reverse.flatMap PageBlock.drawing <:+: after

/-- Where the pieces of a job meet again, nothing runs together. -/
def Job.Settled (job : Job) : Prop :=
  (job.middle ++ job.machinery).IsChain Parted ∧
    (1 < job.pages.length → ∀ p ∈ job.pages.getLast?, Terminated p.next)

/-! ### Every line once -/

/-- A line that ends in a line feed. -/
structure Full (line : Line) : Prop where
  one : splitlines line = [line]
  ends : line.getLast? = some LF

theorem full_ofList {chars : List Char}
    (h : splitlines (chars.map fun c => c.toNat.toUInt8) = [chars.map fun c => c.toNat.toUInt8] ∧
      (chars.map fun c => c.toNat.toUInt8).getLast? = some LF) :
    Full (ascii (String.ofList chars)) := by
  unfold ascii
  rw [String.toList_ofList]
  exact ⟨h.1, h.2⟩

theorem full_additiveLines : ∀ line ∈ additiveLines, Full line := by
  simp only [additiveLines, List.forall_mem_cons, List.not_mem_nil, false_imp_iff, implies_true,
    and_true]
  and_intros
  all_goals
    refine full_ofList ?_
    decide +kernel

theorem head_additiveLines (more : List Line) :
    ∀ line ∈ (additiveLines ++ more).head?, line.head? ≠ some LF := by
  intro line hl
  obtain rfl : ascii "%%BeginProcSet: psfix-additive-fonts 1.2\n" = line := Option.some.inj hl
  decide +kernel

theorem isChain_full {lines : List Line} (h : ∀ line ∈ lines, Full line) :
    lines.IsChain Parted := by
  induction lines with
  | nil => simp
  | cons line lines ih =>
      have hone : ([line] : List Line).IsChain Parted := by simp
      refine isChain_append_of_LF hone (ih fun l hl => h l (by simp [hl])) ?_
      simpa using (h line (by simp)).ends

theorem splitlines_additiveSetup : splitlines additiveSetup = additiveLines :=
  (splitlines_flatten fun line hl => (full_additiveLines line hl).one).2
    (isChain_full full_additiveLines)

theorem PageBlock.count_lines (p : PageBlock) (line : Line) :
    p.drawing.count line + p.machinery.count line + p.stripped.count line =
      p.lines.count line := by
  unfold PageBlock.drawing PageBlock.machinery PageBlock.stripped PageBlock.lines PageBlock.gap
  cases p.download with
  | none =>
      simp only [Option.elim_none, List.count_append, List.count_cons, List.count_nil]
      omega
  | some d =>
      simp only [Option.elim_some, Download.lines, Download.wrapper, List.count_append,
        List.count_cons, List.count_nil]
      omega

theorem count_pages (pages : List PageBlock) (line : Line) :
    (pages.flatMap PageBlock.drawing).count line +
        (pages.flatMap PageBlock.machinery).count line +
        (pages.flatMap PageBlock.stripped).count line =
      (pages.flatMap PageBlock.lines).count line := by
  induction pages with
  | nil => simp
  | cons p pages ih =>
      have := p.count_lines line
      simp only [List.flatMap_cons, List.count_append]
      omega

theorem Job.perm_lines (job : Job) :
    (job.reordered ++ job.stripped).Perm (job.lines ++ additiveLines) := by
  refine List.perm_iff_count.2 fun line => ?_
  have hpages := count_pages job.pages line
  have hreverse : (job.pages.reverse.flatMap PageBlock.drawing).count line =
      (job.pages.flatMap PageBlock.drawing).count line :=
    ((List.reverse_perm job.pages).flatMap_right _).count_eq line
  simp only [Job.reordered, Job.front, Job.lines, Job.header, Job.machinery, Job.stripped,
    List.count_append, List.count_cons, hreverse]
  omega

theorem Job.stripped_spec (job : Job) :
    ∀ line ∈ job.stripped, blank line ∨ strip line = ascii "restore" ∨
      strip line = ascii "save" ∨ strip line = saveLgp2 := by
  intro line hline
  obtain ⟨p, -, hp⟩ := List.mem_flatMap.1 hline
  rw [PageBlock.stripped, List.mem_append, List.mem_append] at hp
  rcases hp with (hp | hp) | hp
  · exact Or.inl (p.blanks line (by simp [hp]))
  · cases hd : p.download with
    | none => simp [hd] at hp
    | some d =>
        simp only [hd, Option.elim_some, Download.wrapper, List.mem_cons, List.not_mem_nil,
          or_false] at hp
        rcases hp with rfl | rfl | rfl | rfl
        · exact Or.inr (Or.inl d.restores.1)
        · exact Or.inr (Or.inl d.restores.2)
        · exact Or.inr (Or.inr (Or.inl d.saves))
        · exact Or.inr (Or.inr (Or.inr d.restarts))
  · exact Or.inl (p.blanks line (by simp [hp]))

theorem reverse_countdown (n : Nat) :
    (countdown n).reverse = (List.range n).map fun k => ((k + 1 : Nat) : Int) := by
  induction n with
  | zero => rfl
  | succ n ih => rw [countdown, List.reverse_cons, ih, List.range_succ, List.map_append]; rfl

/-! ### Where the pieces meet -/

theorem infix_flatMap {pages : List PageBlock} {p : PageBlock} (hp : p ∈ pages)
    (f : PageBlock → List Line) : f p <:+: pages.flatMap f := by
  obtain ⟨a, b, rfl⟩ := List.append_of_mem hp
  exact ⟨a.flatMap f, b.flatMap f, by simp⟩

/-- The last lines of the pages have their ends, but for that of the last page. -/
theorem terminated_next {pages : List PageBlock} {p : PageBlock}
    (hchain : (pages.flatMap PageBlock.lines).IsChain Parted) (hp : p ∈ pages.dropLast) :
    Terminated p.next := by
  rcases List.eq_nil_or_concat' pages with rfl | ⟨init, q, rfl⟩
  · simp at hp
  · rw [List.dropLast_concat] at hp
    rw [List.flatMap_append] at hchain
    refine terminated_of_append hchain (by simp [PageBlock.lines]) p.next ?_
    exact List.mem_flatMap.2 ⟨p, hp, by simp [PageBlock.lines]⟩

/-- The drawings of pages, one after the other. -/
theorem isChain_drawings {pages : List PageBlock}
    (hchain : ∀ p ∈ pages, p.drawing.IsChain Parted)
    (hhead : ∀ p ∈ pages, p.page.head? ≠ some LF)
    (hend : ∀ p ∈ pages.dropLast, Terminated p.next) :
    (pages.flatMap PageBlock.drawing).IsChain Parted := by
  induction pages with
  | nil => simp
  | cons p pages ih =>
      cases pages with
      | nil => simpa using hchain p (by simp)
      | cons q pages =>
          rw [List.flatMap_cons]
          refine isChain_append_of_head (hchain p (by simp)) (ih ?_ ?_ ?_) ?_ ?_
          · exact fun r hr => hchain r (List.mem_cons_of_mem _ hr)
          · exact fun r hr => hhead r (List.mem_cons_of_mem _ hr)
          · exact fun r hr => hend r (by simp [List.dropLast_cons_cons, hr])
          · intro line hline
            have : line = p.next := by
              simpa [PageBlock.drawing, List.getLast?_cons] using hline.symm
            exact this ▸ hend p (by simp)
          · intro line hline
            have : line = q.page := by simpa [PageBlock.drawing] using hline.symm
            exact this ▸ hhead q (by simp)

theorem pageRe_LF : pageRe [LF] = none := by decide

theorem trailerRe_LF : trailerRe [LF] = false := by decide

theorem strip_LF : strip [LF] = [] := by decide

theorem head_ne_LF {line : Line} (hline : splitlines line = [line]) (hne : line ≠ [LF]) :
    line.head? ≠ some LF := fun h => hne (eq_of_head_LF hline h)

theorem PageBlock.head_page (p : PageBlock) (hline : splitlines p.page = [p.page]) :
    p.page.head? ≠ some LF := by
  refine head_ne_LF hline fun heq => ?_
  have hopens := p.opens
  rw [heq, pageRe_LF] at hopens
  exact absurd hopens (by simp)

theorem PageBlock.mem_lines {p : PageBlock} {line : Line} (h : line ∈ p.drawing) :
    line ∈ p.lines := by
  have heq : p.lines = p.drawing ++ p.gap := by simp [PageBlock.lines, PageBlock.drawing]
  exact heq ▸ List.mem_append_left _ h

/-- The downloads are followed by a save. -/
theorem Job.terminated_machinery (job : Job)
    (hchain : (job.pages.flatMap PageBlock.lines).IsChain Parted) :
    ∀ line ∈ job.machinery, Terminated line := by
  intro line hline
  obtain ⟨p, hp, hmach⟩ := List.mem_flatMap.1 hline
  have hlines : p.lines.IsChain Parted := hchain.infix (infix_flatMap hp PageBlock.lines)
  cases hd : p.download with
  | none => simp [PageBlock.machinery, hd] at hmach
  | some d =>
      have hmach : line ∈ d.machinery := by simpa [PageBlock.machinery, hd] using hmach
      have heq : p.lines = (p.drawing ++ p.before ++ (d.restore :: d.restore' :: d.save ::
          d.machinery)) ++ (d.restart :: p.after) := by
        simp [PageBlock.lines, PageBlock.drawing, PageBlock.gap, hd, Download.lines]
      rw [heq] at hlines
      exact terminated_of_append hlines (by simp) line (by simp [hmach])

/-- The output has the lines that it should have if and only if nothing runs together. -/
theorem Job.isChain_reordered (job : Job) {data : List UInt8}
    (h : splitlines data = job.lines) : job.reordered.IsChain Parted ↔ job.Settled := by
  have hline : ∀ line ∈ job.lines, splitlines line = [line] := fun line hl =>
    splitlines_of_mem (h ▸ hl)
  have hchain : job.lines.IsChain Parted := h ▸ isChain_splitlines data
  constructor
  · intro hout
    refine ⟨ hout.infix ?_, fun hlength p hp => ?_⟩
    · refine ⟨job.opening ++ job.base :: additiveLines, job.pageSave :: job.closing ++
        job.pages.reverse.flatMap PageBlock.drawing ++ job.trailer, ?_⟩
      simp [Job.reordered, Job.front]
    · have hpages : (job.pages.reverse.flatMap PageBlock.drawing).IsChain Parted :=
        hout.infix ⟨job.front, job.trailer, rfl⟩
      obtain ⟨init, hinit⟩ : ∃ init, job.pages = init ++ [p] := by
        rcases List.eq_nil_or_concat' job.pages with hnil | ⟨init, q, hq⟩
        · simp [hnil] at hp
        · refine ⟨init, ?_⟩
          rw [hq] at hp
          simp only [List.getLast?_concat, Option.mem_def, Option.some.injEq] at hp
          rw [hq, hp]
      rw [hinit] at hpages hlength
      rw [List.reverse_concat, List.flatMap_cons] at hpages
      refine terminated_of_append hpages ?_ p.next (by simp [PageBlock.drawing])
      rcases List.eq_nil_or_concat' init with rfl | ⟨more, q, rfl⟩
      · simp at hlength
      · simp [PageBlock.drawing]
  · rintro ⟨hmachinery, hlast⟩
    have hsplit : job.lines = ((job.opening ++ [job.base]) ++ job.middle ++
        (job.pageSave :: job.closing)) ++ job.pages.flatMap PageBlock.lines ++ job.trailer := by
      rw [Job.lines, Job.header_eq]
    have hpages : (job.pages.flatMap PageBlock.lines).IsChain Parted :=
      hchain.infix ⟨job.header, job.trailer, rfl⟩
    have hsome : job.pages.flatMap PageBlock.lines ++ job.trailer ≠ [] := by
      obtain ⟨p, more, hmore⟩ := List.exists_cons_of_ne_nil job.paged
      simp [hmore, PageBlock.lines]
    -- Every line of the header has its end, for the pages follow.
    have hheader : ∀ line ∈ job.header, Terminated line := by
      refine terminated_of_append ?_ hsome
      rw [← List.append_assoc]
      exact hchain
    have hfront : (job.opening ++ [job.base]).IsChain Parted := by
      refine hchain.infix ⟨[], job.middle ++ job.pageSave :: job.closing ++
        job.pages.flatMap PageBlock.lines ++ job.trailer, ?_⟩
      simp [hsplit]
    have hclosing : (job.pageSave :: job.closing).IsChain Parted := by
      refine hchain.infix ⟨(job.opening ++ [job.base]) ++ job.middle,
        job.pages.flatMap PageBlock.lines ++ job.trailer, ?_⟩
      simp [hsplit]
    have hnext : ∀ p ∈ job.pages.reverse.dropLast, Terminated p.next := by
      intro p hp
      rw [List.dropLast_reverse, List.mem_reverse] at hp
      rcases List.eq_nil_or_concat' job.pages with hnil | ⟨init, q, hq⟩
      · simp [hnil] at hp
      rcases List.mem_append.1 (hq ▸ List.mem_of_mem_tail hp) with hinit | hpq
      · exact terminated_next hpages (by simpa [hq] using hinit)
      · obtain rfl := List.mem_singleton.1 hpq
        refine hlast ?_ p (by simp [hq])
        have := List.length_pos_of_mem hp
        rw [List.length_tail] at this
        omega
    have hbody : (job.pages.reverse.flatMap PageBlock.drawing).IsChain Parted := by
      refine isChain_drawings (fun p hp => ?_) (fun p hp => ?_) hnext
      · have : p.lines.IsChain Parted :=
          hpages.infix (infix_flatMap (List.mem_reverse.1 hp) PageBlock.lines)
        refine this.infix ⟨[], p.gap, ?_⟩
        simp [PageBlock.drawing, PageBlock.lines]
      · have hmem : p.page ∈ job.pages.flatMap PageBlock.lines :=
          List.mem_flatMap.2 ⟨p, List.mem_reverse.1 hp, by simp [PageBlock.lines]⟩
        exact p.head_page (hline _ (by simp [Job.lines, hmem]))
    have htail : (job.pages.reverse.flatMap PageBlock.drawing ++ job.trailer).IsChain Parted := by
      by_cases hnone : job.trailer = []
      · simpa [hnone] using hbody
      have htrailer : job.trailer.IsChain Parted :=
        hchain.infix ⟨job.header ++ job.pages.flatMap PageBlock.lines, [], by simp [Job.lines]⟩
      refine isChain_append_of_head hbody htrailer (fun line hl => ?_) fun line hl => ?_
      · have hmem : line ∈ job.pages.flatMap PageBlock.lines := by
          obtain ⟨p, hp, hdrawing⟩ := List.mem_flatMap.1 (List.mem_of_getLast? hl)
          exact List.mem_flatMap.2 ⟨p, List.mem_reverse.1 hp, PageBlock.mem_lines hdrawing⟩
        exact terminated_of_append hchain hnone line (List.mem_append_right _ hmem)
      · refine head_ne_LF (hline _ ?_) fun heq => ?_
        · simp [Job.lines, List.mem_of_head? hl]
        · have hmark := job.marked line hl
          rw [heq, trailerRe_LF] at hmark
          exact absurd hmark (by simp)
    have hsaved : (job.pageSave :: job.closing ++ (job.pages.reverse.flatMap PageBlock.drawing ++
        job.trailer)).IsChain Parted := by
      refine isChain_append_of_head hclosing htail (fun line hl => ?_) fun line hl => ?_
      · have := List.mem_of_getLast? hl
        exact hheader line (by simp [Job.header_eq, this])
      · obtain ⟨init, p, hp⟩ := (List.eq_nil_or_concat' job.pages).resolve_left job.paged
        have hpage : line = p.page := by
          simpa [hp, PageBlock.drawing, eq_comm] using hl
        have hmem : p.page ∈ job.pages.flatMap PageBlock.lines :=
          List.mem_flatMap.2 ⟨p, by simp [hp], by simp [PageBlock.lines]⟩
        exact hpage ▸ p.head_page (hline _ (by simp [Job.lines, hmem]))
    have hloaded : ((job.middle ++ job.machinery) ++ (job.pageSave :: job.closing ++
        (job.pages.reverse.flatMap PageBlock.drawing ++ job.trailer))).IsChain Parted := by
      refine isChain_append_of_head hmachinery hsaved (fun line hl => ?_) fun line hl => ?_
      · rcases List.mem_append.1 (List.mem_of_getLast? hl) with hmiddle | hmach
        · exact hheader line (by simp [Job.header_eq, hmiddle])
        · exact job.terminated_machinery hpages line hmach
      · have hpage : line = job.pageSave := by simpa [eq_comm] using hl
        rw [hpage]
        refine head_ne_LF (hline _ (by simp [hsplit])) fun heq => ?_
        have hsaves := job.pageSaves
        rw [heq, strip_LF] at hsaves
        exact absurd hsaves (by decide)
    have hset : (additiveLines ++ ((job.middle ++ job.machinery) ++ (job.pageSave :: job.closing ++
        (job.pages.reverse.flatMap PageBlock.drawing ++ job.trailer)))).IsChain Parted :=
      isChain_append_of_LF (isChain_full full_additiveLines) hloaded fun line hl =>
        (full_additiveLines line (List.mem_of_getLast? hl)).ends
    have hwhole := isChain_append_of_head hfront hset
      (fun line hl => hheader line (by
        rw [Job.header_eq, List.append_assoc]
        exact List.mem_append_left _ (List.mem_of_getLast? hl)))
      (fun line hl => ?_)
    · simpa [Job.reordered, Job.front] using hwhole
    · exact head_additiveLines _ line hl

/-! ### The reordering -/

theorem Job.splitlines_reordered (job : Job) {data : List UInt8}
    (h : splitlines data = job.lines) :
    splitlines job.reordered.flatten = job.reordered ↔ job.Settled := by
  rw [← job.isChain_reordered h]
  refine splitlines_flatten fun line hl => ?_
  have hmem : line ∈ job.lines ++ additiveLines :=
    job.perm_lines.subset (List.mem_append_left _ hl)
  rcases List.mem_append.1 hmem with hmem | hmem
  · exact splitlines_of_mem (h ▸ hmem)
  · exact (full_additiveLines line hmem).one

/-- A job whose lines all come out is settled. -/
theorem Job.settled_of_lossless (job : Job) {data : List UInt8}
    (h : splitlines data = job.lines) (hkept : Lossless data (restructure data)) :
    job.Settled := by
  rw [job.restructure_lines h] at hkept
  rcases hkept with hsame | ⟨other, hlines, -, hout, -⟩
  · simp at hsame
  · have heq : other.reordered = job.reordered := Job.reordered_eq (hlines.symm.trans h)
    exact (job.splitlines_reordered h).1 (hout.trans heq)

theorem Job.lossless_of_settled (job : Job) {data : List UInt8}
    (h : splitlines data = job.lines) (hsettled : job.Settled) :
    Lossless data (restructure data) := by
  have hout := (job.splitlines_reordered h).2 hsettled
  rw [job.restructure_lines h]
  refine Or.inr ⟨job, h, rfl, hout, ?_, job.stripped_spec, ?_, ?_⟩
  · rw [hout, h, splitlines_additiveSetup]
    exact job.perm_lines
  · rw [List.map_reverse, job.ordinals, reverse_countdown]
  · refine ⟨job.opening ++ job.base :: (additiveLines ++ job.middle), job.pageSave :: job.closing ++
      job.pages.reverse.flatMap PageBlock.drawing ++ job.trailer, ?_, ?_⟩
    · rw [hout]
      simp [Job.reordered, Job.front]
    · exact ⟨job.pageSave :: job.closing, job.trailer, rfl⟩

/-- Page reversal keeps every line, each in its place, if and only if the document is no job
with its pages the other way round, or one in which nothing runs together. -/
theorem restructure_exact (data : List UInt8) :
    Lossless data (restructure data) ↔
      ∀ job : Job, splitlines data = job.lines → job.Settled := by
  constructor
  · exact fun hkept job h => job.settled_of_lossless h hkept
  · intro h
    by_cases hsame : restructure data = (data, false)
    · exact Or.inl hsame
    · obtain ⟨job, hjob⟩ := exists_job hsame
      exact job.lossless_of_settled hjob (h job hjob)

/-- Two pages whose last line has no end. -/
def unendedJob : Job where
  opening := [ascii "%!PS-Adobe-2.0\n", ascii "%%Pages: 2\n"]
  base := ascii "save lgp2-getmatrix\n"
  middle := []
  pageSave := ascii "save lgp2-getmatrix\n"
  closing := []
  pages := [
    { ordinal := 2
      page := ascii "%%Page: 2 2\n"
      strokes := [ascii "(b) show\n"]
      next := ascii "false NextPage\n"
      before := []
      download := none
      after := []
      opens := by decide +kernel
      closes := by decide +kernel
      blanks := by decide +kernel
      once := by decide +kernel
      plain := by decide +kernel },
    { ordinal := 1
      page := ascii "%%Page: 1 1\n"
      strokes := [ascii "(a) show\n"]
      next := ascii "true NextPage"
      before := []
      download := none
      after := []
      opens := by decide +kernel
      closes := by decide +kernel
      blanks := by decide +kernel
      once := by decide +kernel
      plain := by decide +kernel }]
  trailer := []
  bases := by decide +kernel
  pageSaves := by decide +kernel
  first := by decide +kernel
  last := by decide +kernel
  plain := by decide +kernel
  declared := by decide +kernel
  paged := by simp
  ordinals := by decide +kernel
  marked := by simp
  trailing := by simp

/-- The text of that job. -/
def unended : List UInt8 := ascii ("%!PS-Adobe-2.0\n%%Pages: 2\nsave lgp2-getmatrix\n" ++
  "save lgp2-getmatrix\n%%Page: 2 2\n(b) show\nfalse NextPage\n" ++
  "%%Page: 1 1\n(a) show\ntrue NextPage")

/-- Without a line end after the last page the reordering joins it to the line that begins
the other page. -/
theorem restructure_joins : ¬ Lossless unended (restructure unended) := by
  intro hkept
  have hlines : splitlines unended = unendedJob.lines := by decide +kernel
  have hsettled := unendedJob.settled_of_lossless hlines hkept
  have hend := hsettled.2 (by decide) _ rfl
  exact absurd hend (by decide +kernel)

end Psfix
