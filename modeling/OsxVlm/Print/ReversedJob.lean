import OsxVlm.Print.PageCuts

/-!
# Jobs whose pages are the other way round

A job as `psfix --reorder` expects it: a header with the two saves, the pages from the last
to the first, each with the fonts that were downloaded after it, and the trailer.
`restructure` puts a document together again exactly when it is such a job.
-/

namespace Psfix

open Lines

/-- The fonts that are downloaded between two pages, with the lines around them. -/
structure Download where
  restore : Line
  restore' : Line
  save : Line
  machinery : List Line
  restart : Line
  restores : strip restore = ascii "restore" ∧ strip restore' = ascii "restore"
  saves : strip save = ascii "save"
  restarts : strip restart = saveLgp2
  loads : machinery ≠ []

def Download.lines (d : Download) : List Line :=
  d.restore :: d.restore' :: d.save :: (d.machinery ++ [d.restart])

def Download.wrapper (d : Download) : List Line :=
  [d.restore, d.restore', d.save, d.restart]

/-- A page, with what follows it up to the next one. -/
structure PageBlock where
  ordinal : Int
  page : Line
  strokes : List Line
  next : Line
  before : List Line
  download : Option Download
  after : List Line
  opens : pageRe page = some ordinal
  closes : nextPageRe next
  blanks : ∀ line ∈ before ++ after, blank line
  once : ∀ line ∈ strokes ++ (before ++ download.elim [] Download.lines ++ after),
    nextPageRe line = false
  plain : ∀ line ∈ strokes ++ next :: (before ++ download.elim [] Download.lines ++ after),
    Plain line

namespace PageBlock

variable (p : PageBlock)

def gap : List Line := p.before ++ p.download.elim [] Download.lines ++ p.after

def lines : List Line := p.page :: p.strokes ++ p.next :: p.gap

/-- What is drawn of the page. -/
def drawing : List Line := p.page :: p.strokes ++ [p.next]

/-- The fonts of the page, which have to come before it and all the others. -/
def machinery : List Line := p.download.elim [] Download.machinery

/-- What is left out. -/
def stripped : List Line := p.before ++ p.download.elim [] Download.wrapper ++ p.after

end PageBlock

structure Job where
  opening : List Line
  base : Line
  middle : List Line
  pageSave : Line
  closing : List Line
  pages : List PageBlock
  trailer : List Line
  bases : strip base = saveLgp2
  pageSaves : strip pageSave = saveLgp2
  first : ∀ line ∈ opening, strip line ≠ saveLgp2
  last : ∀ line ∈ closing, strip line ≠ saveLgp2
  plain : ∀ line ∈ opening ++ base :: (middle ++ pageSave :: closing), Plain line
  declared : findDeclaredPages (opening ++ base :: (middle ++ pageSave :: closing)) = none ∨
    findDeclaredPages (opening ++ base :: (middle ++ pageSave :: closing)) = some pages.length
  paged : pages ≠ []
  ordinals : pages.map PageBlock.ordinal = countdown pages.length
  marked : ∀ line ∈ trailer.head?, trailerRe line
  trailing : ∀ line ∈ trailer, pageRe line = none

namespace Job

variable (job : Job)

def header : List Line := job.opening ++ job.base :: (job.middle ++ job.pageSave :: job.closing)

/-- The lines of the document. -/
def lines : List Line := job.header ++ job.pages.flatMap PageBlock.lines ++ job.trailer

def machinery : List Line := job.pages.flatMap PageBlock.machinery

/-- What comes before the pages in the output. -/
def front : List Line :=
  job.opening ++ job.base :: (additiveLines ++ job.middle ++ job.machinery ++
    job.pageSave :: job.closing)

/-- The lines that the output should have. -/
def reordered : List Line :=
  job.front ++ job.pages.reverse.flatMap PageBlock.drawing ++ job.trailer

def stripped : List Line := job.pages.flatMap PageBlock.stripped

end Job

/-! ### Pages and chunks -/

@[simp] theorem strip_nil : strip [] = [] := rfl

theorem not_blank_of_strip {line text : Line} (h : strip line = text) (hne : text ≠ []) :
    blank line = false := by
  simpa [blank, h] using hne

theorem words_cons {c : UInt8} (hc : isSpace c = false) (rest : Line) :
    ∃ word more, words (c :: rest) = (c :: word) :: more := by
  obtain ⟨first, others, hsplit⟩ :=
    List.exists_cons_of_ne_nil (List.splitOnP_ne_nil isSpace rest)
  refine ⟨first, others.filter (· ≠ []), ?_⟩
  rw [words, List.splitOnP_cons_eq_if_modifyHead, hc, hsplit]
  simp

/-- A line that begins a page does not end one. -/
theorem nextPageRe_of_pageRe {line : Line} {ordinal : Int} (h : pageRe line = some ordinal) :
    nextPageRe line = false := by
  obtain ⟨rest, hrest⟩ : ∃ rest, line = ascii "%%Page:" ++ rest := by
    cases hmark : (ascii "%%Page:").isPrefixOf? line with
    | none => simp [pageRe, spacedAfter, hmark] at h
    | some rest => exact ⟨rest, (List.isPrefixOf?_eq_some_iff_append_eq.1 hmark).symm⟩
  obtain ⟨word, more, hwords⟩ := words_cons (c := 37) (by decide) ((ascii "%%Page:").tail ++ rest)
  have hline : line = 37 :: ((ascii "%%Page:").tail ++ rest) := by
    rw [hrest]
    rfl
  rw [nextPageRe, hline, hwords]
  have htrue : ascii "true" = [116, 114, 117, 101] := by decide
  have hfalse : ascii "false" = [102, 97, 108, 115, 101] := by decide
  simp [htrue, hfalse]

theorem splitCore_download (drawing : List Line) (d : Download) :
    splitCore drawing d.lines = some (drawing, d.machinery) := by
  have hlength : 5 ≤ d.lines.length := by
    have := List.length_pos_iff.2 d.loads
    simp [Download.lines]
    omega
  have hlast : d.lines.getD (d.lines.length - 1) [] = d.restart := by
    simp [Download.lines]
  have hslice : slice d.lines 3 (d.lines.length - 1) = d.machinery := by
    simp [slice, Download.lines]
  have hne : d.lines ≠ [] := by simp [Download.lines]
  rw [splitCore, if_neg hne, hlast, hslice, if_pos]
  exact ⟨hlength, d.restores.1, d.restores.2, d.saves, d.restarts⟩

theorem download_of_splitCore {drawing core : List Line} (hne : core ≠ [])
    (h : (splitCore drawing core).isSome) : ∃ d : Download, d.lines = core := by
  rw [splitCore, if_neg hne] at h
  split_ifs at h with hshape
  · obtain ⟨hlength, hr, hr', hs, hlast⟩ := hshape
    rcases core with _ | ⟨r, _ | ⟨r', _ | ⟨s, rest⟩⟩⟩
    · simp at hlength
    · simp at hlength
    · simp at hlength
    rcases List.eq_nil_or_concat' rest with rfl | ⟨machinery, restart, rfl⟩
    · simp at hlength
    have hloads : machinery ≠ [] := by
      rintro rfl
      simp at hlength
    refine ⟨⟨r, r', s, machinery, restart, ⟨hr, hr'⟩, hs, ?_, hloads⟩, rfl⟩
    simpa using hlast
  · simp at h

theorem PageBlock.splitChunk_lines (p : PageBlock) :
    splitChunk p.lines = some (p.drawing, p.machinery) := by
  have hstrokes : ∀ line ∈ p.page :: p.strokes, nextPageRe line = false := by
    intro line hl
    rcases List.mem_cons.1 hl with rfl | hl
    · exact nextPageRe_of_pageRe p.opens
    · exact p.once line (by simp [hl])
  have hgap : ∀ line ∈ p.gap, nextPageRe line = false := fun line hl =>
    p.once line (List.mem_append_right _ hl)
  cases hd : p.download with
  | none =>
      have heq : p.gap = (p.before ++ p.after) ++ [] ++ [] := by simp [PageBlock.gap, hd]
      rw [PageBlock.lines, heq]
      rw [splitChunk_parts p.closes hstrokes (heq ▸ hgap) p.blanks (by simp) (by simp) (by simp)
        fun _ => rfl]
      simp [splitCore, PageBlock.drawing, PageBlock.machinery, hd]
  | some d =>
      have heq : p.gap = p.before ++ d.lines ++ p.after := by simp [PageBlock.gap, hd]
      have hfirst : blank d.restore = false := not_blank_of_strip d.restores.1 (by decide)
      have hlast : blank d.restart = false := not_blank_of_strip d.restarts (by decide)
      have hend : d.lines.getLast? = some d.restart := by
        simp [Download.lines, List.getLast?_cons]
      rw [PageBlock.lines, heq]
      rw [splitChunk_parts p.closes hstrokes (heq ▸ hgap) (fun l hl => p.blanks l (by simp [hl]))
        (fun l hl => p.blanks l (by simp [hl])) (by simpa [Download.lines] using hfirst)
        (by simpa [hend] using hlast) (by simp [Download.lines])]
      simp [splitCore_download, PageBlock.drawing, PageBlock.machinery, hd]

/-- A chunk that can be split is a page. -/
theorem exists_page {chunk : Int × List Line} (hchunk : IsChunk chunk)
    (h : (splitChunk chunk.2).isSome) :
    ∃ p : PageBlock, (p.ordinal, p.lines) = chunk := by
  obtain ⟨⟨drawing, mach⟩, hsplit⟩ := Option.isSome_iff_exists.1 h
  obtain ⟨strokes, next, gap, heq, hnext, hstrokes, hgap⟩ := exists_nextPage hsplit
  obtain ⟨before, core, after, hcut, hbefore, hafter, hfirst, hlast, hcore⟩ := exists_core gap
  obtain ⟨page, rest, hpage, hopens, hplain⟩ := hchunk
  cases strokes with
  | nil =>
      -- The line that begins the page would end it too.
      rw [hpage, List.nil_append, List.cons.injEq] at heq
      have hfalse := nextPageRe_of_pageRe hopens
      rw [heq.1, hnext] at hfalse
      exact absurd hfalse (by simp)
  | cons first strokes =>
      rw [hpage, List.cons_append, List.cons.injEq] at heq
      obtain ⟨rfl, hrest⟩ := heq
      have hcorePart : ∃ download : Option Download, download.elim [] Download.lines = core := by
        by_cases hnil : core = []
        · exact ⟨none, hnil.symm⟩
        · have hsome : (splitCore (page :: strokes ++ [next]) core).isSome := by
            rw [← splitChunk_parts hnext hstrokes (hcut ▸ hgap) hbefore hafter hfirst hlast hcore,
              ← hcut, List.cons_append, ← hrest, ← hpage]
            exact h
          obtain ⟨d, hd⟩ := download_of_splitCore hnil hsome
          exact ⟨some d, hd⟩
      obtain ⟨download, hdownload⟩ := hcorePart
      have hwhole : before ++ download.elim [] Download.lines ++ after = gap := by
        rw [hdownload, hcut]
      refine ⟨⟨chunk.1, page, strokes, next, before, download, after, hopens, hnext, ?_, ?_, ?_⟩,
        ?_⟩
      · intro line hl
        rcases List.mem_append.1 hl with hl | hl
        · exact hbefore line hl
        · exact hafter line hl
      · rw [hwhole]
        intro line hl
        rcases List.mem_append.1 hl with hl | hl
        · exact hstrokes line (by simp [hl])
        · exact hgap line hl
      · rw [hwhole, ← hrest]
        exact hplain
      · refine Prod.ext rfl ?_
        simp [PageBlock.lines, PageBlock.gap, hwhole, hpage, hrest]

theorem PageBlock.isChunk (p : PageBlock) : IsChunk (p.ordinal, p.lines) :=
  ⟨p.page, p.strokes ++ p.next :: p.gap, rfl, p.opens, p.plain⟩

theorem peel_pages (drawings : List (List Line)) (machinery : List Line)
    (pages : List PageBlock) :
    peel drawings machinery (pages.map fun p => (p.ordinal, p.lines)) =
      some (drawings ++ pages.map PageBlock.drawing,
        machinery ++ pages.flatMap PageBlock.machinery) := by
  induction pages generalizing drawings machinery with
  | nil => simp [peel]
  | cons p pages ih => simp [peel, p.splitChunk_lines, ih]

theorem isSome_of_peel {drawings : List (List Line)} {machinery : List Line}
    {chunks : List (Int × List Line)} (h : (peel drawings machinery chunks).isSome) :
    ∀ chunk ∈ chunks, (splitChunk chunk.2).isSome := by
  induction chunks generalizing drawings machinery with
  | nil => simp
  | cons chunk chunks ih =>
      obtain ⟨ordinal, lines⟩ := chunk
      rw [peel] at h
      cases hsplit : splitChunk lines with
      | none => simp [hsplit] at h
      | some parts =>
          rw [hsplit] at h
          intro c hc
          rcases List.mem_cons.1 hc with rfl | hc
          · simp [hsplit]
          · exact ih h c hc

theorem exists_pages {chunks : List (Int × List Line)} (hchunks : ∀ chunk ∈ chunks, IsChunk chunk)
    (h : ∀ chunk ∈ chunks, (splitChunk chunk.2).isSome) :
    ∃ pages : List PageBlock, pages.map (fun p => (p.ordinal, p.lines)) = chunks := by
  induction chunks with
  | nil => exact ⟨[], rfl⟩
  | cons chunk chunks ih =>
      obtain ⟨pages, rfl⟩ := ih (fun c hc => hchunks c (by simp [hc])) fun c hc => h c (by simp [hc])
      obtain ⟨p, rfl⟩ := exists_page (hchunks chunk (by simp)) (h chunk (by simp))
      exact ⟨p :: pages, rfl⟩

/-! ### The saves of the header -/

def isSave (line : Line) : Bool := strip line = saveLgp2

theorem Job.indices_header (job : Job) :
    ∃ between, indices isSave job.header =
      job.opening.length :: (between ++ [job.opening.length + 1 + job.middle.length]) := by
  have hopening : ∀ line ∈ job.opening, isSave line = false := fun line hl => by
    simpa [isSave] using job.first line hl
  have hclosing : ∀ line ∈ job.closing, isSave line = false := fun line hl => by
    simpa [isSave] using job.last line hl
  have hbase : isSave job.base := by simpa [isSave] using job.bases
  have hpage : isSave job.pageSave := by simpa [isSave] using job.pageSaves
  refine ⟨(indices isSave job.middle).map (· + 1 + job.opening.length), ?_⟩
  rw [Job.header, indices_append, indices_none hopening, indices_cons hbase, indices_append,
    indices_cons hpage, indices_none hclosing]
  simp [Function.comp_def]
  omega

/-- A header with two saves at least. -/
theorem exists_saves {header : List Line} (h : ¬ (indices isSave header).length < 2) :
    ∃ opening base middle pageSave closing,
      header = opening ++ base :: (middle ++ pageSave :: closing) ∧
      strip base = saveLgp2 ∧ strip pageSave = saveLgp2 ∧
      (∀ line ∈ opening, strip line ≠ saveLgp2) ∧ ∀ line ∈ closing, strip line ≠ saveLgp2 := by
  rw [length_indices] at h
  obtain ⟨opening, base, rest, heq, hbase, hopening⟩ :=
    exists_first (by omega : 0 < header.countP isSave)
  have hrest : 0 < rest.countP isSave := by
    rw [heq, List.countP_append, List.countP_cons_of_pos hbase] at h
    have hzero : opening.countP isSave = 0 := by simpa [List.countP_eq_zero] using hopening
    omega
  obtain ⟨middle, pageSave, closing, hmiddle, hpage, hclosing⟩ := exists_last hrest
  refine ⟨opening, base, middle, pageSave, closing, by rw [heq, hmiddle], ?_, ?_, ?_, ?_⟩
  · simpa [isSave] using hbase
  · simpa [isSave] using hpage
  · simpa [isSave] using hopening
  · simpa [isSave] using hclosing

/-! ### `restructure` -/

theorem Job.splitDocument_lines (job : Job) :
    splitDocument job.lines =
      some (job.header, job.pages.map fun p => (p.ordinal, p.lines), job.trailer) := by
  have hchunks : job.pages.flatMap PageBlock.lines =
      (job.pages.map fun p => (p.ordinal, p.lines)).flatMap Prod.snd := by
    rw [List.flatMap_map]
  rw [Job.lines, hchunks]
  refine splitDocument_parts job.plain (by simpa using job.paged) ?_ job.marked job.trailing
  intro chunk hchunk
  obtain ⟨p, -, rfl⟩ := List.mem_map.1 hchunk
  exact p.isChunk

theorem Job.header_eq (job : Job) :
    job.header = (job.opening ++ [job.base]) ++ job.middle ++ (job.pageSave :: job.closing) := by
  simp [Job.header]

/-- The output for a job. -/
theorem Job.restructure_lines (job : Job) {data : List UInt8}
    (h : splitlines data = job.lines) : restructure data = (job.reordered.flatten, true) := by
  have hcounted : ¬ ((job.pages.map fun p => (p.ordinal, p.lines)).map Prod.fst ≠
        countdown (job.pages.map fun p => (p.ordinal, p.lines)).length ∨
      (findDeclaredPages job.header ≠ none ∧ findDeclaredPages job.header ≠
        some (job.pages.map fun p => (p.ordinal, p.lines)).length)) := by
    rw [List.length_map, List.map_map]
    rintro (hne | ⟨hnone, hsome⟩)
    · exact hne job.ordinals
    · exact job.declared.elim hnone hsome
  obtain ⟨between, hindices⟩ := job.indices_header
  have hsave : (fun line : Line => decide (strip line = saveLgp2)) = isSave := rfl
  have htwo : ¬ (job.opening.length ::
      (between ++ [job.opening.length + 1 + job.middle.length])).length < 2 := by simp
  have hlast : (job.opening.length ::
      (between ++ [job.opening.length + 1 + job.middle.length])).getLastD 0 =
        job.opening.length + 1 + job.middle.length := by
    rw [List.getLastD_cons, List.getLastD_concat]
  have hbase : job.opening.length + 1 = (job.opening ++ [job.base]).length := by simp
  have htake : job.header.take (job.opening.length + 1) = job.opening ++ [job.base] := by
    rw [job.header_eq, hbase, List.append_assoc, List.take_left]
  have hmiddle : slice job.header (job.opening.length + 1)
      (job.opening.length + 1 + job.middle.length) = job.middle := by
    rw [job.header_eq, hbase, slice_append]
  have hdrop : job.header.drop (job.opening.length + 1 + job.middle.length) =
      job.pageSave :: job.closing := by
    rw [job.header_eq, hbase, ← List.length_append, List.drop_left]
  rw [restructure, h, job.splitDocument_lines]
  simp only [hcounted, if_false, peel_pages, hsave, hindices, htwo, hlast, List.headD_cons,
    htake, hmiddle, hdrop]
  simp [Job.reordered, Job.front, Job.machinery, additiveSetup, List.flatMap_def]

/-- The lines determine the parts that the output is made of. -/
theorem Job.reordered_eq {job other : Job} (h : job.lines = other.lines) :
    job.reordered = other.reordered := by
  have hsplit := job.splitDocument_lines
  rw [h, other.splitDocument_lines] at hsplit
  simp only [Option.some.injEq, Prod.mk.injEq] at hsplit
  obtain ⟨hheader, hchunks, htrailer⟩ := hsplit
  have hpeel := peel_pages [] [] other.pages
  rw [hchunks, peel_pages] at hpeel
  simp only [Option.some.injEq, Prod.mk.injEq, List.nil_append] at hpeel
  obtain ⟨between, hindices⟩ := job.indices_header
  obtain ⟨between', hindices'⟩ := other.indices_header
  rw [hheader, hindices] at hindices'
  simp only [List.cons.injEq] at hindices'
  have hopening : job.opening.length = other.opening.length := hindices'.1
  have hmiddle : job.middle.length = other.middle.length := by
    have := (List.append_inj' hindices'.2 rfl).2
    simp only [List.cons.injEq, and_true] at this
    omega
  rw [Job.header_eq, Job.header_eq] at hheader
  obtain ⟨hrest, hclosing⟩ := List.append_inj hheader (by simp [hopening, hmiddle])
  obtain ⟨hfirst, hmid⟩ := List.append_inj hrest (by simp [hopening])
  obtain ⟨hopen, hbase⟩ := List.append_inj' hfirst rfl
  simp only [List.cons.injEq, and_true] at hbase hclosing
  have hmachinery : job.machinery = other.machinery := hpeel.2
  have hdrawings : job.pages.reverse.flatMap PageBlock.drawing =
      other.pages.reverse.flatMap PageBlock.drawing := by
    rw [List.flatMap_def, List.flatMap_def, List.map_reverse, List.map_reverse, hpeel.1]
  rw [Job.reordered, Job.reordered, Job.front, Job.front, hdrawings, hmachinery, htrailer, hopen,
    hbase, hmid, hclosing.1, hclosing.2]

/-- A document that is put together again is a job. -/
theorem exists_job {data : List UInt8} (h : restructure data ≠ (data, false)) :
    ∃ job : Job, splitlines data = job.lines := by
  rw [restructure] at h
  cases hsplit : splitDocument (splitlines data) with
  | none => simp [hsplit] at h
  | some parts =>
      obtain ⟨header, chunks, trailer⟩ := parts
      cases hpeel : peel [] [] chunks with
      | none => simp [hsplit, hpeel] at h
      | some pieces =>
          obtain ⟨drawings, machinery⟩ := pieces
          simp only [hsplit, hpeel] at h
          split_ifs at h with hcounted hsaves
          · exact absurd rfl h
          · exact absurd rfl h
          have hsplits := isSome_of_peel (by simp [hpeel] : (peel [] [] chunks).isSome)
          have hfull : ∀ chunk ∈ chunks, chunk.2 ≠ [] := by
            intro chunk hchunk hnil
            have := hsplits chunk hchunk
            simp [hnil, splitChunk, indices] at this
          obtain ⟨hlines, hne, hplain, hchunks, hmarked, htrailing⟩ :=
            parts_of_splitDocument hsplit hfull
          obtain ⟨pages, hpages⟩ := exists_pages hchunks hsplits
          obtain ⟨opening, base, middle, pageSave, closing, hheader, hbase, hpage, hfirst, hlast⟩ :=
            exists_saves hsaves
          have hlength : chunks.length = pages.length := by simp [← hpages]
          have hordinals : pages.map PageBlock.ordinal = countdown pages.length := by
            rw [← hlength, ← not_ne_iff.1 fun hne' => hcounted (Or.inl hne'), ← hpages,
              List.map_map]
            rfl
          have hdeclared : findDeclaredPages header = none ∨
              findDeclaredPages header = some pages.length := by
            rw [← hlength]
            by_contra hno
            exact hcounted (Or.inr (not_or.1 hno))
          have hpaged : pages ≠ [] := by
            rintro rfl
            exact hne (by simpa using hpages.symm)
          have hbody : chunks.flatMap Prod.snd = pages.flatMap PageBlock.lines := by
            rw [← hpages, List.flatMap_map]
          rw [hbody] at hlines
          subst hheader
          exact ⟨⟨opening, base, middle, pageSave, closing, pages, trailer, hbase, hpage, hfirst,
            hlast, hplain, hdeclared, hpaged, hordinals, hmarked, htrailing⟩, hlines⟩

end Psfix
