import OsxVlm.Library.Lines

/-!
# Page reversal

`psfix --reorder` on a job whose pages were spooled last first: the document is cut into
its header, one chunk for each page and the trailer; each chunk is cut into the drawing of
the page and the fonts that the driver downloaded after it; and the pieces are put
together again with the fonts before all the pages and the pages the other way round.
A line keeps its end.  Numbers are the unbounded ones of the language.
-/

namespace Psfix

open Lines

abbrev Line := List UInt8

def ascii (text : String) : Line := text.toList.map fun c => c.toNat.toUInt8

/-! ### The patterns -/

def isSpace (b : UInt8) : Bool := b = 32 || (9 ≤ b && b ≤ 13)

def isDigit (b : UInt8) : Bool := 48 ≤ b && b ≤ 57

/-- `\w` on bytes. -/
def isWord (b : UInt8) : Bool :=
  isDigit b || (65 ≤ b && b ≤ 90) || (97 ≤ b && b ≤ 122) || b = 95

def strip (line : Line) : Line := (line.dropWhile isSpace).rdropWhile isSpace

/-- The runs between white space. -/
def words (line : Line) : List Line := (line.splitOnP isSpace).filter (· ≠ [])

/-- `\d+`, and `int` of it. -/
def unsigned (digits : Line) : Option Nat :=
  if digits ≠ [] ∧ digits.all isDigit then
    some (digits.foldl (fun n d => n * 10 + (d.toNat - 48)) 0)
  else none

/-- `-?\d+`, and `int` of it. -/
def signed : Line → Option Int
  | 45 :: digits => (unsigned digits).map fun n => -(n : Int)
  | digits => (unsigned digits).map fun n => (n : Int)

/-- What follows a mark at the beginning of a line, if white space comes first in it. -/
def spacedAfter (mark line : Line) : Option Line :=
  (mark.isPrefixOf? line).filter fun rest => rest.head?.any isSpace

/-- `PAGE_RE`, with the number in its second group. -/
def pageRe (line : Line) : Option Int :=
  match (spacedAfter (ascii "%%Page:") line).map words with
  | some [_, ordinal] => signed ordinal
  | _ => none

/-- `PAGES_RE`, with the number in its group. -/
def pagesRe (line : Line) : Option Nat :=
  match (spacedAfter (ascii "%%Pages:") line).map words with
  | some [count] => unsigned count
  | _ => none

/-- `TRAILER_RE`. -/
def trailerRe (line : Line) : Bool :=
  match (ascii "%%Trailer").isPrefixOf? line with
  | some rest => !rest.head?.any isWord
  | none => false

/-- `NEXTPAGE_RE`. -/
def nextPageRe (line : Line) : Bool :=
  words line = [ascii "true", ascii "NextPage"] ||
    words line = [ascii "false", ascii "NextPage"]

/-- `SAVE_LGP2`. -/
def saveLgp2 : Line := ascii "save lgp2-getmatrix"

/-- `ADDITIVE_SETUP`, line by line. -/
def additiveLines : List Line := [
  ascii "%%BeginProcSet: psfix-additive-fonts 1.2\n",
  ascii "% linux-vlm psfix: make SetupBitmapFont accumulate glyphs across the\n",
  ascii "% hoisted per-run batches.  Each batch defines a fresh writable font (in the\n",
  ascii "% current dict, exactly as the driver's original does), but pre-seeds its\n",
  ascii "% /chardefs with the glyphs carried forward from the prior generation, so the\n",
  ascii "% batches merge into one complete font instead of replacing each other.  Pure\n",
  ascii "% stack, no work dict, so the font lands where FinishFont/findfont expect it.\n",
  ascii "/SetupBitmapFont \x7b                    % /FontName  Encoding  ->  -\n",
  ascii "\texch                              % Encoding /FontName\n",
  ascii "\tdup where\n",
  ascii "\t  \x7b pop dup load /chardefs get \x7d  % carry forward accumulated glyphs\n",
  ascii "\t  \x7b 256 dict \x7d                    % first time: nothing to carry\n",
  ascii "\tifelse                            % Encoding /FontName oldchardefs\n",
  ascii "\t1 index 10 dict def               % define /FontName -> fresh writable dict\n",
  ascii "\t1 index load begin                % enter the fresh font dict\n",
  ascii "\t  /FontType 3 def\n",
  ascii "\t  /FontMatrix 72 300 div dup matrix scale def\n",
  ascii "\t  /FontBBox [99999 99999 -99999 -99999] def\n",
  ascii "\t  /BuildChar \x7b BuildBitmapChar \x7d def\n",
  ascii "\t  /chardefs 256 dict def\n",
  ascii "\t  \x7b chardefs 3 1 roll put \x7d forall   % copy oldchardefs in: dict key value put\n",
  ascii "\t  pop                             % discard /FontName\n",
  ascii "\t  /Encoding exch def              % Encoding -> font dict\n",
  ascii "\tend \x7d bind def\n",
  ascii "%%EndProcSet\n"]

def additiveSetup : Line := additiveLines.flatten

/-! ### Cutting the document -/

/-- `lines[start:stop]`. -/
def slice (lines : List Line) (start stop : Nat) : List Line := (lines.take stop).drop start

/-- The indices of the lines that a pattern matches. -/
def indices (p : Line → Bool) (lines : List Line) : List Nat :=
  (lines.zipIdx.filter fun l => p l.1).map Prod.snd

def findDeclaredPages : List Line → Option Nat
  | [] => none
  | line :: lines =>
      if (ascii "%%EndComments").isPrefixOf line then none
      else
        match pagesRe line with
        | some count => some count
        | none => findDeclaredPages lines

/-- What `split_document` has found in the lines before some line. -/
structure Marks where
  pageIdx : List Nat := []
  ordinals : List Int := []
  trailerStart : Option Nat := none

def Marks.line (m : Marks) (i : Nat) (line : Line) : Marks :=
  match pageRe line with
  | some ordinal =>
      { m with pageIdx := m.pageIdx ++ [i], ordinals := m.ordinals ++ [ordinal] }
  | none =>
      if m.trailerStart = none ∧ trailerRe line then { m with trailerStart := some i } else m

def Marks.scan (m : Marks) (i : Nat) : List Line → Marks
  | [] => m
  | line :: lines => (m.line i line).scan (i + 1) lines

/-- `split_document`: the header, the chunks with their ordinals, and the trailer. -/
def splitDocument (lines : List Line) :
    Option (List Line × List (Int × List Line) × List Line) :=
  let m := Marks.scan {} 0 lines
  match m.pageIdx with
  | [] => none
  | first :: later =>
      let stop := m.trailerStart.getD lines.length
      let ends := later ++ [stop]
      let chunks := (m.ordinals.zip (m.pageIdx.zip ends)).map fun c =>
        (c.1, slice lines c.2.1 c.2.2)
      some (lines.take first, chunks, lines.drop stop)

/-- A line of white space only. -/
def blank (line : Line) : Bool := strip line = []

/-- `while lo < hi and not gap[lo].strip(): lo += 1` -/
def skipBlanks (gap : List Line) (lo hi : Nat) : Nat :=
  if lo < hi ∧ blank (gap.getD lo []) then skipBlanks gap (lo + 1) hi else lo
termination_by hi - lo

/-- `while hi > lo and not gap[hi - 1].strip(): hi -= 1` -/
def dropBlanks (gap : List Line) (lo : Nat) : Nat → Nat
  | 0 => 0
  | hi + 1 => if lo < hi + 1 ∧ blank (gap.getD hi []) then dropBlanks gap lo hi else hi + 1

/-- `split_chunk`: the drawing of a page and the fonts downloaded after it. -/
def splitChunk (chunk : List Line) : Option (List Line × List Line) :=
  match indices nextPageRe chunk with
  | [cut] =>
      let drawing := chunk.take (cut + 1)
      let gap := chunk.drop (cut + 1)
      let lo := skipBlanks gap 0 gap.length
      let hi := dropBlanks gap lo gap.length
      let core := slice gap lo hi
      if core = [] then some (drawing, [])
      else if 5 ≤ core.length ∧ strip (core.getD 0 []) = ascii "restore" ∧
          strip (core.getD 1 []) = ascii "restore" ∧ strip (core.getD 2 []) = ascii "save" ∧
          strip (core.getD (core.length - 1) []) = saveLgp2 then
        some (drawing, slice core 3 (core.length - 1))
      else none
  | _ => none

/-! ### Putting it together again -/

/-- The loop of `restructure` over the chunks. -/
def peel (drawings : List (List Line)) (machinery : List Line) :
    List (Int × List Line) → Option (List (List Line) × List Line)
  | [] => some (drawings, machinery)
  | (_, chunk) :: chunks =>
      match splitChunk chunk with
      | none => none
      | some (drawing, mach) => peel (drawings ++ [drawing]) (machinery ++ mach) chunks

/-- `list(range(n, 0, -1))` -/
def countdown : Nat → List Int
  | 0 => []
  | n + 1 => ((n + 1 : Nat) : Int) :: countdown n

def restructure (data : List UInt8) : List UInt8 × Bool :=
  match splitDocument (splitlines data) with
  | none => (data, false)
  | some (header, chunks, trailer) =>
      let declared := findDeclaredPages header
      if chunks.map Prod.fst ≠ countdown chunks.length ∨
          (declared ≠ none ∧ declared ≠ some chunks.length) then (data, false)
      else
        match peel [] [] chunks with
        | none => (data, false)
        | some (drawings, machinery) =>
            let saveIdx := indices (fun line => strip line = saveLgp2) header
            if saveIdx.length < 2 then (data, false)
            else
              let base := saveIdx.headD 0
              let page := saveIdx.getLastD 0
              let newHeader := header.take (base + 1) ++ [additiveSetup] ++
                slice header (base + 1) page ++ machinery ++ header.drop page
              let body := drawings.reverse.flatten
              ((newHeader ++ body ++ trailer).flatten, true)

end Psfix
