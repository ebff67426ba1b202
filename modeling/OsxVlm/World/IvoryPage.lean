import Mathlib
import OsxVlm.Memory.VirtualMemory

/-!
# Pages of a world file in Ivory format

A page holds 256 Qs in 1280 bytes, four tags and then their four data words.  Qs are
written one after the other into a buffer that goes to the file when the next one
finds it full; they are read back through the same buffer.
-/

namespace VM

/-- A world file and the buffer of its current page. -/
structure World where
  file : WorldFile
  ivoryDataPage : Nat → BitVec 8
  currentPageNumber : Int
  currentQNumber : Nat

/-- The value of an `int`. -/
def toInt32 (n : Int) : Int := (n + 2 ^ 31) % 2 ^ 32 - 2 ^ 31

/-- `lseek` from the start of the file, which refuses negative offsets. -/
def lseek (offset : Int) : Option Nat := if 0 ≤ offset then some offset.toNat else none

/-- The offset of a page is computed in an `int`. -/
def seekPage (pageNumber : Int) : Option Nat := lseek (toInt32 (pageNumber * 1280))

/-! ### A Q in its page -/

def tagOffset (qNumber : Nat) : Nat := 4 * 5 * (qNumber / 4) + qNumber % 4

/-- In words. -/
def pointerOffset (qNumber : Nat) : Nat := 5 * (qNumber / 4) + qNumber % 4 + 1

def wordAt (bytes : Nat → BitVec 8) (offset : Nat) : Integer :=
  bytes (offset + 3) ++ bytes (offset + 2) ++ bytes (offset + 1) ++ bytes offset

def storeWord (bytes : Nat → BitVec 8) (offset : Nat) (word : Integer) : Nat → BitVec 8 := fun i =>
  if offset ≤ i ∧ i < offset + 4 then word.extractLsb' (8 * (i - offset)) 8 else bytes i

def loadQ (page : Nat → BitVec 8) (qNumber : Nat) : LispObj :=
  ⟨page (tagOffset qNumber), wordAt page (4 * pointerOffset qNumber)⟩

def storeQ (page : Nat → BitVec 8) (qNumber : Nat) (q : LispObj) : Nat → BitVec 8 :=
  storeWord (Function.update page (tagOffset qNumber) q.tag) (4 * pointerOffset qNumber) q.data

/-- The bytes of a page that a Q occupies. -/
def qBytes (qNumber : Nat) : Finset Nat :=
  insert (tagOffset qNumber) (Finset.Ico (4 * pointerOffset qNumber) (4 * pointerOffset qNumber + 4))

theorem wordAt_storeWord (bytes : Nat → BitVec 8) (offset : Nat) (word : Integer) :
    wordAt (storeWord bytes offset word) offset = word := by
  unfold wordAt storeWord
  rw [if_pos (by omega), if_pos (by omega), if_pos (by omega), if_pos (by omega)]
  apply BitVec.eq_of_getLsbD_eq
  intro i hi
  simp only [BitVec.getLsbD_append, BitVec.getLsbD_extractLsb']
  split
  · simp_all
  · split
    · next h8 h16 =>
      rw [decide_eq_true h16, Bool.true_and]
      congr 1
      omega
    · split
      · next h8 h16 h24 =>
        rw [decide_eq_true h24, Bool.true_and]
        congr 1
        omega
      · next h8 h16 h24 =>
        rw [decide_eq_true (by omega), Bool.true_and]
        congr 1
        omega

/-- Every Q lies in its page. -/
theorem qBytes_lt {qNumber i : Nat} (hq : qNumber < 256) (hi : i ∈ qBytes qNumber) : i < 1280 := by
  simp only [qBytes, Finset.mem_insert, Finset.mem_Ico, tagOffset, pointerOffset] at hi
  omega

/-- No two Qs of a page overlap. -/
theorem qBytes_disjoint {q q' : Nat} (hne : q ≠ q') : Disjoint (qBytes q) (qBytes q') := by
  rw [Finset.disjoint_left]
  intro i hi hi'
  simp only [qBytes, Finset.mem_insert, Finset.mem_Ico, tagOffset, pointerOffset] at hi hi'
  omega

/-- A Q is read from its own bytes. -/
theorem loadQ_congr {page page' : Nat → BitVec 8} {q : Nat}
    (h : ∀ i ∈ qBytes q, page i = page' i) : loadQ page q = loadQ page' q := by
  have hword : ∀ k, k < 4 → page (4 * pointerOffset q + k) = page' (4 * pointerOffset q + k) := by
    intro k hk
    apply h
    simp only [qBytes, Finset.mem_insert, Finset.mem_Ico]
    omega
  unfold loadQ wordAt
  rw [h _ (Finset.mem_insert_self _ _), hword 3 (by omega), hword 2 (by omega),
    hword 1 (by omega)]
  rw [show page (4 * pointerOffset q) = page' (4 * pointerOffset q) from hword 0 (by omega)]

theorem loadQ_storeQ_self (page : Nat → BitVec 8) (qNumber : Nat) (q : LispObj) :
    loadQ (storeQ page qNumber q) qNumber = q := by
  have htag : storeQ page qNumber q (tagOffset qNumber) = q.tag := by
    unfold storeQ storeWord
    rw [if_neg, Function.update_self]
    unfold tagOffset pointerOffset
    omega
  unfold loadQ
  rw [htag]
  unfold storeQ
  rw [wordAt_storeWord]

theorem storeQ_outside {page : Nat → BitVec 8} {qNumber i : Nat} {q : LispObj}
    (hi : i ∉ qBytes qNumber) : storeQ page qNumber q i = page i := by
  simp only [qBytes, Finset.mem_insert, Finset.mem_Ico, not_or] at hi
  unfold storeQ storeWord
  rw [if_neg hi.2, Function.update_of_ne hi.1]

theorem loadQ_storeQ_ne {page : Nat → BitVec 8} {qNumber q' : Nat} {q : LispObj}
    (hne : q' ≠ qNumber) : loadQ (storeQ page qNumber q) q' = loadQ page q' := by
  apply loadQ_congr
  intro i hi
  exact storeQ_outside (Finset.disjoint_left.mp (qBytes_disjoint hne) hi)

namespace World

/-! ### Reading -/

def readIvoryWorldFilePage (w : World) (pageNumber : Int) : Option World :=
  if w.currentPageNumber = pageNumber then some w
  else
    match seekPage pageNumber with
    | none => none
    | some offset =>
        if w.file.holds offset 1280 then
          some
            { w with
              ivoryDataPage := fun i => w.file.bytes (offset + i)
              currentPageNumber := pageNumber }
        else none

def readIvoryWorldFileQ (w : World) (qNumber : Nat) : Option LispObj :=
  if 256 ≤ qNumber then none else some (loadQ w.ivoryDataPage qNumber)

/-- The loop that advances to the page of the next Q. -/
def advancePages : Nat → World → Option World
  | 0, w => some w
  | pages + 1, w =>
      match w.readIvoryWorldFilePage (w.currentPageNumber + 1) with
      | none => none
      | some w => advancePages pages { w with currentQNumber := w.currentQNumber - 256 }

def readIvoryWorldFileNextQ (w : World) : Option (LispObj × World) :=
  match advancePages (w.currentQNumber / 256) w with
  | none => none
  | some w =>
      match w.readIvoryWorldFileQ w.currentQNumber with
      | none => none
      | some q => some (q, { w with currentQNumber := w.currentQNumber + 1 })

/-! ### Writing -/

def prepareToWriteIvoryWorldFilePage (w : World) (pageNumber : Int) : World :=
  { w with
    ivoryDataPage := fun _ => 0
    currentPageNumber := pageNumber
    currentQNumber := 0 }

def writeIvoryWorldFilePage (w : World) : Option World :=
  if w.currentQNumber = 0 then some w
  else
    match seekPage w.currentPageNumber with
    | none => none
    | some offset =>
        let file : WorldFile :=
          { bytes := fun i =>
              if offset ≤ i ∧ i < offset + 1280 then w.ivoryDataPage (i - offset)
              else w.file.bytes i
            size := max w.file.size (offset + 1280) }
        some
          (({ w with file := file } : World).prepareToWriteIvoryWorldFilePage
            (w.currentPageNumber + 1))

def storeNextQ (w : World) (q : LispObj) : World :=
  { w with
    ivoryDataPage := storeQ w.ivoryDataPage w.currentQNumber q
    currentQNumber := w.currentQNumber + 1 }

def writeIvoryWorldFileNextQ (w : World) (q : LispObj) : Option World :=
  if 256 ≤ w.currentQNumber then w.writeIvoryWorldFilePage.map fun w => w.storeNextQ q
  else some (w.storeNextQ q)

/-! ### A sequence of Qs -/

def writeQs : World → List LispObj → Option World
  | w, [] => some w
  | w, q :: qs => (w.writeIvoryWorldFileNextQ q).bind fun w => w.writeQs qs

/-- From the first page, and the last page is flushed. -/
def write (w : World) (qs : List LispObj) : Option World :=
  ((w.prepareToWriteIvoryWorldFilePage 0).writeQs qs).bind writeIvoryWorldFilePage

def readQs : Nat → World → Option (List LispObj × World)
  | 0, w => some ([], w)
  | n + 1, w =>
      match w.readIvoryWorldFileNextQ with
      | none => none
      | some (q, w) => (readQs n w).map fun r => (q :: r.1, r.2)

/-- `n` Qs from the first page on. -/
def read (w : World) (n : Nat) : Option (List LispObj × World) :=
  (w.readIvoryWorldFilePage 0).bind fun w => readQs n { w with currentQNumber := 0 }

/-- The same file, opened again. -/
def reopened (w : World) : World := { w with currentPageNumber := -1 }

end World

end VM
