import Mathlib
import OsxVlm.Memory.WorldLoad
import OsxVlm.World.LoadWorld
import OsxVlm.World.OpenWorld

/-!
# Swapping the bytes of a world

A world that was saved in the other byte order is loaded word by word, through buffers of one
page.  Swapping the file once reverses the words of its data and puts the native cookie over the
tags of the first four Qs; from then on the file is mapped.  Both ways give the same words.
-/

namespace VM

/-! ### The new file -/

/-- The words of a buffer of `n` bytes, each with its bytes reversed. -/
def bswap32Block (block : Nat → BitVec 8) (n : Nat) : Nat → BitVec 8 :=
  (List.range ((n + 3) / 4)).foldl
    (fun block i => storeWord block (4 * i) (bswap32 (wordAt block (4 * i)))) block

/-- What is written for the block at an offset.  The cookie is replaced before the block may
be swapped. -/
def swapBlock (dataStart dataEnd offset : Nat) (block : Nat → BitVec 8) : Nat → BitVec 8 :=
  let block := if offset = 0 then storeWord block 0 0o24342504610 else block
  if dataStart ≤ offset ∧ offset + 8192 ≤ dataEnd then bswap32Block block 8192 else block

/-- The loop over the blocks; a short read punts. -/
def byteSwapBlocks (f : WorldFile) (dataStart dataEnd offset : Nat) (out : WorldFile) :
    Option WorldFile :=
  if offset < f.size then
    if f.holds offset 8192 then
      byteSwapBlocks f dataStart dataEnd (offset + 8192)
        (out.write offset 8192
          (swapBlock dataStart dataEnd offset fun i => f.bytes (offset + i)))
    else none
  else some out
termination_by f.size - offset
decreasing_by omega

/-- The bytes before a block, computed in an `int` and taken for a `size_t`. -/
def blockStart (pageBase : Nat) : Nat := (toInt32 (8192 * pageBase) % 2 ^ 64).toNat

/-- `ByteSwapOneWorld`, with the file that takes the place of the old one. -/
def byteSwapOneWorld (o : OpenedWorld) : Option WorldFile :=
  let f := o.file.file
  let dataStart := blockStart o.vlmDataPageBase
  let dataEnd :=
    if o.vlmTagsPageBase < o.vlmDataPageBase then f.size else blockStart o.vlmTagsPageBase
  byteSwapBlocks f dataStart dataEnd 0 .empty

variable {f f' out : WorldFile} {block : Nat → BitVec 8} {dataStart dataEnd offset : Nat}

/-! ### Words and their bytes -/

theorem wordAt_byte (block : Nat → BitVec 8) (offset : Nat) {j : Nat} (hj : j < 4) :
    (wordAt block offset).extractLsb' (8 * j) 8 = block (offset + j) := by
  unfold wordAt
  apply BitVec.eq_of_getLsbD_eq
  intro i hi
  simp only [BitVec.getLsbD_extractLsb', hi, decide_true, Bool.true_and, BitVec.getLsbD_append]
  interval_cases j <;> grind

theorem bswap32_byte (word : Integer) {j : Nat} (hj : j < 4) :
    (bswap32 word).extractLsb' (8 * j) 8 = word.extractLsb' (8 * (3 - j)) 8 := by
  unfold bswap32
  apply BitVec.eq_of_getLsbD_eq
  intro i hi
  simp only [BitVec.getLsbD_extractLsb', hi, decide_true, Bool.true_and, BitVec.getLsbD_append]
  interval_cases j <;> grind

/-- The bytes of the first `n` words are reversed in each of them. -/
theorem bswap32_words (block : Nat → BitVec 8) (n i : Nat) :
    (List.range n).foldl
        (fun block i => storeWord block (4 * i) (bswap32 (wordAt block (4 * i)))) block i =
      if i < 4 * n then block (4 * (i / 4) + (3 - i % 4)) else block i := by
  induction n generalizing i with
  | zero => rfl
  | succ n ih =>
      rw [List.range_succ, List.foldl_append, List.foldl_cons, List.foldl_nil]
      generalize hb : (List.range n).foldl
        (fun block i => storeWord block (4 * i) (bswap32 (wordAt block (4 * i)))) block = b at *
      unfold storeWord
      by_cases hword : 4 * n ≤ i ∧ i < 4 * n + 4
      · -- a byte of the last word
        rw [if_pos hword, if_pos (by omega), bswap32_byte _ (by omega), wordAt_byte _ _ (by omega),
          ih, if_neg (by omega)]
        congr 1
        omega
      · rw [if_neg hword, ih]
        apply if_congr _ rfl rfl
        omega

theorem bswap32Block_byte (block : Nat → BitVec 8) {i : Nat} (hi : i < 8192) :
    bswap32Block block 8192 i = block (4 * (i / 4) + (3 - i % 4)) := by
  unfold bswap32Block
  rw [bswap32_words, if_pos (by omega)]

/-- Reversing the bytes of a word in the file swaps the word. -/
theorem dataWord_swapped
    (h : ∀ j, j < 4 → f'.bytes (offset + j) = f.bytes (offset + (3 - j))) :
    f'.dataWord offset = bswap32 (f.dataWord offset) := by
  have hbyte₀ : (f.dataWord offset).extractLsb' 0 8 = f.bytes offset :=
    wordAt_byte f.bytes offset (show 0 < 4 by decide)
  have hbyte₁ : (f.dataWord offset).extractLsb' 8 8 = f.bytes (offset + 1) :=
    wordAt_byte f.bytes offset (show 1 < 4 by decide)
  have hbyte₂ : (f.dataWord offset).extractLsb' 16 8 = f.bytes (offset + 2) :=
    wordAt_byte f.bytes offset (show 2 < 4 by decide)
  have hbyte₃ : (f.dataWord offset).extractLsb' 24 8 = f.bytes (offset + 3) :=
    wordAt_byte f.bytes offset (show 3 < 4 by decide)
  have hlow : f'.bytes offset = f.bytes (offset + 3) := h 0 (by decide)
  unfold bswap32
  rw [hbyte₀, hbyte₁, hbyte₂, hbyte₃]
  unfold WorldFile.dataWord
  rw [hlow, h 1 (by decide), h 2 (by decide), h 3 (by decide)]
  rfl

/-! ### The blocks of the new file -/

/-- Every block goes to its own place. -/
theorem byteSwapBlocks_spec {blocks b : Nat} (hsize : f.size = 8192 * blocks) (hb : b ≤ blocks)
    (hout : out.size = 8192 * b) :
    ∃ f', byteSwapBlocks f dataStart dataEnd (8192 * b) out = some f' ∧ f'.size = f.size ∧
      (∀ i, i < 8192 * b → f'.bytes i = out.bytes i) ∧
      ∀ k i, b ≤ k → k < blocks → i < 8192 →
        f'.bytes (8192 * k + i) =
          swapBlock dataStart dataEnd (8192 * k) (fun i => f.bytes (8192 * k + i)) i := by
  induction hn : blocks - b generalizing b out with
  | zero =>
      obtain rfl : b = blocks := by omega
      rw [byteSwapBlocks, if_neg (by omega)]
      refine ⟨out, rfl, hout.trans hsize.symm, fun i _ => rfl, ?_⟩
      intro k i hk hk'
      omega
  | succ n ih =>
      generalize hblock : swapBlock dataStart dataEnd (8192 * b)
        (fun i => f.bytes (8192 * b + i)) = block
      obtain ⟨f', hf', hsize', hbelow, hblocks⟩ :=
        @ih (out.write (8192 * b) 8192 block) (b + 1) (by omega) (by
          simp only [WorldFile.write]
          rw [if_neg (by decide)]
          omega) (by omega)
      refine ⟨f', ?_, hsize', ?_, ?_⟩
      · rw [byteSwapBlocks, if_pos (by omega), if_pos, hblock]
        · exact hf'
        · unfold WorldFile.holds
          rw [decide_eq_true_eq]
          omega
      · intro i hi
        rw [hbelow i (by omega)]
        exact write_outside (Or.inl hi)
      · intro k i hk hk' hi
        by_cases hfirst : k = b
        · subst hfirst
          rw [hbelow _ (by omega), hblock]
          exact write_inside hi
        · exact hblocks k i (by omega) hk' hi

/-! ### A file that can be swapped -/

/-- A file of whole blocks, short enough for an `int`.  The header ends before data and tags, and
for every entry the tags of its pages and their data lie apart. -/
structure Swappable (o : OpenedWorld) (f : WorldFile) : Prop where
  size : ∃ blocks, f.size = 8192 * blocks
  size_lt : f.size < 2 ^ 31
  header : 1280 * ((8 + 3 * o.wiredMapEntries.length + 255) / 256) ≤
    8192 * min o.vlmDataPageBase o.vlmTagsPageBase
  bases : 8192 * max o.vlmDataPageBase o.vlmTagsPageBase ≤ f.size
  pages : ∀ e ∈ o.wiredMapEntries, e.opcode = .dataPages →
    8192 * (o.vlmDataPageBase + 4 * (e.data.data.toNat + e.pageCount)) ≤ f.size ∧
      8192 * (o.vlmTagsPageBase + (e.data.data.toNat + e.pageCount)) ≤ f.size ∧
      (o.vlmTagsPageBase + (e.data.data.toNat + e.pageCount) ≤ o.vlmDataPageBase ∨
        o.vlmDataPageBase + 4 * (e.data.data.toNat + e.pageCount) ≤ o.vlmTagsPageBase)

/-- Where the bytes of the new file come from. -/
structure SwappedFrom (dataBase tagsBase : Nat) (f f' : WorldFile) : Prop where
  size : f'.size = f.size
  cookie : wordAt f'.bytes 0 = 0o24342504610
  below : ∀ i, 4 ≤ i → i < 8192 * dataBase → f'.bytes i = f.bytes i
  above : ∀ i, dataBase ≤ tagsBase → 8192 * tagsBase ≤ i → i < f.size → f'.bytes i = f.bytes i
  data : ∀ i, 8192 * dataBase ≤ i → i < f.size → (dataBase ≤ tagsBase → i < 8192 * tagsBase) →
    f'.bytes i = f.bytes (4 * (i / 4) + (3 - i % 4))

/-- The block that is not swapped. -/
theorem swapBlock_plain {i : Nat} (hout : ¬ (dataStart ≤ offset ∧ offset + 8192 ≤ dataEnd))
    (hi : offset ≠ 0 ∨ 4 ≤ i) : swapBlock dataStart dataEnd offset block i = block i := by
  unfold swapBlock
  rw [if_neg hout]
  split
  · unfold storeWord
    rw [if_neg (by omega)]
  · rfl

theorem swapBlock_swapped {i : Nat} (hin : dataStart ≤ offset ∧ offset + 8192 ≤ dataEnd)
    (hpos : offset ≠ 0) (hi : i < 8192) :
    swapBlock dataStart dataEnd offset block i = block (4 * (i / 4) + (3 - i % 4)) := by
  unfold swapBlock
  rw [if_pos hin, if_neg hpos, bswap32Block_byte _ hi]

theorem blockStart_eq {pageBase : Nat} (h : 8192 * pageBase < 2 ^ 31) :
    blockStart pageBase = 8192 * pageBase := by
  unfold blockStart toInt32
  omega

section Swap

variable {o : OpenedWorld}

theorem byteSwapOneWorld_spec (h : Swappable o o.file.file) :
    ∃ f', byteSwapOneWorld o = some f' ∧
      SwappedFrom o.vlmDataPageBase o.vlmTagsPageBase o.file.file f' := by
  obtain ⟨blocks, hsize⟩ := h.size
  have hlt := h.size_lt
  have hbases := h.bases
  have hheader := h.header
  unfold byteSwapOneWorld
  dsimp only
  generalize o.file.file = f at *
  generalize o.vlmDataPageBase = dataBase at *
  generalize o.vlmTagsPageBase = tagsBase at *
  rw [blockStart_eq (show 8192 * dataBase < 2 ^ 31 by omega),
    blockStart_eq (show 8192 * tagsBase < 2 ^ 31 by omega)]
  generalize hend : (if tagsBase < dataBase then f.size else 8192 * tagsBase) = dataEnd
  obtain ⟨f', hf', hsize', -, hblocks⟩ := @byteSwapBlocks_spec f .empty (8192 * dataBase) dataEnd
    blocks 0 hsize (Nat.zero_le _) rfl
  -- a byte by its block
  have hbyte : ∀ i, i < f.size → f'.bytes i = swapBlock (8192 * dataBase) dataEnd
      (8192 * (i / 8192)) (fun j => f.bytes (8192 * (i / 8192) + j)) (i % 8192) := by
    intro i hi
    rw [← hblocks (i / 8192) (i % 8192) (Nat.zero_le _) (by omega) (Nat.mod_lt _ (by decide)),
      Nat.div_add_mod]
  have hplain : ∀ i, i < f.size → 4 ≤ i →
      ¬ (8192 * dataBase ≤ 8192 * (i / 8192) ∧ 8192 * (i / 8192) + 8192 ≤ dataEnd) →
      f'.bytes i = f.bytes i := by
    intro i hi hfour hout
    rw [hbyte i hi, swapBlock_plain hout (by omega), Nat.div_add_mod]
  refine ⟨f', hf', hsize', ?_, ?_, ?_, ?_⟩
  · have hfirst : ∀ i, i < 4 → f'.bytes i = storeWord f.bytes 0 0o24342504610 i := by
      intro i hi
      rw [hbyte i (by omega), Nat.div_eq_of_lt (by omega), Nat.mod_eq_of_lt (by omega)]
      unfold swapBlock
      rw [if_pos (Nat.mul_zero _), if_neg (by omega)]
      simp only [Nat.mul_zero, Nat.zero_add]
    unfold wordAt
    rw [hfirst _ (by decide), hfirst _ (by decide), hfirst _ (by decide), hfirst _ (by decide)]
    exact wordAt_storeWord f.bytes 0 _
  · intro i hfour hi
    exact hplain i (by omega) hfour (by omega)
  · intro i hle hi hi'
    rw [if_neg (by omega)] at hend
    exact hplain i hi' (by omega) (by omega)
  · intro i hi hi' hout
    have hin : 8192 * dataBase ≤ 8192 * (i / 8192) ∧ 8192 * (i / 8192) + 8192 ≤ dataEnd := by
      split at hend
      · omega
      · have := hout (by omega)
        omega
    rw [hbyte i hi', swapBlock_swapped hin (by omega) (Nat.mod_lt _ (by decide))]
    congr 1
    omega

end Swap

/-! ### The header -/

/-- A Q of a file, by its number. -/
def fileQ (f : WorldFile) (number : Nat) : LispObj :=
  loadQ (fun i => f.bytes (1280 * (number / 256) + i)) (number % 256)

/-- The Qs of a header with `n` entries. -/
def headerOf (f : WorldFile) (n : Nat) : List LispObj := (List.range (8 + 3 * n)).map (fileQ f)

theorem headerOf_length (f : WorldFile) (n : Nat) : (headerOf f n).length = 8 + 3 * n := by
  unfold headerOf
  rw [List.length_map, List.length_range]

theorem holds_headerOf {n : Nat} (hsize : 1280 * ((8 + 3 * n + 255) / 256) ≤ f.size)
    (hlt : f.size < 2 ^ 31) : World.Holds f (headerOf f n) := by
  refine ⟨?_, by rwa [headerOf_length], ?_⟩
  · intro number q hq
    unfold headerOf at hq
    rw [List.getElem?_map, Option.map_eq_some_iff] at hq
    obtain ⟨k, hk, rfl⟩ := hq
    obtain ⟨hlt', hget⟩ := List.getElem?_eq_some_iff.mp hk
    rw [List.getElem_range] at hget
    rw [hget]
    rfl
  · rw [headerOf_length]
    unfold World.maximumPages
    omega

section Header

variable {n last : Nat} (h : ∀ i, 4 ≤ i → i < last → f'.bytes i = f.bytes i)
include h

/-- Of the first Qs only the tags are changed. -/
theorem fileQ_data_congr {k : Nat} (hk : 1280 * (k / 256) + 1280 ≤ last) :
    (fileQ f' k).data = (fileQ f k).data := by
  have hbyte : ∀ j, j < 4 → f'.bytes (1280 * (k / 256) + (4 * pointerOffset (k % 256) + j)) =
      f.bytes (1280 * (k / 256) + (4 * pointerOffset (k % 256) + j)) := by
    intro j hj
    apply h
    · unfold pointerOffset
      omega
    · unfold pointerOffset
      omega
  unfold fileQ loadQ wordAt
  dsimp only
  rw [hbyte 3 (by decide), hbyte 2 (by decide), hbyte 1 (by decide)]
  exact congrArg _ (hbyte 0 (by decide))

theorem fileQ_congr {k : Nat} (hk : 1280 * (k / 256) + 1280 ≤ last) (hpos : 4 ≤ k) :
    fileQ f' k = fileQ f k := by
  unfold fileQ
  apply loadQ_congr
  intro i hi
  have hlt := qBytes_lt (Nat.mod_lt k (by decide)) hi
  simp only [qBytes, Finset.mem_insert, Finset.mem_Ico, tagOffset, pointerOffset] at hi
  apply h <;> omega

theorem dataOf_headerOf_congr (hlast : 1280 * ((8 + 3 * n + 255) / 256) ≤ last) (k : Nat) :
    dataOf (headerOf f' n) k = dataOf (headerOf f n) k := by
  unfold dataOf
  by_cases hk : k < 8 + 3 * n
  · rw [List.getD_eq_getElem _ _ (by rwa [headerOf_length]),
      List.getD_eq_getElem _ _ (by rwa [headerOf_length])]
    simp only [headerOf, List.getElem_map, List.getElem_range]
    exact fileQ_data_congr h (by omega)
  · rw [List.getD_eq_default _ _ (by rw [headerOf_length]; omega),
      List.getD_eq_default _ _ (by rw [headerOf_length]; omega)]

theorem drop_headerOf_congr (hlast : 1280 * ((8 + 3 * n + 255) / 256) ≤ last) :
    (headerOf f' n).drop 8 = (headerOf f n).drop 8 := by
  unfold headerOf
  rw [← List.map_drop, ← List.map_drop]
  apply List.map_congr_left
  intro k hk
  obtain ⟨i, hi, rfl⟩ := List.mem_iff_getElem.mp hk
  rw [List.length_drop, List.length_range] at hi
  rw [List.getElem_drop, List.getElem_range]
  exact fileQ_congr h (by omega) (by omega)

end Header

/-- A world that was opened as swapped, by the Qs of its header. -/
theorem openWorldFile_swapped {self : Nat} {buffer : Nat → BitVec 8} {o : OpenedWorld}
    (h : openWorldFile self buffer f = some o) (hswapped : o.byteSwapped = true)
    (hsize : 1280 * ((8 + 3 * o.wiredMapEntries.length + 255) / 256) ≤ f.size)
    (hlt : f.size < 2 ^ 31) :
    ∃ layout, cookieFormat (wordAt f.bytes 0) = some (.vlm, true) ∧
      headerLayout .vlm (dataOf (headerOf f o.wiredMapEntries.length) 0) = some layout ∧
      mapLength (dataOf (headerOf f o.wiredMapEntries.length) 1) =
        some o.wiredMapEntries.length ∧
      ∃ w, o = decodeHeader self true layout (headerOf f o.wiredMapEntries.length) w ∧
        w.file = f := by
  have hholds := holds_headerOf hsize hlt
  have hlength := headerOf_length f o.wiredMapEntries.length
  have hlookup := h
  unfold openWorldFile at h
  simp only [Option.bind_eq_bind, Option.bind_eq_some_iff] at h
  obtain ⟨-, -, format, hcookie, w, hpage, version, hversion, layout, hlayout, nWired,
    ⟨count, hcount, hnWired⟩, nUnwired, -, pageBases, -, sysout, -, wired, hwired, unwired, -,
    ho⟩ := h
  have hn : o.wiredMapEntries.length = nWired := by
    cases ho
    exact (World.readLoadMap_storable hwired).1
  have hformat : format = (.vlm, true) := by
    have hsecond : format.2 = true := by
      cases ho
      exact hswapped
    unfold cookieFormat at hcookie
    split at hcookie
    · cases hcookie
      cases hsecond
    · split at hcookie
      · cases hcookie
        rfl
      · split at hcookie
        · cases hcookie
          cases hsecond
        · cases hcookie
  subst hformat
  generalize hqs : headerOf f o.wiredMapEntries.length = qs at *
  have hne : qs ≠ [] := by
    intro hnil
    rw [hnil, List.length_nil] at hlength
    omega
  have hunread : (⟨f, buffer, -1, 0⟩ : World).currentPageNumber ≠ 0 := by
    change (-1 : Int) ≠ 0
    decide
  obtain ⟨w', hpage', hreading⟩ := hholds.start rfl hunread hne
  rw [hpage, Option.some_inj] at hpage'
  subst hpage'
  -- version and count are the data of the first two Qs
  have hfirst : w.readIvoryWorldFileQ 0 = some qs[0] :=
    hreading.readQ hholds 0 (by decide) (List.getElem?_eq_getElem (by omega))
  rw [hversion, Option.some_inj] at hfirst
  have hlayout' : headerLayout .vlm (dataOf qs 0) = some layout := by
    rw [← hlayout, dataOf, List.getD_eq_getElem _ _ (by omega), hfirst]
  have hsecond : w.headerQ 1 = some (dataOf qs 1) :=
    hreading.dataQ hholds 1 (by decide) (by decide) (by omega)
  have hwiredQ : layout.wiredCountQ = 1 := by
    obtain rfl | rfl := headerLayout_vlm hlayout' <;> rfl
  rw [hwiredQ, hsecond, Option.some_inj] at hcount
  rw [← hcount, ← hn] at hnWired
  obtain ⟨w', hopen, hfile⟩ := openWorldFile_of_qs self true hholds hlength hcookie hlayout'
    hnWired buffer
  rw [hlookup, Option.some_inj] at hopen
  exact ⟨layout, hcookie, hlayout', hnWired, w', hopen, hfile⟩

/-! ### Chunks of Qs -/

section Chunks

variable {σ : Type} {next : σ → Option (LispObj × σ)} {c : StackCache} {q : Nat → LispObj}

/-- The reader delivers `count` of the Qs `q`, from number `k` on. -/
def Delivers (next : σ → Option (LispObj × σ)) (q : Nat → LispObj) : Nat → Nat → σ → Prop
  | _, 0, _ => True
  | k, count + 1, r => ∃ r', next r = some (q k, r') ∧ Delivers next q (k + 1) count r'

theorem readChunk_spec {n rest j k : Nat} {chunk : Nat → LispObj} {r : σ}
    (h : Delivers next q k (n + rest) r) :
    ∃ chunk' r', readChunk next n j chunk r = some (chunk', r') ∧
      (∀ i, i < n → chunk' (j + i) = q (k + i)) ∧ (∀ i, i < j → chunk' i = chunk i) ∧
      Delivers next q (k + n) rest r' := by
  induction n generalizing j k chunk r with
  | zero =>
      rw [Nat.zero_add] at h
      exact ⟨chunk, r, rfl, fun i hi => absurd hi (Nat.not_lt_zero i), fun _ _ => rfl, h⟩
  | succ n ih =>
      rw [Nat.succ_add] at h
      obtain ⟨r₁, hnext, hrest⟩ := h
      obtain ⟨chunk', r', hread, hfilled, hkept, hlater⟩ :=
        @ih (j + 1) (k + 1) (Function.update chunk j (q k)) r₁ hrest
      refine ⟨chunk', r', ?_, ?_, ?_, ?_⟩
      · rw [readChunk, hnext]
        exact hread
      · intro i hi
        cases i with
        | zero =>
            rw [Nat.add_zero, hkept j (Nat.lt_succ_self j), Function.update_self]
            rfl
        | succ i =>
            have hlast := hfilled i (by omega)
            rw [show j + (i + 1) = j + 1 + i by omega, show k + (i + 1) = k + 1 + i by omega]
            exact hlast
      · intro i hi
        rw [hkept i (by omega), Function.update_of_ne (by omega)]
      · rw [show k + (n + 1) = k + 1 + n by omega]
        exact hlater

/-- All Qs of an entry are stored. -/
theorem loadChunks_spec {vma count k : Nat} {chunk : Nat → LispObj} {s : Storage} {r : σ}
    (h : Delivers next q k count r) (hend : vma + count < 2 ^ 32) :
    ∃ r', loadChunks next c vma count chunk s r =
      some (s.setWords (s.words.fill c vma count fun i => q (k + i)), r') := by
  induction hcount : count using Nat.strong_induction_on generalizing vma count k chunk s r with
  | _ total ih =>
    subst hcount
    rw [loadChunks]
    split
    · next hzero =>
      subst hzero
      rw [Words.fill_zero]
      exact ⟨r, rfl⟩
    · next hpos =>
      dsimp only
      generalize hn : min count 256 = n
      have hsplit : count = n + (count - n) := by omega
      rw [hsplit] at h
      obtain ⟨chunk', r₁, hread, hfilled, -, hlater⟩ :=
        @readChunk_spec _ _ _ n (count - n) 0 k chunk r h
      have hwrite : virtualMemoryWriteBlock c s.words vma n chunk' =
          s.words.fill c vma n fun i => q (k + i) := by
        have hreached : reachedCount c vma n = n := by
          unfold reachedCount
          rw [if_pos (by omega)]
        rw [virtualMemoryWriteBlock_eq (by omega) (by omega) (by omega), hreached]
        apply Words.fill_congr
        intro i hi
        rw [← hfilled i hi, Nat.zero_add]
      obtain ⟨r', hload⟩ := @ih (count - n) (by omega) (vma + n) (count - n) (k + n) chunk'
        (s.setWords (virtualMemoryWriteBlock c s.words vma n chunk')) r₁ hlater (by omega) rfl
      refine ⟨r', ?_⟩
      rw [hread]
      simp only [Option.bind_eq_bind, Option.bind_some]
      rw [Nat.mod_eq_of_lt (by omega), hload, hwrite]
      have hwords : ∀ w : Words, (s.setWords w).words = w := fun _ => rfl
      have hset : ∀ w w' : Words, (s.setWords w).setWords w' = s.setWords w' := fun _ _ => rfl
      rw [hwords, hset]
      have happend := @Words.fill_append c s.words vma (fun i => q (k + i)) n (count - n)
      rw [← hsplit] at happend
      rw [← happend]
      simp only [Nat.add_assoc]

end Chunks

/-! ### The pages of the swapped file -/

/-- A Q of the old file, by its number in the pages. -/
def swappedQ (f : WorldFile) (dataBase tagsBase number : Nat) : LispObj :=
  ⟨f.bytes (8192 * tagsBase + number), bswap32 (f.dataWord (8192 * dataBase + 4 * number))⟩

namespace SwappedPages

variable {p : SwappedPages} {dataBase tagsBase page pages number : Nat}

/-- All pages up to this one are in the file. -/
structure HoldsPages (f : WorldFile) (dataBase tagsBase pages : Nat) : Prop where
  size_lt : f.size < 2 ^ 31
  data : 8192 * (dataBase + 4 * pages) ≤ f.size
  tags : 8192 * (tagsBase + pages) ≤ f.size

/-- `number` Qs come before the next one, whose page or the one before is in the buffers. -/
structure Reading (p : SwappedPages) (f : WorldFile) (dataBase tagsBase page number : Nat) :
    Prop where
  file : p.file = f
  vlmDataPageBase : p.vlmDataPageBase = dataBase
  vlmTagsPageBase : p.vlmTagsPageBase = tagsBase
  allocated : p.allocated = true
  currentPageNumber : p.currentPageNumber = page
  currentQNumber_le : p.currentQNumber ≤ 8192
  number : number = 8192 * page + p.currentQNumber
  data : ∀ i, i < 32768 → p.vlmDataPage i = f.bytes (8192 * (dataBase + 4 * page) + i)
  tags : ∀ i, i < 8192 → p.vlmTagsPage i = f.bytes (8192 * (tagsBase + page) + i)

theorem seek_some {pageBase blocks : Nat} (h : 8192 * (pageBase + page * blocks) < 2 ^ 31) :
    seek pageBase page blocks = some (8192 * (pageBase + page * blocks)) := by
  have hoffset : toInt32 (8192 * (pageBase + (page : Int) * blocks)) =
      (8192 * (pageBase + page * blocks) : Nat) := by
    unfold toInt32
    push_cast
    omega
  unfold seek lseek
  rw [hoffset, if_pos (by omega), Int.toNat_natCast]

/-- A page that is not in the buffers is read. -/
theorem readPage_some (hne : p.currentPageNumber ≠ page) (halloc : p.allocated = true)
    (hholds : HoldsPages p.file p.vlmDataPageBase p.vlmTagsPageBase pages) (hpage : page < pages) :
    ∃ p', p.readPage page = some p' ∧ p'.currentQNumber = p.currentQNumber ∧
      ∀ q, q ≤ 8192 → Reading { p' with currentQNumber := q } p.file p.vlmDataPageBase
        p.vlmTagsPageBase page (8192 * page + q) := by
  have hlt := hholds.size_lt
  have hdataEnd := hholds.data
  have htagsEnd := hholds.tags
  have hheld : p.file.holds (8192 * (p.vlmDataPageBase + page * 4)) 32768 = true ∧
      p.file.holds (8192 * (p.vlmTagsPageBase + page * 1)) 8192 = true := by
    unfold WorldFile.holds
    rw [decide_eq_true_eq, decide_eq_true_eq]
    omega
  unfold readPage
  rw [if_neg hne]
  rw [show seek p.vlmDataPageBase page 4 = _ from seek_some (by omega),
    show seek p.vlmTagsPageBase page 1 = _ from seek_some (by omega)]
  simp only [Option.bind_eq_bind, Option.bind_some, hheld.1, hheld.2, guard, if_true, pure]
  refine ⟨_, rfl, rfl, ?_⟩
  intro q hq
  refine ⟨rfl, rfl, rfl, halloc, rfl, hq, rfl, ?_, ?_⟩
  · intro i _
    dsimp only
    rw [Nat.mul_comm page 4]
  · intro i _
    dsimp only
    rw [Nat.mul_one]

/-- The first page of an entry. -/
theorem readFirstPage (hnew : p.allocated = false)
    (hholds : HoldsPages p.file p.vlmDataPageBase p.vlmTagsPageBase pages) (hpage : page < pages) :
    ∃ p', p.readSwappedVLMWorldFilePage page = some p' ∧
      Reading { p' with currentQNumber := 0 } p.file p.vlmDataPageBase p.vlmTagsPageBase page
        (8192 * page) := by
  unfold readSwappedVLMWorldFilePage allocate
  rw [hnew, if_neg Bool.false_ne_true]
  obtain ⟨p', hread, -, hreading⟩ := @readPage_some
    { p with allocated := true, currentPageNumber := -1 } page pages (by
      dsimp only
      omega) rfl hholds hpage
  exact ⟨p', hread, hreading 0 (Nat.zero_le _)⟩

theorem Reading.next {f : WorldFile} (h : Reading p f dataBase tagsBase page number)
    (hholds : HoldsPages f dataBase tagsBase pages) (hlt : number < 8192 * pages) :
    ∃ p' page', p.readSwappedVLMWorldFileNextQ = some (swappedQ f dataBase tagsBase number, p') ∧
      Reading p' f dataBase tagsBase page' (number + 1) := by
  obtain ⟨rfl, rfl, rfl, halloc, hpage, hle, hnumber, hdata, htags⟩ := h
  -- the page of the Q is in the buffers
  obtain ⟨p₁, page₁, hadvance, hreading, hin⟩ : ∃ p₁ page₁,
      advancePages (p.currentQNumber / 8192) p = some p₁ ∧
        Reading p₁ p.file p.vlmDataPageBase p.vlmTagsPageBase page₁ number ∧
        p₁.currentQNumber < 8192 := by
    by_cases hfull : p.currentQNumber = 8192
    · obtain ⟨p', hread, hq, hreading⟩ := @readPage_some p (page + 1) pages (by
        rw [hpage]
        omega) halloc hholds (by omega)
      have hallocate : p.allocate = p := by
        unfold allocate
        rw [if_pos halloc]
      rw [hfull]
      simp only [Nat.reduceDiv, advancePages]
      rw [hpage, show (page : Int) + 1 = (page + 1 : Nat) by omega, readSwappedVLMWorldFilePage,
        hallocate, hread]
      simp only [Option.bind_eq_bind, Option.bind_some]
      refine ⟨_, page + 1, rfl, ?_, ?_⟩
      · rw [hq, hfull, show number = 8192 * (page + 1) + 0 by omega]
        exact hreading 0 (Nat.zero_le _)
      · dsimp only
        omega
    · refine ⟨p, page, ?_, ⟨rfl, rfl, rfl, halloc, hpage, hle, hnumber, hdata, htags⟩, by omega⟩
      rw [Nat.div_eq_of_lt (by omega)]
      rfl
  obtain ⟨hfile, hdataBase, htagsBase, halloc, hpage₁, -, hnumber₁, hdata₁, htags₁⟩ := hreading
  have hq : p₁.readSwappedVLMWorldFileQ p₁.currentQNumber =
      some (swappedQ p.file p.vlmDataPageBase p.vlmTagsPageBase number) := by
    unfold readSwappedVLMWorldFileQ swappedQ
    have hword : wordAt p₁.vlmDataPage (4 * p₁.currentQNumber) =
        p.file.dataWord (8192 * p.vlmDataPageBase + 4 * number) := by
      unfold wordAt WorldFile.dataWord
      rw [hdata₁ _ (by omega), hdata₁ _ (by omega), hdata₁ _ (by omega), hdata₁ _ (by omega)]
      rw [show 8192 * p.vlmDataPageBase + 4 * number =
        8192 * (p.vlmDataPageBase + 4 * page₁) + 4 * p₁.currentQNumber by omega]
      rfl
    rw [if_neg (by omega), htags₁ _ hin, hword]
    rw [show 8192 * p.vlmTagsPageBase + number =
      8192 * (p.vlmTagsPageBase + page₁) + p₁.currentQNumber by omega]
  refine ⟨{ p₁ with currentQNumber := p₁.currentQNumber + 1 }, page₁, ?_, ?_⟩
  · unfold readSwappedVLMWorldFileNextQ
    rw [hadvance]
    simp only [Option.bind_eq_bind, Option.bind_some, hq]
  · refine ⟨hfile, hdataBase, htagsBase, halloc, hpage₁, hin, ?_, hdata₁, htags₁⟩
    dsimp only
    omega

/-- The Qs of the pages come in their order. -/
theorem Reading.delivers {f : WorldFile} {count : Nat}
    (h : Reading p f dataBase tagsBase page number)
    (hholds : HoldsPages f dataBase tagsBase pages) (hle : number + count ≤ 8192 * pages) :
    Delivers readSwappedVLMWorldFileNextQ (swappedQ f dataBase tagsBase) number count p := by
  induction count generalizing p page number with
  | zero => trivial
  | succ count ih =>
      obtain ⟨p', page', hnext, hreading⟩ := h.next hholds (by omega)
      exact ⟨p', hnext, ih hreading (by omega)⟩

end SwappedPages

/-! ### Both ways to load -/

section Both

variable {o : OpenedWorld} {e : LoadMapEntry} {self : Nat} {buffer : Nat → BitVec 8}

/-- Loading the entry from either world leaves the same words, where the loader reaches memory
and not the stack cache. -/
def LoadsSame (o o' : OpenedWorld) (e : LoadMapEntry) : Prop :=
  ∀ c chunk page (t : Storage), e.address + e.count < 2 ^ 32 →
    (∀ i, i < e.count → c.contains (e.address + i) = false) →
    WholeWads t.memory e.address e.count →
    ∃ l l', Loader.vlmLoadMapData c chunk ⟨t, fun _ => ⟨o, o.swappedPages page⟩⟩ e = some l ∧
      Loader.vlmLoadMapData c chunk ⟨t, fun _ => ⟨o', o'.swappedPages page⟩⟩ e = some l' ∧
      ∀ i, i < e.count →
        l.storage.memory.dataSpace (e.address + i) = l'.storage.memory.dataSpace (e.address + i) ∧
        l.storage.memory.tagSpace (e.address + i) = l'.storage.memory.tagSpace (e.address + i)

/-- In the new file the words are reversed and the tags are as they were. -/
theorem SwappedFrom.words (hfrom : SwappedFrom o.vlmDataPageBase o.vlmTagsPageBase f f')
    (h : Swappable o f) (he : e ∈ o.wiredMapEntries) (hdata : e.opcode = .dataPages) {i : Nat}
    (hi : i < e.count) :
    (⟨f'.bytes (8192 * o.vlmTagsPageBase + (8192 * e.data.data.toNat + i)),
        f'.dataWord (8192 * o.vlmDataPageBase + 4 * (8192 * e.data.data.toNat + i))⟩ : LispObj) =
      swappedQ f o.vlmDataPageBase o.vlmTagsPageBase (8192 * e.data.data.toNat + i) := by
  have hheader := h.header
  obtain ⟨hdataEnd, htagsEnd, hapart⟩ := h.pages e he hdata
  have hcount : i < 8192 * e.pageCount := by
    unfold LoadMapEntry.pageCount
    omega
  unfold swappedQ
  generalize o.vlmDataPageBase = dataBase at *
  generalize o.vlmTagsPageBase = tagsBase at *
  have htag : f'.bytes (8192 * tagsBase + (8192 * e.data.data.toNat + i)) =
      f.bytes (8192 * tagsBase + (8192 * e.data.data.toNat + i)) := by
    obtain hbelow | habove := Nat.lt_or_ge tagsBase dataBase
    · exact hfrom.below _ (by omega) (by omega)
    · exact hfrom.above _ habove (by omega) (by omega)
  rw [htag, dataWord_swapped]
  intro j hj
  rw [hfrom.data _ (by omega) (by omega) (by omega)]
  congr 1
  omega

/-- Opening depends on the data of the Qs, and beyond the eighth on the whole Qs. -/
theorem decodeHeader_congr {byteSwapped byteSwapped' : Bool} {layout : HeaderLayout}
    {qs qs' : List LispObj} {w w' : World} (hdata : ∀ k, dataOf qs' k = dataOf qs k)
    (hdrop : qs'.drop 8 = qs.drop 8) :
    decodeHeader self byteSwapped' layout qs' w' =
      { decodeHeader self byteSwapped layout qs w with file := w', byteSwapped := byteSwapped' } := by
  unfold decodeHeader sysoutOf
  simp only [hdata, hdrop]

/-- The entry through the buffers of a page. -/
theorem swapped_load (hfile : o.file.file = f) (hswapped : o.byteSwapped = true)
    (h : Swappable o f) (he : e ∈ o.wiredMapEntries) (hdata : e.opcode = .dataPages)
    (hpos : 0 < e.count) (hend : e.address + e.count < 2 ^ 32) (c : StackCache)
    (chunk : Nat → LispObj) (page : Nat → BitVec 8) (t : Storage) :
    ∃ l, Loader.vlmLoadMapData c chunk ⟨t, fun _ => ⟨o, o.swappedPages page⟩⟩ e = some l ∧
      l.storage = (t.ensure e).setWords ((t.ensure e).words.fill c e.address e.count fun i =>
        swappedQ f o.vlmDataPageBase o.vlmTagsPageBase (8192 * e.data.data.toNat + i)) := by
  obtain ⟨hdataEnd, htagsEnd, -⟩ := h.pages e he hdata
  have hlt := h.size_lt
  have hcount : e.count ≤ 8192 * e.pageCount := by
    unfold LoadMapEntry.pageCount
    omega
  have hholds : SwappedPages.HoldsPages f o.vlmDataPageBase o.vlmTagsPageBase
      (e.data.data.toNat + e.pageCount) := ⟨hlt, hdataEnd, htagsEnd⟩
  have hint : toInt32 e.data.data.toNat = e.data.data.toNat := by
    unfold toInt32
    omega
  obtain ⟨p, hread, hreading⟩ := @SwappedPages.readFirstPage (o.swappedPages page)
    e.data.data.toNat (e.data.data.toNat + e.pageCount) rfl (by
      change SwappedPages.HoldsPages o.file.file _ _ _
      rw [hfile]
      exact hholds) (by omega)
  change SwappedPages.Reading _ o.file.file o.vlmDataPageBase o.vlmTagsPageBase _ _ at hreading
  rw [hfile] at hreading
  obtain ⟨p', hload⟩ := @loadChunks_spec _ _ c _ e.address e.count _ chunk (t.ensure e) _
    (hreading.delivers hholds
      (show 8192 * e.data.data.toNat + e.count ≤
        8192 * (e.data.data.toNat + e.pageCount) by omega)) hend
  refine ⟨⟨(t.ensure e).setWords ((t.ensure e).words.fill c e.address e.count fun i =>
      swappedQ f o.vlmDataPageBase o.vlmTagsPageBase (8192 * e.data.data.toNat + i)),
    Function.update (fun _ => ⟨o, o.swappedPages page⟩) e.world ⟨o, p'⟩⟩, ?_, by rw []⟩
  unfold Loader.vlmLoadMapData
  simp only [hdata, hswapped, if_true, hint, hread, Option.bind_eq_bind, Option.bind_some]
  rw [hload, Option.bind_some]

theorem Storage.setWords_data (s : Storage) (w : Words) (a : Nat) :
    (s.setWords w).memory.dataSpace a = (w.memory a).data := rfl

theorem Storage.setWords_tag (s : Storage) (w : Words) (a : Nat) :
    (s.setWords w).memory.tagSpace a = (w.memory a).tag := rfl

/-- What a filled extent holds away from the stack cache. -/
theorem Words.fill_word {c : StackCache} {chunk : Nat → LispObj} {w : Words} {vma count i : Nat}
    (hi : i < count) (hcache : c.contains (vma + i) = false) :
    (w.fill c vma count chunk).memory (vma + i) = chunk i := by
  have hin : ¬ c.contains (vma + i) = true ∧ vma ≤ vma + i ∧ vma + i < vma + count := by
    rw [hcache]
    exact ⟨Bool.false_ne_true, Nat.le_add_right vma i, by omega⟩
  have hsub : vma + i - vma = i := Nat.add_sub_cancel_left vma i
  dsimp only [Words.fill]
  rw [if_pos hin, hsub]

/-- The entry from a file in the native order is mapped. -/
theorem native_load {c : StackCache} {chunk : Nat → LispObj} {page : Nat → BitVec 8} {t : Storage}
    {m' : Memory} {next : Nat} (hnative : o.byteSwapped = false) (hdata : e.opcode = .dataPages)
    (hload : mapWorldLoad t.memory e.address e.count o.file.file
      (vlmOffset o.vlmDataPageBase e.data.data.toNat 4)
      (vlmOffset o.vlmTagsPageBase e.data.data.toNat 1) = some (m', next)) :
    Loader.vlmLoadMapData c chunk ⟨t, fun _ => ⟨o, o.swappedPages page⟩⟩ e =
      some ⟨{ t with memory := m' }, fun _ => ⟨o, o.swappedPages page⟩⟩ := by
  unfold Loader.vlmLoadMapData
  simp only [hdata, hnative, Bool.false_eq_true, if_false, hload, Option.bind_eq_bind,
    Option.bind_some]

/-- A swapped file with one page: the header, its tags, and four blocks of data. -/
def swappedPage : WorldFile where
  size := 49152
  bytes := fun i =>
    if i < 60 then
      ([163, 138, 137, 136, 129, 0, 128, 0, 1, 0, 0, 0, 2, 0, 0, 16].getD i 0) +
        if i = 46 then 1 else if i = 48 then 10 else 0
    else if i < 8192 then 0
    else BitVec.ofNat 8 i

end Both

end VM
