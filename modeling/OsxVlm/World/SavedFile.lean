import Mathlib
import OsxVlm.World.Canonicalize
import OsxVlm.World.OpenWorld

/-!
# The file of a world that was saved

The header, the pages of tags and the pages of data lie one behind the other, and every entry
has its own pages.  Each write leaves the rest of the file alone, so that in the end the file
holds the header and the words of all entries.
-/

namespace VM

variable {m : Memory} {f f' : WorldFile} {v : VLMWorld} {e : LoadMapEntry}
  {es : List LoadMapEntry} {page vma count offset : Nat}

/-! ### Words of a file -/

/-- The four bytes of a word. -/
theorem word_of_bytes (word : Integer) :
    word.extractLsb' (8 * 3) 8 ++ word.extractLsb' (8 * 2) 8 ++ word.extractLsb' (8 * 1) 8 ++
      word.extractLsb' (8 * 0) 8 = word :=
  wordAt_storeWord (fun _ => 0) 0 word

theorem write_dataWord {i : Nat} (hi : i < count) :
    (f.write offset (4 * count) (dataBytes m vma)).dataWord (offset + 4 * i) =
      m.dataSpace (vma + i) := by
  have hbyte : ∀ k, k < 4 →
      (f.write offset (4 * count) (dataBytes m vma)).bytes (offset + 4 * i + k) =
        (m.dataSpace (vma + i)).extractLsb' (8 * k) 8 := by
    intro k hk
    rw [Nat.add_assoc, write_inside (by omega)]
    unfold dataBytes
    rw [show (4 * i + k) / 4 = i by omega, show (4 * i + k) % 4 = k by omega]
  unfold WorldFile.dataWord
  rw [hbyte 3 (by decide), hbyte 2 (by decide), hbyte 1 (by decide),
    show (f.write offset (4 * count) (dataBytes m vma)).bytes (offset + 4 * i) = _ from
      hbyte 0 (by decide)]
  exact word_of_bytes _

/-! ### Pages of a canonical map -/

/-- The entries with the pages that they get, from `page` on. -/
def assignPages : Nat → List LoadMapEntry → List LoadMapEntry
  | _, [] => []
  | page, e :: es =>
      { e with data := ⟨typeFixnum, BitVec.ofNat 32 page⟩ } ::
        assignPages ((page + e.pageCount) % 2 ^ 32) es

theorem assignPages_length : (assignPages page es).length = es.length := by
  induction es generalizing page with
  | nil => rfl
  | cons e es ih => exact congrArg (· + 1) ih

theorem filePages_cons : filePages (e :: es) = e.pageCount + filePages es := by
  unfold filePages
  rw [List.map_cons, List.sum_cons]

/-- Where every entry is aligned, the loop assigns pages and nothing else. -/
theorem Canonicalizing.loop_aligned {virtualMemoryRead : Nat → LispObj}
    {malloc : Nat → LoadMapEntry} {s : Canonicalizing} (hi : s.i ≤ s.wiredMapEntries.length)
    (haligned : ∀ e ∈ s.rest, e.aligned) :
    (s.loop virtualMemoryRead malloc).wiredMapEntries.toList =
        s.done ++ assignPages s.pageNumber s.rest ∧
      (s.loop virtualMemoryRead malloc).wiredMapEntries.length = s.wiredMapEntries.length ∧
      (s.loop virtualMemoryRead malloc).pageNumber % 2 ^ 32 =
        (s.pageNumber + filePages s.rest) % 2 ^ 32 := by
  induction hrest : s.rest generalizing s with
  | nil =>
      have hlen : s.wiredMapEntries.length - s.i = 0 := by
        simpa [Canonicalizing.rest] using congrArg List.length hrest
      have hend : s.loop virtualMemoryRead malloc = s := by
        rw [Canonicalizing.loop, dif_neg (by omega)]
      rw [hend, toList_eq hi, hrest]
      exact ⟨rfl, rfl, rfl⟩
  | cons e es ih =>
      have hlt : s.i < s.wiredMapEntries.length := by
        by_contra hge
        have hlen : s.wiredMapEntries.length - s.i = 0 := by omega
        rw [Canonicalizing.rest, hlen] at hrest
        cases hrest
      have hcons := assign_rest hlt
      rw [hrest, List.cons.injEq] at hcons
      obtain ⟨rfl, hes⟩ := hcons
      rw [hrest, List.forall_mem_cons] at haligned
      obtain ⟨he, hall⟩ := haligned
      obtain ⟨hlist, hlength, hpage⟩ := @ih s.assign hlt (by rwa [← hes]) hes.symm
      rw [Canonicalizing.loop, dif_pos hlt, if_pos he]
      refine ⟨?_, hlength, ?_⟩
      · rw [hlist, assign_done, List.append_assoc]
        rfl
      · rw [hpage, filePages_cons, ← Nat.add_assoc]
        exact Nat.mod_add_mod _ _ _

/-! ### Writing the pages -/

/-- The tags of `pages` pages end before their data begins, and 32 bits hold all offsets. -/
structure VLMWorld.Room (v : VLMWorld) (pages : Nat) : Prop where
  tags : v.vlmTagsPageBase + pages ≤ v.vlmDataPageBase
  data : v.vlmDataPageBase + 4 * pages < 2 ^ 19

/-- The pages of the entry hold its words. -/
def HoldsEntry (v : VLMWorld) (m : Memory) (f : WorldFile) (e : LoadMapEntry) : Prop :=
  ∀ i, i < e.count →
    f.dataWord (vlmOffset v.vlmDataPageBase e.data.data.toNat 4 + 4 * i) =
        m.dataSpace (e.address + i) ∧
      f.bytes (vlmOffset v.vlmTagsPageBase e.data.data.toNat 1 + i) = m.tagSpace (e.address + i)

/-- The file is the same outside the tags and the data of pages from `first` up to `last`. -/
def SameOutside (v : VLMWorld) (first last : Nat) (f f' : WorldFile) : Prop :=
  ∀ i, i < 8192 * (v.vlmTagsPageBase + first) ∨
      8192 * (v.vlmTagsPageBase + last) ≤ i ∧ i < 8192 * (v.vlmDataPageBase + 4 * first) ∨
      8192 * (v.vlmDataPageBase + 4 * last) ≤ i →
    f'.bytes i = f.bytes i

theorem SameOutside.trans {f'' : WorldFile} {first middle last : Nat}
    (h : SameOutside v first middle f f') (h' : SameOutside v middle last f' f'')
    (hle : first ≤ middle) (hle' : middle ≤ last) : SameOutside v first last f f'' := by
  intro i hi
  rw [h' i (by omega), h i (by omega)]

/-- Later writes go to other pages. -/
theorem HoldsEntry.sameOutside {pages last : Nat} (h : HoldsEntry v m f e)
    (hroom : v.Room pages) (hlast : last ≤ pages)
    (hpage : e.data.data.toNat + e.pageCount ≤ page) (hle : page ≤ last)
    (hsame : SameOutside v page last f f') : HoldsEntry v m f' e := by
  have htags := hroom.tags
  have hdata := hroom.data
  intro i hi
  obtain ⟨hword, htag⟩ := h i hi
  have hcount : i < 8192 * e.pageCount := by
    unfold LoadMapEntry.pageCount
    omega
  rw [vlmOffset_eq (by omega)] at hword htag
  rw [vlmOffset_eq (by omega), vlmOffset_eq (by omega)]
  constructor
  · rw [← hword]
    apply dataWord_congr
    intro k hk
    apply hsame
    omega
  · rw [← htag]
    apply hsame
    omega

/-- One entry goes to its own pages. -/
theorem writeEntry_spec {pages : Nat} (hroom : v.Room pages)
    (hpage : e.data.data.toNat + e.pageCount ≤ pages)
    (hreadable : readable m e.address e.count = true) :
    ∃ f', v.writeEntry m e f = some f' ∧ f.size ≤ f'.size ∧ HoldsEntry v m f' e ∧
      SameOutside v e.data.data.toNat (e.data.data.toNat + e.pageCount) f f' := by
  have htags := hroom.tags
  have hdata := hroom.data
  have hcount : e.count ≤ 8192 * e.pageCount := by
    unfold LoadMapEntry.pageCount
    omega
  unfold VLMWorld.writeEntry
  rw [if_pos hreadable]
  refine ⟨_, rfl, size_write.trans size_write, ?_, ?_⟩
  · intro i hi
    rw [vlmOffset_eq (by omega), vlmOffset_eq (by omega)]
    refine ⟨?_, write_inside hi⟩
    rw [← write_dataWord hi]
    apply dataWord_congr
    intro k hk
    exact write_outside (by omega)
  · intro i hi
    rw [vlmOffset_eq (by omega), vlmOffset_eq (by omega)]
    rw [write_outside (by omega), write_outside (by omega)]

theorem writeEntries_spec {pages : Nat} (hroom : v.Room pages)
    (hpage : page + filePages es ≤ pages) (hes : ∀ e ∈ es, e.isData = true ∧
      readable m e.address e.count = true) :
    ∃ f', v.writeEntries m (assignPages page es) f = some f' ∧ f.size ≤ f'.size ∧
      (∀ e ∈ assignPages page es, HoldsEntry v m f' e) ∧
      SameOutside v page (page + filePages es) f f' := by
  induction es generalizing page f with
  | nil =>
      refine ⟨f, rfl, le_rfl, ?_, fun i _ => rfl⟩
      intro e he
      exact absurd he List.not_mem_nil
  | cons e es ih =>
      have hdata := hroom.data
      rw [List.forall_mem_cons] at hes
      obtain ⟨⟨hisData, hreadable⟩, hes⟩ := hes
      rw [filePages_cons] at hpage ⊢
      have hassigned : (BitVec.ofNat 32 page).toNat = page := by
        rw [BitVec.toNat_ofNat]
        omega
      have hnext : (page + e.pageCount) % 2 ^ 32 = page + e.pageCount := by omega
      generalize hassign : ({ e with data := ⟨typeFixnum, BitVec.ofNat 32 page⟩ } :
        LoadMapEntry) = e' at *
      have hpage' : e'.data.data.toNat = page := by rw [← hassign, hassigned]
      have hcount : e'.pageCount = e.pageCount := by
        rw [← hassign]
        rfl
      have hcons : assignPages page (e :: es) = e' :: assignPages (page + e.pageCount) es := by
        rw [assignPages, hnext, hassign]
      -- this entry, and then the others
      obtain ⟨f₁, hwrite, hsize, hholds, hsame⟩ := writeEntry_spec (m := m) (f := f)
        (e := e') hroom (by omega) (by
          rw [← hassign]
          exact hreadable)
      obtain ⟨f', hrest, hsize', hall, hsame'⟩ := @ih f₁ (page + e.pageCount) (by omega) hes
      rw [hpage', hcount] at hsame
      have htotal := hsame.trans hsame' (Nat.le_add_right _ _) (Nat.le_add_right _ _)
      rw [Nat.add_assoc] at hsame' htotal
      rw [hcons]
      refine ⟨f', ?_, hsize.trans hsize', ?_, ?_⟩
      · rw [VLMWorld.writeEntries, if_pos, hwrite, Option.bind_some, hrest]
        rw [← hassign]
        exact hisData
      · rw [List.forall_mem_cons]
        refine ⟨hholds.sameOutside hroom hpage ?_ ?_ hsame', hall⟩
        · omega
        · omega
      · exact htotal

/-! ### The file -/

section Size

variable {w w' : World} {q : LispObj} {qs : List LispObj}

theorem World.size_flush (h : w.writeIvoryWorldFilePage = some w') :
    w.file.size ≤ w'.file.size := by
  unfold World.writeIvoryWorldFilePage at h
  split at h
  · cases h
    exact le_rfl
  · split at h
    · cases h
    · cases h
      exact le_max_left _ _

theorem World.size_nextQ (h : w.writeIvoryWorldFileNextQ q = some w') :
    w.file.size ≤ w'.file.size := by
  unfold World.writeIvoryWorldFileNextQ at h
  split at h
  · obtain ⟨w₁, hflush, rfl⟩ := Option.map_eq_some_iff.mp h
    have hle := World.size_flush hflush
    exact hle
  · cases h
    exact le_rfl

theorem World.size_writeQs (h : w.writeQs qs = some w') : w.file.size ≤ w'.file.size := by
  induction qs generalizing w with
  | nil =>
      cases h
      exact le_rfl
  | cons q qs ih =>
      obtain ⟨w₁, hnext, hrest⟩ := Option.bind_eq_some_iff.mp h
      exact (World.size_nextQ hnext).trans (ih hrest)

/-- A file does not shrink while Qs are written. -/
theorem World.size_write (h : w.write qs = some w') : w.file.size ≤ w'.file.size := by
  obtain ⟨w₁, hqs, hflush⟩ := Option.bind_eq_some_iff.mp h
  have hle := World.size_writeQs hqs
  exact hle.trans (World.size_flush hflush)

end Size

theorem assignPages_concat (hpage : page + filePages es < 2 ^ 32) :
    assignPages page (es ++ [e]) =
      assignPages page es ++
        [{ e with data := ⟨typeFixnum, BitVec.ofNat 32 (page + filePages es)⟩ }] := by
  induction es generalizing page with
  | nil => rfl
  | cons e' es ih =>
      rw [filePages_cons, ← Nat.add_assoc] at hpage
      have hnext : (page + e'.pageCount) % 2 ^ 32 = page + e'.pageCount := by omega
      rw [List.cons_append, assignPages, assignPages, hnext, ih hpage, filePages_cons,
        ← Nat.add_assoc]
      rfl

/-- The pages that are allocated before are all that are written. -/
theorem size_preallocate (hne : es ≠ []) (hv : v.wiredMapEntries = assignPages 0 es)
    (hdata : ∀ e ∈ es, e.isData = true) (hroom : v.Room (filePages es)) :
    8192 * (v.vlmDataPageBase + 4 * filePages es) ≤ (v.preallocate f).size := by
  obtain rfl | ⟨front, e, rfl⟩ := List.eq_nil_or_concat' es
  · exact absurd rfl hne
  · have hdata' := hroom.data
    have he : e.isData = true := hdata e List.mem_concat_self
    have htotal : filePages (front ++ [e]) = filePages front + e.pageCount := by
      unfold filePages
      rw [List.map_append, List.sum_append]
      simp
    rw [htotal] at hdata' ⊢
    have hlast : v.wiredMapEntries.reverse.find? LoadMapEntry.isData =
        some { e with data := ⟨typeFixnum, BitVec.ofNat 32 (0 + filePages front)⟩ } := by
      rw [hv, assignPages_concat (by omega), List.reverse_concat]
      exact List.find?_cons_of_pos he
    unfold VLMWorld.preallocate
    rw [hlast]
    simp only [WorldFile.ftruncate, VLMWorld.nBlocks, BitVec.toNat_ofNat]
    unfold LoadMapEntry.pageCount at *
    omega

/-- A header stays where the bytes of its pages do. -/
theorem World.Holds.congr {qs : List LispObj} (h : World.Holds f qs) (hsize : f.size ≤ f'.size)
    (hbytes : ∀ i, i < 1280 * ((qs.length + 255) / 256) → f'.bytes i = f.bytes i) :
    World.Holds f' qs := by
  refine ⟨?_, h.size.trans hsize, h.fits⟩
  intro number q hq
  have hnumber : number < qs.length := (List.getElem?_eq_some_iff.mp hq).1
  rw [← h.inFile number q hq]
  apply loadQ_congr
  intro i hi
  have hlt := qBytes_lt (Nat.mod_lt number (by decide)) hi
  apply hbytes
  omega

/-! ### The whole save -/

/-- The pages of the entries in the file. -/
def savedPages (entries : List SaveWorldEntry) : Nat :=
  (entries.map fun e => (e.extent + 8191) / 8192).sum

/-- Regions that start on page boundaries and do not overlap, in memory that can be read, with
room for the header in its blocks and for all offsets in 32 bits. -/
structure Saveable (m : Memory) (entries : List SaveWorldEntry) : Prop where
  aligned : ∀ e ∈ entries, e.address % 8192 = 0
  extent_pos : ∀ e ∈ entries, 0 < e.extent
  extent_lt : ∀ e ∈ entries, e.extent < 2 ^ 24
  end_le : ∀ e ∈ entries, e.address + e.extent ≤ 2 ^ 32
  disjoint : entries.Pairwise fun e e' =>
    e.address + e.extent ≤ e'.address ∨ e'.address + e'.extent ≤ e.address
  readable : ∀ e ∈ entries, readable m e.address e.extent = true
  header : headerFits entries.length
  room : headerBlocks entries.length + 5 * savedPages entries < 2 ^ 19

section Save

variable {entries : List SaveWorldEntry} {malloc : Nat → LoadMapEntry}

theorem savedMap_toList (malloc : Nat → LoadMapEntry) (entries : List SaveWorldEntry) :
    (savedMap malloc entries).toList = entries.mapIdx fun i e => e.mapEntry (malloc i) := by
  apply List.ext_getElem?
  intro i
  simp only [MapEntries.toList, savedMap, List.getElem?_map, List.getElem?_mapIdx]
  by_cases hi : i < entries.length
  · rw [List.getElem?_range hi, List.getElem?_eq_getElem hi]
    simp [hi]
  · rw [List.getElem?_eq_none (by simpa using hi), List.getElem?_eq_none (by omega)]
    rfl

/-- The entries of the map and the regions they are for. -/
theorem mem_savedMap : e ∈ (savedMap malloc entries).toList ↔
    ∃ (i : Nat) (region : SaveWorldEntry), entries[i]? = some region ∧
      region.mapEntry (malloc i) = e := by
  rw [savedMap_toList, List.mem_iff_getElem?]
  simp only [List.getElem?_mapIdx, Option.map_eq_some_iff]

theorem length_le_savedPages (hpos : ∀ e ∈ entries, 0 < e.extent) :
    entries.length ≤ savedPages entries := by
  unfold savedPages
  induction entries with
  | nil => exact le_rfl
  | cons region entries ih =>
      rw [List.forall_mem_cons] at hpos
      have hrest := ih hpos.2
      have hfirst := hpos.1
      rw [List.length_cons, List.map_cons, List.sum_cons]
      omega

theorem filePages_savedMap (hlt : ∀ e ∈ entries, e.extent < 2 ^ 24) :
    filePages (savedMap malloc entries).toList = savedPages entries := by
  unfold filePages savedPages
  rw [savedMap_toList]
  congr 1
  apply List.ext_getElem?
  intro i
  simp only [List.getElem?_map, List.getElem?_mapIdx, Option.map_map]
  cases hregion : entries[i]? with
  | none => rw [Option.map_none, Option.map_none]
  | some region =>
      have hcount := hlt region (List.mem_of_getElem? hregion)
      have hpages : (region.mapEntry (malloc i)).pageCount = (region.extent + 8191) / 8192 := by
        unfold LoadMapEntry.pageCount SaveWorldEntry.mapEntry
        dsimp only
        rw [Nat.mod_eq_of_lt hcount]
      simp only [Option.map_some, Function.comp_apply, hpages]

/-- The map that is saved, before its pages are assigned. -/
theorem Saveable.mem (h : Saveable m entries) (he : e ∈ (savedMap malloc entries).toList) :
    ∃ region ∈ entries, e.address = region.address ∧ e.count = region.extent ∧
      e.opcode = .dataPages := by
  obtain ⟨i, region, hregion, rfl⟩ := mem_savedMap.mp he
  have hmem := List.mem_of_getElem? hregion
  exact ⟨region, hmem, rfl, Nat.mod_eq_of_lt (h.extent_lt region hmem), rfl⟩

theorem mem_assignPages (he : e ∈ assignPages page es) :
    ∃ e' ∈ es, e.address = e'.address ∧ e.count = e'.count ∧ e.opcode = e'.opcode := by
  induction es generalizing page with
  | nil => exact absurd he List.not_mem_nil
  | cons e' es ih =>
      rw [assignPages, List.mem_cons] at he
      obtain rfl | he := he
      · exact ⟨e', List.mem_cons_self, rfl, rfl, rfl⟩
      · obtain ⟨e₁, he₁, heq⟩ := ih he
        exact ⟨e₁, List.mem_cons_of_mem _ he₁, heq⟩

/-- The world that the canonical map of the regions makes. -/
def savedWorld (malloc : Nat → LoadMapEntry) (entries : List SaveWorldEntry) : VLMWorld where
  wiredMapEntries := assignPages 0 (savedMap malloc entries).toList
  vlmDataPageBase := headerBlocks entries.length + savedPages entries
  vlmTagsPageBase := headerBlocks entries.length

theorem canonicalWorld_saved (h : Saveable m entries) (virtualMemoryRead : Nat → LispObj)
    (malloc : Nat → LoadMapEntry) :
    canonicalWorld virtualMemoryRead malloc (savedMap malloc entries) =
      some (savedWorld malloc entries) := by
  have hroom := h.room
  have hrest : Canonicalizing.rest ⟨savedMap malloc entries, 0, 0, true⟩ =
      (savedMap malloc entries).toList := by
    simp [Canonicalizing.rest, MapEntries.toList]
  obtain ⟨hlist, hlength, hpage⟩ := @Canonicalizing.loop_aligned virtualMemoryRead malloc
    ⟨savedMap malloc entries, 0, 0, true⟩ (Nat.zero_le _) (by
      intro e he
      rw [hrest] at he
      obtain ⟨region, hregion, haddress, -⟩ := h.mem he
      unfold LoadMapEntry.aligned
      rw [haddress]
      exact h.aligned region hregion)
  rw [hrest] at hlist hpage
  rw [filePages_savedMap h.extent_lt, Nat.zero_add] at hpage
  change _ = entries.length at hlength
  unfold canonicalWorld savedWorld
  dsimp only
  rw [hlength, if_pos h.header, hlist, Nat.add_mod, hpage]
  congr 2
  rw [← Nat.add_mod]
  exact Nat.mod_eq_of_lt (by omega)

theorem savedWorld_room (h : Saveable m entries) :
    (savedWorld malloc entries).Room (savedPages entries) := by
  have hroom := h.room
  constructor
  · exact le_rfl
  · simp only [savedWorld]
    omega

theorem savedWorld_storable (h : Saveable m entries) :
    (savedWorld malloc entries).Storable := by
  have hroom := h.room
  have hheader := h.header
  have hlength := length_le_savedPages h.extent_pos
  constructor
  · intro e he
    obtain ⟨e', he', haddress, hcount, hopcode⟩ := mem_assignPages he
    obtain ⟨region, hregion, haddress', hcount', hopcode'⟩ := h.mem he'
    have hend := h.end_le region hregion
    have hpos := h.extent_pos region hregion
    have hlt := h.extent_lt region hregion
    rw [hopcode'] at hopcode
    refine ⟨by omega, by omega, ?_, ?_⟩
    · rw [hopcode]
      rfl
    · rw [hopcode]
      decide
  · have hsame : (savedWorld malloc entries).wiredMapEntries.length = entries.length := by
      unfold savedWorld
      rw [assignPages_length, savedMap_toList, List.length_mapIdx]
    rw [hsame]
    unfold World.maximumPages
    omega
  · simp only [savedWorld]
    omega
  · unfold headerFits at hheader
    simp only [savedWorld]
    omega

/-- What the file of a save is. -/
structure SavedFile (m : Memory) (v : VLMWorld) (s : SystemComm) (f : WorldFile) : Prop where
  header : World.Holds f (v.headerQs s)
  entries : ∀ e ∈ v.wiredMapEntries, HoldsEntry v m f e
  size : ∀ e ∈ v.wiredMapEntries,
    vlmOffset v.vlmDataPageBase e.data.data.toNat 4 + 4 * e.count ≤ f.size ∧
      vlmOffset v.vlmTagsPageBase e.data.data.toNat 1 + e.count ≤ f.size

/-- The pages of an entry are among those that are assigned. -/
theorem page_of_mem_assignPages (hpage : page + filePages es < 2 ^ 32)
    (he : e ∈ assignPages page es) :
    e.data.data.toNat + e.pageCount ≤ page + filePages es := by
  induction es generalizing page with
  | nil => exact absurd he List.not_mem_nil
  | cons e' es ih =>
      rw [filePages_cons, ← Nat.add_assoc] at hpage ⊢
      rw [assignPages, List.mem_cons, Nat.mod_eq_of_lt (by omega)] at he
      obtain rfl | he := he
      · have hassigned : (BitVec.ofNat 32 page).toNat = page := by
          rw [BitVec.toNat_ofNat]
          omega
        dsimp only
        rw [hassigned]
        exact Nat.le_add_right _ _
      · exact ih hpage he

/-- The header ends before the tags. -/
theorem headerQs_end (h : Saveable m entries) (s : SystemComm) :
    1280 * ((((savedWorld malloc entries).headerQs s).length + 255) / 256) ≤
      8192 * headerBlocks entries.length := by
  have hroom := h.room
  have hlength := length_le_savedPages h.extent_pos
  have hsame : (savedWorld malloc entries).wiredMapEntries.length = entries.length := by
    unfold savedWorld
    rw [assignPages_length, savedMap_toList, List.length_mapIdx]
  rw [headerQs_length, hsame]
  have hshort : entries.length < 2 ^ 17 := by omega
  generalize entries.length = n at hshort
  unfold headerBlocks
  dsimp only
  rw [Nat.mod_eq_of_lt (show 8 + 3 * n < 2 ^ 32 by omega),
    Nat.mod_eq_of_lt (show 8 + 3 * n + 255 < 2 ^ 32 by omega),
    Nat.mod_eq_of_lt (show (8 + 3 * n + 255) / 256 * 1280 + 8191 < 2 ^ 32 by omega)]
  omega

theorem saveWorld_file (h : Saveable m entries) (virtualMemoryRead : Nat → LispObj)
    (malloc : Nat → LoadMapEntry) (buffer : Nat → BitVec 8) (s : SystemComm) :
    ∃ f, saveWorld m virtualMemoryRead malloc buffer s entries = some f ∧
      SavedFile m (savedWorld malloc entries) s f := by
  have hroom : (savedWorld malloc entries).Room (savedPages entries) := savedWorld_room h
  have hstorable : (savedWorld malloc entries).Storable := savedWorld_storable h
  have hpages : filePages (savedMap malloc entries).toList = savedPages entries :=
    filePages_savedMap h.extent_lt
  have hes : ∀ e ∈ (savedMap malloc entries).toList, e.isData = true ∧
      readable m e.address e.count = true := by
    intro e he
    obtain ⟨region, hregion, haddress, hcount, hopcode⟩ := h.mem he
    rw [haddress, hcount]
    exact ⟨decide_eq_true hopcode, h.readable region hregion⟩
  -- the header
  have hne : (savedWorld malloc entries).headerQs s ≠ [] := by
    unfold VLMWorld.headerQs
    exact List.cons_ne_nil _ _
  obtain ⟨w, hw, hholds, -⟩ := World.write_holds
    { (⟨.empty, buffer, -1, 0⟩ : World) with
      file := (savedWorld malloc entries).preallocate .empty } hne (by
    rw [headerQs_length]
    exact hstorable.length_le)
  -- the pages
  obtain ⟨f, hf, hsize, hentries, hsame⟩ := @writeEntries_spec m w.file
    (savedWorld malloc entries) (savedMap malloc entries).toList 0 (savedPages entries) hroom
    (by omega) hes
  refine ⟨f, ?_, ?_, hentries, ?_⟩
  · unfold saveWorld
    rw [canonicalWorld_saved h]
    simp only [Option.bind_eq_bind, Option.bind_some]
    rw [VLMWorld.writeVLMWorldFileHeader, hw]
    exact hf
  · apply hholds.congr hsize
    intro i hi
    apply hsame
    left
    exact hi.trans_le (headerQs_end h s)
  · intro e he
    have hpage := page_of_mem_assignPages (by
      have := hroom.data
      omega) he
    have hcount : e.count ≤ 8192 * e.pageCount := by
      unfold LoadMapEntry.pageCount
      omega
    have hallocated : 8192 * ((savedWorld malloc entries).vlmDataPageBase +
        4 * savedPages entries) ≤ f.size := by
      rw [← hpages]
      refine (size_preallocate (f := .empty) ?_ rfl (fun e he => (hes e he).1) ?_).trans
        ((World.size_write hw).trans hsize)
      · intro hnil
        rw [savedWorld, hnil] at he
        exact List.not_mem_nil he
      · rw [hpages]
        exact hroom
    have htags := hroom.tags
    have hdata := hroom.data
    rw [Nat.zero_add, hpages] at hpage
    rw [vlmOffset_eq (by omega), vlmOffset_eq (by omega)]
    omega

end Save

end VM
