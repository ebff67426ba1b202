import Mathlib
import OsxVlm.World.PageRoundTrip
import OsxVlm.World.SaveWorld

/-!
# A header that was written is read back

Writing and opening agree on where each Q is, on the fields of the words that hold two
numbers, and on the cookie, which nobody writes: it is made of the tags of four Qs.
-/

namespace VM

variable {f : WorldFile} {w w' : World} {v : VLMWorld} {s : SystemComm} {qs : List LispObj}
  {q : LispObj} {page n : Nat} {self : Nat} {e : LoadMapEntry} {es : List LoadMapEntry}

/-! ### Words of two fields -/

/-- The entry fits the words of a load map. -/
structure LoadMapEntry.Storable (e : LoadMapEntry) : Prop where
  address_lt : e.address < 2 ^ 32
  count_lt : e.count < 2 ^ 24
  opcode : LoadMapEntryOpcode.ofCode e.opcode.code = e.opcode
  code_lt : e.opcode.code < 2 ^ 8

theorem LoadMapEntry.Storable.op_toNat (h : e.Storable) :
    e.op.toNat = e.count + 2 ^ 24 * e.opcode.code := by
  have hcount := h.count_lt
  have hcode := h.code_lt
  unfold LoadMapEntry.op
  rw [BitVec.toNat_ofNat, Nat.mod_eq_of_lt hcount, Nat.mod_eq_of_lt hcode]
  omega

theorem LoadMapEntry.Storable.opCount_op (h : e.Storable) : opCount e.op = e.count := by
  have hcount := h.count_lt
  unfold opCount
  rw [h.op_toNat]
  omega

theorem LoadMapEntry.Storable.opOpcode_op (h : e.Storable) : opOpcode e.op = e.opcode := by
  have hcount := h.count_lt
  have hcode : e.op.toNat / 2 ^ 24 = e.opcode.code := by
    rw [h.op_toNat]
    omega
  unfold opOpcode
  rw [hcode, h.opcode]

theorem vlmPageBases_data {dataPageBase tagsPageBase : Nat} (hdata : dataPageBase < 2 ^ 28) :
    (vlmPageBases dataPageBase tagsPageBase).toNat % 2 ^ 28 = dataPageBase := by
  unfold vlmPageBases
  rw [BitVec.toNat_ofNat]
  omega

theorem vlmPageBases_tags {dataPageBase tagsPageBase : Nat} (hdata : dataPageBase < 2 ^ 28)
    (htags : tagsPageBase < 2 ^ 4) :
    (vlmPageBases dataPageBase tagsPageBase).toNat / 2 ^ 28 = tagsPageBase := by
  unfold vlmPageBases
  rw [BitVec.toNat_ofNat]
  omega

/-! ### Reading from the middle of a page -/

namespace World

/-- Reading may go on from any Q of the page. -/
theorem Reading.seek (h : Reading w f page n) (qNumber : Nat) (hq : qNumber ≤ 256) :
    Reading { w with currentQNumber := qNumber } f page (256 * page + qNumber) := by
  constructor
  · exact h.file
  · exact h.currentPageNumber
  · exact hq
  · rfl
  · exact h.buffer

/-- A Q of the first page, by its number. -/
theorem Reading.readQ (h : Reading w f 0 n) (hholds : Holds f qs) (qNumber : Nat)
    (hlt : qNumber < 256) (hq : qs[qNumber]? = some q) :
    w.readIvoryWorldFileQ qNumber = some q := by
  have hin := hholds.inFile qNumber q hq
  unfold InFile at hin
  rw [Nat.div_eq_of_lt hlt, Nat.mod_eq_of_lt hlt] at hin
  unfold readIvoryWorldFileQ
  rw [if_neg (by omega), ← hin]
  congr 1
  apply loadQ_congr
  intro i hi
  exact h.buffer i (qBytes_lt hlt hi)

theorem Reading.headerQ (h : Reading w f 0 n) (hholds : Holds f qs) (qNumber : Nat)
    (hpos : qNumber ≠ 0) (hlt : qNumber < 256) (hq : qs[qNumber]? = some q) :
    w.headerQ qNumber = some q.data := by
  unfold World.headerQ
  rw [if_neg hpos, h.readQ hholds qNumber hlt hq]
  rfl

/-- The entries that Qs stand for, three for each. -/
def decodeEntries (self : Nat) : List LispObj → List LoadMapEntry
  | address :: op :: data :: qs =>
      ⟨address.data.toNat, opOpcode op.data, opCount op.data, data, self⟩ :: decodeEntries self qs
  | _ => []

/-- The entries from Q number `n` on. -/
theorem Reading.readLoadMap (self : Nat) (h : Reading w f page n) (hholds : Holds f qs) {k : Nat}
    (hk : n + 3 * k ≤ qs.length) :
    ∃ w', w.readLoadMap self k = some (decodeEntries self ((qs.drop n).take (3 * k)), w') ∧
      w'.file = f := by
  induction k generalizing w page n with
  | zero =>
      rw [Nat.mul_zero, List.take_zero]
      exact ⟨w, rfl, h.file⟩
  | succ k ih =>
      have hdrop : qs.drop n = qs[n] :: qs[n + 1] :: qs[n + 2] :: qs.drop (n + 3) := by
        rw [List.drop_eq_getElem_cons (by omega), List.drop_eq_getElem_cons (by omega),
          List.drop_eq_getElem_cons (by omega)]
      -- the three Qs of the entry
      obtain ⟨w₁, page₁, haddress, hreading₁, -⟩ :=
        h.next hholds (List.getElem?_eq_getElem (show n < qs.length by omega))
      obtain ⟨w₂, page₂, hop, hreading₂, -⟩ :=
        hreading₁.next hholds (List.getElem?_eq_getElem (show n + 1 < qs.length by omega))
      obtain ⟨w₃, page₃, hdata, hreading₃, -⟩ :=
        hreading₂.next hholds (List.getElem?_eq_getElem (show n + 2 < qs.length by omega))
      obtain ⟨w', hrest, hfile⟩ := ih hreading₃ (by omega)
      refine ⟨w', ?_, hfile⟩
      rw [World.readLoadMap, haddress]
      simp only [Option.bind_eq_bind, Option.bind_some, hop, hdata, hrest]
      rw [hdrop, Nat.mul_succ, List.take_succ_cons, List.take_succ_cons, List.take_succ_cons]
      rfl

/-- A map that was written is read as it was. -/
theorem decodeEntries_entryQs (self : Nat) (hes : ∀ e ∈ es, e.Storable) :
    decodeEntries self (es.flatMap VLMWorld.entryQs) =
      es.map fun e => { e with world := self } := by
  induction es with
  | nil => rfl
  | cons e es ih =>
      rw [List.forall_mem_cons] at hes
      obtain ⟨he, hes⟩ := hes
      rw [List.flatMap_cons, List.map_cons, ← ih hes, VLMWorld.entryQs]
      simp only [List.cons_append, List.nil_append, decodeEntries, he.opCount_op, he.opOpcode_op,
        BitVec.toNat_ofNat, Nat.mod_eq_of_lt he.address_lt]

end World

/-! ### Any header -/

/-- The data of a Q. -/
def dataOf (qs : List LispObj) (qNumber : Nat) : Integer := (qs.getD qNumber ⟨0, 0⟩).data

/-- A Q of the sysout data, if the header has it. -/
def sysoutOf (layout : HeaderLayout) (qs : List LispObj) (k : Nat) : Integer :=
  if layout.firstSysoutQ = 0 then 0 else dataOf qs (layout.firstSysoutQ + k)

/-- What a VLM world is opened to, by the Qs of its header. -/
def decodeHeader (self : Nat) (byteSwapped : Bool) (layout : HeaderLayout) (qs : List LispObj)
    (w : World) : OpenedWorld where
  file := w
  format := .vlm
  byteSwapped := byteSwapped
  vlmDataPageBase := (dataOf qs layout.pagesBaseQ).toNat % 2 ^ 28
  vlmTagsPageBase := (dataOf qs layout.pagesBaseQ).toNat / 2 ^ 28
  sysoutGeneration := sysoutOf layout qs 0
  sysoutTimestamp1 := sysoutOf layout qs 1
  sysoutTimestamp2 := sysoutOf layout qs 2
  sysoutParentTimestamp1 := sysoutOf layout qs 3
  sysoutParentTimestamp2 := sysoutOf layout qs 4
  wiredMapEntries := World.decodeEntries self (qs.drop 8)
  unwiredMapEntries := []

theorem headerLayout_vlm {version : Integer} {layout : HeaderLayout}
    (h : headerLayout .vlm version = some layout) :
    layout = ⟨1, 0, 3, 0, 8⟩ ∨ layout = ⟨1, 0, 2, 3, 8⟩ := by
  unfold headerLayout at h
  dsimp only at h
  split at h
  · cases h
    exact Or.inl rfl
  · split at h
    · cases h
      exact Or.inr rfl
    · cases h

theorem World.Reading.dataQ (h : World.Reading w f 0 n) (hholds : World.Holds f qs)
    (qNumber : Nat) (hpos : qNumber ≠ 0) (hlt : qNumber < 256) (hlength : qNumber < qs.length) :
    w.headerQ qNumber = some (dataOf qs qNumber) := by
  rw [h.headerQ hholds qNumber hpos hlt (List.getElem?_eq_getElem hlength)]
  unfold dataOf
  rw [List.getD_eq_getElem _ _ hlength]

/-- The sysout Qs of either layout. -/
theorem World.Reading.readSysout {layout : HeaderLayout} {version : Integer}
    (h : World.Reading w f 0 n) (hholds : World.Holds f qs)
    (hlayout : headerLayout .vlm version = some layout) (hlength : 8 ≤ qs.length) :
    ∃ sysout w' n', w.readSysout layout.firstSysoutQ = some (sysout, w') ∧
      World.Reading w' f 0 n' ∧ ∀ k, k < 5 → sysout.getD k 0 = sysoutOf layout qs k := by
  obtain rfl | rfl := headerLayout_vlm hlayout
  · refine ⟨_, w, n, rfl, h, ?_⟩
    intro k hk
    rw [List.getD_replicate _ hk]
    rfl
  · obtain ⟨w', page, hqs, hreading, -⟩ :=
      (h.seek 3 (by decide)).readQs hholds (k := 5) (by omega)
    have hnumber := hreading.number
    obtain rfl : page = 0 := by omega
    refine ⟨_, w', _, congrArg (Option.map fun r : List LispObj × World =>
      (r.1.map LispObj.data, r.2)) hqs, hreading, ?_⟩
    intro k hk
    have hlt : 3 + k < qs.length := by omega
    change ((List.take 5 (List.drop 3 qs)).map LispObj.data).getD k 0 = dataOf qs (3 + k)
    unfold dataOf
    rw [List.getD_eq_getElem _ _ hlt, List.getD_eq_getElem _ _ (by
      rw [List.length_map, List.length_take, List.length_drop]
      omega), List.getElem_map, List.getElem_take, List.getElem_drop]

/-- Reading a page leaves the number of the next Q. -/
theorem World.readIvoryWorldFilePage_currentQNumber {pageNumber : Int}
    (h : w.readIvoryWorldFilePage pageNumber = some w') :
    w'.currentQNumber = w.currentQNumber := by
  unfold World.readIvoryWorldFilePage at h
  split at h
  · cases h
    rfl
  · split at h
    · cases h
    · split at h
      · cases h
        rfl
      · cases h

theorem openWorldFile_of_qs (self : Nat) (byteSwapped : Bool) {layout : HeaderLayout}
    (hholds : World.Holds f qs) (hlength : qs.length = 8 + 3 * n)
    (hcookie : cookieFormat (wordAt f.bytes 0) = some (.vlm, byteSwapped))
    (hlayout : headerLayout .vlm (dataOf qs 0) = some layout)
    (hcount : mapLength (dataOf qs 1) = some n) (buffer : Nat → BitVec 8) :
    ∃ w, openWorldFile self buffer f = some (decodeHeader self byteSwapped layout qs w) ∧
      w.file = f := by
  have hsize := hholds.size
  have hne : qs ≠ [] := by
    intro h
    rw [h, List.length_nil] at hlength
    omega
  have hunread : (⟨f, buffer, -1, 0⟩ : World).currentPageNumber ≠ 0 := by
    change (-1 : Int) ≠ 0
    decide
  obtain ⟨w, hpage, hstart⟩ := hholds.start rfl hunread hne
  have hzeroQ : w.currentQNumber = 0 := World.readIvoryWorldFilePage_currentQNumber hpage
  have hsame : { w with currentQNumber := 0 } = w := by rw [← hzeroQ]
  rw [hsame] at hstart
  have hreading : World.Reading w f 0 0 := hstart
  have hversion : w.readIvoryWorldFileQ 0 = some qs[0] :=
    hreading.readQ hholds 0 (by decide) (List.getElem?_eq_getElem (by omega))
  have hlayout' : headerLayout .vlm qs[0].data = some layout := by
    rw [← hlayout, dataOf, List.getD_eq_getElem _ _ (by omega)]
  have hwired : w.headerQ 1 = some (dataOf qs 1) :=
    hreading.dataQ hholds 1 (by decide) (by decide) (by omega)
  have hbases : w.headerQ layout.pagesBaseQ = some (dataOf qs layout.pagesBaseQ) := by
    obtain rfl | rfl := headerLayout_vlm hlayout
    · exact hreading.dataQ hholds 3 (by decide) (by decide) (by omega)
    · exact hreading.dataQ hholds 2 (by decide) (by decide) (by omega)
  have hwiredQ : layout.wiredCountQ = 1 ∧ layout.unwiredCountQ = 0 ∧ layout.firstMapQ = 8 := by
    obtain rfl | rfl := headerLayout_vlm hlayout <;> exact ⟨rfl, rfl, rfl⟩
  obtain ⟨hwiredQ, hunwiredQ, hmapQ⟩ := hwiredQ
  obtain ⟨sysout, w₁, n', hsysout, hreading₁, hsysoutOf⟩ :=
    hreading.readSysout hholds hlayout (by omega)
  -- the map begins behind the eight Qs
  obtain ⟨w₂, hmap, hfile⟩ := (hreading₁.seek 8 (by decide)).readLoadMap self hholds (k := n)
    (by omega)
  rw [List.take_of_length_le (by
    rw [List.length_drop]
    omega)] at hmap
  have hholds4 : f.holds 0 4 = true := by
    unfold WorldFile.holds
    rw [decide_eq_true_eq]
    omega
  have hnone : w.headerQ 0 = some 0 := rfl
  have hzero : mapLength 0 = some 0 := rfl
  refine ⟨w₂, ?_, hfile⟩
  unfold openWorldFile
  rw [hholds4, hcookie, hpage]
  simp only [guard, if_true, pure, Option.bind_eq_bind, Option.bind_some, hversion, hlayout',
    hwiredQ, hunwiredQ, hmapQ, hwired, hcount, hnone, hzero, hbases, hsysout, hmap,
    World.readLoadMap, hsysoutOf 0 (by decide), hsysoutOf 1 (by decide), hsysoutOf 2 (by decide),
    hsysoutOf 3 (by decide), hsysoutOf 4 (by decide)]
  rfl

/-! ### The whole header -/

/-- The header has room for what it is to hold. -/
structure VLMWorld.Storable (v : VLMWorld) : Prop where
  entries : ∀ e ∈ v.wiredMapEntries, e.Storable
  length_le : 8 + 3 * v.wiredMapEntries.length ≤ 256 * World.maximumPages
  dataPageBase_lt : v.vlmDataPageBase < 2 ^ 28
  tagsPageBase_lt : v.vlmTagsPageBase < 2 ^ 4

theorem headerQs_length (v : VLMWorld) (s : SystemComm) :
    (v.headerQs s).length = 8 + 3 * v.wiredMapEntries.length := by
  unfold VLMWorld.headerQs
  rw [List.length_append, List.length_flatMap]
  simp [VLMWorld.entryQs]
  omega

/-- The tags of the first four Qs are the cookie. -/
theorem cookie_of_holds (hholds : World.Holds f (v.headerQs s)) :
    wordAt f.bytes 0 = 0o24342504610 := by
  have htag : ∀ k q, k < 4 → (v.headerQs s)[k]? = some q → f.bytes k = q.tag := by
    intro k q hk hq
    have hin := hholds.inFile k q hq
    unfold World.InFile at hin
    have htag := congrArg LispObj.tag hin
    unfold loadQ tagOffset at htag
    rw [← htag]
    dsimp only
    congr 1
    omega
  unfold wordAt
  rw [htag 3 _ (by decide) rfl, htag 2 _ (by decide) rfl, htag 1 _ (by decide) rfl,
    htag 0 _ (by decide) rfl]
  dsimp only
  decide

/-- What opening the file is to find. -/
def VLMWorld.opened (v : VLMWorld) (s : SystemComm) (self : Nat) (w : World) : OpenedWorld where
  file := w
  format := .vlm
  byteSwapped := false
  vlmDataPageBase := v.vlmDataPageBase
  vlmTagsPageBase := v.vlmTagsPageBase
  sysoutGeneration := s.sysoutGenerationNumber.data
  sysoutTimestamp1 := s.sysoutTimestamp1.data
  sysoutTimestamp2 := s.sysoutTimestamp2.data
  sysoutParentTimestamp1 := s.sysoutParentTimestamp1.data
  sysoutParentTimestamp2 := s.sysoutParentTimestamp2.data
  wiredMapEntries := v.wiredMapEntries.map fun e => { e with world := self }
  unwiredMapEntries := []

theorem decodeHeader_headerQs (self : Nat) (hv : v.Storable) (s : SystemComm) (w : World) :
    decodeHeader self false ⟨1, 0, 2, 3, 8⟩ (v.headerQs s) w = v.opened s self w := by
  have hmap : (v.headerQs s).drop 8 = v.wiredMapEntries.flatMap VLMWorld.entryQs := rfl
  have hbases : dataOf (v.headerQs s) 2 = vlmPageBases v.vlmDataPageBase v.vlmTagsPageBase := rfl
  unfold decodeHeader
  rw [hmap, World.decodeEntries_entryQs self hv.entries, hbases,
    vlmPageBases_data hv.dataPageBase_lt, vlmPageBases_tags hv.dataPageBase_lt hv.tagsPageBase_lt]
  rfl

theorem openWorldFile_of_holds (hholds : World.Holds f (v.headerQs s)) (hv : v.Storable)
    (buffer : Nat → BitVec 8) :
    ∃ w, openWorldFile self buffer f = some (v.opened s self w) ∧ w.file = f := by
  have hfits := hv.length_le
  have hcookie : cookieFormat (wordAt f.bytes 0) = some (.vlm, false) := by
    rw [cookie_of_holds hholds]
    decide
  have hcount : mapLength (dataOf (v.headerQs s) 1) = some v.wiredMapEntries.length := by
    have hdata : dataOf (v.headerQs s) 1 = BitVec.ofNat 32 v.wiredMapEntries.length := rfl
    unfold World.maximumPages at hfits
    unfold mapLength
    rw [hdata, BitVec.toNat_ofNat, Nat.mod_eq_of_lt (by omega), if_pos (by omega)]
  obtain ⟨w, hopen, hfile⟩ := openWorldFile_of_qs self false hholds (headerQs_length v s)
    hcookie rfl hcount buffer
  exact ⟨w, hopen.trans (congrArg some (decodeHeader_headerQs self hv s w)), hfile⟩

/-! ### Every file -/

theorem LoadMapEntryOpcode.code_ofCode (n : Nat) :
    (LoadMapEntryOpcode.ofCode n).code = n := by
  unfold LoadMapEntryOpcode.ofCode
  split <;> rfl

/-- Whatever the Qs are, what is read from them fits its words. -/
theorem World.readLoadMap_storable (h : w.readLoadMap self n = some (es, w')) :
    es.length = n ∧ ∀ e ∈ es, e.Storable ∧ e.world = self := by
  induction n generalizing w es with
  | zero =>
      cases h
      simp
  | succ n ih =>
      unfold World.readLoadMap at h
      simp only [Option.bind_eq_bind, Option.bind_eq_some_iff] at h
      obtain ⟨address, -, op, -, data, -, rest, hrest, h⟩ := h
      cases h
      obtain ⟨hlength, hes⟩ := ih hrest
      refine ⟨congrArg (· + 1) hlength, ?_⟩
      rw [List.forall_mem_cons]
      refine ⟨⟨⟨address.1.data.isLt, Nat.mod_lt _ (by decide), ?_, ?_⟩, rfl⟩, hes⟩
      · unfold opOpcode
        rw [LoadMapEntryOpcode.code_ofCode]
      · have hlt := op.1.data.isLt
        unfold opOpcode
        rw [LoadMapEntryOpcode.code_ofCode]
        omega

theorem mapLength_lt {count : Integer} (h : mapLength count = some n) : n < 2 ^ 31 := by
  unfold mapLength at h
  split at h
  · cases h
    assumption
  · cases h

/-- What a file is opened to is well formed, whatever its bytes are. -/
theorem openWorldFile_wellFormed {buffer : Nat → BitVec 8} {o : OpenedWorld}
    (h : openWorldFile self buffer f = some o) :
    (∀ e ∈ o.wiredMapEntries ++ o.unwiredMapEntries, e.Storable ∧ e.world = self) ∧
      o.wiredMapEntries.length < 2 ^ 31 ∧ o.unwiredMapEntries.length < 2 ^ 31 ∧
      o.vlmDataPageBase < 2 ^ 28 ∧ o.vlmTagsPageBase < 2 ^ 4 := by
  unfold openWorldFile at h
  simp only [Option.bind_eq_bind, Option.bind_eq_some_iff] at h
  obtain ⟨-, -, format, -, w, -, version, -, layout, -, nWired, ⟨count, -, hwiredLength⟩, nUnwired,
    ⟨count', -, hunwiredLength⟩, pageBases, -, sysout, -, wired, hwired, unwired, hunwired, h⟩ := h
  cases h
  obtain ⟨hlength, hentries⟩ := World.readLoadMap_storable hwired
  obtain ⟨hlength', hentries'⟩ := World.readLoadMap_storable hunwired
  refine ⟨?_, ?_, ?_, Nat.mod_lt _ (by decide), ?_⟩
  · intro e he
    exact (List.mem_append.mp he).elim (hentries e) (hentries' e)
  · change wired.1.length < _
    rw [hlength]
    exact mapLength_lt hwiredLength
  · change unwired.1.length < _
    rw [hlength']
    exact mapLength_lt hunwiredLength
  · have hlt := pageBases.isLt
    dsimp only
    omega

/-! ### Round trip -/

/-- The header is taken, and whoever opens the file finds what was saved. -/
def HeaderRoundTrips (v : VLMWorld) (s : SystemComm) (w : World) : Prop :=
  ∃ w', v.writeVLMWorldFileHeader s w = some w' ∧
    ∀ self buffer, ∃ w'', openWorldFile self buffer w'.file = some (v.opened s self w'')

/-- **The header of a world.**  Of any file whatsoever, opening takes only a map and page bases
that fit the words of a header.  A header that was written is opened to the map, the bases and
the sysout data it was made of if and only if they all fit. -/
theorem header_roundTrips_iff (v : VLMWorld) (s : SystemComm) (w : World) :
    (∀ self buffer f o, openWorldFile self buffer f = some o →
      (∀ e ∈ o.wiredMapEntries ++ o.unwiredMapEntries, e.Storable ∧ e.world = self) ∧
        o.wiredMapEntries.length < 2 ^ 31 ∧ o.unwiredMapEntries.length < 2 ^ 31 ∧
        o.vlmDataPageBase < 2 ^ 28 ∧ o.vlmTagsPageBase < 2 ^ 4) ∧
    (HeaderRoundTrips v s w ↔ v.Storable) := by
  refine ⟨fun self buffer f o h => openWorldFile_wellFormed h, ?_⟩
  have hlength := headerQs_length v s
  constructor
  · intro h
    obtain ⟨w', hw', hopen⟩ := h
    obtain ⟨w'', hw''⟩ := hopen 0 fun _ => 0
    obtain ⟨hentries, -, -, hdata, htags⟩ := openWorldFile_wellFormed hw''
    refine ⟨?_, ?_, hdata, htags⟩
    · intro e he
      obtain ⟨hstorable, -⟩ := hentries { e with world := 0 }
        (List.mem_append_left _ (List.mem_map_of_mem he))
      exact ⟨hstorable.address_lt, hstorable.count_lt, hstorable.opcode, hstorable.code_lt⟩
    · by_contra hlong
      rw [VLMWorld.writeVLMWorldFileHeader, World.write_none _ (by omega)] at hw'
      cases hw'
  · intro hv
    have hne : v.headerQs s ≠ [] := by
      intro h
      rw [h, List.length_nil] at hlength
      omega
    have hfits := hv.length_le
    obtain ⟨w', hw', hholds, -⟩ := World.write_holds { w with file := v.preallocate w.file } hne
      (by omega)
    refine ⟨w', hw', fun self buffer => ?_⟩
    obtain ⟨w'', hopen, -⟩ := openWorldFile_of_holds hholds hv buffer
    exact ⟨w'', hopen⟩

end VM
