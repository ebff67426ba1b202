import Mathlib
import OsxVlm.Memory.WorldLoad
import OsxVlm.World.LoadWorld
import OsxVlm.World.SavedFile

/-!
# A world that was saved is loaded again

Loading an entry leaves the pages outside it alone, so that the entries may be loaded one
after the other: what one of them needs of the attribute table is still there, and what it
loaded is not touched again.
-/

namespace VM

variable {m m' : Memory} {f : WorldFile} {v : VLMWorld} {e : LoadMapEntry}
  {es : List LoadMapEntry} {vma count : Nat}

/-! ### Pages outside an entry -/

theorem Load.round_behind {s s' : Load} (hend : s.vma + s.length ≤ 2 ^ 32)
    (h : s.round f = some s') {p : Nat} (hp : 8192 * p + 8192 ≤ s.vma) :
    s'.memory.attributeTable p = s.memory.attributeTable p := by
  unfold Load.round at h
  split at h
  · unfold Load.readPage at h
    dsimp only at h
    split at h
    · cases h
      apply Load.read_attributeTable_ne
      unfold pageNumber
      omega
    · cases h
  · next htest =>
    have hoff : wadOffset s.vma = 0 := by
      by_contra hoff
      exact htest (Or.inl hoff)
    obtain ⟨words, table, -, hle, -, -, htable, rfl⟩ := Load.mapWads_some hoff h
    have hsame := htable (by omega) p
    rw [if_neg (by omega)] at hsame
    exact hsame

theorem Load.loop_outside {s s' : Load} (hend : s.vma + s.length ≤ 2 ^ 32)
    (h : Load.loop f s = some s') {p : Nat}
    (hp : 8192 * p + 8192 ≤ s.vma ∨ s.vma + s.length ≤ 8192 * p) :
    s'.memory.attributeTable p = s.memory.attributeTable p := by
  induction hn : s.length using Nat.strong_induction_on generalizing s with
  | _ n ih =>
    subst hn
    unfold Load.loop at h
    split at h
    · cases h
      rfl
    · next hlen =>
      split at h
      · cases h
      · next s₁ hround =>
        obtain ⟨words, hr⟩ := Load.round_spec hend hlen hround
        have hlen' := hr.length
        have hvma := hr.vma
        have hle := hr.words_le
        have hpos := hr.words_pos
        have hfirst : s₁.memory.attributeTable p = s.memory.attributeTable p := by
          obtain hbehind | hahead := hp
          · exact Load.round_behind hend hround hbehind
          · exact hr.ahead p (by omega)
        rw [← hfirst]
        by_cases hlast : s₁.length = 0
        · -- the address behind the last word may be 0
          rw [Load.loop, dif_pos hlast] at h
          cases h
          rfl
        · exact ih s₁.length (by omega) (by omega) h (by omega) rfl

/-- Loading an entry makes no page outside it. -/
theorem mapWorldLoad_outside {dataoffset tagoffset next : Nat} (hend : vma + count ≤ 2 ^ 32)
    (h : mapWorldLoad m vma count f dataoffset tagoffset = some (m', next)) {p : Nat}
    (hp : 8192 * p + 8192 ≤ vma ∨ vma + count ≤ 8192 * p) :
    m'.attributeTable p = m.attributeTable p := by
  unfold mapWorldLoad at h
  rw [Int.toNat_natCast] at h
  obtain ⟨s, hs, heq⟩ := Option.map_eq_some_iff.mp h
  cases heq
  exact Load.loop_outside (s := ⟨m, vma, count, dataoffset, tagoffset⟩) hend hs hp

/-- And it destroys none. -/
theorem mapWorldLoad_created {dataoffset tagoffset next a : Nat} (hvma : vma < 2 ^ 32)
    (hend : vma + count ≤ 2 ^ 32)
    (h : mapWorldLoad m vma count f dataoffset tagoffset = some (m', next))
    (ha : created m a = true) : created m' a = true := by
  unfold mapWorldLoad at h
  rw [Int.toNat_natCast] at h
  obtain ⟨s, hs, heq⟩ := Option.map_eq_some_iff.mp h
  cases heq
  exact (Load.loop_loaded (s := ⟨m, vma, count, dataoffset, tagoffset⟩) hvma hend hs).2.2 a ha

/-- What another entry needs of the attribute table is not changed. -/
theorem WholeWads.congr (h : WholeWads m vma count)
    (hsame : ∀ p, vma ≤ 8192 * p → 8192 * p + 8192 ≤ vma + count →
      m'.attributeTable p = m.attributeTable p) : WholeWads m' vma count := by
  intro w hw hw' hwad
  have hwad' : wadCreated m (65536 * w) = true := by
    obtain ⟨p, hp, hex⟩ := wadCreated_iff.mp hwad
    refine wadCreated_iff.mpr ⟨p, hp, ?_⟩
    unfold wadNumber at hp
    rw [← hsame p (by omega) (by omega)]
    exact hex
  have hfirst := h w hw hw' hwad'
  unfold created pageNumber at hfirst ⊢
  rw [hsame _ (by omega) (by omega)]
  exact hfirst

/-! ### The entries of a file -/

def LoadMapEntry.region (e : LoadMapEntry) : SaveWorldEntry := ⟨e.address, e.count⟩

/-- What loading the regions leaves in memory. -/
structure Restored (m : Memory) (regions : List SaveWorldEntry) (before after : Memory) :
    Prop where
  words : ∀ e ∈ regions, ∀ i, i < e.extent →
    after.dataSpace (e.address + i) = m.dataSpace (e.address + i) ∧
      after.tagSpace (e.address + i) = m.tagSpace (e.address + i)
  kept : ∀ a, created before a = true →
    (∀ e ∈ regions, a < e.address ∨ e.address + e.extent ≤ a) →
      after.dataSpace a = before.dataSpace a ∧ after.tagSpace a = before.tagSpace a

/-- An entry whose words are in pages of the file. -/
structure Loadable (m : Memory) (v : VLMWorld) (f : WorldFile) (e : LoadMapEntry) : Prop where
  opcode : e.opcode = .dataPages
  count_pos : 0 < e.count
  end_le : e.address + e.count ≤ 2 ^ 32
  holds : HoldsEntry v m f e
  dataSize : vlmOffset v.vlmDataPageBase e.data.data.toNat 4 + 4 * e.count ≤ f.size
  tagSize : vlmOffset v.vlmTagsPageBase e.data.data.toNat 1 + e.count ≤ f.size

/-- An open world in the byte order of the host. -/
structure Native (v : VLMWorld) (f : WorldFile) (o : OpenedWorld) : Prop where
  format : o.format = .vlm
  byteSwapped : o.byteSwapped = false
  file : o.file.file = f
  vlmDataPageBase : o.vlmDataPageBase = v.vlmDataPageBase
  vlmTagsPageBase : o.vlmTagsPageBase = v.vlmTagsPageBase

section Entries

variable {c : StackCache} {chunk : Nat → LispObj} {self : Nat} {l : Loader}

/-- One entry is mapped. -/
theorem loadMapData_spec (hnative : ∀ k, Native v f (l.worlds k).world)
    (he : Loadable m v f e) (hwads : WholeWads l.storage.memory e.address e.count) :
    ∃ m', l.loadMapData c chunk self e =
        some { l with storage := { l.storage with memory := m' } } ∧
      Restored m [e.region] l.storage.memory m' ∧
      (∀ i, i < e.count → created m' (e.address + i) = true) ∧
      (∀ a, created l.storage.memory a = true → created m' a = true) ∧
      ∀ p, 8192 * p + 8192 ≤ e.address ∨ e.address + e.count ≤ 8192 * p →
        m'.attributeTable p = l.storage.memory.attributeTable p := by
  have hpos := he.count_pos
  have hend := he.end_le
  obtain ⟨m', hload, hloaded⟩ := (mapWorldLoad_iff l.storage.memory f (by omega) hend he.dataSize
    he.tagSize).mpr hwads
  refine ⟨m', ?_, ⟨?_, ?_⟩, hloaded.creates,
    fun a ha => mapWorldLoad_created (by omega) hend hload ha,
    fun p hp => mapWorldLoad_outside hend hload hp⟩
  · obtain ⟨hformat, -, -, -, -⟩ := hnative self
    obtain ⟨-, hbytes, hfile, hdata, htags⟩ := hnative e.world
    unfold Loader.loadMapData Loader.vlmLoadMapData
    simp only [hformat, he.opcode, hbytes, hfile, hdata, htags, hload]
    rfl
  · intro region hregion i hi
    obtain rfl := List.mem_singleton.mp hregion
    obtain ⟨hword, htag⟩ := hloaded.words i hi
    obtain ⟨hword', htag'⟩ := he.holds i hi
    exact ⟨hword.trans hword', htag.trans htag'⟩
  · intro a ha hout
    exact hloaded.kept a ha (hout e.region List.mem_cons_self)

/-- One region and then others that do not overlap it. -/
theorem Restored.cons {region : SaveWorldEntry} {regions : List SaveWorldEntry} {m₁ m₂ : Memory}
    (h : Restored m [region] m₁ m₂) (h' : Restored m regions m₂ m')
    (hcreates : ∀ i, i < region.extent → created m₂ (region.address + i) = true)
    (hkeeps : ∀ a, created m₁ a = true → created m₂ a = true)
    (hdisjoint : ∀ e ∈ regions,
      region.address + region.extent ≤ e.address ∨ e.address + e.extent ≤ region.address) :
    Restored m (region :: regions) m₁ m' := by
  constructor
  · intro e he i hi
    obtain rfl | he := List.mem_cons.mp he
    · -- loaded first, and kept by the others
      obtain ⟨hword, htag⟩ := h'.kept (e.address + i) (hcreates i hi) (by
        intro e' he'
        have := hdisjoint e' he'
        omega)
      rw [hword, htag]
      exact h.words e List.mem_cons_self i hi
    · exact h'.words e he i hi
  · intro a ha hout
    rw [List.forall_mem_cons] at hout
    obtain ⟨hword, htag⟩ := h.kept a ha (by
      intro e he
      obtain rfl := List.mem_singleton.mp he
      exact hout.1)
    obtain ⟨hword', htag'⟩ := h'.kept a (hkeeps a ha) hout.2
    exact ⟨hword'.trans hword, htag'.trans htag⟩

theorem loadEntries_spec (hnative : ∀ k, Native v f (l.worlds k).world)
    (hes : ∀ e ∈ es, Loadable m v f e)
    (hdisjoint : (es.map LoadMapEntry.region).Pairwise fun e e' =>
      e.address + e.extent ≤ e'.address ∨ e'.address + e'.extent ≤ e.address)
    (hwads : ∀ e ∈ es, WholeWads l.storage.memory e.address e.count) :
    ∃ l', Loader.loadEntries c chunk self es l =
        some (l', (es.map LoadMapEntry.count).sum % 2 ^ 32) ∧
      Restored m (es.map LoadMapEntry.region) l.storage.memory l'.storage.memory := by
  induction es generalizing l with
  | nil => exact ⟨l, rfl, ⟨fun e he => absurd he List.not_mem_nil, fun _ _ _ => ⟨rfl, rfl⟩⟩⟩
  | cons e es ih =>
      rw [List.forall_mem_cons] at hes hwads
      rw [List.map_cons, List.pairwise_cons] at hdisjoint
      obtain ⟨m₁, hload, hrestored, hcreates, hkeeps, houtside⟩ :=
        @loadMapData_spec m f v e c chunk self l hnative hes.1 hwads.1
      have hdisjoint' : ∀ e' ∈ es,
          e.address + e.count ≤ e'.address ∨ e'.address + e'.count ≤ e.address :=
        fun e' he' => hdisjoint.1 e'.region (List.mem_map_of_mem he')
      obtain ⟨l', hrest, hrestored'⟩ := @ih
        { l with storage := { l.storage with memory := m₁ } } hnative hes.2 hdisjoint.2 (by
          intro e' he'
          apply (hwads.2 e' he').congr
          intro p hp hp'
          apply houtside
          have := hdisjoint' e' he'
          omega)
      refine ⟨l', ?_, hrestored.cons hrestored' hcreates hkeeps hdisjoint.1⟩
      rw [Loader.loadEntries, hload]
      simp only [Option.bind_eq_bind, Option.bind_some, hrest]
      rw [List.map_cons, List.sum_cons, Nat.mod_add_mod, Nat.add_comm]

end Entries

/-! ### Save and load -/

section RoundTrip

variable {entries : List SaveWorldEntry} {malloc : Nat → LoadMapEntry}

theorem region_assignPages (page : Nat) (es : List LoadMapEntry) :
    (assignPages page es).map LoadMapEntry.region = es.map LoadMapEntry.region := by
  induction es generalizing page with
  | nil => rfl
  | cons e es ih =>
      rw [assignPages, List.map_cons, List.map_cons, ih]
      rfl

/-- The regions of the map are those that were asked for. -/
theorem Saveable.regions (h : Saveable m entries) :
    (savedWorld malloc entries).wiredMapEntries.map LoadMapEntry.region = entries := by
  unfold savedWorld
  rw [region_assignPages, savedMap_toList]
  apply List.ext_getElem?
  intro i
  rw [List.getElem?_map, List.getElem?_mapIdx, Option.map_map]
  cases hregion : entries[i]? with
  | none => rw [Option.map_none]
  | some region =>
      have hcount := Nat.mod_eq_of_lt (h.extent_lt region (List.mem_of_getElem? hregion))
      rw [Option.map_some]
      simp only [Function.comp_apply, LoadMapEntry.region, SaveWorldEntry.mapEntry, hcount]

theorem SavedFile.loadable {s : SystemComm} (h : Saveable m entries)
    (hfile : SavedFile m (savedWorld malloc entries) s f)
    (he : e ∈ (savedWorld malloc entries).wiredMapEntries) :
    Loadable m (savedWorld malloc entries) f e := by
  obtain ⟨e', he', haddress, hcount, hopcode⟩ := mem_assignPages he
  obtain ⟨region, hregion, haddress', hcount', hopcode'⟩ := h.mem he'
  obtain ⟨hdata, htags⟩ := hfile.size e he
  have hend := h.end_le region hregion
  have hpos := h.extent_pos region hregion
  exact ⟨hopcode.trans hopcode', by omega, by omega, hfile.entries e he, hdata, htags⟩

/-- Whoever opens the file and loads the world finds every word of the regions again. -/
def Reloads (m : Memory) (entries : List SaveWorldEntry) (s : SystemComm) (f : WorldFile) :
    Prop :=
  ∀ self buffer, ∃ o, openWorldFile self buffer f = some o ∧
    (o.sysoutTimestamp1, o.sysoutTimestamp2) =
      (s.sysoutTimestamp1.data, s.sysoutTimestamp2.data) ∧
    ∀ c chunk page (t : Storage), (∀ e ∈ entries, WholeWads t.memory e.address e.extent) →
      ∃ l, loadWorld c chunk t page o =
          some (l, (entries.map SaveWorldEntry.extent).sum % 2 ^ 32) ∧
        Restored m entries t.memory l.storage.memory

/-- The first page of a wad that is mapped, and nothing else. -/
def savedPage : Memory :=
  { Memory.empty false with
    attributeTable := fun p => if p = 8 then 0x70 else 0
    mapped := fun w => decide (w = 1)
    protection := fun p => if p = 8 then .readWrite else .none
    dataSpace := fun a => BitVec.ofNat 32 (3 * a)
    tagSpace := fun a => BitVec.ofNat 8 a }

end RoundTrip

end VM
