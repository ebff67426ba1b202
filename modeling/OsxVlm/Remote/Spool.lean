import Mathlib
import OsxVlm.Remote.Lpdd

/-!
# Jobs in the spool

A path tells the second, the number, the tag and the suffix of a data file, so
files collide exactly when they agree in all four.  The numbers of one process
are all different; a process for each connection starts them again.
-/

namespace Lpd

open Decimal

/-- What a path tells of a data file. -/
def DataFile.key (f : DataFile) : Timestamp × Nat × List Char × Ext := (f.time, f.seq, f.tag, f.ext)

/-! ### File names -/

theorem join_inj {spool a b : List Char} (h : join spool a = join spool b) : a = b := by
  unfold join at h
  split at h
  · exact List.append_cancel_left h
  · exact List.cons_inj_right _ |>.mp (List.append_cancel_left h)

/-- The suffix ends in a letter of its own. -/
theorem ext_inj {xs ys : List Char} {e e' : Ext} (h : xs ++ e.chars = ys ++ e'.chars) :
    xs = ys ∧ e = e' := by
  have hlast := congrArg List.getLast? h
  have hext : e = e' := by
    cases e <;> cases e' <;> simp [Ext.chars] at hlast ⊢
  subst hext
  exact ⟨List.append_cancel_right h, rfl⟩

/-- Behind the number comes a hyphen or the dot of the suffix. -/
theorem head_rest (tag : List Char) (e : Ext) :
    ∀ c ∈ ((if tag = [] then [] else '-' :: tag) ++ e.chars).head?, c.isDigit = false := by
  intro c hc
  split at hc
  · cases e <;> · simp [Ext.chars] at hc; subst hc; rfl
  · simp at hc
    subst hc
    rfl

theorem tag_inj {tag tag' : List Char}
    (h : (if tag = [] then [] else '-' :: tag) = if tag' = [] then [] else '-' :: tag') :
    tag = tag' := by
  cases tag <;> cases tag' <;> simp_all

theorem base_inj {f g : DataFile} (h : f.base = g.base) : f.key = g.key := by
  unfold DataFile.base at h
  have hrest := List.append_cancel_left h
  obtain ⟨htime, hrest⟩ := List.append_inj hrest (by rw [f.time.2, g.time.2])
  obtain ⟨hseq, hrest⟩ := padded_append_inj (head_rest f.tag f.ext) (head_rest g.tag g.ext)
    ((List.cons_inj_right _).mp hrest)
  obtain ⟨htag, hext⟩ := ext_inj hrest
  unfold DataFile.key
  rw [Subtype.ext htime, hseq, tag_inj htag, hext]

/-- Paths are equal just where all parts of them are. -/
theorem path_eq_iff (spool : List Char) {f g : DataFile} :
    f.path spool = g.path spool ↔ f.key = g.key := by
  constructor
  · intro h
    exact base_inj (join_inj h)
  · intro h
    unfold DataFile.key at h
    simp only [Prod.mk.injEq] at h
    unfold DataFile.path DataFile.base
    rw [h.1, h.2.1, h.2.2.1, h.2.2.2]

/-! ### Numbers -/

/-- The loop numbers its files one after the other. -/
theorem receiveLoop_seq (conn : Connection) (seq acks files : Nat) (ctl : Control)
    (input : List Byte) :
    (receiveLoop conn seq acks files ctl input).map DataFile.seq =
      List.range' (seq + files) (receiveLoop conn seq acks files ctl input).length := by
  fun_induction receiveLoop conn seq acks files ctl input with
  | case3 _ _ _ _ _ _ _ ih => exact ih
  | case8 _ _ _ _ _ _ _ _ _ _ _ _ _ _ ih => exact ih
  | case9 acks files _ _ _ _ _ count _ _ _ _ _ _ _ ih =>
      simp only [List.map_cons, List.length_cons, List.range'_succ, List.cons.injEq, true_and]
      split
      · rfl
      · rw [ih, Nat.add_assoc]
  | _ => rfl

theorem serve_seq (conn : Connection) (seq : Nat) :
    (serve conn seq).map DataFile.seq = List.range' seq (serve conn seq).length := by
  unfold serve
  split
  · rfl
  · split
    · exact receiveLoop_seq conn seq 1 0 _ _
    · rfl

/-- A process writes different paths. -/
theorem serve_nodup (spool : List Char) (conn : Connection) (seq : Nat) :
    ((serve conn seq).map (DataFile.path spool)).Nodup := by
  have hseq : ((serve conn seq).map DataFile.seq).Nodup := by
    rw [serve_seq]
    exact List.nodup_range'
  rw [List.nodup_map_iff_inj_on hseq.of_map]
  intro f hf g hg hpath
  have hkey := (path_eq_iff spool).mp hpath
  exact List.inj_on_of_nodup_map hseq hf hg (congrArg (fun k => k.2.1) hkey)

/-- Every list of files is that of one process. -/
theorem exists_serve {mode : Mode} {seq : Nat} {conns : List Connection} {fs : List DataFile}
    (h : fs ∈ serveAll mode seq conns) : ∃ conn seq', fs = serve conn seq' := by
  induction conns generalizing seq with
  | nil => cases h
  | cons conn conns ih =>
      rcases List.mem_cons.mp h with rfl | h
      · exact ⟨conn, seq, rfl⟩
      · exact ih h

/-- One process for all connections numbers all files one after the other. -/
theorem daemon_seq (seq : Nat) (conns : List Connection) :
    (serveAll .daemon seq conns).flatten.map DataFile.seq =
      List.range' seq (serveAll .daemon seq conns).flatten.length := by
  induction conns generalizing seq with
  | nil => rfl
  | cons conn conns ih =>
      simp only [serveAll, Mode.nextSeq, List.flatten_cons, List.map_append, List.length_append]
      rw [serve_seq, ih, List.range'_append_1]

/-! ### The spool -/

/-- Every data file has a path of its own, and ends up there whole. -/
def NoOverwrite (mode : Mode) (spool : List Char) (conns : List Connection) : Prop :=
  let files := (serveAll mode 1 conns).flatten
  (files.map (DataFile.path spool)).Nodup ∧
    ∀ contents, ∀ f ∈ files, writeAll spool contents files (f.path spool) = some f.payload

/-- No two connections wrote files of the same second, number, tag and suffix. -/
def Separate (mode : Mode) (conns : List Connection) : Prop :=
  (serveAll mode 1 conns).Pairwise fun fs gs => ∀ f ∈ fs, ∀ g ∈ gs, f.key ≠ g.key

theorem writeAll_other {spool path : List Char} {contents : List Char → Option (List Byte)}
    {files : List DataFile} (h : path ∉ files.map (DataFile.path spool)) :
    writeAll spool contents files path = contents path := by
  induction files generalizing contents with
  | nil => rfl
  | cons f files ih =>
      rw [List.map_cons, List.mem_cons, not_or] at h
      show writeAll spool (Function.update contents (f.path spool) (some f.payload)) files path = _
      rw [ih h.2, Function.update_of_ne h.1]

/-- A file whose path is not written again keeps its payload. -/
theorem writeAll_payload {spool : List Char} {contents : List Char → Option (List Byte)}
    {files : List DataFile} (hpaths : (files.map (DataFile.path spool)).Nodup) :
    ∀ f ∈ files, writeAll spool contents files (f.path spool) = some f.payload := by
  induction files generalizing contents with
  | nil => simp
  | cons f files ih =>
      rw [List.map_cons, List.nodup_cons] at hpaths
      intro g hg
      show writeAll spool (Function.update contents (f.path spool) (some f.payload)) files _ = _
      rcases List.mem_cons.mp hg with rfl | hg
      · rw [writeAll_other hpaths.1, Function.update_self]
      · exact ih hpaths.2 g hg

/-- All paths are different just when those of different connections are. -/
theorem nodup_iff (mode : Mode) (spool : List Char) (conns : List Connection) :
    ((serveAll mode 1 conns).flatten.map (DataFile.path spool)).Nodup ↔ Separate mode conns := by
  rw [List.map_flatten, List.nodup_flatten]
  constructor
  · rintro ⟨-, hdisjoint⟩
    unfold Separate
    apply (List.pairwise_map.mp hdisjoint).imp
    intro fs gs hfg f hf g hg hkey
    apply hfg (List.mem_map_of_mem hf)
    rw [(path_eq_iff spool).mpr hkey]
    exact List.mem_map_of_mem hg
  · intro hseparate
    constructor
    · intro paths hpaths
      obtain ⟨fs, hfs, rfl⟩ := List.mem_map.mp hpaths
      obtain ⟨conn, seq, rfl⟩ := exists_serve hfs
      exact serve_nodup spool conn seq
    · apply List.pairwise_map.mpr
      apply hseparate.imp
      intro fs gs hfg path hleft hright
      obtain ⟨f, hf, rfl⟩ := List.mem_map.mp hleft
      obtain ⟨g, hg, hpath⟩ := List.mem_map.mp hright
      exact hfg f hf g hg ((path_eq_iff spool).mp hpath.symm)

/-- One process never names two files alike. -/
theorem daemon_nodup (spool : List Char) (conns : List Connection) :
    ((serveAll .daemon 1 conns).flatten.map (DataFile.path spool)).Nodup := by
  have hseq : ((serveAll .daemon 1 conns).flatten.map DataFile.seq).Nodup := by
    rw [daemon_seq]
    exact List.nodup_range'
  rw [List.nodup_map_iff_inj_on hseq.of_map]
  intro f hf g hg hpath
  have hkey := (path_eq_iff spool).mp hpath
  exact List.inj_on_of_nodup_map hseq hf hg (congrArg (fun k => k.2.1) hkey)

/-- The `n`-th data files of two connections come in one second, under one tag and
with one suffix. -/
def Alike (c d : Connection) : Prop :=
  ∃ (n : Nat) (f g : DataFile), (serve c 1)[n]? = some f ∧ (serve d 1)[n]? = some g ∧
    f.time = g.time ∧ f.tag = g.tag ∧ f.ext = g.ext

theorem serve_getElem_seq {conn : Connection} {n : Nat} {f : DataFile}
    (h : (serve conn 1)[n]? = some f) : f.seq = 1 + n := by
  have hseq := congrArg (fun l => l[n]?) (serve_seq conn 1)
  have hlt : n < (serve conn 1).length := (List.getElem?_eq_some_iff.mp h).1
  simp only [List.getElem?_map, h, Option.map_some, List.getElem?_range' hlt] at hseq
  simpa using hseq

theorem serveAll_inetd (conns : List Connection) :
    serveAll .inetd 1 conns = conns.map fun conn => serve conn 1 := by
  induction conns with
  | nil => rfl
  | cons conn conns ih => rw [serveAll, List.map_cons, ← ih, Mode.nextSeq]

/-- Processes of their own number alike the files that stand at one place. -/
theorem separate_inetd_iff (conns : List Connection) :
    Separate .inetd conns ↔ conns.Pairwise fun c d => ¬ Alike c d := by
  unfold Separate
  rw [serveAll_inetd, List.pairwise_map]
  have hkeys : ∀ c d : Connection,
      (∀ f ∈ serve c 1, ∀ g ∈ serve d 1, f.key ≠ g.key) ↔ ¬ Alike c d := by
    intro c d
    constructor
    · rintro h ⟨n, f, g, hf, hg, htime, htag, hext⟩
      apply h f (List.mem_of_getElem? hf) g (List.mem_of_getElem? hg)
      unfold DataFile.key
      rw [htime, htag, hext, serve_getElem_seq hf, serve_getElem_seq hg]
    · intro h f hf g hg hkey
      obtain ⟨n, hf⟩ := List.mem_iff_getElem?.mp hf
      obtain ⟨m, hg⟩ := List.mem_iff_getElem?.mp hg
      unfold DataFile.key at hkey
      simp only [Prod.mk.injEq] at hkey
      obtain ⟨htime, hseq, htag, hext⟩ := hkey
      rw [serve_getElem_seq hf, serve_getElem_seq hg] at hseq
      obtain rfl : n = m := by omega
      exact h ⟨n, f, g, hf, hg, htime, htag, hext⟩
  simp only [hkeys]

/-- **No job is overwritten** exactly when one process serves all connections, or
no two connections have, at one place, data files of one second, tag and suffix. -/
theorem noOverwrite_iff (mode : Mode) (spool : List Char) (conns : List Connection) :
    NoOverwrite mode spool conns ↔
      mode = .daemon ∨ conns.Pairwise fun c d => ¬ Alike c d := by
  have hpaths : NoOverwrite mode spool conns ↔
      ((serveAll mode 1 conns).flatten.map (DataFile.path spool)).Nodup :=
    ⟨fun h => h.1, fun h => ⟨h, fun contents => writeAll_payload h⟩⟩
  rw [hpaths]
  cases mode with
  | daemon => exact ⟨fun _ => .inl rfl, fun _ => daemon_nodup spool conns⟩
  | inetd =>
      rw [nodup_iff, separate_inetd_iff]
      constructor
      · exact .inr
      · rintro (h | h)
        · cases h
        · exact h

def sampleTime : Timestamp := ⟨"20240101-000000".toList, by decide⟩

/-- A connection with one data file of one byte, and no control file. -/
def sampleConnection (data : Byte) : Connection where
  input := [0x02, 0x0a, 0x03, 0x31, 0x20, 0x64, 0x0a, data, 0x00]
  times _ := sampleTime
  writable _ := true

theorem serve_sampleConnection (data : Byte) (seq : Nat) :
    serve (sampleConnection data) seq =
      [⟨sampleTime, seq, tagOf (fun _ => none) ['d'], extOf [data], [data]⟩] := by
  simp [serve, sampleConnection, receiveLoop, readline, parseSubheader, rstrip, int, numeral,
    isSpace, payloadOf, List.span_eq_takeWhile_dropWhile, CMD_RECEIVE_JOB, SUB_ABORT,
    SUB_CONTROL_FILE, SUB_DATA_FILE, decode]

/-- Two processes in one second give their first jobs one name. -/
theorem inetd_overwrites :
    ¬ NoOverwrite .inetd "spool".toList [sampleConnection 0x61, sampleConnection 0x62] := by
  rintro ⟨hpaths, -⟩
  simp only [serveAll, Mode.nextSeq, serve_sampleConnection, List.flatten_cons, List.flatten_nil,
    List.append_nil, List.cons_append, List.nil_append, List.map_cons, List.map_nil,
    List.nodup_cons, List.mem_singleton] at hpaths
  apply hpaths.1
  exact (path_eq_iff _).mpr rfl

end Lpd
