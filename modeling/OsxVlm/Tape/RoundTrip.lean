import Mathlib
import OsxVlm.Tape.WellFormed

/-!
# What is written to a tape is read back

Records and tape marks are written to an empty tape, the tape is rewound and
read with requests of any size.  The reader sees the files between the marks,
coalesced and split as the requests ask, each ended by one empty reply; but an
empty record is written as two tape marks, and what follows it is read two files
late.
-/

namespace Rmt

open Simh

/-! ### Files of a tape -/

/-- The data between tape marks, from where the tape stands. -/
def itemFiles : List Item → List (List Byte)
  | [] => [[]]
  | .record r :: l => (itemFiles l).modifyHead (r.data ++ ·)
  | .mark :: l => [] :: itemFiles l
  | .gap :: l => itemFiles l

theorem modifyHead_append_nil (fs : List (List Byte)) : fs.modifyHead ([] ++ ·) = fs := by
  cases fs <;> rfl

theorem modifyHead_append (x y : List Byte) (fs : List (List Byte)) :
    (fs.modifyHead (y ++ ·)).modifyHead (x ++ ·) = fs.modifyHead ((x ++ y) ++ ·) := by
  cases fs with
  | nil => rfl
  | cons f fs =>
      simp only [List.modifyHead_cons, List.append_assoc]

theorem itemFiles_ne_nil (l : List Item) : itemFiles l ≠ [] := by
  induction l with
  | nil => nofun
  | cons i l ih =>
      cases i with
      | record r =>
          intro h
          exact ih (List.modifyHead_eq_nil_iff.mp h)
      | mark => nofun
      | gap => exact ih

/-- The files from a block on, when the items `l` follow it. -/
def blockFiles (l : List Item) : Block → List (List Byte)
  | .eom => [[]]
  | .mark => [] :: itemFiles l
  | .data bs => (itemFiles l).modifyHead (bs ++ ·)

theorem itemFiles_next (l : List Item) : itemFiles l = blockFiles (next l).2 (next l).1 := by
  induction l with
  | nil => rfl
  | cons i l ih =>
      cases i with
      | record r => rfl
      | mark => rfl
      | gap => exact ih

theorem next_eom {l : List Item} (h : (next l).1 = .eom) : (next l).2 = [] := by
  induction l with
  | nil => rfl
  | cons i l ih =>
      cases i with
      | record r => cases h
      | mark => cases h
      | gap => exact ih h

/-- The tape stands before the files `fs`, of the first of which some bytes may
be pending. -/
def Tape.Ahead (t : Tape) (fs : List (List Byte)) : Prop :=
  ∃ before after eom, At t.image t.pos before after eom ∧
    fs = (itemFiles after).modifyHead (t.pending ++ ·)

theorem ahead_readBlock {t t' : Tape} {b : Block} {fs : List (List Byte)} (ht : t.Ahead fs)
    (hp : t.pending = []) (h : t.readBlock = (b, t')) :
    ∃ l, fs = blockFiles l b ∧ (b = .eom → l = []) ∧
      ∀ u : Tape, u.image = t'.image → u.pos = t'.pos →
        u.Ahead ((itemFiles l).modifyHead (u.pending ++ ·)) := by
  obtain ⟨before, after, eom, hat, rfl⟩ := ht
  obtain ⟨k, -, hb, hat'⟩ := readBlock_at hat
  rw [h] at hb hat'
  refine ⟨(next after).2, ?_, fun heom => next_eom (hb.symm.trans heom), ?_⟩
  · rw [hp, modifyHead_append_nil, itemFiles_next after, ← hb]
  · intro u himage hpos
    rw [← himage, ← hpos] at hat'
    exact ⟨_, _, eom, hat', rfl⟩

/-- The files ahead after a read of `n` bytes that returned `out`, of which the
first file is `f`. -/
def filesAfter (n : Nat) (out f : List Byte) (fs : List (List Byte)) : List (List Byte) :=
  if out = [] ∧ 0 < n then (if fs = [] then [[]] else fs) else f.drop n :: fs

/-- What is read of `x ++ y` may be read in two parts, the first from `x`. -/
theorem take_in_parts (x y : List Byte) (n : Nat) :
    x.take n ++ (x.drop n ++ y).take (n - (x.take n).length) = (x ++ y).take n := by
  rcases Nat.le_total n x.length with h | h
  · rw [List.length_take_of_le h, Nat.sub_self, List.take_zero, List.append_nil,
      List.take_append_of_le_length h]
  · rw [List.take_of_length_le h, List.drop_of_length_le h, List.nil_append, List.take_append,
      List.take_of_length_le h]

theorem drop_in_parts (x y : List Byte) (n : Nat) :
    (x.drop n ++ y).drop (n - (x.take n).length) = (x ++ y).drop n := by
  rcases Nat.le_total n x.length with h | h
  · rw [List.length_take_of_le h, Nat.sub_self, List.drop_zero, List.drop_append_of_le_length h]
  · rw [List.take_of_length_le h, List.drop_of_length_le h, List.nil_append, List.drop_append,
      List.drop_of_length_le h, List.nil_append]

theorem filesAfter_in_parts {x y o : List Byte} {n : Nat} (hn : 0 < n) (fs : List (List Byte)) :
    filesAfter (n - (x.take n).length) (o ++ (x ++ y).take n) (x.drop n ++ y) fs =
      filesAfter n (o ++ (x ++ y).take n) (x ++ y) fs := by
  by_cases hnil : o ++ (x ++ y).take n = []
  · have hxy : x ++ y = [] := by
      rw [← List.take_eq_nil_iff.trans (or_iff_right (Nat.ne_of_gt hn))]
      exact (List.append_eq_nil_iff.mp hnil).2
    obtain ⟨rfl, rfl⟩ := List.append_eq_nil_iff.mp hxy
    rw [List.take_nil, List.drop_nil, List.length_nil, Nat.sub_zero]
  · unfold filesAfter
    rw [if_neg fun h => hnil h.1, if_neg fun h => hnil h.1, drop_in_parts]

/-- One round of the read loop: `x` is at hand, `y` the rest of the file. -/
theorem readLoop_round {u : Tape} {count : Nat} {out x y : List Byte} {fs : List (List Byte)}
    {out' : List Byte} (hout : out.length < count)
    (hout' : out' = out ++ x.take (count - out.length))
    (h : (u.readLoop count out').2 =
          out' ++ (x.drop (count - out.length) ++ y).take (count - out'.length) ∧
        (u.readLoop count out').1.Ahead
          (filesAfter (count - out'.length)
            (out' ++ (x.drop (count - out.length) ++ y).take (count - out'.length))
            (x.drop (count - out.length) ++ y) fs)) :
    (u.readLoop count out').2 = out ++ (x ++ y).take (count - out.length) ∧
      (u.readLoop count out').1.Ahead
        (filesAfter (count - out.length) (out ++ (x ++ y).take (count - out.length)) (x ++ y) fs) := by
  have hlen : count - out'.length = count - out.length - (x.take (count - out.length)).length := by
    rw [hout', List.length_append, Nat.sub_add_eq]
  have htake : out' ++ (x.drop (count - out.length) ++ y).take (count - out'.length) =
      out ++ (x ++ y).take (count - out.length) := by
    rw [hlen, hout', List.append_assoc, take_in_parts]
  rw [htake, hlen, filesAfter_in_parts (by omega)] at h
  exact h

/-- A read returns the next bytes of the first file ahead, as many as are asked
for and there; an empty one steps over the mark. -/
theorem readLoop_ahead {t : Tape} (count : Nat) (out : List Byte) {f : List Byte}
    {fs : List (List Byte)} (ht : t.Ahead (f :: fs)) :
    (t.readLoop count out).2 = out ++ f.take (count - out.length) ∧
      (t.readLoop count out).1.Ahead
        (filesAfter (count - out.length) (out ++ f.take (count - out.length)) f fs) := by
  fun_induction Tape.readLoop t count out generalizing f fs with
  | case1 t out hout hp t' h hne =>
      obtain ⟨l, hf, -, -⟩ := ahead_readBlock ht hp h
      obtain ⟨rfl, rfl⟩ := List.cons.inj hf
      rw [List.take_nil, List.append_nil, filesAfter, if_neg fun hc => hne hc.1, List.drop_nil]
      exact ⟨rfl, ht⟩
  | case2 t out hout hp t' h hnil =>
      obtain ⟨l, hf, -, hl⟩ := ahead_readBlock ht hp h
      obtain ⟨rfl, rfl⟩ := List.cons.inj hf
      obtain rfl : out = [] := not_not.mp hnil
      have hahead := hl { t' with sawFilemark := true } rfl rfl
      have hpend : t'.pending = [] := by
        rw [← hp, ← readBlock_pending t, h]
      dsimp only at hahead
      rw [hpend, modifyHead_append_nil] at hahead
      dsimp only
      rw [hpend, List.take_nil, List.append_nil, filesAfter, if_pos ⟨rfl, by simpa using hout⟩,
        if_neg (itemFiles_ne_nil l)]
      exact ⟨rfl, hahead⟩
  | case3 t out hout hp t' h =>
      obtain ⟨l, hf, hnil, hl⟩ := ahead_readBlock ht hp h
      obtain ⟨rfl, rfl⟩ := List.cons.inj hf
      obtain rfl := hnil rfl
      have hahead := hl t' rfl rfl
      have hpend : t'.pending = [] := by
        rw [← hp, ← readBlock_pending t, h]
      rw [hpend, modifyHead_append_nil] at hahead
      rw [List.take_nil, List.append_nil, filesAfter, List.drop_nil, if_pos rfl, ite_self]
      exact ⟨rfl, hahead⟩
  | case4 t out hout need hp bs t' h =>
      rename_i ih
      obtain ⟨l, hf, -, hl⟩ := ahead_readBlock ht hp h
      obtain ⟨f', fs', hl'⟩ := List.exists_cons_of_ne_nil (itemFiles_ne_nil l)
      rw [blockFiles, hl', List.modifyHead_cons] at hf
      obtain ⟨rfl, rfl⟩ := List.cons.inj hf
      have hahead := hl { t' with sawFilemark := false, pending := bs.drop (count - out.length) } rfl rfl
      rw [hl', List.modifyHead_cons] at hahead
      exact readLoop_round hout rfl (ih hahead)
  | case5 t out hout need hp =>
      rename_i ih
      obtain ⟨before, after, eom, hat, hf⟩ := ht
      obtain ⟨f', fs', hl'⟩ := List.exists_cons_of_ne_nil (itemFiles_ne_nil after)
      rw [hl', List.modifyHead_cons] at hf
      obtain ⟨rfl, rfl⟩ := List.cons.inj hf
      apply readLoop_round hout rfl (ih ⟨before, after, eom, hat, _⟩)
      rw [hl', List.modifyHead_cons]
  | case6 t out hout =>
      rw [Nat.sub_eq_zero_of_le (by omega), List.take_zero, List.append_nil, filesAfter,
        if_neg fun hc => absurd hc.2 (Nat.lt_irrefl 0), List.drop_zero]
      exact ⟨rfl, ht⟩

/-! ### Runs of reads -/

/-- What the read requests `counts` of a session return. -/
def bodies (s : Session) (counts : List Int) : List (List Byte) :=
  (Exec.outputs Session.step Session.replies s (counts.map Command.R)).map Reply.body

theorem bodies_cons (t : Tape) (c : Int) (counts : List Int) :
    bodies { tape := t } (c :: counts) =
      (t.readData c).2 :: bodies { tape := (t.readData c).1 } counts := rfl

/-- The replies to the requests are those of a reader of the files `file 0`,
`file 1`, …, of the first of which `got` was returned before: no more than asked
for, from one file, less only at its end; an empty reply ends the file. -/
def Serves : (Nat → List Byte) → List Byte → List Int → List (List Byte) → Prop
  | _, _, [], [] => True
  | file, got, c :: counts, r :: rs =>
      (r.length : Int) ≤ c ∧ got ++ r <+: file 0 ∧ ((r.length : Int) < c → got ++ r = file 0) ∧
        if r = [] then Serves (fun z => file (z + 1)) [] counts rs
        else Serves file (got ++ r) counts rs
  | _, _, _, _ => False

/-- File `z` of a list; behind the last there are empty ones. -/
def fileAt (fs : List (List Byte)) (z : Nat) : List Byte := fs.getD z []

theorem fileAt_nil (z : Nat) : fileAt [] z = [] := List.getD_nil

theorem fileAt_orEmpty (fs : List (List Byte)) : fileAt (if fs = [] then [[]] else fs) = fileAt fs := by
  split
  · next h =>
    funext z
    rw [h, fileAt_nil]
    cases z with
    | zero => rfl
    | succ z => exact fileAt_nil z
  · rfl

theorem readData_ahead {t : Tape} {c : Int} {f : List Byte} {fs : List (List Byte)}
    (ht : t.Ahead (f :: fs)) (hc : 0 < c) :
    (t.readData c).2 = f.take c.toNat ∧
      (t.readData c).1.Ahead
        (if f = [] then (if fs = [] then [[]] else fs) else f.drop c.toNat :: fs) := by
  obtain ⟨hout, hahead⟩ := readLoop_ahead c.toNat [] ht
  rw [List.nil_append, List.length_nil, Nat.sub_zero] at hout hahead
  refine ⟨hout, ?_⟩
  have hpos : 0 < c.toNat := by omega
  have hiff : f.take c.toNat = [] ∧ 0 < c.toNat ↔ f = [] := by
    rw [List.take_eq_nil_iff, or_iff_right (by omega), and_iff_left hpos]
  unfold filesAfter at hahead
  simp only [hiff] at hahead
  exact hahead

theorem orEmpty_ne_nil (fs : List (List Byte)) : (if fs = [] then [[]] else fs) ≠ [] := by
  split
  · nofun
  · assumption

/-- The server is a reader of the files ahead. -/
theorem serves_of_ahead {t : Tape} {f got : List Byte} {fs : List (List Byte)}
    {file : Nat → List Byte} {counts : List Int} (ht : t.Ahead (f :: fs)) (hfirst : file 0 = got ++ f)
    (hrest : ∀ z, file (z + 1) = fileAt fs z) (hc : ∀ c ∈ counts, 0 < c) :
    Serves file got counts (bodies { tape := t } counts) := by
  induction counts generalizing t f got fs file with
  | nil => exact trivial
  | cons c counts ih =>
      have hpos := hc c List.mem_cons_self
      have htail : ∀ d ∈ counts, 0 < d := fun d hd => hc d (List.mem_cons_of_mem c hd)
      obtain ⟨hout, hahead⟩ := readData_ahead ht hpos
      rw [bodies_cons, hout]
      have hlen : (f.take c.toNat).length = min c.toNat f.length := List.length_take
      refine ⟨by omega, ?_, ?_, ?_⟩
      · rw [hfirst]
        exact (List.prefix_append_right_inj got).mpr (List.take_prefix _ f)
      · intro hshort
        rw [hfirst, List.take_of_length_le (by omega)]
      · by_cases hf : f = []
        · rw [if_pos hf] at hahead
          rw [hf, List.take_nil, if_pos rfl]
          obtain ⟨g, gs, hg⟩ := List.exists_cons_of_ne_nil (orEmpty_ne_nil fs)
          have hfiles : fileAt (g :: gs) = fileAt fs := by
            rw [← hg, fileAt_orEmpty]
          rw [hg] at hahead
          apply ih hahead _ _ htail
          · rw [hrest, ← hfiles]
            rfl
          · intro z
            rw [hrest, ← hfiles]
            rfl
        · rw [if_neg hf] at hahead
          have hne : f.take c.toNat ≠ [] := by
            rw [Ne, List.take_eq_nil_iff, or_iff_right (by omega)]
            exact hf
          rw [if_neg hne]
          apply ih hahead _ hrest htail
          rw [hfirst, List.append_assoc, List.take_append_drop]

/-- A reader that is always served reads the first file ahead, and goes on being
served behind it. -/
theorem serves_next {t : Tape} {f : List Byte} {fs : List (List Byte)} {file : Nat → List Byte}
    (ht : t.Ahead (f :: fs))
    (hall : ∀ counts : List Int, (∀ c ∈ counts, 0 < c) →
      Serves file [] counts (bodies { tape := t } counts)) :
    file 0 = f ∧ ∃ t' : Tape, t'.Ahead (if fs = [] then [[]] else fs) ∧
      ∀ counts : List Int, (∀ c ∈ counts, 0 < c) →
        Serves (fun z => file (z + 1)) [] counts (bodies { tape := t' } counts) := by
  have hbig : 0 < (f.length : Int) + 1 := by omega
  have hone : ∀ {c : Int} {counts : List Int}, 0 < c → (∀ d ∈ counts, 0 < d) →
      ∀ d ∈ c :: counts, 0 < d := by
    intro c counts hc hcounts d hd
    rcases List.mem_cons.mp hd with rfl | hd
    · exact hc
    · exact hcounts d hd
  obtain ⟨hout, hahead⟩ := readData_ahead ht hbig
  have htake : f.take ((f.length : Int) + 1).toNat = f := List.take_of_length_le (by omega)
  have hdrop : f.drop ((f.length : Int) + 1).toNat = [] := List.drop_of_length_le (by omega)
  rw [htake] at hout
  have hfile : file 0 = f := by
    have hserved := hall [(f.length : Int) + 1] (hone hbig nofun)
    rw [bodies_cons, hout] at hserved
    exact (hserved.2.2.1 (by omega)).symm
  refine ⟨hfile, ?_⟩
  by_cases hf : f = []
  · rw [if_pos hf] at hahead
    refine ⟨_, hahead, fun counts hcounts => ?_⟩
    have hserved := hall (((f.length : Int) + 1) :: counts) (hone hbig hcounts)
    rw [bodies_cons, hout] at hserved
    have hrest := hserved.2.2.2
    rw [if_pos hf] at hrest
    exact hrest
  · rw [if_neg hf, hdrop] at hahead
    obtain ⟨hout', hahead'⟩ := readData_ahead hahead Int.one_pos
    rw [if_pos rfl] at hahead'
    refine ⟨_, hahead', fun counts hcounts => ?_⟩
    have hserved := hall (((f.length : Int) + 1) :: 1 :: counts) (hone hbig (hone Int.one_pos hcounts))
    rw [bodies_cons, hout, bodies_cons, hout'] at hserved
    have hrest := hserved.2.2.2
    rw [if_neg hf] at hrest
    exact hrest.2.2.2

/-- A reader that is always served reads the files ahead. -/
theorem file_eq_of_serves {t : Tape} {f : List Byte} {fs : List (List Byte)} {file : Nat → List Byte}
    (ht : t.Ahead (f :: fs))
    (hall : ∀ counts : List Int, (∀ c ∈ counts, 0 < c) →
      Serves file [] counts (bodies { tape := t } counts)) (z : Nat) :
    file z = fileAt (f :: fs) z := by
  induction z generalizing t f fs file with
  | zero => exact (serves_next ht hall).1
  | succ z ih =>
      obtain ⟨-, t', ht', hall'⟩ := serves_next ht hall
      obtain ⟨g, gs, hg⟩ := List.exists_cons_of_ne_nil (orEmpty_ne_nil fs)
      rw [hg] at ht'
      rw [ih ht' hall', ← hg, fileAt_orEmpty]
      rfl

/-! ### Writing a tape -/

/-- What is written to a tape. -/
inductive TapeWrite where
  | record (data : List Byte)
  | marks (count : Int)

def TapeWrite.command : TapeWrite → Command
  | .record data => .W data
  | .marks count => .I mtWeof count

/-- The concatenated records between the written tape marks. -/
def files : List TapeWrite → List (List Byte)
  | [] => [[]]
  | .record data :: ops => (files ops).modifyHead (data ++ ·)
  | .marks count :: ops => List.replicate count.toNat [] ++ files ops

/-- The items that stand on the tape for it: an empty record is two tape marks. -/
def TapeWrite.items : TapeWrite → List Item
  | .record data =>
      if h : data ≠ [] ∧ data.length < 2 ^ 31 then [.record (recordOf data h.1 h.2)]
      else [.mark, .mark]
  | .marks count => List.replicate count.toNat .mark

def itemsOf (ops : List TapeWrite) : List Item := ops.flatMap TapeWrite.items

/-- Every record is short enough for its header. -/
def Short (ops : List TapeWrite) : Prop := ∀ data, TapeWrite.record data ∈ ops → data.length < 2 ^ 31

/-- The tape after the items `l` have been written to it. -/
def written (l : List Item) : Tape := { image := bytes l, pos := (bytes l).length }

theorem write_written (l m : List Item) :
    (written l).reposition.write (bytes m) = written (l ++ m) := by
  unfold written Tape.reposition Tape.write
  dsimp only
  rw [List.take_length, Nat.sub_self, bytes_append, List.length_append]
  rfl

theorem writeMarks_written (n : Nat) (l : List Item) :
    Tape.writeMarks n (written l) = written (l ++ List.replicate n .mark) := by
  induction n generalizing l with
  | zero => rw [List.replicate_zero, List.append_nil, Tape.writeMarks]
  | succ n ih =>
      have hmark : (written l).writeMark = written (l ++ [.mark]) := write_written l [.mark]
      rw [Tape.writeMarks, hmark, ih, List.replicate_succ, List.append_assoc]
      rfl

theorem items_empty : (TapeWrite.record []).items = [.mark, .mark] := by
  rw [TapeWrite.items, dif_neg]
  exact fun h => h.1 rfl

theorem items_record {data : List Byte} (hne : data ≠ []) (hlt : data.length < 2 ^ 31) :
    (TapeWrite.record data).items = [.record (recordOf data hne hlt)] := by
  rw [TapeWrite.items, dif_pos ⟨hne, hlt⟩]

theorem writeBlock_written (l : List Item) {data : List Byte} (hlt : data.length < 2 ^ 31) :
    (written l).writeBlock data = some (written (l ++ (TapeWrite.record data).items)) := by
  by_cases hne : data = []
  · rw [hne, items_empty, ← write_written]
    rfl
  · rw [items_record hne hlt, ← write_written, bytes_singleton]
    exact writeBlock_eq hne hlt

theorem step_write (l : List Item) (op : TapeWrite) (hop : Short [op]) :
    Session.step { tape := written l } op.command = { tape := written (l ++ op.items) } := by
  cases op with
  | record data =>
      have hwrite := writeBlock_written l (hop data List.mem_cons_self)
      unfold Session.step Tape.handle TapeWrite.command
      dsimp only
      rw [hwrite]
      rfl
  | marks count =>
      rw [TapeWrite.items, ← writeMarks_written]
      rfl

theorem run_writes (l : List Item) {ops : List TapeWrite} (hops : Short ops) :
    Exec.run Session.step { tape := written l } (ops.map TapeWrite.command) =
      { tape := written (l ++ itemsOf ops) } := by
  induction ops generalizing l with
  | nil =>
      rw [itemsOf, List.flatMap_nil, List.append_nil]
      rfl
  | cons op ops ih =>
      have hop : Short [op] := fun data hd =>
        hops data (List.mem_cons.mpr (.inl (List.mem_singleton.mp hd)))
      have hrest : Short ops := fun data hd => hops data (List.mem_cons_of_mem op hd)
      rw [List.map_cons, Exec.run_cons, step_write l op hop, ih _ hrest, itemsOf, itemsOf,
        List.flatMap_cons, List.append_assoc]

/-- Commands that rewind the tape. -/
def Command.Rewinds (c : Command) : Prop :=
  c = .L 0 0 ∨ ∃ count, c = .I mtRew count ∨ c = .I mtOffl count

theorem step_rewind (l : List Item) {c : Command} (hc : c.Rewinds) :
    Session.step { tape := written l } c = { tape := { image := bytes l, pos := 0 } } := by
  rcases hc with rfl | ⟨count, rfl | rfl⟩ <;> rfl

/-- After the writes and the rewind the tape stands before what was written. -/
theorem run_rewound {ops : List TapeWrite} (hops : Short ops) {c : Command} (hc : c.Rewinds) :
    ∃ t : Tape, t.Ahead (itemFiles (itemsOf ops)) ∧
      Exec.run Session.step (Session.opened []) (ops.map TapeWrite.command ++ [c]) =
        { tape := t } := by
  refine ⟨{ image := bytes (itemsOf ops), pos := 0 }, ?_, ?_⟩
  · refine ⟨[], itemsOf ops, false, ⟨?_, rfl⟩, (modifyHead_append_nil _).symm⟩
    exact (List.append_nil _).symm
  · have hrun := run_writes [] hops
    rw [List.nil_append] at hrun
    have hstart : Session.opened [] = { tape := written [] } := rfl
    rw [Exec.run_append, hstart, hrun]
    exact step_rewind _ hc

/-- What is written is read back: the replies to any positive requests after a
rewind are those of a reader of the written files. -/
def ReadsBack (ops : List TapeWrite) : Prop :=
  ∀ c : Command, c.Rewinds → ∀ counts : List Int, (∀ n ∈ counts, 0 < n) →
    Serves (fileAt (files ops)) [] counts
      (bodies (Exec.run Session.step (Session.opened []) (ops.map TapeWrite.command ++ [c])) counts)

theorem readsBack_iff {ops : List TapeWrite} (hops : Short ops) :
    ReadsBack ops ↔ ∀ z, fileAt (files ops) z = fileAt (itemFiles (itemsOf ops)) z := by
  obtain ⟨f, fs, hf⟩ := List.exists_cons_of_ne_nil (itemFiles_ne_nil (itemsOf ops))
  constructor
  · intro h z
    have hrew : (Command.L 0 0).Rewinds := .inl rfl
    obtain ⟨t, ht, hrun⟩ := run_rewound hops hrew
    rw [hf] at ht
    rw [hf]
    apply file_eq_of_serves ht
    intro counts hcounts
    rw [← hrun]
    exact h _ hrew counts hcounts
  · intro h c hc counts hcounts
    obtain ⟨t, ht, hrun⟩ := run_rewound hops hc
    rw [hf] at ht
    rw [hrun]
    apply serves_of_ahead ht _ _ hcounts
    · rw [h, hf]
      rfl
    · intro z
      rw [h, hf]
      rfl

/-! ### Empty records -/

/-- A non-empty record is written. -/
def HasData (ops : List TapeWrite) : Prop := ∃ data, TapeWrite.record data ∈ ops ∧ data ≠ []

/-- An empty record is written before a non-empty one. -/
def EmptyBeforeData : List TapeWrite → Prop
  | [] => False
  | .record data :: ops => (data = [] ∧ HasData ops) ∨ EmptyBeforeData ops
  | .marks _ :: ops => EmptyBeforeData ops

theorem HasData.cons {ops : List TapeWrite} (h : HasData ops) (op : TapeWrite) :
    HasData (op :: ops) := by
  obtain ⟨data, hmem, hne⟩ := h
  exact ⟨data, List.mem_cons_of_mem op hmem, hne⟩

theorem EmptyBeforeData.hasData {ops : List TapeWrite} (h : EmptyBeforeData ops) : HasData ops := by
  induction ops with
  | nil => exact h.elim
  | cons op ops ih =>
      cases op with
      | record data => exact (h.elim And.right ih).cons _
      | marks count => exact (ih h).cons _

/-- The files that stand on the tape. -/
def taped (ops : List TapeWrite) : List (List Byte) := itemFiles (itemsOf ops)

theorem taped_empty (ops : List TapeWrite) : taped (.record [] :: ops) = [] :: [] :: taped ops := by
  rw [taped, itemsOf, List.flatMap_cons, items_empty]
  rfl

theorem taped_record {data : List Byte} (hne : data ≠ []) (hlt : data.length < 2 ^ 31)
    (ops : List TapeWrite) :
    taped (.record data :: ops) = (taped ops).modifyHead (data ++ ·) := by
  rw [taped, itemsOf, List.flatMap_cons, items_record hne hlt]
  rfl

theorem taped_marks (count : Int) (ops : List TapeWrite) :
    taped (.marks count :: ops) = List.replicate count.toNat [] ++ taped ops := by
  rw [taped, itemsOf, List.flatMap_cons, TapeWrite.items]
  generalize count.toNat = n
  induction n with
  | zero => rfl
  | succ n ih =>
      rw [List.replicate_succ, List.replicate_succ, List.cons_append, List.cons_append, ← ih]
      rfl

theorem files_ne_nil (ops : List TapeWrite) : files ops ≠ [] := by
  induction ops with
  | nil => nofun
  | cons op ops ih =>
      cases op with
      | record data =>
          intro h
          exact ih (List.modifyHead_eq_nil_iff.mp h)
      | marks count =>
          intro h
          exact ih (List.append_eq_nil_iff.mp h).2

theorem fileAt_modifyHead {fs : List (List Byte)} (hfs : fs ≠ []) (x : List Byte) (z : Nat) :
    fileAt (fs.modifyHead (x ++ ·)) z = if z = 0 then x ++ fileAt fs 0 else fileAt fs z := by
  obtain ⟨f, fs, rfl⟩ := List.exists_cons_of_ne_nil hfs
  cases z <;> rfl

theorem fileAt_replicate (n : Nat) (fs : List (List Byte)) (z : Nat) :
    fileAt (List.replicate n [] ++ fs) z = if z < n then [] else fileAt fs (z - n) := by
  unfold fileAt
  split
  · next h =>
    rw [List.getD_append _ _ _ _ (by rw [List.length_replicate]; exact h), List.getD_replicate]
    exact h
  · next h =>
    rw [List.getD_append_right _ _ _ _ (by rw [List.length_replicate]; omega), List.length_replicate]

/-- The tape holds no data before the first that was written. -/
theorem taped_lead {ops : List TapeWrite} (hops : Short ops) {m : Nat}
    (h : ∀ y, y < m → fileAt (files ops) y = []) : ∀ y, y < m → fileAt (taped ops) y = [] := by
  induction ops generalizing m with
  | nil => exact h
  | cons op ops ih =>
      have hrest : Short ops := fun data hd => hops data (List.mem_cons_of_mem op hd)
      cases op with
      | record data =>
          by_cases hne : data = []
          · rw [hne] at h ⊢
            rw [taped_empty]
            rw [files, modifyHead_append_nil] at h
            intro y hy
            match y with
            | 0 => rfl
            | 1 => rfl
            | y + 2 => exact ih hrest h y (by omega)
          · cases m with
            | zero =>
                intro y hy
                omega
            | succ m =>
                have hzero := h 0 (Nat.succ_pos m)
                rw [files, fileAt_modifyHead (files_ne_nil ops), if_pos rfl] at hzero
                exact absurd (List.append_eq_nil_iff.mp hzero).1 hne
      | marks count =>
          intro y hy
          rw [taped_marks, fileAt_replicate]
          split
          · rfl
          · next hge =>
            apply ih hrest (m := m - count.toNat) _ _ (by omega)
            intro x hx
            have hfile := h (x + count.toNat) (by omega)
            rw [files, fileAt_replicate, if_neg (by omega), Nat.add_sub_cancel] at hfile
            exact hfile

theorem exists_file_of_hasData {ops : List TapeWrite} (h : HasData ops) :
    ∃ z, fileAt (files ops) z ≠ [] := by
  induction ops with
  | nil =>
      obtain ⟨data, hmem, -⟩ := h
      cases hmem
  | cons op ops ih =>
      obtain ⟨data, hmem, hne⟩ := h
      cases op with
      | record d =>
          by_cases hd : d = []
          · have hmem' : TapeWrite.record data ∈ ops := by
              rcases List.mem_cons.mp hmem with heq | hmem
              · cases heq
                exact absurd hd hne
              · exact hmem
            rw [hd, files, modifyHead_append_nil]
            exact ih ⟨data, hmem', hne⟩
          · refine ⟨0, ?_⟩
            rw [files, fileAt_modifyHead (files_ne_nil ops), if_pos rfl]
            exact fun hnil => hd (List.append_eq_nil_iff.mp hnil).1
      | marks count =>
          have hmem' : TapeWrite.record data ∈ ops := by
            rcases List.mem_cons.mp hmem with heq | hmem
            · cases heq
            · exact hmem
          obtain ⟨z, hz⟩ := ih ⟨data, hmem', hne⟩
          refine ⟨z + count.toNat, ?_⟩
          rw [files, fileAt_replicate, if_neg (by omega), Nat.add_sub_cancel]
          exact hz

/-- Without data the files are empty, as written and on the tape. -/
theorem no_data {ops : List TapeWrite} (hops : Short ops) (h : ¬ HasData ops) (z : Nat) :
    fileAt (files ops) z = [] ∧ fileAt (taped ops) z = [] := by
  have hall : ∀ y, fileAt (files ops) y = [] := by
    induction ops with
    | nil =>
        intro y
        cases y with
        | zero => rfl
        | succ y => exact fileAt_nil y
    | cons op ops ih =>
        have hrest := ih (fun data hd => hops data (List.mem_cons_of_mem op hd)) fun hd => h (hd.cons op)
        intro y
        cases op with
        | record data =>
            have hnil : data = [] := by
              by_contra hne
              exact h ⟨data, List.mem_cons_self, hne⟩
            rw [hnil, files, modifyHead_append_nil]
            exact hrest y
        | marks count =>
            rw [files, fileAt_replicate]
            split
            · rfl
            · exact hrest _
  exact ⟨hall z, taped_lead hops (m := z + 1) (fun y _ => hall y) z (Nat.lt_succ_self z)⟩

/-- The files on the tape are the written ones exactly if no empty record was
written before data. -/
theorem files_eq_taped_iff {ops : List TapeWrite} (hops : Short ops) :
    (∀ z, fileAt (files ops) z = fileAt (taped ops) z) ↔ ¬ EmptyBeforeData ops := by
  induction ops with
  | nil => exact iff_of_true (fun z => rfl) id
  | cons op ops ih =>
      have hrest : Short ops := fun data hd => hops data (List.mem_cons_of_mem op hd)
      cases op with
      | record data =>
          by_cases hne : data = []
          · rw [hne, taped_empty, files, modifyHead_append_nil]
            constructor
            · intro heq
              have hnone : ¬ HasData ops := by
                intro hd
                have hex := exists_file_of_hasData hd
                have hlead := taped_lead hrest fun y hy => not_not.mp (Nat.find_min hex hy)
                have hfound := Nat.find_spec hex
                have h0 : Nat.find hex ≠ 0 := by
                  intro hz
                  rw [hz] at hfound
                  exact hfound (heq 0)
                have h1 : Nat.find hex ≠ 1 := by
                  intro hz
                  rw [hz] at hfound
                  exact hfound (heq 1)
                obtain ⟨m, hm⟩ : ∃ m, Nat.find hex = m + 2 := ⟨Nat.find hex - 2, by omega⟩
                have hshift : fileAt (files ops) (m + 2) = fileAt (taped ops) m := heq (m + 2)
                rw [hm] at hfound
                exact hfound (hshift.trans (hlead m (by omega)))
              exact fun h => hnone (h.elim And.right EmptyBeforeData.hasData)
            · intro h z
              have hnone : ¬ HasData ops := fun hd => h (.inl ⟨rfl, hd⟩)
              rw [(no_data hrest hnone z).1]
              match z with
              | 0 => rfl
              | 1 => rfl
              | z + 2 => exact (no_data hrest hnone z).2.symm
          · have hlt := hops data List.mem_cons_self
            have hiff : EmptyBeforeData (.record data :: ops) ↔ EmptyBeforeData ops :=
              or_iff_right fun h => hne h.1
            rw [hiff, ← ih hrest, taped_record hne hlt, files]
            apply forall_congr'
            intro z
            have htaped : taped ops ≠ [] := itemFiles_ne_nil _
            rw [fileAt_modifyHead (files_ne_nil ops), fileAt_modifyHead htaped]
            split
            · next hz =>
              rw [hz]
              exact List.append_right_inj data
            · rfl
      | marks count =>
          have hiff : EmptyBeforeData (.marks count :: ops) ↔ EmptyBeforeData ops := Iff.rfl
          rw [hiff, ← ih hrest, taped_marks, files]
          constructor
          · intro h z
            have hz := h (z + count.toNat)
            rw [fileAt_replicate, fileAt_replicate, if_neg (by omega), if_neg (by omega),
              Nat.add_sub_cancel] at hz
            exact hz
          · intro h z
            rw [fileAt_replicate, fileAt_replicate, h]

/-- **What is written to a tape is read back** exactly if no empty record is
written before a non-empty one: the replies to any positive requests coalesce
and split the records of one file, fall short only at its end, and end each file
with one empty reply. -/
theorem tape_reads_back (ops : List TapeWrite) (hops : Short ops) :
    ReadsBack ops ↔ ¬ EmptyBeforeData ops :=
  (readsBack_iff hops).trans (files_eq_taped_iff hops)

theorem tape_reads_back_sample :
    ReadsBack [.record [1, 2, 3], .marks 2, .record [4]] := by
  have hops : Short [.record [1, 2, 3], .marks 2, .record [4]] := by
    intro data hd
    simp only [List.mem_cons, List.not_mem_nil, or_false, TapeWrite.record.injEq, reduceCtorEq,
      false_or] at hd
    rcases hd with rfl | rfl <;> decide
  apply (tape_reads_back _ hops).mpr
  rintro (⟨h, -⟩ | ⟨h, -⟩ | h)
  · cases h
  · cases h
  · exact h

/-- An empty record before a record of one byte: the first read finds the tape
mark that stands for it. -/
theorem empty_record_read_as_marks : ¬ ReadsBack [.record [], .record [1]] := by
  have hops : Short [.record [], .record [1]] := by
    intro data hd
    simp only [List.mem_cons, List.not_mem_nil, or_false, TapeWrite.record.injEq] at hd
    rcases hd with rfl | rfl <;> decide
  intro h
  have hfirst : [1] = ([] : List Byte) := (readsBack_iff hops).mp h 0
  cases hfirst

end Rmt
