import Mathlib
import OsxVlm.Library.Execution
import OsxVlm.Tape.Rmtd

/-!
# The tape image stays well formed

Forward motion, status and writing keep the position between items; so does
backward motion, except over an erase gap: the word before it is taken for the
trailer of a record of nearly two gigabytes (`BackSafe` says when that does no
harm).  A record of two gigabytes or more is written with a header that says
something else.
-/

namespace Rmt

open Simh

/-! ### Reading from a place -/

theorem readBlockAt_pack {n : Nat} (hn : n < 2 ^ 32) (rest : List Byte) (pos : Nat) :
    readBlockAt (pack n ++ rest) pos =
      if n = tapeMark then (.mark, pos + 4)
      else if n = eraseGap then readBlockAt rest (pos + 4)
      else if n = eomMark then (.eom, pos)
      else (.data (rest.take (dataLength n)),
        pos + 4 + min rest.length (dataLength n + dataLength n % 2 + 4)) := by
  change readBlockAt (_ :: _ :: _ :: _ :: rest) pos = _
  rw [readBlockAt]
  simp only [unpack_pack hn]

/-- A forward read from the start of an item finds the next block and stops
after its item. -/
theorem readBlockAt_items (l : List Item) (eom : Bool) (pos : Nat) :
    ∃ k, l = k ++ (next l).2 ∧
      readBlockAt (bytes l ++ ending eom) pos = ((next l).1, pos + (bytes k).length) := by
  induction l generalizing pos with
  | nil =>
      refine ⟨[], rfl, ?_⟩
      cases eom with
      | false => rfl
      | true =>
          change readBlockAt (pack eomMark ++ []) pos = _
          rw [readBlockAt_pack (by decide)]
          rfl
  | cons i l ih =>
      rw [bytes_cons, List.append_assoc]
      cases i with
      | gap =>
          obtain ⟨k, hk, hread⟩ := ih (pos + 4)
          refine ⟨.gap :: k, congrArg (Item.gap :: ·) hk, ?_⟩
          rw [Item.bytes, readBlockAt_pack (by decide), if_neg (by decide), if_pos rfl, hread,
            bytes_cons, List.length_append, Item.bytes, length_pack, ← Nat.add_assoc]
          rfl
      | mark =>
          refine ⟨[.mark], rfl, ?_⟩
          rw [Item.bytes, readBlockAt_pack (by decide), if_pos rfl]
          rfl
      | record r =>
          refine ⟨[.record r], rfl, ?_⟩
          rw [Item.bytes, Record.bytes]
          simp only [List.append_assoc]
          rw [readBlockAt_pack r.header_lt, if_neg r.not_mark, if_neg r.not_gap, if_neg r.not_eom,
            ← r.length_data, List.take_left, bytes_cons, List.length_append, Item.bytes]
          apply Prod.ext
          · rfl
          · simp only [bytes, List.flatMap_nil, List.length_nil, List.length_append, length_pack,
              length_record, r.length_pad, r.length_data]
            omega

theorem readBlock_at {t : Tape} {before after : List Item} {eom : Bool}
    (h : At t.image t.pos before after eom) :
    ∃ k, after = k ++ (next after).2 ∧ t.readBlock.1 = (next after).1 ∧
      At t.readBlock.2.image t.readBlock.2.pos (before ++ k) (next after).2 eom := by
  obtain ⟨k, hk, hread⟩ := readBlockAt_items after eom t.pos
  rw [← h.drop] at hread
  refine ⟨k, hk, congrArg Prod.fst hread, ?_⟩
  rw [hk] at h
  have hat := h.forward
  have hpos : t.readBlock.2.pos = t.pos + (bytes k).length := congrArg Prod.snd hread
  rw [hpos]
  exact hat

/-- The image is well formed and the position one of its places. -/
def Tape.Placed (t : Tape) : Prop := Boundary t.image t.pos

theorem placed_readBlock {t t' : Tape} {b : Block} (ht : t.Placed) (h : t.readBlock = (b, t')) :
    t'.Placed := by
  obtain ⟨before, after, eom, hat⟩ := ht
  obtain ⟨k, -, -, hat'⟩ := readBlock_at hat
  rw [h] at hat'
  exact hat'.boundary

theorem placed_readLoop {t : Tape} {count : Nat} {out : List Byte} (ht : t.Placed) :
    (t.readLoop count out).1.Placed := by
  fun_induction Tape.readLoop t count out with
  | case1 => exact ht
  | case2 _ _ _ _ _ h _ =>
      have hread := placed_readBlock ht h
      exact hread
  | case3 _ _ _ _ _ h => exact placed_readBlock ht h
  | case4 _ _ _ _ _ _ _ h ih =>
      have hread := placed_readBlock ht h
      exact ih hread
  | case5 _ _ _ _ _ ih => exact ih ht
  | case6 => exact ht

theorem placed_skipFile {t : Tape} (ht : t.Placed) : t.skipFile.2.Placed := by
  fun_induction Tape.skipFile t with
  | case1 _ _ h => exact placed_readBlock ht h
  | case2 _ _ h => exact placed_readBlock ht h
  | case3 _ _ _ h ih => exact ih (placed_readBlock ht h)

theorem placed_fsfLoop {n : Nat} {t : Tape} (ht : t.Placed) : (Tape.fsfLoop n t).Placed := by
  fun_induction Tape.fsfLoop n t with
  | case1 => exact ht
  | case2 n t t' h =>
      have := placed_skipFile ht
      rw [h] at this
      exact this
  | case3 n t t' h ih =>
      have := placed_skipFile ht
      rw [h] at this
      exact ih this

theorem placed_fsrLoop {n : Nat} {t : Tape} (ht : t.Placed) : (Tape.fsrLoop n t).Placed := by
  fun_induction Tape.fsrLoop n t with
  | case1 => exact ht
  | case2 _ _ _ h => exact placed_readBlock ht h
  | case3 _ _ _ h => exact placed_readBlock ht h
  | case4 _ _ _ _ h ih => exact ih (placed_readBlock ht h)

theorem placed_eomLoop {t : Tape} (ht : t.Placed) : t.eomLoop.Placed := by
  fun_induction Tape.eomLoop t with
  | case1 _ _ h => exact placed_readBlock ht h
  | case2 _ _ h ih => exact ih (placed_readBlock ht h)
  | case3 _ _ _ h ih => exact ih (placed_readBlock ht h)

/-! ### Stepping back -/

/-- A backward step believes the word before the position. -/
theorem backOne_eq {t : Tape} {before after : List Item} {i : Item} {eom : Bool}
    (h : At t.image t.pos (before ++ [i]) after eom) :
    t.backOne = some (
      if lastWord i = tapeMark then (.mark, { t with pos := t.pos - 4 })
      else
        let length := dataLength (lastWord i)
        (.data, { t with pos := t.pos - 4 - length % 2 - length - 4 })) := by
  obtain ⟨hpos, -, hdrop⟩ := h.word_before
  unfold Tape.backOne
  rw [if_neg (by omega), if_neg (by omega), hdrop]
  change (if unpack _ _ _ _ = tapeMark then _ else _) = _
  rw [unpack_pack (lastWord_lt i)]
  split <;> rfl

/-- How far back the word of an erase gap leads when it is taken for a trailer. -/
@[irreducible] def gapJump : Nat := dataLength eraseGap + 8

theorem backOne_gap {t : Tape} {before after : List Item} {eom : Bool}
    (h : At t.image t.pos (before ++ [.gap]) after eom) :
    t.backOne = some (.data, { t with pos := t.pos - gapJump }) := by
  have hlen : t.pos - 4 - dataLength eraseGap % 2 - dataLength eraseGap - 4 = t.pos - gapJump := by
    rw [show dataLength eraseGap % 2 = 0 by decide, gapJump]
    omega
  rw [backOne_eq h, if_neg (show lastWord .gap ≠ tapeMark by decide), lastWord]
  dsimp only
  rw [hlen]

/-- If an erase gap lies before the position, what its word says of a record
does not lead into the middle of an item. -/
def BackSafe (t : Tape) : Prop :=
  (t.image.take t.pos).drop (t.pos - 4) = pack eraseGap →
    Boundary t.image (t.pos - gapJump)

/-- One step back from a place leads to a place. -/
theorem placed_backOne {t : Tape} (ht : t.Placed) (hsafe : BackSafe t) :
    ∃ k t', t.backOne = some (k, t') ∧ t'.Placed := by
  obtain ⟨before, after, eom, hat⟩ := ht
  rcases List.eq_nil_or_concat before with rfl | ⟨l, i, rfl⟩
  · have hpos : t.pos = 0 := hat.pos_eq
    refine ⟨.bot, { t with pos := 0 }, if_pos hpos, ?_⟩
    rw [hpos] at hat
    exact hat.boundary
  · rw [List.concat_eq_append] at hat
    have hback := backOne_eq hat
    have hprev := hat.backward
    rw [bytes_cons, List.length_append] at hprev
    cases i with
    | mark =>
        refine ⟨.mark, _, hback, ?_⟩
        exact hprev.boundary
    | record r =>
        rw [if_neg (show lastWord (.record r) ≠ tapeMark from r.not_mark)] at hback
        refine ⟨.data, _, hback, ?_⟩
        have hlen : t.pos - 4 - dataLength r.header % 2 - dataLength r.header - 4 =
            t.pos - ((Item.record r).bytes.length + (bytes []).length) := by
          rw [Item.bytes, length_record, bytes, List.flatMap_nil, List.length_nil]
          omega
        unfold Tape.Placed
        rw [← hlen] at hprev
        exact hprev.boundary
    | gap => exact ⟨.data, _, backOne_gap hat, hsafe hat.word_before.2.1⟩

/-- Behind an erase gap `BackSafe` is exactly what a backward step needs. -/
theorem placed_backOne_gap {t : Tape} {before after : List Item} {eom : Bool}
    (h : At t.image t.pos (before ++ [.gap]) after eom) :
    ∃ t', t.backOne = some (.data, t') ∧ (t'.Placed ↔ BackSafe t) := by
  refine ⟨_, backOne_gap h, ?_⟩
  constructor
  · intro hplaced _
    exact hplaced
  · intro hsafe
    exact hsafe h.word_before.2.1

/-- The places from which a backward command steps back. -/
inductive BackPlaces (perFile : Bool) : Nat → Tape → Tape → Prop where
  | here {n : Nat} {t : Tape} : BackPlaces perFile (n + 1) t t
  | mark {n : Nat} {t t' u : Tape} (h : t.backOne = some (.mark, t'))
      (hu : BackPlaces perFile n t' u) : BackPlaces perFile (n + 1) t u
  | data {n : Nat} {t t' u : Tape} (h : t.backOne = some (.data, t'))
      (hu : BackPlaces perFile (if perFile then n + 1 else n) t' u) :
      BackPlaces perFile (n + 1) t u

theorem placed_backLoop {perFile : Bool} {n : Nat} {t : Tape} (ht : t.Placed)
    (hsafe : ∀ u, BackPlaces perFile n t u → BackSafe u) :
    ∃ t', t.backLoop perFile n = some t' ∧ t'.Placed := by
  fun_induction Tape.backLoop perFile n t with
  | case1 t => exact ⟨t, rfl, ht⟩
  | case2 t n h =>
      obtain ⟨k, t', h', -⟩ := placed_backOne ht (hsafe t .here)
      cases h.symm.trans h'
  | case3 t n t' h =>
      obtain ⟨k, u, h', hu⟩ := placed_backOne ht (hsafe t .here)
      cases h.symm.trans h'
      exact ⟨t', rfl, hu⟩
  | case4 t n t' h ih =>
      obtain ⟨k, u, h', hu⟩ := placed_backOne ht (hsafe t .here)
      cases h.symm.trans h'
      exact ih hu fun v hv => hsafe v (.mark h hv)
  | case5 t n t' h ih =>
      obtain ⟨k, u, h', hu⟩ := placed_backOne ht (hsafe t .here)
      cases h.symm.trans h'
      exact ih hu fun v hv => hsafe v (.data h hv)

/-! ### Writing -/

theorem placed_write {t : Tape} (ht : t.Placed) (i : Item) : (t.write i.bytes).Placed := by
  obtain ⟨before, after, eom, hat⟩ := ht
  have hle : t.pos - t.image.length = 0 := by
    rw [hat.image_eq, hat.pos_eq, List.length_append]
    omega
  refine ⟨before ++ [i], [], false, ?_, ?_⟩
  · unfold Tape.write
    rw [hat.take, hle, bytes_append, bytes_cons]
    simp only [bytes, ending, List.replicate_zero, List.flatMap_nil, List.nil_append,
      List.append_nil, Bool.false_eq_true, if_false]
  · unfold Tape.write
    dsimp only
    rw [hat.pos_eq, bytes_append, bytes_cons]
    simp only [bytes, List.flatMap_nil, List.append_nil, List.length_append]

/-- The record written for data of a length that its header can say. -/
def recordOf (data : List Byte) (hne : data ≠ []) (hlt : data.length < 2 ^ 31) : Record where
  header := data.length
  data := data
  pad := List.replicate (data.length % 2) 0
  header_lt := by omega
  not_mark := by
    have := List.length_pos_of_ne_nil hne
    unfold tapeMark
    omega
  not_gap := by
    unfold eraseGap
    omega
  not_eom := by
    unfold eomMark
    omega
  length_data := (Nat.mod_eq_of_lt hlt).symm
  length_pad := by rw [List.length_replicate, dataLength, Nat.mod_eq_of_lt hlt]

theorem writeBlock_eq {t : Tape} {data : List Byte} (hne : data ≠ []) (hlt : data.length < 2 ^ 31) :
    t.writeBlock data = some (t.reposition.write (Item.record (recordOf data hne hlt)).bytes) :=
  if_pos (show data.length < 2 ^ 32 by omega)

theorem placed_reposition {t : Tape} (ht : t.Placed) : t.reposition.Placed := ht

theorem placed_writeMarks {n : Nat} {t : Tape} (ht : t.Placed) : (Tape.writeMarks n t).Placed := by
  induction n generalizing t with
  | zero => exact ht
  | succ n ih => exact ih (placed_write (placed_reposition ht) .mark)

/-! ### Every run -/

/-- Everything but `L`, and no empty record. -/
def Command.Allowed : Command → Prop
  | .L _ _ => False
  | .W data => data ≠ []
  | _ => True

/-- What a command must meet: a record whose length its header can say (a
longer one that cannot even be packed ends the session), and no backward step
over an erase gap into the middle of an item. -/
def Command.Safe (t : Tape) : Command → Prop
  | .W data => data.length < 2 ^ 31 ∨ 2 ^ 32 ≤ data.length
  | .I op count =>
      (op = mtBsf → ∀ u, BackPlaces true count.toNat t.reposition u → BackSafe u) ∧
        (op = mtBsr → ∀ u, BackPlaces false count.toNat t.reposition u → BackSafe u)
  | _ => True

theorem placed_ioctl {t t' : Tape} {op count : Int} (ht : t.Placed)
    (hsafe : (Command.I op count).Safe t) (h : t.ioctl op count = some t') : t'.Placed := by
  unfold Tape.ioctl at h
  split_ifs at h with h1 h2 h3 h4 h5 h6 h7 h8
  · cases h
    exact placed_writeMarks ht
  · cases h
    exact placed_fsfLoop (placed_reposition ht)
  · obtain ⟨u, hu, hplaced⟩ := placed_backLoop (placed_reposition ht) (hsafe.1 h3)
    cases h.symm.trans hu
    exact hplaced
  · cases h
    exact placed_fsrLoop (placed_reposition ht)
  · obtain ⟨u, hu, hplaced⟩ := placed_backLoop (placed_reposition ht) (hsafe.2 h5)
    cases h.symm.trans hu
    exact hplaced
  · cases h
    obtain ⟨before, after, eom, hat⟩ := ht
    refine ⟨[], before ++ after, eom, ?_, rfl⟩
    rw [bytes_append, List.append_assoc]
    exact hat.image_eq
  · cases h
    exact placed_eomLoop (placed_reposition ht)
  · cases h
    exact ⟨[], [], false, rfl, rfl⟩
  · cases h
    exact ht

theorem placed_handle {t t' : Tape} {c : Command} {r : Reply} (ht : t.Placed) (hc : c.Allowed)
    (hsafe : c.Safe t) (h : t.handle c = some (t', r)) : t'.Placed := by
  cases c with
  | O =>
      cases h
      exact ht
  | C =>
      cases h
      exact ht
  | R count =>
      cases h
      exact placed_readLoop ht
  | W data =>
      obtain ⟨u, hu, hr⟩ := Option.map_eq_some_iff.mp h
      cases hr
      rcases hsafe with hlt | hge
      · rw [writeBlock_eq hc hlt] at hu
        cases hu
        exact placed_write (placed_reposition ht) _
      · cases (if_neg (show ¬ data.length < 2 ^ 32 by omega)).symm.trans hu
  | L offset whence => exact hc.elim
  | I op count =>
      obtain ⟨u, hu, hr⟩ := Option.map_eq_some_iff.mp h
      cases hr
      exact placed_ioctl ht hsafe hu
  | S =>
      cases h
      exact ht

theorem placed_step {s : Session} {c : Command} (hs : s.tape.Placed) (hc : c.Allowed)
    (hsafe : c.Safe s.tape) : (s.step c).tape.Placed := by
  unfold Session.step
  split
  · exact hs
  · split
    · exact hs
    · next t r h => exact placed_handle hs hc hsafe h

/-- **The tape image stays well formed**: after every command of a run that
starts at the beginning of a sequence of items, if each command is safe where it
is met, the image is such a sequence and the position the start of an item or
the end of the image. -/
theorem image_stays_wellFormed (items : List Item) (eom : Bool) {cs : List Command}
    (hok : Exec.Allowed Session.step (fun s c => c.Allowed ∧ c.Safe s.tape)
      (Session.opened (bytes items ++ ending eom)) cs) (n : Nat) :
    (Exec.runTo Session.step (Session.opened (bytes items ++ ending eom)) cs n).tape.Placed := by
  have hstart : (Session.opened (bytes items ++ ending eom)).tape.Placed :=
    ⟨[], items, eom, rfl, rfl⟩
  apply Exec.run_invariant (I := fun s => s.tape.Placed) _ (hok.take n) hstart
  intro s c hc hs
  exact placed_step hs hc.1 hc.2

theorem image_stays_wellFormed_sample :
    (Exec.runTo Session.step (Session.opened (bytes [.gap] ++ ending false))
      [.W [7], .I mtBsr 1] 2).tape.Placed := by
  apply image_stays_wellFormed [.gap] false
  refine ⟨⟨List.cons_ne_nil 7 [], .inl (by decide)⟩, ⟨trivial, ?_, ?_⟩, trivial⟩
  · intro h
    cases h
  · intro _ u hu
    cases hu with
    | here =>
        intro h
        exact absurd h (by decide +kernel)
    | mark h hu => cases hu
    | data h hu => cases hu

/-- An image that begins with the header of a record without data, and not its
trailer, is no sequence of items. -/
theorem not_boundary_of_header {h : Nat} {data rest : List Byte} {pos : Nat} (hlt : h < 2 ^ 32)
    (hmark : h ≠ tapeMark) (hgap : h ≠ eraseGap) (hnone : dataLength h = 0)
    (hdata : data.take 4 = pack tapeMark) (hlong : 4 < data.length) :
    ¬ Boundary (pack h ++ (data ++ rest)) pos := by
  intro ⟨before, after, eom, hat⟩
  have himage := hat.image_eq
  rw [← List.append_assoc (bytes before), ← bytes_append] at himage
  have hfour : ∀ l : List Byte, (data ++ l).take 4 = pack tapeMark := by
    intro l
    rw [List.take_append_of_le_length (by omega), hdata]
  cases hitems : before ++ after with
  | nil =>
      rw [hitems] at himage
      have hlen := congrArg List.length himage
      have hend : (ending eom).length ≤ 4 := by
        cases eom <;> decide
      simp only [bytes, List.flatMap_nil, List.length_append, length_pack, List.length_nil] at hlen
      omega
  | cons i l =>
      rw [hitems, bytes_cons] at himage
      obtain ⟨back, hback⟩ := bytes_eq_firstWord i
      rw [hback, List.append_assoc, List.append_assoc] at himage
      obtain ⟨hword, htail⟩ := List.append_inj himage rfl
      have hheader : h = lastWord i := pack_inj hlt (lastWord_lt i) hword
      cases i with
      | mark => exact hmark hheader
      | gap => exact hgap hheader
      | record r =>
          have hr : r.header = h := hheader.symm
          have hnodata : r.data = [] := by
            apply List.eq_nil_of_length_eq_zero
            rw [r.length_data, hr, hnone]
          have hnopad : r.pad = [] := by
            apply List.eq_nil_of_length_eq_zero
            rw [r.length_pad, hr, hnone]
          have htrailer : back = pack h := by
            rw [Item.bytes, Record.bytes, hnodata, hnopad] at hback
            rw [← hr]
            exact (List.append_cancel_left hback).symm
          have htake := congrArg (List.take 4) htail
          rw [hfour, htrailer, List.take_left' (length_pack h)] at htake
          exact hmark (pack_inj (by decide) hlt htake).symm

theorem write_empty_image (data : List Byte) (hlt : data.length < 2 ^ 32) :
    (Session.step (Session.opened []) (.W data)).tape.image =
      pack data.length ++ (data ++ (List.replicate (data.length % 2) 0 ++ pack data.length)) := by
  have hwrite : (Session.opened []).tape.writeBlock data =
      some ((Session.opened []).tape.reposition.write
        (pack data.length ++ (data ++ (List.replicate (data.length % 2) 0 ++ pack data.length)))) :=
    if_pos hlt
  unfold Session.step Tape.handle
  dsimp only
  rw [hwrite]
  rfl

/-- A record of two gigabytes is written with a header that says it has no data. -/
theorem long_record_not_placed :
    ¬ (Session.step (Session.opened []) (.W (List.replicate (2 ^ 31) 0))).tape.Placed := by
  have hlen : (List.replicate (2 ^ 31) (0 : Byte)).length = 2 ^ 31 := List.length_replicate
  have htake : (List.replicate (2 ^ 31) (0 : Byte)).take 4 = pack tapeMark := by
    rw [List.take_replicate, Nat.min_eq_left (by omega)]
    rfl
  generalize List.replicate (2 ^ 31) (0 : Byte) = data at *
  unfold Tape.Placed
  rw [write_empty_image data (by omega)]
  apply not_boundary_of_header _ _ _ _ htake
  · omega
  · omega
  · unfold tapeMark
    omega
  · unfold eraseGap
    omega
  · rw [hlen, dataLength, Nat.mod_self]

end Rmt
