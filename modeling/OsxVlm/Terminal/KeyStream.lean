import Mathlib
import OsxVlm.Library.Framing
import OsxVlm.Terminal.Keys

/-!
# What the keys of a session come to

`session_framed`: whatever is typed and however it is read, the bytes sent are whole
items of the protocol, and the logout after them when the session quits.
`session_flatten`: without Escape, the reads of a session may be joined as long as
none of them ends inside a sequence of bytes that is one text.
-/

namespace Terminal

open Framing

namespace Keyboard

/-- Whatever the tables and the texts of a keyboard send is whole items. -/
structure Sends {ι : Type} (item : ι → List Nat) (k : Keyboard) : Prop where
  menu : ∀ e ∈ k.menu, Framed item e.2
  csiFinal : ∀ e ∈ k.csiFinal, Framed item e.2
  csiTilde : ∀ e ∈ k.csiTilde, Framed item e.2
  escape : Framed item k.escape
  text : ∀ bytes, Framed item (k.text bytes)
  metaNext : ∀ n, Framed item (k.metaNext n)

/-- Whole items, and the logout after them when the user quits. -/
def Orderly {ι : Type} (item : ι → List Nat) (logout : List Nat) (r : KeyResult) : Prop :=
  ∃ items : List ι, r.bytes = items.flatMap item ++ if r.quit then logout else []

section Sends

variable {ι : Type} {item : ι → List Nat} {k : Keyboard}

theorem Orderly.none (logout : List Nat) : Orderly item logout .none := ⟨[], rfl⟩

theorem Orderly.sends (logout : List Nat) {out : List Nat} (h : Framed item out) :
    Orderly item logout (.sends out) := by
  obtain ⟨items, rfl⟩ := h
  exact ⟨items, by simp [KeyResult.sends]⟩

/-- Nothing follows a logout. -/
theorem Orderly.andThen {logout : List Nat} {r s : KeyResult} (hr : Orderly item logout r)
    (hs : Orderly item logout s) (hquit : r.quit = false) :
    Orderly item logout (r.andThen s) := by
  obtain ⟨xs, hx⟩ := hr
  obtain ⟨ys, hy⟩ := hs
  exact ⟨xs ++ ys, by simp [KeyResult.andThen, hx, hy, hquit]⟩

theorem framed_lookupSequence (h : k.Sends item) (final : Char) (params : List Char) :
    Framed item (k.lookupSequence final params) := by
  unfold lookupSequence
  split
  · split
    · exact Framed.nil
    · exact Framed.lookup h.csiTilde _
  · exact Framed.lookup h.csiFinal _

theorem feedFrom_orderly (h : k.Sends item) (menu : Bool) (bytes : List Nat) :
    Orderly item k.logout (k.feedFrom menu bytes).2 := by
  fun_induction feedFrom k menu bytes with
  | case1 menu => exact Orderly.none _
  | case2 b rest ch hq => exact ⟨[], by simp⟩
  | case3 b rest ch hq m r hr hh ih =>
      rw [hr] at ih
      exact Orderly.andThen ⟨[], by simp⟩ ih rfl
  | case4 b rest ch hq m r hr hh ih =>
      rw [hr] at ih
      exact (Orderly.sends _ (Framed.lookup h.menu ch)).andThen ih rfl
  | case5 rest ih => exact ih
  | case6 b rest hk hesc m r hr ih =>
      rw [hr] at ih
      exact (Orderly.sends _ (h.text _)).andThen ih rfl
  | case7 b hk hesc => exact Orderly.sends _ h.escape
  | case8 b hk hesc n rest hn hd => exact Orderly.none _
  | case9 b hk hesc n rest hn final after hd m r hr ih =>
      rw [hr] at ih
      exact (Orderly.sends _ (framed_lookupSequence h _ _)).andThen ih rfl
  | case10 b hk hesc n rest hn m r hr ih =>
      rw [hr] at ih
      exact (Orderly.sends _ (h.metaNext n)).andThen ih rfl

/-- Bytes are sent as they were written. -/
theorem feed_orderly (h : k.Sends item) (hitem : ∀ i, ∀ b ∈ item i, b < 256)
    (hlogout : ∀ b ∈ k.logout, b < 256) (menu : Bool) (chunk : List Nat) :
    Orderly item k.logout (k.feed menu chunk).2 := by
  obtain ⟨items, hbytes⟩ := feedFrom_orderly h menu chunk
  refine ⟨items, ?_⟩
  have hsmall : ∀ b ∈ (k.feedFrom menu chunk).2.bytes, b % 256 = b := by
    intro b hb
    rw [hbytes, List.mem_append] at hb
    rcases hb with hb | hb
    · exact Nat.mod_eq_of_lt (Framed.forall_mem ⟨items, rfl⟩ hitem b hb)
    · split at hb
      · exact Nat.mod_eq_of_lt (hlogout b hb)
      · simp at hb
  calc (k.feed menu chunk).2.bytes
      = (k.feedFrom menu chunk).2.bytes.map id := List.map_congr_left hsmall
    _ = (k.feedFrom menu chunk).2.bytes := List.map_id _
    _ = _ := hbytes

theorem session_cons (menu : Bool) (chunk : List Nat) (chunks : List (List Nat)) :
    k.session menu (chunk :: chunks) =
      if (k.feed menu chunk).2.quit then (k.feed menu chunk).2
      else (k.feed menu chunk).2.andThen (k.session (k.feed menu chunk).1 chunks) := rfl

theorem session_orderly (h : k.Sends item) (hitem : ∀ i, ∀ b ∈ item i, b < 256)
    (hlogout : ∀ b ∈ k.logout, b < 256) (chunks : List (List Nat)) :
    ∀ menu, Orderly item k.logout (k.session menu chunks) := by
  induction chunks with
  | nil => exact fun _ => Orderly.none _
  | cons chunk chunks ih =>
      intro menu
      have hfeed := feed_orderly h hitem hlogout menu chunk
      rw [session_cons]
      cases hquit : (k.feed menu chunk).2.quit with
      | true => exact hfeed
      | false => exact hfeed.andThen (ih _) hquit

end Sends

end Keyboard

/-! ### The items of the two protocols -/

namespace Genera3600

/-- A Genera character with its bucky bits. -/
structure Character where
  bits : Fin 16
  code : Fin 256

def Character.bytes (c : Character) : List Nat := [3, c.bits, c.code]

theorem framed_encodeChar (code : Nat) {bits : Nat} (h : bits < 16) :
    Framed Character.bytes (encodeChar code bits) := by
  refine ⟨[⟨⟨bits, h⟩, ⟨code % 256, Nat.mod_lt _ (by norm_num)⟩⟩], ?_⟩
  simp [Character.bytes, encodeChar, Nat.mod_eq_of_lt (show bits < 256 by omega)]

theorem framed_key (name : Key) {bits : Nat} (h : bits < 16) :
    Framed Character.bytes (key name bits) := framed_encodeChar _ h

theorem framed_ctl (ch : Char) : Framed Character.bytes (ctl ch) :=
  framed_encodeChar _ (by decide)

theorem framed_met (ch : Char) : Framed Character.bytes (met ch) :=
  framed_encodeChar _ (by decide)

/-- No bits, or Meta, with Control where a control byte needs it. -/
theorem framed_encodeByte (b : Nat) {extra : Nat} (h : extra = 0 ∨ extra = metaBit) :
    Framed Character.bytes (encodeByte b extra) := by
  have hextra : extra < 16 := by rcases h with rfl | rfl <;> decide
  have hcontrol : control ||| extra < 16 := by rcases h with rfl | rfl <;> decide
  unfold encodeByte
  split_ifs
  all_goals first
    | exact framed_key _ hextra
    | exact framed_encodeChar _ hcontrol
    | exact framed_encodeChar _ hextra
    | exact framed_encodeChar _ (by decide)

theorem framed_encodeText (str : List Char) :
    Framed Character.bytes ((encodeText str).getD []) := by
  unfold encodeText
  cases (joinReturns str).mapM textCode with
  | none => exact Framed.nil
  | some codes => exact Framed.flatMap fun code _ => framed_encodeChar code (by decide)

theorem framed_text (bytes : List Nat) : Framed Character.bytes (text bytes) := by
  unfold text
  split
  · exact Framed.nil
  · split
    · exact framed_encodeText _
    · exact framed_encodeByte _ (Or.inl rfl)

theorem framed_metaKey (n : Nat) : Framed Character.bytes (metaKey n) := by
  unfold metaKey
  split_ifs
  · exact framed_encodeChar _ (by decide)
  · exact framed_encodeByte _ (Or.inr rfl)
  · exact Framed.nil

theorem sends_characters : keyEncoder3600.Sends Character.bytes where
  menu := by simp [keyEncoder3600, menu, framed_key, framed_ctl]
  csiFinal := by simp [keyEncoder3600, csiFinal, framed_key, framed_ctl, framed_met]
  csiTilde := by simp [keyEncoder3600, csiTilde, framed_key, framed_ctl, framed_met]
  escape := framed_key _ (by decide)
  text := framed_text
  metaNext := framed_metaKey

theorem Character.bytes_lt (c : Character) : ∀ b ∈ c.bytes, b < 256 := by
  have hbits := c.bits.isLt
  have hcode := c.code.isLt
  simp [Character.bytes]
  omega

end Genera3600

namespace Supdup

/-- What the server reads: the prefix twice, the prefix with bits and a character, or a
character of its own. -/
inductive Input where
  | quoted
  | bucky (bits : Fin 32) (ch : Fin 128)
  | raw (ch : Fin 128) (h : ch.val ≠ itpEscape)

def Input.bytes : Input → List Nat
  | .quoted => [itpEscape, itpEscape]
  | .bucky bits ch => [itpEscape, 0o100 + bits, ch]
  | .raw ch _ => [ch.val]

theorem framed_bucky {bits ch : Nat} (hbits : bits < 32) (hch : ch < 128) :
    Framed Input.bytes (bucky bits ch) :=
  Framed.one (Input.bucky ⟨bits, hbits⟩ ⟨ch, hch⟩)

theorem framed_raw {b : Nat} (hb : b < 128) (hne : b ≠ itpEscape) :
    Framed Input.bytes [b] :=
  Framed.one (Input.raw ⟨b, hb⟩ hne)

theorem framed_encodeByte (b : Nat) {extra : Nat} (h : extra = 0 ∨ extra = Bit.metaBit) :
    Framed Input.bytes (encodeByte b extra) := by
  have hextra : extra < 32 := by rcases h with rfl | rfl <;> decide
  have hcontrol : Bit.control ||| extra < 32 := by rcases h with rfl | rfl <;> decide
  unfold encodeByte
  split_ifs with hhigh hraw hx hesc hx hlow hx hletter
  · exact Framed.nil
  · exact framed_bucky hextra (by omega)
  · exact framed_raw (by omega) (by unfold itpEscape; omega)
  · exact framed_bucky hcontrol (by decide)
  · exact Framed.one Input.quoted
  · exact framed_bucky hcontrol (by omega)
  · exact framed_raw (by omega) hesc
  · exact framed_bucky hextra (Nat.xor_lt_two_pow (n := 7) (by omega) (by norm_num))
  · exact framed_bucky hextra (by omega)

theorem framed_text (bytes : List Nat) : Framed Input.bytes (text bytes) := by
  cases bytes with
  | nil => exact Framed.nil
  | cons b rest => exact framed_encodeByte b (Or.inl rfl)

theorem framed_metaKey (n : Nat) : Framed Input.bytes (metaKey n) := by
  unfold metaKey
  split_ifs
  · exact framed_bucky (by decide) (by decide)
  · exact framed_encodeByte n (Or.inr rfl)

theorem framed_refresh : Framed Input.bytes Keys.refresh :=
  framed_raw (by decide) (by decide)

theorem framed_ctl {ch : Char} (h : ch.toNat < 128) : Framed Input.bytes (ctl ch) :=
  framed_bucky (by decide) h

theorem framed_met {ch : Char} (h : ch.toNat < 128) : Framed Input.bytes (met ch) :=
  framed_bucky (by decide) h

theorem framed_top {ch : Char} (h : ch.toNat < 128) : Framed Input.bytes (top ch) :=
  framed_bucky (by decide) h

theorem sends_inputs : keyEncoder.Sends Input.bytes where
  menu := by
    simp [keyEncoder, menu, Keys.help, Keys.abort, Keys.«end», Keys.suspend, Keys.resume,
      Keys.clearInput, Keys.function, Keys.network, Keys.cRightBracket, framed_refresh,
      framed_ctl, framed_top]
  csiFinal := by
    simp [keyEncoder, csiFinal, Keys.help, Keys.abort, Keys.«end», Keys.suspend, Keys.resume,
      framed_ctl, framed_met, framed_top]
  csiTilde := by
    simp [keyEncoder, csiTilde, Keys.help, Keys.abort, Keys.«end», Keys.suspend, Keys.resume,
      Keys.clearInput, Keys.function, Keys.network, framed_refresh, framed_ctl, framed_met,
      framed_top]
  escape := framed_raw (by decide) (by decide)
  text := framed_text
  metaNext := framed_metaKey

/-- No item has a byte from 128 on. -/
theorem Input.bytes_lt (i : Input) : ∀ b ∈ i.bytes, b < 128 := by
  cases i with
  | quoted => simp [Input.bytes, itpEscape]
  | bucky bits ch =>
      have hbits := bits.isLt
      have hch := ch.isLt
      simp [Input.bytes, itpEscape]
      omega
  | raw ch h => simp [Input.bytes]

end Supdup

/-- **Keyboard input never desynchronises the server.**  Whatever is typed and however it
is read, the 3600 terminal sends whole characters and SUPDUP whole items of its input; the
logout comes last, exactly when the session quits. -/
theorem session_framed (menu : Bool) (chunks : List (List Nat)) :
    (∃ chars : List Genera3600.Character,
      (Genera3600.keyEncoder3600.session menu chunks).bytes =
        chars.flatMap Genera3600.Character.bytes ++
          if (Genera3600.keyEncoder3600.session menu chunks).quit then [0] else []) ∧
    ∃ inputs : List Supdup.Input,
      (Supdup.keyEncoder.session menu chunks).bytes =
        inputs.flatMap Supdup.Input.bytes ++
          (if (Supdup.keyEncoder.session menu chunks).quit then [0o300, 0o301] else []) ∧
      ∀ b ∈ inputs.flatMap Supdup.Input.bytes, b < 0o200 := by
  constructor
  · exact Keyboard.session_orderly Genera3600.sends_characters Genera3600.Character.bytes_lt
      (by decide) chunks menu
  · have hsmall : ∀ i : Supdup.Input, ∀ b ∈ i.bytes, b < 256 := by
      intro i b hb
      have := i.bytes_lt b hb
      omega
    obtain ⟨inputs, hinputs⟩ :=
      Keyboard.session_orderly Supdup.sends_inputs hsmall (by decide) chunks menu
    exact ⟨inputs, hinputs, Framed.forall_mem ⟨inputs, rfl⟩ Supdup.Input.bytes_lt⟩

/-! ### How a session is cut into reads -/

namespace Keyboard

/-- Where a read ends: between keys, inside the bytes of one text, or with a quit. -/
inductive Ending where
  | keys (menu : Bool)
  | inside
  | quits

/-- A key after Ctrl-] is one byte; any other starts a text, as long as its first byte says. -/
def ending (k : Keyboard) : Bool → List Nat → Ending
  | menu, [] => .keys menu
  | true, b :: rest =>
      if Char.ofNat b = 'q' ∨ Char.ofNat b = 'Q' then .quits else ending k false rest
  | false, b :: rest =>
      if b = escapeKey then ending k true rest
      else if rest.length < k.width b - 1 then .inside
      else ending k false (rest.drop (k.width b - 1))
  termination_by _ bytes => bytes.length

/-- No read ends inside a text that a later one goes on with. -/
def WholeTexts (k : Keyboard) : Bool → List (List Nat) → Prop
  | _, [] => True
  | menu, chunk :: chunks =>
      match k.ending menu chunk with
      | .keys menu => WholeTexts k menu chunks
      | .inside => chunks.flatten = []
      | .quits => True

section Reads

variable {k : Keyboard}

/-- What a key of the menu comes to, other than quitting. -/
def menuKey (k : Keyboard) (ch : Char) : KeyResult :=
  if ch = '?' then ⟨[], false, true⟩ else .sends ((k.menu.lookup ch).getD [])

theorem menuKey_quit (ch : Char) : (k.menuKey ch).quit = false := by
  unfold menuKey
  split <;> rfl

theorem feedFrom_menu {b : Nat} (hq : ¬ (Char.ofNat b = 'q' ∨ Char.ofNat b = 'Q'))
    (rest : List Nat) :
    k.feedFrom true (b :: rest) =
      ((k.feedFrom false rest).1, (k.menuKey (Char.ofNat b)).andThen (k.feedFrom false rest).2) := by
  rw [feedFrom, menuKey]
  simp only [hq, if_false]
  split <;> rfl

theorem feedFrom_quit {b : Nat} (hq : Char.ofNat b = 'q' ∨ Char.ofNat b = 'Q')
    (rest : List Nat) : k.feedFrom true (b :: rest) = (false, ⟨k.logout, true, false⟩) := by
  rw [feedFrom]
  simp only [hq, if_true]

theorem feedFrom_escapeKey (rest : List Nat) :
    k.feedFrom false (escapeKey :: rest) = k.feedFrom true rest := by
  rw [feedFrom.eq_def]
  simp

theorem feedFrom_text {b : Nat} (hk : b ≠ escapeKey) (hesc : b ≠ 0x1b) (rest : List Nat) :
    k.feedFrom false (b :: rest) =
      ((k.feedFrom false (rest.drop (k.width b - 1))).1,
        (KeyResult.sends (k.text (b :: rest.take (k.width b - 1)))).andThen
          (k.feedFrom false (rest.drop (k.width b - 1))).2) := by
  rw [feedFrom.eq_def]
  simp only [hk, if_false, hesc, ne_eq, not_false_eq_true, if_true]

/-- A read that ends between keys leaves only the menu flag to the next one. -/
theorem feedFrom_append_keys {menu last : Bool} {chunk : List Nat}
    (hend : k.ending menu chunk = .keys last) (hesc : 0x1b ∉ chunk) :
    (k.feedFrom menu chunk).1 = last ∧ (k.feedFrom menu chunk).2.quit = false ∧
      ∀ rest, (k.feedFrom menu (chunk ++ rest)).2 =
        (k.feedFrom menu chunk).2.andThen (k.feedFrom last rest).2 := by
  fun_induction ending k menu chunk with
  | case1 menu =>
      cases hend
      simp [feedFrom]
  | case2 b tail hq => cases hend
  | case3 b tail hq ih =>
      obtain ⟨hlast, hquit, happ⟩ := ih hend (fun h => hesc (by simp [h]))
      refine ⟨by rw [feedFrom_menu hq]; exact hlast, ?_, fun rest => ?_⟩
      · rw [feedFrom_menu hq]
        simp [KeyResult.andThen, menuKey_quit, hquit]
      · rw [List.cons_append, feedFrom_menu hq, feedFrom_menu hq, happ rest,
          KeyResult.andThen_assoc]
  | case4 tail ih =>
      obtain ⟨hlast, hquit, happ⟩ := ih hend (fun h => hesc (by simp [h]))
      rw [feedFrom_escapeKey]
      refine ⟨hlast, hquit, fun rest => ?_⟩
      rw [List.cons_append, feedFrom_escapeKey]
      exact happ rest
  | case5 b tail hk hshort => cases hend
  | case6 b tail hk hlong ih =>
      obtain ⟨hlast, hquit, happ⟩ := ih hend (fun h => hesc (by simp [List.mem_of_mem_drop h]))
      have hb : b ≠ 0x1b := fun h => hesc (by simp [h])
      have hlen : k.width b - 1 ≤ tail.length := by omega
      refine ⟨by rw [feedFrom_text hk hb]; exact hlast, ?_, fun rest => ?_⟩
      · rw [feedFrom_text hk hb]
        simpa [KeyResult.andThen] using hquit
      · rw [List.cons_append, feedFrom_text hk hb, feedFrom_text hk hb,
          List.drop_append_of_le_length hlen, List.take_append_of_le_length hlen, happ rest,
          KeyResult.andThen_assoc]

/-- Nothing after a quit is read. -/
theorem feedFrom_append_quits {menu : Bool} {chunk : List Nat}
    (hend : k.ending menu chunk = .quits) (hesc : 0x1b ∉ chunk) :
    (k.feedFrom menu chunk).2.quit = true ∧
      ∀ rest, (k.feedFrom menu (chunk ++ rest)).2 = (k.feedFrom menu chunk).2 := by
  fun_induction ending k menu chunk with
  | case1 menu => cases hend
  | case2 b tail hq =>
      rw [feedFrom_quit hq]
      exact ⟨rfl, fun rest => by rw [List.cons_append, feedFrom_quit hq]⟩
  | case3 b tail hq ih =>
      obtain ⟨hquit, happ⟩ := ih hend (fun h => hesc (by simp [h]))
      rw [feedFrom_menu hq]
      refine ⟨by simp [KeyResult.andThen, hquit], fun rest => ?_⟩
      rw [List.cons_append, feedFrom_menu hq, happ rest]
  | case4 tail ih =>
      obtain ⟨hquit, happ⟩ := ih hend (fun h => hesc (by simp [h]))
      rw [feedFrom_escapeKey]
      refine ⟨hquit, fun rest => ?_⟩
      rw [List.cons_append, feedFrom_escapeKey]
      exact happ rest
  | case5 b tail hk hshort => cases hend
  | case6 b tail hk hlong ih =>
      obtain ⟨hquit, happ⟩ := ih hend (fun h => hesc (by simp [List.mem_of_mem_drop h]))
      have hb : b ≠ 0x1b := fun h => hesc (by simp [h])
      have hlen : k.width b - 1 ≤ tail.length := by omega
      rw [feedFrom_text hk hb]
      refine ⟨by simp [KeyResult.andThen, hquit], fun rest => ?_⟩
      rw [List.cons_append, feedFrom_text hk hb, List.drop_append_of_le_length hlen,
        List.take_append_of_le_length hlen, happ rest]

theorem session_empty {chunks : List (List Nat)} (h : chunks.flatten = []) (menu : Bool) :
    k.session menu chunks = .none := by
  induction chunks generalizing menu with
  | nil => rfl
  | cons chunk chunks ih =>
      rw [List.flatten_cons, List.append_eq_nil_iff] at h
      obtain ⟨rfl, hrest⟩ := h
      rw [session_cons, ih hrest]
      simp [feed, feedFrom, KeyResult.none, KeyResult.andThen]

/-- **The keys do not depend on the reads** that end between texts. -/
theorem session_flatten {menu : Bool} {chunks : List (List Nat)}
    (hesc : 0x1b ∉ chunks.flatten) (hwhole : k.WholeTexts menu chunks) :
    k.session menu chunks = (k.feed menu chunks.flatten).2 := by
  induction chunks generalizing menu with
  | nil => simp [session, feed, feedFrom, KeyResult.none]
  | cons chunk chunks ih =>
      have hchunk : 0x1b ∉ chunk := fun h => hesc (by simp [h])
      have hchunks : 0x1b ∉ chunks.flatten := fun h => hesc (by simp_all)
      rw [session_cons, List.flatten_cons]
      unfold WholeTexts at hwhole
      split at hwhole
      · next last hend =>
          obtain ⟨hlast, hquit, happ⟩ := feedFrom_append_keys hend hchunk
          have hfeed : (k.feed menu chunk).2.quit = false := hquit
          have hmenu : (k.feed menu chunk).1 = last := hlast
          rw [hfeed, hmenu, ih hchunks hwhole]
          simp [feed, happ, KeyResult.andThen]
      · rw [session_empty hwhole, hwhole]
        simp
      · next hend =>
          obtain ⟨hquit, happ⟩ := feedFrom_append_quits hend hchunk
          have hfeed : (k.feed menu chunk).2.quit = true := hquit
          rw [hfeed, if_pos rfl]
          simp [feed, happ]

end Reads

end Keyboard

namespace Genera3600

/-- **The key encoder does not depend on the reads** as long as none of them ends inside
the bytes of one character: without Escape, a session of reads sends what one read of the
whole stream sends, with the same quit and the same help. -/
theorem session_reads (menu : Bool) (chunks : List (List Nat)) (hesc : 0x1b ∉ chunks.flatten)
    (hwhole : keyEncoder3600.WholeTexts menu chunks) :
    keyEncoder3600.session menu chunks = (keyEncoder3600.feed menu chunks.flatten).2 :=
  Keyboard.session_flatten hesc hwhole

theorem session_reads_sample :
    keyEncoder3600.session false [[0x41, 0x1d], [0x68, 0xe2, 0x88, 0xab], [0x0d]] =
      (keyEncoder3600.feed false [0x41, 0x1d, 0x68, 0xe2, 0x88, 0xab, 0x0d]).2 :=
  session_reads false [[0x41, 0x1d], [0x68, 0xe2, 0x88, 0xab], [0x0d]] (by decide)
    (by simp [Keyboard.WholeTexts, Keyboard.ending, keyEncoder3600, utf8Length,
      Keyboard.escapeKey])

/-- The bytes of `∫` type it in one read, and nothing in two. -/
theorem session_cuts_character :
    ¬ ∀ chunks : List (List Nat), 0x1b ∉ chunks.flatten →
      keyEncoder3600.session false chunks =
        (keyEncoder3600.feed false chunks.flatten).2 := by
  intro h
  have hone : (keyEncoder3600.feed false [0xe2, 0x88, 0xab]).2.bytes = [3, 0, 127] := by
    decide +kernel
  have htwo : (keyEncoder3600.session false [[0xe2], [0x88, 0xab]]).bytes = [] := by
    decide +kernel
  have heq := congrArg KeyResult.bytes (h [[0xe2], [0x88, 0xab]] (by decide))
  rw [htwo] at heq
  exact absurd (heq.trans hone) (by decide)

end Genera3600

end Terminal
