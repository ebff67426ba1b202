import Mathlib
import OsxVlm.Library.Execution
import OsxVlm.Spy.MBIN

/-!
# Requests reach the guest once

Request `i` of the sender has the id `base + i`.  A slot of the history belongs
to every sixteenth request; it remembers the latest of them that was delivered,
as long as no older one comes back, whether as a datagram or as the guest's
acknowledgement.
-/

namespace Spy

open Queue

structure State where
  /-- The id of request 0. -/
  base : BitVec 32
  mbin : MBIN
  /-- Requests the sender has numbered. -/
  sent : Nat
  /-- Requests the sender knows acknowledged. -/
  acknowledged : List Nat
  /-- Requests put into the guest's queue. -/
  delivered : List Nat
  /-- Requests whose acknowledgement `SendMBINBuffers` has taken. -/
  guestAcked : List Nat
  /-- Those whose acknowledgement it has sent. -/
  forwarded : List Nat
  /-- Requests on whose copy the host repeated the acknowledgement. -/
  repeats : List Nat
  /-- The request whose acknowledgement is being sent. -/
  acking : Nat

/-- The id of request `i`. -/
def State.idOf (s : State) (i : Nat) : BitVec 32 := s.base + BitVec.ofNat 32 i

inductive Event where
  /-- The sender numbers a request. -/
  | number
  /-- A copy of request `i` arrives. -/
  | arrive (i : Nat)
  /-- An acknowledgement of request `i` reaches the sender. -/
  | acknowledge (i : Nat)
  /-- The guest supplies a buffer, takes a request, queues a message, or takes back
  a buffer. -/
  | supply (bufferPtr : EmbPtr)
  | take
  | queue (bufferPtr : EmbPtr)
  | reclaim
  /-- The channel is activated. -/
  | activate
  /-- `RemoteMemorySpyLoop` stores into the history. -/
  | record
  /-- `SendMBINBuffers` goes on; a message it takes may acknowledge request `i`. -/
  | send (isAck : Bool) (i : Nat)

/-- The next step of `SendMBINBuffers` takes a message and sends it. -/
def MBIN.TakesMessage (m : MBIN) : Prop :=
  filled m.guestToHostQueue ≠ 0 ∧ space m.guestToHostReturnQueue ≠ 0 ∧ m.Sends

instance (m : MBIN) : Decidable m.TakesMessage := inferInstanceAs (Decidable (_ ∧ _))

/-- `SendMBINBuffers`, with the requests it acknowledges. -/
def State.sendStep (s : State) (isAck : Bool) (i : Nat) : State :=
  match s.mbin.sending with
  | .idle =>
      let s' := { s with mbin := s.mbin.send isAck (s.idOf i) }
      if s.mbin.TakesMessage ∧ isAck = true then
        { s' with acking := i, guestAcked := s.guestAcked ++ [i] }
      else s'
  | .setAcked _ _ =>
      { s with mbin := s.mbin.send isAck (s.idOf i), forwarded := s.forwarded ++ [s.acking] }
  | _ => { s with mbin := s.mbin.send isAck (s.idOf i) }

/-- A datagram waits until the loop has done with the one before. -/
def State.arrive (s : State) (i : Nat) : State :=
  match s.mbin.recording with
  | .done =>
      let outcome := (s.mbin.request (s.idOf i)).2
      { s with
        mbin := (s.mbin.request (s.idOf i)).1,
        delivered :=
          match outcome with
          | .delivered _ => s.delivered ++ [i]
          | _ => s.delivered,
        repeats := if outcome = .repeated then s.repeats ++ [i] else s.repeats }
  | _ => s

def State.step (s : State) : Event → State
  | .number => { s with sent := s.sent + 1 }
  | .arrive i => s.arrive i
  | .acknowledge i => { s with acknowledged := s.acknowledged ++ [i] }
  | .supply bufferPtr =>
      match putWord s.mbin.hostToGuestSupplyQueue bufferPtr with
      | none => s
      | some queue => { s with mbin := { s.mbin with hostToGuestSupplyQueue := queue } }
  | .take =>
      if filled s.mbin.hostToGuestQueue = 0 then s
      else
        { s with
          mbin := { s.mbin with hostToGuestQueue := (takeWord s.mbin.hostToGuestQueue).2 } }
  | .queue bufferPtr =>
      match putWord s.mbin.guestToHostQueue bufferPtr with
      | none => s
      | some queue => { s with mbin := { s.mbin with guestToHostQueue := queue } }
  | .reclaim =>
      { s with
        mbin :=
          { s.mbin with
            guestToHostReturnQueue := (takeWord s.mbin.guestToHostReturnQueue).2 } }
  | .activate => { s with mbin := { s.mbin with active := true } }
  | .record => { s with mbin := s.mbin.record }
  | .send isAck i => s.sendStep isAck i

/-- Before the first request, whose id is `base`. -/
def State.init (base : BitVec 32) (gthQ gthrQ supplyQueue queue : EmbQueue EmbPtr) : State where
  base := base
  mbin := .init gthQ gthrQ supplyQueue queue
  sent := 0
  acknowledged := []
  delivered := []
  guestAcked := []
  forwarded := []
  repeats := []
  acking := 0

/-- The requests the sender does not know acknowledged. -/
def State.unacknowledged (s : State) : Finset Nat :=
  (Finset.range s.sent).filter (· ∉ s.acknowledged)

/-- The sender keeps fewer than sixteen requests unacknowledged; copies are of
requests, and acknowledgements arrive that the host has sent. -/
def Permitted (s : State) : Event → Prop
  | .number => s.unacknowledged.card < 15
  | .arrive i => i < s.sent
  | .acknowledge i => i ∈ s.forwarded ∨ i ∈ s.repeats
  | _ => True

/-- Request `j` is the last delivered of those that share its slot. -/
def State.Latest (s : State) (j : Nat) : Prop :=
  j ∈ s.delivered ∧ ∀ k ∈ s.delivered, k % 16 = j % 16 → k ≤ j

/-- Nothing old comes back to a slot: a copy that arrives is not older than the
requests delivered in its slot, a copy with id 0 finds a slot already used, and
an acknowledgement is stored while its request is the last delivered in its slot. -/
def InOrder (s : State) : Event → Prop
  | .arrive i =>
      (∀ k ∈ s.delivered, k % 16 = i % 16 → k ≤ i) ∧
        (s.idOf i = 0 → ∃ k ∈ s.delivered, k % 16 = i % 16)
  | .send _ _ =>
      match s.mbin.sending with
      | .setId _ _ => s.Latest s.acking
      | .setAcked _ _ => s.Latest s.acking
      | _ => True
  | _ => True

/-- A supply buffer and queue space are there, and the loop is free. -/
def State.Available (s : State) : Prop :=
  s.mbin.recording = .done ∧ s.mbin.active = true ∧
    filled s.mbin.hostToGuestSupplyQueue ≠ 0 ∧ IsBuffer (takeWord s.mbin.hostToGuestSupplyQueue).1 ∧
    space s.mbin.hostToGuestQueue ≠ 0

/-! ### Ids and slots -/

variable {s : State} {i j : Nat}

theorem historyID_idOf (s : State) (i : Nat) :
    historyID (s.idOf i) = (s.base.toNat + i) % 16 := by
  unfold historyID State.idOf
  rw [BitVec.toNat_add, BitVec.toNat_ofNat]
  omega

theorem historyID_eq_iff : historyID (s.idOf i) = historyID (s.idOf j) ↔ i % 16 = j % 16 := by
  rw [historyID_idOf, historyID_idOf]
  omega

/-- Ids come round after 2^32 requests. -/
theorem eq_of_idOf (h : s.idOf j = s.idOf i) (hle : j ≤ i) (hclose : i - j < 2 ^ 32) : j = i := by
  have hnat := congrArg BitVec.toNat h
  unfold State.idOf at hnat
  rw [BitVec.toNat_add, BitVec.toNat_add, BitVec.toNat_ofNat, BitVec.toNat_ofNat] at hnat
  omega

theorem State.Latest.eq (hi : s.Latest i) (hj : s.Latest j) (hslot : i % 16 = j % 16) : i = j :=
  Nat.le_antisymm (hj.2 i hi.1 hslot) (hi.2 j hj.1 hslot.symm)

/-- A slot that was used has a last request. -/
theorem exists_latest (h : ∃ k ∈ s.delivered, k % 16 = i % 16) :
    ∃ j, s.Latest j ∧ j % 16 = i % 16 := by
  obtain ⟨k, hk, hslot⟩ := h
  have hne : (s.delivered.toFinset.filter fun k => k % 16 = i % 16).Nonempty :=
    ⟨k, by simp [hk, hslot]⟩
  obtain ⟨j, hj, hmax⟩ := Finset.exists_max_image _ id hne
  simp only [Finset.mem_filter, List.mem_toFinset] at hj hmax
  refine ⟨j, ⟨hj.1, ?_⟩, hj.2⟩
  intro k hk hkj
  exact hmax k ⟨hk, hkj.trans hj.2⟩

/-! ### The history remembers the last request of each slot -/

structure Inv (s : State) : Prop where
  holds : ∃ l, Holds s.mbin.hostToGuestQueue l
  below : ∀ i ∈ s.delivered, i < s.sent
  nodup : s.delivered.Nodup
  known : ∀ j, s.Latest j →
    (s.mbin.history (historyID (s.idOf j))).id = s.idOf j ∨ s.mbin.recording = .setId (s.idOf j)
  fresh : ∀ i, (∀ k ∈ s.delivered, k % 16 ≠ i % 16) →
    (s.mbin.history (historyID (s.idOf i))).id = 0
  acked : ∀ j, s.Latest j → (s.mbin.history (historyID (s.idOf j))).acked = true →
    s.mbin.recording = .setId (s.idOf j) ∨ s.mbin.recording = .clearAcked (s.idOf j) ∨
      j ∈ s.guestAcked
  recorded : ∀ id, s.mbin.recording = .setId id ∨ s.mbin.recording = .clearAcked id →
    ∃ j, s.Latest j ∧ id = s.idOf j
  acking : ∀ id p, s.mbin.sending = .setId id p ∨ s.mbin.sending = .setAcked id p →
    id = s.idOf s.acking ∧ s.acking ∈ s.guestAcked
  window : s.unacknowledged.card < 16
  confirmed : ∀ i, i ∈ s.acknowledged ∨ i ∈ s.forwarded ∨ i ∈ s.repeats → i ∈ s.delivered
  repeats : ∀ i ∈ s.repeats, i ∈ s.guestAcked

theorem Inv.init {base : BitVec 32} {gthQ gthrQ supplyQueue queue : EmbQueue EmbPtr}
    (hq : Holds queue []) : Inv (State.init base gthQ gthrQ supplyQueue queue) where
  holds := ⟨[], hq⟩
  below i hi := by cases hi
  nodup := List.nodup_nil
  known j hj := by cases hj.1
  fresh i _ := rfl
  acked j hj := by cases hj.1
  recorded id h := by rcases h with h | h <;> cases h
  acking id p h := by rcases h with h | h <;> cases h
  window := by simp [State.unacknowledged, State.init]
  confirmed i h := by rcases h with h | h | h <;> cases h
  repeats i hi := by cases hi

/-- Sixteen requests behind the last one of a slot cannot all be out. -/
theorem Inv.close (h : Inv s) (hsent : i < s.sent) (hj : s.Latest j) (hslot : j % 16 = i % 16) :
    i - j < 2 ^ 32 := by
  by_contra hfar
  have hsub : (Finset.range 16).image (fun m => j + 16 * (m + 1)) ⊆ s.unacknowledged := by
    intro k hk
    obtain ⟨m, hm, rfl⟩ := Finset.mem_image.mp hk
    have hlt := Finset.mem_range.mp hm
    simp only [State.unacknowledged, Finset.mem_filter, Finset.mem_range]
    refine ⟨by omega, ?_⟩
    intro hacked
    have := hj.2 _ (h.confirmed _ (.inl hacked)) (by omega)
    omega
  have hcard := Finset.card_le_card hsub
  rw [Finset.card_image_of_injective _ (fun m n hmn => by simpa using hmn), Finset.card_range] at hcard
  have := h.window
  omega

/-- A copy that finds its own id was delivered, and is the last of its slot. -/
theorem Inv.latest_of_seen (h : Inv s) (hdone : s.mbin.recording = .done) (hsent : i < s.sent)
    (hok : InOrder s (.arrive i)) (hseen : (s.mbin.history (historyID (s.idOf i))).id = s.idOf i) :
    s.Latest i := by
  obtain ⟨hold, hzero⟩ := hok
  by_cases hused : ∃ k ∈ s.delivered, k % 16 = i % 16
  · obtain ⟨j, hj, hslot⟩ := exists_latest hused
    have hid : s.idOf j = s.idOf i := by
      rcases h.known j hj with hknown | hrec
      · rw [historyID_eq_iff.mpr hslot, hseen] at hknown
        exact hknown.symm
      · rw [hdone] at hrec
        cases hrec
    have heq := eq_of_idOf hid (hold j hj.1 hslot) (h.close hsent hj hslot)
    rwa [heq] at hj
  · have hfresh := h.fresh i (fun k hk hslot => hused ⟨k, hk, hslot⟩)
    rw [hseen] at hfresh
    exact absurd (hzero hfresh) hused

/-- A delivered request that comes again finds its own id. -/
theorem Inv.seen_of_mem (h : Inv s) (hdone : s.mbin.recording = .done)
    (hok : InOrder s (.arrive i)) (hi : i ∈ s.delivered) :
    (s.mbin.history (historyID (s.idOf i))).id = s.idOf i := by
  rcases h.known i ⟨hi, hok.1⟩ with hknown | hrec
  · exact hknown
  · rw [hdone] at hrec
    cases hrec

theorem latest_append {t : State} (ht : t.delivered = s.delivered ++ [i])
    (hold : ∀ k ∈ s.delivered, k % 16 = i % 16 → k ≤ i) (hj : t.Latest j) :
    j = i ∨ j % 16 ≠ i % 16 ∧ s.Latest j := by
  obtain ⟨hmem, hmax⟩ := hj
  rw [ht] at hmem hmax
  by_cases hslot : j % 16 = i % 16
  · left
    have hle := hmax i (by simp) hslot.symm
    rcases List.mem_append.mp hmem with hmem | hmem
    · have := hold j hmem hslot
      omega
    · exact List.mem_singleton.mp hmem
  · right
    refine ⟨hslot, ?_, fun k hk => hmax k (List.mem_append_left _ hk)⟩
    rcases List.mem_append.mp hmem with hmem | hmem
    · exact hmem
    · exact absurd (by rw [List.mem_singleton.mp hmem]) hslot

theorem latest_new {t : State} (ht : t.delivered = s.delivered ++ [i])
    (hold : ∀ k ∈ s.delivered, k % 16 = i % 16 → k ≤ i) : t.Latest i := by
  constructor
  · rw [ht]
    simp
  · intro k hk hslot
    rw [ht] at hk
    rcases List.mem_append.mp hk with hk | hk
    · exact hold k hk hslot
    · exact (List.mem_singleton.mp hk).le

theorem Inv.arrive (h : Inv s) (hsent : i < s.sent) (hok : InOrder s (.arrive i)) :
    Inv (s.arrive i) := by
  unfold State.arrive
  split
  · next hdone =>
    rcases request_cases s.mbin (s.idOf i) with
      ⟨supply, hmbin, hout⟩ | ⟨p, supply, queue, haccepts, hput, hreq⟩
    · rcases hout with hout | ⟨hout, hseen, hacked⟩
      · rw [hmbin, hout]
        exact { h with }
      · have hlatest := h.latest_of_seen hdone hsent hok hseen
        have hguest : i ∈ s.guestAcked := by
          rcases h.acked i hlatest hacked with hrec | hrec | hguest
          · rw [hdone] at hrec
            cases hrec
          · rw [hdone] at hrec
            cases hrec
          · exact hguest
        rw [hmbin, hout]
        exact
          { h with
            confirmed := by
              intro k hk
              simp only [if_true, List.mem_append, List.mem_singleton] at hk
              rcases hk with hk | hk | hk | rfl
              · exact h.confirmed k (.inl hk)
              · exact h.confirmed k (.inr (.inl hk))
              · exact h.confirmed k (.inr (.inr hk))
              · exact hlatest.1,
            repeats := by
              intro k hk
              simp only [if_true, List.mem_append, List.mem_singleton] at hk
              rcases hk with hk | rfl
              · exact h.repeats k hk
              · exact hguest }
    · have hnew : i ∉ s.delivered := fun hi => haccepts.2.1 (h.seen_of_mem hdone hok hi)
      obtain ⟨l, hl⟩ := h.holds
      have hslots : ∀ k, k % 16 ≠ i % 16 → s.idOf k ≠ s.idOf i :=
        fun k hk heq => hk (historyID_eq_iff.mp (congrArg historyID heq))
      rw [hreq]
      constructor
      case holds => exact ⟨_, (hl.of_putWord hput).2⟩
      case below =>
        intro k hk
        rcases List.mem_append.mp hk with hk | hk
        · exact h.below k hk
        · rwa [List.mem_singleton.mp hk]
      case nodup =>
        apply List.Nodup.append h.nodup (List.nodup_singleton i)
        simpa using hnew
      case known =>
        intro j hj
        rcases latest_append rfl hok.1 hj with rfl | ⟨-, hj⟩
        · exact .inr rfl
        · rcases h.known j hj with hknown | hrec
          · exact .inl hknown
          · rw [hdone] at hrec
            cases hrec
      case fresh =>
        intro k hk
        exact h.fresh k (fun m hm => hk m (List.mem_append_left _ hm))
      case acked =>
        intro j hj hacked
        rcases latest_append rfl hok.1 hj with rfl | ⟨-, hj⟩
        · exact .inl rfl
        · rcases h.acked j hj hacked with hrec | hrec | hguest
          · rw [hdone] at hrec
            cases hrec
          · rw [hdone] at hrec
            cases hrec
          · exact .inr (.inr hguest)
      case recorded =>
        intro id hid
        rcases hid with hid | hid
        · cases hid
          exact ⟨i, latest_new rfl hok.1, rfl⟩
        · cases hid
      case acking => exact h.acking
      case window => exact h.window
      case confirmed =>
        intro k hk
        simp only [reduceCtorEq, if_false] at hk
        exact List.mem_append_left _ (h.confirmed k hk)
      case repeats =>
        intro k hk
        simp only [reduceCtorEq, if_false] at hk
        exact h.repeats k hk
  · exact h

/-- The other slots keep their entries. -/
theorem idOf_ne_of_slot (hslot : i % 16 ≠ j % 16) : historyID (s.idOf i) ≠ historyID (s.idOf j) :=
  mt historyID_eq_iff.mp hslot

theorem idOf_inj_slot (h : s.idOf i = s.idOf j) : i % 16 = j % 16 :=
  historyID_eq_iff.mp (congrArg historyID h)

/-- A request that shares its slot with the last one of it is that one. -/
theorem State.Latest.eq_or_slot (hi : s.Latest i) (hj : s.Latest j) : i = j ∨ i % 16 ≠ j % 16 := by
  by_cases hslot : i % 16 = j % 16
  · exact .inl (hi.eq hj hslot)
  · exact .inr hslot

theorem Inv.record (h : Inv s) : Inv { s with mbin := s.mbin.record } := by
  unfold MBIN.record
  split
  · exact h
  · next id hrec =>
    obtain ⟨j, hj, rfl⟩ := h.recorded id (.inl hrec)
    have hhistory := setId_history s.mbin (s.idOf j)
    constructor
    case holds => exact h.holds
    case below => exact h.below
    case nodup => exact h.nodup
    case known =>
      intro k hk
      left
      show ((s.mbin.setId (s.idOf j)).history (historyID (s.idOf k))).id = s.idOf k
      rw [hhistory]
      rcases State.Latest.eq_or_slot hk hj with rfl | hslot
      · rw [if_pos rfl]
      · rw [if_neg (idOf_ne_of_slot hslot)]
        rcases h.known k hk with hknown | hkrec
        · exact hknown
        · rw [hrec] at hkrec
          exact absurd (idOf_inj_slot (Recording.setId.inj hkrec).symm) hslot
    case fresh =>
      intro k hk
      show ((s.mbin.setId (s.idOf j)).history (historyID (s.idOf k))).id = 0
      rw [hhistory, if_neg (idOf_ne_of_slot (hk j hj.1).symm)]
      exact h.fresh k hk
    case acked =>
      intro k hk hacked
      rcases State.Latest.eq_or_slot hk hj with rfl | hslot
      · exact .inr (.inl rfl)
      · replace hacked : ((s.mbin.setId (s.idOf j)).history (historyID (s.idOf k))).acked = true :=
          hacked
        rw [hhistory, if_neg (idOf_ne_of_slot hslot)] at hacked
        rcases h.acked k hk hacked with hkrec | hkrec | hguest
        · rw [hrec] at hkrec
          exact absurd (idOf_inj_slot (Recording.setId.inj hkrec).symm) hslot
        · rw [hrec] at hkrec
          cases hkrec
        · exact .inr (.inr hguest)
    case recorded =>
      intro id hid
      rcases hid with hid | hid
      · cases hid
      · cases hid
        exact ⟨j, hj, rfl⟩
    case acking => exact h.acking
    case window => exact h.window
    case confirmed => exact h.confirmed
    case repeats => exact h.repeats
  · next id hrec =>
    obtain ⟨j, hj, rfl⟩ := h.recorded id (.inr hrec)
    have hhistory := setAcked_history s.mbin (s.idOf j) false
    have hid : ∀ n, ((s.mbin.setAcked (s.idOf j) false).history n).id = (s.mbin.history n).id := by
      intro n
      rw [hhistory]
      split <;> rfl
    constructor
    case holds => exact h.holds
    case below => exact h.below
    case nodup => exact h.nodup
    case known =>
      intro k hk
      left
      show ((s.mbin.setAcked (s.idOf j) false).history (historyID (s.idOf k))).id = s.idOf k
      rw [hid]
      rcases h.known k hk with hknown | hkrec
      · exact hknown
      · rw [hrec] at hkrec
        cases hkrec
    case fresh =>
      intro k hk
      show ((s.mbin.setAcked (s.idOf j) false).history (historyID (s.idOf k))).id = 0
      rw [hid]
      exact h.fresh k hk
    case acked =>
      intro k hk hacked
      replace hacked :
          ((s.mbin.setAcked (s.idOf j) false).history (historyID (s.idOf k))).acked = true := hacked
      rw [hhistory] at hacked
      rcases State.Latest.eq_or_slot hk hj with rfl | hslot
      · rw [if_pos rfl] at hacked
        cases hacked
      · rw [if_neg (idOf_ne_of_slot hslot)] at hacked
        rcases h.acked k hk hacked with hkrec | hkrec | hguest
        · rw [hrec] at hkrec
          cases hkrec
        · rw [hrec] at hkrec
          exact absurd (idOf_inj_slot (Recording.clearAcked.inj hkrec).symm) hslot
        · exact .inr (.inr hguest)
    case recorded =>
      intro id hid
      rcases hid with hid | hid <;> cases hid
    case acking => exact h.acking
    case window => exact h.window
    case confirmed => exact h.confirmed
    case repeats => exact h.repeats

theorem Inv.sendTake (h : Inv s) (hidle : s.mbin.sending = .idle) (isAck : Bool) (i : Nat) :
    Inv (s.sendStep isAck i) := by
  unfold State.sendStep
  simp only [hidle]
  unfold MBIN.send
  simp only [hidle]
  split
  · next htakes =>
    obtain ⟨⟨hfilled, hspace, hsends⟩, hack⟩ := htakes
    simp only [if_neg hfilled, if_neg hspace, hsends, hack, and_self, if_true]
    exact
      { h with
        acked := by
          intro j hj hacked
          rcases h.acked j hj hacked with hrec | hrec | hmem
          · exact .inl hrec
          · exact .inr (.inl hrec)
          · exact .inr (.inr (List.mem_append_left _ hmem)),
        repeats := fun k hk => List.mem_append_left _ (h.repeats k hk),
        acking := by
          intro id p hid
          rcases hid with hid | hid
          · cases hid
            exact ⟨rfl, List.mem_append_right _ (List.mem_singleton_self i)⟩
          · cases hid }
  · next htakes =>
    split
    · exact { h with }
    · next hfilled =>
      split
      · exact { h with }
      · next hspace =>
        have hno : ¬ (s.mbin.Sends ∧ isAck = true) :=
          fun hsends => htakes ⟨⟨hfilled, hspace, hsends.1⟩, hsends.2⟩
        simp only [if_neg hno]
        exact
          { h with
            acking := by
              intro id p hid
              rcases hid with hid | hid <;> cases hid }

theorem Inv.sendSetId (h : Inv s) {id : BitVec 32} {p : EmbPtr}
    (hsending : s.mbin.sending = .setId id p) (hlatest : s.Latest s.acking) (isAck : Bool) (i : Nat) :
    Inv (s.sendStep isAck i) := by
  obtain ⟨rfl, hguest⟩ := h.acking id p (.inl hsending)
  have hhistory := setId_history s.mbin (s.idOf s.acking)
  unfold State.sendStep MBIN.send
  simp only [hsending]
  constructor
  case holds => exact h.holds
  case below => exact h.below
  case nodup => exact h.nodup
  case known =>
    intro k hk
    show ((s.mbin.setId (s.idOf s.acking)).history (historyID (s.idOf k))).id = s.idOf k ∨ _
    rw [hhistory]
    rcases State.Latest.eq_or_slot hk hlatest with rfl | hslot
    · exact .inl (by rw [if_pos rfl])
    · rw [if_neg (idOf_ne_of_slot hslot)]
      exact h.known k hk
  case fresh =>
    intro k hk
    show ((s.mbin.setId (s.idOf s.acking)).history (historyID (s.idOf k))).id = 0
    rw [hhistory, if_neg (idOf_ne_of_slot (hk s.acking hlatest.1).symm)]
    exact h.fresh k hk
  case acked =>
    intro k hk hacked
    apply h.acked k hk
    replace hacked :
        ((s.mbin.setId (s.idOf s.acking)).history (historyID (s.idOf k))).acked = true := hacked
    rw [hhistory] at hacked
    split at hacked <;> exact hacked
  case recorded => exact h.recorded
  case acking =>
    intro id q hid
    rcases hid with hid | hid
    · cases hid
    · cases hid
      exact ⟨rfl, hguest⟩
  case window => exact h.window
  case confirmed => exact h.confirmed
  case repeats => exact h.repeats

theorem Inv.sendSetAcked (h : Inv s) {id : BitVec 32} {p : EmbPtr}
    (hsending : s.mbin.sending = .setAcked id p) (hlatest : s.Latest s.acking) (isAck : Bool)
    (i : Nat) : Inv (s.sendStep isAck i) := by
  obtain ⟨rfl, hguest⟩ := h.acking id p (.inr hsending)
  have hhistory := setAcked_history s.mbin (s.idOf s.acking) true
  have hid : ∀ n, ((s.mbin.setAcked (s.idOf s.acking) true).history n).id =
      (s.mbin.history n).id := by
    intro n
    rw [hhistory]
    split <;> rfl
  unfold State.sendStep MBIN.send
  simp only [hsending]
  constructor
  case holds => exact h.holds
  case below => exact h.below
  case nodup => exact h.nodup
  case known =>
    intro k hk
    show ((s.mbin.setAcked (s.idOf s.acking) true).history (historyID (s.idOf k))).id = s.idOf k ∨ _
    rw [hid]
    exact h.known k hk
  case fresh =>
    intro k hk
    show ((s.mbin.setAcked (s.idOf s.acking) true).history (historyID (s.idOf k))).id = 0
    rw [hid]
    exact h.fresh k hk
  case acked =>
    intro k hk hacked
    rcases State.Latest.eq_or_slot hk hlatest with rfl | hslot
    · exact .inr (.inr hguest)
    · apply h.acked k hk
      replace hacked :
          ((s.mbin.setAcked (s.idOf s.acking) true).history (historyID (s.idOf k))).acked = true :=
        hacked
      rwa [hhistory, if_neg (idOf_ne_of_slot hslot)] at hacked
  case recorded => exact h.recorded
  case acking =>
    intro id q hid
    rcases hid with hid | hid <;> cases hid
  case window => exact h.window
  case confirmed =>
    intro k hk
    simp only [List.mem_append, List.mem_singleton] at hk
    rcases hk with hk | (hk | rfl) | hk
    · exact h.confirmed k (.inl hk)
    · exact h.confirmed k (.inr (.inl hk))
    · exact hlatest.1
    · exact h.confirmed k (.inr (.inr hk))
  case repeats => exact h.repeats

theorem Inv.sendReturn (h : Inv s) {p : EmbPtr} (hsending : s.mbin.sending = .returning p)
    (isAck : Bool) (i : Nat) : Inv (s.sendStep isAck i) := by
  unfold State.sendStep MBIN.send
  simp only [hsending]
  split
  · exact h
  · exact
      { h with
        acking := by
          intro id q hid
          rcases hid with hid | hid <;> cases hid }

theorem Inv.number (h : Inv s) (hok : Permitted s .number) : Inv (s.step .number) := by
  have hsub : (s.step .number).unacknowledged ⊆ insert s.sent s.unacknowledged := by
    intro k hk
    simp only [State.unacknowledged, State.step, Finset.mem_filter, Finset.mem_range,
      Finset.mem_insert] at hk ⊢
    grind
  have hcard := (Finset.card_le_card hsub).trans (Finset.card_insert_le _ _)
  have hfew : s.unacknowledged.card < 15 := hok
  exact
    { h with
      below := fun k hk => Nat.lt_succ_of_lt (h.below k hk),
      window := by omega }

theorem Inv.acknowledge (h : Inv s) (hok : Permitted s (.acknowledge i)) :
    Inv (s.step (.acknowledge i)) := by
  have hsub : (s.step (.acknowledge i)).unacknowledged ⊆ s.unacknowledged := by
    intro k hk
    simp only [State.unacknowledged, State.step, Finset.mem_filter, Finset.mem_range,
      List.mem_append, List.mem_singleton, not_or] at hk ⊢
    exact ⟨hk.1, hk.2.1⟩
  exact
    { h with
      window := (Finset.card_le_card hsub).trans_lt h.window,
      confirmed := by
        intro k hk
        simp only [State.step, List.mem_append, List.mem_singleton] at hk
        rcases hk with (hk | rfl) | hk
        · exact h.confirmed k (.inl hk)
        · exact h.confirmed k (.inr hok)
        · exact h.confirmed k (.inr hk) }

theorem Inv.step (e : Event) (hok : Permitted s e ∧ InOrder s e) (h : Inv s) : Inv (s.step e) := by
  cases e with
  | number => exact h.number hok.1
  | arrive i => exact h.arrive hok.1 hok.2
  | acknowledge i => exact h.acknowledge hok.1
  | supply p =>
      simp only [State.step]
      split
      · exact h
      · exact { h with }
  | take =>
      obtain ⟨l, hl⟩ := h.holds
      simp only [State.step]
      split
      · exact h
      · next hfilled =>
        obtain ⟨l', hl', -⟩ := hl.carries.takeWord hfilled
        exact { h with holds := ⟨l', hl'⟩ }
  | queue p =>
      simp only [State.step]
      split
      · exact h
      · exact { h with }
  | reclaim => exact { h with }
  | activate => exact { h with }
  | record => exact h.record
  | send isAck i =>
      have horder := hok.2
      simp only [InOrder] at horder
      show Inv (s.sendStep isAck i)
      cases hsending : s.mbin.sending with
      | idle => exact h.sendTake hsending isAck i
      | setId id p => exact h.sendSetId hsending (by simpa only [hsending] using horder) isAck i
      | setAcked id p =>
          exact h.sendSetAcked hsending (by simpa only [hsending] using horder) isAck i
      | returning p => exact h.sendReturn hsending isAck i

/-- A new request is delivered by a copy that finds a buffer and space. -/
theorem Inv.delivers (h : Inv s) (hsent : i < s.sent) (hok : InOrder s (.arrive i))
    (havailable : s.Available) (hnew : i ∉ s.delivered) : i ∈ (s.step (.arrive i)).delivered := by
  obtain ⟨hdone, hactive, hfilled, hbuffer, hspace⟩ := havailable
  obtain ⟨l, hl⟩ := h.holds
  have haccepts : s.mbin.Accepts (s.idOf i) :=
    ⟨hactive, fun hseen => hnew (h.latest_of_seen hdone hsent hok hseen).1, hfilled, hspace⟩
  show i ∈ (s.arrive i).delivered
  unfold State.arrive
  simp only [hdone, request_delivers hl haccepts hbuffer]
  simp

/-- What the run did with the sender's requests. -/
structure ExactlyOnce (s : State) (es : List Event) : Prop where
  /-- No request is put into the guest's queue twice. -/
  at_most_once : (Exec.run State.step s es).delivered.Nodup
  /-- A copy delivers a request that was not, where a buffer and space are there. -/
  next_copy : ∀ n i, es[n]? = some (.arrive i) → (Exec.runTo State.step s es n).Available →
    i ∈ (Exec.runTo State.step s es (n + 1)).delivered
  /-- The host repeats only acknowledgements of the guest. -/
  repeats : ∀ i ∈ (Exec.run State.step s es).repeats, i ∈ (Exec.run State.step s es).guestAcked

theorem delivered_mono (e : Event) : s.delivered ⊆ (s.step e).delivered := by
  cases e with
  | arrive i =>
      simp only [State.step, State.arrive]
      split
      · dsimp only
        split
        · exact List.subset_append_left _ _
        · exact List.Subset.refl _
      · exact List.Subset.refl _
  | send isAck i =>
      simp only [State.step, State.sendStep]
      split
      · split <;> exact List.Subset.refl _
      · exact List.Subset.refl _
      · exact List.Subset.refl _
  | number => exact List.Subset.refl _
  | acknowledge i => exact List.Subset.refl _
  | reclaim => exact List.Subset.refl _
  | activate => exact List.Subset.refl _
  | record => exact List.Subset.refl _
  | _ =>
      simp only [State.step]
      split <;> exact List.Subset.refl _

/-- **MBIN requests.**  Every request is delivered once, by the first copy that
can be, and only acknowledged requests are acknowledged again, in every run in
which nothing old comes back to a slot of the history. -/
theorem mbin_exactly_once (base : BitVec 32) (gthQ gthrQ supplyQueue queue : EmbQueue EmbPtr)
    (hq : Holds queue []) (es : List Event)
    (hok : Exec.Allowed State.step (fun s e => Permitted s e ∧ InOrder s e)
      (State.init base gthQ gthrQ supplyQueue queue) es) :
    ExactlyOnce (State.init base gthQ gthrQ supplyQueue queue) es := by
  have hinv : Inv (Exec.run State.step (State.init base gthQ gthrQ supplyQueue queue) es) :=
    Exec.run_invariant (fun s e hok h => h.step e hok) hok (Inv.init hq)
  refine ⟨hinv.nodup, ?_, hinv.repeats⟩
  intro n i he havailable
  have hfront : Inv (Exec.runTo State.step (State.init base gthQ gthrQ supplyQueue queue) es n) :=
    Exec.run_invariant (fun s e hok h => h.step e hok) (hok.take n) (Inv.init hq)
  obtain ⟨hsent, horder⟩ := hok.get he
  rw [Exec.runTo_succ State.step _ he]
  by_cases hmem : i ∈ (Exec.runTo State.step (State.init base gthQ gthrQ supplyQueue queue)
      es n).delivered
  · exact delivered_mono (.arrive i) hmem
  · exact hfront.delivers hsent horder havailable hmem

def sampleRing : EmbQueue EmbPtr where
  queueSize := 8
  putIndex := 0
  takeIndex := 0
  elementArray _ := 0

theorem sampleRing_holds : Holds sampleRing [] := .empty (by decide) rfl

/-- A sender whose first request has the given id. -/
def sampleInit (base : BitVec 32) : State :=
  .init base sampleRing sampleRing sampleRing sampleRing

/-- The first request arrives at an active channel with a buffer. -/
def sampleRun : List Event := [.activate, .supply 0x100, .number, .arrive 0]

theorem sampleRun_permitted (base : BitVec 32) :
    Exec.Allowed State.step Permitted (sampleInit base) sampleRun := by
  simp [sampleRun, sampleInit, Exec.Allowed, Permitted, State.step, State.init, MBIN.init,
    State.unacknowledged, sampleRing, putWord, increment]

theorem mbin_sample :
    Exec.Allowed State.step (fun s e => Permitted s e ∧ InOrder s e) (sampleInit 1) sampleRun ∧
      ExactlyOnce (sampleInit 1) sampleRun := by
  have hallowed : Exec.Allowed State.step (fun s e => Permitted s e ∧ InOrder s e)
      (sampleInit 1) sampleRun := by
    simp [sampleRun, sampleInit, Exec.Allowed, Permitted, InOrder, State.step, State.init,
      MBIN.init, State.unacknowledged, sampleRing, putWord, increment, State.idOf]
  exact ⟨hallowed,
    mbin_exactly_once 1 sampleRing sampleRing sampleRing sampleRing sampleRing_holds sampleRun
      hallowed⟩

/-- Request 0 looks like one seen before in the zeros of a fresh history. -/
theorem request_zero_lost :
    Exec.Allowed State.step Permitted (sampleInit 0) sampleRun ∧
      ¬ ExactlyOnce (sampleInit 0) sampleRun := by
  refine ⟨sampleRun_permitted 0, ?_⟩
  intro h
  have havailable : (Exec.runTo State.step (sampleInit 0) sampleRun 3).Available := by
    simp [sampleRun, sampleInit, Exec.runTo, State.Available, State.step, State.init, MBIN.init,
      sampleRing, putWord, takeWord, increment, filled, space, IsBuffer, NullEmbPtr]
  have hdelivered := h.next_copy 3 0 rfl havailable
  revert hdelivered
  simp [sampleRun, sampleInit, Exec.runTo, State.step, State.arrive, State.init, MBIN.init,
    MBIN.request, sampleRing, putWord, increment, State.idOf]

end Spy
