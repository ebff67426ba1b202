import OsxVlm.Chaos.ArpCache

/-!
# How often the core asks for an address

`arp_resolve` sends no second request for an address within 500 ms, as far as its
entry remembers the first.  `arpLog` is what an observer sees of a run: the
requests it emits with their times, and the replies it receives.  An entry that is
given up for another address takes the time of its request with it.
-/

namespace Chaos

/-! ### The log of a run -/

/-- A request sent, or a reply received, for an address. -/
inductive ArpEvent
  | request (addr : UShort) (atMs : Millis)
  | reply (addr : UShort)
  deriving DecidableEq

open ArpEvent

/-- The address a frame asks for, if it is a request. -/
def requestedAddr (f : List Byte) : Option UShort :=
  if etherType f = arpEthertype ∧ byteAt f 20 = 0 ∧ byteAt f 21 = 1 then some (get16At f 36)
  else none

/-- The requests among the frames emitted at `nowMs`. -/
def requestsIn (nowMs : Millis) (fs : List (List Byte)) : List ArpEvent :=
  fs.filterMap fun f => (requestedAddr f).map (request · nowMs)

/-- The call is a reply for the address it teaches. -/
def repliesIn (c : ChaosCore) (call : CoreCall) : List ArpEvent :=
  match call, callTeaches c.myAddr c.myMac call with
  | .input frame, some (addr, _) =>
      if etherType frame = arpEthertype ∧ byteAt frame 20 = 0 ∧ byteAt frame 21 = 2 then
        [reply addr]
      else []
  | _, _ => []

/-- What an observer of a call sees. -/
def arpEvents (c : ChaosCore) (e : CoreEvent) : List ArpEvent :=
  repliesIn c e.call ++
    requestsIn e.nowMs ((coreStep c e).emitted.drop c.emitted.length)

/-- What an observer of a run sees. -/
def arpLog (c : ChaosCore) (es : List CoreEvent) : List ArpEvent :=
  Exec.outputs coreStep arpEvents c es

/-- Any two requests for one address with no reply for it between them are at
least 500 ms apart. -/
def ArpSpaced (log : List ArpEvent) : Prop :=
  ∀ addr t₁ t₂ before between after,
    log = before ++ request addr t₁ :: between ++ request addr t₂ :: after →
    reply addr ∉ between → t₁.toNat + 500 ≤ t₂.toNat

/-- One event more: the time of the last request for `addr` not replied to since. -/
def stillAsked (addr : UShort) (last : Option Millis) : ArpEvent → Option Millis
  | .request a t => if a = addr then some t else last
  | .reply a => if a = addr then none else last

/-- The time of the last request for `addr` with no reply since. -/
def lastAsked (log : List ArpEvent) (addr : UShort) : Option Millis :=
  log.foldl (stillAsked addr) none

/-- The times of the requests do not decrease. -/
def Timely (log : List ArpEvent) : Prop :=
  log.Pairwise fun x y => ∀ a t b u, x = request a t → y = request b u → t ≤ u

section Log

variable {log : List ArpEvent} {addr : UShort} {nowMs : Millis}

theorem lastAsked_append (log : List ArpEvent) (x : ArpEvent) (addr : UShort) :
    lastAsked (log ++ [x]) addr = stillAsked addr (lastAsked log addr) x := by
  rw [lastAsked, List.foldl_append]
  rfl

theorem lastAsked_request (log : List ArpEvent) (a addr : UShort) (t : Millis) :
    lastAsked (log ++ [request a t]) addr =
      if a = addr then some t else lastAsked log addr :=
  lastAsked_append log _ addr

theorem lastAsked_reply (log : List ArpEvent) (a addr : UShort) :
    lastAsked (log ++ [reply a]) addr = if a = addr then none else lastAsked log addr :=
  lastAsked_append log _ addr

/-- What was asked last is in the log. -/
theorem lastAsked_mem {t : Millis} (h : lastAsked log addr = some t) : request addr t ∈ log := by
  induction log using List.reverseRecOn with
  | nil => cases h
  | append_singleton log x ih =>
      cases x with
      | request a u =>
          rw [lastAsked_request] at h
          split at h
          · next ha =>
            obtain rfl := Option.some.inj h
            simp [ha]
          · exact List.mem_append_left _ (ih h)
      | reply a =>
          rw [lastAsked_reply] at h
          split at h
          · cases h
          · exact List.mem_append_left _ (ih h)

/-- After a request with no reply since, one that is no older is still open. -/
theorem lastAsked_between {before between : List ArpEvent} {t : Millis}
    (htimes : Timely (before ++ request addr t :: between)) (hno : reply addr ∉ between) :
    ∃ u, lastAsked (before ++ request addr t :: between) addr = some u ∧ t ≤ u := by
  induction between using List.reverseRecOn with
  | nil => exact ⟨t, by rw [lastAsked_request, if_pos rfl], BitVec.le_refl t⟩
  | append_singleton between x ih =>
      have hsplit : before ++ request addr t :: (between ++ [x]) =
          (before ++ request addr t :: between) ++ [x] := by simp
      rw [hsplit] at htimes ⊢
      obtain ⟨hfront, -, hlast⟩ := List.pairwise_append.mp htimes
      obtain ⟨u, hu, htu⟩ := ih hfront fun hmem => hno (List.mem_append_left _ hmem)
      have hmem : request addr t ∈ before ++ request addr t :: between := by simp
      cases x with
      | request a v =>
          rw [lastAsked_request, hu]
          split
          · exact ⟨v, rfl, hlast _ hmem _ (List.mem_singleton_self _) _ _ _ _ rfl rfl⟩
          · exact ⟨u, rfl, htu⟩
      | reply a =>
          have hne : a ≠ addr := by
            rintro rfl
            exact hno (by simp)
          exact ⟨u, by rw [lastAsked_reply, if_neg hne, hu], htu⟩

/-- One event more: only a pair that ends with it is new. -/
theorem ArpSpaced.append {x : ArpEvent} (h : ArpSpaced log)
    (hnew : ∀ addr t₁ t₂ before between, x = request addr t₂ →
      log = before ++ request addr t₁ :: between → reply addr ∉ between →
      t₁.toNat + 500 ≤ t₂.toNat) : ArpSpaced (log ++ [x]) := by
  intro addr t₁ t₂ before between after heq hno
  rcases List.eq_nil_or_concat after with rfl | ⟨after, y, rfl⟩
  · obtain ⟨hlog, hx⟩ := List.append_inj' heq rfl
    exact hnew addr t₁ t₂ before between (List.singleton_inj.mp hx) hlog hno
  · have hshape : log ++ [x] =
        (before ++ request addr t₁ :: between ++ request addr t₂ :: after) ++ [y] := by
      rw [heq, List.concat_eq_append]
      simp
    exact h addr t₁ t₂ before between after (List.append_inj' hshape rfl).1 hno

theorem ArpSpaced.reply (h : ArpSpaced log) (a : UShort) : ArpSpaced (log ++ [reply a]) :=
  h.append fun _ _ _ _ _ hx => by cases hx

/-- A request late enough after the last one. -/
theorem ArpSpaced.request (h : ArpSpaced log) (htimes : Timely log)
    (hlast : ∀ t, lastAsked log addr = some t → t.toNat + 500 ≤ nowMs.toNat) :
    ArpSpaced (log ++ [request addr nowMs]) := by
  refine h.append fun a t₁ t₂ before between hx hlog hno => ?_
  obtain ⟨rfl, rfl⟩ := ArpEvent.request.inj hx
  rw [hlog] at htimes hlast
  obtain ⟨u, hu, hle⟩ := lastAsked_between htimes hno
  have hsoon := hlast u hu
  have hle' : t₁.toNat ≤ u.toNat := hle
  omega

end Log

/-! ### The table and the log together -/

/-- The core with the log of its run so far. -/
structure ArpTrace where
  core : ChaosCore
  log : List ArpEvent

/-- One operation, and the requests it emits. -/
def opTrace (nowMs : Millis) (r : ArpTrace) (op : CoreOp) : ArpTrace :=
  ⟨opStep nowMs r.core op,
    r.log ++ requestsIn nowMs ((opStep nowMs r.core op).emitted.drop r.core.emitted.length)⟩

/-- One call: the reply it brings, then its operations. -/
def callTrace (r : ArpTrace) (e : CoreEvent) : ArpTrace :=
  Exec.run (opTrace e.nowMs) ⟨r.core, r.log ++ repliesIn r.core e.call⟩ (coreOps r.core e)

/-- The address an operation looks up in the table. -/
def CoreOp.tableAddr : CoreOp → Option UShort
  | .learn addr _ => some addr
  | .send s => some s.destAddr
  | _ => none

/-- The entry in use that `arp_find` gives up when the operation needs a new one. -/
def givenUp (c : ChaosCore) (op : CoreOp) : Option ChaosArpEntry :=
  match op.tableAddr with
  | none => none
  | some addr =>
      let e := c.arp (arpFindCreate c addr).1
      if arpFind c addr = none ∧ e.active then some e else none

/-- The operation gives up no entry less than 500 ms after the last request for its
address that has had no reply. -/
def KeepsAsked (nowMs : Millis) (r : ArpTrace) (op : CoreOp) : Prop :=
  ∀ e, givenUp r.core op = some e →
    ∀ t, lastAsked r.log e.addr = some t → t.toNat + 500 ≤ nowMs.toNat

instance (nowMs : Millis) (r : ArpTrace) (op : CoreOp) : Decidable (KeepsAsked nowMs r op) :=
  match hgiven : givenUp r.core op with
  | none => isTrue fun e he => by simp [hgiven] at he
  | some e =>
      match hlast : lastAsked r.log e.addr with
      | none => isTrue fun e' he t ht => by
          obtain rfl := Option.some.inj (hgiven.symm.trans he)
          simp [hlast] at ht
      | some t => decidable_of_iff (t.toNat + 500 ≤ nowMs.toNat) (by
          simp [KeepsAsked, hgiven, hlast])

/-- So does every operation of a call. -/
def CallKeepsAsked (r : ArpTrace) (e : CoreEvent) : Prop :=
  Exec.Allowed (opTrace e.nowMs) (KeepsAsked e.nowMs)
    ⟨r.core, r.log ++ repliesIn r.core e.call⟩ (coreOps r.core e)

instance (r : ArpTrace) (e : CoreEvent) : Decidable (CallKeepsAsked r e) :=
  inferInstanceAs (Decidable (Exec.Allowed _ _ _ _))

/-- The entry still knows of a request at `t`: it is the last one, or the address
has been learned since. -/
def ChaosArpEntry.Remembers (e : ChaosArpEntry) (t : Millis) : Prop :=
  (e.requested ∧ e.requestedMs = t) ∨ (e.valid ∧ t ≤ e.learnedMs)

/-- The times in the entry are not in the future. -/
def ChaosArpEntry.Past (e : ChaosArpEntry) (nowMs : Millis) : Prop :=
  (e.requested → e.requestedMs ≤ nowMs) ∧ (e.valid → e.learnedMs ≤ nowMs)

/-- The invariant of a run: every request without a reply is either 500 ms old, or
the entry of its address remembers it. -/
structure Paced (nowMs : Millis) (r : ArpTrace) : Prop where
  distinct : ArpDistinct r.core
  past : ∀ i, (r.core.arp i).Past nowMs
  logged : ∀ a t, request a t ∈ r.log → t ≤ nowMs
  timely : Timely r.log
  spaced : ArpSpaced r.log
  remembered : ∀ a t, lastAsked r.log a = some t → t.toNat + 500 ≤ nowMs.toNat ∨
    ∃ i, (r.core.arp i).active ∧ (r.core.arp i).addr = a ∧ (r.core.arp i).Remembers t

theorem ChaosArpEntry.Past.mono {e : ChaosArpEntry} {nowMs laterMs : Millis}
    (h : e.Past nowMs) (hle : nowMs ≤ laterMs) : e.Past laterMs :=
  ⟨fun hr => BitVec.le_trans (h.1 hr) hle, fun hv => BitVec.le_trans (h.2 hv) hle⟩

/-- Time passes. -/
theorem Paced.mono {nowMs laterMs : Millis} {r : ArpTrace} (h : Paced nowMs r)
    (hle : nowMs ≤ laterMs) : Paced laterMs r := by
  refine ⟨h.distinct, fun i => (h.past i).mono hle,
    fun a t ht => BitVec.le_trans (h.logged a t ht) hle, h.timely, h.spaced, fun a t ht => ?_⟩
  have hle' : nowMs.toNat ≤ laterMs.toNat := hle
  rcases h.remembered a t ht with hold | hentry
  · exact Or.inl (by omega)
  · exact Or.inr hentry

/-- **The guard of `arp_resolve`.**  No request is due within 500 ms of one the
entry remembers. -/
theorem due_apart {e : ChaosArpEntry} {t nowMs : Millis} (hdue : e.due nowMs)
    (hpast : e.Past nowMs) (hremembers : e.Remembers t) : t.toNat + 500 ≤ nowMs.toNat := by
  have hretry : chaosArpRetryMs.toNat = 500 := rfl
  have hlong : (chaosArpRetryMs * 20).toNat = 10000 := rfl
  have hrefresh : chaosArpRefreshMs.toNat = 300000 := rfl
  unfold ChaosArpEntry.due at hdue
  by_cases hvalid : e.valid = true
  · rw [if_pos hvalid] at hdue
    obtain ⟨hold, hagain⟩ := of_decide_eq_true hdue
    rcases hremembers with ⟨hreq, rfl⟩ | ⟨-, hlearned⟩
    · have hle : chaosArpRetryMs * 20 ≤ nowMs - e.requestedMs :=
        hagain.resolve_left (not_not.mpr hreq)
      rw [BitVec.le_def, BitVec.toNat_sub_of_le (hpast.1 hreq), hlong] at hle
      omega
    · rw [BitVec.lt_def, BitVec.toNat_sub_of_le (hpast.2 hvalid), hrefresh] at hold
      have hlearned' : t.toNat ≤ e.learnedMs.toNat := hlearned
      omega
  · rw [if_neg hvalid] at hdue
    rcases hremembers with ⟨hreq, rfl⟩ | ⟨hv, -⟩
    · have hle : chaosArpRetryMs ≤ nowMs - e.requestedMs :=
        (of_decide_eq_true hdue).resolve_left (not_not.mpr hreq)
      rw [BitVec.le_def, BitVec.toNat_sub_of_le (hpast.1 hreq), hretry] at hle
      omega
    · exact absurd hv hvalid

/-! ### Requests in frames -/

theorem requestedAddr_arpFrame (dst src : Mac) (op : Byte) (spa : UShort) (tha : Mac)
    (tpa : UShort) :
    requestedAddr (arpFrame dst src op spa tha tpa) = if op = 1 then some tpa else none := by
  have hop : byteAt (arpFrame dst src op spa tha tpa) 21 = op := by
    rw [arpFrame, mac_toList, mac_toList]
    rfl
  have hhigh : byteAt (arpFrame dst src op spa tha tpa) 20 = 0 := by
    rw [arpFrame, mac_toList, mac_toList]
    rfl
  have htpa : get16At (arpFrame dst src op spa tha tpa) 36 = tpa := by
    rw [arpFrame, mac_toList, mac_toList, mac_toList]
    exact chaosGet16_put16 tpa
  rw [requestedAddr, etherType_arpFrame, hop, hhigh, htpa]
  simp

theorem requestedAddr_chaosFrame (dst src : Mac) (myAddr : UShort) (s : RawSend) :
    requestedAddr (chaosFrame dst src myAddr s) = none := by
  rw [requestedAddr, etherType_chaosFrame]
  exact if_neg fun h => absurd h.1 (by decide)

theorem requestsIn_append (nowMs : Millis) (fs gs : List (List Byte)) :
    requestsIn nowMs (fs ++ gs) = requestsIn nowMs fs ++ requestsIn nowMs gs :=
  List.filterMap_append

/-- `send_raw` emits a request when one is due. -/
theorem requestsIn_sendFrames (c : ChaosCore) (e : ChaosArpEntry) (s : RawSend)
    (nowMs : Millis) :
    requestsIn nowMs (sendFrames c e s nowMs) =
      if e.due nowMs then [request e.addr nowMs] else [] := by
  have hreq : requestedAddr (requestFrame c e.addr) = some e.addr := by
    rw [requestFrame, requestedAddr_arpFrame, if_pos rfl]
  have hpacket := requestedAddr_chaosFrame e.mac c.myMac c.myAddr s
  rw [sendFrames, requestsIn_append]
  have hnone : requestsIn nowMs
      (if e.valid then [chaosFrame e.mac c.myMac c.myAddr s] else []) = [] := by
    split <;> simp [requestsIn, hpacket]
  rw [hnone, List.append_nil]
  split <;> simp [requestsIn, hreq]

/-- An operation emits after what was emitted before. -/
theorem opStep_emitted (nowMs : Millis) (c : ChaosCore) (op : CoreOp) :
    ∃ new, (opStep nowMs c op).emitted = c.emitted ++ new := by
  cases op with
  | conn h k => exact ⟨[], (List.append_nil _).symm⟩
  | number u n => exact ⟨[], (List.append_nil _).symm⟩
  | reply sha spa => exact ⟨_, rfl⟩
  | learn addr mac =>
      obtain ⟨i, base, -, -, hstore⟩ := arpStore_eq c addr mac nowMs
      exact ⟨[], by rw [opStep, hstore, List.append_nil]; rfl⟩
  | send s =>
      obtain ⟨i, base, -, -, hsend⟩ := sendRaw_eq c s nowMs
      exact ⟨_, by rw [opStep, hsend]⟩

/-! ### One operation -/

section Slot

variable {nowMs : Millis} {r : ArpTrace} {op : CoreOp} {addr : UShort}
  {i : Fin chaosArpEntries} {base e : ChaosArpEntry}

/-- The entry found for an address remembers its requests. -/
theorem Paced.found (h : Paced nowMs r) (hslot : ArpSlot r.core addr i base) {t : Millis}
    (hlast : lastAsked r.log addr = some t) :
    t.toNat + 500 ≤ nowMs.toNat ∨ base.Remembers t := by
  rcases h.remembered addr t hlast with hold | ⟨j, hactive, haddr, hrem⟩
  · exact Or.inl hold
  · rcases hslot.found with ⟨hbase, -⟩ | ⟨-, hnone⟩
    · have hji : j = i := by
        by_contra hne
        exact hslot.others h.distinct hne hactive haddr
      rw [hbase, ← hji]
      exact Or.inr hrem
    · exact absurd haddr (hnone j hactive)

/-- Writing the slot of one address leaves the requests for another remembered,
or they are old: that is what giving up an entry must not break. -/
theorem Paced.others (h : Paced nowMs r) (hslot : ArpSlot r.core addr i base)
    (htable : op.tableAddr = some addr) (hi : (arpFindCreate r.core addr).1 = i)
    (hkeeps : KeepsAsked nowMs r op) {a : UShort} (ha : a ≠ addr) {t : Millis}
    (hlast : lastAsked r.log a = some t) :
    t.toNat + 500 ≤ nowMs.toNat ∨ ∃ j, ((r.core.setArp i e).arp j).active ∧
      ((r.core.setArp i e).arp j).addr = a ∧ ((r.core.setArp i e).arp j).Remembers t := by
  rcases h.remembered a t hlast with hold | ⟨j, hactive, haddr, hrem⟩
  · exact Or.inl hold
  by_cases hji : j = i
  · subst hji
    left
    rcases hslot.found with ⟨hbase, -⟩ | ⟨-, hnone⟩
    · -- the slot was found for its own address
      have hsame : (r.core.arp j).addr = addr := hbase ▸ hslot.addr_eq
      exact absurd (haddr.symm.trans hsame) ha
    · -- the entry is given up
      have hfind : arpFind r.core addr = none := by
        cases hf : arpFind r.core addr with
        | none => rfl
        | some k => exact absurd (arpFind_some hf).2 (hnone k (arpFind_some hf).1)
      have hgiven : givenUp r.core op = some (r.core.arp j) := by
        rw [givenUp, htable]
        simp only [hi]
        exact if_pos ⟨hfind, hactive⟩
      exact hkeeps _ hgiven t (haddr ▸ hlast)
  · refine Or.inr ⟨j, ?_⟩
    simp only [ChaosCore.setArp, Function.update_of_ne hji]
    exact ⟨hactive, haddr, hrem⟩

theorem Paced.base_past (h : Paced nowMs r) (hslot : ArpSlot r.core addr i base) :
    base.Past nowMs := by
  rcases hslot.found with ⟨hbase, -⟩ | ⟨hbase, -⟩
  · rw [hbase]
    exact h.past i
  · rw [hbase]
    simp [ChaosArpEntry.Past]

theorem Paced.set_past (h : Paced nowMs r) (he : e.Past nowMs) (j : Fin chaosArpEntries) :
    ((r.core.setArp i e).arp j).Past nowMs := by
  by_cases hji : j = i
  · subst hji
    rw [setArp_arp]
    exact he
  · simp only [ChaosCore.setArp, Function.update_of_ne hji]
    exact h.past j

end Slot

/-- An operation that leaves the table and emits no request. -/
theorem Paced.same {nowMs : Millis} {r : ArpTrace} {c : ChaosCore} (h : Paced nowMs r)
    (harp : c.arp = r.core.arp) : Paced nowMs ⟨c, r.log⟩ := by
  refine ⟨arpDistinct_congr harp h.distinct, fun i => ?_, h.logged, h.timely, h.spaced, ?_⟩
  · show (c.arp i).Past nowMs
    rw [harp]
    exact h.past i
  · intro a t ht
    show _ ∨ ∃ i, (c.arp i).active ∧ (c.arp i).addr = a ∧ (c.arp i).Remembers t
    rw [harp]
    exact h.remembered a t ht

theorem asked_of_due {e : ChaosArpEntry} {nowMs : Millis} (h : e.due nowMs = true) :
    e.asked nowMs = { e with requested := true, requestedMs := nowMs } := if_pos h

theorem asked_of_not_due {e : ChaosArpEntry} {nowMs : Millis} (h : e.due nowMs = false) :
    e.asked nowMs = e := if_neg (by simp [h])

/-- **`send_raw`.**  A request it emits comes 500 ms after the last one without a
reply, and is remembered. -/
theorem Paced.send {nowMs : Millis} {r : ArpTrace} {s : RawSend} (h : Paced nowMs r)
    (hkeeps : KeepsAsked nowMs r (.send s)) : Paced nowMs (opTrace nowMs r (.send s)) := by
  obtain ⟨i, base, hslot, hi, hsend⟩ := sendRaw_eq r.core s nowMs
  have hevents : requestsIn nowMs ((opStep nowMs r.core (.send s)).emitted.drop
      r.core.emitted.length) = if base.due nowMs then [request s.destAddr nowMs] else [] := by
    rw [opStep, hsend, ← hslot.addr_eq]
    simp only [List.drop_left]
    exact requestsIn_sendFrames r.core base s nowMs
  have hbase := h.base_past hslot
  have hothers := fun a ha t => h.others (e := base.asked nowMs) (a := a) (t := t) hslot rfl hi
    hkeeps ha
  have hdistinct := hslot.distinct ((asked_addr base nowMs).trans hslot.addr_eq) h.distinct
  rw [opTrace, hevents, opStep, hsend]
  cases hdue : base.due nowMs with
  | false =>
      rw [asked_of_not_due hdue] at hothers hdistinct ⊢
      rw [if_neg (by simp), List.append_nil]
      refine ⟨hdistinct, h.set_past hbase, h.logged, h.timely, h.spaced, fun a t hlast => ?_⟩
      by_cases ha : a = s.destAddr
      · subst ha
        rcases h.found hslot hlast with hold | hrem
        · exact Or.inl hold
        · refine Or.inr ⟨i, ?_⟩
          show ((r.core.setArp i base).arp i).active ∧ ((r.core.setArp i base).arp i).addr = _ ∧
            ((r.core.setArp i base).arp i).Remembers t
          rw [setArp_arp]
          refine ⟨?_, hslot.addr_eq, hrem⟩
          rcases hrem with ⟨hr, -⟩ | ⟨hv, -⟩
          · simp [ChaosArpEntry.active, hr]
          · simp [ChaosArpEntry.active, hv]
      · exact hothers a ha t hlast
  | true =>
      rw [asked_of_due hdue] at hothers hdistinct ⊢
      rw [if_pos rfl]
      have hsoon : ∀ t, lastAsked r.log s.destAddr = some t → t.toNat + 500 ≤ nowMs.toNat := by
        intro t hlast
        rcases h.found hslot hlast with hold | hrem
        · exact hold
        · exact due_apart hdue hbase hrem
      refine ⟨hdistinct, h.set_past ⟨fun _ => BitVec.le_refl _, hbase.2⟩, ?_, ?_,
        h.spaced.request h.timely hsoon, ?_⟩
      · intro a t hmem
        rcases List.mem_append.mp hmem with hmem | hmem
        · exact h.logged a t hmem
        · obtain ⟨-, rfl⟩ := ArpEvent.request.inj (List.mem_singleton.mp hmem)
          exact BitVec.le_refl t
      · refine List.pairwise_append.mpr ⟨h.timely, List.pairwise_singleton _ _, ?_⟩
        intro x hx y hy a t b u hxe hye
        subst hxe
        obtain ⟨-, rfl⟩ := ArpEvent.request.inj (hye.symm.trans (List.mem_singleton.mp hy))
        exact h.logged a t hx
      · intro a t hlast
        rw [lastAsked_request] at hlast
        by_cases ha : a = s.destAddr
        · subst ha
          rw [if_pos rfl] at hlast
          obtain rfl := Option.some.inj hlast
          refine Or.inr ⟨i, ?_⟩
          show ((r.core.setArp i _).arp i).active ∧ ((r.core.setArp i _).arp i).addr = _ ∧
            ((r.core.setArp i _).arp i).Remembers nowMs
          rw [setArp_arp]
          exact ⟨by simp [ChaosArpEntry.active], hslot.addr_eq, Or.inl ⟨rfl, rfl⟩⟩
        · rw [if_neg (Ne.symm ha)] at hlast
          exact hothers a ha t hlast

/-- **`arp_learn`.**  What is learned is no older than any request. -/
theorem Paced.learn {nowMs : Millis} {r : ArpTrace} {addr : UShort} {mac : Mac}
    (h : Paced nowMs r) (hkeeps : KeepsAsked nowMs r (.learn addr mac)) :
    Paced nowMs (opTrace nowMs r (.learn addr mac)) := by
  obtain ⟨i, base, hslot, hi, hstore⟩ := arpStore_eq r.core addr mac nowMs
  have hevents : requestsIn nowMs ((opStep nowMs r.core (.learn addr mac)).emitted.drop
      r.core.emitted.length) = [] := by
    rw [opStep, hstore]
    show requestsIn nowMs (r.core.emitted.drop r.core.emitted.length) = []
    rw [List.drop_length]
    rfl
  rw [opTrace, hevents, List.append_nil, opStep, hstore]
  refine ⟨hslot.distinct hslot.addr_eq h.distinct,
    h.set_past ⟨fun hr => (by cases hr), fun _ => BitVec.le_refl _⟩, h.logged, h.timely,
    h.spaced, fun a t hlast => ?_⟩
  by_cases ha : a = addr
  · subst ha
    refine Or.inr ⟨i, ?_⟩
    rw [setArp_arp]
    exact ⟨by simp [ChaosArpEntry.active, ChaosArpEntry.learned], hslot.addr_eq,
      Or.inr ⟨rfl, h.logged a t (lastAsked_mem hlast)⟩⟩
  · exact h.others hslot rfl hi hkeeps ha hlast

/-- **One operation.** -/
theorem Paced.op {nowMs : Millis} {r : ArpTrace} {op : CoreOp} (hkeeps : KeepsAsked nowMs r op)
    (h : Paced nowMs r) : Paced nowMs (opTrace nowMs r op) := by
  have hsame : ∀ {c : ChaosCore}, c.arp = r.core.arp → c.emitted = r.core.emitted →
      Paced nowMs ⟨c, r.log ++ requestsIn nowMs (c.emitted.drop r.core.emitted.length)⟩ := by
    intro c harp hemitted
    rw [hemitted, List.drop_length]
    show Paced nowMs ⟨c, r.log ++ []⟩
    rw [List.append_nil]
    exact h.same harp
  cases op with
  | conn i k => exact hsame rfl rfl
  | number u n => exact hsame rfl rfl
  | learn addr mac => exact h.learn hkeeps
  | send s => exact h.send hkeeps
  | reply sha spa =>
      have hevents : requestsIn nowMs
          [arpFrame sha r.core.myMac 2 r.core.myAddr sha spa] = [] := by
        have hno := requestedAddr_arpFrame sha r.core.myMac 2 r.core.myAddr sha spa
        rw [if_neg (by decide)] at hno
        rw [requestsIn, List.filterMap_cons, hno]
        rfl
      have hcore := h.same (c := opStep nowMs r.core (.reply sha spa)) rfl
      rw [opTrace]
      show Paced nowMs ⟨_, r.log ++ requestsIn nowMs
        ((r.core.emitted ++ [arpFrame sha r.core.myMac 2 r.core.myAddr sha spa]).drop
          r.core.emitted.length)⟩
      rw [List.drop_left, hevents, List.append_nil]
      exact hcore

/-- The reply a call brings. -/
theorem Paced.replied {nowMs : Millis} {r : ArpTrace} (h : Paced nowMs r) (call : CoreCall) :
    Paced nowMs ⟨r.core, r.log ++ repliesIn r.core call⟩ := by
  have hreply : ∀ a, Paced nowMs ⟨r.core, r.log ++ [reply a]⟩ := by
    intro a
    refine ⟨h.distinct, h.past, ?_, ?_, h.spaced.reply a, ?_⟩
    · intro b t hmem
      rcases List.mem_append.mp hmem with hmem | hmem
      · exact h.logged b t hmem
      · cases List.mem_singleton.mp hmem
    · refine List.pairwise_append.mpr ⟨h.timely, List.pairwise_singleton _ _, ?_⟩
      intro x _ y hy b t d u _ hye
      cases hye.symm.trans (List.mem_singleton.mp hy)
    · intro b t hlast
      rw [lastAsked_reply] at hlast
      split at hlast
      · cases hlast
      · exact h.remembered b t hlast
  have hnone : Paced nowMs ⟨r.core, r.log ++ []⟩ := by
    rw [List.append_nil]
    exact h.same rfl
  unfold repliesIn
  split
  · split
    · exact hreply _
    · exact hnone
  · exact hnone

/-- **One call.** -/
theorem Paced.call {r : ArpTrace} {e : CoreEvent} (h : Paced e.nowMs r)
    (hkeeps : CallKeepsAsked r e) : Paced e.nowMs (callTrace r e) :=
  Exec.run_invariant (fun _ _ hop hr => Paced.op hop hr) hkeeps (h.replied e.call)

/-! ### Runs -/

/-- The operations of a call emit what the call emits. -/
theorem opTrace_run (nowMs : Millis) (ops : List CoreOp) (r : ArpTrace) :
    Exec.run (opTrace nowMs) r ops = ⟨runOps nowMs r.core ops,
      r.log ++ requestsIn nowMs ((runOps nowMs r.core ops).emitted.drop
        r.core.emitted.length)⟩ ∧
      ∃ new, (runOps nowMs r.core ops).emitted = r.core.emitted ++ new := by
  induction ops generalizing r with
  | nil => exact ⟨by simp [requestsIn], [], by simp⟩
  | cons op ops ih =>
      obtain ⟨hrun, new', hnew'⟩ := ih (opTrace nowMs r op)
      obtain ⟨new, hnew⟩ := opStep_emitted nowMs r.core op
      have hcore : (opTrace nowMs r op).core = opStep nowMs r.core op := rfl
      have hlog : (opTrace nowMs r op).log = r.log ++ requestsIn nowMs new := by
        rw [opTrace, hnew, List.drop_left]
      rw [hcore] at hnew' hrun
      refine ⟨?_, new ++ new', by rw [runOps_cons, hnew', hnew, List.append_assoc]⟩
      rw [Exec.run_cons, hrun, hlog, runOps_cons, hnew', List.drop_left, hnew,
        List.append_assoc r.core.emitted, List.drop_left, requestsIn_append, List.append_assoc]

/-- The log of a call is what an observer of the call sees. -/
theorem callTrace_eq (r : ArpTrace) (e : CoreEvent) :
    callTrace r e = ⟨coreStep r.core e, r.log ++ arpEvents r.core e⟩ := by
  have h := (opTrace_run e.nowMs (coreOps r.core e)
    ⟨r.core, r.log ++ repliesIn r.core e.call⟩).1
  rw [callTrace, h, arpEvents, ← coreStep_ops, List.append_assoc]

theorem callTrace_run (es : List CoreEvent) (r : ArpTrace) :
    Exec.run callTrace r es = ⟨Exec.run coreStep r.core es, r.log ++ arpLog r.core es⟩ := by
  induction es generalizing r with
  | nil => simp [arpLog, Exec.outputs]
  | cons e es ih =>
      rw [Exec.run_cons, ih, callTrace_eq, Exec.run_cons, arpLog, arpLog, Exec.outputs,
        List.append_assoc]

/-- In every run whose times do not decrease and whose calls give up no entry too
soon. -/
theorem callTrace_paced {es : List CoreEvent} {r : ArpTrace} {nowMs : Millis}
    (hr : Paced nowMs r) (htimes : (nowMs :: es.map CoreEvent.nowMs).Pairwise (· ≤ ·))
    (hkeeps : Exec.Allowed callTrace CallKeepsAsked r es) :
    ArpSpaced (Exec.run callTrace r es).log := by
  induction es generalizing r nowMs with
  | nil => exact hr.spaced
  | cons e es ih =>
      obtain ⟨hle, htimes⟩ := List.pairwise_cons.mp htimes
      have hnow := hle e.nowMs (List.mem_cons_self)
      exact ih ((hr.mono hnow).call hkeeps.1) htimes hkeeps.2

theorem paced_init (myAddr : UShort) (myMac : Mac) (hostName : List Byte)
    (localWindow initialPktNum : UShort) :
    Paced 0 ⟨chaosCoreInit myAddr myMac hostName localWindow initialPktNum, []⟩ := by
  refine ⟨fun i j hi => (by cases hi), fun i => ⟨fun hr => (by cases hr), fun hv => (by cases hv)⟩,
    fun a t ht => (by cases ht), List.Pairwise.nil, ?_, fun a t ht => (by cases ht)⟩
  intro a t₁ t₂ before between after heq
  simp at heq

/-- **The request rate limit.**  In every run from `chaos_core_init` whose times do
not decrease and in which no entry is given up within 500 ms of an unanswered
request for its address, any two requests for one address with no reply between
them are at least 500 ms apart. -/
theorem arpRequests_spaced (myAddr : UShort) (myMac : Mac) (hostName : List Byte)
    (localWindow initialPktNum : UShort) (es : List CoreEvent)
    (htimes : (es.map CoreEvent.nowMs).Pairwise (· ≤ ·))
    (hkeeps : Exec.Allowed callTrace CallKeepsAsked
      ⟨chaosCoreInit myAddr myMac hostName localWindow initialPktNum, []⟩ es) :
    ArpSpaced (arpLog (chaosCoreInit myAddr myMac hostName localWindow initialPktNum) es) := by
  have hzero : (0 :: es.map CoreEvent.nowMs).Pairwise (· ≤ ·) :=
    List.pairwise_cons.mpr ⟨fun t _ => Nat.zero_le t.toNat, htimes⟩
  have h := callTrace_paced (paced_init myAddr myMac hostName localWindow initialPktNum)
    hzero hkeeps
  rw [callTrace_run] at h
  exact h

/-! ### Giving up an entry too soon -/

/-- A request for connection from a host that has taught no hardware address: it is
on another subnet. -/
def farFrame (host : Nat) : CoreEvent :=
  ⟨.input (chaosFrame (Vector.replicate 6 2) (Vector.replicate 6 4) (BitVec.ofNat 16 (0x0200 + host))
    { opcode := chopRfc, destAddr := 0o404, destIndex := 0, srcIndex := 0x77, num := 1, ack := 0,
      data := bytesOf "NAME" }), 1000⟩

/-- Sixty-five such hosts, and then the first one again, all at one time. -/
def farFrames : List CoreEvent := ((List.range 65).map farFrame) ++ [farFrame 0]

/-- The sixty-fifth address takes the slot of the first, which is asked for again
at once. -/
theorem arpRequests_again :
    farFrames.map CoreEvent.nowMs = List.replicate 66 1000 ∧
      ¬ ArpSpaced (arpLog sampleCore farFrames) := by
  refine ⟨by decide, fun h => ?_⟩
  have hlog : arpLog sampleCore farFrames = [] ++ request 0x0200 1000 ::
      ((List.range 64).map fun n => request (BitVec.ofNat 16 (0x0201 + n)) 1000) ++
        request 0x0200 1000 :: [] := by
    decide +kernel
  have hapart := h 0x0200 1000 1000 _ _ _ hlog (by simp)
  omega

/-- One such host, heard twice within the limit. -/
theorem arpRequests_spaced_two :
    ArpSpaced (arpLog sampleCore [farFrame 0, { farFrame 0 with nowMs := 1500 }]) :=
  arpRequests_spaced _ _ _ _ _ _ (by decide) (by decide +kernel)

end Chaos
