import OsxVlm.Chaos.Ops

/-!
# The ARP cache

The table of `arp_find`, `arp_learn` and `arp_resolve`.  Every use of the table
looks up or creates the one entry of its address (`ArpSlot`) and writes back that
entry only, so two entries never share an address, and what an entry holds is
what was taught last for its address.
-/

namespace Chaos

/-! ### One use of the table -/

/-- The entry is in use. -/
def ChaosArpEntry.active (e : ChaosArpEntry) : Bool := e.valid || e.requested

/-- `arp_find` for `addr` in the core `c` yields slot `i` with the contents `base`:
the entry of the address, or a fresh one when it has none. -/
structure ArpSlot (c : ChaosCore) (addr : UShort) (i : Fin chaosArpEntries)
    (base : ChaosArpEntry) : Prop where
  addr_eq : base.addr = addr
  found : (base = c.arp i ∧ base.active) ∨
    (base = { addr } ∧ ∀ j, (c.arp j).active → (c.arp j).addr ≠ addr)

theorem arpFind_some {c : ChaosCore} {addr : UShort} {i : Fin chaosArpEntries}
    (h : arpFind c addr = some i) : (c.arp i).active ∧ (c.arp i).addr = addr := by
  have hi := List.find?_some h
  simpa [ChaosArpEntry.active] using hi

theorem arpFind_none {c : ChaosCore} {addr : UShort} (h : arpFind c addr = none)
    (i : Fin chaosArpEntries) (hi : (c.arp i).active) : (c.arp i).addr ≠ addr := by
  have hno := List.find?_eq_none.mp h i (List.mem_finRange i)
  intro heq
  exact hno (by simpa [ChaosArpEntry.active, heq] using hi)

theorem setArp_self (c : ChaosCore) (i : Fin chaosArpEntries) : c.setArp i (c.arp i) = c := by
  rw [ChaosCore.setArp, Function.update_eq_self]

@[simp] theorem setArp_arp (c : ChaosCore) (i : Fin chaosArpEntries) (e : ChaosArpEntry) :
    (c.setArp i e).arp i = e := by
  simp [ChaosCore.setArp]

@[simp] theorem setArp_conns (c : ChaosCore) (i : Fin chaosArpEntries) (e : ChaosArpEntry) :
    (c.setArp i e).conns = c.conns := rfl

@[simp] theorem setArp_setArp (c : ChaosCore) (i : Fin chaosArpEntries) (e e' : ChaosArpEntry) :
    (c.setArp i e).setArp i e' = c.setArp i e' := by
  simp [ChaosCore.setArp]

/-- `arp_find` with `create` finds the slot of its address. -/
theorem arpFindCreate_slot (c : ChaosCore) (addr : UShort) :
    ∃ base, ArpSlot c addr (arpFindCreate c addr).1 base ∧
      (arpFindCreate c addr).2 = c.setArp (arpFindCreate c addr).1 base := by
  unfold arpFindCreate
  cases h : arpFind c addr with
  | some i =>
      obtain ⟨hactive, haddr⟩ := arpFind_some h
      exact ⟨c.arp i, ⟨haddr, Or.inl ⟨rfl, hactive⟩⟩, (setArp_self c i).symm⟩
  | none => exact ⟨{ addr }, ⟨rfl, Or.inr ⟨rfl, arpFind_none h⟩⟩, rfl⟩

/-- The entry `arp_learn` leaves. -/
def ChaosArpEntry.learned (e : ChaosArpEntry) (mac : Mac) (nowMs : Millis) : ChaosArpEntry :=
  { e with mac, valid := true, requested := false, learnedMs := nowMs }

/-- `arp_resolve` sends a request for the entry. -/
def ChaosArpEntry.due (e : ChaosArpEntry) (nowMs : Millis) : Bool :=
  if e.valid then
    chaosArpRefreshMs < nowMs - e.learnedMs ∧
      (¬ e.requested ∨ chaosArpRetryMs * 20 ≤ nowMs - e.requestedMs)
  else ¬ e.requested ∨ chaosArpRetryMs ≤ nowMs - e.requestedMs

/-- The entry `arp_resolve` leaves. -/
def ChaosArpEntry.asked (e : ChaosArpEntry) (nowMs : Millis) : ChaosArpEntry :=
  if e.due nowMs then { e with requested := true, requestedMs := nowMs } else e

/-- The request for an address. -/
def requestFrame (c : ChaosCore) (addr : UShort) : List Byte :=
  arpFrame (Vector.replicate 6 0xFF) c.myMac 1 c.myAddr (Vector.replicate 6 0) addr

theorem arpStore_eq (c : ChaosCore) (addr : UShort) (mac : Mac) (nowMs : Millis) :
    ∃ i base, ArpSlot c addr i base ∧ (arpFindCreate c addr).1 = i ∧
      arpStore c addr mac nowMs = c.setArp i (base.learned mac nowMs) := by
  obtain ⟨base, hslot, hcore⟩ := arpFindCreate_slot c addr
  refine ⟨_, base, hslot, rfl, ?_⟩
  rw [arpStore, hcore]
  simp only [setArp_arp, setArp_setArp]
  rfl

/-- What `send_raw` emits: a request when one is due, then the packet when the
hardware address is known. -/
def sendFrames (c : ChaosCore) (e : ChaosArpEntry) (s : RawSend) (nowMs : Millis) :
    List (List Byte) :=
  (if e.due nowMs then [requestFrame c e.addr] else []) ++
    (if e.valid then [chaosFrame e.mac c.myMac c.myAddr s] else [])

/-- `send_raw` uses the entry of its destination, and no other. -/
theorem sendRaw_eq (c : ChaosCore) (s : RawSend) (nowMs : Millis) :
    ∃ i base, ArpSlot c s.destAddr i base ∧ (arpFindCreate c s.destAddr).1 = i ∧
      sendRaw c s nowMs =
        { c.setArp i (base.asked nowMs) with emitted := c.emitted ++ sendFrames c base s nowMs } := by
  obtain ⟨base, hslot, hcore⟩ := arpFindCreate_slot c s.destAddr
  refine ⟨_, base, hslot, rfl, ?_⟩
  have hbase : (arpFindCreate c s.destAddr).2.arp (arpFindCreate c s.destAddr).1 = base := by
    rw [hcore, setArp_arp]
  have hrequest : arpSendRequest (arpFindCreate c s.destAddr).2 (arpFindCreate c s.destAddr).1
      nowMs = emitFrame (c.setArp (arpFindCreate c s.destAddr).1
        { base with requested := true, requestedMs := nowMs }) (requestFrame c base.addr) := by
    rw [arpSendRequest, hbase, hcore, setArp_setArp]
    rfl
  unfold sendRaw arpResolve
  simp only [hbase, hrequest]
  by_cases hvalid : base.valid = true
  · rw [if_pos hvalid]
    have hdue : base.due nowMs = decide (chaosArpRefreshMs < nowMs - base.learnedMs ∧
        (¬ base.requested ∨ chaosArpRetryMs * 20 ≤ nowMs - base.requestedMs)) := if_pos hvalid
    by_cases hcond : chaosArpRefreshMs < nowMs - base.learnedMs ∧
        (¬ base.requested ∨ chaosArpRetryMs * 20 ≤ nowMs - base.requestedMs)
    · rw [decide_eq_true hcond] at hdue
      rw [if_pos hcond, sendFrames, ChaosArpEntry.asked, hdue]
      simp [hvalid, emitFrame, ChaosCore.setArp]
    · rw [decide_eq_false hcond] at hdue
      rw [if_neg hcond, sendFrames, ChaosArpEntry.asked, hdue, hcore]
      simp [hvalid, emitFrame, ChaosCore.setArp]
  · rw [if_neg hvalid]
    have hdue : base.due nowMs =
        decide (¬ base.requested ∨ chaosArpRetryMs ≤ nowMs - base.requestedMs) := if_neg hvalid
    by_cases hcond : ¬ base.requested ∨ chaosArpRetryMs ≤ nowMs - base.requestedMs
    · rw [decide_eq_true hcond] at hdue
      rw [if_pos hcond, sendFrames, ChaosArpEntry.asked, hdue]
      simp [hvalid, emitFrame, ChaosCore.setArp]
    · rw [decide_eq_false hcond] at hdue
      rw [if_neg hcond, sendFrames, ChaosArpEntry.asked, hdue, hcore]
      simp [hvalid, ChaosCore.setArp]

theorem opStep_config (nowMs : Millis) (c : ChaosCore) (op : CoreOp) :
    (opStep nowMs c op).myAddr = c.myAddr ∧ (opStep nowMs c op).myMac = c.myMac := by
  cases op with
  | conn h k => exact ⟨rfl, rfl⟩
  | number u n => exact ⟨rfl, rfl⟩
  | reply sha spa => exact ⟨rfl, rfl⟩
  | learn addr mac =>
      obtain ⟨i, base, -, -, hstore⟩ := arpStore_eq c addr mac nowMs
      rw [opStep, hstore]
      exact ⟨rfl, rfl⟩
  | send s =>
      obtain ⟨i, base, -, -, hsend⟩ := sendRaw_eq c s nowMs
      rw [opStep, hsend]
      exact ⟨rfl, rfl⟩

/-! ### One entry for an address -/

/-- The entries in use have pairwise distinct addresses. -/
def ArpDistinct (c : ChaosCore) : Prop :=
  ∀ i j, (c.arp i).active → (c.arp j).active → (c.arp i).addr = (c.arp j).addr → i = j

theorem arpDistinct_congr {c d : ChaosCore} (h : d.arp = c.arp) (hc : ArpDistinct c) :
    ArpDistinct d := by
  unfold ArpDistinct
  rw [h]
  exact hc

/-- No other entry in use has the address of the slot. -/
theorem ArpSlot.others {c : ChaosCore} {addr : UShort} {i : Fin chaosArpEntries}
    {base : ChaosArpEntry} (hslot : ArpSlot c addr i base) (hc : ArpDistinct c)
    {j : Fin chaosArpEntries} (hj : j ≠ i) (hactive : (c.arp j).active) :
    (c.arp j).addr ≠ addr := by
  rcases hslot.found with ⟨hbase, hused⟩ | ⟨-, hnone⟩
  · intro heq
    rw [hbase] at hused
    have haddr : (c.arp i).addr = addr := hbase ▸ hslot.addr_eq
    exact hj (hc j i hactive hused (heq.trans haddr.symm))
  · exact hnone j hactive

/-- Writing the slot of an address keeps the addresses distinct. -/
theorem ArpSlot.distinct {c : ChaosCore} {addr : UShort} {i : Fin chaosArpEntries}
    {base e : ChaosArpEntry} (hslot : ArpSlot c addr i base) (haddr : e.addr = addr)
    (hc : ArpDistinct c) : ArpDistinct (c.setArp i e) := by
  have hother : ∀ j, j ≠ i → ((c.setArp i e).arp j).active →
      ((c.setArp i e).arp j).addr ≠ addr := by
    intro j hj hactive
    simp only [ChaosCore.setArp, Function.update_of_ne hj] at hactive ⊢
    exact hslot.others hc hj hactive
  have hself : ((c.setArp i e).arp i).addr = addr := by rw [setArp_arp, haddr]
  intro j k hj hk heq
  by_cases hji : j = i
  · by_cases hki : k = i
    · exact hji.trans hki.symm
    · subst hji
      exact absurd (heq.symm.trans hself) (hother k hki hk)
  · by_cases hki : k = i
    · subst hki
      exact absurd (heq.trans hself) (hother j hji hj)
    · simp only [ChaosCore.setArp, Function.update_of_ne hji, Function.update_of_ne hki]
        at hj hk heq
      exact hc j k hj hk heq

@[simp] theorem asked_addr (e : ChaosArpEntry) (nowMs : Millis) :
    (e.asked nowMs).addr = e.addr := by
  unfold ChaosArpEntry.asked
  split <;> rfl

@[simp] theorem asked_valid (e : ChaosArpEntry) (nowMs : Millis) :
    (e.asked nowMs).valid = e.valid := by
  unfold ChaosArpEntry.asked
  split <;> rfl

@[simp] theorem asked_mac (e : ChaosArpEntry) (nowMs : Millis) :
    (e.asked nowMs).mac = e.mac := by
  unfold ChaosArpEntry.asked
  split <;> rfl

/-- **One operation keeps the addresses distinct.** -/
theorem opStep_distinct {nowMs : Millis} {c : ChaosCore} (hc : ArpDistinct c) (op : CoreOp) :
    ArpDistinct (opStep nowMs c op) := by
  cases op with
  | conn h k => exact hc
  | number u n => exact hc
  | reply sha spa => exact hc
  | learn addr mac =>
      obtain ⟨i, base, hslot, -, hstore⟩ := arpStore_eq c addr mac nowMs
      rw [opStep, hstore]
      exact hslot.distinct hslot.addr_eq hc
  | send s =>
      obtain ⟨i, base, hslot, -, hsend⟩ := sendRaw_eq c s nowMs
      have haddr : (base.asked nowMs).addr = s.destAddr := (asked_addr base nowMs).trans hslot.addr_eq
      rw [opStep, hsend]
      exact hslot.distinct haddr hc

/-! ### What the entries hold -/

/-- What has been taught for each address. -/
abbrev TaughtMap := UShort → Option Mac

/-- One more address taught. -/
def TaughtMap.add (known : TaughtMap) : Option Taught → TaughtMap
  | none => known
  | some (addr, mac) => Function.update known addr (some mac)

/-- The table holds what was taught last, one entry for an address, none for the
address 0 or the host's own. -/
structure ArpHolds (known : TaughtMap) (c : ChaosCore) : Prop where
  distinct : ArpDistinct c
  valid : ∀ i, (c.arp i).valid → (c.arp i).addr ≠ 0 ∧ (c.arp i).addr ≠ c.myAddr ∧
    known (c.arp i).addr = some (c.arp i).mac

/-- Every Chaos frame goes to the hardware address taught for its destination. -/
def Directed (known : TaughtMap) (fs : List (List Byte)) : Prop :=
  ∀ f ∈ fs, etherType f = chaosEthertype → known (get16At f 18) = some (macAt f 0)

theorem Directed.append {known : TaughtMap} {fs gs : List (List Byte)} (hf : Directed known fs)
    (hg : Directed known gs) : Directed known (fs ++ gs) := by
  intro f hmem
  rcases List.mem_append.mp hmem with hmem | hmem
  · exact hf f hmem
  · exact hg f hmem

/-- Writing the slot of an address keeps the other entries. -/
theorem ArpHolds.setArp {known : TaughtMap} {c : ChaosCore} {addr : UShort}
    {i : Fin chaosArpEntries} {base e : ChaosArpEntry} (hc : ArpHolds known c)
    (hslot : ArpSlot c addr i base) (haddr : e.addr = addr) (known' : TaughtMap)
    (hsame : ∀ a, a ≠ addr → known' a = known a)
    (he : e.valid → addr ≠ 0 ∧ addr ≠ c.myAddr ∧ known' addr = some e.mac) :
    ArpHolds known' (c.setArp i e) := by
  refine ⟨hslot.distinct haddr hc.distinct, fun j hj => ?_⟩
  by_cases hji : j = i
  · subst hji
    rw [setArp_arp] at hj ⊢
    rw [haddr]
    exact he hj
  · simp only [ChaosCore.setArp, Function.update_of_ne hji] at hj ⊢
    have hactive : (c.arp j).active := by simp [ChaosArpEntry.active, hj]
    rw [hsame _ (hslot.others hc.distinct hji hactive)]
    exact hc.valid j hj

/-- A hardware address in a slot is that of the entry found there. -/
theorem ArpHolds.base {known : TaughtMap} {c : ChaosCore} {addr : UShort}
    {i : Fin chaosArpEntries} {base : ChaosArpEntry} (hc : ArpHolds known c)
    (hslot : ArpSlot c addr i base) (hvalid : base.valid) :
    addr ≠ 0 ∧ addr ≠ c.myAddr ∧ known addr = some base.mac := by
  rcases hslot.found with ⟨hbase, -⟩ | ⟨hbase, -⟩
  · have h := hc.valid i (hbase ▸ hvalid)
    rw [← hbase, hslot.addr_eq] at h
    exact h
  · rw [hbase] at hvalid
    cases hvalid

theorem macAt_chaosFrame (dst src : Mac) (myAddr : UShort) (s : RawSend) :
    macAt (chaosFrame dst src myAddr s) 0 = dst := by
  rw [chaosFrame, mac_toList dst]
  ext i hi
  simp only [macAt, Vector.getElem_ofFn]
  interval_cases i <;> rfl

theorem destAddr_chaosFrame (dst src : Mac) (myAddr : UShort) (s : RawSend) :
    get16At (chaosFrame dst src myAddr s) 18 = s.destAddr := by
  rw [chaosFrame, mac_toList, mac_toList]
  exact chaosGet16_put16 s.destAddr

/-- **One operation.**  It keeps what the table holds, and what it emits goes
where it should. -/
theorem opStep_holds {known : TaughtMap} {nowMs : Millis} {c : ChaosCore} {op : CoreOp}
    (hc : ArpHolds known c) (hop : op.keepsMacs) :
    ArpHolds known (opStep nowMs c op) ∧
      ∃ new, (opStep nowMs c op).emitted = c.emitted ++ new ∧ Directed known new := by
  cases op with
  | learn addr mac => exact hop.elim
  | conn h k => exact ⟨⟨hc.distinct, hc.valid⟩, [], (List.append_nil _).symm, by simp [Directed]⟩
  | number u n => exact ⟨⟨hc.distinct, hc.valid⟩, [], (List.append_nil _).symm, by simp [Directed]⟩
  | reply sha spa =>
      refine ⟨⟨hc.distinct, hc.valid⟩, _, rfl, fun f hf htype => ?_⟩
      obtain rfl := List.mem_singleton.mp hf
      exact absurd ((etherType_arpFrame _ _ _ _ _ _).symm.trans htype) (by decide)
  | send s =>
      obtain ⟨i, base, hslot, -, hsend⟩ := sendRaw_eq c s nowMs
      have haddr : (base.asked nowMs).addr = s.destAddr := (asked_addr base nowMs).trans hslot.addr_eq
      have hset := hc.setArp hslot haddr known (fun _ _ => rfl) fun hvalid => by
        rw [asked_valid] at hvalid
        rw [asked_mac]
        exact hc.base hslot hvalid
      rw [opStep, hsend]
      refine ⟨⟨hset.distinct, hset.valid⟩, _, rfl, fun f hf htype => ?_⟩
      rcases List.mem_append.mp hf with hf | hf
      · -- the request
        split at hf
        · obtain rfl := List.mem_singleton.mp hf
          exact absurd ((etherType_arpFrame _ _ _ _ _ _).symm.trans htype) (by decide)
        · cases hf
      · split at hf
        · next hvalid =>
          obtain rfl := List.mem_singleton.mp hf
          rw [destAddr_chaosFrame, macAt_chaosFrame]
          exact (hc.base hslot hvalid).2.2
        · cases hf

/-- The operations after the first. -/
theorem runOps_holds {known : TaughtMap} {nowMs : Millis} {ops : List CoreOp}
    (hops : ∀ op ∈ ops, op.keepsMacs) {c : ChaosCore} (hc : ArpHolds known c) :
    ArpHolds known (runOps nowMs c ops) ∧
      ∃ new, (runOps nowMs c ops).emitted = c.emitted ++ new ∧ Directed known new := by
  induction ops generalizing c with
  | nil => exact ⟨hc, [], (List.append_nil _).symm, by simp [Directed]⟩
  | cons op ops ih =>
      obtain ⟨hop, hops⟩ := List.forall_mem_cons.mp hops
      obtain ⟨hc', new, hnew, hdir⟩ := @opStep_holds known nowMs c op hc hop
      obtain ⟨hc'', new', hnew', hdir'⟩ := ih hops hc'
      refine ⟨hc'', new ++ new', ?_, hdir.append hdir'⟩
      rw [runOps_cons, hnew', hnew, List.append_assoc]

/-- Only an address that is not 0 and not the host's own is heeded. -/
theorem callTeaches_heeded {myAddr : UShort} {myMac : Mac} {call : CoreCall} {addr : UShort}
    {mac : Mac} (h : callTeaches myAddr myMac call = some (addr, mac)) :
    addr ≠ 0 ∧ addr ≠ myAddr := by
  have hheeded : ∀ t, heeded myAddr t = some (addr, mac) → addr ≠ 0 ∧ addr ≠ myAddr := by
    intro t ht
    unfold heeded at ht
    split at ht
    · cases ht
    · next hno =>
      obtain rfl := Option.some.inj ht
      exact not_or.mp hno
  cases call with
  | input frame =>
      change frameTeaches myAddr myMac frame = some (addr, mac) at h
      unfold frameTeaches at h
      split at h
      · cases h
      split at h
      · cases h
      split at h
      · cases h
      split at h
      · split at h
        · cases h
        split at h
        · cases h
        · exact hheeded _ h
      · split at h
        · cases h
        · split at h
          · exact hheeded _ h
          · cases h
  | _ => cases h

/-- Storing what a call teaches. -/
theorem teachOps_holds {known : TaughtMap} {nowMs : Millis} {c : ChaosCore} {call : CoreCall}
    (hc : ArpHolds known c) :
    let t := callTeaches c.myAddr c.myMac call
    ArpHolds (known.add t) (runOps nowMs c (teachOps t)) ∧
      (runOps nowMs c (teachOps t)).emitted = c.emitted := by
  intro t
  cases ht : t with
  | none => exact ⟨hc, rfl⟩
  | some taught =>
      obtain ⟨addr, mac⟩ := taught
      obtain ⟨hzero, hown⟩ := callTeaches_heeded ht
      obtain ⟨i, base, hslot, -, hstore⟩ := arpStore_eq c addr mac nowMs
      have hrun : runOps nowMs c (teachOps (some (addr, mac))) =
          c.setArp i (base.learned mac nowMs) := hstore
      rw [hrun]
      refine ⟨hc.setArp (e := base.learned mac nowMs) hslot hslot.addr_eq _ (fun a ha => ?_)
        fun _ => ⟨hzero, hown, ?_⟩, rfl⟩
      · exact Function.update_of_ne ha _ _
      · exact Function.update_self _ _ _

/-- **One call.** -/
theorem coreStep_holds {known : TaughtMap} {c : ChaosCore} (hc : ArpHolds known c)
    (e : CoreEvent) :
    ArpHolds (known.add (callTeaches c.myAddr c.myMac e.call)) (coreStep c e) ∧
      ∃ new, (coreStep c e).emitted = c.emitted ++ new ∧
        Directed (known.add (callTeaches c.myAddr c.myMac e.call)) new := by
  obtain ⟨rest, hrest, hops⟩ := coreOps_teaches c e
  obtain ⟨hfirst, hemitted⟩ := @teachOps_holds known e.nowMs c e.call hc
  have h := @runOps_holds _ e.nowMs rest hrest _ hfirst
  rw [hemitted] at h
  rw [coreStep_ops, hops, runOps_append]
  exact h

/-! ### Runs -/

/-- The hardware address taught last for each address by the frames of a run. -/
def lastTaught (myAddr : UShort) (myMac : Mac) (es : List CoreEvent) : TaughtMap :=
  es.foldl (fun known e => known.add (callTeaches myAddr myMac e.call)) fun _ => none

theorem runOps_config (nowMs : Millis) (ops : List CoreOp) (c : ChaosCore) :
    (runOps nowMs c ops).myAddr = c.myAddr ∧ (runOps nowMs c ops).myMac = c.myMac := by
  induction ops generalizing c with
  | nil => exact ⟨rfl, rfl⟩
  | cons op ops ih =>
      have hop := opStep_config nowMs c op
      have hrest := ih (opStep nowMs c op)
      exact ⟨hrest.1.trans hop.1, hrest.2.trans hop.2⟩

theorem coreRun_config (c : ChaosCore) (es : List CoreEvent) :
    (Exec.run coreStep c es).myAddr = c.myAddr ∧ (Exec.run coreStep c es).myMac = c.myMac := by
  induction es generalizing c with
  | nil => exact ⟨rfl, rfl⟩
  | cons e es ih =>
      have hstep := runOps_config e.nowMs (coreOps c e) c
      rw [← coreStep_ops] at hstep
      have hrest := ih (coreStep c e)
      exact ⟨hrest.1.trans hstep.1, hrest.2.trans hstep.2⟩

/-- **Every run.**  The table holds what the frames of the run taught last. -/
theorem coreRun_holds (myAddr : UShort) (myMac : Mac) (hostName : List Byte)
    (localWindow initialPktNum : UShort) (es : List CoreEvent) :
    ArpHolds (lastTaught myAddr myMac es)
      (Exec.run coreStep (chaosCoreInit myAddr myMac hostName localWindow initialPktNum) es) := by
  induction es using List.reverseRecOn with
  | nil =>
      refine ⟨fun i j hi => ?_, fun i hi => ?_⟩
      · cases hi
      · cases hi
  | append_singleton es e ih =>
      have hconfig := coreRun_config
        (chaosCoreInit myAddr myMac hostName localWindow initialPktNum) es
      have hstep := (coreStep_holds ih e).1
      rw [hconfig.1, hconfig.2] at hstep
      rw [Exec.run_append, lastTaught, List.foldl_append]
      exact hstep

/-- A lookup answers from the entry of its address. -/
theorem ArpHolds.lookup {known : TaughtMap} {c : ChaosCore} (hc : ArpHolds known c)
    {addr : UShort} {mac : Mac} (h : chaosArpLookup c addr = some mac) :
    known addr = some mac := by
  unfold chaosArpLookup at h
  cases hfind : arpFind c addr with
  | none =>
      rw [hfind] at h
      cases h
  | some i =>
      rw [hfind] at h
      simp only at h
      split at h
      · next hvalid =>
        obtain rfl := Option.some.inj h
        have hentry := (hc.valid i hvalid).2.2
        rwa [(arpFind_some hfind).2] at hentry
      · cases h

/-- **The ARP cache after every run.**  The entries in use have pairwise distinct
addresses.  None that holds a hardware address is for the address 0 or the host's
own.  A lookup yields the hardware address taught last for its address, and every
Chaos frame a call emits goes to the one taught last for its destination. -/
theorem arpCache_correct (myAddr : UShort) (myMac : Mac) (hostName : List Byte)
    (localWindow initialPktNum : UShort) (es : List CoreEvent) :
    let c := Exec.run coreStep
      (chaosCoreInit myAddr myMac hostName localWindow initialPktNum) es
    ArpDistinct c ∧
      (∀ i, (c.arp i).valid → (c.arp i).addr ≠ 0 ∧ (c.arp i).addr ≠ myAddr) ∧
      (∀ addr mac, chaosArpLookup c addr = some mac →
        lastTaught myAddr myMac es addr = some mac) ∧
      ∀ e, Directed (lastTaught myAddr myMac (es ++ [e]))
        ((coreStep c e).emitted.drop c.emitted.length) := by
  intro c
  have hholds := coreRun_holds myAddr myMac hostName localWindow initialPktNum es
  have hconfig := coreRun_config
    (chaosCoreInit myAddr myMac hostName localWindow initialPktNum) es
  have haddr : c.myAddr = myAddr := hconfig.1
  have hmac : c.myMac = myMac := hconfig.2
  refine ⟨hholds.distinct, fun i hi => ?_, fun addr mac => hholds.lookup, fun e => ?_⟩
  · have hentry := hholds.valid i hi
    exact ⟨hentry.1, haddr ▸ hentry.2.1⟩
  · obtain ⟨-, new, hnew, hdir⟩ := coreStep_holds hholds e
    rw [haddr, hmac] at hdir
    rw [hnew, List.drop_left, lastTaught, List.foldl_append]
    exact hdir

/-- An address that is only asked for may be 0 or the host's own: opening a
connection to either makes an entry for it. -/
theorem arpCache_asks_zero :
    let c := coreStep sampleCore ⟨.chaosOpen 0 (bytesOf "TELNET"), 1000⟩
    let d := coreStep sampleCore ⟨.chaosOpen 0o404 (bytesOf "TELNET"), 1000⟩
    (Reachable c ∧ (c.arp ⟨0, by decide⟩).active ∧ (c.arp ⟨0, by decide⟩).addr = 0) ∧
      (Reachable d ∧ (d.arp ⟨0, by decide⟩).active ∧ (d.arp ⟨0, by decide⟩).addr = d.myAddr) := by
  have hreach : ∀ e, Reachable (coreStep sampleCore e) := fun e =>
    ⟨0o404, Vector.replicate 6 2, bytesOf "GENERA", 13, 0x0100, [e], rfl⟩
  exact ⟨⟨hreach _, rfl, rfl⟩, ⟨hreach _, rfl, rfl⟩⟩

end Chaos
