import OsxVlm.Chaos.Core

/-!
# What one call can do

Every call of the core's interface acts on each connection through one of the
functions of `Chaos.Conn`, and every frame it emits is an ARP frame or one of
the packets those functions handed to `send_raw`.  `coreStep_acts` says so
once for all calls; the invariants of the later modules follow from it by
cases on `ConnAct` and never unfold the core again.
-/

namespace Chaos

open ChaosConnState ChaosCloseKind

/-! ### Emission -/

/-- The frames `fs` are what `send_raw` emits for the packets `ss` in this order:
it may drop a packet, and an ARP frame may stand anywhere. -/
inductive Renders (mac : Mac) (addr : UShort) : List RawSend → List (List Byte) → Prop
  | nil : Renders mac addr [] []
  | arp {ss : List RawSend} {f : List Byte} {fs : List (List Byte)}
      (type : etherType f = arpEthertype) (rest : Renders mac addr ss fs) :
      Renders mac addr ss (f :: fs)
  | dropped {ss : List RawSend} {fs : List (List Byte)} (s : RawSend)
      (rest : Renders mac addr ss fs) : Renders mac addr (s :: ss) fs
  | sent {ss : List RawSend} {fs : List (List Byte)} (s : RawSend) (dst : Mac)
      (rest : Renders mac addr ss fs) :
      Renders mac addr (s :: ss) (chaosFrame dst mac addr s :: fs)

section Renders

variable {mac : Mac} {addr : UShort} {ss ts : List RawSend} {fs gs : List (List Byte)}

theorem Renders.append (h : Renders mac addr ss fs) (h' : Renders mac addr ts gs) :
    Renders mac addr (ss ++ ts) (fs ++ gs) := by
  induction h with
  | nil => exact h'
  | arp type rest ih => exact .arp type ih
  | dropped s rest ih => exact .dropped s ih
  | sent s dst rest ih => exact .sent s dst ih

/-- A frame that is no ARP frame is that of one of the packets. -/
theorem Renders.mem (h : Renders mac addr ss fs) {f : List Byte} (hf : f ∈ fs)
    (htype : etherType f = chaosEthertype) : ∃ s ∈ ss, ∃ dst, f = chaosFrame dst mac addr s := by
  induction h with
  | nil => cases hf
  | arp type rest ih =>
      rcases List.mem_cons.mp hf with rfl | hf
      · exact absurd (type.symm.trans htype) (by decide)
      · exact ih hf
  | dropped s rest ih =>
      obtain ⟨t, ht, hframe⟩ := ih hf
      exact ⟨t, List.mem_cons_of_mem s ht, hframe⟩
  | sent s dst rest ih =>
      rcases List.mem_cons.mp hf with rfl | hf
      · exact ⟨s, List.mem_cons_self, dst, rfl⟩
      · obtain ⟨t, ht, hframe⟩ := ih hf
        exact ⟨t, List.mem_cons_of_mem s ht, hframe⟩

/-- Two frames one after the other are those of two packets in this order. -/
theorem Renders.pair (h : Renders mac addr ss fs) {f g : List Byte} (hfg : [f, g].Sublist fs)
    (hf : etherType f = chaosEthertype) (hg : etherType g = chaosEthertype) :
    ∃ s t, [s, t].Sublist ss ∧ (∃ dst, f = chaosFrame dst mac addr s) ∧
      ∃ dst, g = chaosFrame dst mac addr t := by
  induction h with
  | nil => cases hfg
  | arp type rest ih =>
      cases hfg with
      | cons _ hfg => exact ih hfg
      | cons_cons => exact absurd (type.symm.trans hf) (by decide)
  | dropped s rest ih =>
      obtain ⟨s', t, hst, hframes⟩ := ih hfg
      exact ⟨s', t, hst.cons s, hframes⟩
  | sent s dst rest ih =>
      cases hfg with
      | cons _ hfg =>
          obtain ⟨s', t, hst, hframes⟩ := ih hfg
          exact ⟨s', t, hst.cons s, hframes⟩
      | cons_cons _ hg' =>
          obtain ⟨t, ht, hframe⟩ := rest.mem (List.singleton_sublist.mp hg') hg
          exact ⟨s, t, (List.singleton_sublist.mpr ht).cons_cons s, ⟨dst, rfl⟩, hframe⟩

end Renders

/-- The uniquizer of `chaos_open` stays in 11 bits and is never zero. -/
def UniquizerOk (u : UShort) : Prop := 1 ≤ u.toNat ∧ u.toNat ≤ 0x7FF

theorem uniquizerOk_one : UniquizerOk 1 := ⟨by decide, by decide⟩

theorem uniquizerOk_next (u : UShort) : UniquizerOk (nextUniquizer u) := by
  have hmask : ((u + 1) &&& 0x7FF).toNat ≤ 0x7FF := by
    rw [BitVec.toNat_and]
    exact Nat.and_le_right
  unfold nextUniquizer UniquizerOk
  simp only
  split
  · decide
  · next hne =>
    have : ((u + 1) &&& 0x7FF).toNat ≠ 0 := fun h => hne (BitVec.eq_of_toNat_eq h)
    exact ⟨Nat.one_le_iff_ne_zero.mpr this, hmask⟩

/-- From `c` to `c'` the configuration stays and the frames of the packets `ss`
are emitted. -/
structure Emits (ss : List RawSend) (c c' : ChaosCore) : Prop where
  myAddr : c'.myAddr = c.myAddr
  myMac : c'.myMac = c.myMac
  localWindow : c'.localWindow = c.localWindow
  uniquizer : UniquizerOk c.uniquizer → UniquizerOk c'.uniquizer
  emitted : ∃ new, c'.emitted = c.emitted ++ new ∧ Renders c.myMac c.myAddr ss new

/-- A change of the core that neither reconfigures it nor emits. -/
theorem Emits.of_eq {c c' : ChaosCore} (haddr : c'.myAddr = c.myAddr)
    (hmac : c'.myMac = c.myMac) (hwindow : c'.localWindow = c.localWindow)
    (huniq : UniquizerOk c.uniquizer → UniquizerOk c'.uniquizer)
    (hemitted : c'.emitted = c.emitted) : Emits [] c c' :=
  ⟨haddr, hmac, hwindow, huniq, [], by rw [hemitted, List.append_nil], .nil⟩

theorem Emits.refl (c : ChaosCore) : Emits [] c c := .of_eq rfl rfl rfl id rfl

theorem Emits.trans {ss ts : List RawSend} {a b c : ChaosCore} (h1 : Emits ss a b)
    (h2 : Emits ts b c) : Emits (ss ++ ts) a c := by
  obtain ⟨new1, he1, hr1⟩ := h1.emitted
  obtain ⟨new2, he2, hr2⟩ := h2.emitted
  refine ⟨h2.myAddr.trans h1.myAddr, h2.myMac.trans h1.myMac,
    h2.localWindow.trans h1.localWindow, h2.uniquizer ∘ h1.uniquizer, new1 ++ new2, ?_, ?_⟩
  · rw [he2, he1, List.append_assoc]
  · rw [h1.myAddr, h1.myMac] at hr2
    exact hr1.append hr2

theorem Emits.dropped {ss : List RawSend} {c c' : ChaosCore} (h : Emits ss c c')
    (s : RawSend) : Emits (s :: ss) c c' := by
  obtain ⟨new, he, hr⟩ := h.emitted
  exact ⟨h.myAddr, h.myMac, h.localWindow, h.uniquizer, new, he, hr.dropped s⟩

/-! ### ARP and `send_raw` leave the connections alone -/

theorem emitFrame_arp {c : ChaosCore} {f : List Byte} (h : etherType f = arpEthertype) :
    Emits [] c (emitFrame c f) :=
  ⟨rfl, rfl, rfl, id, [f], rfl, .arp h .nil⟩

theorem setArp_emits (c : ChaosCore) (i : Fin chaosArpEntries) (e : ChaosArpEntry) :
    Emits [] c (c.setArp i e) := .of_eq rfl rfl rfl id rfl

theorem arpFindCreate_spec (c : ChaosCore) (addr : UShort) :
    (arpFindCreate c addr).2.conns = c.conns ∧ Emits [] c (arpFindCreate c addr).2 := by
  unfold arpFindCreate
  split
  · exact ⟨rfl, Emits.refl c⟩
  · exact ⟨rfl, setArp_emits _ _ _⟩

theorem arpSendRequest_spec (c : ChaosCore) (i : Fin chaosArpEntries) (nowMs : Millis) :
    (arpSendRequest c i nowMs).conns = c.conns ∧ Emits [] c (arpSendRequest c i nowMs) :=
  ⟨rfl, (setArp_emits _ _ _).trans (emitFrame_arp (etherType_arpFrame _ _ _ _ _ _))⟩

theorem arpResolve_spec (c : ChaosCore) (addr : UShort) (nowMs : Millis) :
    (arpResolve c addr nowMs).2.conns = c.conns ∧
      Emits [] c (arpResolve c addr nowMs).2 := by
  have hfind := arpFindCreate_spec c addr
  have hreq := arpSendRequest_spec (arpFindCreate c addr).2 (arpFindCreate c addr).1 nowMs
  have hboth : (arpSendRequest (arpFindCreate c addr).2 (arpFindCreate c addr).1 nowMs).conns
        = c.conns ∧
      Emits [] c (arpSendRequest (arpFindCreate c addr).2 (arpFindCreate c addr).1 nowMs) :=
    ⟨hreq.1.trans hfind.1, hfind.2.trans hreq.2⟩
  unfold arpResolve
  simp only
  split <;> dsimp only <;> split
  · exact hboth
  · exact hfind
  · exact hboth
  · exact hfind

theorem sendRaw_spec (c : ChaosCore) (s : RawSend) (nowMs : Millis) :
    (sendRaw c s nowMs).conns = c.conns ∧ Emits [s] c (sendRaw c s nowMs) := by
  have h := arpResolve_spec c s.destAddr nowMs
  unfold sendRaw
  rcases hr : arpResolve c s.destAddr nowMs with ⟨_ | dst, c'⟩
  · rw [hr] at h
    exact ⟨h.1, h.2.dropped s⟩
  · rw [hr] at h
    exact ⟨h.1, h.2.trans ⟨rfl, rfl, rfl, id, _, rfl, .sent s dst .nil⟩⟩

theorem sendAll_spec (c : ChaosCore) (sends : List RawSend) (nowMs : Millis) :
    (sendAll c sends nowMs).conns = c.conns ∧ Emits sends c (sendAll c sends nowMs) := by
  induction sends generalizing c with
  | nil => exact ⟨rfl, Emits.refl c⟩
  | cons s sends ih =>
      have hs := sendRaw_spec c s nowMs
      have hrest := ih (sendRaw c s nowMs)
      exact ⟨hrest.1.trans hs.1, hs.2.trans hrest.2⟩

theorem perform_spec (c : ChaosCore) (h : Fin chaosMaxConns) (r : Act) (nowMs : Millis) :
    (c.perform h r nowMs).conns = Function.update c.conns h r.1 ∧
      Emits r.2 c (c.perform h r nowMs) := by
  have hs := sendAll_spec (c.setConn h r.1) r.2 nowMs
  have hset : Emits [] c (c.setConn h r.1) := .of_eq rfl rfl rfl id rfl
  exact ⟨hs.1, hset.trans hs.2⟩

/-- Acting on every connection in turn acts on each as it was at the start. -/
theorem performEach_spec (c : ChaosCore) (f : ChaosConn → Act) (nowMs : Millis) :
    (∀ h, (c.performEach f nowMs).conns h = (f (c.conns h)).1) ∧
      Emits ((List.finRange chaosMaxConns).flatMap fun h => (f (c.conns h)).2) c
        (c.performEach f nowMs) := by
  have key : ∀ (hs : List (Fin chaosMaxConns)) (d : ChaosCore), hs.Nodup →
      (∀ h ∈ hs, d.conns h = c.conns h) →
      let d' := hs.foldl (fun c h => c.perform h (f (c.conns h)) nowMs) d
      (∀ h, d'.conns h = if h ∈ hs then (f (c.conns h)).1 else d.conns h) ∧
        Emits (hs.flatMap fun h => (f (c.conns h)).2) d d' := by
    intro hs
    induction hs with
    | nil => intro d _ _; exact ⟨by simp, Emits.refl d⟩
    | cons h hs ih =>
        intro d hnodup hsame
        obtain ⟨hnot, hnodup⟩ := List.nodup_cons.mp hnodup
        have hp := perform_spec d h (f (d.conns h)) nowMs
        have hhead : d.conns h = c.conns h := hsame h List.mem_cons_self
        have hrest := ih (d.perform h (f (d.conns h)) nowMs) hnodup (by
          intro g hg
          have hne : g ≠ h := fun heq => hnot (heq ▸ hg)
          rw [hp.1, Function.update_of_ne hne]
          exact hsame g (List.mem_cons_of_mem h hg))
        refine ⟨?_, ?_⟩
        · intro g
          rw [List.foldl_cons, hrest.1 g, hp.1]
          by_cases hg : g = h
          · subst hg
            simp [hnot, hhead]
          · simp [hg]
        · rw [List.flatMap_cons, ← hhead]
          exact hp.2.trans hrest.2
  have h := key (List.finRange chaosMaxConns) c (List.nodup_finRange _) (fun _ _ => rfl)
  exact ⟨fun g => by rw [ChaosCore.performEach, h.1 g, if_pos (List.mem_finRange g)], h.2⟩

/-! ### What a call does to one connection -/

/-- `ConnAct e h k r`: the call `e` may act on connection `k` in slot `h` as `r`. -/
inductive ConnAct (e : CoreEvent) (h : Fin chaosMaxConns) (k : ChaosConn) : Act → Prop
  | idle : ConnAct e h k (k, [])
  | opened {addr : UShort} {contact : List Byte} (uniquizer window firstNum : UShort)
      (call : e.call = .chaosOpen addr contact) (free : k.state = connFree)
      (uniq : UniquizerOk uniquizer)
      (length : contact.length ≤ chaosMaxData) :
      ConnAct e h k (connSendControlled
        (connNew ((uniquizer <<< 5) ||| BitVec.ofNat 16 h.val) addr window firstNum e.nowMs)
        chopRfc contact e.nowMs)
  | sent {data : List Byte} (call : e.call = .chaosSend h.val data)
      (alive : k.state ≠ connFree) : ConnAct e h k (connSend k data e.nowMs).1
  | finished (call : e.call = .chaosFinish h.val) (alive : k.state ≠ connFree) :
      ConnAct e h k (connFinish k e.nowMs)
  | received {max : Nat} (call : e.call = .chaosRecv h.val max)
      (alive : k.state ≠ connFree) : ConnAct e h k (connRecv k max e.nowMs).1
  | released {reason : List Byte} (call : e.call = .chaosRelease h.val reason)
      (alive : k.state ≠ connFree) : ConnAct e h k (connRelease k (cString reason))
  | learned {frame : List Byte} (call : e.call = .input frame)
      (live : k.state = connRfcSent ∨ k.state = connOpen) :
      ConnAct e h k (connRetransmit k e.nowMs 0)
  | input {frame : List Byte} {pkt : Packet} (call : e.call = .input frame)
      (read : readPacket frame = some pkt) (slot : connSlot pkt.destIndex = h)
      (known : ¬ noSuchConn k pkt) : ConnAct e h k (connInput k pkt e.nowMs)
  | learnedInput {frame : List Byte} {pkt : Packet} (call : e.call = .input frame)
      (live : k.state = connRfcSent ∨ k.state = connOpen)
      (read : readPacket frame = some pkt) (slot : connSlot pkt.destIndex = h)
      (known : ¬ noSuchConn (connRetransmit k e.nowMs 0).1 pkt) :
      ConnAct e h k
        ((connRetransmit k e.nowMs 0).andThen fun k => connInput k pkt e.nowMs)
  | ticked (call : e.call = .tick) : ConnAct e h k (connTick k e.nowMs)

/-- A packet sent for no connection: an answer to an RFC or to a stray packet. -/
def Stray (s : RawSend) : Prop :=
  s.opcode = chopAns ∨ s.opcode = chopLos ∨ (s.opcode = chopCls ∧ s.srcIndex = 0)

/-- A packet handed to `send_raw`, and the slot it was sent for, if any. -/
abbrev Sending := Option (Fin chaosMaxConns) × RawSend

/-- The packets of `ss` sent for slot `h`. -/
def ownSends (h : Fin chaosMaxConns) (ss : List Sending) : List RawSend :=
  (ss.filter fun s => s.1 = some h).map Prod.snd

/-- The packets `sends` of slot `h`. -/
def tagged (h : Fin chaosMaxConns) (sends : List RawSend) : List Sending :=
  sends.map fun s => (some h, s)

theorem ownSends_append (h : Fin chaosMaxConns) (ss ts : List Sending) :
    ownSends h (ss ++ ts) = ownSends h ss ++ ownSends h ts := by
  simp [ownSends]

theorem ownSends_tagged (g h : Fin chaosMaxConns) (sends : List RawSend) :
    ownSends g (tagged h sends) = if g = h then sends else [] := by
  by_cases hg : g = h
  · subst hg
    simp [ownSends, tagged, List.filter_map, Function.comp_def]
  · have hne : h ≠ g := fun heq => hg heq.symm
    simp [ownSends, tagged, List.filter_map, Function.comp_def, hg, hne]

theorem tagged_snd (h : Fin chaosMaxConns) (sends : List RawSend) :
    (tagged h sends).map Prod.snd = sends := by
  simp [tagged, Function.comp_def]

theorem ownSends_strays (h : Fin chaosMaxConns) (sends : List RawSend) :
    ownSends h (sends.map fun s => (none, s)) = [] := by
  simp [ownSends]

/-- The acts `acts` account for the whole change from `c` to `c'`: they leave
its connections, and it emits their packets, those of one slot in order, and
stray ones. -/
structure ActsFrom (acts : Fin chaosMaxConns → Act) (c c' : ChaosCore) : Prop where
  conns : ∀ h, c'.conns h = (acts h).1
  sends : ∃ ss : List Sending, Emits (ss.map Prod.snd) c c' ∧
    (∀ h, ownSends h ss = (acts h).2) ∧ ∀ s, (none, s) ∈ ss → Stray s

/-- No connection changes, and only stray packets are sent. -/
theorem ActsFrom.of_stray {c c' : ChaosCore} (hconns : c'.conns = c.conns)
    {ss : List RawSend} (hemits : Emits ss c c') (hstray : ∀ s ∈ ss, Stray s) :
    ActsFrom (fun h => (c.conns h, [])) c c' := by
  refine ⟨fun h => by rw [hconns], ss.map fun s => (none, s), ?_, ?_, ?_⟩
  · simpa [Function.comp_def] using hemits
  · intro h
    exact ownSends_strays h ss
  · intro s hs
    obtain ⟨t, ht, heq⟩ := List.mem_map.mp hs
    obtain rfl : t = s := congrArg Prod.snd heq
    exact hstray t ht

theorem ActsFrom.same (c : ChaosCore) : ActsFrom (fun h => (c.conns h, [])) c c :=
  .of_stray rfl (Emits.refl c) (by simp)

/-- A further change that sends only stray packets. -/
theorem ActsFrom.then_stray {acts : Fin chaosMaxConns → Act} {c d d' : ChaosCore}
    (hfrom : ActsFrom acts c d) (hconns : d'.conns = d.conns) {ss : List RawSend}
    (hemits : Emits ss d d') (hstray : ∀ s ∈ ss, Stray s) : ActsFrom acts c d' := by
  obtain ⟨ts, hts, hown, hstray'⟩ := hfrom.sends
  refine ⟨fun h => by rw [hconns, hfrom.conns], ts ++ ss.map fun s => (none, s), ?_, ?_, ?_⟩
  · simpa [Function.comp_def] using hts.trans hemits
  · intro h
    rw [ownSends_append, ownSends_strays, List.append_nil, hown]
  · intro s hs
    rcases List.mem_append.mp hs with hs | hs
    · exact hstray' s hs
    · obtain ⟨t, ht, heq⟩ := List.mem_map.mp hs
      obtain rfl : t = s := congrArg Prod.snd heq
      exact hstray t ht

/-- A further change to a single connection. -/
theorem ActsFrom.then_perform {acts : Fin chaosMaxConns → Act} {c d : ChaosCore}
    (hfrom : ActsFrom acts c d) (h : Fin chaosMaxConns) (f : ChaosConn → Act)
    (nowMs : Millis) :
    ActsFrom (Function.update acts h ((acts h).andThen f)) c
      (d.perform h (f (d.conns h)) nowMs) := by
  have hp := perform_spec d h (f (d.conns h)) nowMs
  obtain ⟨ts, hts, hown, hstray⟩ := hfrom.sends
  refine ⟨?_, ts ++ tagged h (f (d.conns h)).2, ?_, ?_, ?_⟩
  · intro g
    rw [hp.1]
    by_cases hg : g = h
    · subst hg
      simp [hfrom.conns]
    · simp [hg, hfrom.conns]
  · rw [List.map_append, tagged_snd]
    exact hts.trans hp.2
  · intro g
    rw [ownSends_append, ownSends_tagged, hown]
    by_cases hg : g = h
    · subst hg
      simp [hfrom.conns]
    · simp [hg]
  · intro s hs
    rcases List.mem_append.mp hs with hs | hs
    · exact hstray s hs
    · simp [tagged] at hs

/-- Only connection `h` is acted on. -/
theorem ActsFrom.of_perform {c d : ChaosCore} (hconns : d.conns = c.conns)
    (hemits : Emits [] c d) (h : Fin chaosMaxConns) (f : ChaosConn → Act) (nowMs : Millis) :
    ActsFrom (Function.update (fun g => (c.conns g, [])) h (f (c.conns h))) c
      (d.perform h (f (c.conns h)) nowMs) := by
  have hfrom := (ActsFrom.of_stray hconns hemits (by simp)).then_perform h f nowMs
  simpa [Act.andThen, hconns] using hfrom

/-- Acting on every connection in turn. -/
theorem ActsFrom.of_performEach {c d : ChaosCore} (hconns : d.conns = c.conns)
    (hemits : Emits [] c d) (f : ChaosConn → Act) (nowMs : Millis) :
    ActsFrom (fun h => f (c.conns h)) c (d.performEach f nowMs) := by
  have hp := performEach_spec d f nowMs
  have hown : ∀ (hs : List (Fin chaosMaxConns)), hs.Nodup → ∀ g,
      ownSends g (hs.flatMap fun h => tagged h (f (c.conns h)).2) =
        if g ∈ hs then (f (c.conns g)).2 else [] := by
    intro hs
    induction hs with
    | nil => simp [ownSends]
    | cons h hs ih =>
        intro hnodup g
        obtain ⟨hnot, hnodup⟩ := List.nodup_cons.mp hnodup
        rw [List.flatMap_cons, ownSends_append, ownSends_tagged, ih hnodup]
        by_cases hg : g = h
        · subst hg
          simp [hnot]
        · simp [hg]
  refine ⟨fun h => by rw [hp.1 h, hconns], (List.finRange chaosMaxConns).flatMap
    fun h => tagged h (f (c.conns h)).2, ?_, ?_, ?_⟩
  · simp only [List.map_flatMap, tagged_snd]
    rw [← hconns]
    exact hemits.trans hp.2
  · intro g
    rw [hown _ (List.nodup_finRange _), if_pos (List.mem_finRange g)]
  · intro s hs
    simp [tagged] at hs

/-- The act on slot `h` is `r`, all others are idle. -/
theorem connAct_update {e : CoreEvent} {c : ChaosCore} {h : Fin chaosMaxConns} {r : Act}
    (hr : ConnAct e h (c.conns h) r) (g : Fin chaosMaxConns) :
    ConnAct e g (c.conns g) (Function.update (fun g => (c.conns g, [])) h r g) := by
  by_cases hg : g = h
  · subst hg
    simpa using hr
  · simpa [hg] using ConnAct.idle

theorem connForHandle_some {c : ChaosCore} {h : Int} {i : Fin chaosMaxConns}
    (hi : connForHandle c h = some i) : h = i.val ∧ (c.conns i).state ≠ connFree := by
  unfold connForHandle at hi
  split at hi
  · next hr =>
    split at hi
    · cases hi
    · next hs =>
      obtain rfl := Option.some.inj hi
      exact ⟨(Int.toNat_of_nonneg hr.1).symm, hs⟩
  · cases hi

/-- A call on a handle acts on the connection it names, if any. -/
theorem acts_forHandle {e : CoreEvent} {c : ChaosCore} {h : Int} {f : ChaosConn → Act}
    (hact : ∀ i : Fin chaosMaxConns, h = i.val → (c.conns i).state ≠ connFree →
      ConnAct e i (c.conns i) (f (c.conns i))) :
    ∃ acts, (∀ g, ConnAct e g (c.conns g) (acts g)) ∧
      ActsFrom acts c (match connForHandle c h with
        | none => c
        | some i => c.perform i (f (c.conns i)) e.nowMs) := by
  cases hi : connForHandle c h with
  | none => exact ⟨_, fun _ => .idle, .same c⟩
  | some i =>
      obtain ⟨hh, halive⟩ := connForHandle_some hi
      exact ⟨_, connAct_update (hact i hh halive), .of_perform rfl (Emits.refl c) i f e.nowMs⟩

theorem chaosOpen_acts {e : CoreEvent} {c : ChaosCore} {addr : UShort}
    {contact : List Byte} (hcall : e.call = .chaosOpen addr contact)
    (huniq : UniquizerOk c.uniquizer) :
    ∃ acts, (∀ g, ConnAct e g (c.conns g) (acts g)) ∧
      ActsFrom acts c (chaosOpen c addr contact e.nowMs).2 := by
  unfold chaosOpen
  split
  · exact ⟨_, fun _ => .idle, .same c⟩
  · next hlen =>
    cases hfree : (List.finRange chaosMaxConns).find? fun h =>
        (c.conns h).state = connFree with
    | none => exact ⟨_, fun _ => .idle, .same c⟩
    | some h =>
        have hstate : (c.conns h).state = connFree := by simpa using List.find?_some hfree
        let r := connSendControlled (connNew ((c.uniquizer <<< 5) ||| BitVec.ofNat 16 h.val)
          addr c.localWindow c.initialPktNum e.nowMs) chopRfc contact e.nowMs
        have hact : ConnAct e h (c.conns h) r :=
          .opened c.uniquizer c.localWindow c.initialPktNum hcall hstate huniq (by omega)
        refine ⟨_, connAct_update hact, ?_⟩
        refine ActsFrom.of_perform (c := c) (d := { c with
          uniquizer := nextUniquizer c.uniquizer
          initialPktNum := c.initialPktNum + 0x0100 }) rfl ?_ h (fun _ => r) e.nowMs
        exact .of_eq rfl rfl rfl (fun _ => uniquizerOk_next _) rfl

/-- Learning an address retransmits on some connections and does nothing else. -/
theorem arpLearn_acts (c : ChaosCore) (addr : UShort) (mac : Mac) (nowMs : Millis) :
    ∃ acts : Fin chaosMaxConns → Act,
      (∀ h, acts h = (c.conns h, []) ∨
        ((c.conns h).state = connRfcSent ∨ (c.conns h).state = connOpen) ∧
          acts h = connRetransmit (c.conns h) nowMs 0) ∧
      ActsFrom acts c (arpLearn c addr mac nowMs) := by
  unfold arpLearn
  split
  · exact ⟨_, fun _ => Or.inl rfl, .same c⟩
  · have hfind := arpFindCreate_spec c addr
    simp only
    generalize hd : ChaosCore.setArp _ _ _ = d
    have hset : d.conns = c.conns ∧ Emits [] c d := by
      rw [← hd]
      exact ⟨hfind.1, hfind.2.trans (setArp_emits _ _ _)⟩
    split
    · exact ⟨_, fun _ => Or.inl rfl, .of_stray hset.1 hset.2 (by simp)⟩
    · refine ⟨_, ?_, .of_performEach hset.1 hset.2 (learnConn addr nowMs) nowMs⟩
      intro h
      unfold learnConn
      split
      · next hlive => exact Or.inr ⟨hlive.1, rfl⟩
      · exact Or.inl rfl

theorem arpLearn_connActs {e : CoreEvent} {frame : List Byte} (hcall : e.call = .input frame)
    (c : ChaosCore) (addr : UShort) (mac : Mac) :
    ∃ acts, (∀ g, ConnAct e g (c.conns g) (acts g)) ∧
      ActsFrom acts c (arpLearn c addr mac e.nowMs) := by
  obtain ⟨acts, hacts, hfrom⟩ := arpLearn_acts c addr mac e.nowMs
  refine ⟨acts, fun h => ?_, hfrom⟩
  rcases hacts h with hidle | ⟨hlive, hret⟩
  · rw [hidle]
    exact .idle
  · rw [hret]
    exact .learned hcall hlive

/-- `handle_chaos` after learning: a stray answer, or one connection takes the packet. -/
theorem dispatchPacket_cases (c : ChaosCore) (pkt : Packet) (nowMs : Millis) :
    ((dispatchPacket c pkt nowMs).conns = c.conns ∧
        ∃ ss, Emits ss c (dispatchPacket c pkt nowMs) ∧ ∀ s ∈ ss, Stray s) ∨
      (¬ noSuchConn (c.conns (connSlot pkt.destIndex)) pkt ∧
        dispatchPacket c pkt nowMs = c.perform (connSlot pkt.destIndex)
          (connInput (c.conns (connSlot pkt.destIndex)) pkt nowMs) nowMs) := by
  have hnone : c.conns = c.conns ∧ ∃ ss, Emits ss c c ∧ ∀ s ∈ ss, Stray s :=
    ⟨rfl, [], Emits.refl c, by simp⟩
  have hstray : ∀ s, Stray s → (sendRaw c s nowMs).conns = c.conns ∧
      ∃ ss, Emits ss c (sendRaw c s nowMs) ∧ ∀ s ∈ ss, Stray s := by
    intro s hs
    have h := sendRaw_spec c s nowMs
    exact ⟨h.1, [s], h.2, by simpa using hs⟩
  unfold dispatchPacket
  split
  · exact Or.inl hnone
  split
  · left
    unfold handleRfc
    simp only
    split
    · exact hstray _ (Or.inl rfl)
    · exact hstray _ (Or.inr (Or.inr ⟨rfl, rfl⟩))
  split
  · exact Or.inl hnone
  simp only
  split
  · split
    · exact Or.inl hnone
    · exact Or.inl (hstray _ (Or.inr (Or.inl rfl)))
  · next hknown => exact Or.inr ⟨hknown, rfl⟩

theorem handleChaos_acts {e : CoreEvent} {frame : List Byte} (hcall : e.call = .input frame)
    (c : ChaosCore) :
    ∃ acts, (∀ g, ConnAct e g (c.conns g) (acts g)) ∧
      ActsFrom acts c (handleChaos c frame e.nowMs) := by
  unfold handleChaos
  cases hread : readPacket frame with
  | none => exact ⟨_, fun _ => .idle, .same c⟩
  | some pkt =>
      simp only
      -- the connections after learning: idle or retransmitted
      obtain ⟨acts, hacts, hfrom⟩ : ∃ acts : Fin chaosMaxConns → Act,
          (∀ h, acts h = (c.conns h, []) ∨
            ((c.conns h).state = connRfcSent ∨ (c.conns h).state = connOpen) ∧
              acts h = connRetransmit (c.conns h) e.nowMs 0) ∧
          ActsFrom acts c (learnSender c frame pkt e.nowMs) := by
        unfold learnSender
        split
        · exact arpLearn_acts c _ _ _
        · exact ⟨_, fun _ => Or.inl rfl, .same c⟩
      have hlearn : ∀ g, ConnAct e g (c.conns g) (acts g) := by
        intro g
        rcases hacts g with hidle | ⟨hlive, hret⟩
        · rw [hidle]
          exact .idle
        · rw [hret]
          exact .learned hcall hlive
      rcases dispatchPacket_cases (learnSender c frame pkt e.nowMs) pkt e.nowMs with
        ⟨hconns, ss, hemits, hstray⟩ | ⟨hknown, hdisp⟩
      · exact ⟨acts, hlearn, hfrom.then_stray hconns hemits hstray⟩
      · rw [hdisp]
        refine ⟨_, ?_, hfrom.then_perform (connSlot pkt.destIndex)
          (fun k => connInput k pkt e.nowMs) e.nowMs⟩
        intro g
        by_cases hg : g = connSlot pkt.destIndex
        · subst hg
          rw [hfrom.conns] at hknown
          rcases hacts (connSlot pkt.destIndex) with hidle | ⟨hlive, hret⟩
          · rw [hidle] at hknown
            simpa [hidle, Act.andThen] using ConnAct.input hcall hread rfl hknown
          · rw [hret] at hknown
            simpa [hret] using ConnAct.learnedInput hcall hlive hread rfl hknown
        · simpa [hg] using hlearn g

theorem chaosCoreInput_acts {e : CoreEvent} {frame : List Byte}
    (hcall : e.call = .input frame) (c : ChaosCore) :
    ∃ acts, (∀ g, ConnAct e g (c.conns g) (acts g)) ∧
      ActsFrom acts c (chaosCoreInput c frame e.nowMs) := by
  have hsame : ∃ acts, (∀ g, ConnAct e g (c.conns g) (acts g)) ∧ ActsFrom acts c c :=
    ⟨_, fun _ => .idle, .same c⟩
  unfold chaosCoreInput
  split
  · exact hsame
  split
  · exact hsame
  split
  · exact hsame
  split
  · unfold handleArp
    split
    · exact hsame
    split
    · exact hsame
    obtain ⟨acts, hacts, hfrom⟩ := arpLearn_connActs hcall c (get16At frame 28) (macAt frame 22)
    simp only
    split
    · exact ⟨acts, hacts, hfrom⟩
    · exact ⟨acts, hacts, hfrom.then_stray rfl
        (emitFrame_arp (etherType_arpFrame _ _ _ _ _ _)) (by simp)⟩
  · exact handleChaos_acts hcall c

/-- **What a call can do.**  Each connection is acted on by one of the
functions of `ConnAct`, and every emitted frame is an ARP frame, a packet of
those acts, or a stray answer. -/
theorem coreStep_acts {c : ChaosCore} (huniq : UniquizerOk c.uniquizer) (e : CoreEvent) :
    ∃ acts, (∀ h, ConnAct e h (c.conns h) (acts h)) ∧ ActsFrom acts c (coreStep c e) := by
  unfold coreStep
  cases hcall : e.call with
  | chaosOpen addr contact => exact chaosOpen_acts hcall huniq
  | chaosSend h data =>
      have hacts := acts_forHandle (e := e) (c := c) (h := h)
        (f := fun k => (connSend k data e.nowMs).1)
        (fun i hi halive => .sent (hi ▸ hcall) halive)
      unfold chaosSend
      cases hi : connForHandle c h <;> simpa [hi] using hacts
  | chaosFinish h =>
      have hacts := acts_forHandle (e := e) (c := c) (h := h)
        (f := fun k => connFinish k e.nowMs)
        (fun i hi halive => .finished (hi ▸ hcall) halive)
      unfold chaosFinish
      cases hi : connForHandle c h <;> simpa [hi] using hacts
  | chaosRecv h max =>
      have hacts := acts_forHandle (e := e) (c := c) (h := h)
        (f := fun k => (connRecv k max e.nowMs).1)
        (fun i hi halive => .received (hi ▸ hcall) halive)
      unfold chaosRecv
      cases hi : connForHandle c h <;> simpa [hi] using hacts
  | chaosRelease h reason =>
      have hacts := acts_forHandle (e := e) (c := c) (h := h)
        (f := fun k => connRelease k (cString reason))
        (fun i hi halive => .released (hi ▸ hcall) halive)
      unfold chaosRelease
      cases hi : connForHandle c h <;> simpa [hi] using hacts
  | input frame => exact chaosCoreInput_acts hcall c
  | tick =>
      exact ⟨fun h => connTick (c.conns h) e.nowMs, fun _ => .ticked hcall,
        .of_performEach rfl (Emits.refl c) (fun k => connTick k e.nowMs) e.nowMs⟩

/-- The configuration stays. -/
theorem ActsFrom.config {acts : Fin chaosMaxConns → Act} {c c' : ChaosCore}
    (h : ActsFrom acts c c') : c'.myAddr = c.myAddr ∧ c'.myMac = c.myMac ∧
      c'.localWindow = c.localWindow ∧ (UniquizerOk c.uniquizer → UniquizerOk c'.uniquizer) := by
  obtain ⟨ss, hemits, -, -⟩ := h.sends
  exact ⟨hemits.myAddr, hemits.myMac, hemits.localWindow, hemits.uniquizer⟩

end Chaos
