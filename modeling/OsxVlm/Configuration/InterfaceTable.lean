import Mathlib
import OsxVlm.Library.LinkedChain
import OsxVlm.Configuration.NetworkOptions

/-!
# What the specifications make of the table

Each device has a chain, and its chain depends on its own specifications only: this
is `chainOf`.  `place_spec` says so of the memory, one specification at a time, and
when one ends in a fault: the loop's pointer is kept from one device to the next, so
a MAC may free an entry of the table.
-/

namespace Configuration

open CText LinkedChain

/-- What stands between the device and the options. -/
inductive Kind where
  | internet (text : List Char)
  | chaos (text : List Char)
  | mac (text : List Char)

/-- A specification of a network interface. -/
structure Spec where
  device : List Char
  kind : Kind
  options : Option (List Char)

namespace Kind

def text : Kind → List Char
  | internet t => internetKeyword ++ t
  | chaos t => chaosKeyword ++ t
  | mac t => macKeyword ++ t

def value : Kind → Value
  | internet t => .address ethIp (ntohl (inetAddr t))
  | chaos t => .address ethChaos (ntohl (strtoul 8 t).1)
  | mac t => .mac ((scanBytes 6 t).getD [])

/-- The address, the octal number or the six bytes can be read. -/
def Reads : Kind → Prop
  | internet t => ntohl (inetAddr t) ≠ ntohl inaddrNone
  | chaos t => (strtoul 8 t).2 = []
  | mac t => (scanBytes 6 t).isSome

instance (k : Kind) : Decidable k.Reads :=
  match k with
  | .internet t => inferInstanceAs (Decidable (ntohl (inetAddr t) ≠ ntohl inaddrNone))
  | .chaos t => inferInstanceAs (Decidable ((strtoul 8 t).2 = []))
  | .mac t => inferInstanceAs (Decidable ((scanBytes 6 t).isSome = true))

end Kind

/-- The host among the options reads as an interface of this protocol has it. -/
def HostReads (protocol : Nat) (options : List Char) : Prop :=
  ∃ host, hostAddress protocol options = .ok host

def hostOf (protocol : Nat) (options : List Char) : Nat :=
  match hostAddress protocol options with
  | .ok host => host
  | .error _ => 0

namespace Spec

def optionText (q : Spec) : List Char := q.options.getD []

def isMac (q : Spec) : Bool :=
  match q.kind with
  | .mac _ => true
  | _ => false

/-- The protocol of an address; a MAC has none. -/
def protocol (q : Spec) : Nat :=
  match q.kind with
  | .internet _ => ethIp
  | .chaos _ => ethChaos
  | .mac _ => 0

def text (q : Spec) : List Char :=
  q.device ++ ':' :: (q.kind.text ++ (q.options.elim [] fun o => ';' :: o))

/-- No separator is where it would be taken for one. -/
structure Clean (q : Spec) : Prop where
  device_clean : ',' ∉ q.device ∧ ':' ∉ q.device ∧ ';' ∉ q.device
  kind_clean : ',' ∉ q.kind.text ∧ ';' ∉ q.kind.text
  options_clean : ',' ∉ q.optionText

/-- Every part can be read, and the device and the options fit their arrays. -/
structure WellFormed (q : Spec) : Prop extends Clean q where
  device_fits : q.device.length ≤ posixPathMax
  kind_reads : q.kind.Reads
  options_fit : q.optionText.length ≤ posixPathMax
  host_reads : HostReads q.protocol q.optionText

end Spec

/-- An interface after the value and the options of a specification. -/
def settle (r : NetworkInterface) (q : Spec) : NetworkInterface :=
  let valued :=
    match q.kind.value with
    | .mac bytes => { r with haveMac := true, myMac := bytes }
    | .address protocol addr => { r with myProtocol := protocol, myAddress := addr }
  { valued with
    device := q.device
    myHostAddress := hostOf valued.myProtocol q.optionText
    myOptions := q.optionText
    anotherAddress := none
    present := true }

/-- A specification for a device that has this chain. -/
def chainStep (chain : List NetworkInterface) (q : Spec) : List NetworkInterface :=
  match chain.head? with
  | none => [settle .zero q]
  | some head =>
      if head.haveMac then [settle head q]
      else if q.isMac then chain.dropLast ++ (chain.getLast?.map (settle · q)).toList
      else chain ++ [settle .zero q]

def chainOf (specs : List Spec) : List NetworkInterface := specs.foldl chainStep []

/-- The specifications of a device. -/
def own (device : List Char) (specs : List Spec) : List Spec :=
  specs.filter (·.device = device)

/-- The devices in order of their first appearance. -/
def devices (specs : List Spec) : List (List Char) :=
  specs.foldl (fun ds q => if q.device ∈ ds then ds else ds ++ [q.device]) []

/-- The device of `q` has a chain without a MAC at its entry, and the loop walks it. -/
def Walks (before : List Spec) (q : Spec) : Prop :=
  ∃ head ∈ (chainOf (own q.device before)).head?, head.haveMac = false

/-- The loop has walked a chain, and keeps the pointer. -/
def Walked (specs : List Spec) : Prop :=
  ∃ before q after, specs = before ++ q :: after ∧ Walks before q

/-- The interface that a MAC goes to. -/
def target (before : List Spec) (q : Spec) : NetworkInterface :=
  ((chainOf (own q.device before)).getLast?).getD .zero

/-- A MAC that goes to its own device, with a host that reads there. -/
def Safe (before : List Spec) (q : Spec) : Prop :=
  q.isMac → HostReads (target before q).myProtocol q.optionText ∧
    (Walks before q ∨ ¬ Walked before)

/-! ### The lists of specifications -/

theorem devices_concat (specs : List Spec) (q : Spec) :
    devices (specs ++ [q]) =
      if q.device ∈ devices specs then devices specs else devices specs ++ [q.device] := by
  rw [devices, List.foldl_append]
  rfl

theorem mem_devices {specs : List Spec} {d : List Char} :
    d ∈ devices specs ↔ ∃ q ∈ specs, q.device = d := by
  induction specs using List.reverseRecOn with
  | nil => simp [devices]
  | append_singleton specs q ih =>
      rw [devices_concat]
      by_cases hq : q.device ∈ devices specs
      · rw [if_pos hq]
        constructor
        · intro hd
          obtain ⟨p, hp, rfl⟩ := ih.mp hd
          exact ⟨p, by simp [hp], rfl⟩
        · rintro ⟨p, hp, rfl⟩
          rcases List.mem_append.mp hp with hp | hp
          · exact ih.mpr ⟨p, hp, rfl⟩
          · obtain rfl := List.mem_singleton.mp hp
            exact hq
      · rw [if_neg hq]
        simp only [List.mem_append, List.mem_singleton, ih]
        constructor
        · rintro (⟨p, hp, rfl⟩ | rfl)
          · exact ⟨p, Or.inl hp, rfl⟩
          · exact ⟨q, Or.inr rfl, rfl⟩
        · rintro ⟨p, hp | rfl, rfl⟩
          · exact Or.inl ⟨p, hp, rfl⟩
          · exact Or.inr rfl

theorem devices_nodup (specs : List Spec) : (devices specs).Nodup := by
  induction specs using List.reverseRecOn with
  | nil => exact List.nodup_nil
  | append_singleton specs q ih =>
      rw [devices_concat]
      split
      · exact ih
      · next hq =>
          refine List.nodup_append.mpr ⟨ih, by simp, fun a ha b hb => ?_⟩
          rw [List.mem_singleton.mp hb]
          exact fun heq => hq (heq ▸ ha)

theorem own_concat_self (specs : List Spec) (q : Spec) :
    own q.device (specs ++ [q]) = own q.device specs ++ [q] := by
  simp [own]

theorem own_concat_other {specs : List Spec} {q : Spec} {d : List Char} (h : d ≠ q.device) :
    own d (specs ++ [q]) = own d specs := by
  simp [own, Ne.symm h]

theorem own_eq_nil {specs : List Spec} {d : List Char} : own d specs = [] ↔ d ∉ devices specs := by
  rw [mem_devices, own, List.filter_eq_nil_iff]
  simp

theorem chainOf_concat (specs : List Spec) (q : Spec) :
    chainOf (specs ++ [q]) = chainStep (chainOf specs) q := by
  rw [chainOf, List.foldl_append]
  rfl

theorem chainStep_ne_nil (chain : List NetworkInterface) (q : Spec) : chainStep chain q ≠ [] := by
  unfold chainStep
  cases chain with
  | nil => simp
  | cons head tail =>
      simp only [List.head?_cons]
      split_ifs <;> simp [List.getLast?_cons]

theorem chainOf_ne_nil {specs : List Spec} (h : specs ≠ []) : chainOf specs ≠ [] := by
  rcases List.eq_nil_or_concat specs with rfl | ⟨front, q, rfl⟩
  · exact absurd rfl h
  · rw [List.concat_eq_append, chainOf_concat]
    exact chainStep_ne_nil _ _

theorem walked_concat (specs : List Spec) (q : Spec) :
    Walked (specs ++ [q]) ↔ Walked specs ∨ Walks specs q := by
  constructor
  · rintro ⟨before, p, after, heq, hwalks⟩
    rcases List.eq_nil_or_concat after with rfl | ⟨after, r, rfl⟩
    · have hparts := List.append_inj' heq rfl
      simp only [List.cons.injEq, and_true] at hparts
      obtain ⟨rfl, rfl⟩ := hparts
      exact Or.inr hwalks
    · have hassoc : specs ++ [q] = (before ++ p :: after) ++ [r] := by simpa using heq
      exact Or.inl ⟨before, p, after, (List.append_inj' hassoc rfl).1, hwalks⟩
  · rintro (⟨before, p, after, rfl, hwalks⟩ | hwalks)
    · exact ⟨before, p, after ++ [q], by simp, hwalks⟩
    · exact ⟨specs, q, [], rfl, hwalks⟩

/-- Every interface of a chain is what a specification of the list left. -/
theorem mem_chainOf {specs : List Spec} {c : NetworkInterface} (h : c ∈ chainOf specs) :
    ∃ r, ∃ q ∈ specs, c = settle r q := by
  induction specs using List.reverseRecOn with
  | nil => simp [chainOf] at h
  | append_singleton specs q ih =>
      rw [chainOf_concat] at h
      have hstep : c ∈ chainOf specs ∨ ∃ r, c = settle r q := by
        unfold chainStep at h
        split at h
        · exact Or.inr ⟨_, List.mem_singleton.mp h⟩
        · split_ifs at h
          · exact Or.inr ⟨_, List.mem_singleton.mp h⟩
          · rcases List.mem_append.mp h with h | h
            · exact Or.inl (List.mem_of_mem_dropLast h)
            · obtain ⟨r, -, hr⟩ := Option.map_eq_some_iff.mp (Option.mem_toList.mp h)
              exact Or.inr ⟨r, hr.symm⟩
          · rcases List.mem_append.mp h with h | h
            · exact Or.inl h
            · exact Or.inr ⟨_, List.mem_singleton.mp h⟩
      rcases hstep with hold | ⟨r, rfl⟩
      · obtain ⟨r, p, hp, rfl⟩ := ih hold
        exact ⟨r, p, by simp [hp], rfl⟩
      · exact ⟨r, q, by simp, rfl⟩

theorem mem_chainOf_own {specs : List Spec} {d : List Char} {c : NetworkInterface}
    (h : c ∈ chainOf (own d specs)) : c.present = true ∧ c.device = d := by
  obtain ⟨r, q, hq, rfl⟩ := mem_chainOf h
  have hdevice : q.device = d := by simpa using (List.mem_filter.mp hq).2
  exact ⟨rfl, hdevice⟩

/-! ### Reading a well-formed specification -/

theorem afterMac_mac (t : List Char) : afterAnyCase macKeyword (macKeyword ++ t) = some t := by
  simp [afterAnyCase, macKeyword]

theorem afterMac_chaos (t : List Char) : afterAnyCase macKeyword (chaosKeyword ++ t) = none := by
  simp [afterAnyCase, macKeyword, chaosKeyword]

theorem afterMac_internet (t : List Char) :
    afterAnyCase macKeyword (internetKeyword ++ t) = none := by
  simp [afterAnyCase, macKeyword, internetKeyword]

theorem afterKeyword_self (keyword t : List Char) :
    afterKeyword keyword (keyword ++ t) = some t := by
  simp [afterKeyword]

theorem afterChaos_internet (t : List Char) :
    (afterKeyword chaosKeyword (internetKeyword ++ t)).or
      (afterKeyword (chaosKeyword.map Char.toLower) (internetKeyword ++ t)) = none := by
  simp [afterKeyword, chaosKeyword, internetKeyword]

theorem readValue_text (gethostbyname : List Char → Option Nat) {k : Kind} (h : k.Reads) :
    readValue gethostbyname k.text = .ok k.value := by
  cases k with
  | internet t =>
      have hne : ntohl (inetAddr t) ≠ ntohl inaddrNone := h
      rw [readValue, Kind.text, afterMac_internet]
      dsimp only
      rw [afterChaos_internet, afterKeyword_self, Option.some_or]
      dsimp only
      rw [readInternet, if_neg hne]
      rfl
  | chaos t =>
      have hrest : (strtoul 8 t).2 = [] := h
      rw [readValue, Kind.text, afterMac_chaos]
      dsimp only
      rw [afterKeyword_self, Option.some_or]
      dsimp only
      rw [readChaos]
      dsimp only
      rw [if_pos hrest]
      rfl
  | mac t =>
      obtain ⟨bytes, hbytes⟩ := Option.isSome_iff_exists.mp h
      rw [readValue, Kind.text, afterMac_mac]
      dsimp only
      rw [readMac, hbytes, Kind.value, hbytes]
      rfl

/-! ### The memory of the chains -/

def locs (i : Nat) (nodes : List Nat) : List Loc := .table i :: nodes.map .node

/-- An interface without its pointer. -/
def cell (r : NetworkInterface) : NetworkInterface := { r with anotherAddress := none }

/-- The memory holds the chain of every device, the nodes of which are its own. -/
structure Holds (s : State) (specs : List Spec) (nodes : Nat → List Nat) : Prop where
  linked : ∀ i d, (devices specs)[i]? = some d →
    Linked NetworkInterface.anotherAddress s.memory (locs i (nodes i))
  cells : ∀ i d, (devices specs)[i]? = some d →
    (locs i (nodes i)).map (fun loc => cell (s.memory loc)) = chainOf (own d specs)
  unused : ∀ i, (devices specs).length ≤ i → s.memory (.table i) = .zero ∧ nodes i = []
  nodes_lt : ∀ i, ∀ n ∈ nodes i, n < s.allocated
  nodup : ∀ i, (nodes i).Nodup
  disjoint : ∀ i j, i ≠ j → ∀ n ∈ nodes i, n ∉ nodes j
  live : ∀ i, ∀ n ∈ nodes i, n ∉ s.freed
  freed_lt : ∀ n ∈ s.freed, n < s.allocated
  kept : s.ointerface.isSome ↔ Walked specs

theorem initial_holds : Holds State.initial [] fun _ => [] where
  linked := by simp [devices]
  cells := by simp [devices]
  unused := fun _ _ => ⟨rfl, rfl⟩
  nodes_lt := by simp
  nodup := by simp
  disjoint := by simp
  live := by simp
  freed_lt := by simp [State.initial]
  kept := by simp [State.initial, Walked]

section Holds

variable {s s' : State} {specs : List Spec} {nodes : Nat → List Nat} {q : Spec} {i : Nat}

/-- The entry of a device is present, and has its name and the flag of its chain. -/
theorem Holds.entry (h : Holds s specs nodes) {d : List Char} (hi : (devices specs)[i]? = some d) :
    (chainOf (own d specs)).head? = some (cell (s.memory (.table i))) ∧
      (s.memory (.table i)).present = true ∧ (s.memory (.table i)).device = d := by
  have hcells := h.cells i d hi
  have hhead : (chainOf (own d specs)).head? = some (cell (s.memory (.table i))) := by
    rw [← hcells]
    rfl
  exact ⟨hhead, mem_chainOf_own (c := cell (s.memory (.table i))) (List.mem_of_mem_head? hhead)⟩

theorem Holds.findEntry_old (h : Holds s specs nodes) (hle : (devices specs).length ≤ 8)
    (hi : (devices specs)[i]? = some q.device) : s.findEntry q.device = some i := by
  have hlt := (List.getElem?_eq_some_iff.mp hi).1
  rw [State.findEntry, List.find?_range_eq_some]
  obtain ⟨-, hpresent, hdevice⟩ := h.entry hi
  refine ⟨by simp [hdevice], by simp [maxNetworkInterfaces]; omega, fun j hj => ?_⟩
  have hj' : (devices specs)[j]? = some (devices specs)[j] := List.getElem?_eq_getElem (by omega)
  obtain ⟨-, hpresent, hdevice⟩ := h.entry hj'
  have hne : (devices specs)[j] ≠ q.device := by
    rw [← (List.getElem?_eq_some_iff.mp hi).2]
    exact fun heq => by
      have := (devices_nodup specs).getElem_inj_iff.mp heq
      omega
  simp [hpresent, hdevice, hne]

theorem Holds.findEntry_new (h : Holds s specs nodes) (hlt : (devices specs).length < 8)
    (hnew : q.device ∉ devices specs) : s.findEntry q.device = some (devices specs).length := by
  rw [State.findEntry, List.find?_range_eq_some]
  have hfree := (h.unused _ le_rfl).1
  refine ⟨by simp [hfree, NetworkInterface.zero], by simpa [maxNetworkInterfaces] using hlt,
    fun j hj => ?_⟩
  have hj' : (devices specs)[j]? = some (devices specs)[j] := List.getElem?_eq_getElem (by omega)
  obtain ⟨-, hpresent, hdevice⟩ := h.entry hj'
  have hne : (devices specs)[j] ≠ q.device := fun heq => hnew (heq ▸ List.getElem_mem _)
  simp [hpresent, hdevice, hne]

/-- The nodes of a chain are no more than were allocated. -/
theorem Holds.length_le (h : Holds s specs nodes) (i : Nat) : (nodes i).length ≤ s.allocated := by
  have hsub : (nodes i).toFinset ⊆ Finset.range s.allocated := by
    intro n hn
    exact Finset.mem_range.mpr (h.nodes_lt i n (List.mem_toFinset.mp hn))
  have hcard := Finset.card_le_card hsub
  rwa [List.toFinset_card_of_nodup (h.nodup i), Finset.card_range] at hcard

/-- A change to one chain, and to nodes that no chain has, leaves the others. -/
theorem Holds.update (h : Holds s specs nodes) {new : List Nat}
    (hi : (devices (specs ++ [q]))[i]? = some q.device)
    (hframe : ∀ j ≠ i, ∀ loc ∈ locs j (nodes j), s'.memory loc = s.memory loc)
    (hlinked : Linked NetworkInterface.anotherAddress s'.memory (locs i new))
    (hcells : (locs i new).map (fun loc => cell (s'.memory loc)) =
      chainStep (chainOf (own q.device specs)) q)
    (hnew : ∀ n ∈ new, (n ∈ nodes i ∨ n = s.allocated) ∧ n < s'.allocated ∧ n ∉ s'.freed)
    (hnodup : new.Nodup) (halloc : s.allocated ≤ s'.allocated)
    (hfreed : ∀ n ∈ s'.freed, (n ∈ s.freed ∨ n = s.allocated) ∧ n < s'.allocated)
    (hkept : s'.ointerface.isSome ↔ Walked specs ∨ Walks specs q) :
    Holds s' (specs ++ [q]) (Function.update nodes i new) := by
  have hother : ∀ j d, j ≠ i → (devices (specs ++ [q]))[j]? = some d →
      d ≠ q.device ∧ (devices specs)[j]? = some d := by
    intro j d hj hd
    have hdne : d ≠ q.device := by
      rintro rfl
      obtain ⟨hjlt, hjd⟩ := List.getElem?_eq_some_iff.mp hd
      obtain ⟨hilt, hid⟩ := List.getElem?_eq_some_iff.mp hi
      exact hj ((devices_nodup _).getElem_inj_iff.mp (hjd.trans hid.symm))
    refine ⟨hdne, ?_⟩
    rw [devices_concat] at hd
    split at hd
    · exact hd
    · rw [List.getElem?_append] at hd
      split at hd
      · exact hd
      · rw [List.getElem?_singleton] at hd
        split at hd
        · exact absurd (Option.some.inj hd).symm hdne
        · cases hd
  have hlen : (devices specs).length ≤ (devices (specs ++ [q])).length := by
    rw [devices_concat]
    split <;> simp
  have hilt := (List.getElem?_eq_some_iff.mp hi).1
  refine ⟨fun j d hd => ?_, fun j d hd => ?_, fun j hj => ?_, fun j n hn => ?_, fun j => ?_,
    fun j k hjk n hn => ?_, fun j n hn => ?_, fun n hn => (hfreed n hn).2,
    hkept.trans (walked_concat specs q).symm⟩
  · by_cases hj : j = i
    · subst hj
      simpa using hlinked
    · obtain ⟨-, hold⟩ := hother j d hj hd
      rw [Function.update_of_ne hj]
      exact (h.linked j d hold).congr fun loc hloc => by rw [hframe j hj loc hloc]
  · by_cases hj : j = i
    · subst hj
      obtain rfl := Option.some.inj (hi.symm.trans hd)
      rw [Function.update_self, own_concat_self, chainOf_concat]
      exact hcells
    · obtain ⟨hne, hold⟩ := hother j d hj hd
      rw [Function.update_of_ne hj, own_concat_other hne, ← h.cells j d hold]
      exact List.map_congr_left fun loc hloc => by rw [hframe j hj loc hloc]
  · have hj' : j ≠ i := by omega
    obtain ⟨hzero, hnil⟩ := h.unused j (by omega)
    rw [Function.update_of_ne hj', hframe j hj' _ (by simp [locs])]
    exact ⟨hzero, hnil⟩
  · by_cases hj : j = i
    · subst hj
      rw [Function.update_self] at hn
      exact (hnew n hn).2.1
    · rw [Function.update_of_ne hj] at hn
      have := h.nodes_lt j n hn
      omega
  · by_cases hj : j = i
    · subst hj
      simpa using hnodup
    · rw [Function.update_of_ne hj]
      exact h.nodup j
  · have hapart : ∀ k ≠ i, ∀ n ∈ new, n ∉ nodes k := by
      intro k hk n hn hmem
      rcases (hnew n hn).1 with hold | rfl
      · exact h.disjoint i k hk.symm n hold hmem
      · exact absurd (h.nodes_lt k _ hmem) (lt_irrefl _)
    by_cases hj : j = i
    · subst hj
      rw [Function.update_self] at hn
      rw [Function.update_of_ne hjk.symm]
      exact hapart k hjk.symm n hn
    · rw [Function.update_of_ne hj] at hn
      by_cases hk : k = i
      · subst hk
        rw [Function.update_self]
        exact fun hmem => hapart j hj n hmem hn
      · rw [Function.update_of_ne hk]
        exact h.disjoint j k hjk n hn
  · by_cases hj : j = i
    · subst hj
      rw [Function.update_self] at hn
      exact (hnew n hn).2.2
    · rw [Function.update_of_ne hj] at hn
      intro hmem
      rcases (hfreed n hmem).1 with hold | rfl
      · exact h.live j n hn hold
      · exact absurd (h.nodes_lt j _ hn) (lt_irrefl _)

end Holds

/-! ### Finding the interface -/

theorem lastAddress_eq {memory : Loc → NetworkInterface} {loc : Loc} {ls : List Loc}
    (h : Linked NetworkInterface.anotherAddress memory (loc :: ls)) {fuel : Nat}
    (hfuel : ls.length < fuel) :
    State.lastAddress memory fuel loc = (loc :: ls).getLast? := by
  induction ls generalizing loc fuel with
  | nil =>
      obtain ⟨fuel, rfl⟩ := Nat.exists_eq_add_one_of_ne_zero (show fuel ≠ 0 by omega)
      have hend : (memory loc).anotherAddress = none := h
      simp [State.lastAddress, hend]
  | cons loc' ls ih =>
      obtain ⟨fuel, rfl⟩ := Nat.exists_eq_add_one_of_ne_zero (show fuel ≠ 0 by omega)
      simp only [List.length_cons] at hfuel
      have htail := ih h.2 (show ls.length < fuel by omega)
      simp [State.lastAddress, h.1, htail]

theorem locs_nodup {nodes : List Nat} (h : nodes.Nodup) (i : Nat) : (locs i nodes).Nodup := by
  refine List.nodup_cons.mpr ⟨by simp, h.map fun a b hab => ?_⟩
  exact Loc.node.inj hab

/-- An entry that has a MAC has no further address. -/
theorem chainOf_singleton {specs : List Spec} {head : NetworkInterface}
    (hhead : (chainOf specs).head? = some head) (hmac : head.haveMac = true) :
    chainOf specs = [head] := by
  induction specs using List.reverseRecOn generalizing head with
  | nil => simp [chainOf] at hhead
  | append_singleton specs q ih =>
      rw [chainOf_concat] at hhead ⊢
      cases hchain : chainOf specs with
      | nil =>
          rw [hchain] at hhead
          exact congrArg (fun c => [c]) (Option.some.inj hhead)
      | cons old tail =>
          rw [hchain] at hhead
          simp only [chainStep, List.head?_cons] at hhead ⊢
          split_ifs at hhead ⊢ with hold hq
          · exact congrArg (fun c => [c]) (Option.some.inj hhead)
          · -- The last interface takes the MAC, which is the entry only where it is alone.
            cases tail with
            | nil => exact congrArg (fun c => [c]) (Option.some.inj hhead)
            | cons next tail =>
                have heq : old = head := Option.some.inj hhead
                exact absurd (heq ▸ hmac) hold
          · have heq : old = head := Option.some.inj hhead
            exact absurd (heq ▸ hmac) hold

theorem settle_cell (r : NetworkInterface) (q : Spec) : settle (cell r) q = settle r q := by
  unfold settle cell
  cases q.kind.value <;> rfl

theorem cell_settle (r : NetworkInterface) (q : Spec) : cell (settle r q) = settle r q := rfl

section Find

variable {s : State} {specs : List Spec} {nodes : Nat → List Nat} {q : Spec}

/-- A new device gets the next entry, and one with a MAC gets its own again. -/
theorem Holds.find_fixed (h : Holds s specs nodes) (hle : (devices (specs ++ [q])).length ≤ 8)
    (hwalk : ¬ Walks specs q) :
    ∃ i, (devices (specs ++ [q]))[i]? = some q.device ∧
      s.findInterface q.device = .ok (s, .table i) ∧
      chainStep (chainOf (own q.device specs)) q = [settle (s.memory (.table i)) q] ∧
      (s.memory (.table i)).myProtocol = (target specs q).myProtocol := by
  rw [devices_concat] at hle ⊢
  by_cases hold : q.device ∈ devices specs
  · rw [if_pos hold] at hle ⊢
    obtain ⟨i, hilt, hi⟩ := List.mem_iff_getElem.mp hold
    have hi' : (devices specs)[i]? = some q.device := by rw [List.getElem?_eq_getElem hilt, hi]
    obtain ⟨hhead, hpresent, hdevice⟩ := h.entry hi'
    have hmac : (s.memory (.table i)).haveMac = true := by
      by_contra hno
      exact hwalk ⟨_, hhead, by simpa [cell] using hno⟩
    have hchain := chainOf_singleton hhead (by simpa [cell] using hmac)
    refine ⟨i, hi', ?_, ?_, ?_⟩
    · simp [State.findInterface, h.findEntry_old hle hi', hmac]
    · have hhave : (cell (s.memory (.table i))).haveMac = true := hmac
      rw [hchain]
      simp [chainStep, hhave, settle_cell]
    · simp [target, hchain, cell]
  · rw [if_neg hold] at hle ⊢
    have hlt : (devices specs).length < 8 := by simpa using hle
    have hzero := (h.unused _ le_rfl).1
    have hnil : chainOf (own q.device specs) = [] := by
      rw [own_eq_nil.mpr hold]
      rfl
    refine ⟨(devices specs).length, by simp, ?_, ?_, ?_⟩
    · simp [State.findInterface, h.findEntry_new hlt hold, hzero, NetworkInterface.zero]
    · simp [hnil, chainStep, hzero]
    · simp [target, hnil, hzero]

/-- The state after a chain was walked. -/
def walkedState (s : State) (last : Loc) : State :=
  { (s.write last fun r => { r with anotherAddress := some (.node s.allocated) }).write
      (.node s.allocated) (fun _ => .zero) with
    allocated := s.allocated + 1
    ointerface := some last }

/-- A device whose entry has no MAC gets a node behind its last address. -/
theorem Holds.find_walk (h : Holds s specs nodes) (hle : (devices (specs ++ [q])).length ≤ 8)
    (hwalk : Walks specs q) :
    ∃ i front last, (devices (specs ++ [q]))[i]? = some q.device ∧
      locs i (nodes i) = front ++ [last] ∧
      Linked NetworkInterface.anotherAddress s.memory (front ++ [last]) ∧
      (front ++ [last]).map (fun loc => cell (s.memory loc)) = chainOf (own q.device specs) ∧
      s.findInterface q.device = .ok (walkedState s last, .node s.allocated) := by
  obtain ⟨head, hhead, hmac⟩ := hwalk
  have hold : q.device ∈ devices specs := by
    by_contra hnew
    rw [own_eq_nil.mpr hnew] at hhead
    simp [chainOf] at hhead
  rw [devices_concat, if_pos hold] at hle ⊢
  obtain ⟨i, hilt, hi⟩ := List.mem_iff_getElem.mp hold
  have hi' : (devices specs)[i]? = some q.device := by rw [List.getElem?_eq_getElem hilt, hi]
  obtain ⟨hhead', hpresent, hdevice⟩ := h.entry hi'
  have hno : (s.memory (.table i)).haveMac = false := by
    have heq := Option.some.inj (hhead'.symm.trans hhead)
    rw [← heq] at hmac
    exact hmac
  obtain ⟨front, last, hlocs⟩ : ∃ front last, locs i (nodes i) = front ++ [last] := by
    rcases List.eq_nil_or_concat (locs i (nodes i)) with hnil | ⟨front, last, heq⟩
    · simp [locs] at hnil
    · exact ⟨front, last, by rw [heq, List.concat_eq_append]⟩
  have hlinked := h.linked i _ hi'
  have hlast : State.lastAddress s.memory (s.allocated + 1) (.table i) = some last := by
    have hlength := h.length_le i
    rw [lastAddress_eq hlinked (by simpa using by omega)]
    have hget := congrArg List.getLast? hlocs
    simpa [locs] using hget
  refine ⟨i, front, last, hi', hlocs, hlocs ▸ hlinked, hlocs ▸ h.cells i _ hi', ?_⟩
  simp only [State.findInterface, h.findEntry_old hle hi', hpresent, hno, hlast]
  rfl

end Find

/-! ### One specification -/

section Place

variable {s t : State} {loc : Loc} {q : Spec} (gethostbyname : List Char → Option Nat)

theorem hostOf_eq {protocol host : Nat} {options : List Char}
    (h : hostAddress protocol options = .ok host) : hostOf protocol options = host := by
  rw [hostOf, h]

/-- No options are the options of an empty text. -/
theorem finish_eq (s : State) (loc : Loc) (hfit : q.optionText.length ≤ posixPathMax) :
    s.finish loc q.options =
      match hostAddress (s.memory loc).myProtocol q.optionText with
      | .ok host => .ok (s.write loc fun r =>
          { r with
            myHostAddress := host
            myOptions := q.optionText
            anotherAddress := none
            present := true })
      | .error fault => .error fault := by
  unfold Spec.optionText at *
  cases hoptions : q.options with
  | none => rfl
  | some text =>
      rw [hoptions, Option.getD_some] at hfit
      simp only [State.finish, State.hostOption, Option.getD_some, hfit, if_true]
      cases hostAddress (s.memory loc).myProtocol text <;> rfl

theorem write_write (s : State) (loc : Loc) (f g : NetworkInterface → NetworkInterface) :
    (s.write loc f).write loc g = s.write loc fun r => g (f r) := by
  simp [State.write]

theorem write_congr (s : State) {loc : Loc} {f g : NetworkInterface → NetworkInterface}
    (h : f (s.memory loc) = g (s.memory loc)) : s.write loc f = s.write loc g := by
  rw [State.write, State.write, h]

theorem write_memory_self (s : State) (loc : Loc) (f : NetworkInterface → NetworkInterface) :
    (s.write loc f).memory loc = f (s.memory loc) := by
  simp [State.write]

theorem write_memory_other (s : State) {loc other : Loc} (f : NetworkInterface → NetworkInterface)
    (h : other ≠ loc) : (s.write loc f).memory other = s.memory other := by
  simp [State.write, h]

theorem setDevice_eq (s : State) (loc : Loc) (hwf : q.WellFormed) :
    s.setDevice loc q.device = .ok (s.write loc fun r => { r with device := q.device }) :=
  if_pos hwf.device_fits

/-- An address is put where the specification found its interface. -/
theorem place_address (hwf : q.WellFormed) (hmac : q.isMac = false)
    (hfind : s.findInterface q.device = .ok (t, loc)) :
    s.place gethostbyname q.device q.kind.text q.options =
      .ok (t.write loc fun r => settle r q) := by
  obtain ⟨protocol, addr, hvalue, hprotocol⟩ : ∃ protocol addr,
      q.kind.value = .address protocol addr ∧ q.protocol = protocol := by
    cases hkind : q.kind with
    | internet text => exact ⟨_, _, rfl, by simp [Spec.protocol, hkind]⟩
    | chaos text => exact ⟨_, _, rfl, by simp [Spec.protocol, hkind]⟩
    | mac text => simp [Spec.isMac, hkind] at hmac
  obtain ⟨host, hhost⟩ := hwf.host_reads
  rw [hprotocol] at hhost
  rw [State.place, hfind]
  simp only [bind, Except.bind, setDevice_eq t loc hwf,
    readValue_text gethostbyname hwf.kind_reads, hvalue, State.record, pure, Except.pure,
    finish_eq _ loc hwf.options_fit, write_write, write_memory_self, hhost]
  simp [settle, hvalue, hostOf_eq hhost]

theorem value_of_isMac (hmac : q.isMac = true) : ∃ bytes, q.kind.value = .mac bytes := by
  cases hkind : q.kind with
  | internet text => simp [Spec.isMac, hkind] at hmac
  | chaos text => simp [Spec.isMac, hkind] at hmac
  | mac text => exact ⟨_, rfl⟩

/-- With no pointer kept, a MAC is put where its interface was found. -/
theorem place_mac (hwf : q.WellFormed) (hmac : q.isMac = true)
    (hfind : s.findInterface q.device = .ok (t, loc)) (hkept : t.ointerface = none)
    (hhost : HostReads (t.memory loc).myProtocol q.optionText) :
    s.place gethostbyname q.device q.kind.text q.options =
      .ok (t.write loc fun r => settle r q) := by
  obtain ⟨bytes, hvalue⟩ := value_of_isMac hmac
  obtain ⟨host, hhost⟩ := hhost
  have hkept' : ∀ f, (t.write loc f).ointerface = none := fun _ => hkept
  rw [State.place, hfind]
  simp only [bind, Except.bind, setDevice_eq t loc hwf,
    readValue_text gethostbyname hwf.kind_reads, hvalue, State.record, State.macInterface, hkept', pure, Except.pure,
    finish_eq _ loc hwf.options_fit, write_write, write_memory_self, hhost]
  exact congrArg Except.ok (write_congr t (by simp [settle, hvalue, hostOf_eq hhost]))

theorem place_mac_unread {fault : Fault} (hwf : q.WellFormed) (hmac : q.isMac = true)
    (hfind : s.findInterface q.device = .ok (t, loc)) (hkept : t.ointerface = none)
    (hhost : hostAddress (t.memory loc).myProtocol q.optionText = .error fault) :
    s.place gethostbyname q.device q.kind.text q.options = .error fault := by
  obtain ⟨bytes, hvalue⟩ := value_of_isMac hmac
  have hkept' : ∀ f, (t.write loc f).ointerface = none := fun _ => hkept
  rw [State.place, hfind]
  simp only [bind, Except.bind, setDevice_eq t loc hwf,
    readValue_text gethostbyname hwf.kind_reads, hvalue, State.record, State.macInterface, hkept', pure, Except.pure,
    finish_eq _ loc hwf.options_fit, write_write, write_memory_self, hhost]

/-- With a pointer kept, an entry of the table is freed. -/
theorem place_mac_table {i : Nat} (hwf : q.WellFormed) (hmac : q.isMac = true)
    (hfind : s.findInterface q.device = .ok (t, .table i)) (hkept : t.ointerface.isSome) :
    s.place gethostbyname q.device q.kind.text q.options = .error (.freesTable i) := by
  obtain ⟨bytes, hvalue⟩ := value_of_isMac hmac
  obtain ⟨o, ho⟩ := Option.isSome_iff_exists.mp hkept
  have hkept' : ∀ f, (t.write (.table i) f).ointerface = some o := fun _ => ho
  rw [State.place, hfind]
  simp only [bind, Except.bind, setDevice_eq t (.table i) hwf,
    readValue_text gethostbyname hwf.kind_reads, hvalue, State.record, State.macInterface, hkept', State.free]

/-- A MAC whose device got a node frees that and goes to the interface before it. -/
theorem place_mac_node {n : Nat} {o : Loc} (hwf : q.WellFormed) (hmac : q.isMac = true)
    (hfind : s.findInterface q.device = .ok (t, .node n)) (hkept : t.ointerface = some o)
    (hne : o ≠ .node n) (hdevice : (t.memory o).device = q.device)
    (hhost : HostReads (t.memory o).myProtocol q.optionText) :
    ∃ t', s.place gethostbyname q.device q.kind.text q.options = .ok t' ∧
      t'.memory o = settle (t.memory o) q ∧
      (∀ other, other ≠ o → other ≠ .node n → t'.memory other = t.memory other) ∧
      t'.allocated = t.allocated ∧ t'.freed = n :: t.freed ∧ t'.ointerface = some o := by
  obtain ⟨bytes, hvalue⟩ := value_of_isMac hmac
  obtain ⟨host, hhost⟩ := hhost
  have hkept' : ∀ f, (t.write (.node n) f).ointerface = some o := fun _ => hkept
  rw [State.place, hfind]
  simp only [bind, Except.bind, setDevice_eq t (.node n) hwf,
    readValue_text gethostbyname hwf.kind_reads, hvalue, State.record, State.macInterface, hkept', State.free, pure,
    Except.pure, finish_eq _ o hwf.options_fit, write_write, write_memory_self,
    write_memory_other _ _ hne, hhost]
  refine ⟨_, rfl, ?_, fun other ho hn => ?_, rfl, rfl, rfl⟩
  · rw [write_memory_self, write_memory_other _ _ hne, settle, hvalue, ← hdevice]
    simp [hostOf_eq hhost]
  · rw [write_memory_other _ _ ho]
    exact write_memory_other t (fun r => { r with device := q.device }) hn

theorem place_mac_node_unread {n : Nat} {o : Loc} {fault : Fault} (hwf : q.WellFormed)
    (hmac : q.isMac = true) (hfind : s.findInterface q.device = .ok (t, .node n))
    (hkept : t.ointerface = some o) (hne : o ≠ .node n)
    (hhost : hostAddress (t.memory o).myProtocol q.optionText = .error fault) :
    s.place gethostbyname q.device q.kind.text q.options = .error fault := by
  obtain ⟨bytes, hvalue⟩ := value_of_isMac hmac
  have hkept' : ∀ f, (t.write (.node n) f).ointerface = some o := fun _ => hkept
  rw [State.place, hfind]
  simp only [bind, Except.bind, setDevice_eq t (.node n) hwf,
    readValue_text gethostbyname hwf.kind_reads, hvalue, State.record, State.macInterface, hkept', State.free, pure,
    Except.pure, finish_eq _ o hwf.options_fit, write_write, write_memory_self,
    write_memory_other _ _ hne, hhost]

end Place

/-! ### The step -/

section Step

variable {s : State} {specs : List Spec} {nodes : Nat → List Nat} {q : Spec}
  (gethostbyname : List Char → Option Nat)

/-- The entry alone is the chain of the device. -/
theorem Holds.write_entry (h : Holds s specs nodes) {i : Nat}
    (hi : (devices (specs ++ [q]))[i]? = some q.device)
    (hstep : chainStep (chainOf (own q.device specs)) q = [settle (s.memory (.table i)) q])
    (hwalk : ¬ Walks specs q) :
    Holds (s.write (.table i) fun r => settle r q) (specs ++ [q]) (Function.update nodes i []) := by
  refine h.update hi (fun j hj loc hloc => write_memory_other s _ ?_) ?_ ?_ (by simp) (by simp)
    le_rfl (fun n hn => ⟨Or.inl hn, h.freed_lt n hn⟩) ?_
  · rintro rfl
    simp [locs, hj.symm] at hloc
  · show ((s.write (.table i) fun r => settle r q).memory (.table i)).anotherAddress = none
    rw [write_memory_self]
    rfl
  · simp [locs, write_memory_self, cell_settle, hstep]
  · rw [or_iff_left hwalk]
    exact h.kept

theorem walkedState_memory (s : State) (last : Loc) :
    (walkedState s last).memory =
      ((s.write last fun r => { r with anotherAddress := some (.node s.allocated) }).write
        (.node s.allocated) fun _ => .zero).memory := rfl

theorem walkedState_memory_last (s : State) {last : Loc} (h : last ≠ .node s.allocated) :
    (walkedState s last).memory last =
      { s.memory last with anotherAddress := some (.node s.allocated) } := by
  rw [walkedState_memory, write_memory_other _ _ h, write_memory_self]

theorem walkedState_memory_new (s : State) (last : Loc) :
    (walkedState s last).memory (.node s.allocated) = .zero := by
  rw [walkedState_memory, write_memory_self]

theorem walkedState_memory_other (s : State) {last other : Loc} (h : other ≠ last)
    (hnew : other ≠ .node s.allocated) :
    (walkedState s last).memory other = s.memory other := by
  rw [walkedState_memory, write_memory_other _ _ hnew, write_memory_other _ _ h]

/-- No chain has the node that is allocated next. -/
theorem Holds.fresh (h : Holds s specs nodes) {j : Nat} {loc : Loc}
    (hloc : loc ∈ locs j (nodes j)) : loc ≠ .node s.allocated := by
  rintro rfl
  have hmem : s.allocated ∈ nodes j := by simpa [locs] using hloc
  exact absurd (h.nodes_lt j _ hmem) (lt_irrefl _)

/-- The places of two chains are apart. -/
theorem Holds.apart (h : Holds s specs nodes) {i j : Nat} (hij : j ≠ i) {loc other : Loc}
    (hloc : loc ∈ locs j (nodes j)) (hother : other ∈ locs i (nodes i)) : loc ≠ other := by
  rintro rfl
  rcases List.mem_cons.mp hloc with rfl | hloc
  · simp [locs, hij] at hother
  · obtain ⟨n, hn, rfl⟩ := List.mem_map.mp hloc
    have hmem : n ∈ nodes i := by simpa [locs] using hother
    exact h.disjoint j i hij n hn hmem

/-- An address behind the last one of its chain. -/
theorem Holds.append_node (h : Holds s specs nodes) {i : Nat} {front : List Loc} {last : Loc}
    (hi : (devices (specs ++ [q]))[i]? = some q.device)
    (hlocs : locs i (nodes i) = front ++ [last])
    (hlinked : Linked NetworkInterface.anotherAddress s.memory (front ++ [last]))
    (hcells : (front ++ [last]).map (fun loc => cell (s.memory loc)) = chainOf (own q.device specs))
    (hmac : q.isMac = false) (hwalk : Walks specs q) :
    Holds ((walkedState s last).write (.node s.allocated) fun r => settle r q) (specs ++ [q])
      (Function.update nodes i (nodes i ++ [s.allocated])) := by
  have hnodup := locs_nodup (h.nodup i) i
  rw [hlocs] at hnodup
  have hlastmem : last ∈ locs i (nodes i) := by simp [hlocs]
  have hlast : last ≠ .node s.allocated := h.fresh hlastmem
  have hfront : ∀ loc ∈ front, loc ≠ last ∧ loc ≠ .node s.allocated := by
    intro loc hloc
    refine ⟨fun heq => ?_, h.fresh (j := i) (by simp [hlocs, hloc])⟩
    exact (List.nodup_append.mp hnodup).2.2 loc hloc last (by simp) heq
  have hlocs' : locs i (nodes i ++ [s.allocated]) = front ++ [last, .node s.allocated] := by
    have hsplit : locs i (nodes i ++ [s.allocated]) = locs i (nodes i) ++ [.node s.allocated] := by
      simp [locs]
    rw [hsplit, hlocs]
    simp
  have hold : ∀ loc ∈ front,
      ((walkedState s last).write (.node s.allocated) fun r => settle r q).memory loc =
        s.memory loc := by
    intro loc hloc
    obtain ⟨hne, hnew⟩ := hfront loc hloc
    rw [write_memory_other _ _ hnew, walkedState_memory_other s hne hnew]
  have hend : ((walkedState s last).write (.node s.allocated) fun r => settle r q).memory last =
      { s.memory last with anotherAddress := some (.node s.allocated) } := by
    rw [write_memory_other _ _ hlast, walkedState_memory_last s hlast]
  have hadded : ((walkedState s last).write (.node s.allocated) fun r => settle r q).memory
      (.node s.allocated) = settle .zero q := by
    rw [write_memory_self, walkedState_memory_new]
  refine h.update hi ?_ ?_ ?_ ?_ ?_ (Nat.le_succ _) ?_ ?_
  · intro j hj loc hloc
    have hnew := h.fresh hloc
    rw [write_memory_other _ _ hnew, walkedState_memory_other s (h.apart hj hloc hlastmem) hnew]
  · rw [hlocs']
    exact hlinked.concat (fun loc hloc => by rw [hold loc hloc]) (by rw [hend]) (by rw [hadded]; rfl)
  · obtain ⟨head, hhead, hno⟩ := hwalk
    have hchain : chainStep (chainOf (own q.device specs)) q =
        chainOf (own q.device specs) ++ [settle .zero q] := by
      have hhead' : (chainOf (own q.device specs)).head? = some head := hhead
      simp [chainStep, hhead', hno, hmac]
    rw [hlocs', hchain, ← hcells]
    have hfrontcells : front.map (fun loc => cell
        (((walkedState s last).write (.node s.allocated) fun r => settle r q).memory loc)) =
        front.map fun loc => cell (s.memory loc) :=
      List.map_congr_left fun loc hloc => by rw [hold loc hloc]
    simp only [List.map_append, List.map_cons, List.map_nil, hfrontcells, hend, hadded,
      cell_settle, List.append_assoc, List.cons_append, List.nil_append]
    rfl
  · intro n hn
    have hfreed : n ∉ s.freed := by
      rcases List.mem_append.mp hn with hn | hn
      · exact h.live i n hn
      · obtain rfl := List.mem_singleton.mp hn
        exact fun hmem => absurd (h.freed_lt _ hmem) (lt_irrefl _)
    rcases List.mem_append.mp hn with hn | hn
    · exact ⟨Or.inl hn, Nat.lt_succ_of_lt (h.nodes_lt i n hn), hfreed⟩
    · obtain rfl := List.mem_singleton.mp hn
      exact ⟨Or.inr rfl, Nat.lt_succ_self _, hfreed⟩
  · refine List.nodup_append.mpr ⟨h.nodup i, by simp, fun a ha b hb => ?_⟩
    rw [List.mem_singleton.mp hb]
    exact fun heq => absurd (h.nodes_lt i a ha) (by omega)
  · exact fun n hn => ⟨Or.inl hn, Nat.lt_succ_of_lt (h.freed_lt n hn)⟩
  · exact ⟨fun _ => Or.inr hwalk, fun _ => rfl⟩

/-- A MAC on the last interface of its chain, and the node for it freed. -/
theorem Holds.mac_last (h : Holds s specs nodes) {i : Nat} {front : List Loc} {last : Loc}
    {s' : State} (hi : (devices (specs ++ [q]))[i]? = some q.device)
    (hlocs : locs i (nodes i) = front ++ [last])
    (hlinked : Linked NetworkInterface.anotherAddress s.memory (front ++ [last]))
    (hcells : (front ++ [last]).map (fun loc => cell (s.memory loc)) = chainOf (own q.device specs))
    (hmac : q.isMac = true) (hwalk : Walks specs q)
    (hset : s'.memory last = settle (s.memory last) q)
    (hframe : ∀ other, other ≠ last → other ≠ .node s.allocated → s'.memory other = s.memory other)
    (halloc : s'.allocated = s.allocated + 1) (hfreed : s'.freed = s.allocated :: s.freed)
    (hkept : s'.ointerface = some last) :
    Holds s' (specs ++ [q]) (Function.update nodes i (nodes i)) := by
  have hnodup := locs_nodup (h.nodup i) i
  rw [hlocs] at hnodup
  have hlastmem : last ∈ locs i (nodes i) := by simp [hlocs]
  have hold : ∀ loc ∈ front, s'.memory loc = s.memory loc := by
    intro loc hloc
    refine hframe loc (fun heq => ?_) (h.fresh (j := i) (by simp [hlocs, hloc]))
    exact (List.nodup_append.mp hnodup).2.2 loc hloc last (by simp) heq
  refine h.update hi ?_ ?_ ?_ ?_ (h.nodup i) (by omega) ?_ ?_
  · exact fun j hj loc hloc => hframe loc (h.apart hj hloc hlastmem) (h.fresh hloc)
  · rw [hlocs]
    refine hlinked.congr fun loc hloc => ?_
    rcases List.mem_append.mp hloc with hloc | hloc
    · rw [hold loc hloc]
    · obtain rfl := List.mem_singleton.mp hloc
      rw [hset, hlinked.next_last]
      rfl
  · obtain ⟨head, hhead, hno⟩ := hwalk
    have hhead' : (chainOf (own q.device specs)).head? = some head := hhead
    have hfrontcells : front.map (fun loc => cell (s'.memory loc)) =
        front.map fun loc => cell (s.memory loc) :=
      List.map_congr_left fun loc hloc => by rw [hold loc hloc]
    have hchain : chainStep (chainOf (own q.device specs)) q =
        front.map (fun loc => cell (s.memory loc)) ++ [settle (s.memory last) q] := by
      simp only [chainStep, hhead', hno, hmac, if_true]
      rw [← hcells]
      simp [settle_cell]
    rw [hlocs, hchain, ← hfrontcells]
    simp [hset, cell_settle]
  · intro n hn
    have hlt := h.nodes_lt i n hn
    refine ⟨Or.inl hn, by omega, ?_⟩
    rw [hfreed, List.mem_cons]
    rintro (rfl | hmem)
    · exact absurd hlt (lt_irrefl _)
    · exact h.live i n hn hmem
  · intro n hn
    rw [hfreed, List.mem_cons] at hn
    rcases hn with rfl | hn
    · exact ⟨Or.inr rfl, by omega⟩
    · have := h.freed_lt n hn
      exact ⟨Or.inl hn, by omega⟩
  · rw [hkept]
    exact ⟨fun _ => Or.inr hwalk, fun _ => rfl⟩

theorem hostReads_or (protocol : Nat) (options : List Char) :
    HostReads protocol options ∨ ∃ fault, hostAddress protocol options = .error fault := by
  cases h : hostAddress protocol options with
  | ok host => exact Or.inl ⟨host, h⟩
  | error fault => exact Or.inr ⟨fault, rfl⟩

theorem ointerface_none (h : Holds s specs nodes) (hwalked : ¬ Walked specs) :
    s.ointerface = none := by
  cases hptr : s.ointerface with
  | none => rfl
  | some o => exact absurd (h.kept.mp (by simp [hptr])) hwalked

/-- The interface that a walk ends at. -/
theorem target_walk {front : List Loc} {last : Loc}
    (hcells : (front ++ [last]).map (fun loc => cell (s.memory loc)) = chainOf (own q.device specs)) :
    target specs q = cell (s.memory last) := by
  rw [target, ← hcells]
  simp

/-- A safe specification is placed, and the memory goes on to hold the chains. -/
theorem place_safe (h : Holds s specs nodes) (hwf : q.WellFormed)
    (hle : (devices (specs ++ [q])).length ≤ 8) (hsafe : Safe specs q) :
    ∃ s' nodes', s.place gethostbyname q.device q.kind.text q.options = .ok s' ∧
      Holds s' (specs ++ [q]) nodes' := by
  by_cases hwalk : Walks specs q
  · obtain ⟨i, front, last, hi, hlocs, hlinked, hcells, hfind⟩ := h.find_walk hle hwalk
    cases hmac : q.isMac with
    | false =>
        exact ⟨_, _, place_address gethostbyname hwf hmac hfind,
          h.append_node hi hlocs hlinked hcells hmac hwalk⟩
    | true =>
        have hlast : last ≠ .node s.allocated := h.fresh (j := i) (by simp [hlocs])
        have hmemory := walkedState_memory_last s hlast
        have hdevice : (s.memory last).device = q.device := by
          have hmem : cell (s.memory last) ∈ chainOf (own q.device specs) := by
            rw [← hcells]
            simp
          exact (mem_chainOf_own hmem).2
        have hhost : HostReads ((walkedState s last).memory last).myProtocol q.optionText := by
          rw [hmemory]
          have hreads := (hsafe hmac).1
          rw [target_walk hcells] at hreads
          exact hreads
        obtain ⟨s', hplace, hset, hframe, halloc, hfreed, hkept⟩ :=
          place_mac_node gethostbyname hwf hmac hfind rfl hlast (by rw [hmemory]; exact hdevice)
            hhost
        refine ⟨s', _, hplace, h.mac_last hi hlocs hlinked hcells hmac hwalk ?_ ?_ halloc hfreed
          hkept⟩
        · rw [hset, hmemory, ← settle_cell, ← settle_cell (s.memory last)]
          rfl
        · intro other hne hnew
          rw [hframe other hne hnew, walkedState_memory_other s hne hnew]
  · obtain ⟨i, hi, hfind, hstep, hprotocol⟩ := h.find_fixed hle hwalk
    have hholds := h.write_entry hi hstep hwalk
    cases hmac : q.isMac with
    | false => exact ⟨_, _, place_address gethostbyname hwf hmac hfind, hholds⟩
    | true =>
        obtain ⟨hreads, hkept⟩ := hsafe hmac
        have hnone := ointerface_none h (hkept.resolve_left hwalk)
        rw [← hprotocol] at hreads
        exact ⟨_, _, place_mac gethostbyname hwf hmac hfind hnone hreads, hholds⟩

/-- A MAC that is not safe ends the loop. -/
theorem place_unsafe (h : Holds s specs nodes) (hwf : q.WellFormed)
    (hle : (devices (specs ++ [q])).length ≤ 8) (hfatal : ¬ Safe specs q) :
    ∃ fault, s.place gethostbyname q.device q.kind.text q.options = .error fault := by
  unfold Safe at hfatal
  rw [Classical.not_imp] at hfatal
  obtain ⟨hmac, hbad⟩ := hfatal
  by_cases hwalk : Walks specs q
  · obtain ⟨i, front, last, hi, hlocs, -, hcells, hfind⟩ := h.find_walk hle hwalk
    have hlast : last ≠ .node s.allocated := h.fresh (j := i) (by simp [hlocs])
    have hmemory := walkedState_memory_last s hlast
    obtain ⟨fault, hfault⟩ := (hostReads_or (target specs q).myProtocol q.optionText).resolve_left
      fun hreads => hbad ⟨hreads, Or.inl hwalk⟩
    rw [target_walk hcells] at hfault
    exact ⟨fault, place_mac_node_unread gethostbyname hwf hmac hfind rfl hlast
      (by rw [hmemory]; exact hfault)⟩
  · obtain ⟨i, hi, hfind, -, hprotocol⟩ := h.find_fixed hle hwalk
    by_cases hwalked : Walked specs
    · exact ⟨_, place_mac_table gethostbyname hwf hmac hfind (h.kept.mpr hwalked)⟩
    · obtain ⟨fault, hfault⟩ := (hostReads_or (target specs q).myProtocol
        q.optionText).resolve_left fun hreads => hbad ⟨hreads, Or.inr hwalked⟩
      rw [← hprotocol] at hfault
      exact ⟨fault, place_mac_unread gethostbyname hwf hmac hfind (ointerface_none h hwalked)
        hfault⟩

end Step

end Configuration
