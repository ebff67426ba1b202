import Mathlib
import OsxVlm.Configuration.OptionsExact

/-!
# The address string that Genera is given

`makeAddressString` prints the table in the form of the option.  It comes to the first
seven entries only, and `InterpretNetworkOptions` reads back what it prints unless a name
or an address is one that the option cannot have.
-/

namespace Configuration

open CText LinkedChain

def posixArgMax : Nat := 4096

def defaultInterface : List Char := ['t', 'a', 'p', '0']

/-- A byte as `%02x`. -/
def hexByte (b : Nat) : List Char :=
  [b / 16 % 16, b % 16].map fun d => if d < 10 then Char.ofNat (48 + d) else Char.ofNat (87 + d)

def deviceText (r : NetworkInterface) : List Char :=
  if r.device = [] then defaultInterface else r.device

/-- The address in the form of its protocol, and nothing for another one. -/
def addressText (r : NetworkInterface) : List Char :=
  if r.myProtocol = ethIp then internetKeyword ++ inetNtoa (ntohl r.myAddress)
  else if r.myProtocol = ethChaos then chaosKeyword ++ numeral 8 (ntohl r.myAddress)
  else []

def interfaceText (r : NetworkInterface) : List Char :=
  deviceText r ++ ':' ::
    ((if r.haveMac then
        macKeyword ++ [':'].intercalate (r.myMac.map hexByte) ++ ',' :: (deviceText r ++ [':'])
      else []) ++ addressText r ++
      (if r.myOptions = [] then [] else ';' :: r.myOptions))

/-- The interfaces from a place on, as far as they are present. -/
def presentFrom (memory : Loc → NetworkInterface) : Nat → Loc → List NetworkInterface
  | 0, _ => []
  | fuel + 1, loc =>
      if (memory loc).present then
        memory loc ::
          (match (memory loc).anotherAddress with
          | none => []
          | some next => presentFrom memory fuel next)
      else []

/-- The interfaces that the two loops come to. -/
def printed (s : State) : List NetworkInterface :=
  (List.range 7).flatMap fun i => presentFrom s.memory (s.allocated + 1) (.table i)

/-- `interim` has room for nine digits, and `result` for its array. -/
def makeAddressString (s : State) : Except Fault (List Char) :=
  let text := [','].intercalate ((printed s).map interfaceText)
  if (printed s).any fun r =>
      decide (r.myProtocol = ethChaos ∧ 10 ≤ (numeral 8 (ntohl r.myAddress)).length) then
    .error .overflow
  else if text.length < posixArgMax then .ok text
  else .error .overflow

/-! ### Tables of addresses -/

/-- An Internet address, or a Chaos address of 16 bits, and no MAC. -/
structure IsAddress (r : NetworkInterface) : Prop where
  present : r.present = true
  no_mac : r.haveMac = false
  addr : r.myProtocol = ethIp ∧ r.myAddress < 2 ^ 32 ∨
    r.myProtocol = ethChaos ∧ ∃ a < 2 ^ 16, r.myAddress = ntohl a
  options_clean : ',' ∉ r.myOptions
  options_fit : r.myOptions.length ≤ posixPathMax
  device_fits : r.device.length ≤ posixPathMax

/-- Every present entry has a name of its own and a chain of addresses under that name. -/
structure Configured (s : State) : Prop where
  named : ∀ i < maxNetworkInterfaces, (s.memory (.table i)).present = true →
    (s.memory (.table i)).device ≠ []
  distinct : ∀ i < maxNetworkInterfaces, ∀ j < maxNetworkInterfaces,
    (s.memory (.table i)).present = true → (s.memory (.table j)).present = true →
      (s.memory (.table i)).device = (s.memory (.table j)).device → i = j
  ends : ∀ i < maxNetworkInterfaces, (s.memory (.table i)).present = true →
    Linked NetworkInterface.anotherAddress s.memory (s.chain i)
  addresses : ∀ i < maxNetworkInterfaces, (s.memory (.table i)).present = true →
    ∀ loc ∈ s.chain i, IsAddress (s.memory loc) ∧
      (s.memory loc).device = (s.memory (.table i)).device

/-- The protocol, the address and the options of an interface. -/
def summary (r : NetworkInterface) : Nat × Nat × List Char :=
  (r.myProtocol, r.myAddress, r.myOptions)

def presentEntries (s : State) (n : Nat) : List Nat :=
  (List.range n).filter fun i => (s.memory (.table i)).present

/-- The table as it is read: the devices in order, each with its chain. -/
def entries (s : State) : List (List Char × List (Nat × Nat × List Char)) :=
  (presentEntries s maxNetworkInterfaces).map fun i =>
    ((s.memory (.table i)).device, (s.chain i).map fun loc => summary (s.memory loc))

/-- The names that an option can have. -/
def CleanName (device : List Char) : Prop := ',' ∉ device ∧ ':' ∉ device ∧ ';' ∉ device

instance (device : List Char) : Decidable (CleanName device) :=
  inferInstanceAs (Decidable (_ ∧ _ ∧ _))

/-- An interface whose text is read back. -/
structure ReadsBack (r : NetworkInterface) : Prop where
  name : CleanName r.device
  addr : r.myProtocol = ethIp → r.myAddress ≠ 2 ^ 32 - 1
  host : HostReads r.myProtocol r.myOptions

/-- The tables that come back: at most seven entries, the eighth of the table not among
them, every interface readable, and room for the text. -/
structure Printable (s : State) : Prop where
  last : (s.memory (.table 7)).present = false
  interfaces : ∀ r ∈ printed s, ReadsBack r
  fits : ([','].intercalate ((printed s).map interfaceText)).length < posixArgMax

def kindOf (r : NetworkInterface) : Kind :=
  if r.myProtocol = ethIp then .internet (inetNtoa (ntohl r.myAddress))
  else .chaos (numeral 8 (ntohl r.myAddress))

/-- The specification that an interface is printed as. -/
def specOf (r : NetworkInterface) : Spec :=
  ⟨r.device, kindOf r, if r.myOptions = [] then none else some r.myOptions⟩

section Spec

variable {r : NetworkInterface}

theorem specOf_optionText (r : NetworkInterface) : (specOf r).optionText = r.myOptions := by
  unfold Spec.optionText specOf
  by_cases h : r.myOptions = [] <;> simp [h]

theorem kindOf_ip (h : r.myProtocol = ethIp) :
    kindOf r = .internet (inetNtoa (ntohl r.myAddress)) := if_pos h

theorem kindOf_chaos (h : r.myProtocol = ethChaos) :
    kindOf r = .chaos (numeral 8 (ntohl r.myAddress)) := by
  refine if_neg ?_
  rw [h]
  decide

theorem specOf_isMac (r : NetworkInterface) : (specOf r).isMac = false := by
  unfold Spec.isMac specOf kindOf
  by_cases h : r.myProtocol = ethIp <;> simp [h]

theorem specOf_protocol (h : IsAddress r) : (specOf r).protocol = r.myProtocol := by
  rcases h.addr with ⟨hip, -⟩ | ⟨hchaos, -⟩
  · simp [Spec.protocol, specOf, kindOf_ip hip, hip]
  · simp [Spec.protocol, specOf, kindOf_chaos hchaos, hchaos]

theorem interfaceText_eq (h : IsAddress r) (hname : r.device ≠ []) :
    interfaceText r = (specOf r).text := by
  have haddress : addressText r = (specOf r).kind.text := by
    rcases h.addr with ⟨hip, -⟩ | ⟨hchaos, -⟩
    · simp [addressText, specOf, kindOf_ip hip, hip, Kind.text]
    · have hne : ¬ ethChaos = ethIp := by decide
      simp [addressText, specOf, kindOf_chaos hchaos, hchaos, hne, Kind.text]
  have hoptions : (if r.myOptions = [] then [] else ';' :: r.myOptions) =
      (specOf r).options.elim [] (fun o => ';' :: o) := by
    unfold specOf
    by_cases h : r.myOptions = [] <;> simp [h]
  rw [interfaceText, Spec.text, ← haddress, ← hoptions, deviceText, if_neg hname, h.no_mac]
  simp [specOf]

theorem notMem_numeral {ch : Char} {base n : Nat} (hbase : 1 < base) (hten : base ≤ 10)
    (hch : ch.isDigit = false) : ch ∉ numeral base n := by
  intro h
  obtain ⟨d, hd, rfl⟩ := mem_numeral hbase h
  have hten' : d < 10 := by omega
  interval_cases d <;> simp at hch

/-- A separator is in no keyword and in no number. -/
theorem notMem_kindText {ch : Char} (hdigit : ch.isDigit = false) (hdot : ch ≠ '.')
    (hip : ch ∉ internetKeyword) (hchaos : ch ∉ chaosKeyword) (r : NetworkInterface) :
    ch ∉ (specOf r).kind.text := by
  have hnumeral : ∀ n, ch ∉ numeral 10 n := fun n =>
    notMem_numeral (by decide) (by decide) hdigit
  unfold specOf kindOf
  by_cases h : r.myProtocol = ethIp
  · simp [h, Kind.text, hip, inetNtoa, List.intercalate, hnumeral, hdot]
  · simp [h, Kind.text, hchaos, notMem_numeral (by decide : 1 < 8) (by decide : 8 ≤ 10) hdigit]

/-- An address is read back, but for the one that stands for none. -/
theorem specOf_reads (h : IsAddress r) :
    (specOf r).kind.Reads ↔ (r.myProtocol = ethIp → r.myAddress ≠ 2 ^ 32 - 1) := by
  rcases h.addr with ⟨hip, hlt⟩ | ⟨hchaos, a, ha, haddr⟩
  · have hback : ntohl (inetAddr (inetNtoa (ntohl r.myAddress))) = r.myAddress := by
      rw [inetAddr_inetNtoa (ntohl_lt _), ntohl_ntohl hlt]
    have hnone : ntohl inaddrNone = 2 ^ 32 - 1 := by decide
    simp only [specOf, kindOf_ip hip, Kind.Reads, hback, hnone, hip, forall_const]
  · have hne : ¬ ethChaos = ethIp := by decide
    have hsmall : ntohl r.myAddress < 2 ^ 64 := lt_trans (ntohl_lt _) (by decide)
    have hread : strtoul 8 (numeral 8 (ntohl r.myAddress) ++ []) = (ntohl r.myAddress, []) :=
      strtoul_octal hsmall (by simp)
    rw [List.append_nil] at hread
    simp [specOf, kindOf_chaos hchaos, Kind.Reads, hread, hchaos, hne]

theorem specOf_value (h : IsAddress r) :
    (specOf r).kind.value = .address r.myProtocol r.myAddress := by
  rcases h.addr with ⟨hip, hlt⟩ | ⟨hchaos, a, ha, haddr⟩
  · rw [specOf, kindOf_ip hip, Kind.value, inetAddr_inetNtoa (ntohl_lt _), ntohl_ntohl hlt, hip]
  · have hsmall : ntohl r.myAddress < 2 ^ 64 := lt_trans (ntohl_lt _) (by decide)
    have hread : strtoul 8 (numeral 8 (ntohl r.myAddress) ++ []) = (ntohl r.myAddress, []) :=
      strtoul_octal hsmall (by simp)
    rw [List.append_nil] at hread
    have hlt : r.myAddress < 2 ^ 32 := haddr ▸ ntohl_lt a
    rw [specOf, kindOf_chaos hchaos, Kind.value, hread, ntohl_ntohl hlt, hchaos]

theorem settle_summary (h : IsAddress r) : summary (settle .zero (specOf r)) = summary r := by
  simp [settle, specOf_value h, summary, specOf_optionText]

/-- No part of the text but the name can have a separator. -/
theorem specOf_clean (h : IsAddress r) (hname : CleanName r.device) : (specOf r).Clean where
  device_clean := hname
  kind_clean := ⟨notMem_kindText (by decide) (by decide) (by decide) (by decide) r,
    notMem_kindText (by decide) (by decide) (by decide) (by decide) r⟩
  options_clean := by
    rw [specOf_optionText]
    exact h.options_clean

theorem specOf_wellFormed (h : IsAddress r) (hback : ReadsBack r) : (specOf r).WellFormed where
  toClean := specOf_clean h hback.name
  device_fits := h.device_fits
  kind_reads := (specOf_reads h).mpr hback.addr
  options_fit := by
    rw [specOf_optionText]
    exact h.options_fit
  host_reads := by
    rw [specOf_protocol h, specOf_optionText]
    exact hback.host

end Spec

/-! ### The specifications of a table -/

section Blocks

variable {name : Nat → List Char} {block : Nat → List Spec}

theorem devices_append_block {before specs : List Spec} {d : List Char} (hne : specs ≠ [])
    (hd : ∀ q ∈ specs, q.device = d) (hnew : d ∉ devices before) :
    devices (before ++ specs) = devices before ++ [d] := by
  induction specs using List.reverseRecOn with
  | nil => exact absurd rfl hne
  | append_singleton specs q ih =>
      have hq : q.device = d := hd q (by simp)
      rw [← List.append_assoc, devices_concat, hq]
      by_cases hspecs : specs = []
      · subst hspecs
        simp [hnew]
      · rw [ih hspecs fun p hp => hd p (by simp [hp])]
        simp

/-- Specifications in blocks, each of a device of its own. -/
theorem devices_flatMap (is : List Nat) (hne : ∀ i ∈ is, block i ≠ [])
    (hname : ∀ i ∈ is, ∀ q ∈ block i, q.device = name i) (hnodup : (is.map name).Nodup) :
    devices (is.flatMap block) = is.map name := by
  induction is using List.reverseRecOn with
  | nil => rfl
  | append_singleton is i ih =>
      have hfront := ih (fun j hj => hne j (by simp [hj])) (fun j hj => hname j (by simp [hj]))
        (by
          rw [List.map_append] at hnodup
          exact (List.nodup_append.mp hnodup).1)
      have hnew : name i ∉ is.map name := by
        rw [List.map_append] at hnodup
        exact fun hmem => (List.nodup_append.mp hnodup).2.2 _ hmem _ (by simp) rfl
      rw [List.flatMap_append, List.flatMap_singleton, List.map_append, List.map_singleton,
        devices_append_block (hne i (by simp)) (hname i (by simp)) (by rwa [hfront]), hfront]

theorem own_flatMap (is : List Nat) (hname : ∀ i ∈ is, ∀ q ∈ block i, q.device = name i)
    (hnodup : (is.map name).Nodup) {i : Nat} (hi : i ∈ is) :
    own (name i) (is.flatMap block) = block i := by
  induction is with
  | nil => simp at hi
  | cons j is ih =>
      rw [List.map_cons, List.nodup_cons] at hnodup
      rw [List.flatMap_cons, own, List.filter_append]
      rcases List.mem_cons.mp hi with rfl | hi
      · have hself : (block i).filter (·.device = name i) = block i :=
          List.filter_eq_self.mpr fun q hq => by simpa using hname i (by simp) q hq
        have hrest : (is.flatMap block).filter (·.device = name i) = [] := by
          refine List.filter_eq_nil_iff.mpr fun q hq => ?_
          obtain ⟨k, hk, hqk⟩ := List.mem_flatMap.mp hq
          have hqname := hname k (by simp [hk]) q hqk
          simp only [decide_eq_true_eq]
          exact fun heq => hnodup.1 (List.mem_map.mpr ⟨k, hk, hqname.symm.trans heq⟩)
        rw [hself, hrest, List.append_nil]
      · have hother : (block j).filter (·.device = name i) = [] := by
          refine List.filter_eq_nil_iff.mpr fun q hq => ?_
          have hqname := hname j (by simp) q hq
          simp only [decide_eq_true_eq]
          exact fun heq => hnodup.1 (List.mem_map.mpr ⟨i, hi, heq.symm.trans hqname⟩)
        rw [hother, List.nil_append]
        exact ih (fun k hk => hname k (by simp [hk])) hnodup.2 hi

end Blocks

section Table

variable {s : State}

theorem chain_cons (s : State) (i : Nat) :
    ∃ ls, s.chain i = .table i :: ls ∧ ls.length < s.allocated + 1 := by
  have hlength : ∀ (fuel : Nat) (loc : Loc),
      (places NetworkInterface.anotherAddress s.memory fuel loc).length ≤ fuel := by
    intro fuel
    induction fuel with
    | zero => exact fun loc => le_rfl
    | succ fuel ih =>
        intro loc
        rw [places]
        split
        · simp
        · next next hnext => simpa using ih next
  have hle := hlength (s.allocated + 1) (.table i)
  unfold State.chain
  rw [places] at hle ⊢
  cases hnext : (s.memory (.table i)).anotherAddress with
  | none => exact ⟨[], rfl, by simp⟩
  | some next =>
      rw [hnext] at hle
      exact ⟨_, rfl, by simpa using hle⟩

theorem presentFrom_eq {memory : Loc → NetworkInterface} {loc : Loc} {ls : List Loc}
    (h : Linked NetworkInterface.anotherAddress memory (loc :: ls))
    (hpresent : ∀ l ∈ loc :: ls, (memory l).present = true) {fuel : Nat}
    (hfuel : ls.length < fuel) : presentFrom memory fuel loc = (loc :: ls).map memory := by
  induction ls generalizing loc fuel with
  | nil =>
      obtain ⟨fuel, rfl⟩ := Nat.exists_eq_add_one_of_ne_zero (show fuel ≠ 0 by omega)
      have hend : (memory loc).anotherAddress = none := h
      simp [presentFrom, hpresent loc (by simp), hend]
  | cons next ls ih =>
      obtain ⟨fuel, rfl⟩ := Nat.exists_eq_add_one_of_ne_zero (show fuel ≠ 0 by omega)
      simp only [List.length_cons] at hfuel
      have htail := ih h.2 (fun l hl => hpresent l (by simp [hl])) (show ls.length < fuel by omega)
      simp [presentFrom, hpresent loc (by simp), h.1, htail]

theorem mem_presentEntries {n i : Nat} :
    i ∈ presentEntries s n ↔ i < n ∧ (s.memory (.table i)).present = true := by
  simp [presentEntries]

/-- The specifications of the first entries of a table. -/
def tableSpecs (s : State) (n : Nat) : List Spec :=
  (presentEntries s n).flatMap fun i => (s.chain i).map fun loc => specOf (s.memory loc)

theorem flatMap_present {α : Type*} (p : Nat → Bool) (f g : Nat → List α) (is : List Nat)
    (hpos : ∀ i ∈ is, p i = true → f i = g i) (hneg : ∀ i ∈ is, p i = false → f i = []) :
    is.flatMap f = (is.filter p).flatMap g := by
  induction is with
  | nil => rfl
  | cons i is ih =>
      have htail := ih (fun j hj => hpos j (by simp [hj])) (fun j hj => hneg j (by simp [hj]))
      cases hp : p i with
      | false => simp [hp, hneg i (by simp) hp, htail]
      | true => simp [hp, hpos i (by simp) hp, htail]

theorem Configured.printed_eq (h : Configured s) :
    printed s = (presentEntries s 7).flatMap fun i => (s.chain i).map s.memory := by
  refine flatMap_present _ _ _ _ (fun i hi hpresent => ?_) (fun i hi habsent => ?_)
  · have hi' : i < maxNetworkInterfaces :=
      lt_trans (List.mem_range.mp hi) (by decide)
    obtain ⟨ls, hchain, hlength⟩ := chain_cons s i
    have hends := h.ends i hi' hpresent
    have haddresses := h.addresses i hi' hpresent
    rw [hchain] at hends haddresses ⊢
    exact presentFrom_eq hends (fun l hl => (haddresses l hl).1.present) hlength
  · simp [presentFrom, habsent]

theorem Configured.map_specOf (h : Configured s) :
    (printed s).map specOf = tableSpecs s 7 := by
  rw [h.printed_eq, List.map_flatMap, tableSpecs]
  simp only [List.map_map]
  rfl

/-- The interfaces that are printed are addresses with a name. -/
theorem Configured.mem_printed (h : Configured s) {r : NetworkInterface} (hr : r ∈ printed s) :
    IsAddress r ∧ r.device ≠ [] := by
  rw [h.printed_eq] at hr
  obtain ⟨i, hi, hri⟩ := List.mem_flatMap.mp hr
  obtain ⟨loc, hloc, rfl⟩ := List.mem_map.mp hri
  obtain ⟨hlt, hpresent⟩ := mem_presentEntries.mp hi
  have hlt' : i < maxNetworkInterfaces := lt_trans hlt (by decide)
  obtain ⟨haddress, hdevice⟩ := h.addresses i hlt' hpresent loc hloc
  exact ⟨haddress, by rw [hdevice]; exact h.named i hlt' hpresent⟩

theorem Configured.text_eq (h : Configured s) :
    [','].intercalate ((printed s).map interfaceText) = listText (tableSpecs s 7) := by
  rw [listText, ← h.map_specOf, List.map_map]
  refine congrArg _ (List.map_congr_left fun r hr => ?_)
  obtain ⟨haddress, hname⟩ := h.mem_printed hr
  exact interfaceText_eq haddress hname

theorem Configured.nodup_names (h : Configured s) {n : Nat} (hn : n ≤ maxNetworkInterfaces) :
    ((presentEntries s n).map fun i => (s.memory (.table i)).device).Nodup := by
  refine List.Nodup.map_on ?_ (List.nodup_range.filter _)
  intro i hi j hj heq
  obtain ⟨hi', hpi⟩ := mem_presentEntries.mp hi
  obtain ⟨hj', hpj⟩ := mem_presentEntries.mp hj
  exact h.distinct i (by omega) j (by omega) hpi hpj heq

theorem Configured.devices_eq (h : Configured s) {n : Nat} (hn : n ≤ maxNetworkInterfaces) :
    devices (tableSpecs s n) =
      (presentEntries s n).map fun i => (s.memory (.table i)).device := by
  refine devices_flatMap _ (fun i _ => ?_) (fun i hi q hq => ?_) (h.nodup_names hn)
  · obtain ⟨ls, hchain, -⟩ := chain_cons s i
    simp [hchain]
  · obtain ⟨hi', hpi⟩ := mem_presentEntries.mp hi
    obtain ⟨loc, hloc, rfl⟩ := List.mem_map.mp hq
    exact (h.addresses i (by omega) hpi loc hloc).2

theorem Configured.own_eq (h : Configured s) {n i : Nat} (hn : n ≤ maxNetworkInterfaces)
    (hi : i ∈ presentEntries s n) :
    own (s.memory (.table i)).device (tableSpecs s n) =
      (s.chain i).map fun loc => specOf (s.memory loc) := by
  have hname : ∀ j ∈ presentEntries s n, ∀ q ∈ (s.chain j).map fun loc => specOf (s.memory loc),
      q.device = (s.memory (.table j)).device := by
    intro j hj q hq
    obtain ⟨hj', hpj⟩ := mem_presentEntries.mp hj
    obtain ⟨loc, hloc, rfl⟩ := List.mem_map.mp hq
    exact (h.addresses j (by omega) hpj loc hloc).2
  exact own_flatMap _ hname (h.nodup_names hn) hi

end Table

/-! ### Reading the text back -/

section Back

variable {s s' : State} {specs : List Spec} {nodes : Nat → List Nat} {q : Spec}
  (gethostbyname : List Char → Option Nat)

theorem filter_range_lt {n k : Nat} (h : k ≤ n) :
    (List.range n).filter (fun i => decide (i < k)) = List.range k := by
  obtain ⟨m, rfl⟩ := Nat.exists_eq_add_of_le h
  rw [List.range_add, List.filter_append]
  have hfirst : (List.range k).filter (fun i => decide (i < k)) = List.range k :=
    List.filter_eq_self.mpr (by simp)
  have hrest : ((List.range m).map (k + ·)).filter (fun i => decide (i < k)) = [] :=
    List.filter_eq_nil_iff.mpr (by simp)
  rw [hfirst, hrest, List.append_nil]

/-- The table that the loop leaves, device by device. -/
theorem Holds.entries_eq (h : Holds s specs nodes) (hle : (devices specs).length ≤ 8) :
    entries s = (devices specs).map fun d => (d, (chainOf (own d specs)).map summary) := by
  have hpresent : presentEntries s maxNetworkInterfaces = List.range (devices specs).length := by
    have hiff : ∀ i, (s.memory (.table i)).present = decide (i < (devices specs).length) := by
      intro i
      by_cases hlt : i < (devices specs).length
      · simpa [hlt] using (h.entry (List.getElem?_eq_getElem hlt)).2.1
      · rw [(h.unused i (by omega)).1]
        simp [hlt, NetworkInterface.zero]
    rw [presentEntries, List.filter_congr fun i _ => hiff i]
    exact filter_range_lt hle
  rw [entries, hpresent]
  apply List.ext_getElem (by simp)
  intro i hi hi'
  have hlt : i < (devices specs).length := by simpa using hi
  have hat : (devices specs)[i]? = some (devices specs)[i] := List.getElem?_eq_getElem hlt
  have hcells := congrArg (List.map summary) (h.cells i _ hat)
  rw [List.map_map] at hcells
  simp only [List.getElem_map, List.getElem_range, Prod.mk.injEq]
  refine ⟨(h.entry hat).2.2, ?_⟩
  rw [h.chain_eq hat, ← hcells]
  rfl

theorem Configured.back (h : Configured s) (hback : ∀ r ∈ printed s, ReadsBack r) :
    ∃ s', interpretNetworkOptions gethostbyname (some (listText (tableSpecs s 7))) = .ok s' ∧
      entries s' = (presentEntries s 7).map fun i =>
        ((s.memory (.table i)).device, (s.chain i).map fun loc => summary (s.memory loc)) := by
  have hseven : 7 ≤ maxNetworkInterfaces := by decide
  have hspecs : ∀ q ∈ tableSpecs s 7, q.WellFormed ∧ q.isMac = false := by
    rw [← h.map_specOf]
    intro q hq
    obtain ⟨r, hr, rfl⟩ := List.mem_map.mp hq
    exact ⟨specOf_wellFormed (h.mem_printed hr).1 (hback r hr), specOf_isMac r⟩
  have hle : (devices (tableSpecs s 7)).length ≤ 8 := by
    rw [h.devices_eq hseven, List.length_map]
    exact (List.length_filter_le _ _).trans (by simp)
  have hsafe : AllSafe [] (tableSpecs s 7) := by
    intro front q after heq hmac
    have hq := (hspecs q (by simp [heq])).2
    rw [hq] at hmac
    cases hmac
  obtain ⟨s', nodes, hrun, hholds⟩ := (interpretFrom_listText gethostbyname _ [] State.initial _
    initial_holds (fun q hq => (hspecs q hq).1) hle).1 hsafe
  refine ⟨s', hrun, ?_⟩
  rw [List.nil_append] at hholds
  rw [hholds.entries_eq hle, h.devices_eq hseven, List.map_map]
  refine List.map_congr_left fun i hi => ?_
  obtain ⟨hlt, hpresent⟩ := mem_presentEntries.mp hi
  have hlt' : i < maxNetworkInterfaces := lt_trans hlt (by decide)
  simp only [Function.comp_apply, Prod.mk.injEq, true_and]
  rw [h.own_eq hseven hi, chainOf_addresses (by simp [specOf_isMac]), List.map_map, List.map_map]
  exact List.map_congr_left fun loc hloc => settle_summary (h.addresses i hlt' hpresent loc hloc).1

/-! ### What the text must be like -/

theorem bind_ok {α β : Type} {x : Except Fault α} {f : α → Except Fault β} {b : β}
    (h : x >>= f = .ok b) : ∃ a, x = .ok a ∧ f a = .ok b := by
  cases x with
  | error fault => cases h
  | ok a => exact ⟨a, rfl, h⟩

/-- An address that was taken down could be read. -/
theorem readValue_reads {v : Value} {k : Kind} (hmac : ∀ t, k ≠ .mac t)
    (h : readValue gethostbyname k.text = .ok v) : k.Reads := by
  cases k with
  | internet t =>
      by_contra hno
      have heq : ntohl (inetAddr t) = ntohl inaddrNone := by simpa [Kind.Reads] using hno
      rw [readValue, Kind.text, afterMac_internet] at h
      dsimp only at h
      rw [afterChaos_internet, afterKeyword_self, Option.some_or] at h
      dsimp only at h
      rw [readInternet, if_pos heq] at h
      cases h
  | chaos t =>
      by_contra hno
      have hne : ¬ (strtoul 8 t).2 = [] := hno
      rw [readValue, Kind.text, afterMac_chaos] at h
      dsimp only at h
      rw [afterKeyword_self, Option.some_or] at h
      dsimp only at h
      rw [readChaos] at h
      dsimp only at h
      rw [if_neg hne] at h
      cases h
  | mac t => exact absurd rfl (hmac t)

theorem place_reads (hmac : q.isMac = false) (hfit : q.optionText.length ≤ posixPathMax)
    (h : s.place gethostbyname q.device q.kind.text q.options = .ok s') :
    q.kind.Reads ∧ HostReads q.protocol q.optionText := by
  obtain ⟨⟨s₁, loc⟩, -, h⟩ := bind_ok h
  obtain ⟨s₂, -, h⟩ := bind_ok h
  obtain ⟨v, hv, h⟩ := bind_ok h
  have hreads : q.kind.Reads := by
    refine readValue_reads gethostbyname (fun t ht => ?_) hv
    simp [Spec.isMac, ht] at hmac
  obtain ⟨protocol, addr, hvalue, hprotocol⟩ : ∃ protocol addr,
      q.kind.value = .address protocol addr ∧ q.protocol = protocol := by
    cases hkind : q.kind with
    | internet text => exact ⟨_, _, rfl, by simp [Spec.protocol, hkind]⟩
    | chaos text => exact ⟨_, _, rfl, by simp [Spec.protocol, hkind]⟩
    | mac text => simp [Spec.isMac, hkind] at hmac
  rw [readValue_text gethostbyname hreads, hvalue] at hv
  obtain rfl := Except.ok.inj hv
  refine ⟨hreads, ?_⟩
  rw [hprotocol]
  rcases hostReads_or protocol q.optionText with hhost | ⟨fault, hfault⟩
  · exact hhost
  · obtain ⟨⟨s₃, loc'⟩, hrecord, h⟩ := bind_ok h
    obtain ⟨rfl, rfl⟩ := Prod.mk.inj (Except.ok.inj hrecord)
    dsimp only at h
    rw [finish_eq _ _ hfit, write_memory_self, hfault] at h
    cases h

/-- A text that is read to its end has parts that can all be read. -/
theorem interpretFrom_reads (hspecs : ∀ q ∈ specs, q.Clean ∧ q.isMac = false ∧
      q.optionText.length ≤ posixPathMax) :
    ∀ s : State, s.interpretFrom gethostbyname (listText specs) = .ok s' →
      ∀ q ∈ specs, q.kind.Reads ∧ HostReads q.protocol q.optionText := by
  induction specs with
  | nil => simp
  | cons q specs ih =>
      intro s hrun
      obtain ⟨hclean, hmac, hfit⟩ := hspecs q (by simp)
      rw [interpretFrom_cons gethostbyname s hclean] at hrun
      cases hplace : s.place gethostbyname q.device q.kind.text q.options with
      | error fault =>
          rw [hplace] at hrun
          cases hrun
      | ok t =>
          rw [hplace] at hrun
          have htail := ih (fun p hp => hspecs p (by simp [hp])) t hrun
          exact List.forall_mem_cons.mpr ⟨place_reads gethostbyname hmac hfit hplace, htail⟩

end Back

/-! ### Names -/

section Names

variable {s s' : State} (gethostbyname : List Char → Option Nat)

/-- No interface has a name with a separator. -/
def CleanState (s : State) : Prop := ∀ loc, CleanName (s.memory loc).device

theorem CleanState.write (h : CleanState s) {loc : Loc} {f : NetworkInterface → NetworkInterface}
    (hf : ∀ r : NetworkInterface, CleanName r.device → CleanName (f r).device) :
    CleanState (s.write loc f) := by
  intro other
  by_cases heq : other = loc
  · rw [heq, write_memory_self]
    exact hf _ (h loc)
  · rw [write_memory_other s f heq]
    exact h other

theorem cleanName_nil : CleanName [] := by decide

theorem CleanState.findInterface (h : CleanState s) {device : List Char} {loc : Loc}
    (hfind : s.findInterface device = .ok (s', loc)) : CleanState s' := by
  unfold State.findInterface at hfind
  split at hfind
  · cases hfind
  · split_ifs at hfind
    · split at hfind
      · cases hfind
      · obtain ⟨rfl, rfl⟩ := Prod.mk.inj (Except.ok.inj hfind)
        have hlinked : CleanState (s.write ‹Loc› fun r =>
            { r with anotherAddress := some (.node s.allocated) }) := h.write fun r hr => hr
        have hnew : CleanState ((s.write ‹Loc› fun r =>
            { r with anotherAddress := some (.node s.allocated) }).write (.node s.allocated)
              fun _ => .zero) := hlinked.write fun _ _ => cleanName_nil
        exact hnew
    · obtain ⟨rfl, rfl⟩ := Prod.mk.inj (Except.ok.inj hfind)
      exact h

theorem CleanState.record (h : CleanState s) {loc loc' : Loc} {v : Value}
    (hrecord : s.record loc v = .ok (s', loc')) : CleanState s' := by
  cases v with
  | address protocol addr =>
      obtain ⟨rfl, rfl⟩ := Prod.mk.inj (Except.ok.inj hrecord)
      exact h.write fun r hr => hr
  | mac bytes =>
      obtain ⟨⟨t, o⟩, hfree, hwrite⟩ := bind_ok hrecord
      obtain ⟨rfl, rfl⟩ := Prod.mk.inj (Except.ok.inj hwrite)
      have ht : CleanState t := by
        unfold State.macInterface at hfree
        cases hkept : s.ointerface with
        | none =>
            rw [hkept] at hfree
            obtain ⟨rfl, rfl⟩ := Prod.mk.inj (Except.ok.inj hfree)
            exact h
        | some p =>
            rw [hkept] at hfree
            obtain ⟨u, hu, hfree⟩ := bind_ok hfree
            obtain ⟨rfl, rfl⟩ := Prod.mk.inj (Except.ok.inj hfree)
            cases loc with
            | table i => cases hu
            | node n =>
                obtain rfl := Except.ok.inj hu
                exact h
      exact ht.write fun r hr => hr

theorem CleanState.finish (h : CleanState s) {loc : Loc} {options : Option (List Char)}
    (hfinish : s.finish loc options = .ok s') : CleanState s' := by
  obtain ⟨host, -, hwrite⟩ := bind_ok hfinish
  obtain rfl := Except.ok.inj hwrite
  exact h.write fun r hr => hr

theorem CleanState.place (h : CleanState s) {device value : List Char}
    {options : Option (List Char)} (hdevice : CleanName device)
    (hplace : s.place gethostbyname device value options = .ok s') : CleanState s' := by
  obtain ⟨⟨s₁, loc⟩, hfind, hplace⟩ := bind_ok hplace
  obtain ⟨s₂, hset, hplace⟩ := bind_ok hplace
  obtain ⟨v, -, hplace⟩ := bind_ok hplace
  obtain ⟨⟨s₃, loc'⟩, hrecord, hplace⟩ := bind_ok hplace
  have h₁ := h.findInterface hfind
  have h₂ : CleanState s₂ := by
    unfold State.setDevice at hset
    split_ifs at hset
    obtain rfl := Except.ok.inj hset
    exact h₁.write fun _ _ => hdevice
  exact (h₂.record hrecord).finish hplace

/-- The name of a specification is what stands before its first colon. -/
theorem CleanState.interpretSpec (h : CleanState s) {spec : List Char} (hcomma : ',' ∉ spec)
    (hspec : s.interpretSpec gethostbyname spec = .ok s') : CleanState s' := by
  unfold State.interpretSpec at hspec
  split at hspec
  · next device rest hcut =>
      split_ifs at hspec with hsemicolon
      have hcolon : ':' ∉ device := by
        have := notMem_cut ':' spec
        rwa [hcut] at this
      have hsub : device ⊆ spec := by
        have := cut_subset ':' spec
        rwa [hcut] at this
      exact h.place gethostbyname ⟨fun hmem => hcomma (hsub hmem), hcolon, hsemicolon⟩ hspec
  · exact h.place gethostbyname cleanName_nil hspec

theorem CleanState.interpretFrom {text : List Char} (h : CleanState s)
    (hrun : s.interpretFrom gethostbyname text = .ok s') : CleanState s' := by
  fun_induction State.interpretFrom gethostbyname s text with
  | case1 s =>
      obtain rfl := Except.ok.inj hrun
      exact h
  | case2 s text hne fault hspec => cases hrun
  | case3 s text hne t hspec hcut =>
      obtain rfl := Except.ok.inj hrun
      exact h.interpretSpec gethostbyname (notMem_cut ',' text) hspec
  | case4 s text hne t hspec rest hcut ih =>
      exact ih (h.interpretSpec gethostbyname (notMem_cut ',' text) hspec) hrun

end Names

/-- The interfaces of an entry are printed under its name. -/
theorem Configured.device_printed {s : State} (h : Configured s) {r : NetworkInterface}
    (hr : r ∈ printed s) : ∃ e ∈ entries s, r.device = e.1 := by
  rw [h.printed_eq] at hr
  obtain ⟨i, hi, hri⟩ := List.mem_flatMap.mp hr
  obtain ⟨loc, hloc, rfl⟩ := List.mem_map.mp hri
  obtain ⟨hlt, hpresent⟩ := mem_presentEntries.mp hi
  have hlt' : i < maxNetworkInterfaces := lt_trans hlt (by decide)
  refine ⟨_, List.mem_map.mpr ⟨i, mem_presentEntries.mpr ⟨hlt', hpresent⟩, rfl⟩, ?_⟩
  exact (h.addresses i hlt' hpresent loc hloc).2

/-- A Chaos address of 16 bits fits where it is printed. -/
theorem Configured.no_overflow {s : State} (h : Configured s) :
    ((printed s).any fun r =>
      decide (r.myProtocol = ethChaos ∧ 10 ≤ (numeral 8 (ntohl r.myAddress)).length)) = false := by
  rw [List.any_eq_false]
  intro r hr
  simp only [decide_eq_true_eq, not_and, not_le]
  intro hchaos
  rcases (h.mem_printed hr).1.addr with ⟨hip, -⟩ | ⟨-, a, ha, haddr⟩
  · rw [hchaos] at hip
    exact absurd hip (by decide)
  · rw [haddr, ntohl_ntohl (lt_trans ha (by decide))]
    unfold numeral
    split
    · simp
    · have hlt : (Nat.digits 8 a).length ≤ 9 := (Nat.digits_length_le_iff (by decide) a).mpr
        (lt_trans ha (by decide))
      simpa using Nat.lt_succ_of_le hlt

theorem presentEntries_succ (s : State) (n : Nat) :
    presentEntries s (n + 1) =
      presentEntries s n ++ if (s.memory (.table n)).present then [n] else [] := by
  rw [presentEntries, List.range_succ, List.filter_append]
  cases hp : (s.memory (.table n)).present <;> simp [presentEntries, hp]

/-- **The address string parses back** exactly when the eighth entry is free, every name,
address and host can stand in the option, and the text fits. -/
theorem makeAddressString_exact (gethostbyname : List Char → Option Nat) (s : State)
    (h : Configured s) :
    (∃ text s', makeAddressString s = .ok text ∧
      interpretNetworkOptions gethostbyname (some text) = .ok s' ∧ entries s' = entries s) ↔
      Printable s := by
  have hentries : entries s =
      ((presentEntries s 7).map fun i =>
        ((s.memory (.table i)).device, (s.chain i).map fun loc => summary (s.memory loc))) ++
      if (s.memory (.table 7)).present then
        [((s.memory (.table 7)).device, (s.chain 7).map fun loc => summary (s.memory loc))]
      else [] := by
    rw [entries, show maxNetworkInterfaces = 7 + 1 from rfl, presentEntries_succ, List.map_append]
    cases (s.memory (.table 7)).present <;> rfl
  constructor
  · rintro ⟨text, s', htext, hrun, hsame⟩
    obtain ⟨hfits, rfl⟩ : ([','].intercalate ((printed s).map interfaceText)).length < posixArgMax ∧
        [','].intercalate ((printed s).map interfaceText) = text := by
      rw [makeAddressString, h.no_overflow] at htext
      simp only [Bool.false_eq_true, if_false] at htext
      split_ifs at htext with hfits
      exact ⟨hfits, Except.ok.inj htext⟩
    rw [h.text_eq] at hrun
    have hclean : CleanState s' :=
      CleanState.interpretFrom gethostbyname (fun _ => cleanName_nil) hrun
    have hname : ∀ r ∈ printed s, CleanName r.device := by
      intro r hr
      obtain ⟨e, he, hdevice⟩ := h.device_printed hr
      rw [← hsame] at he
      obtain ⟨i, -, rfl⟩ := List.mem_map.mp he
      rw [hdevice]
      exact hclean _
    have hreads : ∀ q ∈ tableSpecs s 7, q.kind.Reads ∧ HostReads q.protocol q.optionText := by
      refine interpretFrom_reads gethostbyname (fun q hq => ?_) State.initial hrun
      rw [← h.map_specOf] at hq
      obtain ⟨r, hr, rfl⟩ := List.mem_map.mp hq
      have haddress := (h.mem_printed hr).1
      exact ⟨specOf_clean haddress (hname r hr), specOf_isMac r, by
        rw [specOf_optionText]
        exact haddress.options_fit⟩
    have hback : ∀ r ∈ printed s, ReadsBack r := by
      intro r hr
      have haddress := (h.mem_printed hr).1
      obtain ⟨hkind, hhost⟩ := hreads (specOf r) (by
        rw [← h.map_specOf]
        exact List.mem_map.mpr ⟨r, hr, rfl⟩)
      rw [specOf_protocol haddress, specOf_optionText] at hhost
      exact ⟨hname r hr, (specOf_reads haddress).mp hkind, hhost⟩
    obtain ⟨t, hrun', ht⟩ := h.back gethostbyname hback
    obtain rfl := Except.ok.inj (hrun.symm.trans hrun')
    have hlength := congrArg List.length (ht.symm.trans (hsame.trans hentries))
    refine ⟨?_, hback, hfits⟩
    cases hlast : (s.memory (.table 7)).present with
    | false => rfl
    | true => simp [hlast] at hlength
  · rintro ⟨hlast, hback, hfits⟩
    obtain ⟨s', hrun, hs'⟩ := h.back gethostbyname hback
    rw [← h.text_eq] at hrun
    refine ⟨_, s', ?_, hrun, ?_⟩
    · rw [makeAddressString, h.no_overflow]
      simp only [Bool.false_eq_true, if_false, hfits, if_true]
    · rw [hs', hentries, hlast]
      simp

section Sample

/-- The Chaos address 401 under a name. -/
def chaosInterface (device : List Char) : NetworkInterface :=
  { NetworkInterface.zero with
    present := true
    device := device
    myProtocol := ethChaos
    myAddress := ntohl 0o401 }

theorem chaosInterface_isAddress {device : List Char} (h : device.length ≤ posixPathMax) :
    IsAddress (chaosInterface device) where
  present := rfl
  no_mac := rfl
  addr := Or.inr ⟨rfl, 0o401, by decide, rfl⟩
  options_clean := List.not_mem_nil
  options_fit := Nat.zero_le _
  device_fits := h

/-- A table of `n` entries, each with one address. -/
def chaosTable (n : Nat) : State :=
  { State.initial with
    memory := fun loc =>
      match loc with
      | .table i => if i < n then chaosInterface ('t' :: numeral 10 i) else .zero
      | .node _ => .zero }

theorem chaosTable_configured (n : Nat) : Configured (chaosTable n) := by
  have hpresent : ∀ i, ((chaosTable n).memory (.table i)).present = true → i < n := by
    intro i hi
    by_contra hge
    simp [chaosTable, hge, NetworkInterface.zero] at hi
  have hentry : ∀ i < n, (chaosTable n).memory (.table i) = chaosInterface ('t' :: numeral 10 i) := by
    intro i hi
    simp [chaosTable, hi]
  have hchain : ∀ i < n, (chaosTable n).chain i = [.table i] := by
    intro i hi
    simp [State.chain, places, hentry i hi, chaosInterface, NetworkInterface.zero]
  refine ⟨fun i _ hi => ?_, fun i _ j _ hi hj heq => ?_, fun i _ hi => ?_, fun i hlt hi => ?_⟩
  · rw [hentry i (hpresent i hi)]
    simp [chaosInterface]
  · rw [hentry i (hpresent i hi), hentry j (hpresent j hj)] at heq
    have hvalue := congrArg (value 10) (List.cons.inj heq).2
    rwa [value_numeral (by decide) le_rfl, value_numeral (by decide) le_rfl] at hvalue
  · rw [hchain i (hpresent i hi)]
    show ((chaosTable n).memory (.table i)).anotherAddress = none
    rw [hentry i (hpresent i hi)]
    rfl
  · rw [hchain i (hpresent i hi)]
    intro loc hloc
    obtain rfl := List.mem_singleton.mp hloc
    refine ⟨?_, rfl⟩
    rw [hentry i (hpresent i hi)]
    refine chaosInterface_isAddress ?_
    have hi' : i < 8 := hlt
    interval_cases i <;> decide

theorem makeAddressString_sample :
    ∃ text s', makeAddressString (chaosTable 7) = .ok text ∧
      interpretNetworkOptions (fun _ => none) (some text) = .ok s' ∧
      entries s' = entries (chaosTable 7) := by
  refine (makeAddressString_exact _ _ (chaosTable_configured 7)).mpr
    ⟨by decide, fun r hr => ?_, by decide +kernel⟩
  have hprinted : printed (chaosTable 7) =
      (List.range 7).map fun i => chaosInterface ('t' :: numeral 10 i) := by decide +kernel
  rw [hprinted] at hr
  obtain ⟨i, hi, rfl⟩ := List.mem_map.mp hr
  have hi' : i < 7 := List.mem_range.mp hi
  refine ⟨?_, fun hip => ?_, ⟨0, rfl⟩⟩
  · interval_cases i <;> decide +kernel
  · have hprotocol : ethChaos = ethIp := hip
    exact absurd hprotocol (by decide)

/-- Of eight entries the last is not in the string. -/
theorem makeAddressString_drops :
    ¬ ∀ s, Configured s → ∃ text s', makeAddressString s = .ok text ∧
      interpretNetworkOptions (fun _ => none) (some text) = .ok s' ∧ entries s' = entries s := by
  intro h
  obtain ⟨text, s', htext, hrun, hsame⟩ := h (chaosTable 8) (chaosTable_configured 8)
  have hcount : ((makeAddressString (chaosTable 8)).toOption.bind fun text =>
      (interpretNetworkOptions (fun _ => none) (some text)).toOption.map fun s' =>
        (entries s').length) = some 7 := by decide +kernel
  have hall : (entries (chaosTable 8)).length = 8 := by decide +kernel
  simp only [htext, hrun, Except.toOption, Option.bind_some, Option.map_some, hsame, hall] at hcount
  exact absurd hcount (by decide)

end Sample

end Configuration
