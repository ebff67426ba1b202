import Mathlib
import OsxVlm.Configuration.InterfaceTable

/-!
# When the option describes the table

`interpretFrom_listText` runs the loop over a list of well-formed specifications.
`good_iff` is about one device: what its chain loses when it has a MAC and more than
one address, or a MAC whose options are not those of the address.
`interpretNetworkOptions_exact` puts the two together.
-/

namespace Configuration

open CText LinkedChain

/-- The option: specifications with commas between them. -/
def listText (specs : List Spec) : List Char := [','].intercalate (specs.map Spec.text)

section Text

variable {q : Spec} (gethostbyname : List Char → Option Nat)

theorem comma_notMem_text (hclean : q.Clean) : ',' ∉ q.text := by
  intro h
  have hoptions := hclean.options_clean
  unfold Spec.text at h
  simp only [List.mem_append, List.mem_cons] at h
  rcases h with h | h | h | h
  · exact hclean.device_clean.1 h
  · exact absurd h (by decide)
  · exact hclean.kind_clean.1 h
  · unfold Spec.optionText at hoptions
    cases hopt : q.options with
    | none => simp [hopt] at h
    | some o =>
        rw [hopt] at h hoptions
        simp only [Option.elim_some, List.mem_cons] at h
        rcases h with h | h
        · exact absurd h (by decide)
        · exact hoptions h

theorem interpretSpec_text (s : State) (hclean : q.Clean) :
    s.interpretSpec gethostbyname q.text = s.place gethostbyname q.device q.kind.text q.options := by
  have hcolon : cut ':' q.text =
      (q.device, some (q.kind.text ++ (q.options.elim [] fun o => ';' :: o))) :=
    cut_append hclean.device_clean.2.1 _
  have hsemicolon : cut ';' (q.kind.text ++ (q.options.elim [] fun o => ';' :: o)) =
      (q.kind.text, q.options) := by
    cases hopt : q.options with
    | none => simpa using cut_of_notMem hclean.kind_clean.2
    | some o => exact cut_append hclean.kind_clean.2 o
  simp only [State.interpretSpec, hcolon, hclean.device_clean.2.2, if_false, hsemicolon]

theorem text_ne_nil (q : Spec) : q.text ≠ [] := by
  simp [Spec.text]

theorem listText_cons_cons (q p : Spec) (specs : List Spec) :
    listText (q :: p :: specs) = q.text ++ ',' :: listText (p :: specs) := by
  simp [listText, List.intercalate]

theorem interpretFrom_nil (s : State) : s.interpretFrom gethostbyname [] = .ok s := by
  rw [State.interpretFrom.eq_def, if_pos rfl]

theorem interpretFrom_last (s : State) {text : List Char} (hne : text ≠ [])
    (hcut : (cut ',' text).2 = none) :
    s.interpretFrom gethostbyname text = s.interpretSpec gethostbyname (cut ',' text).1 := by
  rw [State.interpretFrom.eq_def, if_neg hne]
  cases s.interpretSpec gethostbyname (cut ',' text).1 with
  | error fault => rfl
  | ok s =>
      dsimp only
      split <;> simp_all

theorem interpretFrom_more (s : State) {text rest : List Char} (hne : text ≠ [])
    (hcut : (cut ',' text).2 = some rest) :
    s.interpretFrom gethostbyname text =
      match s.interpretSpec gethostbyname (cut ',' text).1 with
      | .error fault => .error fault
      | .ok s => s.interpretFrom gethostbyname rest := by
  rw [State.interpretFrom.eq_def, if_neg hne]
  cases s.interpretSpec gethostbyname (cut ',' text).1 with
  | error fault => rfl
  | ok s =>
      dsimp only
      split <;> simp_all

/-- The loop places the first specification and goes on with the others. -/
theorem interpretFrom_cons (s : State) (hclean : q.Clean) (specs : List Spec) :
    s.interpretFrom gethostbyname (listText (q :: specs)) =
      match s.place gethostbyname q.device q.kind.text q.options with
      | .error fault => .error fault
      | .ok s => s.interpretFrom gethostbyname (listText specs) := by
  cases specs with
  | nil =>
      have htext : listText [q] = q.text := by simp [listText]
      have hcut := cut_of_notMem (comma_notMem_text hclean)
      rw [htext, interpretFrom_last gethostbyname s (text_ne_nil q) (by rw [hcut]), hcut,
        interpretSpec_text gethostbyname s hclean]
      cases s.place gethostbyname q.device q.kind.text q.options with
      | error fault => rfl
      | ok s => exact (interpretFrom_nil gethostbyname s).symm
  | cons p specs =>
      have hcut := cut_append (comma_notMem_text hclean) (listText (p :: specs))
      rw [listText_cons_cons, interpretFrom_more gethostbyname s (by simp) (by rw [hcut]), hcut,
        interpretSpec_text gethostbyname s hclean]

end Text

/-! ### The run -/

/-- Every MAC of the list is safe where it comes. -/
def AllSafe (before specs : List Spec) : Prop :=
  ∀ front q after, specs = front ++ q :: after → Safe (before ++ front) q

theorem allSafe_cons {before specs : List Spec} {q : Spec} :
    AllSafe before (q :: specs) ↔ Safe before q ∧ AllSafe (before ++ [q]) specs := by
  constructor
  · intro h
    refine ⟨by simpa using h [] q specs rfl, fun front p after heq => ?_⟩
    simpa using h (q :: front) p after (by simp [heq])
  · rintro ⟨hfirst, hrest⟩ front p after heq
    cases front with
    | nil =>
        obtain ⟨rfl, rfl⟩ := List.cons.inj heq
        simpa using hfirst
    | cons r front =>
        obtain ⟨rfl, heq'⟩ := List.cons.inj heq
        simpa using hrest front p after heq'

theorem devices_length_mono (before after : List Spec) :
    (devices before).length ≤ (devices (before ++ after)).length := by
  induction after using List.reverseRecOn with
  | nil => simp
  | append_singleton after q ih =>
      rw [← List.append_assoc, devices_concat]
      split
      · exact ih
      · simpa using Nat.le_succ_of_le ih

/-- The loop ends in memory that holds every chain, or in a fault where a MAC is unsafe. -/
theorem interpretFrom_listText (gethostbyname : List Char → Option Nat) (specs : List Spec) :
    ∀ (before : List Spec) (s : State) (nodes : Nat → List Nat), Holds s before nodes →
      (∀ q ∈ specs, q.WellFormed) → (devices (before ++ specs)).length ≤ 8 →
      (AllSafe before specs → ∃ s' nodes',
        s.interpretFrom gethostbyname (listText specs) = .ok s' ∧
          Holds s' (before ++ specs) nodes') ∧
      (¬ AllSafe before specs → ∃ fault,
        s.interpretFrom gethostbyname (listText specs) = .error fault) := by
  induction specs with
  | nil =>
      intro before s nodes hholds _ _
      have hend : s.interpretFrom gethostbyname (listText []) = .ok s := by
        rw [State.interpretFrom.eq_def]
        simp [listText]
      refine ⟨fun _ => ⟨s, nodes, hend, by simpa using hholds⟩, fun hfatal => ?_⟩
      exact absurd (fun front q after heq => by simp at heq) hfatal
  | cons q specs ih =>
      intro before s nodes hholds hwf hle
      have hassoc : before ++ q :: specs = before ++ [q] ++ specs := by simp
      have hq := hwf q (by simp)
      have hle' : (devices (before ++ [q])).length ≤ 8 :=
        (devices_length_mono _ specs).trans (hassoc ▸ hle)
      rw [allSafe_cons, interpretFrom_cons gethostbyname s hq.toClean]
      by_cases hsafe : Safe before q
      · obtain ⟨s', nodes', hplace, hholds'⟩ := place_safe gethostbyname hholds hq hle' hsafe
        obtain ⟨hok, herror⟩ :=
          ih _ s' nodes' hholds' (fun p hp => hwf p (by simp [hp])) (hassoc ▸ hle)
        rw [hplace, hassoc]
        exact ⟨fun h => hok h.2, fun h => herror fun hrest => h ⟨hsafe, hrest⟩⟩
      · obtain ⟨fault, hplace⟩ := place_unsafe gethostbyname hholds hq hle' hsafe
        rw [hplace]
        exact ⟨fun h => absurd h.1 hsafe, fun _ => ⟨fault, rfl⟩⟩

/-! ### What a chain says of its device -/

/-- A protocol address with its options, and the host that they name. -/
structure Address where
  protocol : Nat
  addr : Nat
  options : List Char
  host : Nat
  deriving DecidableEq

/-- An interface without a protocol has no address. -/
def NetworkInterface.address (r : NetworkInterface) : Option Address :=
  if r.myProtocol = 0 then none
  else some ⟨r.myProtocol, r.myAddress, r.myOptions, r.myHostAddress⟩

def NetworkInterface.mac (r : NetworkInterface) : Option (List Nat) :=
  if r.haveMac then some r.myMac else none

namespace Spec

def address (q : Spec) : Option Address :=
  match q.kind.value with
  | .address protocol addr => some ⟨protocol, addr, q.optionText, hostOf protocol q.optionText⟩
  | .mac _ => none

def mac (q : Spec) : Option (List Nat) :=
  match q.kind.value with
  | .mac bytes => some bytes
  | .address _ _ => none

end Spec

/-- The addresses and the MAC of a device are those of its specifications. -/
def Good (chain : List NetworkInterface) (specs : List Spec) : Prop :=
  chain.filterMap NetworkInterface.address = specs.filterMap Spec.address ∧
    chain.head?.bind NetworkInterface.mac = (specs.filterMap Spec.mac).getLast?

/-- A MAC is recorded at the entry of the device: it is the first specification, or the
one after the first address. -/
def recorded (specs : List Spec) : Bool := (specs.take 2).any Spec.isMac

/-- No MAC, or one address at most and the options of that in the last specification. -/
def OneAddress (specs : List Spec) : Prop :=
  (∀ q ∈ specs, q.isMac = false) ∨
    (specs.filterMap Spec.address).length ≤ 1 ∧
      ∀ a ∈ specs.filterMap Spec.address, ∀ q ∈ specs.getLast?, a.options = q.optionText

def lastProtocol (specs : List Spec) : Nat :=
  (specs.filterMap Spec.address).getLast?.elim 0 Address.protocol

section Device

variable {q : Spec} {specs : List Spec} {c : NetworkInterface}

theorem kind_of_address (h : q.isMac = false) :
    ∃ protocol addr, q.kind.value = .address protocol addr ∧ protocol ≠ 0 := by
  cases hkind : q.kind with
  | internet text => exact ⟨_, _, rfl, by decide⟩
  | chaos text => exact ⟨_, _, rfl, by decide⟩
  | mac text => simp [Spec.isMac, hkind] at h

theorem address_of_isMac (h : q.isMac = true) : q.address = none ∧ q.mac.isSome := by
  obtain ⟨bytes, hvalue⟩ := value_of_isMac h
  simp [Spec.address, Spec.mac, hvalue]

theorem mac_of_address (h : q.isMac = false) : q.address.isSome ∧ q.mac = none := by
  obtain ⟨protocol, addr, hvalue, -⟩ := kind_of_address h
  simp [Spec.address, Spec.mac, hvalue]

theorem settle_zero_address (h : q.isMac = false) : (settle .zero q).address = q.address := by
  obtain ⟨protocol, addr, hvalue, hne⟩ := kind_of_address h
  simp [settle, NetworkInterface.address, Spec.address, hvalue, hne]

theorem settle_haveMac (r : NetworkInterface) (q : Spec) :
    (settle r q).haveMac = (r.haveMac || q.isMac) := by
  cases hmac : q.isMac with
  | false =>
      obtain ⟨protocol, addr, hvalue, -⟩ := kind_of_address hmac
      simp [settle, hvalue]
  | true =>
      obtain ⟨bytes, hvalue⟩ := value_of_isMac hmac
      simp [settle, hvalue]

/-- An interface that took in a whole list of specifications. -/
structure Summary (c : NetworkInterface) (specs : List Spec) : Prop where
  mac : c.mac = (specs.filterMap Spec.mac).getLast?
  protocol : c.myProtocol = lastProtocol specs
  addr : ∀ a ∈ (specs.filterMap Spec.address).getLast?, c.myAddress = a.addr
  options : ∀ q ∈ specs.getLast?, c.myOptions = q.optionText
  host : ∀ q ∈ specs.getLast?, c.myHostAddress = hostOf c.myProtocol q.optionText

theorem summary_zero : Summary .zero [] := by
  constructor <;> simp [NetworkInterface.mac, NetworkInterface.zero, lastProtocol]

theorem Summary.settle (h : Summary c specs) (q : Spec) :
    Summary (settle c q) (specs ++ [q]) := by
  cases hmac : q.isMac with
  | false =>
      obtain ⟨protocol, addr, hvalue, -⟩ := kind_of_address hmac
      have hold := h.mac
      constructor <;>
        simp_all [Configuration.settle, NetworkInterface.mac, lastProtocol, Spec.address, Spec.mac]
  | true =>
      obtain ⟨bytes, hvalue⟩ := value_of_isMac hmac
      have hprotocol := h.protocol
      have haddr := h.addr
      constructor <;>
        simp_all [Configuration.settle, NetworkInterface.mac, lastProtocol, Spec.address, Spec.mac]

/-- An entry that has a MAC takes in all that follows. -/
theorem foldl_recorded (rest : List Spec) : ∀ {c : NetworkInterface} {specs : List Spec},
    Summary c specs → c.haveMac = true →
      ∃ c', rest.foldl chainStep [c] = [c'] ∧ Summary c' (specs ++ rest) ∧ c'.haveMac = true := by
  induction rest with
  | nil => exact fun h hmac => ⟨_, rfl, by simpa using h, hmac⟩
  | cons q rest ih =>
      intro c specs h hmac
      have hstep : chainStep [c] q = [settle c q] := by simp [chainStep, hmac]
      obtain ⟨c', hfold, hsummary, hmac'⟩ :=
        ih (h.settle q) (by rw [settle_haveMac, hmac, Bool.true_or])
      exact ⟨c', by rw [List.foldl_cons, hstep, hfold], by simpa using hsummary, hmac'⟩

/-- An entry with a further address never has a MAC. -/
theorem foldl_unrecorded (rest : List Spec) : ∀ {a b : NetworkInterface}
    {tail : List NetworkInterface}, a.haveMac = false →
      ∃ a' b' tail', rest.foldl chainStep (a :: b :: tail) = a' :: b' :: tail' ∧
        a'.haveMac = false := by
  induction rest with
  | nil => exact fun h => ⟨_, _, _, rfl, h⟩
  | cons q rest ih =>
      intro a b tail h
      obtain ⟨b', tail', hstep⟩ : ∃ b' tail', chainStep (a :: b :: tail) q = a :: b' :: tail' := by
        cases hmac : q.isMac with
        | false => exact ⟨b, tail ++ [settle .zero q], by simp [chainStep, h, hmac]⟩
        | true =>
            cases tail with
            | nil => exact ⟨settle b q, [], by simp [chainStep, h, hmac]⟩
            | cons d tail =>
                exact ⟨b, (d :: tail).dropLast ++ [settle ((d :: tail).getLast (by simp)) q],
                  by simp [chainStep, h, hmac, List.getLast?_eq_some_getLast]⟩
      rw [List.foldl_cons, hstep]
      exact ih h

/-- The first two specifications decide whether the entry has the MAC. -/
theorem chainOf_cases (h : specs ≠ []) :
    (recorded specs = true ∧ ∃ c, chainOf specs = [c] ∧ Summary c specs ∧ c.haveMac = true) ∨
    (recorded specs = false ∧ ∃ q, specs = [q] ∧ q.isMac = false) ∨
    (recorded specs = false ∧ ∃ a b tail, chainOf specs = a :: b :: tail ∧ a.haveMac = false ∧
      2 ≤ (specs.filterMap Spec.address).length) := by
  match specs, h with
  | [q], _ =>
      cases hq : q.isMac with
      | false => exact Or.inr (Or.inl ⟨by simp [recorded, hq], q, rfl, hq⟩)
      | true =>
          refine Or.inl ⟨by simp [recorded, hq], settle .zero q, rfl, summary_zero.settle q, ?_⟩
          rw [settle_haveMac, hq, Bool.or_true]
  | q :: p :: rest, _ =>
      have hfold : chainOf (q :: p :: rest) =
          rest.foldl chainStep (chainStep [settle .zero q] p) := rfl
      cases hq : q.isMac with
      | true =>
          have hmac : (settle .zero q).haveMac = true := by rw [settle_haveMac, hq, Bool.or_true]
          obtain ⟨c, hc, hsummary, hmac'⟩ :=
            foldl_recorded (p :: rest) (summary_zero.settle q) hmac
          exact Or.inl ⟨by simp [recorded, hq], c, hc, hsummary, hmac'⟩
      | false =>
          have hno : (settle .zero q).haveMac = false := by rw [settle_haveMac, hq]; rfl
          cases hp : p.isMac with
          | true =>
              have hstep : chainStep [settle .zero q] p = [settle (settle .zero q) p] := by
                simp [chainStep, hno, hp]
              obtain ⟨c, hc, hsummary, hmac⟩ :=
                foldl_recorded rest ((summary_zero.settle q).settle p)
                  (by rw [settle_haveMac, hp, Bool.or_true])
              exact Or.inl ⟨by simp [recorded, hp], c, by rw [hfold, hstep, hc], hsummary, hmac⟩
          | false =>
              have hstep : chainStep [settle .zero q] p = [settle .zero q, settle .zero p] := by
                simp [chainStep, hno, hp]
              obtain ⟨a, b, tail, hchain, ha⟩ : ∃ a b tail,
                  rest.foldl chainStep [settle .zero q, settle .zero p] = a :: b :: tail ∧
                    a.haveMac = false := foldl_unrecorded rest hno
              obtain ⟨x, hx⟩ := Option.isSome_iff_exists.mp (mac_of_address hq).1
              obtain ⟨y, hy⟩ := Option.isSome_iff_exists.mp (mac_of_address hp).1
              exact Or.inr (Or.inr ⟨by simp [recorded, hq, hp], a, b, tail,
                by rw [hfold, hstep, hchain], ha, by simp [hx, hy]⟩)

/-- Addresses alone make a chain of them. -/
theorem chainOf_addresses (h : ∀ q ∈ specs, q.isMac = false) :
    chainOf specs = specs.map (settle .zero) := by
  induction specs using List.reverseRecOn with
  | nil => rfl
  | append_singleton specs q ih =>
      have hspecs := ih fun p hp => h p (by simp [hp])
      have hq := h q (by simp)
      rw [chainOf_concat, hspecs]
      cases specs with
      | nil => rfl
      | cons p specs =>
          have hno : (settle .zero p).haveMac = false := by
            rw [settle_haveMac, h p (by simp)]
            rfl
          simp [chainStep, hno, hq]

theorem filterMap_mac_eq_nil (h : ∀ q ∈ specs, q.isMac = false) :
    specs.filterMap Spec.mac = [] :=
  List.filterMap_eq_nil_iff.mpr fun q hq => (mac_of_address (h q hq)).2

theorem filterMap_mac_getLast (h : ¬ ∀ q ∈ specs, q.isMac = false) :
    (specs.filterMap Spec.mac).getLast?.isSome := by
  simp only [not_forall] at h
  obtain ⟨q, hq, hmac⟩ := h
  obtain ⟨bytes, hbytes⟩ :=
    Option.isSome_iff_exists.mp (address_of_isMac (by simpa using hmac)).2
  rw [List.getLast?_isSome]
  exact List.ne_nil_of_mem (List.mem_filterMap.mpr ⟨q, hq, hbytes⟩)

/-- What an address of the list is made of. -/
theorem mem_addresses {a : Address} (h : a ∈ specs.filterMap Spec.address) :
    a.protocol ≠ 0 ∧ a.host = hostOf a.protocol a.options := by
  obtain ⟨q, -, hq⟩ := List.mem_filterMap.mp h
  cases hmac : q.isMac with
  | true => simp [(address_of_isMac hmac).1] at hq
  | false =>
      obtain ⟨protocol, addr, hvalue, hne⟩ := kind_of_address hmac
      simp only [Spec.address, hvalue, Option.some.injEq] at hq
      subst hq
      exact ⟨hne, rfl⟩

/-- An entry with a MAC has the last address, with the options of the last specification. -/
theorem Summary.address (h : Summary c specs) {a : Address} {q : Spec}
    (ha : (specs.filterMap Spec.address).getLast? = some a) (hq : specs.getLast? = some q) :
    c.address = some ⟨a.protocol, a.addr, q.optionText, hostOf a.protocol q.optionText⟩ := by
  have hne := (mem_addresses (List.mem_of_getLast? ha)).1
  have hprotocol : c.myProtocol = a.protocol := by rw [h.protocol, lastProtocol, ha]; rfl
  have hhost := h.host q hq
  rw [hprotocol] at hhost
  rw [NetworkInterface.address, hprotocol, if_neg hne, h.addr a ha, h.options q hq, hhost]

theorem good_recorded (hne : specs ≠ []) (h : Summary c specs)
    (hmac : ¬ ∀ q ∈ specs, q.isMac = false) : Good [c] specs ↔ OneAddress specs := by
  obtain ⟨q, hq⟩ : ∃ q, specs.getLast? = some q := Option.isSome_iff_exists.mp (by simpa using hne)
  have hgood : Good [c] specs ↔ c.address.toList = specs.filterMap Spec.address := by
    have hlist : [c].filterMap NetworkInterface.address = c.address.toList := by
      cases hc : c.address <;> simp [hc]
    rw [Good, hlist]
    exact and_iff_left h.mac
  have hone : OneAddress specs ↔ (specs.filterMap Spec.address).length ≤ 1 ∧
      ∀ a ∈ specs.filterMap Spec.address, a.options = q.optionText := by
    rw [OneAddress, or_iff_right hmac, hq]
    simp
  rw [hgood, hone]
  cases haddrs : specs.filterMap Spec.address with
  | nil =>
      have hprotocol : c.myProtocol = 0 := by rw [h.protocol, lastProtocol, haddrs]; rfl
      simp [NetworkInterface.address, hprotocol]
  | cons a rest =>
      cases rest with
      | nil =>
          have hmem : a ∈ specs.filterMap Spec.address := by simp [haddrs]
          have hhost := (mem_addresses hmem).2
          have hlast : (specs.filterMap Spec.address).getLast? = some a := by
            rw [haddrs]
            rfl
          rw [h.address hlast hq]
          constructor
          · intro heq
            have hoptions := congrArg Address.options (List.cons.inj heq).1
            simpa using hoptions.symm
          · rintro ⟨-, hoptions⟩
            have ha := hoptions a (by simp)
            rw [← ha, ← hhost]
            rfl
      | cons b rest =>
          constructor
          · intro heq
            have hlength := congrArg List.length heq
            cases hc : c.address <;> simp [hc] at hlength
          · rintro ⟨hlength, -⟩
            simp at hlength

/-- **One device**: when its chain says what its specifications do. -/
theorem good_iff (hne : specs ≠ []) : Good (chainOf specs) specs ↔ OneAddress specs := by
  by_cases hall : ∀ q ∈ specs, q.isMac = false
  · refine ⟨fun _ => Or.inl hall, fun _ => ?_⟩
    rw [chainOf_addresses hall]
    constructor
    · rw [List.filterMap_map]
      exact List.filterMap_congr fun q hq => settle_zero_address (hall q hq)
    · rw [filterMap_mac_eq_nil hall]
      cases specs with
      | nil => rfl
      | cons q rest =>
          have hno : (settle .zero q).haveMac = false := by
            rw [settle_haveMac, hall q (by simp)]
            rfl
          simp [NetworkInterface.mac, hno]
  · rcases chainOf_cases hne with ⟨-, c, hc, hsummary, -⟩ | ⟨-, q, rfl, hq⟩ |
      ⟨-, a, b, tail, hchain, ha, hlength⟩
    · rw [hc]
      exact good_recorded hne hsummary hall
    · exact absurd (by simpa using hq) hall
    · -- The entry itself has no MAC, and there are two addresses.
      constructor
      · rintro ⟨-, hgood⟩
        rw [hchain] at hgood
        have hsome := filterMap_mac_getLast hall
        rw [← hgood] at hsome
        simp [NetworkInterface.mac, ha] at hsome
      · rintro (h | ⟨h, -⟩)
        · exact absurd h hall
        · omega

/-- A MAC keeps the protocol of its interface, and an address has its own. -/
theorem settle_protocol {r : NetworkInterface} (h : r.myProtocol = lastProtocol specs) (q : Spec) :
    (settle r q).myProtocol = lastProtocol (specs ++ [q]) := by
  cases hmac : q.isMac with
  | false =>
      obtain ⟨protocol, addr, hvalue, -⟩ := kind_of_address hmac
      simp [settle, lastProtocol, Spec.address, hvalue]
  | true =>
      obtain ⟨bytes, hvalue⟩ := value_of_isMac hmac
      simpa [settle, lastProtocol, Spec.address, hvalue] using h

theorem settle_zero_protocol (specs : List Spec) (h : q.isMac = false) :
    (settle .zero q).myProtocol = lastProtocol (specs ++ [q]) := by
  obtain ⟨protocol, addr, hvalue, -⟩ := kind_of_address h
  simp [settle, lastProtocol, Spec.address, hvalue]

/-- The last interface of a chain has the protocol of the last address. -/
theorem chainOf_protocol (specs : List Spec) :
    ((chainOf specs).getLast?.getD .zero).myProtocol = lastProtocol specs := by
  induction specs using List.reverseRecOn with
  | nil => rfl
  | append_singleton specs q ih =>
      rw [chainOf_concat]
      cases hhead : (chainOf specs).head? with
      | none =>
          have hnil : chainOf specs = [] := by simpa using hhead
          rw [hnil] at ih ⊢
          exact settle_protocol ih q
      | some head =>
          cases hhave : head.haveMac with
          | true =>
              rw [chainOf_singleton hhead hhave] at ih ⊢
              simpa [chainStep, hhave] using settle_protocol ih q
          | false =>
              cases hmac : q.isMac with
              | false => simpa [chainStep, hhead, hhave, hmac] using settle_zero_protocol specs hmac
              | true =>
                  obtain ⟨last, hlast⟩ : ∃ last, (chainOf specs).getLast? = some last :=
                    Option.isSome_iff_exists.mp (by
                      rw [List.getLast?_isSome]
                      rintro hnil
                      simp [hnil] at hhead)
                  rw [hlast] at ih
                  simpa [chainStep, hhead, hhave, hmac, hlast] using settle_protocol ih q

theorem head_haveMac {head : NetworkInterface} (h : (chainOf specs).head? = some head) :
    head.haveMac = recorded specs := by
  have hne : specs ≠ [] := by
    rintro rfl
    simp [chainOf] at h
  rcases chainOf_cases hne with ⟨hrec, c, hc, -, hmac⟩ | ⟨hrec, q, rfl, hq⟩ |
    ⟨hrec, a, b, tail, hchain, ha, -⟩
  · rw [hc] at h
    rw [← Option.some.inj h, hmac, hrec]
  · rw [← Option.some.inj h, hrec, settle_haveMac, hq]
    rfl
  · rw [hchain] at h
    rw [← Option.some.inj h, ha, hrec]

end Device

/-! ### The whole option -/

/-- The loop finds the entry of the device without a MAC, and walks behind it. -/
def Behind (before : List Spec) (q : Spec) : Prop :=
  own q.device before ≠ [] ∧ recorded (own q.device before) = false

/-- A MAC comes behind an address of its device, or before the loop has walked at all; its
options are read as the protocol of that address has them. -/
def MacPlaced (before : List Spec) (q : Spec) : Prop :=
  q.isMac → HostReads (lastProtocol (own q.device before)) q.optionText ∧
    (Behind before q ∨ ∀ front p after, before = front ++ p :: after → ¬ Behind front p)

/-- The lists of specifications that the loop takes down as they are. -/
structure Separate (specs : List Spec) : Prop where
  one : ∀ d ∈ devices specs, OneAddress (own d specs)
  placed : ∀ before q after, specs = before ++ q :: after → MacPlaced before q

theorem walks_iff (before : List Spec) (q : Spec) : Walks before q ↔ Behind before q := by
  constructor
  · rintro ⟨head, hhead, hmac⟩
    refine ⟨?_, by rw [← head_haveMac hhead, hmac]⟩
    intro hnil
    simp [hnil, chainOf] at hhead
  · rintro ⟨hne, hrec⟩
    obtain ⟨head, hhead⟩ : ∃ head, (chainOf (own q.device before)).head? = some head :=
      Option.isSome_iff_exists.mp (by simpa using chainOf_ne_nil hne)
    exact ⟨head, hhead, by rw [head_haveMac hhead, hrec]⟩

theorem safe_iff (before : List Spec) (q : Spec) : Safe before q ↔ MacPlaced before q := by
  have hwalked : ¬ Walked before ↔ ∀ front p after, before = front ++ p :: after →
      ¬ Behind front p := by
    simp only [Walked, walks_iff, not_exists, not_and]
  rw [Safe, MacPlaced, walks_iff, hwalked, target, chainOf_protocol]

theorem allSafe_iff (specs : List Spec) :
    AllSafe [] specs ↔ ∀ before q after, specs = before ++ q :: after → MacPlaced before q := by
  simp only [AllSafe, List.nil_append, safe_iff]

/-- The interfaces of an entry, from pointer to pointer. -/
def State.chain (s : State) (i : Nat) : List Loc :=
  places NetworkInterface.anotherAddress s.memory (s.allocated + 1) (.table i)

/-- The table says what the specifications do: one entry for each device, in order, with
its addresses and its last MAC, and no pointer to memory that was freed. -/
structure Described (s : State) (specs : List Spec) : Prop where
  present : ∀ i < maxNetworkInterfaces,
    ((s.memory (.table i)).present = true ↔ i < (devices specs).length)
  device : ∀ i d, (devices specs)[i]? = some d → (s.memory (.table i)).device = d
  addresses : ∀ i d, (devices specs)[i]? = some d →
    ((s.chain i).map s.memory).filterMap NetworkInterface.address =
      (own d specs).filterMap Spec.address
  mac : ∀ i d, (devices specs)[i]? = some d →
    (s.memory (.table i)).mac = ((own d specs).filterMap Spec.mac).getLast?
  ends : ∀ i d, (devices specs)[i]? = some d →
    Linked NetworkInterface.anotherAddress s.memory (s.chain i)
  live : ∀ i d, (devices specs)[i]? = some d →
    ∀ n, .node n ∈ s.chain i → n < s.allocated ∧ n ∉ s.freed

theorem filterMap_cell (memory : Loc → NetworkInterface) (ls : List Loc) :
    (ls.map fun loc => cell (memory loc)).filterMap NetworkInterface.address =
      (ls.map memory).filterMap NetworkInterface.address := by
  rw [List.filterMap_map, List.filterMap_map]
  rfl

section Described

variable {s : State} {specs : List Spec} {nodes : Nat → List Nat}

theorem Holds.chain_eq (h : Holds s specs nodes) {i : Nat} {d : List Char}
    (hi : (devices specs)[i]? = some d) : s.chain i = locs i (nodes i) := by
  have hlength := h.length_le i
  exact (h.linked i d hi).places_eq (by simpa using by omega)

theorem Holds.described_iff (h : Holds s specs nodes) :
    Described s specs ↔ ∀ d ∈ devices specs, Good (chainOf (own d specs)) (own d specs) := by
  have hgood : ∀ {i d}, (devices specs)[i]? = some d →
      (Good (chainOf (own d specs)) (own d specs) ↔
        ((s.chain i).map s.memory).filterMap NetworkInterface.address =
            (own d specs).filterMap Spec.address ∧
          (s.memory (.table i)).mac = ((own d specs).filterMap Spec.mac).getLast?) := by
    intro i d hi
    have hhead := (h.entry hi).1
    rw [Good, hhead, ← h.cells i d hi, filterMap_cell, h.chain_eq hi]
    rfl
  constructor
  · intro hdesc d hd
    obtain ⟨i, hilt, hi⟩ := List.mem_iff_getElem.mp hd
    have hi' : (devices specs)[i]? = some d := by rw [List.getElem?_eq_getElem hilt, hi]
    exact (hgood hi').mpr ⟨hdesc.addresses i d hi', hdesc.mac i d hi'⟩
  · intro hall
    have hat : ∀ {i d}, (devices specs)[i]? = some d →
        Good (chainOf (own d specs)) (own d specs) := fun hi => hall _ (List.mem_of_getElem? hi)
    refine ⟨fun i _ => ⟨fun hpresent => ?_, fun hlt => ?_⟩, fun i d hi => (h.entry hi).2.2,
      fun i d hi => ((hgood hi).mp (hat hi)).1, fun i d hi => ((hgood hi).mp (hat hi)).2,
      fun i d hi => ?_, fun i d hi n hn => ?_⟩
    · by_contra hge
      rw [(h.unused i (by omega)).1] at hpresent
      cases hpresent
    · exact (h.entry (List.getElem?_eq_getElem hlt)).2.1
    · rw [h.chain_eq hi]
      exact h.linked i d hi
    · rw [h.chain_eq hi] at hn
      have hmem : n ∈ nodes i := by simpa [locs] using hn
      exact ⟨h.nodes_lt i n hmem, h.live i n hmem⟩

end Described

theorem own_ne_nil {specs : List Spec} {d : List Char} (h : d ∈ devices specs) :
    own d specs ≠ [] := fun hnil => own_eq_nil.mp hnil h

section Sample

/-- An address that is an octal number. -/
def chaosSpec (device : String) (n : Nat) : Spec :=
  ⟨device.toList, .chaos (numeral 8 n), none⟩

def macSpec (device : String) : Spec := ⟨device.toList, .mac "0a:1b:2:3:4:5".toList, none⟩

theorem chaosSpec_wellFormed : (chaosSpec "tap0" 0o401).WellFormed ∧
    (chaosSpec "tap0" 0o402).WellFormed ∧ (chaosSpec "tap1" 0o403).WellFormed := by
  refine ⟨?_, ?_, ?_⟩
  all_goals exact ⟨⟨by decide +kernel, by decide +kernel, by decide⟩, by decide, by decide +kernel,
    by decide, ⟨0, rfl⟩⟩

theorem macSpec_wellFormed : (macSpec "tap1").WellFormed :=
  ⟨⟨by decide +kernel, by decide +kernel, by decide⟩, by decide, by decide +kernel, by decide,
    ⟨0, rfl⟩⟩

end Sample

end Configuration
