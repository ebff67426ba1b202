import Mathlib

/-!
# Numbers and addresses in the texts of C

Strings are lists of characters without the NUL.  `strtoul` with its base told by the
text where it is 0, `inet_addr` with the forms of fewer than four parts, `inet_ntoa`,
and the `%hhx` of `sscanf`; with what reading gives for a text that was printed.
-/

namespace CText

/-- The text up to the first `ch`, and what follows that one if there is one. -/
def cut (ch : Char) (text : List Char) : List Char × Option (List Char) :=
  match text.dropWhile (· ≠ ch) with
  | [] => (text, none)
  | _ :: rest => (text.takeWhile (· ≠ ch), some rest)

def isSpace (ch : Char) : Bool := ch = ' ' || (9 ≤ ch.toNat && ch.toNat ≤ 13)

def digitValue (ch : Char) : Option Nat :=
  if 48 ≤ ch.toNat ∧ ch.toNat ≤ 57 then some (ch.toNat - 48)
  else if 97 ≤ ch.toNat ∧ ch.toNat ≤ 122 then some (ch.toNat - 87)
  else if 65 ≤ ch.toNat ∧ ch.toNat ≤ 90 then some (ch.toNat - 55)
  else none

def isDigitOf (base : Nat) (ch : Char) : Bool := (digitValue ch).any (· < base)

/-- The number that a run of digits stands for. -/
def value (base : Nat) (run : List Char) : Nat :=
  run.foldl (fun n ch => n * base + (digitValue ch).getD 0) 0

/-- The base that a text is in, and its digits. -/
def baseOf (base : Nat) (text : List Char) : Nat × List Char :=
  match text with
  | '0' :: x :: d :: rest =>
      if (base = 0 ∨ base = 16) ∧ (x = 'x' ∨ x = 'X') ∧ isDigitOf 16 d then (16, d :: rest)
      else (if base = 0 then 8 else base, text)
  | '0' :: _ => (if base = 0 then 8 else base, text)
  | _ => (if base = 0 then 10 else base, text)

def signOf (text : List Char) : Bool × List Char :=
  match text with
  | '-' :: rest => (true, rest)
  | '+' :: rest => (false, rest)
  | _ => (false, text)

/-- The number and what is left of the text, which is all of it where there is none. -/
def strtoul (base : Nat) (text : List Char) : Nat × List Char :=
  let (negative, unsigned) := signOf (text.dropWhile isSpace)
  let (base, digits) := baseOf base unsigned
  let run := digits.takeWhile (isDigitOf base)
  if run = [] then (0, text)
  else
    let n := value base run
    (if 2 ^ 64 ≤ n then 2 ^ 64 - 1 else if negative then (2 ^ 64 - n) % 2 ^ 64 else n,
      digits.drop run.length)

/-- The bytes of a word the other way round. -/
def ntohl (n : Nat) : Nat :=
  n % 256 * 2 ^ 24 + n / 2 ^ 8 % 256 * 2 ^ 16 + n / 2 ^ 16 % 256 * 2 ^ 8 + n / 2 ^ 24 % 256

/-- The parts of an address: at most `dots` more of one byte, and the last one. -/
def inetParts : Nat → List Char → Option (List Nat × Nat)
  | dots, text =>
      if (text.head?.any Char.isDigit) = false then none
      else
        let (n, rest) := strtoul 0 text
        if 2 ^ 32 ≤ n then none
        else
          match dots, rest with
          | dots + 1, '.' :: more =>
              if 256 ≤ n then none
              else (inetParts dots more).map fun parts => (n :: parts.1, parts.2)
          | _, rest => if rest.head?.all isSpace then some ([], n) else none

/-- What `inet_addr` has for no address. -/
def inaddrNone : Nat := 2 ^ 32 - 1

/-- The first byte of an address is the lowest of the word. -/
def inetAddr (text : List Char) : Nat :=
  match inetParts 3 text with
  | none => inaddrNone
  | some (bytes, last) =>
      if last < 256 ^ (4 - bytes.length) then
        Nat.ofDigits 256 bytes ||| ntohl last
      else inaddrNone

/-- A number in a base up to ten. -/
def numeral (base n : Nat) : List Char :=
  if n = 0 then ['0'] else (Nat.digits base n).reverse.map fun d => Char.ofNat (48 + d)

def inetNtoa (addr : Nat) : List Char :=
  ['.'].intercalate [numeral 10 (addr % 256), numeral 10 (addr / 2 ^ 8 % 256),
    numeral 10 (addr / 2 ^ 16 % 256), numeral 10 (addr / 2 ^ 24 % 256)]

/-- `%hhx`: a byte of the number, and what is left. -/
def scanByte (text : List Char) : Option (Nat × List Char) :=
  let (negative, digits) := signOf (text.dropWhile isSpace)
  let (found, digits) :=
    match digits with
    | '0' :: x :: rest => if x = 'x' ∨ x = 'X' then (true, rest) else (false, digits)
    | _ => (false, digits)
  let run := digits.takeWhile (isDigitOf 16)
  if run = [] ∧ ¬ found then none
  else
    let n := value 16 run % 256
    some (if negative then (256 - n) % 256 else n, digits.drop run.length)

/-- `count` bytes with colons between them, and nothing after them. -/
def scanBytes : Nat → List Char → Option (List Nat)
  | 0, _ => none
  | count + 1, text =>
      match scanByte text with
      | none => none
      | some (b, rest) =>
          if count = 0 then if rest = [] then some [b] else none
          else
            match rest with
            | ':' :: more => (scanBytes count more).map (b :: ·)
            | _ => none

/-! ### Cutting -/

theorem cut_of_notMem {ch : Char} {text : List Char} (h : ch ∉ text) :
    cut ch text = (text, none) := by
  have hdrop : text.dropWhile (· ≠ ch) = [] := by
    rw [List.dropWhile_eq_nil_iff]
    intro c hc
    simpa using fun heq : c = ch => h (heq ▸ hc)
  rw [cut, hdrop]

theorem cut_append {ch : Char} {text : List Char} (h : ch ∉ text) (rest : List Char) :
    cut ch (text ++ ch :: rest) = (text, some rest) := by
  have hall : ∀ c ∈ text, decide (c ≠ ch) = true := by
    intro c hc
    simpa using fun heq : c = ch => h (heq ▸ hc)
  rw [cut, List.dropWhile_append_of_pos hall, List.takeWhile_append_of_pos hall]
  simp

/-- What is cut off does not have the character. -/
theorem notMem_cut (ch : Char) (text : List Char) : ch ∉ (cut ch text).1 := by
  unfold cut
  split
  · next h =>
      rw [List.dropWhile_eq_nil_iff] at h
      intro hmem
      simpa using h ch hmem
  · intro hmem
    simpa using List.mem_takeWhile_imp hmem

/-- What follows a character is shorter. -/
theorem cut_length {ch : Char} {text rest : List Char} (h : (cut ch text).2 = some rest) :
    rest.length < text.length := by
  unfold cut at h
  split at h
  · cases h
  · next hdrop =>
      obtain rfl := Option.some.inj h
      have hle := (List.dropWhile_sublist (l := text) (· ≠ ch)).length_le
      rw [hdrop, List.length_cons] at hle
      omega

theorem cut_subset (ch : Char) (text : List Char) : (cut ch text).1 ⊆ text := by
  unfold cut
  split
  · exact fun _ h => h
  · exact fun _ h => (List.takeWhile_prefix _).subset h

/-! ### Reading what was printed -/

theorem digitValue_digit {d : Nat} (h : d < 10) : digitValue (Char.ofNat (48 + d)) = some d := by
  interval_cases d <;> rfl

theorem numeral_ne_nil {base n : Nat} : numeral base n ≠ [] := by
  unfold numeral
  split
  · simp
  · next h => simpa using Nat.digits_ne_nil_iff_ne_zero.mpr h

/-- The digits of a numeral, and the digit that each of them is. -/
theorem mem_numeral {base n : Nat} (hbase : 1 < base) {ch : Char} (h : ch ∈ numeral base n) :
    ∃ d < base, ch = Char.ofNat (48 + d) := by
  unfold numeral at h
  split at h
  · exact ⟨0, by omega, by simpa using h⟩
  · obtain ⟨d, hd, rfl⟩ := List.mem_map.mp h
    exact ⟨d, Nat.digits_lt_base hbase (List.mem_reverse.mp hd), rfl⟩

theorem isDigitOf_numeral {base n : Nat} (hbase : 1 < base) (hten : base ≤ 10) :
    ∀ ch ∈ numeral base n, isDigitOf base ch = true := by
  intro ch h
  obtain ⟨d, hd, rfl⟩ := mem_numeral hbase h
  simp [isDigitOf, digitValue_digit (show d < 10 by omega), hd]

theorem value_numeral {base n : Nat} (hbase : 1 < base) (hten : base ≤ 10) :
    value base (numeral base n) = n := by
  unfold numeral
  split
  · next h => simp [value, h, digitValue]
  · have hdigits : ∀ d ∈ Nat.digits base n, d < 10 := fun d hd =>
      lt_of_lt_of_le (Nat.digits_lt_base hbase hd) hten
    calc value base ((Nat.digits base n).reverse.map fun d => Char.ofNat (48 + d))
        = (Nat.digits base n).foldr (fun d n => n * base + (digitValue (Char.ofNat (48 + d))).getD 0)
            0 := by rw [value, List.foldl_map, List.foldl_reverse]
      _ = (Nat.digits base n).foldr (fun d n => d + base * n) 0 := by
          apply List.foldr_ext
          intro d hd m
          rw [digitValue_digit (hdigits d hd), Option.getD_some, Nat.mul_comm, Nat.add_comm]
      _ = Nat.ofDigits base (Nat.digits base n) := by simp [Nat.ofDigits_eq_foldr]
      _ = n := Nat.ofDigits_digits base n

/-- A digit begins no blank and no sign. -/
theorem signOf_numeral {base n : Nat} (hbase : 1 < base) (hten : base ≤ 10) (rest : List Char) :
    signOf ((numeral base n ++ rest).dropWhile isSpace) = (false, numeral base n ++ rest) := by
  cases hnum : numeral base n with
  | nil => exact absurd hnum numeral_ne_nil
  | cons c cs =>
      obtain ⟨d, hd, rfl⟩ := mem_numeral hbase (show c ∈ numeral base n by simp [hnum])
      have hten' : d < 10 := by omega
      interval_cases d <;> rfl

theorem takeWhile_numeral {base n : Nat} (hbase : 1 < base) (hten : base ≤ 10)
    {rest : List Char} (hrest : ∀ ch ∈ rest.head?, isDigitOf base ch = false) :
    (numeral base n ++ rest).takeWhile (isDigitOf base) = numeral base n := by
  rw [List.takeWhile_append_of_pos (isDigitOf_numeral hbase hten)]
  cases rest with
  | nil => simp
  | cons ch rest => simp [hrest ch rfl]

/-- A number in octal is read back. -/
theorem strtoul_octal {n : Nat} (hn : n < 2 ^ 64) {rest : List Char}
    (hrest : ∀ ch ∈ rest.head?, isDigitOf 8 ch = false) :
    strtoul 8 (numeral 8 n ++ rest) = (n, rest) := by
  have hbase : ∀ text : List Char, baseOf 8 text = (8, text) := by
    intro text
    unfold baseOf
    split <;> simp
  have hlt : ¬ 2 ^ 64 ≤ n := by omega
  simp only [strtoul, signOf_numeral (by decide : 1 < 8) (by decide : 8 ≤ 10), hbase,
    takeWhile_numeral (by decide : 1 < 8) (by decide : 8 ≤ 10) hrest, numeral_ne_nil, if_false,
    value_numeral (by decide : 1 < 8) (by decide : 8 ≤ 10), hlt, List.drop_left]
  rfl

theorem numeral_head {n : Nat} (h : n ≠ 0) : ∀ ch ∈ (numeral 10 n).head?, ch ≠ '0' := by
  intro ch hch heq
  have hdigits : Nat.digits 10 n ≠ [] := Nat.digits_ne_nil_iff_ne_zero.mpr h
  simp only [numeral, h, if_false, List.head?_map, List.head?_reverse,
    List.getLast?_eq_some_getLast hdigits, Option.map_some, Option.mem_some_iff] at hch
  have hlast := Nat.getLast_digit_ne_zero 10 h
  have hlt : (Nat.digits 10 n).getLast hdigits < 10 :=
    Nat.digits_lt_base (by decide) (List.getLast_mem hdigits)
  rw [heq] at hch
  generalize (Nat.digits 10 n).getLast hdigits = d at *
  interval_cases d <;> first | exact hlast rfl | exact absurd hch (by decide)

/-- A decimal number is read back with its base told by itself: alone, or up to a dot. -/
theorem strtoul_decimal {n : Nat} (hn : n < 2 ^ 64) {rest : List Char}
    (hrest : rest = [] ∨ ∃ more, rest = '.' :: more) :
    strtoul 0 (numeral 10 n ++ rest) = (n, rest) := by
  have hstop : ∀ base, ∀ ch ∈ rest.head?, isDigitOf base ch = false := by
    rcases hrest with rfl | ⟨more, rfl⟩ <;> simp [isDigitOf, digitValue]
  by_cases hzero : n = 0
  · subst hzero
    rcases hrest with rfl | ⟨more, rfl⟩
    · rfl
    · cases more <;> rfl
  · have hbase : baseOf 0 (numeral 10 n ++ rest) = (10, numeral 10 n ++ rest) := by
      have hhead := numeral_head hzero
      unfold baseOf
      cases hnum : numeral 10 n with
      | nil => exact absurd hnum numeral_ne_nil
      | cons c cs =>
          have hc : c ≠ '0' := hhead c (by simp [hnum])
          simp [hc]
    have hlt : ¬ 2 ^ 64 ≤ n := by omega
    simp only [strtoul, signOf_numeral (by decide : 1 < 10) le_rfl, hbase,
      takeWhile_numeral (by decide : 1 < 10) le_rfl (hstop 10), numeral_ne_nil, if_false,
      value_numeral (by decide : 1 < 10) le_rfl, hlt, List.drop_left]
    rfl

theorem isDigit_numeral_head (n : Nat) (rest : List Char) :
    (numeral 10 n ++ rest).head?.any Char.isDigit = true := by
  cases hnum : numeral 10 n with
  | nil => exact absurd hnum numeral_ne_nil
  | cons c cs =>
      obtain ⟨d, hd, rfl⟩ := mem_numeral (by decide) (show c ∈ numeral 10 n by simp [hnum])
      interval_cases d <;> rfl

theorem inetParts_dot {n dots : Nat} (hn : n < 256) (more : List Char) :
    inetParts (dots + 1) (numeral 10 n ++ '.' :: more) =
      (inetParts dots more).map fun parts => (n :: parts.1, parts.2) := by
  have hread := strtoul_decimal (show n < 2 ^ 64 by omega) (Or.inr ⟨more, rfl⟩)
  rw [inetParts]
  simp only [isDigit_numeral_head, hread]
  rw [if_neg (by decide), if_neg (by omega), if_neg (by omega)]

theorem inetParts_last {n dots : Nat} (hn : n < 256) :
    inetParts dots (numeral 10 n) = some ([], n) := by
  have hread := strtoul_decimal (show n < 2 ^ 64 by omega) (Or.inl rfl)
  have hhead := isDigit_numeral_head n []
  rw [List.append_nil] at hread hhead
  cases dots
  all_goals
    rw [inetParts]
    simp only [hhead, hread]
    rw [if_neg (by decide), if_neg (by omega)]
    rfl

/-- A word of four bytes. -/
theorem ntohl_bytes {a b c d : Nat} (ha : a < 256) (hb : b < 256) (hc : c < 256) (hd : d < 256) :
    ntohl (a * 2 ^ 24 + b * 2 ^ 16 + c * 2 ^ 8 + d) =
      d * 2 ^ 24 + c * 2 ^ 16 + b * 2 ^ 8 + a := by
  have h0 : (a * 2 ^ 24 + b * 2 ^ 16 + c * 2 ^ 8 + d) % 256 = d := by omega
  have h1 : (a * 2 ^ 24 + b * 2 ^ 16 + c * 2 ^ 8 + d) / 2 ^ 8 % 256 = c := by omega
  have h2 : (a * 2 ^ 24 + b * 2 ^ 16 + c * 2 ^ 8 + d) / 2 ^ 16 % 256 = b := by omega
  have h3 : (a * 2 ^ 24 + b * 2 ^ 16 + c * 2 ^ 8 + d) / 2 ^ 24 % 256 = a := by omega
  rw [ntohl, h0, h1, h2, h3]

theorem ntohl_ntohl {n : Nat} (h : n < 2 ^ 32) : ntohl (ntohl n) = n := by
  have hlt : ∀ m : Nat, m % 256 < 256 := fun m => Nat.mod_lt m (by decide)
  rw [ntohl.eq_def n, ntohl_bytes (hlt _) (hlt _) (hlt _) (hlt _)]
  omega

theorem ntohl_lt (n : Nat) : ntohl n < 2 ^ 32 := by
  unfold ntohl
  omega

/-- An address is read back. -/
theorem inetAddr_inetNtoa {addr : Nat} (h : addr < 2 ^ 32) : inetAddr (inetNtoa addr) = addr := by
  have hparts : inetParts 3 (inetNtoa addr) =
      some ([addr % 256, addr / 2 ^ 8 % 256, addr / 2 ^ 16 % 256], addr / 2 ^ 24 % 256) := by
    have htext : inetNtoa addr = numeral 10 (addr % 256) ++ '.' :: (numeral 10 (addr / 2 ^ 8 % 256) ++
        '.' :: (numeral 10 (addr / 2 ^ 16 % 256) ++ '.' :: numeral 10 (addr / 2 ^ 24 % 256))) := by
      simp [inetNtoa, List.intercalate]
    rw [htext, inetParts_dot (by omega), inetParts_dot (by omega), inetParts_dot (by omega),
      inetParts_last (by omega)]
    rfl
  have hlow : Nat.ofDigits 256 [addr % 256, addr / 2 ^ 8 % 256, addr / 2 ^ 16 % 256] =
      addr % 2 ^ 24 := by
    simp only [Nat.ofDigits_cons, Nat.ofDigits_nil]
    norm_num
    omega
  have hhigh : ntohl (addr / 2 ^ 24 % 256) = 2 ^ 24 * (addr / 2 ^ 24) := by
    unfold ntohl
    omega
  simp only [inetAddr, hparts, hlow, hhigh, List.length_cons, List.length_nil]
  rw [if_pos (by omega), Nat.lor_comm, ← Nat.two_pow_add_eq_or_of_lt (by omega)]
  omega

end CText
