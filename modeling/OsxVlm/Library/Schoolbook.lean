import Mathlib

/-!
# Schoolbook multiplication and division

Numbers of any length are multiplied and divided digit by digit.  The steps for digits are
parameters, and how exact they are decides how exact the whole is.
-/

namespace Schoolbook

variable (base : ℕ)

/-- Addition with a carry, the lowest digits first. -/
def add : List ℕ → List ℕ → ℕ → List ℕ
  | [], [], carry => [carry]
  | a :: as, [], carry => (a + carry) % base :: add as [] ((a + carry) / base)
  | [], b :: bs, carry => (b + carry) % base :: add [] bs ((b + carry) / base)
  | a :: as, b :: bs, carry => (a + b + carry) % base :: add as bs ((a + b + carry) / base)

/-- A digit times a number, from steps that leave two digits, the lower one first. -/
def scale (step : ℕ → ℕ → ℕ × ℕ) (b : ℕ) : List ℕ → ℕ → List ℕ
  | [], carry => [carry]
  | a :: as, carry =>
    let p := step a b
    (p.1 + carry) % base :: scale step b as (p.2 + (p.1 + carry) / base)

def multiply (step : ℕ → ℕ → ℕ × ℕ) (as : List ℕ) : List ℕ → List ℕ
  | [] => []
  | b :: bs => add base (scale base step b as 0) (0 :: multiply step as bs) 0

theorem add_value (as bs : List ℕ) (carry : ℕ) :
    Nat.ofDigits base (add base as bs carry) =
      Nat.ofDigits base as + Nat.ofDigits base bs + carry := by
  induction as, bs, carry using add.induct base with
  | case1 carry => simp [add]
  | case2 a as carry ih =>
    have := Nat.mod_add_div (a + carry) base
    simp only [add, Nat.ofDigits_cons, ih, Nat.ofDigits_nil]
    linarith
  | case3 b bs carry ih =>
    have := Nat.mod_add_div (b + carry) base
    simp only [add, Nat.ofDigits_cons, ih, Nat.ofDigits_nil]
    linarith
  | case4 a as b bs carry ih =>
    have := Nat.mod_add_div (a + b + carry) base
    simp only [add, Nat.ofDigits_cons, ih]
    linarith

section Multiply

variable {base} {step : ℕ → ℕ → ℕ × ℕ}
  (hstep : ∀ a b, a < base → b < base → (step a b).1 + (step a b).2 * base = a * b)

include hstep

theorem scale_value {b : ℕ} (hb : b < base) (as : List ℕ) (has : ∀ a ∈ as, a < base) (carry : ℕ) :
    Nat.ofDigits base (scale base step b as carry) = Nat.ofDigits base as * b + carry := by
  induction as generalizing carry with
  | nil => simp [scale]
  | cons a as ih =>
    have hdigit := hstep a b (has a List.mem_cons_self) hb
    have hcarry := Nat.mod_add_div ((step a b).1 + carry) base
    simp only [scale, Nat.ofDigits_cons,
      ih (fun x hx => has x (List.mem_cons_of_mem a hx))]
    linarith

/-- With exact steps the product is exact. -/
theorem multiply_value (as bs : List ℕ) (has : ∀ a ∈ as, a < base) (hbs : ∀ b ∈ bs, b < base) :
    Nat.ofDigits base (multiply base step as bs) = Nat.ofDigits base as * Nat.ofDigits base bs := by
  induction bs with
  | nil => simp [multiply]
  | cons b bs ih =>
    rw [multiply, add_value, scale_value hstep (hbs b List.mem_cons_self) as has,
      Nat.ofDigits_cons, ih (fun x hx => hbs x (List.mem_cons_of_mem b hx)), Nat.ofDigits_cons]
    ring

end Multiply

/-! ### Division -/

/-- The number whose highest digits come first, below what is already there. -/
def valueFrom (r : ℕ) (as : List ℕ) : ℕ := as.foldl (fun v a => v * base + a) r

/-- The quotients of the steps and the last remainder; a step has the remainder of the one
before as its upper digit. -/
def divide (step : ℕ → ℕ → ℕ × ℕ) : ℕ → List ℕ → List ℕ × ℕ
  | r, [] => ([], r)
  | r, a :: as =>
    let p := step r a
    let rest := divide step p.2 as
    (p.1 :: rest.1, rest.2)

theorem valueFrom_eq (r : ℕ) (as : List ℕ) :
    valueFrom base r as = r * base ^ as.length + valueFrom base 0 as := by
  induction as generalizing r with
  | nil => simp [valueFrom]
  | cons a as ih =>
    show valueFrom base (r * base + a) as = _ + valueFrom base (0 * base + a) as
    rw [ih (r * base + a), ih (0 * base + a), List.length_cons]
    ring

theorem length_divide (step : ℕ → ℕ → ℕ × ℕ) (r : ℕ) (as : List ℕ) :
    (divide step r as).1.length = as.length := by
  induction as generalizing r with
  | nil => rfl
  | cons a as ih => simp [divide, ih]

/-- What the division of `r` and the digits below it accounts for. -/
def accounted (step : ℕ → ℕ → ℕ × ℕ) (d r : ℕ) (as : List ℕ) : ℕ :=
  valueFrom base 0 (divide step r as).1 * d + (divide step r as).2

theorem accounted_cons (step : ℕ → ℕ → ℕ × ℕ) (d r a : ℕ) (as : List ℕ) :
    accounted base step d r (a :: as) =
      (step r a).1 * d * base ^ as.length + accounted base step d (step r a).2 as := by
  show valueFrom base (0 * base + (step r a).1) (divide step (step r a).2 as).1 * d +
    (divide step (step r a).2 as).2 = _
  rw [valueFrom_eq, length_divide, accounted]
  ring

section Exact

variable {base} {step : ℕ → ℕ → ℕ × ℕ} {d : ℕ}

/-- Steps that lose the upper digit account for less than there is, unless there never is
an upper digit: the divisor divides every digit but the last. -/
theorem accounted_eq_iff (hbase : 1 < base) (hd : d ≤ base)
    (hloses : ∀ r a, r < base → a < base → (step r a).1 * d + (step r a).2 ≤ r + a ∧
      (step r a).2 < d)
    (hzero : ∀ a, a < base → (step 0 a).1 * d + (step 0 a).2 = a)
    {r : ℕ} (hr : r < base) (as : List ℕ) (has : ∀ a ∈ as, a < base) :
    accounted base step d r as ≤ valueFrom base r as ∧
      (accounted base step d r as = valueFrom base r as ↔
        (as = [] ∨ r = 0) ∧ ∀ a ∈ as.dropLast, d ∣ a) := by
  induction as generalizing r with
  | nil => simp [accounted, divide, valueFrom]
  | cons a as ih =>
    have ha := has a List.mem_cons_self
    obtain ⟨hle, hlt⟩ := hloses r a hr ha
    obtain ⟨hrest, hiff⟩ := ih (hlt.trans_le hd) (fun x hx => has x (List.mem_cons_of_mem a hx))
    have hpow : 0 < base ^ as.length := by positivity
    have hvalue : valueFrom base r (a :: as) =
        r * base * base ^ as.length + a * base ^ as.length + valueFrom base 0 as := by
      show valueFrom base (r * base + a) as = _
      rw [valueFrom_eq]
      ring
    have hmul := Nat.mul_le_mul_right (base ^ as.length) hle
    rw [valueFrom_eq] at hrest hiff
    rw [accounted_cons, hvalue]
    by_cases h0 : r = 0
    · have hval := hzero a ha
      subst h0
      have hrem : (step 0 a).2 = 0 ↔ d ∣ a := by
        have hmod : a % d = (step 0 a).2 := by
          conv_lhs => rw [← hval]
          rw [Nat.mul_comm, Nat.mul_add_mod, Nat.mod_eq_of_lt hlt]
        rw [Nat.dvd_iff_mod_eq_zero, hmod]
      have hexact : (step 0 a).1 * d * base ^ as.length +
          (step 0 a).2 * base ^ as.length = a * base ^ as.length := by
        rw [← Nat.add_mul, hval]
      refine ⟨by omega, ?_⟩
      have hsame : (step 0 a).1 * d * base ^ as.length + accounted base step d (step 0 a).2 as =
            0 * base * base ^ as.length + a * base ^ as.length + valueFrom base 0 as ↔
          accounted base step d (step 0 a).2 as =
            (step 0 a).2 * base ^ as.length + valueFrom base 0 as := by omega
      rw [hsame, hiff, hrem]
      cases as with
      | nil => simp
      | cons b bs => simp
    · -- the upper digit is lost
      have hlost : r * base ^ as.length < r * base * base ^ as.length := by
        apply Nat.mul_lt_mul_of_pos_right _ hpow
        exact lt_mul_of_one_lt_right (Nat.pos_of_ne_zero h0) hbase
      rw [Nat.add_mul, Nat.add_mul] at hmul
      refine ⟨by omega, ?_⟩
      simp only [reduceCtorEq, h0, or_self, false_and, iff_false]
      omega

end Exact

end Schoolbook
