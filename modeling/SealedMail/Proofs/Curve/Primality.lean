import Mathlib
import SealedMail.Curve.Field

/-!
# The two moduli are prime

The coordinate field and the scalar field have prime moduli (`prime_fieldPrime`,
`prime_groupOrder`). A number `p` is prime if some residue has order `p - 1`, which is tested on
the prime factors of `p - 1` (`prime_of_root`). Those have certificates of the same form, listed
before the number that uses them, down to primes that are small enough for trial division
(`primalityTable`). Powers are evaluated by `power`, which is the power of the monoid for every
exponent that fits its width (`power_eq_pow_of_lt`).
-/

namespace SealedMail.Curve

theorem power_eq_pow {R : Type} [Monoid R] (base : R) (width exponent : ℕ) :
    power base width exponent = base ^ (exponent % 2 ^ width) := by
  -- The exponent loses its lowest bit at each step, so it is left general.
  induction width generalizing exponent with
  | zero => simp [power, Nat.mod_one]
  | succ width ih =>
      have split : exponent % 2 ^ (width + 1) =
          2 * (exponent / 2 % 2 ^ width) + exponent % 2 := by
        rw [pow_succ', Nat.mod_mul]
        omega
      simp only [power, ih, split]
      rcases Nat.mod_two_eq_zero_or_one exponent with h | h
      · simp [h, two_mul, pow_add]
      · simp [h, two_mul, pow_add]

theorem power_eq_pow_of_lt {R : Type} [Monoid R] (base : R) {width exponent : ℕ}
    (h : exponent < 2 ^ width) : power base width exponent = base ^ exponent := by
  rw [power_eq_pow, Nat.mod_eq_of_lt h]

/-! ## Certificates -/

/-- Evidence that a number is prime: a residue whose order is one less than the number, and the
prime factors of that order with their multiplicities. -/
structure Certificate where
  number : ℕ
  root : ℕ
  factors : List ℕ

/-- The residue has full order, and all factors are among the known primes. -/
def Certificate.Accepted (c : Certificate) (known : List ℕ) : Prop :=
  c.factors.prod = c.number - 1 ∧ c.number ≤ 2 ^ 256 ∧
    power (c.root : ZMod c.number) 256 (c.number - 1) = 1 ∧
    ∀ q ∈ c.factors, q ∈ known ∧ power (c.root : ZMod c.number) 256 ((c.number - 1) / q) ≠ 1

instance (c : Certificate) (known : List ℕ) : Decidable (c.Accepted known) :=
  inferInstanceAs (Decidable (_ ∧ _))

/-- Each certificate is accepted with the numbers before it. -/
def AllAccepted (known : List ℕ) : List Certificate → Prop
  | [] => True
  | c :: table => c.Accepted known ∧ AllAccepted (c.number :: known) table

instance decidableAllAccepted : ∀ known table, Decidable (AllAccepted known table)
  | _, [] => inferInstanceAs (Decidable True)
  | known, c :: table =>
      have := decidableAllAccepted (c.number :: known) table
      inferInstanceAs (Decidable (c.Accepted known ∧ _))

theorem prime_of_root {p : ℕ} (root : ZMod p) {factors : List ℕ}
    (primes : ∀ q ∈ factors, q.Prime) (product : factors.prod = p - 1) (bound : p ≤ 2 ^ 256)
    (one : power root 256 (p - 1) = 1)
    (ne_one : ∀ q ∈ factors, power root 256 ((p - 1) / q) ≠ 1) : p.Prime := by
  have exact_power : ∀ e ≤ p - 1, power root 256 e = root ^ e := by
    intro e he
    have small : p - 1 < 2 ^ 256 := by omega
    exact power_eq_pow_of_lt root (lt_of_le_of_lt he small)
  apply lucas_primality p root
  · rw [← exact_power _ le_rfl]
    exact one
  · intro q hq hdvd
    -- A prime divisor of `p - 1` is one of the listed factors.
    have listed : q ∈ factors :=
      mem_list_primes_of_dvd_prod hq.prime (fun r hr => (primes r hr).prime) (product ▸ hdvd)
    rw [← exact_power _ (Nat.div_le_self _ _)]
    exact ne_one q listed

theorem Certificate.Accepted.prime {c : Certificate} {known : List ℕ} (h : c.Accepted known)
    (primes : ∀ q ∈ known, q.Prime) : c.number.Prime := by
  obtain ⟨product, bound, one, factors⟩ := h
  refine prime_of_root (c.root : ZMod c.number) ?_ product bound one ?_
  · intro q hq
    exact primes q (factors q hq).1
  · intro q hq
    exact (factors q hq).2

/-- Every number with a certificate in an accepted table is prime. -/
theorem AllAccepted.prime {known : List ℕ} {table : List Certificate} (h : AllAccepted known table)
    (primes : ∀ q ∈ known, q.Prime) : ∀ c ∈ table, c.number.Prime := by
  induction table generalizing known with
  | nil =>
      intro c hc
      simp at hc
  | cons first table ih =>
      obtain ⟨accepted, rest⟩ := h
      have hfirst := accepted.prime primes
      -- What the rest of the table may use is prime as well.
      have known' : ∀ q ∈ first.number :: known, q.Prime := by
        intro q hq
        rcases List.mem_cons.1 hq with rfl | hq
        · exact hfirst
        · exact primes q hq
      intro c hc
      rcases List.mem_cons.1 hc with rfl | hc
      · exact hfirst
      · exact ih rest known' c hc

/-! ## The table -/

/-- The prime factors below ten million. -/
def smallPrimes : List ℕ :=
  [2, 3, 5, 7, 11, 17, 29, 31, 41, 53, 59, 109, 149, 293, 461, 631, 797, 971, 1373, 1627, 2621,
   2657, 4051, 4423, 5323, 7723, 9349, 13441, 16699, 24809, 28181, 41201, 85831, 96557, 120233,
   305873, 1627771, 4681609, 7240687]

theorem prime_of_mem_smallPrimes : ∀ q ∈ smallPrimes, q.Prime := by
  simp only [smallPrimes, List.forall_mem_cons, List.not_mem_nil, false_imp_iff, implies_true,
    and_true]
  norm_num

/-- Certificates for the larger prime factors, and for the two moduli. -/
def primalityTable : List Certificate :=
  [⟨13331831, 13, [2, 5, 971, 1373]⟩,
   ⟨107590001, 3, [2, 2, 2, 2, 5, 5, 5, 5, 7, 29, 53]⟩,
   ⟨173378833005251801, 6, [2, 2, 2, 5, 5, 2621, 24809, 13331831]⟩,
   ⟨22149492674086928081353, 5, [2, 2, 2, 3, 5323, 173378833005251801]⟩,
   ⟨132896956044521568488119, 6, [2, 3, 22149492674086928081353]⟩,
   ⟨255515944373312847190720520512484175977, 3,
    [2, 2, 2, 7, 7, 11, 1627, 2657, 4423, 41201, 96557, 7240687, 107590001]⟩,
   ⟨205115282021455665897114700593932402728804164701536103180137503955397371, 10,
    [2, 3, 5, 29, 29, 31, 7723, 132896956044521568488119,
     255515944373312847190720520512484175977]⟩,
   ⟨fieldPrime, 3,
    [2, 3, 7, 13441, 205115282021455665897114700593932402728804164701536103180137503955397371]⟩,
   ⟨44706919, 6, [2, 3, 797, 9349]⟩,
   ⟨545358713, 5, [2, 2, 2, 41, 59, 28181]⟩,
   ⟨297159362677, 2, [2, 2, 3, 3, 11, 461, 1627771]⟩,
   ⟨29047611873442575647497758179, 2, [2, 293, 305873, 545358713, 297159362677]⟩,
   ⟨341948486974166000522343609283189, 2, [2, 2, 3, 3, 3, 109, 29047611873442575647497758179]⟩,
   ⟨107361793816595537, 3, [2, 2, 2, 2, 16699, 85831, 4681609]⟩,
   ⟨174723607534414371449, 3, [2, 2, 2, 17, 59, 4051, 120233, 44706919]⟩,
   ⟨groupOrder, 7,
    [2, 2, 2, 2, 2, 2, 3, 149, 631, 107361793816595537, 174723607534414371449,
     341948486974166000522343609283189]⟩]

theorem primalityTable_accepted : AllAccepted smallPrimes primalityTable := by decide +kernel

/-- The modulus of the coordinates is prime. -/
theorem prime_fieldPrime : Nat.Prime fieldPrime :=
  primalityTable_accepted.prime prime_of_mem_smallPrimes primalityTable[7] (List.getElem_mem _)

/-- The modulus of the scalars is prime. -/
theorem prime_groupOrder : Nat.Prime groupOrder :=
  primalityTable_accepted.prime prime_of_mem_smallPrimes primalityTable[15] (List.getElem_mem _)

end SealedMail.Curve
