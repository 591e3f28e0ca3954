import SealedMail.Cipher.Galois
import SealedMail.Proofs.Curve.Primality

/-!
# Products of field elements

Multiplication by `x` is additive and injective, and a product with `xᵏ` is `k` multiplications by
`x` (`mul_iterate_shift`). The powers of `x` run through all elements other than zero before they
repeat (`exists_iterate_shift`), because the order of `x` divides `2¹²⁸ - 1` and no proper divisor
of it. Hence the product of two elements other than zero is not zero (`mul_injective`).
-/

namespace SealedMail.Galois

/-! ## Multiplication by `x` -/

theorem shift_eq (e : Element) :
    shift e = (e >>> 1) ^^^ (if e.getLsbD 0 then 0xe1#128 <<< 120 else 0#128) := by
  rw [shift]
  split <;> simp

theorem shift_zero : shift 0#128 = 0#128 := by decide

/-- Multiplication by `x` is additive. -/
theorem shift_xor (a b : Element) : shift (a ^^^ b) = shift a ^^^ shift b := by
  have carry : (if (a ^^^ b).getLsbD 0 then 0xe1#128 <<< 120 else 0#128) =
      (if a.getLsbD 0 then 0xe1#128 <<< 120 else 0#128) ^^^
        (if b.getLsbD 0 then 0xe1#128 <<< 120 else 0#128) := by
    rw [BitVec.getLsbD_xor]
    cases a.getLsbD 0 <;> cases b.getLsbD 0 <;> decide
  rw [shift_eq, shift_eq, shift_eq, BitVec.ushiftRight_xor_distrib, carry]
  ac_rfl

theorem eq_zero_of_shift_eq_zero {e : Element} (h : shift e = 0#128) : e = 0#128 := by
  have top : (shift e).getLsbD 127 = false := by simp [h]
  have low : e.getLsbD 0 = false := by
    by_contra hlow
    rw [shift_eq] at top
    simp [hlow] at top
  rw [shift_eq, low] at h
  apply BitVec.eq_of_getLsbD_eq
  intro i hi
  rcases i with _ | i
  · simpa using low
  · -- The other bits are those of the shifted element, one place lower.
    have bit := congrArg (fun v : Element => v.getLsbD i) h
    simpa [Nat.add_comm] using bit

theorem shift_injective : Function.Injective shift := by
  intro a b h
  have difference : shift (a ^^^ b) = 0#128 := by rw [shift_xor, h, BitVec.xor_self]
  apply BitVec.xor_eq_zero_iff.1
  exact eq_zero_of_shift_eq_zero difference

/-! ## Products -/

theorem mulFrom_shift (e : Element) (count : ℕ) (factor : Element) :
    mulFrom e count (shift factor) = shift (mulFrom e count factor) := by
  induction count generalizing factor with
  | zero => simp [mulFrom, shift_zero]
  | succ count ih =>
      simp only [mulFrom, ih]
      split
      · rw [shift_xor]
      · rfl

/-- The constant term alone. -/
def one : Element := BitVec.twoPow 128 127

theorem shift_twoPow {i : ℕ} (h : i + 1 < 128) :
    shift (BitVec.twoPow 128 (i + 1)) = BitVec.twoPow 128 i := by
  have low : (BitVec.twoPow 128 (i + 1)).getLsbD 0 = false := by simp
  rw [shift_eq, low]
  apply BitVec.eq_of_getLsbD_eq
  intro j hj
  simp [h, show i < 128 by omega, Nat.add_comm 1 j]

theorem getLsbD_mulFrom_succ (e : Element) (count i : ℕ) {power : ℕ} (h : power < 128) :
    (mulFrom e (count + 1) (BitVec.twoPow 128 power)).getLsbD i =
      ((e.getLsbD count && decide (power = i)) ^^
        (mulFrom e count (shift (BitVec.twoPow 128 power))).getLsbD i) := by
  rw [mulFrom]
  cases e.getLsbD count with
  | false => simp
  | true => simp only [if_true, BitVec.getLsbD_xor, BitVec.getLsbD_twoPow, h, decide_true,
      Bool.true_and]

/-- The last terms of a product with one, bit by bit. -/
theorem getLsbD_mulFrom_twoPow (e : Element) {count : ℕ} (h : count < 128) (i : ℕ) :
    (mulFrom e (count + 1) (BitVec.twoPow 128 count)).getLsbD i =
      (e.getLsbD i && decide (i ≤ count)) := by
  induction count with
  | zero =>
      rw [getLsbD_mulFrom_succ e 0 i h, mulFrom]
      by_cases hi : i = 0
      · subst hi
        simp
      · simp [hi, Ne.symm hi]
  | succ count ih =>
      rw [getLsbD_mulFrom_succ e _ i h, shift_twoPow h, ih (by omega)]
      by_cases hi : i = count + 1
      · subst hi
        simp
      · have same : (i ≤ count + 1) = (i ≤ count) := by
          rw [eq_iff_iff]
          omega
        simp [same, Ne.symm hi]

theorem mul_one (e : Element) : mul e one = e := by
  apply BitVec.eq_of_getLsbD_eq
  intro i hi
  rw [mul, one, getLsbD_mulFrom_twoPow e (by decide) i, decide_eq_true (by omega), Bool.and_true]

/-- A product with a power of `x` is that many multiplications by `x`. -/
theorem mul_iterate_shift (e : Element) (k : ℕ) : mul e (shift^[k] one) = shift^[k] e := by
  induction k with
  | zero => exact mul_one e
  | succ k ih =>
      rw [Function.iterate_succ_apply', Function.iterate_succ_apply', ← ih, mul, mulFrom_shift, mul]

/-! ## The powers of `x` -/

/-- The number of elements other than zero. -/
def unitCount : ℕ := 2 ^ 128 - 1

/-- The prime factors of the number of elements other than zero. -/
def unitCountFactors : List ℕ := [3, 5, 17, 257, 641, 65537, 274177, 6700417, 67280421310721]

/-! The powers are evaluated on the values of the elements. The operations on numbers are written by
name, so that each of them is a single step of the evaluation. -/

/-- The value of `shift`. -/
def shiftValue (e : ℕ) : ℕ :=
  Nat.xor (Nat.div e 2) (Nat.mul 0xe1000000000000000000000000000000 (Nat.mod e 2))

/-- The value of `mulFrom`. -/
def mulValue (e : ℕ) : (count factor : ℕ) → ℕ
  | 0, _ => 0
  | count + 1, factor =>
      Nat.xor (Nat.mul factor (Nat.mod (Nat.shiftRight e count) 2))
        (mulValue e count (shiftValue factor))

/-- The value of the power of `x` with the `width` lowest bits of `exponent`. -/
def powerValue : (width exponent : ℕ) → ℕ
  | 0, _ => one.toNat
  | width + 1, exponent =>
      let half := powerValue width (exponent / 2)
      if exponent % 2 = 1 then shiftValue (mulValue half 128 half) else mulValue half 128 half

theorem toNat_shift (e : Element) : (shift e).toNat = shiftValue e.toNat := by
  have constant : (0xe1#128 <<< 120).toNat = 0xe1000000000000000000000000000000 := by decide
  change _ = e.toNat / 2 ^^^ 0xe1000000000000000000000000000000 * (e.toNat % 2)
  rw [shift_eq, BitVec.toNat_xor, BitVec.toNat_ushiftRight, Nat.shiftRight_eq_div_pow, pow_one,
    BitVec.getLsbD, Nat.testBit_zero]
  rcases Nat.mod_two_eq_zero_or_one e.toNat with h | h
  · simp [h]
  · simp only [h, decide_true, if_true, constant, Nat.mul_one]

theorem toNat_mulFrom (e : Element) (count : ℕ) (factor : Element) :
    (mulFrom e count factor).toNat = mulValue e.toNat count factor.toNat := by
  -- The factor is shifted at each step on both sides.
  induction count generalizing factor with
  | zero => rfl
  | succ count ih =>
      change _ = (factor.toNat * (e.toNat >>> count % 2)) ^^^
        mulValue e.toNat count (shiftValue factor.toNat)
      rw [mulFrom, BitVec.getLsbD, ← toNat_shift, ← ih]
      rcases Nat.mod_two_eq_zero_or_one (e.toNat >>> count) with h | h
      · simp [Nat.testBit_eq_decide_div_mod_eq, ← Nat.shiftRight_eq_div_pow, h]
      · simp [Nat.testBit_eq_decide_div_mod_eq, ← Nat.shiftRight_eq_div_pow, h]

theorem powerValue_eq (width exponent : ℕ) :
    powerValue width exponent = (shift^[exponent % 2 ^ width] one).toNat := by
  induction width generalizing exponent with
  | zero => simp [powerValue, Nat.mod_one]
  | succ width ih =>
      -- The exponent as it is computed with: its half, taken twice, and its last bit.
      have split : exponent % 2 ^ (width + 1) = exponent % 2 + (exponent / 2 % 2 ^ width +
          exponent / 2 % 2 ^ width) := by
        rw [pow_succ', Nat.mod_mul]
        omega
      have square : mulValue (powerValue width (exponent / 2)) 128
          (powerValue width (exponent / 2)) =
            (shift^[exponent / 2 % 2 ^ width + exponent / 2 % 2 ^ width] one).toNat := by
        rw [ih, ← toNat_mulFrom, ← mul, mul_iterate_shift, ← Function.iterate_add_apply]
      rw [powerValue, split, square]
      rcases Nat.mod_two_eq_zero_or_one exponent with h | h
      · simp only [h, zero_ne_one, if_false, zero_add]
      · simp only [h, if_true]
        rw [Nat.add_comm 1, Function.iterate_succ_apply', toNat_shift]

theorem iterate_shift_eq_one_iff {exponent : ℕ} (h : exponent < 2 ^ 128) :
    shift^[exponent] one = one ↔ powerValue 128 exponent = one.toNat := by
  rw [powerValue_eq, Nat.mod_eq_of_lt h, BitVec.toNat_inj]

/-- `x` to the number of units is one, and no quotient of that number by a prime factor will do. -/
theorem powerValue_unitCount : powerValue 128 unitCount = one.toNat ∧
    ∀ q ∈ unitCountFactors, powerValue 128 (unitCount / q) ≠ one.toNat := by
  decide +kernel

theorem prime_67280421310721 : Nat.Prime 67280421310721 := by
  have primes : ∀ q ∈ [2, 2, 2, 2, 2, 2, 2, 2, 5, 47, 373, 2998279], q.Prime := by
    simp only [List.forall_mem_cons, List.not_mem_nil, false_imp_iff, implies_true, and_true]
    norm_num
  exact Curve.prime_of_root (3 : ZMod 67280421310721) primes (by decide +kernel)
    (by decide +kernel) (by decide +kernel) (by decide +kernel)

theorem prime_of_mem_unitCountFactors : ∀ q ∈ unitCountFactors, q.Prime := by
  simp only [unitCountFactors, List.forall_mem_cons, List.not_mem_nil, false_imp_iff, implies_true,
    and_true, prime_67280421310721]
  norm_num

theorem mem_unitCountFactors {q : ℕ} (hq : q.Prime) (h : q ∣ unitCount) :
    q ∈ unitCountFactors := by
  have product : unitCountFactors.prod = unitCount := by decide +kernel
  apply mem_list_primes_of_dvd_prod hq.prime
  · intro r hr
    exact (prime_of_mem_unitCountFactors r hr).prime
  · rw [product]
    exact h

theorem isPeriodicPt_unitCount : Function.IsPeriodicPt shift unitCount one :=
  (iterate_shift_eq_one_iff (by decide +kernel)).2 powerValue_unitCount.1

/-- The powers of `x` do not repeat earlier. -/
theorem minimalPeriod_shift : Function.minimalPeriod shift one = unitCount := by
  obtain ⟨m, hm⟩ := isPeriodicPt_unitCount.minimalPeriod_dvd
  -- Otherwise the period would be a proper divisor of the number of units.
  by_contra hne
  have hm1 : m ≠ 1 := by
    rintro rfl
    apply hne
    rw [hm, Nat.mul_one]
  -- Some prime divides the index, and the quotient by it is a period already.
  obtain ⟨q, hq, c, rfl⟩ := Nat.exists_prime_and_dvd hm1
  have quotient : unitCount / q = Function.minimalPeriod shift one * c := by
    rw [hm, show ∀ a b c : ℕ, a * (b * c) = a * c * b by intros; ring]
    exact Nat.mul_div_cancel _ hq.pos
  have periodic : shift^[unitCount / q] one = one := by
    rw [quotient]
    exact (Function.isPeriodicPt_minimalPeriod shift one).mul_const c
  rw [iterate_shift_eq_one_iff (lt_of_le_of_lt (Nat.div_le_self _ _) (by decide +kernel))]
    at periodic
  have dvd : q ∣ unitCount := hm ▸ ⟨Function.minimalPeriod shift one * c, by ring⟩
  exact powerValue_unitCount.2 q (mem_unitCountFactors hq dvd) periodic

theorem iterate_shift_ne_zero (k : ℕ) : shift^[k] one ≠ 0#128 := by
  intro h
  -- Zero is the only element whose powers reach zero, since the shift is injective.
  have zeros : shift^[k] 0#128 = 0#128 := Function.iterate_fixed shift_zero k
  exact absurd (shift_injective.iterate k (h.trans zeros.symm)) (by decide)

theorem toNat_ne_zero {e : Element} (h : e ≠ 0#128) : e.toNat ≠ 0 := by
  intro zero
  apply h
  exact BitVec.eq_of_toNat_eq zero

/-- Every element other than zero is a power of `x`. -/
theorem exists_iterate_shift {e : Element} (h : e ≠ 0#128) : ∃ k, shift^[k] one = e := by
  have finite : Finite {e : Element // e ≠ 0#128} := by
    apply Finite.of_injective fun e => e.1.toFin
    intro a b hab
    apply Subtype.ext
    exact BitVec.eq_of_toFin_eq hab
  let power : Fin unitCount → {e : Element // e ≠ 0#128} :=
    fun k => ⟨shift^[k] one, iterate_shift_ne_zero k⟩
  have injective : Function.Injective power := by
    intro a b hab
    have bound (k : Fin unitCount) : k.val ∈ Set.Iio (Function.minimalPeriod shift one) := by
      rw [minimalPeriod_shift]
      exact k.isLt
    apply Fin.ext
    apply Function.iterate_injOn_Iio_minimalPeriod (bound a) (bound b)
    exact congrArg Subtype.val hab
  -- There are no more elements other than zero than powers.
  have count : Nat.card {e : Element // e ≠ 0#128} ≤ Nat.card (Fin unitCount) := by
    refine Nat.card_le_card_of_injective (fun e => ⟨e.1.toNat - 1, ?_⟩) ?_
    · have bound := e.1.isLt
      have positive := toNat_ne_zero e.2
      rw [unitCount]
      omega
    · intro a b hab
      have ha := toNat_ne_zero a.2
      have hb := toNat_ne_zero b.2
      have values := congrArg Fin.val hab
      simp only at values
      apply Subtype.ext
      apply BitVec.eq_of_toNat_eq
      omega
  obtain ⟨k, hk⟩ := (injective.bijective_of_nat_card_le count).2 ⟨e, h⟩
  exact ⟨k, congrArg Subtype.val hk⟩

/-- Multiplication by an element other than zero is injective. -/
theorem mul_injective {h : Element} (hh : h ≠ 0#128) : Function.Injective fun e => mul e h := by
  intro a b hab
  obtain ⟨k, rfl⟩ := exists_iterate_shift hh
  simp only [mul_iterate_shift] at hab
  exact shift_injective.iterate k hab

end SealedMail.Galois
