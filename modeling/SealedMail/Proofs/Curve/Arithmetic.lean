import SealedMail.Proofs.Curve.Primality
import SealedMail.Curve.Point

/-!
# The fields of coordinates and scalars

Canonical residues modulo a prime form a field whose inverses are powers (`residueField`). Both
rings of the curve are instances, and the inverses of the library are the inverses of these fields
(`Coordinate.inverse_eq`, `Scalar.inverse_eq`). The field prime is three modulo four, so the power
in `Coordinate.sqrt` is a square root of every square (`Coordinate.sqrt_mul_self`).

The field instances are scoped, so that the definitions of the library keep the ring operations
they were written with.
-/

namespace SealedMail.Curve

namespace Arithmetic

/-- Fermat's theorem for canonical residues. -/
theorem residue_pow_pred {n : ℕ} [NeZero n] (prime : n.Prime) :
    let _ := Fin.instCommRing n
    ∀ x : Fin n, x ≠ 0 → x ^ (n - 1) = 1 := by
  intro _ x hx
  have := Fact.mk prime
  -- Both sides are compared in the integers modulo `n`, where the theorem is known.
  apply (ZMod.finEquiv n).injective
  rw [map_pow, map_one]
  exact ZMod.pow_card_sub_one_eq_one ((map_ne_zero_iff _ (ZMod.finEquiv n).injective).2 hx)

/-- The field of canonical residues modulo an odd prime; inverses are powers. -/
@[reducible] def residueField (n : ℕ) [NeZero n] (prime : n.Prime) (odd : 2 < n)
    (bound : n ≤ 2 ^ 256) : Field (Fin n) where
  toCommRing := Fin.instCommRing n
  inv x := power x 256 (n - 2)
  div x y := x * power y 256 (n - 2)
  div_eq_mul_inv _ _ := rfl
  exists_pair_ne := ⟨⟨0, prime.pos⟩, ⟨1, prime.one_lt⟩, by simp⟩
  mul_inv_cancel x hx := by
    let _ := Fin.instCommRing n
    have hpower : power x 256 (n - 2) = x ^ (n - 2) := power_eq_pow_of_lt x (by omega)
    show x * power x 256 (n - 2) = _
    rw [hpower, ← pow_succ', show n - 2 + 1 = n - 1 by omega]
    exact residue_pow_pred prime x hx
  inv_zero := by
    let _ := Fin.instCommRing n
    have hpower : power (0 : Fin n) 256 (n - 2) = 0 ^ (n - 2) := power_eq_pow_of_lt _ (by omega)
    show power (0 : Fin n) 256 (n - 2) = 0
    rw [hpower, zero_pow (by omega)]
  nnqsmul := _
  qsmul := _

/-- The field of coordinates. -/
scoped instance coordinateField : Field Coordinate :=
  residueField fieldPrime prime_fieldPrime (by decide +kernel) (by decide +kernel)

/-- The field of scalars. -/
scoped instance scalarField : Field Scalar :=
  residueField groupOrder prime_groupOrder (by decide +kernel) (by decide +kernel)

end Arithmetic

open scoped Arithmetic

namespace Coordinate

theorem inverse_eq (x : Coordinate) : inverse x = x⁻¹ := rfl

theorem pow_pred {x : Coordinate} (h : x ≠ 0) : x ^ (fieldPrime - 1) = 1 :=
  Arithmetic.residue_pow_pred prime_fieldPrime x h

theorem sqrt_eq_pow (x : Coordinate) : sqrt x = x ^ ((fieldPrime + 1) / 4) :=
  power_eq_pow_of_lt x (by decide +kernel)

/-- The power in `sqrt` is a root of every square. -/
theorem sqrt_mul_self {x y : Coordinate} (h : y * y = x) : sqrt x * sqrt x = x := by
  by_cases hy : y = 0
  · subst hy
    rw [← h, sqrt_eq_pow]
    simp [show (fieldPrime + 1) / 4 ≠ 0 by decide +kernel]
  · have half : (fieldPrime + 1) / 4 * 2 * 2 = (fieldPrime - 1) + 2 := by decide +kernel
    calc sqrt x * sqrt x = y ^ ((fieldPrime + 1) / 4 * 2 * 2) := by
          rw [sqrt_eq_pow, ← h]; ring
      _ = y ^ (fieldPrime - 1) * y ^ 2 := by rw [half, pow_add]
      _ = x := by rw [pow_pred hy, one_mul, sq, h]

/-- Of two opposite coordinates other than zero one is odd, because the field prime is. -/
theorem isOdd_neg {x : Coordinate} (h : x ≠ 0) : isOdd (-x) = !isOdd x := by
  have hx : x.val ≠ 0 := by
    intro e
    apply h
    exact Fin.ext e
  have hval : (-x).val = fieldPrime - x.val := by
    rw [Fin.val_neg', Nat.mod_eq_of_lt (by have := x.isLt; omega)]
  have hprime : fieldPrime % 2 = 1 := by decide +kernel
  have := x.isLt
  rw [isOdd, isOdd, hval]
  -- The prime is odd, so the difference to it has the other parity.
  have parity : (fieldPrime - x.val) % 2 = (1 + x.val) % 2 := by omega
  rcases Nat.mod_two_eq_zero_or_one x.val with h | h
  · simp [parity, Nat.add_mod, h]
  · simp [parity, Nat.add_mod, h]

end Coordinate

namespace Scalar

theorem inverse_eq (x : Scalar) : inverse x = x⁻¹ := rfl

end Scalar

end SealedMail.Curve
