import SealedMail.Proofs.Curve.Group

/-!
# The order of the group

The generator has order `groupOrder` (`addOrderOf_base`). The curve has at most two points over
each first coordinate, so it has fewer than `3 * groupOrder` points; it has no point of order two,
because `-7` is no cube. Hence the group has exactly `groupOrder` elements (`card_group`) and is a
vector space over the field of scalars, whose scalar multiples are the multiples of the library
(`Point.multiple_eq_smul`).
-/

namespace SealedMail.Curve

open scoped Arithmetic

theorem cube_add_seven_ne_zero (x : Coordinate) : x * x * x + 7 ≠ 0 := by
  intro h
  have hx : x ≠ 0 := by
    rintro rfl
    exact absurd h (by decide +kernel)
  have cube : x ^ 3 = -7 := by linear_combination h
  -- The powers of a cube to a third of the group order would be one.
  have third : 3 * ((fieldPrime - 1) / 3) = fieldPrime - 1 := by decide +kernel
  have one : (-7 : Coordinate) ^ ((fieldPrime - 1) / 3) = 1 := by
    rw [← cube, ← pow_mul, third, Coordinate.pow_pred hx]
  have hpower : power (-7 : Coordinate) 256 ((fieldPrime - 1) / 3) = 1 :=
    (power_eq_pow_of_lt _ (by decide +kernel)).trans one
  exact absurd hpower (by decide +kernel)

theorem OnCurve.y_ne_zero {x y : Coordinate} (h : OnCurve x y) : y ≠ 0 := by
  rintro rfl
  exact cube_add_seven_ne_zero x (by rw [← h, mul_zero])

/-! ## The generator -/

/-- The generator as a group element. -/
def base : CurveGroup := .some generatorX generatorY (nonsingular_iff.2 onCurve_generator)

@[simp] theorem ofGroup_base : Point.ofGroup base = Point.generator := rfl

theorem base_ne_zero : base ≠ 0 := WeierstrassCurve.Affine.Point.some_ne_zero _

theorem groupOrder_smul_base : groupOrder • base = 0 := by
  have multiple := Projective.toPoint_multiple (nonsingular_iff.2 onCurve_generator) 256 groupOrder
  rw [Nat.mod_eq_of_lt (by decide +kernel), Projective.toPoint_of_z_eq_zero (by decide +kernel)]
    at multiple
  exact Point.ofGroup_eq_identity.1 multiple.symm

theorem addOrderOf_base : addOrderOf base = groupOrder := by
  have := Fact.mk prime_groupOrder
  exact addOrderOf_eq_prime groupOrder_smul_base base_ne_zero

/-! ## The number of points -/

/-- The first coordinate of a group element and the parity of the second. -/
def compress : CurveGroup → Option (Coordinate × Bool)
  | .zero => none
  | .some x y _ => some (x, y.isOdd)

theorem compress_injective : Function.Injective compress := by
  rintro (_ | ⟨x, y, h⟩) (_ | ⟨x', y', h'⟩) e
  · rfl
  · cases e
  · cases e
  · simp only [compress, Option.some.injEq, Prod.mk.injEq] at e
    obtain ⟨rfl, parity⟩ := e
    -- Over one first coordinate the second is determined up to its sign, which the parity tells.
    rcases WeierstrassCurve.Affine.Y_eq_of_X_eq h.1 h'.1 rfl with rfl | hy
    · rfl
    · rw [negY_eq] at hy
      rw [hy, Coordinate.isOdd_neg (nonsingular_iff.1 h').y_ne_zero] at parity
      simp at parity

instance : Finite CurveGroup := Finite.of_injective compress compress_injective

theorem card_group_le : Nat.card CurveGroup ≤ 2 * fieldPrime + 1 := by
  calc Nat.card CurveGroup ≤ Nat.card (Option (Coordinate × Bool)) :=
        Nat.card_le_card_of_injective _ compress_injective
    _ = 2 * fieldPrime + 1 := by
        rw [Finite.card_option, Nat.card_prod, Nat.card_eq_fintype_card, Nat.card_eq_fintype_card,
          Fintype.card_fin, Fintype.card_bool, mul_comm]

theorem not_two_dvd_card_group : ¬ 2 ∣ Nat.card CurveGroup := by
  intro h
  have := Fact.mk Nat.prime_two
  obtain ⟨P, hP⟩ := exists_prime_addOrderOf_dvd_card' 2 h
  have double : P + P = 0 := by rw [← two_nsmul, ← hP, addOrderOf_nsmul_eq_zero]
  rcases P with _ | ⟨x, y, hn⟩
  · exact absurd (hP.symm.trans addOrderOf_zero) (by decide)
  · -- An element that is its own opposite has second coordinate zero.
    have opposite := congrArg Point.ofGroup (eq_neg_of_add_eq_zero_left double)
    rw [Point.ofGroup_neg] at opposite
    have hy : y = -y := (Point.affine.inj opposite).2
    exact (nonsingular_iff.1 hn).y_ne_zero (Point.add_self_eq_zero_iff.1 hy)

/-- The curve has `groupOrder` points. -/
theorem card_group : Nat.card CurveGroup = groupOrder := by
  obtain ⟨count, hcount⟩ : groupOrder ∣ Nat.card CurveGroup :=
    addOrderOf_base ▸ addOrderOf_dvd_natCard base
  have bound : groupOrder * count < groupOrder * 3 :=
    lt_of_le_of_lt (hcount ▸ card_group_le) (by decide +kernel)
  have hlt : count < 3 := lt_of_mul_lt_mul_left bound (Nat.zero_le _)
  have hpos : 0 < Nat.card CurveGroup := Nat.card_pos
  have hodd := not_two_dvd_card_group
  -- The count is a multiple of the order, below three times the order, not zero and not even.
  interval_cases count
  · omega
  · omega
  · exact absurd (hcount ▸ Dvd.intro_left groupOrder rfl) hodd

theorem groupOrder_smul (P : CurveGroup) : groupOrder • P = 0 := by
  rw [← card_group]
  exact card_nsmul_eq_zero'

namespace Arithmetic

/-- The group as a vector space over the field of scalars. -/
scoped instance groupModule : Module Scalar CurveGroup :=
  letI := AddCommGroup.zmodModule groupOrder_smul
  Module.compHom CurveGroup (ZMod.finEquiv groupOrder).toRingHom

end Arithmetic

theorem smul_eq_val_smul (k : Scalar) (P : CurveGroup) : k • P = k.val • P := rfl

/-- The multiple of a point by a scalar is the scalar multiple in the group. -/
theorem Point.multiple_eq_smul (k : Scalar) (P : CurveGroup) :
    (ofGroup P).multiple k = ofGroup (k • P) := by
  rw [multiple_ofGroup, smul_eq_val_smul]

theorem smul_base_eq_zero_iff {k : Scalar} : k • base = 0 ↔ k = 0 := by
  simp [smul_eq_zero, base_ne_zero]

end SealedMail.Curve
