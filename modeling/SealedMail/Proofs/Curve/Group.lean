import SealedMail.Proofs.Curve.Arithmetic

/-!
# The group of the curve

The points of the curve are the points of Mathlib's Weierstrass curve `y² = x³ + 7` over the field
of coordinates, which form a commutative group `CurveGroup`. The chord and tangent law of the
library is the addition of that group (`Point.ofGroup_add`), and the computation in projective
coordinates gives its multiples (`Point.multiple_ofGroup`).

The invariant of the projective computation is that the coordinates stand for a group element:
`p.toPoint = Point.ofGroup P`.
-/

namespace SealedMail.Curve

open scoped Arithmetic

/-- The curve `y² = x³ + 7`. -/
def weierstrass : WeierstrassCurve.Affine Coordinate where
  a₁ := 0
  a₂ := 0
  a₃ := 0
  a₄ := 0
  a₆ := 7

/-- The points of the curve as a commutative group. -/
abbrev CurveGroup : Type := weierstrass.Point

theorem discriminant_ne_zero : weierstrass.Δ ≠ 0 := by
  have value : weierstrass.Δ = -27 * (4 * 7) ^ 2 := by
    simp only [WeierstrassCurve.Δ, WeierstrassCurve.b₂, WeierstrassCurve.b₄, WeierstrassCurve.b₆,
      WeierstrassCurve.b₈, weierstrass]
    ring
  rw [value]
  decide +kernel

theorem nonsingular_iff {x y : Coordinate} : weierstrass.Nonsingular x y ↔ OnCurve x y := by
  rw [← weierstrass.equation_iff_nonsingular_of_Δ_ne_zero discriminant_ne_zero,
    WeierstrassCurve.Affine.equation_iff]
  simp only [weierstrass, OnCurve]
  constructor
  · intro h
    linear_combination h
  · intro h
    linear_combination h

@[simp] theorem weierstrass_a₁ : weierstrass.a₁ = 0 := rfl
@[simp] theorem weierstrass_a₂ : weierstrass.a₂ = 0 := rfl
@[simp] theorem weierstrass_a₃ : weierstrass.a₃ = 0 := rfl
@[simp] theorem weierstrass_a₄ : weierstrass.a₄ = 0 := rfl

theorem negY_eq (x y : Coordinate) : weierstrass.negY x y = -y := by
  simp [WeierstrassCurve.Affine.negY]

namespace Point

/-- The coordinates of a group element. -/
def ofGroup : CurveGroup → Point
  | .zero => identity
  | .some x y _ => affine x y

@[simp] theorem ofGroup_zero : ofGroup 0 = identity := rfl

@[simp] theorem ofGroup_some {x y : Coordinate} (h : weierstrass.Nonsingular x y) :
    ofGroup (.some x y h) = affine x y := rfl

theorem ofGroup_injective : Function.Injective ofGroup := by
  rintro (_ | ⟨x, y, hx⟩) (_ | ⟨x', y', hx'⟩) h
  · rfl
  · cases h
  · cases h
  · cases h
    rfl

@[simp] theorem ofGroup_inj {P Q : CurveGroup} : ofGroup P = ofGroup Q ↔ P = Q :=
  ofGroup_injective.eq_iff

@[simp] theorem ofGroup_eq_identity {P : CurveGroup} : ofGroup P = identity ↔ P = 0 :=
  ofGroup_inj (Q := 0)

theorem ofGroup_neg (P : CurveGroup) : ofGroup (-P) = (ofGroup P).neg := by
  rcases P with _ | ⟨x, y, h⟩
  · rfl
  · rw [WeierstrassCurve.Affine.Point.neg_some]
    simp [neg]

theorem two_ne_zero : (2 : Coordinate) ≠ 0 := by decide +kernel

theorem add_self_eq_zero_iff {y : Coordinate} : y = -y ↔ y = 0 := by
  constructor
  · intro h
    have : 2 * y = 0 := by linear_combination h
    exact (mul_eq_zero.1 this).resolve_left two_ne_zero
  · rintro rfl
    simp

/-- Doubling by the tangent is adding an element to itself. -/
theorem ofGroup_add_self (P : CurveGroup) : ofGroup (P + P) = (ofGroup P).double := by
  rcases P with _ | ⟨x, y, h⟩
  · rfl
  · by_cases hy : y = 0
    · rw [WeierstrassCurve.Affine.Point.add_self_of_Y_eq (by simp [hy])]
      simp [double, hy]
    · -- The tangent is not vertical: both formulas have the slope over `2y`.
      have hne : y ≠ weierstrass.negY x y := by
        rw [negY_eq]
        intro e
        apply hy
        exact add_self_eq_zero_iff.1 e
      rw [WeierstrassCurve.Affine.Point.add_self_of_Y_ne hne, ofGroup_some, ofGroup_some, double,
        if_neg hy, reflect, WeierstrassCurve.Affine.slope_of_Y_ne rfl hne, Coordinate.inverse_eq,
        WeierstrassCurve.Affine.addX, WeierstrassCurve.Affine.addY,
        WeierstrassCurve.Affine.negAddY, WeierstrassCurve.Affine.addX]
      simp only [negY_eq, weierstrass_a₁, weierstrass_a₂, weierstrass_a₄, div_eq_mul_inv,
        sub_neg_eq_add, ← two_mul]
      refine congrArg₂ affine ?_ ?_
      · ring
      · ring

/-- The chord and tangent law is the addition of the group. -/
theorem ofGroup_add (P Q : CurveGroup) : ofGroup (P + Q) = (ofGroup P).add (ofGroup Q) := by
  rcases P with _ | ⟨x, y, h⟩
  · change ofGroup (0 + Q) = _
    rw [zero_add]
    rfl
  rcases Q with _ | ⟨x', y', h'⟩
  · change ofGroup (_ + 0) = _
    rw [add_zero]
    rfl
  simp only [ofGroup_some, add]
  by_cases hx : x = x'
  · subst hx
    by_cases hy : y = y'
    · subst hy
      simp only [if_true]
      exact ofGroup_add_self _
    · -- Two points over one first coordinate are equal or opposite.
      have hopp : y = weierstrass.negY x y' :=
        (WeierstrassCurve.Affine.Y_eq_of_X_eq h.1 h'.1 rfl).resolve_left hy
      rw [WeierstrassCurve.Affine.Point.add_of_Y_eq rfl hopp]
      simp [hy]
  · -- The chord has the same slope from either end.
    have slope : (y' - y) * (x' - x)⁻¹ = (y - y') * (x - x')⁻¹ := by
      rw [← neg_sub x x', inv_neg]
      ring
    rw [WeierstrassCurve.Affine.Point.add_of_X_ne hx, ofGroup_some, if_neg hx, reflect,
      Coordinate.inverse_eq, slope, WeierstrassCurve.Affine.slope_of_X_ne hx,
      WeierstrassCurve.Affine.addX, WeierstrassCurve.Affine.addY,
      WeierstrassCurve.Affine.negAddY, WeierstrassCurve.Affine.addX]
    simp only [negY_eq, weierstrass_a₁, weierstrass_a₂, div_eq_mul_inv]
    refine congrArg₂ affine ?_ ?_
    · ring
    · ring

end Point

/-! ## Projective coordinates -/

namespace Projective

theorem toPoint_of_z_eq_zero {p : Projective} (h : p.z = 0) : p.toPoint = .identity := by
  simp [toPoint, h]

theorem toPoint_of_z_ne_zero {p : Projective} (h : p.z ≠ 0) :
    p.toPoint = .affine (p.x * (p.z⁻¹ * p.z⁻¹)) (p.y * (p.z⁻¹ * p.z⁻¹ * p.z⁻¹)) := by
  simp only [toPoint, if_neg h, Coordinate.inverse_eq]

/-- Projective doubling is doubling by the tangent. -/
theorem toPoint_double (p : Projective) : p.double.toPoint = p.toPoint.double := by
  have two := Point.two_ne_zero
  by_cases hz : p.z = 0
  · have hz' : p.double.z = 0 := by simp [double, hz]
    rw [toPoint_of_z_eq_zero hz, toPoint_of_z_eq_zero hz', Point.double]
  · by_cases hy : p.y = 0
    · -- A point of order two, doubled.
      have hz' : p.double.z = 0 := by simp [double, hy]
      rw [toPoint_of_z_eq_zero hz', toPoint_of_z_ne_zero hz]
      simp [Point.double, hy]
    · have hz' : p.double.z ≠ 0 := mul_ne_zero two (mul_ne_zero hy hz)
      have hne : p.y * (p.z⁻¹ * p.z⁻¹ * p.z⁻¹) ≠ 0 := by simp [hy, hz]
      rw [toPoint_of_z_ne_zero hz', toPoint_of_z_ne_zero hz, Point.double, if_neg hne,
        Point.reflect, Coordinate.inverse_eq]
      simp only [double]
      refine congrArg₂ Point.affine ?_ ?_
      · field_simp
        ring
      · field_simp
        ring

/-- Adding an affine point in projective coordinates is adding it along the chord or tangent. -/
theorem toPoint_addAffine (p : Projective) (x y : Coordinate) :
    (p.addAffine x y).toPoint = p.toPoint.add (.affine x y) := by
  by_cases hz : p.z = 0
  · rw [toPoint_of_z_eq_zero hz, addAffine, if_pos hz, toPoint_of_z_ne_zero one_ne_zero]
    simp [Point.add]
  · have sameX : x * (p.z * p.z) - p.x = 0 ↔ p.x * (p.z⁻¹ * p.z⁻¹) = x := by
      rw [sub_eq_zero, eq_comm]
      field_simp
    have sameY : y * (p.z * p.z * p.z) - p.y = 0 ↔ p.y * (p.z⁻¹ * p.z⁻¹ * p.z⁻¹) = y := by
      rw [sub_eq_zero, eq_comm]
      field_simp
    rw [toPoint_of_z_ne_zero hz, addAffine, if_neg hz, Point.add]
    by_cases hx : x * (p.z * p.z) - p.x = 0
    · by_cases hy : y * (p.z * p.z * p.z) - p.y = 0
      · simp only [if_pos hx, if_pos hy, if_pos (sameX.1 hx), if_pos (sameY.1 hy)]
        rw [toPoint_double, toPoint_of_z_ne_zero hz]
      · simp only [if_pos hx, if_neg hy, if_pos (sameX.1 hx), if_neg (mt sameY.2 hy)]
        exact toPoint_of_z_eq_zero rfl
    · simp only [if_neg hx, if_neg (mt sameX.2 hx), Point.reflect, Coordinate.inverse_eq]
      rw [toPoint_of_z_ne_zero (mul_ne_zero hz hx)]
      -- The differences of the coordinates are those of the projective ones, up to the scale.
      generalize hh : x * (p.z * p.z) - p.x = h at hx ⊢
      generalize hr : y * (p.z * p.z * p.z) - p.y = r
      have hx_eq : x = (p.x + h) * (p.z⁻¹ * p.z⁻¹) := by
        rw [← hh]
        field_simp
        ring
      have hy_eq : y = (p.y + r) * (p.z⁻¹ * p.z⁻¹ * p.z⁻¹) := by
        rw [← hr]
        field_simp
        ring
      have dx : x - p.x * (p.z⁻¹ * p.z⁻¹) = h * (p.z⁻¹ * p.z⁻¹) := by rw [hx_eq]; ring
      have dy : y - p.y * (p.z⁻¹ * p.z⁻¹ * p.z⁻¹) = r * (p.z⁻¹ * p.z⁻¹ * p.z⁻¹) := by
        rw [hy_eq]
        ring
      rw [dx, dy, hx_eq]
      refine congrArg₂ Point.affine ?_ ?_
      · field_simp
        ring
      · field_simp
        ring

/-- One bit of the factor a step: the coordinates stand for the multiple by the bits read. -/
theorem toPoint_multiple {x y : Coordinate} (h : weierstrass.Nonsingular x y) (width factor : ℕ) :
    (multiple x y width factor).toPoint = Point.ofGroup
      ((factor % 2 ^ width) • (WeierstrassCurve.Affine.Point.some x y h : CurveGroup)) := by
  -- The invariant is the statement itself; the factor is halved at each step.
  induction width generalizing factor with
  | zero =>
      rw [pow_zero, Nat.mod_one, zero_smul]
      exact toPoint_of_z_eq_zero rfl
  | succ width ih =>
      have split : factor % 2 ^ (width + 1) = factor / 2 % 2 ^ width +
          factor / 2 % 2 ^ width + factor % 2 := by
        rw [pow_succ', Nat.mod_mul]
        omega
      have half : (multiple x y width (factor / 2)).double.toPoint =
          Point.ofGroup ((factor / 2 % 2 ^ width + factor / 2 % 2 ^ width) •
            (WeierstrassCurve.Affine.Point.some x y h : CurveGroup)) := by
        rw [toPoint_double, ih, ← Point.ofGroup_add_self, ← add_smul]
      rw [multiple, split, add_smul]
      rcases Nat.mod_two_eq_zero_or_one factor with hbit | hbit
      · simp only [hbit, zero_ne_one, if_false, zero_smul, add_zero]
        exact half
      · simp only [hbit, if_true, one_smul]
        rw [toPoint_addAffine, half, Point.ofGroup_add, Point.ofGroup_some]

end Projective

/-- The multiple of a point is its multiple in the group. -/
theorem Point.multiple_ofGroup (factor : Scalar) (P : CurveGroup) :
    (ofGroup P).multiple factor = ofGroup (factor.val • P) := by
  rcases P with _ | ⟨x, y, h⟩
  · change identity = ofGroup (factor.val • 0)
    rw [smul_zero, ofGroup_zero]
  · have small : factor.val < 2 ^ 256 := lt_trans factor.isLt (by decide +kernel)
    rw [ofGroup_some, multiple, Projective.toPoint_multiple h, Nat.mod_eq_of_lt small]

end SealedMail.Curve
