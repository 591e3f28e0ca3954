import SealedMail.Curve.Field

/-!
# Points of the curve

A point is the identity or a pair of coordinates. This module states the group law by chords and
tangents. Multiples of a point are computed in projective coordinates `(x / z², y / z³)`, which
need one division at the end instead of one for each step.
-/

namespace SealedMail.Curve

/-- The identity of the group, or a point of the affine plane. -/
inductive Point where
  | identity
  | affine (x y : Coordinate)
  deriving DecidableEq

/-- The equation of the curve. -/
def OnCurve (x y : Coordinate) : Prop := y * y = x * x * x + 7

instance (x y : Coordinate) : Decidable (OnCurve x y) :=
  inferInstanceAs (Decidable (y * y = x * x * x + 7))

/-- First coordinate of the generator of the group. -/
def generatorX : Coordinate := 0x79be667ef9dcbbac55a06295ce870b07029bfcdb2dce28d959f2815b16f81798

/-- Second coordinate of the generator of the group. -/
def generatorY : Coordinate := 0x483ada7726a3c4655da4fbfc0e1108a8fd17b448a68554199c47d08ffb10d4b8

theorem onCurve_generator : OnCurve generatorX generatorY := by decide

namespace Point

/-- The generator of the group. -/
def generator : Point := .affine generatorX generatorY

/-- The point with the opposite second coordinate. -/
def neg : Point → Point
  | identity => identity
  | affine x y => affine x (-y)

/-- The third point, reflected, on the line through a point `(x, y)` with the given slope whose
other crossing has first coordinate `x'`. -/
def reflect (slope x x' y : Coordinate) : Point :=
  let x'' := slope * slope - x - x'
  affine x'' (slope * (x - x'') - y)

/-- The sum of a point and itself, along the tangent. -/
def double : Point → Point
  | identity => identity
  | affine x y =>
      if y = 0 then identity
      else reflect (3 * (x * x) * Coordinate.inverse (2 * y)) x x y

/-- The sum of two points: along the chord, or along the tangent if they are equal. -/
def add : Point → Point → Point
  | identity, q => q
  | p, identity => p
  | affine x y, affine x' y' =>
      if x = x' then
        if y = y' then double (affine x y) else identity
      else reflect ((y' - y) * Coordinate.inverse (x' - x)) x x' y

end Point

/-- Projective coordinates: `(x / z², y / z³)`, and the identity where `z = 0`. -/
structure Projective where
  x : Coordinate
  y : Coordinate
  z : Coordinate

namespace Projective

/-- The identity. -/
def identity : Projective := ⟨1, 1, 0⟩

/-- The point that projective coordinates stand for. -/
def toPoint (p : Projective) : Point :=
  if p.z = 0 then .identity
  else
    let w := Coordinate.inverse p.z
    let w₂ := w * w
    .affine (p.x * w₂) (p.y * (w₂ * w))

/-- The sum of a point and itself. -/
def double (p : Projective) : Projective :=
  let y₂ := p.y * p.y
  let s := 4 * (p.x * y₂)
  let m := 3 * (p.x * p.x)
  let x' := m * m - 2 * s
  ⟨x', m * (s - x') - 8 * (y₂ * y₂), 2 * (p.y * p.z)⟩

/-- The sum of a point and the affine point `(x, y)`. -/
def addAffine (p : Projective) (x y : Coordinate) : Projective :=
  if p.z = 0 then ⟨x, y, 1⟩
  else
    let z₂ := p.z * p.z
    let h := x * z₂ - p.x
    let r := y * (z₂ * p.z) - p.y
    -- Equal first coordinates: the points are the same or opposite.
    if h = 0 then
      if r = 0 then double p else identity
    else
      let h₂ := h * h
      let h₃ := h₂ * h
      let v := p.x * h₂
      let x' := r * r - h₃ - 2 * v
      ⟨x', r * (v - x') - p.y * h₃, p.z * h⟩

/-- The multiple of the affine point `(x, y)` by the `width` lowest bits of `factor`, doubling once
for each bit. -/
def multiple (x y : Coordinate) : (width factor : Nat) → Projective
  | 0, _ => identity
  | width + 1, factor =>
      let half := (multiple x y width (factor / 2)).double
      if factor % 2 = 1 then half.addAffine x y else half

end Projective

namespace Point

/-- The multiple of a point by a scalar. -/
def multiple (factor : Scalar) : Point → Point
  | identity => identity
  | affine x y => (Projective.multiple x y 256 factor.val).toPoint

end Point

end SealedMail.Curve
