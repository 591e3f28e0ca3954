import SealedMail.Bytes.Basic

/-!
# Coordinates and scalars

The curve `y² = x³ + 7` lives over the integers modulo `fieldPrime`, and its points form a group
of order `groupOrder`. Elements of both rings are canonical residues, so equality of residues is
equality of values.
-/

namespace SealedMail.Curve

/-- The prime `2²⁵⁶ - 2³² - 977` of the coordinate field. -/
def fieldPrime : Nat := 0xfffffffffffffffffffffffffffffffffffffffffffffffffffffffefffffc2f

/-- The number of points of the curve. -/
def groupOrder : Nat := 0xfffffffffffffffffffffffffffffffebaaedce6af48a03bbfd25e8cd0364141

instance neZeroFieldPrime : @NeZero Nat Zero.ofOfNat0 fieldPrime := ⟨Nat.succ_ne_zero _⟩

instance neZeroGroupOrder : @NeZero Nat Zero.ofOfNat0 groupOrder := ⟨Nat.succ_ne_zero _⟩

/-- A residue modulo the field prime. -/
abbrev Coordinate := Fin fieldPrime

/-- A residue modulo the group order. -/
abbrev Scalar := Fin groupOrder

section Power

variable {R : Type} [Mul R] [OfNat R 1]

/-- The power of `base` whose exponent is given by the `width` lowest bits of `exponent`, by
squaring once for each bit. -/
@[specialize] def power (base : R) : (width exponent : Nat) → R
  | 0, _ => 1
  | width + 1, exponent =>
      let half := power base width (exponent / 2)
      if exponent % 2 = 1 then half * half * base else half * half

end Power

namespace Coordinate

/-- The residue with a given value, if it is below the field prime. -/
def ofNat? (value : Nat) : Option Coordinate :=
  if h : value < fieldPrime then some ⟨value, h⟩ else none

/-- The multiplicative inverse; zero for zero. -/
def inverse (x : Coordinate) : Coordinate := power x 256 (fieldPrime - 2)

/-- A square root, if there is one. The field prime is three modulo four, so a root of `x` is a
power of `x`. -/
def sqrt (x : Coordinate) : Coordinate := power x 256 ((fieldPrime + 1) / 4)

/-- The lowest bit of the canonical residue. -/
def isOdd (x : Coordinate) : Bool := x.val % 2 == 1

/-- The 32-byte big-endian encoding. -/
def bytes (x : Coordinate) : Bytes := Bytes.bigEndian 32 x.val

end Coordinate

namespace Scalar

/-- The residue with a given value, if it is below the group order. -/
def ofNat? (value : Nat) : Option Scalar :=
  if h : value < groupOrder then some ⟨value, h⟩ else none

/-- The residue of any integer. -/
def reduce (value : Nat) : Scalar := Fin.ofNat groupOrder value

/-- The multiplicative inverse; zero for zero. -/
def inverse (x : Scalar) : Scalar := power x 256 (groupOrder - 2)

/-- Above half of the group order. -/
def isHigh (x : Scalar) : Bool := groupOrder / 2 < x.val

/-- The 32-byte big-endian encoding. -/
def bytes (x : Scalar) : Bytes := Bytes.bigEndian 32 x.val

end Scalar

/-- A scalar other than zero. -/
structure NonzeroScalar where
  value : Scalar
  ne_zero : value ≠ 0
  deriving DecidableEq

namespace NonzeroScalar

/-- The residue as a nonzero scalar, unless it is zero. -/
def ofScalar? (value : Scalar) : Option NonzeroScalar :=
  if h : value = 0 then none else some ⟨value, h⟩

/-- The scalar that 32 bytes spell, if their value is between zero and the group order. -/
def ofOctets? (octets : Octets 32) : Option NonzeroScalar :=
  (Scalar.ofNat? (Bytes.value octets.bytes)).bind ofScalar?

end NonzeroScalar

end SealedMail.Curve
