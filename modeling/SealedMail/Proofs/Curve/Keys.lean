import SealedMail.Curve.PrivateKey
import SealedMail.Proofs.Curve.Order

/-!
# Keys in the group

A public key is a group element other than zero (`PublicKey.toGroup`,
`PublicKey.ofPoint?_ofGroup`), and the public key of a private key is the multiple of the generator
by its scalar (`PrivateKey.toGroup_publicKey`); the default in the definition is never taken, and
different scalars have different public keys (`PrivateKey.publicKey_injective`).
-/

namespace SealedMail

open Curve
open scoped Arithmetic

namespace PublicKey

/-- The group element of a public key. -/
def toGroup (key : PublicKey) : CurveGroup := .some key.x key.y (nonsingular_iff.2 key.onCurve)

theorem ofGroup_toGroup (key : PublicKey) : Point.ofGroup key.toGroup = key.point := rfl

theorem toGroup_ne_zero (key : PublicKey) : key.toGroup ≠ 0 :=
  WeierstrassCurve.Affine.Point.some_ne_zero _

theorem point_ne_identity (key : PublicKey) : key.point ≠ .identity := nofun

theorem ofPoint?_point (key : PublicKey) : ofPoint? key.point = some key := by
  simp [ofPoint?, point, ofCoordinates?, key.onCurve]

@[simp] theorem ofPoint?_ofGroup {P : CurveGroup} {key : PublicKey} :
    ofPoint? (Point.ofGroup P) = some key ↔ key.toGroup = P := by
  constructor
  · rcases P with _ | ⟨x, y, h⟩
    · intro e
      cases e
    · intro e
      have onCurve : OnCurve x y := nonsingular_iff.1 h
      simp only [Point.ofGroup_some, ofPoint?, ofCoordinates?, dif_pos onCurve,
        Option.some.injEq] at e
      subst e
      rfl
  · rintro rfl
    rw [ofGroup_toGroup, ofPoint?_point]

theorem toGroup_injective : Function.Injective toGroup := by
  intro key other same
  rw [← ofPoint?_ofGroup, ofGroup_toGroup, ofPoint?_point] at same
  exact (Option.some.inj same).symm

theorem exists_toGroup_eq {P : CurveGroup} (h : P ≠ 0) : ∃ key : PublicKey, key.toGroup = P := by
  rcases P with _ | ⟨x, y, hn⟩
  · exact absurd rfl h
  · exact ⟨⟨x, y, nonsingular_iff.1 hn⟩, rfl⟩

end PublicKey

namespace PrivateKey

theorem smul_base_ne_zero (key : PrivateKey) : key.scalar.value • base ≠ 0 :=
  mt smul_base_eq_zero_iff.1 key.scalar.ne_zero

/-- The public key is the multiple of the generator by the scalar. -/
theorem toGroup_publicKey (key : PrivateKey) : key.publicKey.toGroup = key.scalar.value • base := by
  -- The multiple is not the identity, so some key stands for it.
  obtain ⟨half, hhalf⟩ := PublicKey.exists_toGroup_eq key.smul_base_ne_zero
  have found : PublicKey.ofPoint? (Point.generator.multiple key.scalar.value) = some half := by
    rw [← ofGroup_base, Point.multiple_eq_smul, PublicKey.ofPoint?_ofGroup, hhalf]
  rw [publicKey, found, Option.getD_some, hhalf]

theorem point_publicKey (key : PrivateKey) :
    key.publicKey.point = Point.generator.multiple key.scalar.value := by
  rw [← PublicKey.ofGroup_toGroup, toGroup_publicKey, ← Point.multiple_eq_smul, ofGroup_base]

theorem publicKey_injective : Function.Injective publicKey := by
  intro key key' same
  have multiples : key.scalar.value • base = key'.scalar.value • base := by
    rw [← toGroup_publicKey, ← toGroup_publicKey, same]
  obtain ⟨⟨value, ne_zero⟩⟩ := key
  obtain ⟨⟨value', ne_zero'⟩⟩ := key'
  obtain rfl : value = value' := smul_left_injective Scalar base_ne_zero multiples
  rfl

end PrivateKey

end SealedMail
