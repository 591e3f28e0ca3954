import SealedMail.Curve.PublicKey

/-!
# Private keys

A private key is a nonzero scalar, written in 32 bytes. Its public key is the multiple of the
generator by that scalar. Adding a tweak to a private key adds the tweak's multiple of the
generator to the public key.
-/

namespace SealedMail

open Curve

/-- A nonzero scalar kept secret. -/
structure PrivateKey where
  scalar : NonzeroScalar
  deriving DecidableEq

namespace PrivateKey

/-- The key that 32 bytes spell, if their value is between zero and the group order. -/
def ofOctets? (octets : Octets 32) : Option PrivateKey :=
  (NonzeroScalar.ofOctets? octets).map PrivateKey.mk

/-- Read a key of 32 bytes. -/
def ofBytes (data : Bytes) : Except CryptoError PrivateKey :=
  match Octets.ofBytes? 32 data with
  | none => .error (.keyLength 32 data.length)
  | some octets =>
      match ofOctets? octets with
      | some key => .ok key
      | none => .error .badPrivateKey

/-- The scalar in 32 bytes. -/
def bytes (key : PrivateKey) : Bytes := key.scalar.value.bytes

@[simp] theorem length_bytes (key : PrivateKey) : key.bytes.length = 32 := by
  simp [bytes, Scalar.bytes]

/-- The multiple of the generator by the scalar. No scalar between zero and the group order gives
the identity, so the default is never taken. -/
def publicKey (key : PrivateKey) : PublicKey :=
  (PublicKey.ofPoint? (Point.generator.multiple key.scalar.value)).getD PublicKey.generator

/-- Add a tweak below the group order modulo that order; the sum must not be zero. -/
def offsetBy (key : PrivateKey) (tweak : Octets 32) : Except CryptoError PrivateKey :=
  match Scalar.ofNat? (Bytes.value tweak.bytes) with
  | none => .error .badPrivateKey
  | some scalar =>
      match NonzeroScalar.ofScalar? (scalar + key.scalar.value) with
      | some sum => .ok ⟨sum⟩
      | none => .error .badPrivateKey

/-- The form for logs, which shows nothing. -/
def summary (_ : PrivateKey) : String := "PrivateKey([REDACTED])"

end PrivateKey

end SealedMail
