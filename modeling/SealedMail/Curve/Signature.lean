import SealedMail.Curve.SigningNonce

/-!
# Recoverable signatures

A signature is a header byte and two scalars `r` and `s` of 32 bytes each. The header tells which
of the points with first coordinate `r` the signer's nonce had led to, so the public key can be
recovered from the signature and the digest. Only the lower of the two values of `s` that verify is
written and accepted.
-/

namespace SealedMail

open Curve

/-- A recoverable signature: header, `r`, `s`. -/
structure Signature where
  octets : Octets 65
  deriving DecidableEq

namespace Signature

/-- The lowest header byte. -/
def headerBase : UInt8 := 27

/-- What the headers of the second series have more. -/
def headerFlag : UInt8 := 4

/-- Which point has first coordinate `r` modulo the group order: `odd` is the parity of its second
coordinate, and `wrapped` says that the first is not below the group order. -/
structure Hint where
  odd : Bool
  wrapped : Bool
  deriving DecidableEq

/-- The number of a hint. -/
def Hint.id (hint : Hint) : UInt8 :=
  (if hint.odd then 1 else 0) ||| (if hint.wrapped then 2 else 0)

/-- The hint with a given number. -/
def Hint.ofId? (id : UInt8) : Option Hint :=
  if id ≤ 3 then some ⟨id &&& 1 != 0, id &&& 2 != 0⟩ else none

/-- The header byte of a hint. -/
def Hint.header (hint : Hint) : UInt8 := headerBase + hint.id

/-- The hint in a header byte. Headers come in two series of four with the same meaning. -/
def Hint.ofHeader (header : UInt8) : Except RecoveryFailure Hint :=
  if headerBase ≤ header ∧ header ≤ headerBase + headerFlag + 3 then
    match ofId? ((header - headerBase) &&& ~~~headerFlag) with
    | some hint => .ok hint
    | none => .error .badHint
  else .error (.badHeader header)

/-- Write a header and two scalars. -/
def encode (hint : Hint) (r s : Scalar) : Signature where
  octets := ⟨hint.header :: (r.bytes ++ s.bytes), by simp [Scalar.bytes]⟩

/-- The encoded signature. -/
def bytes (signature : Signature) : Bytes := signature.octets.bytes

@[simp] theorem length_bytes (signature : Signature) : signature.bytes.length = 65 :=
  signature.octets.length_eq

/-- The residue that a digest stands for in the signature equation. -/
def residue (digest : Digest) : Scalar := Scalar.reduce (Bytes.value digest.bytes)

/-- Sign a digest with a given nonce, unless one of the scalars vanishes. -/
def signWith (nonce : NonzeroScalar) (key : PrivateKey) (digest : Digest) : Option Signature :=
  match Point.generator.multiple nonce.value with
  | .identity => none
  | .affine x y =>
      let r := Scalar.reduce x.val
      let s := nonce.value.inverse * (residue digest + r * key.scalar.value)
      if r = 0 ∨ s = 0 then none
      else
        -- Negating `s` belongs to the opposite nonce point, whose parity is the other one.
        let hint : Hint := ⟨y.isOdd != s.isHigh, groupOrder ≤ x.val⟩
        some (encode hint r (if s.isHigh then -s else s))

/-- Sign a digest with the nonce derived for it. Where the search for a nonce would never end, this
is the failure of a nonce that cannot be used. -/
def sign (key : PrivateKey) (digest : Digest) : Except CryptoError Signature :=
  ((SigningNonce.derive key digest).bind fun nonce => signWith nonce key digest).elim
    (.error .signing) .ok

/-- The first coordinate that a scalar `r` and a hint name, if it is a coordinate. -/
def coordinate? (hint : Hint) (r : Scalar) : Option Coordinate :=
  Coordinate.ofNat? (if hint.wrapped then r.val + groupOrder else r.val)

/-- The public key under which `(r, s)` verifies for the residue `z` and whose nonce point is the
one the hint names: `r⁻¹ (s R - z G)`. -/
def recoverFrom (hint : Hint) (r s : NonzeroScalar) (z : Scalar) : Option PublicKey := do
  if s.value.isHigh then none
  let x ← coordinate? hint r.value
  let nonce ← PublicKey.lift? hint.odd x
  let w := r.value.inverse
  PublicKey.ofPoint?
    ((Point.generator.multiple (-(w * z))).add (nonce.point.multiple (w * s.value)))

/-- Recover the public key that signed a digest. -/
def recover (signature : Bytes) (digest : Digest) : Except CryptoError PublicKey :=
  match signature with
  | header :: body =>
      if body.length ≠ 64 then .error (.recovery (.wrongLength (body.length + 1)))
      else
        match Hint.ofHeader header with
        | .error cause => .error (.recovery cause)
        | .ok hint =>
            match scalar? (body.take 32), scalar? (body.drop 32) with
            | some r, some s =>
                match recoverFrom hint r s (residue digest) with
                | some key => .ok key
                | none => .error (.recovery .noKey)
            | _, _ => .error (.recovery .badScalar)
  | [] => .error (.recovery (.wrongLength 0))
where
  /-- The nonzero scalar in 32 bytes. -/
  scalar? (data : Bytes) : Option NonzeroScalar :=
    (Octets.ofBytes? 32 data).bind NonzeroScalar.ofOctets?

/-- The form for logs: the first three bytes. -/
def summary (signature : Signature) : String :=
  let shown (from_ count : Nat) := Hex.encode ((signature.bytes.drop from_).take count)
  s!"CompactSignature({shown 0 1}:{shown 1 2}..)"

end Signature

end SealedMail
