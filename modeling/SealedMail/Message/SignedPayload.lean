import SealedMail.Curve.Signature
import SealedMail.Message.Field

/-!
# Signed payloads

What an envelope seals: the sender's signature and the payload, each behind its length. The
signature covers the payload and the receiver's public key, so it cannot be passed on to another
receiver.
-/

namespace SealedMail

/-- A payload with the signature over it. -/
structure SignedPayload where
  signature : Bytes
  payload : Bytes
  deriving DecidableEq

namespace SignedPayload

/-- The longest signature. -/
def maxSignatureSize : Nat := 200

/-- The digest that a sender signs for a payload and a receiver. -/
def digest (payload : Bytes) (receiver : PublicKey) : Digest :=
  Digest.hashConcat [payload, receiver.compressed]

/-- Write the signature, then the payload. -/
def encode (signed : SignedPayload) : Except MessageError Bytes :=
  if maxSignatureSize < signed.signature.length then
    .error (.fieldTooLong .signature signed.signature.length maxSignatureSize)
  else
    match Field.write (Field.encode signed.signature) signed.payload with
    | (.ok (), bytes) => .ok bytes
    | (.error e, _) => .error e

/-- Read a signature of at most 200 bytes and a payload no longer than the bytes before its own
length. Further bytes are ignored. -/
def reading : Read SignedPayload := do
  let signature ← Read.field maxSignatureSize
  -- The limit counts the two bytes of the length as well; reading past the end fails anyway.
  let before ← Read.reader
  let payload ← Read.field before.remaining
  return ⟨signature, payload⟩

/-- Read the bytes of a signed payload. -/
def parse (bytes : Bytes) : Except MessageError SignedPayload := reading.run bytes

/-- The public key that signed the payload for a receiver. -/
def signer (signed : SignedPayload) (receiver : PublicKey) : Except MessageError PublicKey :=
  (Signature.recover signed.signature (digest signed.payload receiver)).mapError
    .noSigner

end SignedPayload

end SealedMail
