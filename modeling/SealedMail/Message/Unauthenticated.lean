import SealedMail.Curve.Agreement
import SealedMail.Traced

/-!
# Encryption without authentication

The shared secret itself is the key of chained blocks, and the last sixteen bytes of the encoded
ephemeral key are the initial vector. Nothing detects a changed ciphertext. The form is kept for
ciphertexts that exist; each use is reported.
-/

namespace SealedMail

/-- What the receiver needs: the sender's half of the key agreement, and as many blocks as the
plaintext has. -/
structure ChainedCiphertext where
  ephemeral : PublicKey
  ciphertext : Bytes
  deriving DecidableEq

namespace ChainedCiphertext

/-- The initial vector: the last block of an encoded key. -/
def initialVector (encoded : Bytes) : Bytes := encoded.drop (encoded.length - Cbc.blockSize)

/-- Encrypt whole blocks with a given ephemeral key. -/
def encryptWith (ephemeral : EphemeralKey) (receiver : PublicKey) (plaintext : Bytes) :
    Except CryptoError ChainedCiphertext := do
  let point := ephemeral.publicKey
  let key ← (ephemeral.agree receiver).chainingKey
  let ciphertext ← Cbc.encrypt key (initialVector point.compressed) plaintext
  return ⟨point, ciphertext⟩

/-- Encrypt whole blocks with an ephemeral key drawn from a source. The key is drawn first, so that
every plaintext takes a source that offers a scalar, also one that is refused for its length. -/
def encrypt (receiver : PublicKey) (plaintext : Bytes) (source : RandomSource)
    (h : source.OffersScalar) : Traced MessageError ChainedCiphertext × RandomSource :=
  let (ephemeral, source) := EphemeralKey.generate source h
  let outcome : Traced MessageError ChainedCiphertext := do
    let sealed ← .ofExcept ((encryptWith ephemeral receiver plaintext).mapError .crypto)
    Traced.emit (.unauthenticated plaintext.length)
    return sealed
  (outcome, source)

/-- Decrypt whole blocks. The ephemeral key is taken in the encoding in which it was sent. -/
def decrypt (receiver : PrivateKey) (ephemeral ciphertext : Bytes) : Except MessageError Bytes :=
  Except.mapError .crypto do
    let key ← (← SharedSecret.recover receiver ephemeral).chainingKey
    Cbc.decrypt key (initialVector ephemeral) ciphertext

end ChainedCiphertext

end SealedMail
