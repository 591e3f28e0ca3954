import SealedMail.Cipher.Cbc
import SealedMail.Cipher.Gcm
import SealedMail.Curve.FreshKey
import SealedMail.Hash.Digest

/-!
# Key agreement

Two parties share the first coordinate of one's key multiplied by the other's scalar. The secret is
kept as the shortest big-endian encoding of that coordinate and filled up with zeros to 32 bytes
whenever it becomes a key, so that both sides use the same bytes.
-/

namespace SealedMail

open Curve

/-- The shared coordinate without leading zero bytes. -/
structure SharedSecret where
  magnitude : Bytes
  deriving DecidableEq

namespace SharedSecret

/-- The first coordinate of a point; zero for the identity, which no key agreement reaches. -/
def coordinate : Point → Coordinate
  | .identity => 0
  | .affine x _ => x

/-- The secret shared between a private key and a public key. -/
def derive (key : PrivateKey) (peer : PublicKey) : SharedSecret :=
  ⟨Bytes.stripZeros (coordinate (peer.point.multiple key.scalar.value)).bytes⟩

/-- The secret in 32 bytes. -/
def padded (secret : SharedSecret) : Bytes := Bytes.padTo 32 secret.magnitude

/-- The key for authenticated encryption: the hash of the padded secret. -/
def sealingKey (secret : SharedSecret) : SealingKey :=
  ⟨(Digest.hash secret.padded).octets⟩

/-- The key for chained blocks: the padded secret itself. -/
def chainingKey (secret : SharedSecret) : Except CryptoError ChainingKey :=
  ChainingKey.ofBytes secret.padded

/-- The form for logs, which shows nothing. -/
def summary (_ : SharedSecret) : String := "RawSharedSecret([REDACTED])"

/-- The secret shared with the holder of an encoded public key. -/
def recover (key : PrivateKey) (peer : Bytes) : Except CryptoError SharedSecret := do
  return derive key (← PublicKey.ofBytes peer)

/-- The sealing key shared with the holder of an encoded public key. -/
def recoverSealingKey (key : PrivateKey) (peer : Bytes) : Except CryptoError SealingKey := do
  return (← recover key peer).sealingKey

end SharedSecret

/-- A key pair for a single agreement, given by its private half. -/
structure EphemeralKey where
  secret : PrivateKey
  deriving DecidableEq

namespace EphemeralKey

/-- Draw a key pair. -/
def generate (source : RandomSource) (h : source.OffersScalar) : EphemeralKey × RandomSource :=
  let drawn := PrivateKey.generate source h
  (⟨drawn.1⟩, drawn.2)

/-- The public half, to be sent to the peer. -/
def publicKey (key : EphemeralKey) : PublicKey := key.secret.publicKey

/-- The secret shared with a peer. -/
def agree (key : EphemeralKey) (peer : PublicKey) : SharedSecret :=
  SharedSecret.derive key.secret peer

/-- The form for logs: the public half only. -/
def summary (key : EphemeralKey) : String :=
  "EphemeralKeyPair \x7b public: " ++ key.publicKey.summary ++ " \x7d"

end EphemeralKey

namespace SharedSecret

/-- Share a secret with a peer through a fresh key pair: the public half to be sent, the secret, and
the source behind the draw. -/
def generate (peer : PublicKey) (source : RandomSource) (h : source.OffersScalar) :
    PublicKey × SharedSecret × RandomSource :=
  let drawn := EphemeralKey.generate source h
  (drawn.1.publicKey, drawn.1.agree peer, drawn.2)

/-- Share a sealing key with a peer through a fresh key pair. -/
def generateSealingKey (peer : PublicKey) (source : RandomSource) (h : source.OffersScalar) :
    PublicKey × SealingKey × RandomSource :=
  let shared := generate peer source h
  (shared.1, shared.2.1.sealingKey, shared.2.2)

end SharedSecret

end SealedMail
