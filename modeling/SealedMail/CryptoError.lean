import SealedMail.Bytes.Hex
import SealedMail.Text.Quoted

/-!
# Failures of the cryptographic layer

One constructor for each cause, with the data that its message shows.
-/

namespace SealedMail

/-- Why no public key can be recovered from a signature. `badHint` is a number of a nonce point that
is not below four, and `badScalar` a half of the signature that is no nonzero scalar. -/
inductive RecoveryFailure where
  | wrongLength (actual : Nat)
  | badHeader (header : UInt8)
  | badHint
  | badScalar
  | noKey
  deriving DecidableEq

/-- What the message says about a signature without a recoverable key. -/
def RecoveryFailure.message : RecoveryFailure → String
  | .wrongLength actual => s!"expected 65 bytes, got {actual}"
  | .badHeader header => s!"invalid header byte {header}"
  | .badHint => "invalid recovery id"
  | .badScalar => "invalid r or s"
  | .noKey => "no key recoverable"

/-- Why there is no public key: so many bytes encode none, or a tweak has led to the identity. -/
inductive PublicKeyFault where
  | encoding (size : Nat)
  | identity
  deriving DecidableEq

/-- What the message says about a missing public key. -/
def PublicKeyFault.message : PublicKeyFault → String
  | .encoding size => s!"{size} bytes"
  | .identity => "tweak produced the identity"

/-- A failure of hashing, ciphers or curve operations. Encryption has none of its own, since the
sizes that the cipher would refuse are not bounded. -/
inductive CryptoError where
  | notAuthentic
  | signing
  | recovery (cause : RecoveryFailure)
  | badPublicKey (fault : PublicKeyFault)
  | badPrivateKey
  | keyLength (expected actual : Nat)
  | nonceLength (min max actual : Nat)
  | blockLength (blockSize actual : Nat)
  | digestLength (expected actual : Nat)
  | badHexDigit (bad : Hex.BadDigit)
  deriving DecidableEq

/-- The text of a failure. -/
def CryptoError.message : CryptoError → String
  | .notAuthentic => "Decryption failed: invalid ciphertext or key"
  | .signing => "Signing failed: signature error"
  | .recovery cause => s!"Signature recovery failed: {cause.message}"
  | .badPublicKey fault => s!"Invalid public key: {fault.message}"
  | .badPrivateKey => "Invalid private key"
  | .keyLength expected actual =>
      s!"Invalid key length: expected {expected}, got {actual}"
  | .nonceLength min max actual =>
      s!"Unsupported nonce length {actual}: must be between {min} and {max}"
  | .blockLength blockSize actual =>
      s!"Invalid block length: {actual} is not a multiple of {blockSize}"
  | .digestLength expected actual =>
      s!"Invalid hash length: expected {expected}, got {actual}"
  | .badHexDigit bad =>
      let shown := Text.quotedChar (Char.ofNat bad.byte.toNat)
      s!"Invalid hex string: Invalid character {shown} at position {bad.position}"

end SealedMail
