import SealedMail.Bytes.Base58
import SealedMail.Derivation.DerivationError

/-!
# Failures of sealing and opening messages

Causes for which a message cannot be written, read or trusted, with their messages and the kind
that each cause belongs to. Causes from derivation and cryptography are kept as they are.
-/

namespace SealedMail

/-- What the message says about a text that is not base-58. -/
def Base58.DecodeError.message : Base58.DecodeError → String
  | .badCharacter c position =>
      s!"provided string contained invalid character {Text.quotedChar c} at byte {position}"
  | .notAscii position =>
      s!"provided string contained non-ascii character starting at byte {position}"

/-- The fields that have a greatest length; `framed` is any field written behind its length. -/
inductive FieldName where
  | payload
  | derivationPath
  | nonce
  | signature
  | framed
  deriving DecidableEq

/-- What messages call a field. -/
def FieldName.text : FieldName → String
  | payload => "payload"
  | derivationPath => "derivation path"
  | nonce => "nonce"
  | signature => "signature"
  | framed => "variable field"

/-- The kinds of failure. -/
inductive FailureKind where
  | format
  | derivation
  | crypto
  | authentication
  | encoding
  | signing
  deriving DecidableEq

/-- The name of a kind in log lines. -/
def FailureKind.name : FailureKind → String
  | format => "Format"
  | derivation => "Derivation"
  | crypto => "Crypto"
  | authentication => "Authentication"
  | encoding => "Encoding"
  | signing => "Signing"

/-- A failure of sealing or opening a message. `lengthAboveLimit` is about a length that the input
declares, `fieldTooLong` about a field given by the caller. -/
inductive MessageError where
  | notBase58 (cause : Base58.DecodeError)
  | unsupportedVersion (expected actual : Nat)
  | truncated (needed remaining : Nat)
  | lengthAboveLimit (length limit : Nat)
  | shortNonce (min actual : Nat)
  | pathNotUtf8
  | fieldTooLong (field : FieldName) (length max : Nat)
  | derivation (cause : DerivationError)
  | crypto (cause : CryptoError)
  | signing (cause : CryptoError)
  | noSigner (cause : CryptoError)
  | unexpectedSigner
  deriving DecidableEq

namespace MessageError

/-- The text of a failure. -/
def message : MessageError → String
  | notBase58 cause => s!"Invalid base58 text: {cause.message}"
  | unsupportedVersion expected actual =>
      s!"Unsupported blob version {actual}, expected {expected}"
  | truncated needed remaining => s!"Truncated input: needed {needed} bytes, {remaining} remaining"
  | lengthAboveLimit length limit => s!"Declared length {length} exceeds limit {limit}"
  | shortNonce min actual => s!"Nonce too short: minimum {min} bytes, got {actual}"
  | pathNotUtf8 => "Derivation path is not valid UTF-8"
  | fieldTooLong field length max => s!"{field.text} too long: max {max} bytes, got {length}"
  | derivation cause => s!"Derivation error: {cause.message}"
  | crypto cause => s!"Crypto error: {cause.message}"
  | signing cause => s!"Signing failed: {cause.message}"
  | noSigner cause => s!"Signature not recoverable: {cause.message}"
  | unexpectedSigner => "Signer does not match the expected key"

/-- The kind of a failure. -/
def kind : MessageError → FailureKind
  | notBase58 _ | unsupportedVersion _ _ | truncated _ _ | lengthAboveLimit _ _
  | shortNonce _ _ | pathNotUtf8 => .format
  | fieldTooLong _ _ _ => .encoding
  | derivation _ => .derivation
  | crypto _ => .crypto
  | signing _ => .signing
  | noSigner _ | unexpectedSigner => .authentication

end MessageError

end SealedMail
