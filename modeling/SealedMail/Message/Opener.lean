import SealedMail.Curve.Agreement
import SealedMail.Derivation.KeyTree
import SealedMail.Message.Envelope
import SealedMail.Message.SignedPayload

/-!
# Opening messages

An opener holds a key tree and a rule about senders. It reads the envelope, derives the key at the
path written there, decrypts, recovers the signer and applies the rule. Each step is a function of
its own and the first failure ends the opening. The key tree is asked once at most, and only after
the text, the envelope and the path have been read.
-/

namespace SealedMail

/-- Whose messages are accepted: those that the receiver has signed, those of one signer, or those
of anyone with a recoverable signature. -/
inductive SenderPolicy where
  | receiverOnly
  | only (key : PublicKey)
  | anyone
  deriving DecidableEq

namespace SenderPolicy

/-- The one signer that is accepted, if there is only one. -/
def expected (policy : SenderPolicy) (receiver : PublicKey) : Option PublicKey :=
  match policy with
  | receiverOnly => some receiver
  | only key => some key
  | anyone => none

/-- Check a signer. -/
def check (policy : SenderPolicy) (receiver signer : PublicKey) :
    Except MessageError Unit :=
  match policy.expected receiver with
  | some key => if signer = key then .ok () else .error .unexpectedSigner
  | none => .ok ()

/-- The form for logs. -/
def summary : SenderPolicy → String
  | receiverOnly => "FromSelf"
  | only key => s!"KnownSender({key.summary})"
  | anyone => "Unauthenticated"

end SenderPolicy

/-- A receiver with a key for each path, and a demand on the signer. -/
structure Opener where
  keys : KeyTree
  policy : SenderPolicy

namespace Opener

/-- Read transport text as an envelope with a well-formed path. -/
def address (text : String) : Except MessageError (Envelope × Path) := do
  let bytes ← Envelope.decodeText text
  let envelope ← Envelope.parse bytes
  let path ← (Path.parse envelope.path).mapError .derivation
  return (envelope, path)

/-- Decrypt an envelope with the receiver's key. -/
def unlock (receiver : PrivateKey) (envelope : Envelope) : Except MessageError Bytes := do
  let key ← (SharedSecret.recoverSealingKey receiver envelope.ephemeral).mapError .crypto
  (Gcm.openWith key envelope.nonce envelope.ciphertext envelope.header).mapError .crypto

/-- Decrypt an envelope and check its signer. -/
def reveal (policy : SenderPolicy) (receiver : PrivateKey) (envelope : Envelope) :
    Except MessageError Bytes := do
  let signed ← SignedPayload.parse (← unlock receiver envelope)
  let signer ← signed.signer receiver.publicKey
  policy.check receiver.publicKey signer
  return signed.payload

/-- Open transport text; a success is reported with its sizes. -/
def receive (opener : Opener) (text : String) : Traced MessageError Bytes := do
  let (envelope, path) ← .ofExcept (address text)
  -- The only question to the key tree.
  let receiver ← (opener.keys path).mapError .derivation
  let payload ← .ofExcept (reveal opener.policy receiver envelope)
  Traced.emit (.opened envelope.path.utf8ByteSize envelope.nonce.length payload.length)
  return payload

/-- Open transport text; a failure is reported too. -/
def decrypt (opener : Opener) (text : String) : Traced MessageError Bytes :=
  (opener.receive text).emitOnError .refused

/-- The form for logs. -/
def summary (opener : Opener) : String :=
  "Decrypter \x7b verification: " ++ opener.policy.summary ++ ", .. \x7d"

end Opener

end SealedMail
