import SealedMail.Curve.Agreement
import SealedMail.Derivation.ExtendedKey
import SealedMail.Message.Envelope
import SealedMail.Message.Settings
import SealedMail.Message.SignedPayload

/-!
# Sealing messages

A sealer signs payloads for one receiver and encrypts them under a key agreed with a fresh
ephemeral key. Lengths are checked first; then the payload is signed; only then is anything drawn
from the random source, the ephemeral key before the nonce. The header goes into the authentication
of the ciphertext.

Main statements: `endless_encrypt`.
-/

namespace SealedMail

/-- A sender that signs, a receiver to encrypt for, and checked settings. The text of the receiver's
path is sent as it stands and not parsed. -/
structure Sealer where
  sender : PrivateKey
  receiver : PublicKey
  receiverPath : String
  settings : Settings
  settings_valid : settings.isValid = true

namespace Sealer

/-- A sealer with standard settings. -/
def new (sender : PrivateKey) (receiver : PublicKey) (receiverPath : String) : Sealer :=
  ⟨sender, receiver, receiverPath, Settings.standard, rfl⟩

/-- A sealer for the key and the path of an extended key. -/
def forExtended (sender : PrivateKey) (receiver : ExtendedPublicKey) : Sealer :=
  new sender receiver.key receiver.path.text

/-- The same sealer with other settings, if they are valid. -/
def withSettings (sealer : Sealer) (settings : Settings) : Except SettingsError Sealer :=
  if h : settings.isValid = true then
    .ok { sealer with settings := settings, settings_valid := h }
  else .error (.nonceSize settings.nonceSize)

/-- Check the lengths of the payload and of the path. -/
def checkLengths (sealer : Sealer) (payload : Bytes) : Except MessageError Unit :=
  if Field.maxSize < payload.length then
    .error (.fieldTooLong .payload payload.length Field.maxSize)
  else if Envelope.maxPathSize < sealer.receiverPath.utf8ByteSize then
    .error (.fieldTooLong .derivationPath sealer.receiverPath.utf8ByteSize Envelope.maxPathSize)
  else .ok ()

/-- Sign a payload and write both as the plaintext to seal. -/
def plaintext (sealer : Sealer) (payload : Bytes) : Except MessageError Bytes := do
  sealer.checkLengths payload
  let digest := SignedPayload.digest payload sealer.receiver
  let signature ← (Signature.sign sealer.sender digest).mapError .signing
  SignedPayload.encode ⟨signature.bytes, payload⟩

/-- The envelope of a plaintext, for a given ephemeral key and nonce. -/
def enclose (sealer : Sealer) (ephemeral : EphemeralKey) (nonce text : Bytes) :
    Except MessageError Bytes := do
  let key := (ephemeral.agree sealer.receiver).sealingKey
  let point := ephemeral.publicKey
  let head ← Header.encode
    ⟨⟨point.compressed, point.length_compressed⟩, sealer.receiverPath, nonce.length⟩
  let ciphertext ← (Gcm.sealWith key nonce text head).mapError .crypto
  return head ++ nonce ++ ciphertext

/-- Write an envelope as text and report its sizes. -/
def dispatch (sealer : Sealer) (payload envelope : Bytes) : Traced MessageError String := do
  Traced.emit (.sealed payload.length sealer.receiverPath.utf8ByteSize sealer.settings.nonceSize
    envelope.length)
  return Envelope.encodeText envelope

/-- The payload passes every check and is signed, so an ephemeral key is drawn for it. -/
def Draws (sealer : Sealer) (payload : Bytes) : Prop :=
  ∃ text, sealer.plaintext payload = .ok text

/-- Seal a payload with randomness from a source. Only where something is drawn does the source have
to offer a scalar. -/
def encrypt (sealer : Sealer) (payload : Bytes) (source : RandomSource)
    (h : sealer.Draws payload → source.OffersScalar) :
    Traced MessageError String × RandomSource :=
  match signed : sealer.plaintext payload with
  | .error e => (.ofExcept (.error e), source)
  | .ok text =>
      -- The ephemeral key comes off the stream first, then the nonce.
      let (ephemeral, source) := EphemeralKey.generate source (h ⟨text, signed⟩)
      let (nonce, source) := source.draw sealer.settings.nonceSize
      (do sealer.dispatch payload (← .ofExcept (sealer.enclose ephemeral nonce text)), source)

theorem endless_encrypt (sealer : Sealer) (payload : Bytes) {source : RandomSource}
    (h : sealer.Draws payload → source.OffersScalar) (endless : source.Endless) :
    (sealer.encrypt payload source h).2.Endless := by
  unfold encrypt
  split
  · exact endless
  · exact (PrivateKey.endless_generate _ endless).skip _

/-- The form for logs. -/
def summary (sealer : Sealer) : String :=
  "Encrypter \x7b receiver: " ++ sealer.receiver.summary ++ ", receiver_path: " ++
    Text.quoted sealer.receiverPath ++ ", config: " ++ sealer.settings.summary ++ ", .. \x7d"

end Sealer

end SealedMail
