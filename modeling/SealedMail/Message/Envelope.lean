import SealedMail.Message.Field
import SealedMail.Cipher.Gcm

/-!
# Envelopes

The binary form of a sealed message: a version byte, the sender's ephemeral public key, the text of
the receiver's path, the length of the nonce, the nonce, and the ciphertext. Everything before the
nonce is the header, which the ciphertext authenticates. Reading checks the structure only; the key,
the path and the ciphertext are checked by the steps that use them. As text, an envelope is written
in base 58.

Main statements: `Header.encode_ok_iff`.
-/

namespace SealedMail

/-- The supported version. -/
def Envelope.version : UInt8 := 1

/-- The longest text of a path, in bytes. -/
def Envelope.maxPathSize : Nat := 1000

/-- What comes before the nonce: the compressed ephemeral key, the text of the receiver's path, and
the length of the nonce. -/
structure Header where
  ephemeral : Octets 33
  path : String
  nonceSize : Nat
  deriving DecidableEq

namespace Header

/-- The bytes of a header whose lengths fit. -/
def bytes (header : Header) : Bytes :=
  Envelope.version :: (header.ephemeral.bytes ++ Field.encode (Bytes.ofText header.path) ++
    Bytes.bigEndian 2 header.nonceSize)

/-- Write a header. The length of the path is checked before that of the nonce. -/
def encode (header : Header) : Except MessageError Bytes :=
  if Envelope.maxPathSize < header.path.utf8ByteSize then
    .error (.fieldTooLong .derivationPath header.path.utf8ByteSize Envelope.maxPathSize)
  else if Field.maxSize < header.nonceSize then
    .error (.fieldTooLong .nonce header.nonceSize Field.maxSize)
  else .ok header.bytes

theorem encode_ok_iff {header : Header} {bytes : Bytes} :
    header.encode = .ok bytes ↔
      header.path.utf8ByteSize ≤ Envelope.maxPathSize ∧ header.nonceSize ≤ Field.maxSize ∧
        bytes = header.bytes := by
  unfold encode
  split
  · simp; omega
  · split
    · simp; omega
    · simp only [Except.ok.injEq]
      constructor
      · rintro rfl; exact ⟨by omega, by omega, rfl⟩
      · rintro ⟨_, _, rfl⟩; rfl

end Header

/-- The parts of an envelope. The header is kept as it was written, since it is authenticated. -/
structure Envelope where
  ephemeral : Bytes
  path : String
  nonce : Bytes
  ciphertext : Bytes
  header : Bytes
  deriving DecidableEq

namespace Envelope

/-- Read an envelope. The nonce may use all bytes that follow its length. -/
def reading : Read Envelope := do
  let version ← Read.number 1
  if version ≠ Envelope.version.toNat then
    Read.fail (.unsupportedVersion Envelope.version.toNat version)
  else
    let ephemeral ← Read.exact 33
    let pathBytes ← Read.field maxPathSize
    match Bytes.toText? pathBytes with
    | none => Read.fail .pathNotUtf8
    | some path =>
        -- The two bytes of the length that follows are not available to the nonce.
        let before ← Read.reader
        let nonce ← Read.field (before.remaining - 2)
        if nonce.length < Gcm.minNonceSize then
          Read.fail (.shortNonce Gcm.minNonceSize nonce.length)
        else
          let ciphertext ← Read.rest
          return ⟨ephemeral, path, nonce, ciphertext, before.data.take (before.position + 2)⟩

/-- Read the bytes of an envelope. -/
def parse (bytes : Bytes) : Except MessageError Envelope := reading.run bytes

/-- Read transport text. -/
def decodeText (text : String) : Except MessageError Bytes :=
  (Base58.decode text).mapError .notBase58

/-- Write transport text. -/
def encodeText (bytes : Bytes) : String := Base58.encode bytes

end Envelope

end SealedMail
