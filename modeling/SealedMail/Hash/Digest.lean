import SealedMail.Bytes.Utf8
import SealedMail.CryptoError
import SealedMail.Hash.Sha2

/-!
# Digests

A `Digest` is 32 bytes, usually the SHA-256 hash of something. Its text is lower-case hexadecimal;
reading accepts both cases.
-/

namespace SealedMail

/-- A 32-byte digest. -/
structure Digest where
  octets : Octets 32
  deriving DecidableEq

namespace Digest

/-- The bytes of a digest. -/
def bytes (digest : Digest) : Bytes := digest.octets.bytes

@[simp] theorem length_bytes (digest : Digest) : digest.bytes.length = 32 :=
  digest.octets.length_eq

/-- The hash of a byte string. -/
def hash (data : Bytes) : Digest :=
  ⟨Sha2.digest Sha2.sha256 data, Sha2.length_digest_sha256 data⟩

/-- The hash of byte strings written one after another. -/
def hashConcat (parts : List Bytes) : Digest := hash parts.flatten

/-- A digest from exactly 32 bytes. -/
def ofBytes (data : Bytes) : Except CryptoError Digest :=
  match Octets.ofBytes? 32 data with
  | some octets => .ok ⟨octets⟩
  | none => .error (.digestLength 32 data.length)

/-- The digits of a digest, lower case. -/
def toHex (digest : Digest) : String := Hex.encode digest.bytes

/-- Read a digest from a text of 64 digits. The length is counted in bytes and checked first. -/
def ofHex (text : String) : Except CryptoError Digest :=
  let data := Bytes.ofText text
  if data.length = 64 then
    match Hex.decode data with
    | .ok bytes => ofBytes bytes
    | .error bad => .error (.badHexDigit bad)
  else .error (.digestLength 64 data.length)

/-- The form for logs: the first eight bytes. -/
def summary (digest : Digest) : String := s!"Hash256({Hex.encode (digest.bytes.take 8)})"

end Digest

end SealedMail
