import SealedMail.CryptoError
import SealedMail.Cipher.Galois

/-!
# Authenticated encryption

AES-256 in counter mode with a polynomial authentication tag of 16 bytes. Nonces of 12 to 32 bytes
are supported. A nonce of 12 bytes is part of the first counter block; any other is hashed into it.
The counter is the last four bytes of the block and wraps without a carry.

The cipher as such bounds the sizes of its inputs, at some `2³⁶` bytes, and encryption and
decryption fail above. These bounds are left out here, and with them every failure of encryption but
that of an unsupported nonce. No message comes near: its plaintext is two fields of at most 65535
bytes each.

Main statements: `length_keystream`.
-/

namespace SealedMail

/-- A key for authenticated encryption. -/
structure SealingKey where
  octets : Octets 32
  deriving DecidableEq

namespace SealingKey

/-- Read a key of 32 bytes. -/
def ofBytes (data : Bytes) : Except CryptoError SealingKey :=
  match Octets.ofBytes? 32 data with
  | some octets => .ok ⟨octets⟩
  | none => .error (.keyLength 32 data.length)

/-- The key bytes. -/
def bytes (key : SealingKey) : Bytes := key.octets.bytes

/-- The form for logs, which shows nothing. -/
def summary (_ : SealingKey) : String := "AeadKey([REDACTED])"

end SealingKey

namespace Gcm

open Aes (Schedule Block)

/-- The shortest supported nonce. -/
def minNonceSize : Nat := 12

/-- The longest supported nonce. -/
def maxNonceSize : Nat := 32

/-- Bytes in a tag. -/
def tagSize : Nat := 16

/-- Encrypt a field element as a block. -/
def cipher (schedule : Schedule) (e : Galois.Element) : Galois.Element :=
  Galois.ofBlock (Aes.encrypt schedule (Block.ofBytes (Galois.toBlock e))).bytes

/-- The hash key: the encryption of the zero block. -/
def hashKey (schedule : Schedule) : Galois.Element := cipher schedule 0

/-- The counter block of the tag. -/
def firstCounter (schedule : Schedule) (nonce : Bytes) : Galois.Element :=
  if nonce.length = 12 then Galois.ofBlock (nonce ++ [0, 0, 0, 1])
  else Galois.hash (hashKey schedule) (Galois.elements nonce ++ [Galois.lengths [] nonce])

/-- The next counter block: one more in the low 32 bits. -/
def nextCounter (e : Galois.Element) : Galois.Element :=
  e.extractLsb' 32 96 ++ (e.extractLsb' 0 32 + 1)

/-- The encryptions of the `count` counter blocks after `counter`. -/
def keystream (schedule : Schedule) (counter : Galois.Element) : (count : Nat) → Bytes
  | 0 => []
  | count + 1 =>
      let counter := nextCounter counter
      Galois.toBlock (cipher schedule counter) ++ keystream schedule counter count

/-- Add the keystream that follows a counter block. -/
def crypt (schedule : Schedule) (counter : Galois.Element) (data : Bytes) : Bytes :=
  Bytes.xor data (keystream schedule counter ((data.length + 15) / 16))

theorem length_keystream (schedule : Schedule) (counter : Galois.Element) (count : Nat) :
    (keystream schedule counter count).length = 16 * count := by
  induction count generalizing counter with
  | zero => rfl
  | succ count ih => simp [keystream, Galois.toBlock, ih]; omega

/-- The blocks that a tag authenticates: associated data, ciphertext, and both lengths. -/
def authenticated (associated ciphertext : Bytes) : List Galois.Element :=
  Galois.elements associated ++ Galois.elements ciphertext ++
    [Galois.lengths associated ciphertext]

/-- The tag of a ciphertext. -/
def tag (schedule : Schedule) (counter : Galois.Element) (associated ciphertext : Bytes) : Bytes :=
  Galois.toBlock (Galois.hash (hashKey schedule) (authenticated associated ciphertext) ^^^
    cipher schedule counter)

/-- Whether nonces of this length are supported. -/
def supportsNonce (length : Nat) : Bool := minNonceSize ≤ length && length ≤ maxNonceSize

/-- Check the length of a nonce. -/
def checkNonce (nonce : Bytes) : Except CryptoError Unit :=
  if supportsNonce nonce.length then .ok ()
  else .error (.nonceLength minNonceSize maxNonceSize nonce.length)

/-- Encrypt and authenticate: the ciphertext followed by its tag. -/
def encrypt (schedule : Schedule) (nonce plaintext associated : Bytes) : Bytes :=
  let counter := firstCounter schedule nonce
  let ciphertext := crypt schedule counter plaintext
  ciphertext ++ tag schedule counter associated ciphertext

/-- Check the tag at the end and decrypt what precedes it. -/
def decrypt? (schedule : Schedule) (nonce ciphertext associated : Bytes) : Option Bytes :=
  if ciphertext.length < tagSize then none
  else
    let counter := firstCounter schedule nonce
    -- The tag is over the ciphertext, so it is compared before anything is decrypted.
    let body := ciphertext.take (ciphertext.length - tagSize)
    if ciphertext.drop (ciphertext.length - tagSize) = tag schedule counter associated body then
      some (crypt schedule counter body)
    else none

/-- Encrypt under a key: the nonce length is checked first. The sizes of the plaintext and of the
associated data are not bounded. -/
def sealWith (key : SealingKey) (nonce plaintext associated : Bytes) :
    Except CryptoError Bytes := do
  checkNonce nonce
  return encrypt (Schedule.ofKey key.bytes) nonce plaintext associated

/-- Decrypt under a key: the nonce length is checked first. Here too no size is bounded. -/
def openWith (key : SealingKey) (nonce ciphertext associated : Bytes) :
    Except CryptoError Bytes := do
  checkNonce nonce
  match decrypt? (Schedule.ofKey key.bytes) nonce ciphertext associated with
  | some plaintext => return plaintext
  | none => .error .notAuthentic

end Gcm

end SealedMail
