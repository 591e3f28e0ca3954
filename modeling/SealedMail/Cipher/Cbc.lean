import SealedMail.CryptoError
import SealedMail.Cipher.Aes

/-!
# Chained blocks without padding

Each plaintext block is added to the ciphertext block before it and then encrypted; an initial
vector stands in for the block before the first. There is no padding and no authentication, so only
whole blocks can be processed and every ciphertext decrypts to something.
-/

namespace SealedMail

/-- A key for chained blocks. -/
structure ChainingKey where
  octets : Octets 32
  deriving DecidableEq

namespace ChainingKey

/-- Read a key of 32 bytes. -/
def ofBytes (data : Bytes) : Except CryptoError ChainingKey :=
  match Octets.ofBytes? 32 data with
  | some octets => .ok ⟨octets⟩
  | none => .error (.keyLength 32 data.length)

/-- The key bytes. -/
def bytes (key : ChainingKey) : Bytes := key.octets.bytes

/-- The form for logs, which shows nothing. -/
def summary (_ : ChainingKey) : String := "CbcKey([REDACTED])"

end ChainingKey

namespace Cbc

open Aes (Schedule Block)

/-- Bytes in a block. -/
def blockSize : Nat := 16

/-- Encrypt blocks after the ciphertext block `previous`. -/
def encryptBlocks (schedule : Schedule) : (previous : Block) → List Block → List Block
  | _, [] => []
  | previous, b :: rest =>
      let c := Aes.encrypt schedule (b.add previous)
      c :: encryptBlocks schedule c rest

/-- Decrypt blocks after the ciphertext block `previous`. -/
def decryptBlocks (schedule : Schedule) : (previous : Block) → List Block → List Block
  | _, [] => []
  | previous, c :: rest =>
      (Aes.decrypt schedule c).add previous :: decryptBlocks schedule c rest

/-- The blocks of a byte string. -/
def toBlocks (data : Bytes) : List Block := (Bytes.blocks blockSize data).map Block.ofBytes

/-- The bytes of blocks in order. -/
def ofBlocks (bs : List Block) : Bytes := bs.flatMap Block.bytes

/-- Check the length of the initial vector, then that of the data. -/
def check (iv data : Bytes) : Except CryptoError Unit :=
  if iv.length ≠ blockSize then .error (.keyLength blockSize iv.length)
  else if data.length % blockSize ≠ 0 then .error (.blockLength blockSize data.length)
  else .ok ()

/-- Encrypt whole blocks. -/
def encrypt (key : ChainingKey) (iv data : Bytes) : Except CryptoError Bytes := do
  check iv data
  return ofBlocks (encryptBlocks (Schedule.ofKey key.bytes) (Block.ofBytes iv) (toBlocks data))

/-- Decrypt whole blocks. -/
def decrypt (key : ChainingKey) (iv data : Bytes) : Except CryptoError Bytes := do
  check iv data
  return ofBlocks (decryptBlocks (Schedule.ofKey key.bytes) (Block.ofBytes iv) (toBlocks data))

end Cbc

end SealedMail
