import SealedMail.Hash.Sha2

/-!
# Keyed hashing

The nested construction over a hash function with a block size, and its two instances.
-/

namespace SealedMail.Hmac

open Sha2

variable {Word : Type} [Add Word] [AndOp Word] [XorOp Word] [Complement Word]

/-- The key in one block: hashed first if it is longer, then followed by zeros. -/
def keyBlock (v : Variant Word) (key : Bytes) : Bytes :=
  let short := if v.blockSize < key.length then digest v key else key
  short ++ List.replicate (v.blockSize - short.length) 0

/-- The authentication code of a message. -/
def code (v : Variant Word) (key message : Bytes) : Bytes :=
  let block := keyBlock v key
  digest v (block.map (· ^^^ 0x5c) ++ digest v (block.map (· ^^^ 0x36) ++ message))

theorem length_code (v : Variant Word) (key message : Bytes) :
    (code v key message).length = 8 * v.wordSize := length_digest v _

/-- The 32-byte code. -/
def sha256 (key message : Bytes) : Bytes := code Sha2.sha256 key message

/-- The 64-byte code. -/
def sha512 (key message : Bytes) : Bytes := code Sha2.sha512 key message

theorem length_sha256 (key message : Bytes) : (sha256 key message).length = 32 :=
  length_code Sha2.sha256 key message

theorem length_sha512 (key message : Bytes) : (sha512 key message).length = 64 :=
  length_code Sha2.sha512 key message

end SealedMail.Hmac
