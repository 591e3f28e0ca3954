import SealedMail.Bytes.Utf8
import SealedMail.Curve.PrivateKey
import SealedMail.Derivation.PathText
import SealedMail.Hash.Hmac
import SealedMail.Traced

/-!
# Extended keys

An extended key is a key with a chain code and its place in the tree. The children of a private key
are found by adding a tweak to it; the tweak and the child's chain code are the halves of a keyed
hash under the parent's chain code. A hardened child hashes the private key and a normal child the
public key, so that normal children of the public half are the public halves of the children.

Main statements: `length_hardenedMessage`, `length_normalMessage`.
-/

namespace SealedMail

/-- The key of the hash that turns a seed into the root. -/
def rootDomain : Bytes := Bytes.ofText "Bitcoin seed"

/-- The shortest and the longest seed. -/
def seedSizes : Nat × Nat := (16, 64)

/-- A keyed hash cut into a tweak and a chain code. -/
structure Split where
  tweak : Octets 32
  chainCode : Octets 32

/-- Hash a message under a key and cut the code in the middle. -/
def Split.ofHash (key message : Bytes) : Split where
  tweak := ⟨(Hmac.sha512 key message).take 32, by simp [Hmac.length_sha512]⟩
  chainCode := ⟨(Hmac.sha512 key message).drop 32, by simp [Hmac.length_sha512]⟩

/-- What is hashed for a hardened child. -/
def hardenedMessage (key : PrivateKey) (number : Nat) : Bytes :=
  0 :: (key.bytes ++ Bytes.bigEndian 4 number)

/-- What is hashed for a normal child. -/
def normalMessage (key : PublicKey) (number : Nat) : Bytes :=
  key.compressed ++ Bytes.bigEndian 4 number

@[simp] theorem length_hardenedMessage (key : PrivateKey) (number : Nat) :
    (hardenedMessage key number).length = 37 := by
  simp [hardenedMessage]

@[simp] theorem length_normalMessage (key : PublicKey) (number : Nat) :
    (normalMessage key number).length = 37 := by
  simp [normalMessage]

/-- A public key that can derive normal children, with its place in the tree. -/
structure ExtendedPublicKey where
  key : PublicKey
  chainCode : Octets 32
  path : Path
  deriving DecidableEq

namespace ExtendedPublicKey

/-- Derive a child. The depth is checked first; hardened children are refused. -/
def child (parent : ExtendedPublicKey) (segment : Segment) :
    Except DerivationError ExtendedPublicKey := do
  let path ← parent.path.child segment
  if segment.hardened then .error (.hardenedChild path.text)
  else
    let number := segment.childNumber
    let split := Split.ofHash parent.chainCode.bytes (normalMessage parent.key number)
    match parent.key.offsetBy split.tweak with
    | .ok key => .ok ⟨key, split.chainCode, path⟩
    | .error _ => .error (.noChild number)

/-- Derive a descendant, step by step. Every step below this key has to be normal. -/
def descend (parent : ExtendedPublicKey) (target : Path) :
    Except DerivationError ExtendedPublicKey :=
  match parent.path.suffixIn target with
  | none => .error (.unreachable parent.path.text target.text)
  | some suffix =>
      -- A hardened step anywhere below is reported before any child is derived.
      if suffix.any Segment.hardened then .error (.hardenedChild target.text)
      else suffix.foldlM child parent

/-- The form for logs. -/
def summary (key : ExtendedPublicKey) : String :=
  "ExtendedPublicKey \x7b path: " ++ Text.quoted key.path.text ++ ", key: " ++
    key.key.summary ++ " \x7d"

end ExtendedPublicKey

/-- A private key that can derive children, with its place in the tree. -/
structure ExtendedPrivateKey where
  key : PrivateKey
  chainCode : Octets 32
  path : Path
  deriving DecidableEq

namespace ExtendedPrivateKey

/-- The root of the tree that a seed of 16 to 64 bytes spans. -/
def ofSeed (seed : Bytes) : Except DerivationError ExtendedPrivateKey :=
  if seedSizes.1 ≤ seed.length ∧ seed.length ≤ seedSizes.2 then
    let split := Split.ofHash rootDomain seed
    match PrivateKey.ofOctets? split.tweak with
    | some key => .ok ⟨key, split.chainCode, Path.root⟩
    | none => .error (.badSeed seed.length)
  else .error (.badSeed seed.length)

/-- The public half. -/
def toPublic (key : ExtendedPrivateKey) : ExtendedPublicKey :=
  ⟨key.key.publicKey, key.chainCode, key.path⟩

/-- What is hashed for a child. -/
def childMessage (parent : ExtendedPrivateKey) (segment : Segment) : Bytes :=
  if segment.hardened then hardenedMessage parent.key segment.childNumber
  else normalMessage parent.key.publicKey segment.childNumber

/-- Derive a child. The depth is checked first. -/
def child (parent : ExtendedPrivateKey) (segment : Segment) :
    Except DerivationError ExtendedPrivateKey := do
  let path ← parent.path.child segment
  let split := Split.ofHash parent.chainCode.bytes (parent.childMessage segment)
  match parent.key.offsetBy split.tweak with
  | .ok key => .ok ⟨key, split.chainCode, path⟩
  | .error _ => .error (.noChild segment.childNumber)

/-- The same extended key, with the private key read again from its bytes. -/
def copy (key : ExtendedPrivateKey) : Except DerivationError ExtendedPrivateKey :=
  match PrivateKey.ofBytes key.key.bytes with
  | .ok again => .ok ⟨again, key.chainCode, key.path⟩
  | .error e => .error (.crypto e)

/-- Derive a descendant, step by step; a success is reported. -/
def descend (parent : ExtendedPrivateKey) (target : Path) :
    Traced DerivationError ExtendedPrivateKey :=
  match parent.path.suffixIn target with
  | none => .ofExcept (.error (.unreachable parent.path.text target.text))
  | some suffix => do
      let key ← .ofExcept (suffix.foldlM child parent)
      Traced.emit (.derived target.depth suffix.length)
      -- Without a step the parent is its own descendant, and what is given out is a copy.
      .ofExcept (if suffix.isEmpty then key.copy else .ok key)

/-- The form for logs, which shows the path only. -/
def summary (key : ExtendedPrivateKey) : String :=
  "ExtendedPrivateKey \x7b path: " ++ Text.quoted key.path.text ++
    ", key: \"[REDACTED]\" \x7d"

end ExtendedPrivateKey

end SealedMail
