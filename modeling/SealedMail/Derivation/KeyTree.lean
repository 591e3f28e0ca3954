import SealedMail.Derivation.ExtendedKey

/-!
# Key trees

A key tree is where a receiver finds the private key for a path. It is a function, so all that an
opener can learn from it is the key at one path; the events of a derivation come with the key.
-/

namespace SealedMail

/-- A tree of private keys: the key at each path, or why there is none. -/
abbrev KeyTree := Path → Traced DerivationError PrivateKey

namespace KeyTree

/-- The tree below an extended key. -/
def below (root : ExtendedPrivateKey) : KeyTree := fun path => do
  return (← root.descend path).key

/-- The tree with one key at every path. -/
def single (key : PrivateKey) : KeyTree := fun _ => Traced.pure key

/-- The tree without any key: every path fails for the same cause. -/
def failing (cause : DerivationError) : KeyTree := fun _ => .ofExcept (.error cause)

/-- The public key at a path. -/
def publicKey (tree : KeyTree) (path : Path) : Traced DerivationError PublicKey := do
  return (← tree path).publicKey

end KeyTree

end SealedMail
