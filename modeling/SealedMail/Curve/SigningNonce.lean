import SealedMail.Curve.PrivateKey
import SealedMail.Hash.Digest
import SealedMail.Hash.Hmac

/-!
# Deterministic signing nonces

The nonce of a signature is a function of the private key and the digest, so equal messages get
equal signatures and no randomness is needed. A generator keyed by both hands out 32-byte
candidates; the first that spells a scalar between one and the group order is the nonce. The digest
enters as it stands, also where its value is not below the group order.

The search for a nonce has no bound of its own, but a generator has finitely many states. Past as
many candidates (`Generator.states`) it is back in a state that it has been in, and would go round
for ever. So the search goes through that many candidates, and a larger number would change nothing.
-/

namespace SealedMail.SigningNonce

open Curve

/-- The authentication code of a message under a key, both as a generator keeps them. -/
def authenticate (key : Octets 32) (message : Bytes) : Octets 32 :=
  ⟨Hmac.sha256 key.bytes message, Hmac.length_sha256 key.bytes message⟩

/-- The state of the candidate generator: an authentication key and the last output. -/
structure Generator where
  key : Octets 32
  value : Octets 32

namespace Generator

/-- The number of states. -/
def states : Nat := Nat.pow 256 64

/-- The next output under the current key. -/
def next (g : Generator) : Generator := { g with value := authenticate g.key g.value.bytes }

/-- Change the key by absorbing a separator byte and a seed. -/
def absorb (g : Generator) (separator : UInt8) (seed : Bytes) : Generator :=
  let key := authenticate g.key (g.value.bytes ++ separator :: seed)
  ⟨key, authenticate key g.value.bytes⟩

/-- The generator before it is given a seed: a key of zeros, and ones for the last output. -/
def initial : Generator :=
  ⟨⟨List.replicate 32 0, List.length_replicate⟩, ⟨List.replicate 32 1, List.length_replicate⟩⟩

/-- The generator for a seed. -/
def ofSeed (seed : Bytes) : Generator := (initial.absorb 0 seed).absorb 1 seed

/-- The nonzero scalar that the next output spells, if it does. -/
def candidate? (g : Generator) : Option NonzeroScalar := NonzeroScalar.ofOctets? g.next.value

/-- The generator behind a rejected candidate, under a changed key. -/
def reject (g : Generator) : Generator := g.next.absorb 0 []

/-- The generator behind so many rejected candidates. -/
def rejected (g : Generator) : (count : Nat) → Generator
  | 0 => g
  | count + 1 => g.reject.rejected count

/-- The candidate behind so many rejected ones is the first that can be used. -/
def IsFirst (g : Generator) (count : Nat) (nonce : NonzeroScalar) : Prop :=
  (g.rejected count).candidate? = some nonce ∧
    ∀ earlier < count, (g.rejected earlier).candidate? = none

end Generator

/-- The first of so many candidates that is a nonzero scalar. -/
def searchWithin : (limit : Nat) → Generator → Option NonzeroScalar
  | 0, _ => none
  | limit + 1, g =>
      match g.candidate? with
      | some nonce => some nonce
      | none => searchWithin limit g.reject

/-- The first candidate that is a nonzero scalar. -/
def search (g : Generator) : Option NonzeroScalar := searchWithin Generator.states g

/-- The generator of the candidates for signing a digest with a private key. -/
def generator (key : PrivateKey) (digest : Digest) : Generator :=
  .ofSeed (key.bytes ++ digest.bytes)

/-- The nonce for signing a digest with a private key. -/
def derive (key : PrivateKey) (digest : Digest) : Option NonzeroScalar :=
  search (generator key digest)

end SealedMail.SigningNonce
