import SealedMail.CryptoError

/-!
# Failures of key derivation

Causes for which a path does not parse or a key cannot be derived, with their messages. The causes
that concern the text of a path are a type of their own.
-/

namespace SealedMail

/-- Why a text is not a derivation path. An `oversizedIndex` needs more than 32 bits; one that is
`indexOutOfRange` needs all of them. -/
inductive PathFault where
  | noRoot
  | noSlash
  | emptySegment
  | emptyLabel
  | badLabel (label : String)
  | badIndex (text : String)
  | oversizedIndex (digits : String)
  | indexOutOfRange (index : Nat)
  deriving DecidableEq

/-- What the message says about a malformed path. -/
def PathFault.message : PathFault → String
  | .noRoot => "path must start with 'm'"
  | .noSlash => "expected '/' after 'm'"
  | .emptySegment => "empty segment"
  | .emptyLabel => "empty segment label"
  | .badLabel label => s!"invalid segment label '{label}'"
  | .badIndex text => s!"invalid segment index '{text}'"
  | .oversizedIndex digits => s!"segment index '{digits}' out of range"
  | .indexOutOfRange index => s!"segment index {index} out of range"

/-- A failure of parsing paths or deriving keys. A key is `unreachable` from one whose path the
target does not extend; a `badSeed` has an unsupported length or gives no key. -/
inductive DerivationError where
  | crypto (cause : CryptoError)
  | malformedPath (path : String) (fault : PathFault)
  | unreachable (keyPath target : String)
  | hardenedChild (path : String)
  | badSeed (size : Nat)
  | noChild (number : Nat)
  | tooDeep (max : Nat)
  deriving DecidableEq

/-- The text of a failure. -/
def DerivationError.message : DerivationError → String
  | .crypto cause => s!"Crypto error: {cause.message}"
  | .malformedPath path fault => s!"Invalid derivation path '{path}': {fault.message}"
  | .unreachable keyPath target => s!"Path {target} is not reachable from key at {keyPath}"
  | .hardenedChild path => s!"Cannot derive hardened path {path} from a public key"
  | .badSeed size => s!"Invalid seed of {size} bytes"
  | .noChild number => s!"Invalid child key at index {number}"
  | .tooDeep max => s!"Derivation path exceeds maximum depth of {max}"

end SealedMail
