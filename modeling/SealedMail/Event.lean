import SealedMail.Message.MessageError

/-!
# Events

What the library reports while it works. An event holds sizes, depths and failures, and never key
material or payload bytes. For a log each event has a level and a list of named fields.
-/

namespace SealedMail

/-- A report: of a key derived in so many steps, of a message that is sealed, opened or refused, or
of encryption without authentication. All lengths are in bytes. -/
inductive Event where
  | derived (depth steps : Nat)
  | sealed (payload path nonce blob : Nat)
  | opened (path nonce payload : Nat)
  | refused (cause : MessageError)
  | unauthenticated (length : Nat)
  deriving DecidableEq

namespace Event

/-- How much attention an event asks for, least first. -/
inductive Level where
  | trace
  | debug
  | warn
  deriving DecidableEq

/-- The level of an event. -/
def level : Event → Level
  | derived _ _ | opened _ _ _ => .trace
  | sealed _ _ _ _ | refused _ => .debug
  | unauthenticated _ => .warn

/-- The message of an event. -/
def message : Event → String
  | derived _ _ => "Derived private key"
  | sealed _ _ _ _ => "Encrypted payload"
  | opened _ _ _ => "Decrypted payload"
  | refused _ => "Rejected encrypted blob"
  | unauthenticated _ => "Encrypted with the unauthenticated legacy cipher"

/-- The named fields of an event, as text. -/
def fields : Event → List (String × String)
  | derived depth steps => [("depth", toString depth), ("steps", toString steps)]
  | sealed payload path nonce blob =>
      [("payload_len", toString payload), ("path_len", toString path),
       ("nonce_len", toString nonce), ("blob_len", toString blob)]
  | opened path nonce payload =>
      [("path_len", toString path), ("nonce_len", toString nonce),
       ("payload_len", toString payload)]
  | refused cause => [("kind", cause.kind.name), ("error", cause.message)]
  | unauthenticated length => [("len", toString length)]

end Event

/-- The name of a level in log lines. -/
def Event.Level.name : Event.Level → String
  | trace => "TRACE"
  | debug => "DEBUG"
  | warn => "WARN"

end SealedMail
