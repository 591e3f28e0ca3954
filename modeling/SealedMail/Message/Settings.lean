import SealedMail.Cipher.Gcm
import SealedMail.Document

/-!
# Settings of a sealer

The only choice is the size of the random nonce. It can be read from a document with any content
and is checked separately, before a sealer takes it.
-/

namespace SealedMail

/-- The choices of a sender: the size of the nonce in bytes. -/
structure Settings where
  nonceSize : Nat
  deriving DecidableEq

/-- A choice that no sealer takes: a size of the nonce that the cipher does not support. -/
inductive SettingsError where
  | nonceSize (actual : Nat)
  deriving DecidableEq

/-- The text of a failure. -/
def SettingsError.message : SettingsError → String
  | nonceSize actual =>
      s!"Invalid configuration value for 'nonce_size': nonce size must be between " ++
        s!"{Gcm.minNonceSize} and {Gcm.maxNonceSize}, got {actual}"

namespace Settings

/-- Nonces of twelve bytes. -/
def standard : Settings := ⟨12⟩

/-- The nonce size is supported. -/
def isValid (settings : Settings) : Bool :=
  Gcm.minNonceSize ≤ settings.nonceSize && settings.nonceSize ≤ Gcm.maxNonceSize

/-- Check the nonce size. -/
def validate (settings : Settings) : Except SettingsError Unit :=
  if settings.isValid then .ok () else .error (.nonceSize settings.nonceSize)

/-- The nonce size in a document: an integer of at most 64 bits. -/
def ofInteger? : Document → Option Settings
  | .integer value => if 0 ≤ value ∧ value < 0x10000000000000000 then some ⟨value.toNat⟩ else none
  | _ => none

/-- Read settings from a record, where other names are ignored and a missing size is the standard
one, or from a sequence with at most one item. -/
def ofDocument? : Document → Option Settings
  | .record fields =>
      match fields.lookup "nonce_size" with
      | some value => ofInteger? value
      | none => some standard
  | .list [] => some standard
  | .list [value] => ofInteger? value
  | _ => none

/-- Settings as a record. -/
def toDocument (settings : Settings) : Document :=
  .record [("nonce_size", .integer settings.nonceSize)]

/-- The form for logs. -/
def summary (settings : Settings) : String :=
  s!"SealConfig \x7b nonce_size: {settings.nonceSize} \x7d"

end Settings

end SealedMail
