import SealedMail.Bytes.Utf8
import SealedMail.Message.MessageError

/-!
# Fields behind their lengths

A field is written as its length in two big-endian bytes, followed by its bytes. A `Reader` is a
position in a byte string; each reading step consumes bytes from there. A step that fails reports
why and leaves the reader where reading may go on: in front of the bytes it could not get.
-/

namespace SealedMail

namespace Field

/-- The longest field. -/
def maxSize : Nat := 65535

/-- A field: its length, then its bytes. -/
def encode (content : Bytes) : Bytes := Bytes.bigEndian 2 content.length ++ content

/-- Write a field at the end of a buffer. A field that is too long leaves the buffer as it is. -/
def write (buffer content : Bytes) : Except MessageError Unit × Bytes :=
  if content.length ≤ maxSize then (.ok (), buffer ++ encode content)
  else (.error (.fieldTooLong .framed content.length maxSize), buffer)

/-- Write fields one after another and go on after a refused one. -/
def writeAll (buffer : Bytes) (contents : List Bytes) : Bytes :=
  contents.foldl (fun buffer content => (write buffer content).2) buffer

end Field

/-- A position in a byte string, the number of bytes consumed. -/
structure Reader where
  data : Bytes
  position : Nat
  position_le : position ≤ data.length
  deriving DecidableEq

namespace Reader

/-- The reader at the start. -/
def start (data : Bytes) : Reader := ⟨data, 0, Nat.zero_le _⟩

/-- The number of bytes not yet consumed. -/
def remaining (reader : Reader) : Nat := reader.data.length - reader.position

/-- Everything is consumed. -/
def isEmpty (reader : Reader) : Bool := reader.remaining == 0

/-- The next `count` bytes. -/
def peek (reader : Reader) (count : Nat) : Bytes :=
  (reader.data.drop reader.position).take count

/-- The reader after `count` more bytes. -/
def advance (reader : Reader) (count : Nat) (h : count ≤ reader.remaining) : Reader where
  data := reader.data
  position := reader.position + count
  position_le := by
    have := reader.position_le
    unfold remaining at h
    omega

end Reader

/-- A reading step: a result, and the reader after it, also when it fails. -/
def Read (α : Type) : Type := Reader → Except MessageError α × Reader

namespace Read

variable {α β : Type}

/-- Consume nothing. -/
def pure (value : α) : Read α := fun reader => (.ok value, reader)

/-- Go on from where a successful step ended; a failure ends the reading. -/
def bind (step : Read α) (next : α → Read β) : Read β := fun reader =>
  match step reader with
  | (.ok value, reader') => next value reader'
  | (.error e, reader') => (.error e, reader')

instance : Monad Read where
  pure := pure
  bind := bind

/-- Fail without consuming anything. -/
def fail (e : MessageError) : Read α := fun reader => (.error e, reader)

/-- The current reader. -/
def reader : Read Reader := fun reader => (.ok reader, reader)

/-- Consume exactly `count` bytes. -/
def exact (count : Nat) : Read Bytes := fun reader =>
  if h : count ≤ reader.remaining then (.ok (reader.peek count), reader.advance count h)
  else (.error (.truncated count reader.remaining), reader)

/-- Consume a big-endian number of `width` bytes. -/
def number (width : Nat) : Read Nat := do
  return Bytes.value (← exact width)

/-- Consume a field of at most `limit` bytes. Its length is consumed even if it is too great. -/
def field (limit : Nat) : Read Bytes := do
  let length ← number 2
  if limit < length then fail (.lengthAboveLimit length limit) else exact length

/-- Consume everything. -/
def rest : Read Bytes := fun reader =>
  (.ok (reader.peek reader.remaining), reader.advance reader.remaining (Nat.le_refl _))

/-- Read from the start of a byte string. -/
def run (step : Read α) (data : Bytes) : Except MessageError α := (step (Reader.start data)).1

end Read

end SealedMail
