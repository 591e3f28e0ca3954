/-!
# Byte strings

A byte string is a list of bytes. This module gives the two views that the rest of the library
uses: the unsigned integer that a byte string spells in big-endian order (`Bytes.value`) and, back
from integers, the encoding of fixed width (`Bytes.bigEndian`). It also holds the integer
normalisations `stripZeros` and `padTo`, the division into blocks, and byte strings whose length is
part of the type (`Octets`).

Main statements: `length_bigEndian`, `value_padTo`, `value_stripZeros`.
-/

namespace SealedMail

/-- A byte string. -/
abbrev Bytes := List UInt8

namespace Bytes

/-- Continue reading a big-endian integer whose digits so far are worth `acc`. -/
def valueFrom (acc : Nat) (bytes : Bytes) : Nat :=
  bytes.foldl (fun value byte => value * 256 + byte.toNat) acc

/-- The unsigned integer that a byte string spells, most significant byte first. -/
def value (bytes : Bytes) : Nat := valueFrom 0 bytes

/-- The `width` lowest base-256 digits of `number`, most significant first, before `tail`. -/
def bigEndianOnto : Nat → Nat → Bytes → Bytes
  | 0, _, tail => tail
  | width + 1, number, tail =>
      bigEndianOnto width (number / 256) (UInt8.ofNat (number % 256) :: tail)

/-- The big-endian encoding of `number` in exactly `width` bytes; higher digits are dropped. -/
def bigEndian (width number : Nat) : Bytes := bigEndianOnto width number []

theorem length_bigEndianOnto (width number : Nat) (tail : Bytes) :
    (bigEndianOnto width number tail).length = width + tail.length := by
  induction width generalizing number tail with
  | zero => simp [bigEndianOnto]
  | succ width ih => simp [bigEndianOnto, ih]; omega

@[simp] theorem length_bigEndian (width number : Nat) :
    (bigEndian width number).length = width := by
  simp [bigEndian, length_bigEndianOnto]

/-- The shortest spelling of the same integer: no leading zero byte. -/
def stripZeros (bytes : Bytes) : Bytes := bytes.dropWhile (· == 0)

/-- The same integer with leading zero bytes up to `width` bytes. A shortest spelling that is
already wider than `width` is left as it is. -/
def padTo (width : Nat) (bytes : Bytes) : Bytes :=
  List.replicate (width - (stripZeros bytes).length) 0 ++ stripZeros bytes

@[simp] theorem valueFrom_cons (acc : Nat) (byte : UInt8) (rest : Bytes) :
    valueFrom acc (byte :: rest) = valueFrom (acc * 256 + byte.toNat) rest := rfl

theorem value_stripZeros (bytes : Bytes) : value (stripZeros bytes) = value bytes := by
  induction bytes with
  | nil => rfl
  | cons byte rest ih =>
      by_cases h : byte = 0
      · subst h
        simpa [stripZeros, value] using ih
      · simp [stripZeros, h]

theorem value_replicate_zero_append (count : Nat) (bytes : Bytes) :
    value (List.replicate count 0 ++ bytes) = value bytes := by
  induction count with
  | zero => rfl
  | succ count ih => simpa [List.replicate_succ, value] using ih

theorem value_padTo (width : Nat) (bytes : Bytes) : value (padTo width bytes) = value bytes := by
  rw [padTo, value_replicate_zero_append, value_stripZeros]

/-- The blocks of `size` bytes in order; the last one may be shorter. -/
def blocks (size : Nat) (bytes : Bytes) : List Bytes :=
  if size = 0 ∨ bytes = [] then [] else bytes.take size :: blocks size (bytes.drop size)
termination_by bytes.length
decreasing_by
  rename_i h
  have hb : 0 < bytes.length := List.length_pos_iff.2 fun e => h (Or.inr e)
  have hs : size ≠ 0 := fun e => h (Or.inl e)
  simp only [List.length_drop]
  omega

/-- Bytewise exclusive or, as long as the shorter operand. -/
def xor (left right : Bytes) : Bytes := List.zipWith (· ^^^ ·) left right

end Bytes

/-- A byte string of `size` bytes. -/
structure Octets (size : Nat) where
  bytes : Bytes
  length_eq : bytes.length = size
  deriving DecidableEq

namespace Octets

/-- The byte string as one of `size` bytes, if it has that length. -/
def ofBytes? (size : Nat) (bytes : Bytes) : Option (Octets size) :=
  if h : bytes.length = size then some ⟨bytes, h⟩ else none

/-- The big-endian encoding of `number` in `size` bytes. -/
def ofNat (size number : Nat) : Octets size :=
  ⟨Bytes.bigEndian size number, Bytes.length_bigEndian size number⟩

end Octets

end SealedMail
