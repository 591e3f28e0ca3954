import SealedMail.Bytes.Basic

/-!
# Base-58 text

A byte string is written as the base-58 digits of its value, without a leading zero digit, behind
one `1` for each leading zero byte. The alphabet leaves out `0`, `I`, `O` and `l`.
-/

namespace SealedMail.Base58

/-- The digit characters in order of value. -/
def alphabet : List Char := "123456789ABCDEFGHJKLMNPQRSTUVWXYZabcdefghijkmnopqrstuvwxyz".toList

/-- The character of a digit value below 58. -/
def digit (value : Nat) : Char := alphabet.getD value '1'

/-- The digit value of a character. -/
def digit? (c : Char) : Option Nat := alphabet.findIdx? (· == c)

/-- The digits of `number` in base `base`, most significant first and without a leading zero,
before `tail`. -/
def digitsOnto (base number : Nat) (tail : List Nat) : List Nat :=
  if base < 2 ∨ number = 0 then tail else digitsOnto base (number / base) (number % base :: tail)
termination_by number
decreasing_by
  rename_i h
  exact Nat.div_lt_self (Nat.pos_of_ne_zero fun e => h (Or.inr e))
    (Nat.lt_of_not_le fun e => h (Or.inl (Nat.lt_succ_of_le e)))

/-- The digits of `number` in base `base`, most significant first; none for zero. -/
def digits (base number : Nat) : List Nat := digitsOnto base number []

/-- The number with the given digits in base `base`. -/
def ofDigits (base : Nat) (ds : List Nat) : Nat := ds.foldl (fun acc d => acc * base + d) 0

/-- The text of a byte string. -/
def encode (bytes : Bytes) : String :=
  let zeros := bytes.takeWhile (· == 0)
  String.ofList (zeros.map (fun _ => '1') ++ (digits 58 (Bytes.value bytes)).map digit)

/-- Why a text is not base-58: an ASCII character outside the alphabet, or one outside ASCII.
Positions are offsets in bytes. -/
inductive DecodeError where
  | badCharacter (c : Char) (position : Nat)
  | notAscii (position : Nat)
  deriving DecidableEq

/-- The digit values of the characters from offset `position` on. All characters before the first
failure are ASCII, so their number is the byte offset. -/
def digitValues (position : Nat) : List Char → Except DecodeError (List Nat)
  | [] => .ok []
  | c :: rest =>
      match digit? c with
      | some value => do
          let values ← digitValues (position + 1) rest
          return value :: values
      | none => .error (if c.toNat < 128 then .badCharacter c position else .notAscii position)

/-- The byte string with the given base-58 digits: one zero byte for each leading zero digit, then
the shortest encoding of the value. -/
def ofDigitValues (values : List Nat) : Bytes :=
  (values.takeWhile (· == 0)).map (fun _ => 0) ++
    (digits 256 (ofDigits 58 values)).map UInt8.ofNat

/-- The byte string of a text. -/
def decode (text : String) : Except DecodeError Bytes :=
  (digitValues 0 text.toList).map ofDigitValues

end SealedMail.Base58
