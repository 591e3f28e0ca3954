import SealedMail.Cipher.Aes

/-!
# The field of 2¹²⁸ elements and its polynomial hash

A block is read as a polynomial over bits modulo `x¹²⁸ + x⁷ + x² + x + 1`, the most significant
bit being the constant term. The hash of a list of blocks is the polynomial with those
coefficients, from the highest power down to the first, at the hash key.
-/

namespace SealedMail.Galois

/-- A field element: bit 127 is the constant term and bit 0 the coefficient of `x¹²⁷`. -/
abbrev Element := BitVec 128

/-- The element that a block spells. -/
def ofBlock (block : Bytes) : Element := BitVec.ofNat 128 (Bytes.value block)

/-- The block that spells an element. -/
def toBlock (e : Element) : Bytes := Bytes.bigEndian 16 e.toNat

/-- Multiply by `x`. -/
def shift (e : Element) : Element :=
  let lowered := e >>> 1
  if e.getLsbD 0 then lowered ^^^ (0xe1#128 <<< 120) else lowered

/-- The sum of the multiples `factor · xⁱ` over those of the next `count` coefficients of `e` that
are set, from the coefficient of bit `count - 1` down. -/
def mulFrom (e : Element) : (count : Nat) → (factor : Element) → Element
  | 0, _ => 0
  | count + 1, factor =>
      let others := mulFrom e count (shift factor)
      if e.getLsbD count then factor ^^^ others else others

/-- The product. -/
def mul (e factor : Element) : Element := mulFrom e 128 factor

/-- The hash of a list of field elements at the key `h`. -/
def hash (h : Element) (coefficients : List Element) : Element :=
  coefficients.foldl (fun acc c => mul (acc ^^^ c) h) 0

/-- A byte string as field elements, filled up with zero bytes to a whole number of blocks. -/
def elements (data : Bytes) : List Element :=
  (Bytes.blocks 16 data).map fun block =>
    ofBlock (block ++ List.replicate (16 - block.length) 0)

/-- The lengths of two byte strings in bits, 64 bits each. -/
def lengths (first second : Bytes) : Element :=
  ofBlock (Bytes.bigEndian 8 (8 * first.length) ++ Bytes.bigEndian 8 (8 * second.length))

end SealedMail.Galois
