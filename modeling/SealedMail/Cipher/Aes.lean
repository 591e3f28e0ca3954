import SealedMail.Bytes.Basic

/-!
# The AES-256 block cipher

A block is four columns of four bytes. A round substitutes every byte, turns the rows, mixes each
column over the field of 256 elements and adds a round key; the last round leaves out the mixing.
Decryption undoes the rounds one by one, from the last to the first, so that it is a left inverse
by the structure of its definition once each layer has an inverse.
-/

namespace SealedMail.Aes

/-- Four bytes of a block, top to bottom. -/
structure Column where
  r0 : UInt8
  r1 : UInt8
  r2 : UInt8
  r3 : UInt8
  deriving DecidableEq

/-- Sixteen bytes as four columns, the first four bytes in the first column. -/
structure Block where
  c0 : Column
  c1 : Column
  c2 : Column
  c3 : Column
  deriving DecidableEq

/-! ## Bytes as field elements -/

/-- Multiply by the root of the field polynomial `x⁸ + x⁴ + x³ + x + 1`. -/
def double (b : UInt8) : UInt8 := if b < 128 then b <<< 1 else (b <<< 1) ^^^ 0x1b

set_option maxRecDepth 2000 in
/-- The substitution of each byte: its inverse in the field, followed by an affine map over bits. -/
def substitution : Vector UInt8 256 :=
  #v[0x63, 0x7c, 0x77, 0x7b, 0xf2, 0x6b, 0x6f, 0xc5, 0x30, 0x01, 0x67, 0x2b, 0xfe, 0xd7, 0xab, 0x76,
     0xca, 0x82, 0xc9, 0x7d, 0xfa, 0x59, 0x47, 0xf0, 0xad, 0xd4, 0xa2, 0xaf, 0x9c, 0xa4, 0x72, 0xc0,
     0xb7, 0xfd, 0x93, 0x26, 0x36, 0x3f, 0xf7, 0xcc, 0x34, 0xa5, 0xe5, 0xf1, 0x71, 0xd8, 0x31, 0x15,
     0x04, 0xc7, 0x23, 0xc3, 0x18, 0x96, 0x05, 0x9a, 0x07, 0x12, 0x80, 0xe2, 0xeb, 0x27, 0xb2, 0x75,
     0x09, 0x83, 0x2c, 0x1a, 0x1b, 0x6e, 0x5a, 0xa0, 0x52, 0x3b, 0xd6, 0xb3, 0x29, 0xe3, 0x2f, 0x84,
     0x53, 0xd1, 0x00, 0xed, 0x20, 0xfc, 0xb1, 0x5b, 0x6a, 0xcb, 0xbe, 0x39, 0x4a, 0x4c, 0x58, 0xcf,
     0xd0, 0xef, 0xaa, 0xfb, 0x43, 0x4d, 0x33, 0x85, 0x45, 0xf9, 0x02, 0x7f, 0x50, 0x3c, 0x9f, 0xa8,
     0x51, 0xa3, 0x40, 0x8f, 0x92, 0x9d, 0x38, 0xf5, 0xbc, 0xb6, 0xda, 0x21, 0x10, 0xff, 0xf3, 0xd2,
     0xcd, 0x0c, 0x13, 0xec, 0x5f, 0x97, 0x44, 0x17, 0xc4, 0xa7, 0x7e, 0x3d, 0x64, 0x5d, 0x19, 0x73,
     0x60, 0x81, 0x4f, 0xdc, 0x22, 0x2a, 0x90, 0x88, 0x46, 0xee, 0xb8, 0x14, 0xde, 0x5e, 0x0b, 0xdb,
     0xe0, 0x32, 0x3a, 0x0a, 0x49, 0x06, 0x24, 0x5c, 0xc2, 0xd3, 0xac, 0x62, 0x91, 0x95, 0xe4, 0x79,
     0xe7, 0xc8, 0x37, 0x6d, 0x8d, 0xd5, 0x4e, 0xa9, 0x6c, 0x56, 0xf4, 0xea, 0x65, 0x7a, 0xae, 0x08,
     0xba, 0x78, 0x25, 0x2e, 0x1c, 0xa6, 0xb4, 0xc6, 0xe8, 0xdd, 0x74, 0x1f, 0x4b, 0xbd, 0x8b, 0x8a,
     0x70, 0x3e, 0xb5, 0x66, 0x48, 0x03, 0xf6, 0x0e, 0x61, 0x35, 0x57, 0xb9, 0x86, 0xc1, 0x1d, 0x9e,
     0xe1, 0xf8, 0x98, 0x11, 0x69, 0xd9, 0x8e, 0x94, 0x9b, 0x1e, 0x87, 0xe9, 0xce, 0x55, 0x28, 0xdf,
     0x8c, 0xa1, 0x89, 0x0d, 0xbf, 0xe6, 0x42, 0x68, 0x41, 0x99, 0x2d, 0x0f, 0xb0, 0x54, 0xbb, 0x16]

/-- Substitute a byte. -/
def substitute (b : UInt8) : UInt8 := substitution.get ⟨b.toNat, b.toNat_lt⟩

/-- The byte whose substitute is given. -/
def substitutionInverse : Vector UInt8 256 :=
  Vector.ofFn fun image : Fin 256 =>
    UInt8.ofNat ((substitution.toList.findIdx? fun b => b.toNat == image.val).getD 0)

/-- Undo the substitution of a byte. -/
def unsubstitute (b : UInt8) : UInt8 := substitutionInverse.get ⟨b.toNat, b.toNat_lt⟩

/-! ## Layers of a round -/

namespace Column

/-- Apply a map to each byte. -/
def map (f : UInt8 → UInt8) (c : Column) : Column := ⟨f c.r0, f c.r1, f c.r2, f c.r3⟩

/-- Bytewise sum. -/
def add (c d : Column) : Column := ⟨c.r0 ^^^ d.r0, c.r1 ^^^ d.r1, c.r2 ^^^ d.r2, c.r3 ^^^ d.r3⟩

/-- Multiply by the circulant matrix with first row `2 3 1 1`. -/
def mix (c : Column) : Column :=
  let t := c.r0 ^^^ c.r1 ^^^ c.r2 ^^^ c.r3
  ⟨c.r0 ^^^ t ^^^ double (c.r0 ^^^ c.r1), c.r1 ^^^ t ^^^ double (c.r1 ^^^ c.r2),
   c.r2 ^^^ t ^^^ double (c.r2 ^^^ c.r3), c.r3 ^^^ t ^^^ double (c.r3 ^^^ c.r0)⟩

/-- Multiply by the inverse matrix: the circulant `5 0 4 0`, followed by `mix`. -/
def unmix (c : Column) : Column :=
  let u := double (double (c.r0 ^^^ c.r2))
  let v := double (double (c.r1 ^^^ c.r3))
  mix ⟨c.r0 ^^^ u, c.r1 ^^^ v, c.r2 ^^^ u, c.r3 ^^^ v⟩

/-- The bytes one row up, the first going to the end. -/
def rotate (c : Column) : Column := ⟨c.r1, c.r2, c.r3, c.r0⟩

/-- The bytes from top to bottom. -/
def bytes (c : Column) : Bytes := [c.r0, c.r1, c.r2, c.r3]

end Column

namespace Block

/-- Apply a map to each column. -/
def map (f : Column → Column) (b : Block) : Block := ⟨f b.c0, f b.c1, f b.c2, f b.c3⟩

/-- Bytewise sum. -/
def add (b d : Block) : Block := ⟨b.c0.add d.c0, b.c1.add d.c1, b.c2.add d.c2, b.c3.add d.c3⟩

/-- Turn each row to the left by its number. -/
def shiftRows (b : Block) : Block :=
  ⟨⟨b.c0.r0, b.c1.r1, b.c2.r2, b.c3.r3⟩, ⟨b.c1.r0, b.c2.r1, b.c3.r2, b.c0.r3⟩,
   ⟨b.c2.r0, b.c3.r1, b.c0.r2, b.c1.r3⟩, ⟨b.c3.r0, b.c0.r1, b.c1.r2, b.c2.r3⟩⟩

/-- Turn each row to the right by its number. -/
def unshiftRows (b : Block) : Block :=
  ⟨⟨b.c0.r0, b.c3.r1, b.c2.r2, b.c1.r3⟩, ⟨b.c1.r0, b.c0.r1, b.c3.r2, b.c2.r3⟩,
   ⟨b.c2.r0, b.c1.r1, b.c0.r2, b.c3.r3⟩, ⟨b.c3.r0, b.c2.r1, b.c1.r2, b.c0.r3⟩⟩

/-- The sixteen bytes in order. -/
def bytes (b : Block) : Bytes := b.c0.bytes ++ b.c1.bytes ++ b.c2.bytes ++ b.c3.bytes

/-- The first sixteen bytes of a string, with zeros for missing ones. -/
def ofBytes (data : Bytes) : Block :=
  let at_ (i : Nat) : UInt8 := data.getD i 0
  ⟨⟨at_ 0, at_ 1, at_ 2, at_ 3⟩, ⟨at_ 4, at_ 5, at_ 6, at_ 7⟩,
   ⟨at_ 8, at_ 9, at_ 10, at_ 11⟩, ⟨at_ 12, at_ 13, at_ 14, at_ 15⟩⟩

/-- Substitution and row shift. -/
def scramble (b : Block) : Block := (b.map (Column.map substitute)).shiftRows

/-- Undo `scramble`. -/
def unscramble (b : Block) : Block := b.unshiftRows.map (Column.map unsubstitute)

@[simp] theorem length_bytes (b : Block) : b.bytes.length = 16 := rfl

@[simp] theorem ofBytes_bytes (b : Block) : ofBytes b.bytes = b := rfl

@[simp] theorem unshiftRows_shiftRows (b : Block) : b.shiftRows.unshiftRows = b := rfl

@[simp] theorem shiftRows_unshiftRows (b : Block) : b.unshiftRows.shiftRows = b := rfl

end Block

/-! ## Key schedule -/

/-- The four columns of `half`, each added to the one before; the first is added to `t`. -/
def chain (half : Block) (t : Column) : Block :=
  let c0 := half.c0.add t
  let c1 := half.c1.add c0
  let c2 := half.c2.add c1
  ⟨c0, c1, c2, half.c3.add c2⟩

/-- The round keys from the key halves `a` and `b` on: each constant gives the next two halves, and
the last first half is the last round key. -/
def expand : List UInt8 → Block → Block → List Block
  | [], a, _ => [a]
  | constant :: constants, a, b =>
      let a' := chain a ((b.c3.rotate.map substitute).add ⟨constant, 0, 0, 0⟩)
      let b' := chain b (a'.c3.map substitute)
      a :: b :: expand constants a' b'

/-- The fifteen round keys of a key of 32 bytes. -/
def roundKeys (key : Bytes) : List Block :=
  expand [1, 2, 4, 8, 16, 32, 64] (Block.ofBytes key) (Block.ofBytes (key.drop 16))

/-! ## The cipher -/

/-- The rounds under the given keys. -/
def rounds : List Block → Block → Block
  | [], b => b
  | [last], b => b.scramble.add last
  | key :: keys, b => rounds keys ((b.scramble.map Column.mix).add key)

/-- Undo `rounds` under the same keys. -/
def unrounds : List Block → Block → Block
  | [], b => b
  | [last], b => (b.add last).unscramble
  | key :: keys, b => (((unrounds keys b).add key).map Column.unmix).unscramble

/-- A key prepared for use: the one added first, and those of the rounds. -/
structure Schedule where
  whitening : Block
  roundKeys : List Block

/-- Prepare a key of 32 bytes. -/
def Schedule.ofKey (key : Bytes) : Schedule :=
  match Aes.roundKeys key with
  | [] => ⟨Block.ofBytes key, []⟩
  | first :: others => ⟨first, others⟩

/-- Encrypt a block. -/
def encrypt (schedule : Schedule) (b : Block) : Block :=
  rounds schedule.roundKeys (b.add schedule.whitening)

/-- Decrypt a block. -/
def decrypt (schedule : Schedule) (b : Block) : Block :=
  (unrounds schedule.roundKeys b).add schedule.whitening

end SealedMail.Aes
