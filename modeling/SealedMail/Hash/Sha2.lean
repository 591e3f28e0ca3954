import SealedMail.Bytes.Basic

/-!
# The SHA-2 hash functions

Both functions are one construction over different words. A `Variant` lists what differs: the word
size, the four mixing functions, and how many round constants are used. The constants and the
initial state of the 32-bit function are the upper halves of those of the 64-bit function, so one
table serves both.

Main statements: `length_digest`.
-/

namespace SealedMail.Sha2

/-- The chaining state: eight words. -/
structure State (Word : Type) where
  a : Word
  b : Word
  c : Word
  d : Word
  e : Word
  f : Word
  g : Word
  h : Word

/-- A member of the family: words of `wordSize` bytes with their unsigned values, the mixing
functions of the state and of the schedule, the state before the first block, and one constant a
round. -/
structure Variant (Word : Type) where
  wordSize : Nat
  ofNat : Nat → Word
  toNat : Word → Nat
  stateMix0 : Word → Word
  stateMix1 : Word → Word
  scheduleMix0 : Word → Word
  scheduleMix1 : Word → Word
  initial : State Word
  constants : List Word

variable {Word : Type}

/-- Bytes in a block: sixteen words. -/
def Variant.blockSize (v : Variant Word) : Nat := 16 * v.wordSize

/-- The message followed by a set bit, zeros up to a whole number of blocks, and its length in
bits. -/
def pad (v : Variant Word) (message : Bytes) : Bytes :=
  let framed := message.length + 1 + 2 * v.wordSize
  let zeros := (v.blockSize - framed % v.blockSize) % v.blockSize
  message ++ 0x80 :: List.replicate zeros 0 ++
    Bytes.bigEndian (2 * v.wordSize) (8 * message.length)

/-- The words of a state in order, as bytes. -/
def State.bytes (v : Variant Word) (s : State Word) : Bytes :=
  [s.a, s.b, s.c, s.d, s.e, s.f, s.g, s.h].flatMap fun word =>
    Bytes.bigEndian v.wordSize (v.toNat word)

section Compression

variable [Add Word] [AndOp Word] [XorOp Word] [Complement Word]

/-- Choose the bits of `y` where `x` is set and those of `z` elsewhere. -/
@[inline] def choose (x y z : Word) : Word := (x &&& y) ^^^ (~~~x &&& z)

/-- The bitwise majority of three words. -/
@[inline] def majority (x y z : Word) : Word := (x &&& y) ^^^ (x &&& z) ^^^ (y &&& z)

/-- One round with constant `k` and schedule word `w`. -/
@[specialize] def round (v : Variant Word) (s : State Word) (k w : Word) : State Word :=
  let t₁ := s.h + v.stateMix1 s.e + choose s.e s.f s.g + k + w
  let t₂ := v.stateMix0 s.a + majority s.a s.b s.c
  ⟨t₁ + t₂, s.a, s.b, s.c, s.d + t₁, s.e, s.f, s.g⟩

/-- The schedule word that follows a window of sixteen words whose first is `w`. -/
@[specialize] def nextWord (v : Variant Word) (w : Word) (window : List Word) : Word :=
  v.scheduleMix1 (window.getD 14 w) + window.getD 9 w + v.scheduleMix0 (window.getD 1 w) + w

/-- The rounds for the given constants. The window holds the next sixteen schedule words; each
round takes the first and appends the word that follows the window. -/
@[specialize] def rounds (v : Variant Word) : List Word → List Word → State Word → State Word
  | k :: constants, w :: window, s =>
      rounds v constants (window ++ [nextWord v w (w :: window)]) (round v s k w)
  | _, _, s => s

/-- Wordwise sum of two states. -/
@[specialize] def State.add (s t : State Word) : State Word :=
  ⟨s.a + t.a, s.b + t.b, s.c + t.c, s.d + t.d, s.e + t.e, s.f + t.f, s.g + t.g, s.h + t.h⟩

/-- Absorb one block. -/
@[specialize] def compress (v : Variant Word) (s : State Word) (block : Bytes) : State Word :=
  let window := (Bytes.blocks v.wordSize block).map fun bytes => v.ofNat (Bytes.value bytes)
  s.add (rounds v v.constants window s)

/-- The digest of a message. -/
@[specialize] def digest (v : Variant Word) (message : Bytes) : Bytes :=
  ((Bytes.blocks v.blockSize (pad v message)).foldl (compress v) v.initial).bytes v

theorem length_digest (v : Variant Word) (message : Bytes) :
    (digest v message).length = 8 * v.wordSize := by
  simp [digest, State.bytes]
  omega

end Compression

/-- The first 64 bits of the fractional parts of the cube roots of the first eighty primes. -/
def cubeRoots : List UInt64 :=
  [0x428a2f98d728ae22, 0x7137449123ef65cd, 0xb5c0fbcfec4d3b2f, 0xe9b5dba58189dbbc,
   0x3956c25bf348b538, 0x59f111f1b605d019, 0x923f82a4af194f9b, 0xab1c5ed5da6d8118,
   0xd807aa98a3030242, 0x12835b0145706fbe, 0x243185be4ee4b28c, 0x550c7dc3d5ffb4e2,
   0x72be5d74f27b896f, 0x80deb1fe3b1696b1, 0x9bdc06a725c71235, 0xc19bf174cf692694,
   0xe49b69c19ef14ad2, 0xefbe4786384f25e3, 0x0fc19dc68b8cd5b5, 0x240ca1cc77ac9c65,
   0x2de92c6f592b0275, 0x4a7484aa6ea6e483, 0x5cb0a9dcbd41fbd4, 0x76f988da831153b5,
   0x983e5152ee66dfab, 0xa831c66d2db43210, 0xb00327c898fb213f, 0xbf597fc7beef0ee4,
   0xc6e00bf33da88fc2, 0xd5a79147930aa725, 0x06ca6351e003826f, 0x142929670a0e6e70,
   0x27b70a8546d22ffc, 0x2e1b21385c26c926, 0x4d2c6dfc5ac42aed, 0x53380d139d95b3df,
   0x650a73548baf63de, 0x766a0abb3c77b2a8, 0x81c2c92e47edaee6, 0x92722c851482353b,
   0xa2bfe8a14cf10364, 0xa81a664bbc423001, 0xc24b8b70d0f89791, 0xc76c51a30654be30,
   0xd192e819d6ef5218, 0xd69906245565a910, 0xf40e35855771202a, 0x106aa07032bbd1b8,
   0x19a4c116b8d2d0c8, 0x1e376c085141ab53, 0x2748774cdf8eeb99, 0x34b0bcb5e19b48a8,
   0x391c0cb3c5c95a63, 0x4ed8aa4ae3418acb, 0x5b9cca4f7763e373, 0x682e6ff3d6b2b8a3,
   0x748f82ee5defb2fc, 0x78a5636f43172f60, 0x84c87814a1f0ab72, 0x8cc702081a6439ec,
   0x90befffa23631e28, 0xa4506cebde82bde9, 0xbef9a3f7b2c67915, 0xc67178f2e372532b,
   0xca273eceea26619c, 0xd186b8c721c0c207, 0xeada7dd6cde0eb1e, 0xf57d4f7fee6ed178,
   0x06f067aa72176fba, 0x0a637dc5a2c898a6, 0x113f9804bef90dae, 0x1b710b35131c471b,
   0x28db77f523047d84, 0x32caab7b40c72493, 0x3c9ebe0a15c9bebc, 0x431d67c49c100d4c,
   0x4cc5d4becb3e42b6, 0x597f299cfc657e2a, 0x5fcb6fab3ad6faec, 0x6c44198c4a475817]

/-- The first 64 bits of the fractional parts of the square roots of the first eight primes. -/
def squareRoots : State UInt64 :=
  ⟨0x6a09e667f3bcc908, 0xbb67ae8584caa73b, 0x3c6ef372fe94f82b, 0xa54ff53a5f1d36f1,
   0x510e527fade682d1, 0x9b05688c2b3e6c1f, 0x1f83d9abfb41bd6b, 0x5be0cd19137e2179⟩

/-- The upper half of a 64-bit word. -/
def upperHalf (word : UInt64) : UInt32 := (word >>> 32).toUInt32

/-- Rotate a 32-bit word to the right by an amount between 1 and 31. -/
@[inline] def rotate32 (word amount : UInt32) : UInt32 :=
  (word >>> amount) ||| (word <<< (32 - amount))

/-- Rotate a 64-bit word to the right by an amount between 1 and 63. -/
@[inline] def rotate64 (word amount : UInt64) : UInt64 :=
  (word >>> amount) ||| (word <<< (64 - amount))

/-- The member with 32-bit words and 64 rounds. -/
def sha256 : Variant UInt32 where
  wordSize := 4
  ofNat := UInt32.ofNat
  toNat := UInt32.toNat
  stateMix0 x := rotate32 x 2 ^^^ rotate32 x 13 ^^^ rotate32 x 22
  stateMix1 x := rotate32 x 6 ^^^ rotate32 x 11 ^^^ rotate32 x 25
  scheduleMix0 x := rotate32 x 7 ^^^ rotate32 x 18 ^^^ (x >>> 3)
  scheduleMix1 x := rotate32 x 17 ^^^ rotate32 x 19 ^^^ (x >>> 10)
  initial :=
    ⟨upperHalf squareRoots.a, upperHalf squareRoots.b, upperHalf squareRoots.c,
     upperHalf squareRoots.d, upperHalf squareRoots.e, upperHalf squareRoots.f,
     upperHalf squareRoots.g, upperHalf squareRoots.h⟩
  constants := (cubeRoots.take 64).map upperHalf

/-- The member with 64-bit words and 80 rounds. -/
def sha512 : Variant UInt64 where
  wordSize := 8
  ofNat := UInt64.ofNat
  toNat := UInt64.toNat
  stateMix0 x := rotate64 x 28 ^^^ rotate64 x 34 ^^^ rotate64 x 39
  stateMix1 x := rotate64 x 14 ^^^ rotate64 x 18 ^^^ rotate64 x 41
  scheduleMix0 x := rotate64 x 1 ^^^ rotate64 x 8 ^^^ (x >>> 7)
  scheduleMix1 x := rotate64 x 19 ^^^ rotate64 x 61 ^^^ (x >>> 6)
  initial := squareRoots
  constants := cubeRoots

theorem length_digest_sha256 (message : Bytes) : (digest sha256 message).length = 32 :=
  length_digest sha256 message

end SealedMail.Sha2
