import SealedMail.CryptoError
import SealedMail.Curve.Point

/-!
# Public keys

A public key is a point of the curve other than the identity; the equation is part of the type.
Its encodings start with a header byte: `02` or `03` before the first coordinate names the point
with an even or odd second coordinate, `04` comes before both coordinates, and `05` before a first
coordinate names the even point again.
-/

namespace SealedMail

open Curve

/-- A point of the curve other than the identity. -/
structure PublicKey where
  x : Coordinate
  y : Coordinate
  onCurve : OnCurve x y
  deriving DecidableEq

namespace PublicKey

/-- The point of a public key. -/
def point (key : PublicKey) : Point := .affine key.x key.y

/-- The key with the given coordinates, if they satisfy the equation. -/
def ofCoordinates? (x y : Coordinate) : Option PublicKey :=
  if h : OnCurve x y then some ⟨x, y, h⟩ else none

/-- The key at a point other than the identity. -/
def ofPoint? : Point → Option PublicKey
  | .identity => none
  | .affine x y => ofCoordinates? x y

/-- The generator of the group as a public key. -/
def generator : PublicKey := ⟨generatorX, generatorY, onCurve_generator⟩

/-- The key with first coordinate `x` whose second coordinate has the given parity, if the curve
has a point there. -/
def lift? (odd : Bool) (x : Coordinate) : Option PublicKey :=
  let root := Coordinate.sqrt (x * x * x + 7)
  ofCoordinates? x (if root.isOdd = odd then root else -root)

/-- The header byte and first coordinate. -/
def compressed (key : PublicKey) : Bytes := (if key.y.isOdd then 3 else 2) :: key.x.bytes

/-- The header byte and both coordinates. -/
def uncompressed (key : PublicKey) : Bytes := 4 :: (key.x.bytes ++ key.y.bytes)

@[simp] theorem length_compressed (key : PublicKey) : key.compressed.length = 33 := by
  simp [compressed, Coordinate.bytes]

@[simp] theorem length_uncompressed (key : PublicKey) : key.uncompressed.length = 65 := by
  simp [uncompressed, Coordinate.bytes]

/-- Read one coordinate behind a header byte that fixes the parity of the other. -/
def decodeShort? (odd : Bool) (body : Bytes) : Option PublicKey :=
  if body.length = 32 then
    (Coordinate.ofNat? (Bytes.value body)).bind (lift? odd)
  else none

/-- Read both coordinates. -/
def decodeLong? (body : Bytes) : Option PublicKey :=
  if body.length = 64 then do
    let x ← Coordinate.ofNat? (Bytes.value (body.take 32))
    let y ← Coordinate.ofNat? (Bytes.value (body.drop 32))
    ofCoordinates? x y
  else none

/-- Read an encoded key. -/
def decode? : Bytes → Option PublicKey
  | [] => none
  | header :: body =>
      if header = 2 ∨ header = 5 then decodeShort? false body
      else if header = 3 then decodeShort? true body
      else if header = 4 then decodeLong? body
      else none

/-- Read an encoded key. -/
def ofBytes (data : Bytes) : Except CryptoError PublicKey :=
  match decode? data with
  | some key => .ok key
  | none => .error (.badPublicKey (.encoding data.length))

/-- Add a multiple of the generator. The tweak has to be below the group order, and the sum has to
be a point other than the identity. -/
def offsetBy (key : PublicKey) (tweak : Octets 32) : Except CryptoError PublicKey :=
  match Scalar.ofNat? (Bytes.value tweak.bytes) with
  | none => .error .badPrivateKey
  | some scalar =>
      match ofPoint? ((Point.generator.multiple scalar).add key.point) with
      | some sum => .ok sum
      | none => .error (.badPublicKey .identity)

/-- The compressed encoding as text. -/
def toHex (key : PublicKey) : String := Hex.encode key.compressed

/-- The form for logs: the first three bytes. -/
def summary (key : PublicKey) : String :=
  s!"PublicKey({Hex.encode (key.compressed.take 3)}..)"

end PublicKey

end SealedMail
