import SealedMail.Proofs.Bytes.Positional
import SealedMail.Proofs.Curve.Keys

/-!
# Encoded coordinates, scalars and keys

A residue is read back from its 32 bytes, and so is a private key. The curve has two points over a
first coordinate, opposite to each other and of different parity, so a coordinate and a parity name
one key (`PublicKey.lift?_eq_some_iff`). Hence a key is read back from exactly its compressed form,
its uncompressed form and, if its second coordinate is even, its compact form
(`PublicKey.decode?_eq_some_iff`), and the other headers over the same coordinate name the same key
or its opposite (`PublicKey.exists_decodeShort?`).
-/

namespace SealedMail

namespace Curve

theorem fieldPrime_le : fieldPrime ≤ 256 ^ 32 := by decide +kernel

theorem groupOrder_le : groupOrder ≤ 256 ^ 32 := by decide +kernel

namespace Coordinate

@[simp] theorem length_bytes (x : Coordinate) : x.bytes.length = 32 := by simp [bytes]

@[simp] theorem value_bytes (x : Coordinate) : Bytes.value x.bytes = x.val :=
  Bytes.value_bigEndian_of_lt (lt_of_lt_of_le x.isLt fieldPrime_le)

theorem ofNat?_eq_some_iff {value : ℕ} {x : Coordinate} :
    ofNat? value = some x ↔ x.val = value := by
  unfold ofNat?
  split
  · simp [Fin.ext_iff, eq_comm]
  · rename_i h
    simp only [reduceCtorEq, false_iff]
    rintro rfl
    exact h x.isLt

/-- A string of 32 bytes is a coordinate exactly if it is the encoding of that coordinate. -/
theorem ofNat?_value_eq_some_iff {data : Bytes} {x : Coordinate} (h : data.length = 32) :
    ofNat? (Bytes.value data) = some x ↔ data = x.bytes := by
  rw [ofNat?_eq_some_iff]
  constructor
  · intro hval
    rw [bytes, hval, Bytes.bigEndian_value_of_length h]
  · rintro rfl
    exact (value_bytes x).symm

end Coordinate

namespace Scalar

@[simp] theorem length_bytes (x : Scalar) : x.bytes.length = 32 := by simp [bytes]

@[simp] theorem value_bytes (x : Scalar) : Bytes.value x.bytes = x.val :=
  Bytes.value_bigEndian_of_lt (lt_of_lt_of_le x.isLt groupOrder_le)

theorem ofNat?_val (x : Scalar) : ofNat? x.val = some x := by
  simp [ofNat?]

theorem ofNat?_eq_none_iff {value : ℕ} : ofNat? value = none ↔ groupOrder ≤ value := by
  simp [ofNat?]

end Scalar

namespace NonzeroScalar

theorem ofOctets?_bytes (x : NonzeroScalar) {octets : Octets 32}
    (h : octets.bytes = x.value.bytes) : ofOctets? octets = some x := by
  rw [ofOctets?, h, Scalar.value_bytes, Scalar.ofNat?_val]
  simp [ofScalar?, x.ne_zero]

theorem ofOctets?_eq_some_iff {octets : Octets 32} {x : NonzeroScalar} :
    ofOctets? octets = some x ↔ x.value.val = Bytes.value octets.bytes := by
  constructor
  · intro h
    obtain ⟨residue, hresidue, hx⟩ := Option.bind_eq_some_iff.1 h
    unfold Scalar.ofNat? at hresidue
    unfold ofScalar? at hx
    split at hresidue <;> cases hresidue
    split at hx <;> cases hx
    rfl
  · intro h
    apply x.ofOctets?_bytes
    rw [Scalar.bytes, h, Bytes.bigEndian_value_of_length octets.length_eq]

end NonzeroScalar

end Curve

/-- A private key is read back from its bytes. -/
@[simp] theorem PrivateKey.ofBytes_bytes (key : PrivateKey) : ofBytes key.bytes = .ok key := by
  have scalar : Curve.NonzeroScalar.ofOctets? ⟨key.bytes, key.length_bytes⟩ = some key.scalar :=
    key.scalar.ofOctets?_bytes rfl
  rw [ofBytes, Octets.ofBytes?, dif_pos key.length_bytes]
  simp only [ofOctets?, scalar, Option.map_some]

theorem PrivateKey.bytes_injective : Function.Injective bytes := by
  intro key key' same
  have read := ofBytes_bytes key
  rw [same, ofBytes_bytes] at read
  exact (Except.ok.inj read).symm

namespace PublicKey

open Curve
open scoped Arithmetic

theorem y_ne_zero (key : PublicKey) : key.y ≠ 0 := key.onCurve.y_ne_zero

theorem isOdd_neg_y (key : PublicKey) : (-key.y).isOdd = !key.y.isOdd :=
  Coordinate.isOdd_neg key.y_ne_zero

theorem ofCoordinates?_eq_some_iff {x y : Coordinate} {key : PublicKey} :
    ofCoordinates? x y = some key ↔ key.x = x ∧ key.y = y := by
  unfold ofCoordinates?
  split
  · constructor
    · rintro ⟨⟩
      exact ⟨rfl, rfl⟩
    · intro h
      rcases h with ⟨rfl, rfl⟩
      rfl
  · rename_i h
    simp only [reduceCtorEq, false_iff]
    intro h
    rcases h with ⟨rfl, rfl⟩
    exact h key.onCurve

/-- The second coordinate of a key is a root of the equation or its opposite. -/
theorem y_eq_root_or_neg (key : PublicKey) :
    key.y = Coordinate.sqrt (key.x * key.x * key.x + 7) ∨
      key.y = -Coordinate.sqrt (key.x * key.x * key.x + 7) := by
  rw [← mul_self_eq_mul_self_iff, Coordinate.sqrt_mul_self key.onCurve]
  exact key.onCurve

/-- A first coordinate and a parity name one key at most. -/
theorem lift?_eq_some_iff {odd : Bool} {x : Coordinate} {key : PublicKey} :
    lift? odd x = some key ↔ key.x = x ∧ key.y.isOdd = odd := by
  rw [lift?, ofCoordinates?_eq_some_iff]
  constructor
  · intro h
    rcases h with ⟨rfl, hy⟩
    refine ⟨rfl, ?_⟩
    split at hy
    · rename_i hodd
      rw [hy, hodd]
    · -- The opposite root was taken, whose parity is the other one.
      rename_i hodd
      have root : Coordinate.sqrt (key.x * key.x * key.x + 7) = -key.y := by rw [hy, neg_neg]
      rw [root, isOdd_neg_y] at hodd
      simpa using hodd
  · intro h
    rcases h with ⟨rfl, hodd⟩
    refine ⟨rfl, ?_⟩
    rcases key.y_eq_root_or_neg with hy | hy
    · rw [← hy, if_pos hodd]
    · have root : Coordinate.sqrt (key.x * key.x * key.x + 7) = -key.y := by rw [hy, neg_neg]
      rw [root, isOdd_neg_y, hodd, neg_neg]
      simp

theorem decodeShort?_eq_some_iff {odd : Bool} {body : Bytes} {key : PublicKey} :
    decodeShort? odd body = some key ↔ body = key.x.bytes ∧ key.y.isOdd = odd := by
  unfold decodeShort?
  split
  · rename_i h
    simp only [Option.bind_eq_some_iff, lift?_eq_some_iff, Coordinate.ofNat?_value_eq_some_iff h]
    constructor
    · intro h
      rcases h with ⟨x, hbody, rfl, hodd⟩
      exact ⟨hbody, hodd⟩
    · intro h
      rcases h with ⟨hbody, hodd⟩
      exact ⟨key.x, hbody, rfl, hodd⟩
  · rename_i h
    simp only [reduceCtorEq, false_iff]
    intro h
    rcases h with ⟨rfl, -⟩
    apply h
    exact Coordinate.length_bytes key.x

/-- A key is read back from its compressed form. -/
theorem decode?_compressed (key : PublicKey) : decode? key.compressed = some key := by
  have short : decodeShort? key.y.isOdd key.x.bytes = some key :=
    decodeShort?_eq_some_iff.2 ⟨rfl, rfl⟩
  cases hodd : key.y.isOdd with
  | false => simpa [compressed, decode?, hodd] using short
  | true => simpa [compressed, decode?, hodd] using short

theorem decodeLong?_eq_some_iff {body : Bytes} {key : PublicKey} :
    decodeLong? body = some key ↔ body = key.x.bytes ++ key.y.bytes := by
  unfold decodeLong?
  split
  · rename_i h
    have front : (body.take 32).length = 32 := by simp [h]
    have back : (body.drop 32).length = 32 := by simp [h]
    simp only [bind, Option.bind_eq_some_iff, Coordinate.ofNat?_value_eq_some_iff front,
      Coordinate.ofNat?_value_eq_some_iff back, ofCoordinates?_eq_some_iff]
    constructor
    · rintro ⟨x, hx, y, hy, rfl, rfl⟩
      rw [← hx, ← hy, List.take_append_drop]
    · rintro rfl
      exact ⟨key.x, List.take_left' (Coordinate.length_bytes _), key.y,
        List.drop_left' (Coordinate.length_bytes _), rfl, rfl⟩
  · rename_i h
    simp only [reduceCtorEq, false_iff]
    rintro rfl
    apply h
    simp

/-- A key is read back from its uncompressed form. -/
theorem decode?_uncompressed (key : PublicKey) : decode? key.uncompressed = some key := by
  have long : decodeLong? (key.x.bytes ++ key.y.bytes) = some key :=
    decodeLong?_eq_some_iff.2 rfl
  simpa [uncompressed, decode?] using long

/-- A key is encoded in its compressed form, in its uncompressed form, or, if its second coordinate
is even, by its first coordinate behind the header `05`. -/
theorem decode?_eq_some_iff {data : Bytes} {key : PublicKey} :
    decode? data = some key ↔ data = key.compressed ∨ data = key.uncompressed ∨
      data = 5 :: key.x.bytes ∧ key.y.isOdd = false := by
  constructor
  · intro h
    rcases data with _ | ⟨header, body⟩
    · cases h
    · rw [decode?] at h
      -- The compact header, like the even one, asks for the even root.
      split_ifs at h with heven hodd hlong
      · obtain ⟨rfl, hparity⟩ := decodeShort?_eq_some_iff.1 h
        rcases heven with rfl | rfl
        · exact Or.inl (by simp [compressed, hparity])
        · exact Or.inr (Or.inr ⟨rfl, hparity⟩)
      · obtain ⟨rfl, hparity⟩ := decodeShort?_eq_some_iff.1 h
        exact Or.inl (by simp [compressed, hparity, hodd])
      · obtain rfl := decodeLong?_eq_some_iff.1 h
        exact Or.inr (Or.inl (by rw [uncompressed, hlong]))
  · rintro (rfl | rfl | ⟨rfl, hparity⟩)
    · exact decode?_compressed key
    · exact decode?_uncompressed key
    · have short : decodeShort? false key.x.bytes = some key :=
        decodeShort?_eq_some_iff.2 ⟨rfl, hparity⟩
      simpa [decode?] using short

/-- An encoding is longer than a coordinate. -/
theorem lt_length_of_decode? {data : Bytes} {key : PublicKey} (h : decode? data = some key) :
    32 < data.length := by
  rcases decode?_eq_some_iff.1 h with rfl | rfl | ⟨rfl, -⟩ <;> simp

theorem compressed_injective : Function.Injective compressed := by
  intro key key' same
  have read := decode?_compressed key
  rw [same, decode?_compressed] at read
  exact (Option.some.inj read).symm

@[simp] theorem ofBytes_compressed (key : PublicKey) : ofBytes key.compressed = .ok key := by
  rw [ofBytes, decode?_compressed]

@[simp] theorem ofBytes_uncompressed (key : PublicKey) : ofBytes key.uncompressed = .ok key := by
  rw [ofBytes, decode?_uncompressed]

theorem ofBytes_eq_ok_iff {data : Bytes} {key : PublicKey} :
    ofBytes data = .ok key ↔ decode? data = some key := by
  unfold ofBytes
  split <;> simp_all

/-! ## Other headers over the same coordinate -/

/-- The key at the opposite point. -/
def opposite (key : PublicKey) : PublicKey where
  x := key.x
  y := -key.y
  onCurve := by
    have := key.onCurve
    unfold OnCurve at this ⊢
    linear_combination this

theorem toGroup_opposite (key : PublicKey) : key.opposite.toGroup = -key.toGroup := by
  apply Point.ofGroup_injective
  rw [Point.ofGroup_neg]
  rfl

/-- If one parity names a key over a coordinate, each parity names that key or its opposite. -/
theorem exists_decodeShort? {odd : Bool} {body : Bytes} {key : PublicKey}
    (h : decodeShort? odd body = some key) (odd' : Bool) :
    ∃ other, decodeShort? odd' body = some other ∧ (other = key ∨ other = key.opposite) := by
  obtain ⟨hbody, hodd⟩ := decodeShort?_eq_some_iff.1 h
  by_cases same : odd' = odd
  · exact ⟨key, same ▸ h, Or.inl rfl⟩
  · -- The opposite key has the same first coordinate and the other parity.
    refine ⟨key.opposite, decodeShort?_eq_some_iff.2 ⟨hbody, ?_⟩, Or.inr rfl⟩
    rw [opposite, isOdd_neg_y, hodd]
    cases odd <;> cases odd' <;> simp_all

theorem decode?_cons_two (body : Bytes) : decode? (2 :: body) = decodeShort? false body := rfl

theorem decode?_cons_three (body : Bytes) : decode? (3 :: body) = decodeShort? true body := rfl

/-- An encoding of 33 bytes has one of three headers before a coordinate. -/
theorem decode?_cons_of_length {header : UInt8} {body : Bytes} (h : body.length = 32) :
    decode? (header :: body) =
      if header = 2 ∨ header = 5 then decodeShort? false body
      else if header = 3 then decodeShort? true body
      else none := by
  have long : decodeLong? body = none := by simp [decodeLong?, h]
  rw [decode?, long]
  split_ifs <;> rfl

end PublicKey

end SealedMail
