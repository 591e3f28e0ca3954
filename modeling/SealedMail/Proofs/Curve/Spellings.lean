import SealedMail.Proofs.Curve.Encoding

/-!
# What spells a public key

The coordinates of a point are two numbers below the field prime that satisfy the equation modulo
that prime (`Curve.IsPoint`), and these are the coordinates of public keys
(`Curve.isPoint_iff_exists_key`). Three kinds of byte strings spell them (`PublicKey.Spells`), and a
key is read from exactly these (`PublicKey.ofBytes_eq_ok_iff_spells`). Main statement:
`PublicKey.accepted_spellings`.
-/

namespace SealedMail

namespace Curve

/-- Two numbers that are the coordinates of a point. -/
structure IsPoint (x y : ℕ) : Prop where
  x_lt : x < fieldPrime
  y_lt : y < fieldPrime
  equation : y ^ 2 % fieldPrime = (x ^ 3 + 7) % fieldPrime

/-- The equation of the curve, in numbers. -/
theorem onCurve_iff_mod {x y : Coordinate} :
    OnCurve x y ↔ y.val ^ 2 % fieldPrime = (x.val ^ 3 + 7) % fieldPrime := by
  have seven : (7 : Coordinate).val = 7 := by decide
  have square : (y * y).val = y.val ^ 2 % fieldPrime := by rw [Fin.val_mul, sq]
  have cube : (x * x * x + 7).val = (x.val ^ 3 + 7) % fieldPrime := by
    rw [Fin.val_add, Fin.val_mul, Fin.val_mul, seven, Nat.mod_mul_mod, Nat.mod_add_mod]
    ring_nf
  rw [OnCurve, Fin.ext_iff, square, cube]

/-- The coordinates of points are those of public keys. -/
theorem isPoint_iff_exists_key {x y : ℕ} :
    IsPoint x y ↔ ∃ key : PublicKey, key.x.val = x ∧ key.y.val = y := by
  constructor
  · rintro ⟨x_lt, y_lt, equation⟩
    have onCurve : OnCurve ⟨x, x_lt⟩ ⟨y, y_lt⟩ := onCurve_iff_mod.2 equation
    exact ⟨⟨_, _, onCurve⟩, rfl, rfl⟩
  · rintro ⟨key, rfl, rfl⟩
    exact ⟨key.x.isLt, key.y.isLt, onCurve_iff_mod.1 key.onCurve⟩

end Curve

namespace PublicKey

open Curve

/-- A byte string that spells the point with coordinates `x` and `y`: a header for the parity of the
second before the first, the header `04` before both, or, for an even second coordinate, the header
`05` before the first. -/
inductive Spells (x y : ℕ) : Bytes → Prop where
  | compressed : Spells x y ((if y % 2 = 1 then 3 else 2) :: Bytes.bigEndian 32 x)
  | uncompressed : Spells x y (4 :: (Bytes.bigEndian 32 x ++ Bytes.bigEndian 32 y))
  | compact (even : y % 2 = 0) : Spells x y (5 :: Bytes.bigEndian 32 x)

theorem isOdd_eq_false_iff {y : Coordinate} : y.isOdd = false ↔ y.val % 2 = 0 := by
  rw [Coordinate.isOdd, beq_eq_false_iff_ne, Nat.mod_two_ne_one]

theorem compressed_eq (key : PublicKey) :
    key.compressed = (if key.y.val % 2 = 1 then 3 else 2) :: Bytes.bigEndian 32 key.x.val := by
  simp [compressed, Coordinate.isOdd, Coordinate.bytes]

/-- A key is read from the byte strings that spell its point. -/
theorem ofBytes_eq_ok_iff_spells {data : Bytes} {key : PublicKey} :
    ofBytes data = .ok key ↔ Spells key.x.val key.y.val data := by
  rw [ofBytes_eq_ok_iff, decode?_eq_some_iff, isOdd_eq_false_iff]
  constructor
  · rintro (rfl | rfl | ⟨rfl, even⟩)
    · rw [compressed_eq]
      exact .compressed
    · exact .uncompressed
    · exact .compact even
  · intro spelled
    cases spelled with
    | compressed => exact Or.inl key.compressed_eq.symm
    | uncompressed => exact Or.inr (Or.inl rfl)
    | compact even => exact Or.inr (Or.inr ⟨rfl, even⟩)

theorem head?_compressed (key : PublicKey) :
    key.compressed.head? = some 2 ∨ key.compressed.head? = some 3 := by
  rw [compressed, List.head?_cons]
  split
  · exact Or.inr rfl
  · exact Or.inl rfl

theorem eq_of_ofBytes_error {data : Bytes} {e : CryptoError} (h : ofBytes data = .error e) :
    e = .badPublicKey (.encoding data.length) := by
  unfold ofBytes at h
  split at h <;> cases h
  rfl

/-- The encodings of public keys. The compressed form has 33 bytes and starts with `02` or `03`, the
uncompressed form has 65 bytes and starts with `04`, and from both the key is read back. Keys that
are read from byte strings are equal exactly if their compressed forms are. A key is read from these
two forms, from its first coordinate behind `05` if its second coordinate is even, and from nothing
else. So a byte string is accepted exactly if it spells two numbers below the field prime that
satisfy the equation of the curve, and it is then the key with these coordinates; any other is
refused for its encoding. -/
theorem accepted_spellings :
    (∀ key : PublicKey,
      (key.compressed.length = 33 ∧
        (key.compressed.head? = some 2 ∨ key.compressed.head? = some 3) ∧
        ofBytes key.compressed = .ok key) ∧
      (key.uncompressed.length = 65 ∧ key.uncompressed.head? = some 4 ∧
        ofBytes key.uncompressed = .ok key) ∧
      ∀ data, ofBytes data = .ok key ↔ data = key.compressed ∨ data = key.uncompressed ∨
        data = 5 :: key.x.bytes ∧ key.y.val % 2 = 0) ∧
    (∀ data data' key key', ofBytes data = .ok key → ofBytes data' = .ok key' →
      (key = key' ↔ key.compressed = key'.compressed)) ∧
    (∀ data x y, (∃ key, ofBytes data = .ok key ∧ key.x.val = x ∧ key.y.val = y) ↔
      IsPoint x y ∧ Spells x y data) ∧
    ∀ data e, ofBytes data = .error e → e = .badPublicKey (.encoding data.length) := by
  refine ⟨fun key => ⟨⟨key.length_compressed, key.head?_compressed, ofBytes_compressed key⟩,
    ⟨key.length_uncompressed, rfl, ofBytes_uncompressed key⟩, fun data => ?_⟩, ?_, ?_, ?_⟩
  · rw [ofBytes_eq_ok_iff, decode?_eq_some_iff, isOdd_eq_false_iff]
  · intro data data' key key' _ _
    exact compressed_injective.eq_iff.symm
  · intro data x y
    constructor
    · rintro ⟨key, read, rfl, rfl⟩
      exact ⟨isPoint_iff_exists_key.2 ⟨key, rfl, rfl⟩, ofBytes_eq_ok_iff_spells.1 read⟩
    · rintro ⟨point, spelled⟩
      obtain ⟨key, rfl, rfl⟩ := isPoint_iff_exists_key.1 point
      exact ⟨key, ofBytes_eq_ok_iff_spells.2 spelled, rfl, rfl⟩
  · intro data e
    exact eq_of_ofBytes_error

/-- The generator, which has an even second coordinate, in its compact and its uncompressed form. -/
theorem accepted_spellings_of_generator :
    let compact : Bytes := 5 :: Bytes.bigEndian 32 generatorX.val
    let long : Bytes :=
      4 :: (Bytes.bigEndian 32 generatorX.val ++ Bytes.bigEndian 32 generatorY.val)
    IsPoint generatorX.val generatorY.val ∧ Spells generatorX.val generatorY.val compact ∧
    ∃ key other, ofBytes compact = .ok key ∧ ofBytes long = .ok other ∧ key = other ∧
      key.compressed = other.compressed := by
  intro compact long
  have even : generatorY.val % 2 = 0 := by decide
  have point : IsPoint generatorX.val generatorY.val :=
    isPoint_iff_exists_key.2 ⟨generator, rfl, rfl⟩
  obtain ⟨encodings, same, spelled, -⟩ := accepted_spellings
  obtain ⟨-, -, readings⟩ := encodings generator
  have key : ofBytes compact = .ok generator := (readings _).2 (Or.inr (Or.inr ⟨rfl, even⟩))
  have other : ofBytes long = .ok generator := (readings _).2 (Or.inr (Or.inl rfl))
  obtain ⟨-, spells⟩ := (spelled compact _ _).1 ⟨generator, key, rfl, rfl⟩
  exact ⟨point, spells, generator, generator, key, other, rfl,
    (same _ _ _ _ key other).1 rfl⟩

end PublicKey

end SealedMail
