import SealedMail.Proofs.Bytes.Positional

/-!
# Spellings of a number

A number has many spellings, which differ in their leading zeros, and one of them has none. A
spelling without leading zeros is not longer than any other (`length_le_of_value_eq`), so taking the
zeros off gives the shortest one, and it gives the same for two byte strings exactly if they spell
one number (`stripZeros_eq_iff`). Filling up to a width depends on the number alone, too. The laws
of both are in `Bytes.shortest_and_padded`.
-/

namespace SealedMail.Bytes

/-- The first byte counts, unless it is zero. -/
theorem pow_length_le_value {byte : UInt8} (rest : Bytes) (h : byte ≠ 0) :
    256 ^ rest.length ≤ value (byte :: rest) := by
  have pos : 0 < byte.toNat := Nat.pos_of_ne_zero fun zero => h (UInt8.toNat_inj.1 zero)
  rw [value_cons]
  calc 256 ^ rest.length = 1 * 256 ^ rest.length := (one_mul _).symm
    _ ≤ byte.toNat * 256 ^ rest.length := Nat.mul_le_mul_right _ pos
    _ ≤ byte.toNat * 256 ^ rest.length + value rest := Nat.le_add_right _ _

/-- Without leading zeros, a spelling is not longer than another one of the same number. -/
theorem length_le_of_value_eq {short other : Bytes} (leading : short.head? ≠ some 0)
    (same : value short = value other) : short.length ≤ other.length := by
  cases short with
  | nil => exact Nat.zero_le _
  | cons byte rest =>
      have nonzero : byte ≠ 0 := fun zero => leading (congrArg some zero)
      -- The number takes more bytes than the rest has.
      have wide : 256 ^ rest.length < 256 ^ other.length :=
        calc 256 ^ rest.length ≤ value (byte :: rest) := pow_length_le_value rest nonzero
          _ = value other := same
          _ < 256 ^ other.length := value_lt other
      exact (Nat.pow_lt_pow_iff_right (by decide)).1 wide

/-- A number has one spelling without leading zeros. -/
theorem eq_stripZeros_iff {bytes other : Bytes} :
    other = stripZeros bytes ↔ value other = value bytes ∧ other.head? ≠ some 0 := by
  constructor
  · rintro rfl
    exact ⟨value_stripZeros bytes, head?_stripZeros_ne bytes⟩
  · rintro ⟨same, leading⟩
    have same' : value other = value (stripZeros bytes) := same.trans (value_stripZeros bytes).symm
    apply value_injective _ same'
    apply le_antisymm
    · exact length_le_of_value_eq leading same'
    · exact length_le_of_value_eq (head?_stripZeros_ne bytes) same'.symm

/-- What is left without the leading zeros tells the number and nothing else. -/
theorem stripZeros_eq_iff {a b : Bytes} : stripZeros a = stripZeros b ↔ value a = value b := by
  rw [eq_stripZeros_iff, value_stripZeros, and_iff_left (head?_stripZeros_ne a)]

theorem stripZeros_padTo (width : ℕ) (bytes : Bytes) :
    stripZeros (padTo width bytes) = stripZeros bytes :=
  stripZeros_eq_iff.2 (value_padTo width bytes)

/-- What is filled up tells the number and nothing else. -/
theorem padTo_eq_iff {width : ℕ} {a b : Bytes} :
    padTo width a = padTo width b ↔ value a = value b := by
  constructor
  · intro same
    rw [← value_padTo width a, same, value_padTo]
  · intro same
    rw [padTo, padTo, stripZeros_eq_iff.2 same]

/-- The shortest spelling of a number and the one that is filled up to a width. Filling up keeps the
number, gives as many bytes as the wider of the width and the shortest spelling, and depends on the
number alone. Taking the zeros off keeps the number and leaves no leading zero; the outcome is the
only spelling like that, and every other spelling is longer. Taking the zeros off again undoes
filling up, and filling up to its own length gives a byte string back. -/
theorem shortest_and_padded (width : ℕ) (bytes : Bytes) :
    (value (padTo width bytes) = value bytes ∧
      (padTo width bytes).length = max width (stripZeros bytes).length ∧
      ∀ other, padTo width bytes = padTo width other ↔ value bytes = value other) ∧
    (value (stripZeros bytes) = value bytes ∧ (stripZeros bytes).head? ≠ some 0 ∧
      (∀ other, other = stripZeros bytes ↔ value other = value bytes ∧ other.head? ≠ some 0) ∧
      ∀ other, value other = value bytes → other ≠ stripZeros bytes →
        (stripZeros bytes).length < other.length) ∧
    stripZeros (padTo width bytes) = stripZeros bytes ∧
    (bytes.length = width → padTo width (stripZeros bytes) = bytes) := by
  refine ⟨⟨value_padTo width bytes, length_padTo width bytes, fun _ => padTo_eq_iff⟩,
    ⟨value_stripZeros bytes, head?_stripZeros_ne bytes, fun _ => eq_stripZeros_iff, ?_⟩,
    stripZeros_padTo width bytes, padTo_stripZeros_of_length⟩
  intro other same ne
  have same' : value (stripZeros bytes) = value other := (value_stripZeros bytes).trans same.symm
  have le : (stripZeros bytes).length ≤ other.length :=
    length_le_of_value_eq (head?_stripZeros_ne bytes) same'
  -- Two spellings of one length are the same.
  exact lt_of_le_of_ne le fun length => ne (value_injective length same').symm

/-- A secret of four bytes with two leading zeros, in its own width and in one that is too small. -/
theorem shortest_and_padded_of_leading_zeros :
    let secret : Bytes := [0, 0, 7, 0]
    secret.length = 4 ∧ stripZeros secret = [7, 0] ∧ padTo 4 (stripZeros secret) = secret ∧
    padTo 1 secret = [7, 0] ∧ padTo 1 secret = padTo 1 [0, 7, 0] ∧
    value [0, 7, 0] = value secret ∧ (stripZeros secret).length < ([0, 7, 0] : Bytes).length := by
  intro secret
  have same : value [0, 7, 0] = value secret := by decide
  have ne : ([0, 7, 0] : Bytes) ≠ stripZeros secret := by decide
  obtain ⟨-, ⟨-, -, -, shortest⟩, -, restored⟩ := shortest_and_padded 4 secret
  obtain ⟨⟨-, -, padded⟩, -, -, -⟩ := shortest_and_padded 1 secret
  exact ⟨rfl, by decide, restored rfl, by decide, (padded _).2 same.symm, same, shortest _ same ne⟩

end SealedMail.Bytes
