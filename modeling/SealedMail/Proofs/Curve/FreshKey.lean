import SealedMail.Curve.FreshKey
import SealedMail.Proofs.Curve.Encoding

/-!
# The window of a fresh key

Thirty-two bytes spell a private key exactly if their value is between zero and the group order
(`PrivateKey.exists_ofOctets?_iff`, `PrivateKey.exists_ofBytes_iff`), so whether a source offers a
key is said by the values of its windows alone (`RandomSource.offersScalar_iff`). The search for a
fresh key ends at the first such window, and takes the windows up to it and nothing else off the
stream (`PrivateKey.exists_generate_eq`). A search that is given up after some number of windows
(`PrivateKey.generateWithin`) tells how long the search takes: it finds the same key as soon as it
reaches that window, and finds none within any number of windows if there is no such window
(`PrivateKey.generateWithin_of_not_offersScalar`), as in a stream of zeros.
-/

namespace SealedMail

open Curve

/-! ## Numbers that are private keys -/

namespace Curve

/-- A number that is the scalar of a private key. -/
def IsScalar (value : ℕ) : Prop := 0 < value ∧ value < groupOrder

theorem isScalar_val_iff {value : Scalar} : IsScalar value.val ↔ value ≠ 0 := by
  rw [IsScalar, and_iff_left value.isLt, Nat.pos_iff_ne_zero, Fin.val_ne_zero_iff]

theorem isScalar_iff_exists_key {value : ℕ} :
    IsScalar value ↔ ∃ key : PrivateKey, key.scalar.value.val = value := by
  constructor
  · rintro ⟨pos, lt⟩
    have ne_zero : (⟨value, lt⟩ : Scalar) ≠ 0 := isScalar_val_iff.1 ⟨pos, lt⟩
    exact ⟨⟨⟨_, ne_zero⟩⟩, rfl⟩
  · rintro ⟨key, rfl⟩
    exact isScalar_val_iff.2 key.scalar.ne_zero

end Curve

namespace PrivateKey

theorem ofOctets?_eq_some_iff {octets : Octets 32} {key : PrivateKey} :
    ofOctets? octets = some key ↔ key.scalar.value.val = Bytes.value octets.bytes := by
  rw [ofOctets?, Option.map_eq_some_iff, ← NonzeroScalar.ofOctets?_eq_some_iff]
  constructor
  · rintro ⟨scalar, h, rfl⟩
    exact h
  · intro h
    exact ⟨key.scalar, h, rfl⟩

theorem exists_ofOctets?_iff {octets : Octets 32} :
    (∃ key, ofOctets? octets = some key) ↔ IsScalar (Bytes.value octets.bytes) := by
  simp only [ofOctets?_eq_some_iff, isScalar_iff_exists_key]

/-- A key is read from the 32 bytes of its scalar. -/
theorem ofBytes_eq_ok_iff {data : Bytes} {key : PrivateKey} :
    ofBytes data = .ok key ↔ data.length = 32 ∧ key.scalar.value.val = Bytes.value data := by
  by_cases length : data.length = 32
  · have octets : Octets.ofBytes? 32 data = some ⟨data, length⟩ := dif_pos length
    have read : ofOctets? ⟨data, length⟩ = some key ↔
        key.scalar.value.val = Bytes.value data := ofOctets?_eq_some_iff
    rw [ofBytes, octets, and_iff_right length, ← read]
    dsimp only
    split <;> simp_all
  · have octets : Octets.ofBytes? 32 data = none := dif_neg length
    simp [ofBytes, octets, length]

theorem exists_ofBytes_iff {data : Bytes} :
    (∃ key, ofBytes data = .ok key) ↔ data.length = 32 ∧ IsScalar (Bytes.value data) := by
  simp only [ofBytes_eq_ok_iff, exists_and_left, isScalar_iff_exists_key]

end PrivateKey

/-! ## Windows -/

namespace RandomSource

/-- The number that a window of 32 bytes spells; windows are counted from the next byte. -/
def window (source : RandomSource) (index : ℕ) : ℕ :=
  Bytes.value ((source.skip (32 * index)).peek 32)

/-- The window spells a number between zero and the group order. -/
def IsScalarAt (source : RandomSource) (index : ℕ) : Prop :=
  0 < source.window index ∧ source.window index < groupOrder

instance (source : RandomSource) (index : ℕ) : Decidable (source.IsScalarAt index) :=
  inferInstanceAs (Decidable (_ ∧ _))

theorem key?_skip_eq_some_iff {source : RandomSource} {index : ℕ} {key : PrivateKey} :
    (source.skip (32 * index)).key? = some key ↔ key.scalar.value.val = source.window index :=
  PrivateKey.ofOctets?_eq_some_iff

theorem isSome_key?_skip_iff {source : RandomSource} {index : ℕ} :
    ((source.skip (32 * index)).key?).isSome = true ↔ source.IsScalarAt index := by
  rw [Option.isSome_iff_exists]
  simp only [key?_skip_eq_some_iff]
  exact isScalar_iff_exists_key.symm

theorem offersScalar_iff {source : RandomSource} :
    source.OffersScalar ↔ ∃ index, source.IsScalarAt index :=
  exists_congr fun _ => isSome_key?_skip_iff

theorem isFirstKey_iff {source : RandomSource} {index : ℕ} :
    source.IsFirstKey index ↔
      source.IsScalarAt index ∧ ∀ earlier < index, ¬ source.IsScalarAt earlier := by
  simp only [IsFirstKey, isSome_key?_skip_iff, ← Option.not_isSome_iff_eq_none]

/-- Zeros spell no scalar, however many there are. -/
theorem not_offersScalar_of_zeros {source : RandomSource} (h : ∀ offset, source.byteAt offset = 0) :
    ¬ source.OffersScalar := by
  intro offers
  obtain ⟨index, pos, -⟩ := offersScalar_iff.1 offers
  have zeros : (source.skip (32 * index)).peek 32 = List.replicate 32 0 := by
    simp [peek, skip, h]
  rw [window, zeros] at pos
  exact absurd pos (by decide)

end RandomSource

namespace PrivateKey

/-- The search takes the windows up to the first that spells a key. -/
theorem generate_of_isFirstKey {source : RandomSource} (h : source.OffersScalar) {index : ℕ}
    {key : PrivateKey} (first : source.IsFirstKey index)
    (found : (source.skip (32 * index)).key? = some key) :
    generate source h = (key, source.skip (32 * (index + 1))) := by
  -- The windows in front of the key are passed over one at a time.
  induction index generalizing source with
  | zero => exact generate_of_some h found
  | succ index ih =>
      have unusable : source.key? = none := first.2 0 (Nat.succ_pos index)
      rw [← RandomSource.skip_skip_windows] at found ⊢
      rw [generate_of_none h unusable, ih (h.skip unusable) first.skip found]

/-- A fresh key is the number of the first window that spells a key, and the windows up to that one
are taken. -/
theorem exists_generate_eq {source : RandomSource} (h : source.OffersScalar) :
    ∃ index, source.IsScalarAt index ∧ (∀ earlier < index, ¬ source.IsScalarAt earlier) ∧
      (generate source h).1.scalar.value.val = source.window index ∧
      (generate source h).2 = source.skip (32 * (index + 1)) := by
  obtain ⟨index, first⟩ := h.exists_first
  obtain ⟨key, found⟩ := Option.isSome_iff_exists.1 first.1
  obtain ⟨hscalar, hearlier⟩ := RandomSource.isFirstKey_iff.1 first
  rw [generate_of_isFirstKey h first found]
  exact ⟨index, hscalar, hearlier, RandomSource.key?_skip_eq_some_iff.1 found, rfl⟩

/-! ## How long a search takes -/

/-- Draw a key, but give up after so many windows. -/
def generateWithin : ℕ → RandomSource → Option (PrivateKey × RandomSource)
  | 0, _ => none
  | limit + 1, source =>
      match source.key? with
      | some key => some (key, source.skip 32)
      | none => generateWithin limit (source.skip 32)

/-- The search is given up exactly if the first window that spells a key is out of reach. -/
theorem generateWithin_of_isFirstKey {source : RandomSource} (h : source.OffersScalar) {index : ℕ}
    (first : source.IsFirstKey index) (limit : ℕ) :
    generateWithin limit source = if index < limit then some (generate source h) else none := by
  induction limit generalizing source index with
  | zero => rfl
  | succ limit ih =>
      rw [generateWithin]
      cases index with
      | zero =>
          obtain ⟨key, found⟩ := Option.isSome_iff_exists.1 first.1
          have found' : source.key? = some key := found
          rw [found', generate_of_some h found', if_pos (Nat.succ_pos limit)]
      | succ index =>
          have unusable : source.key? = none := first.2 0 (Nat.succ_pos index)
          rw [unusable, generate_of_none h unusable]
          simp only [ih (h.skip unusable) first.skip, Nat.succ_lt_succ_iff]

/-- Without a window that spells a key, the search is never over. -/
theorem generateWithin_of_not_offersScalar {source : RandomSource} (h : ¬ source.OffersScalar)
    (limit : ℕ) : generateWithin limit source = none := by
  induction limit generalizing source with
  | zero => rfl
  | succ limit ih =>
      have unusable : source.key? = none := by
        by_contra usable
        exact h ⟨0, Option.isSome_iff_ne_none.2 usable⟩
      have behind : ¬ (source.skip 32).OffersScalar := by
        rintro ⟨windows, found⟩
        rw [RandomSource.skip_skip_windows] at found
        exact h ⟨windows + 1, found⟩
      rw [generateWithin, unusable]
      exact ih behind

end PrivateKey

end SealedMail
