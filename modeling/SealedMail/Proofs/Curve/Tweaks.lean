import SealedMail.Proofs.Curve.Encoding
import SealedMail.Proofs.Sequencing

/-!
# Tweaks

Adding a tweak to a private key adds scalars, and adding it to a public key adds its multiple of the
generator in the group (`PrivateKey.offsetBy_eq`, `PublicKey.offsetBy_eq`). What both have in common
is a `Tweakable`, and tweaks one after the other are added in either order, or at once
(`Tweakable.offsetBy_successive`). A sum of scalars that is zero on one side is the identity on the
other, so a tweak does to the public half what it does to the private key
(`PrivateKey.offsetBy_cases`). The main statement is `PrivateKey.tweaks_commute`.
-/

namespace SealedMail

open Curve
open scoped Arithmetic

/-! ## The scalar of a tweak -/

/-- The tweak of two tweaks added modulo the group order. -/
def Octets.addTweak (tweak tweak' : Octets 32) : Octets 32 :=
  .ofNat 32 ((Bytes.value tweak.bytes + Bytes.value tweak'.bytes) % groupOrder)

theorem Octets.addTweak_comm (tweak tweak' : Octets 32) :
    tweak.addTweak tweak' = tweak'.addTweak tweak := by
  rw [addTweak, addTweak, Nat.add_comm]

/-- Two tweaks below the group order and their sum spell scalars and their sum. -/
theorem Octets.value_addTweak {tweak tweak' : Octets 32} {t t' : Scalar}
    (ht : Bytes.value tweak.bytes = t.val) (ht' : Bytes.value tweak'.bytes = t'.val) :
    Bytes.value (tweak.addTweak tweak').bytes = (t + t').val := by
  have fits : (t.val + t'.val) % groupOrder < 256 ^ 32 :=
    lt_of_lt_of_le (Nat.mod_lt _ (by decide)) groupOrder_le
  rw [addTweak, Octets.ofNat, ht, ht', Bytes.value_bigEndian_of_lt fits, Fin.val_add]

/-! ## What both kinds of key share -/

/-- Keys that stand for elements of a vector space over the scalars, where adding a tweak adds its
multiple of one element, the `unit`. A key is determined by its element; a tweak is read as a
number, which has to be below the group order. -/
structure Tweakable (κ V : Type) [AddCommGroup V] [Module Scalar V] where
  element : κ → V
  unit : V
  ofSum : V → Except CryptoError κ
  offsetBy : κ → Octets 32 → Except CryptoError κ
  ofSum_eq_ok_iff {sum : V} {key : κ} : ofSum sum = .ok key ↔ element key = sum
  offsetBy_of_le {key : κ} {tweak : Octets 32} : groupOrder ≤ Bytes.value tweak.bytes →
    offsetBy key tweak = .error .badPrivateKey
  offsetBy_eq {key : κ} {tweak : Octets 32} {t : Scalar} : Bytes.value tweak.bytes = t.val →
    offsetBy key tweak = ofSum (t • unit + element key)

namespace Tweakable

variable {κ V : Type} [AddCommGroup V] [Module Scalar V] {kind : Tweakable κ V}
  {key one other : κ} {tweak tweak' : Octets 32}

theorem lt_of_offsetBy (h : kind.offsetBy key tweak = .ok one) :
    Bytes.value tweak.bytes < groupOrder := by
  by_contra hle
  rw [kind.offsetBy_of_le (not_lt.1 hle)] at h
  cases h

/-- Tweaks one after the other are added at once. -/
theorem offsetBy_offsetBy (h : kind.offsetBy key tweak = .ok one)
    (hlt : Bytes.value tweak'.bytes < groupOrder) :
    kind.offsetBy one tweak' = kind.offsetBy key (tweak.addTweak tweak') := by
  have ht : Bytes.value tweak.bytes = (⟨_, lt_of_offsetBy h⟩ : Scalar).val := rfl
  have ht' : Bytes.value tweak'.bytes = (⟨_, hlt⟩ : Scalar).val := rfl
  rw [kind.offsetBy_eq ht, kind.ofSum_eq_ok_iff] at h
  rw [kind.offsetBy_eq ht', kind.offsetBy_eq (Octets.value_addTweak ht ht'), h, add_smul,
    add_left_comm, add_assoc]

/-- Tweaks that a key accepts singly can be added in either order, or at once. -/
theorem offsetBy_successive (kind : Tweakable κ V) (h : kind.offsetBy key tweak = .ok one)
    (h' : kind.offsetBy key tweak' = .ok other) :
    kind.offsetBy one tweak' = kind.offsetBy other tweak ∧
      kind.offsetBy one tweak' = kind.offsetBy key (tweak.addTweak tweak') := by
  have first := offsetBy_offsetBy h (lt_of_offsetBy h')
  have second := offsetBy_offsetBy h' (lt_of_offsetBy h)
  rw [tweak'.addTweak_comm] at second
  exact ⟨first.trans second.symm, first⟩

end Tweakable

/-! ## The two kinds of key -/

namespace PrivateKey

/-- The key whose scalar is a sum, unless the sum is zero. -/
def ofSum (sum : Scalar) : Except CryptoError PrivateKey :=
  if h : sum = 0 then .error .badPrivateKey else .ok ⟨⟨sum, h⟩⟩

theorem ofSum_zero : ofSum 0 = .error .badPrivateKey := dif_pos rfl

theorem ofSum_eq_ok_iff {sum : Scalar} {key : PrivateKey} :
    ofSum sum = .ok key ↔ key.scalar.value = sum := by
  unfold ofSum
  split
  · rename_i zero
    simp only [reduceCtorEq, false_iff]
    rintro rfl
    exact key.scalar.ne_zero zero
  · constructor
    · rintro ⟨⟩
      rfl
    · rintro rfl
      rfl

theorem offsetBy_of_le (key : PrivateKey) {tweak : Octets 32}
    (h : groupOrder ≤ Bytes.value tweak.bytes) : key.offsetBy tweak = .error .badPrivateKey := by
  rw [offsetBy, Scalar.ofNat?_eq_none_iff.2 h]

/-- A tweak below the group order is added to the scalar. -/
theorem offsetBy_eq (key : PrivateKey) {tweak : Octets 32} {t : Scalar}
    (ht : Bytes.value tweak.bytes = t.val) :
    key.offsetBy tweak = ofSum (t + key.scalar.value) := by
  by_cases zero : t + key.scalar.value = 0
  · simp [offsetBy, ht, Scalar.ofNat?_val, NonzeroScalar.ofScalar?, ofSum, zero]
  · simp [offsetBy, ht, Scalar.ofNat?_val, NonzeroScalar.ofScalar?, ofSum, zero]

/-- Private keys as scalars other than zero; a tweak adds itself. -/
def tweakable : Tweakable PrivateKey Scalar where
  element key := key.scalar.value
  unit := 1
  ofSum := ofSum
  offsetBy := offsetBy
  ofSum_eq_ok_iff := ofSum_eq_ok_iff
  offsetBy_of_le h := offsetBy_of_le _ h
  offsetBy_eq {key tweak t} ht := by rw [smul_eq_mul, mul_one, key.offsetBy_eq ht]

end PrivateKey

namespace PublicKey

/-- The key at a sum in the group, unless the sum is the identity. -/
def ofSum (sum : CurveGroup) : Except CryptoError PublicKey :=
  match ofPoint? (Point.ofGroup sum) with
  | some key => .ok key
  | none => .error (.badPublicKey .identity)

theorem ofSum_zero : ofSum 0 = .error (.badPublicKey .identity) := rfl

theorem ofSum_eq_ok_iff {sum : CurveGroup} {key : PublicKey} :
    ofSum sum = .ok key ↔ key.toGroup = sum := by
  rw [← ofPoint?_ofGroup, ofSum]
  cases ofPoint? (Point.ofGroup sum) <;>
    simp only [reduceCtorEq, Except.ok.injEq, Option.some.injEq]

theorem offsetBy_of_le (key : PublicKey) {tweak : Octets 32}
    (h : groupOrder ≤ Bytes.value tweak.bytes) : key.offsetBy tweak = .error .badPrivateKey := by
  rw [offsetBy, Scalar.ofNat?_eq_none_iff.2 h]

/-- The multiple of the generator by a tweak below the group order is added to the key. -/
theorem offsetBy_eq (key : PublicKey) {tweak : Octets 32} {t : Scalar}
    (ht : Bytes.value tweak.bytes = t.val) :
    key.offsetBy tweak = ofSum (t • base + key.toGroup) := by
  have sum : (Point.generator.multiple t).add key.point =
      Point.ofGroup (t • base + key.toGroup) := by
    rw [← ofGroup_base, Point.multiple_eq_smul, ← ofGroup_toGroup, ← Point.ofGroup_add]
  rw [offsetBy, ht, Scalar.ofNat?_val]
  simp only [sum]
  rfl

/-- Public keys as elements of the group other than zero; a tweak adds its multiple of the
generator. -/
def tweakable : Tweakable PublicKey CurveGroup where
  element := toGroup
  unit := base
  ofSum := ofSum
  offsetBy := offsetBy
  ofSum_eq_ok_iff := ofSum_eq_ok_iff
  offsetBy_of_le h := offsetBy_of_le _ h
  offsetBy_eq ht := offsetBy_eq _ ht

/-- The multiple of the generator by a tweak below the group order is added along the chord or
tangent. -/
theorem offsetBy_eq_ok_iff {half sum : PublicKey} {tweak : Octets 32} :
    half.offsetBy tweak = .ok sum ↔ ∃ factor : Scalar, factor.val = Bytes.value tweak.bytes ∧
      sum.point = (Point.generator.multiple factor).add half.point := by
  have point (factor : Scalar) : (Point.generator.multiple factor).add half.point =
      Point.ofGroup (factor • base + half.toGroup) := by
    rw [Point.ofGroup_add, ← Point.multiple_eq_smul, ofGroup_base, ofGroup_toGroup]
  constructor
  · intro h
    have hlt := tweakable.lt_of_offsetBy h
    rw [half.offsetBy_eq (t := ⟨_, hlt⟩) rfl, ofSum_eq_ok_iff] at h
    exact ⟨⟨_, hlt⟩, rfl, by rw [point, ← h, ofGroup_toGroup]⟩
  · rintro ⟨factor, hfactor, hsum⟩
    rw [point, ← ofGroup_toGroup, Point.ofGroup_inj] at hsum
    rw [half.offsetBy_eq hfactor.symm, ofSum_eq_ok_iff, hsum]

end PublicKey

/-! ## Both halves -/

namespace PrivateKey

/-- What a tweak does to a private key and to its public half: the tweak is too large for both, the
sum is zero and the identity, or both have a sum. -/
theorem offsetBy_cases (key : PrivateKey) (tweak : Octets 32) :
    (groupOrder ≤ Bytes.value tweak.bytes ∧ key.offsetBy tweak = .error .badPrivateKey ∧
      key.publicKey.offsetBy tweak = .error .badPrivateKey) ∨
    (Bytes.value tweak.bytes < groupOrder ∧
      (key.scalar.value.val + Bytes.value tweak.bytes) % groupOrder = 0 ∧
      key.offsetBy tweak = .error .badPrivateKey ∧
      key.publicKey.offsetBy tweak = .error (.badPublicKey .identity)) ∨
    ∃ sum : PrivateKey, Bytes.value tweak.bytes < groupOrder ∧
      sum.scalar.value.val = (key.scalar.value.val + Bytes.value tweak.bytes) % groupOrder ∧
      key.offsetBy tweak = .ok sum ∧ key.publicKey.offsetBy tweak = .ok sum.publicKey := by
  rcases le_or_gt groupOrder (Bytes.value tweak.bytes) with hle | hlt
  · exact Or.inl ⟨hle, key.offsetBy_of_le hle, key.publicKey.offsetBy_of_le hle⟩
  · right
    have ht : Bytes.value tweak.bytes = (⟨_, hlt⟩ : Scalar).val := rfl
    have hvalue : (key.scalar.value.val + Bytes.value tweak.bytes) % groupOrder =
        ((⟨_, hlt⟩ : Scalar) + key.scalar.value).val := by
      rw [Fin.val_add, Nat.add_comm]
    rw [key.offsetBy_eq ht, key.publicKey.offsetBy_eq ht, toGroup_publicKey, ← add_smul, hvalue]
    generalize (⟨_, hlt⟩ : Scalar) + key.scalar.value = total
    by_cases zero : total = 0
    · -- The scalars cancel exactly where the points do.
      left
      rw [zero, zero_smul]
      exact ⟨hlt, rfl, ofSum_zero, PublicKey.ofSum_zero⟩
    · right
      exact ⟨⟨⟨total, zero⟩⟩, hlt, rfl, ofSum_eq_ok_iff.2 rfl,
        PublicKey.ofSum_eq_ok_iff.2 (toGroup_publicKey _)⟩

variable {key : PrivateKey} {tweak : Octets 32}

theorem exists_offsetBy_iff :
    (∃ sum, key.offsetBy tweak = .ok sum) ↔ Bytes.value tweak.bytes < groupOrder ∧
      (key.scalar.value.val + Bytes.value tweak.bytes) % groupOrder ≠ 0 := by
  rcases key.offsetBy_cases tweak with ⟨hle, h, -⟩ | ⟨-, zero, h, -⟩ | ⟨sum, hlt, hsum, h, -⟩
  · simp [h, hle.not_gt]
  · simp [h, zero]
  · have nonzero : sum.scalar.value.val ≠ 0 := mt (fun e => Fin.ext e) sum.scalar.ne_zero
    simp [h, hlt, ← hsum, nonzero]

/-- The two halves accept the same tweaks. -/
theorem exists_offsetBy_iff_publicKey :
    (∃ sum, key.offsetBy tweak = .ok sum) ↔ ∃ half, key.publicKey.offsetBy tweak = .ok half := by
  rcases key.offsetBy_cases tweak with ⟨-, h, h'⟩ | ⟨-, -, h, h'⟩ | ⟨sum, -, -, h, h'⟩ <;>
    simp [h, h']

theorem offsetBy_publicKey_of_ok {sum : PrivateKey} (h : key.offsetBy tweak = .ok sum) :
    key.publicKey.offsetBy tweak = .ok sum.publicKey ∧
      sum.scalar.value.val = (key.scalar.value.val + Bytes.value tweak.bytes) % groupOrder := by
  rcases key.offsetBy_cases tweak with ⟨-, refused, -⟩ | ⟨-, -, refused, -⟩ |
    ⟨other, -, hvalue, accepted, hpublic⟩
  · cases h.symm.trans refused
  · cases h.symm.trans refused
  · obtain rfl : sum = other := Except.ok.inj (h.symm.trans accepted)
    exact ⟨hpublic, hvalue⟩

/-- A tweak below the group order is added modulo that order. -/
theorem offsetBy_eq_ok_iff {sum : PrivateKey} :
    key.offsetBy tweak = .ok sum ↔ Bytes.value tweak.bytes < groupOrder ∧
      sum.scalar.value.val = (key.scalar.value.val + Bytes.value tweak.bytes) % groupOrder := by
  constructor
  · intro h
    exact ⟨(exists_offsetBy_iff.1 ⟨sum, h⟩).1, (offsetBy_publicKey_of_ok h).2⟩
  · rintro ⟨hlt, hsum⟩
    have ht : Bytes.value tweak.bytes = (⟨_, hlt⟩ : Scalar).val := rfl
    rw [key.offsetBy_eq ht, ofSum_eq_ok_iff, Fin.ext_iff, hsum, Fin.val_add, Nat.add_comm]

theorem offsetBy_of_cancelled (hlt : Bytes.value tweak.bytes < groupOrder)
    (zero : (key.scalar.value.val + Bytes.value tweak.bytes) % groupOrder = 0) :
    key.offsetBy tweak = .error .badPrivateKey ∧
      key.publicKey.offsetBy tweak = .error (.badPublicKey .identity) := by
  rcases key.offsetBy_cases tweak with ⟨hle, -⟩ | ⟨-, -, refused⟩ | ⟨sum, -, -, h, -⟩
  · exact absurd hlt hle.not_gt
  · exact refused
  · exact absurd zero (exists_offsetBy_iff.1 ⟨sum, h⟩).2

/-- Tweaks commute with taking the public half. The two halves accept the same tweaks: those below
the group order whose sum with the scalar is not zero. The sum is then the scalar plus the tweak
modulo the order, on both sides. A tweak not below the order is refused by both alike; a sum that is
zero is no private key on one side and the identity on the other. Tweaks that a key of either kind
accepts singly can be added in either order, or at once. -/
theorem tweaks_commute (key : PrivateKey) (tweak : Octets 32) :
    ((∃ sum, key.offsetBy tweak = .ok sum) ↔ Bytes.value tweak.bytes < groupOrder ∧
      (key.scalar.value.val + Bytes.value tweak.bytes) % groupOrder ≠ 0) ∧
    ((∃ sum, key.offsetBy tweak = .ok sum) ↔ ∃ half, key.publicKey.offsetBy tweak = .ok half) ∧
    (∀ sum, key.offsetBy tweak = .ok sum → key.publicKey.offsetBy tweak = .ok sum.publicKey ∧
      sum.scalar.value.val = (key.scalar.value.val + Bytes.value tweak.bytes) % groupOrder) ∧
    (groupOrder ≤ Bytes.value tweak.bytes → key.offsetBy tweak = .error .badPrivateKey ∧
      key.publicKey.offsetBy tweak = .error .badPrivateKey) ∧
    (Bytes.value tweak.bytes < groupOrder →
      (key.scalar.value.val + Bytes.value tweak.bytes) % groupOrder = 0 →
        key.offsetBy tweak = .error .badPrivateKey ∧
        key.publicKey.offsetBy tweak = .error (.badPublicKey .identity)) ∧
    (∀ tweak' one other, key.offsetBy tweak = .ok one → key.offsetBy tweak' = .ok other →
      one.offsetBy tweak' = other.offsetBy tweak ∧
      one.offsetBy tweak' = key.offsetBy (tweak.addTweak tweak')) ∧
    ∀ (half : PublicKey) tweak' one other, half.offsetBy tweak = .ok one →
      half.offsetBy tweak' = .ok other →
        one.offsetBy tweak' = other.offsetBy tweak ∧
        one.offsetBy tweak' = half.offsetBy (tweak.addTweak tweak') := by
  refine ⟨exists_offsetBy_iff, exists_offsetBy_iff_publicKey, fun sum => offsetBy_publicKey_of_ok,
    fun hle => ⟨key.offsetBy_of_le hle, key.publicKey.offsetBy_of_le hle⟩, offsetBy_of_cancelled,
    ?_, ?_⟩
  · intro tweak' one other h h'
    exact tweakable.offsetBy_successive h h'
  · intro half tweak' one other h h'
    exact PublicKey.tweakable.offsetBy_successive h h'

/-- The tweaks seven and nine, and a tweak that cancels the key. -/
theorem tweaks_commute_of_five :
    let key : PrivateKey := ⟨⟨5, by decide⟩⟩
    let tweak (value : ℕ) : Octets 32 := .ofNat 32 value
    (∃ one other, key.offsetBy (tweak 7) = .ok one ∧ key.offsetBy (tweak 9) = .ok other ∧
      one.offsetBy (tweak 9) = other.offsetBy (tweak 7) ∧
      key.publicKey.offsetBy (tweak 7) = .ok one.publicKey ∧ one.scalar.value = 12) ∧
    key.publicKey.offsetBy (tweak (groupOrder - 5)) = .error (.badPublicKey .identity) := by
  intro key tweak
  have seven : key.offsetBy (tweak 7) = .ok ⟨⟨12, by decide⟩⟩ := by decide +kernel
  have nine : key.offsetBy (tweak 9) = .ok ⟨⟨14, by decide⟩⟩ := by decide +kernel
  obtain ⟨-, -, success, -, -, successive, -⟩ := tweaks_commute key (tweak 7)
  obtain ⟨-, -, -, -, cancelled, -, -⟩ := tweaks_commute key (tweak (groupOrder - 5))
  exact ⟨⟨_, _, seven, nine, (successive _ _ _ seven nine).1, (success _ seven).1, rfl⟩,
    (cancelled (by decide +kernel) (by decide +kernel)).2⟩

end PrivateKey

end SealedMail
