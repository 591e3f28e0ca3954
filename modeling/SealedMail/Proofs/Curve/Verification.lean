import SealedMail.Proofs.Curve.Recovery
import SealedMail.Proofs.Sequencing

/-!
# Signatures that verify

Two scalars `(r, s)` verify for a key if the point `s⁻¹ (z G + r P)` has first coordinate `r`
(`Signature.verify`). Solved for the key, that is the equation by which a key is recovered, so the
keys recovered from two scalars under some header are those for which the scalars verify with a low
`s` (`Signature.exists_recover_iff_verify`). The opposite of `s` verifies as well
(`Signature.verify_opposite`), but being high it is refused under every header
(`Signature.recover_of_isHigh`). Both directions are joined in `Signature.sign_recover_verify`.
-/

namespace SealedMail

open Curve
open scoped Arithmetic

namespace Signature

/-- The point `s⁻¹ (z G + r P)`, which is the nonce point of an honest signature. -/
def noncePoint (key : PublicKey) (digest : Digest) (r s : NonzeroScalar) : Point :=
  (Point.generator.multiple (s.value.inverse * residue digest)).add
    (key.point.multiple (s.value.inverse * r.value))

/-- The check of two scalars against a key: the nonce point has first coordinate `r` modulo the
group order. -/
def verify (key : PublicKey) (digest : Digest) (r s : NonzeroScalar) : Bool :=
  match noncePoint key digest r s with
  | .identity => false
  | .affine x _ => Scalar.reduce x.val == r.value

variable {key : PublicKey} {digest : Digest} {r s : NonzeroScalar}

theorem noncePoint_eq : noncePoint key digest r s =
    Point.ofGroup (s.value⁻¹ • (residue digest • base + r.value • key.toGroup)) := by
  rw [noncePoint, ← ofGroup_base, ← PublicKey.ofGroup_toGroup, Point.multiple_eq_smul,
    Point.multiple_eq_smul, ← Point.ofGroup_add, smul_add, smul_smul, smul_smul,
    Scalar.inverse_eq]

theorem verify_iff : verify key digest r s = true ↔ ∃ point : PublicKey,
    point.toGroup = s.value⁻¹ • (residue digest • base + r.value • key.toGroup) ∧
      r.value = Scalar.reduce point.x.val := by
  unfold verify
  rw [noncePoint_eq]
  generalize s.value⁻¹ • (residue digest • base + r.value • key.toGroup) = sum
  -- The sum is the identity, which has no coordinates, or the point of a key.
  rcases eq_or_ne sum 0 with rfl | nonzero
  · rw [Point.ofGroup_zero]
    constructor
    · intro h
      cases h
    · rintro ⟨point, hpoint, -⟩
      exact absurd hpoint point.toGroup_ne_zero
  · obtain ⟨point, rfl⟩ := PublicKey.exists_toGroup_eq nonzero
    rw [PublicKey.ofGroup_toGroup]
    constructor
    · intro h
      exact ⟨point, rfl, (beq_iff_eq.1 h).symm⟩
    · rintro ⟨other, hother, hr⟩
      obtain rfl := PublicKey.toGroup_injective hother
      exact beq_iff_eq.2 hr.symm

/-- The signature equation, solved for the nonce point and for the key. -/
theorem nonce_eq_iff {P Q : CurveGroup} {z : Scalar} :
    Q = s.value⁻¹ • (z • base + r.value • P) ↔ P = r.value⁻¹ • (s.value • Q - z • base) := by
  rw [eq_inv_smul_iff₀ s.ne_zero, eq_inv_smul_iff₀ r.ne_zero, eq_sub_iff_add_eq, eq_comm, add_comm]

/-- A recovered key is one for which the scalars verify. -/
theorem verify_of_recoverFrom {hint : Hint} (h : recoverFrom hint r s (residue digest) = some key) :
    verify key digest r s = true := by
  obtain ⟨-, x, point, hx, hpoint, hkey⟩ := recoverFrom_eq_some_iff.1 h
  obtain ⟨rfl, -⟩ := PublicKey.lift?_eq_some_iff.1 hpoint
  exact verify_iff.2 ⟨point, nonce_eq_iff.2 hkey, (reduce_of_coordinate? hx).symm⟩

theorem isHigh_of_recoverFrom {hint : Hint} {z : Scalar} (h : recoverFrom hint r s z = some key) :
    s.value.isHigh = false :=
  (recoverFrom_eq_some_iff.1 h).1

/-- Some header recovers a key from two scalars exactly if they verify for it and `s` is low. -/
theorem exists_recover_iff_verify :
    (∃ header, recover (header :: (r.value.bytes ++ s.value.bytes)) digest = .ok key) ↔
      s.value.isHigh = false ∧ verify key digest r s = true := by
  constructor
  · rintro ⟨header, h⟩
    obtain ⟨hint, -, hkey⟩ := recover_cons_eq_ok_iff.1 h
    exact ⟨isHigh_of_recoverFrom hkey, verify_of_recoverFrom hkey⟩
  · rintro ⟨low, h⟩
    obtain ⟨point, hpoint, hr⟩ := verify_iff.1 h
    have hkey := recoverFrom_ofPoint point low hr (nonce_eq_iff.1 hpoint)
    exact ⟨(Hint.ofPoint point).header,
      recover_cons_eq_ok_iff.2 ⟨_, Hint.ofHeader_header _, hkey⟩⟩

/-- If `s` verifies, so does its opposite: the nonce point is the opposite one, over the same first
coordinate. -/
theorem verify_opposite (h : verify key digest r s = true) :
    verify key digest r s.opposite = true := by
  obtain ⟨point, hpoint, hr⟩ := verify_iff.1 h
  refine verify_iff.2 ⟨point.opposite, ?_, hr⟩
  rw [PublicKey.toGroup_opposite, hpoint, NonzeroScalar.opposite, inv_neg, neg_smul]

/-- Two scalars of which the second is high are refused under every header. -/
theorem recover_of_isHigh (high : s.value.isHigh = true) (header : UInt8) :
    recover (header :: (r.value.bytes ++ s.value.bytes)) digest =
      .error (.recovery (if 27 ≤ header ∧ header ≤ 34 then .noKey else .badHeader header)) := by
  split
  · rename_i inside
    obtain ⟨hint, -, hhint⟩ := Hint.exists_ofHeader inside
    have none_found : recoverFrom hint r s (residue digest) = none := by
      rw [recoverFrom, if_pos high]
      rfl
    rw [recover_of_hint hhint, none_found]
  · rename_i outside
    exact recover_of_not_mem outside (by simp) digest

/-- What signing writes is a header of the first series and two scalars of which the second is low;
the signer is recovered from it, also with the header of the second series. -/
theorem exists_header_of_sign {key : PrivateKey} {signature : Signature}
    (h : sign key digest = .ok signature) :
    ∃ (header : UInt8) (r s : NonzeroScalar),
      signature.bytes = header :: (r.value.bytes ++ s.value.bytes) ∧
      27 ≤ header ∧ header ≤ 30 ∧ s.value.val ≤ groupOrder / 2 ∧
      recover signature.bytes digest = .ok key.publicKey ∧
      recover ((header + 4) :: (r.value.bytes ++ s.value.bytes)) digest = .ok key.publicKey := by
  obtain ⟨-, nonce, -, hsigned⟩ := sign_eq_ok_iff.1 h
  obtain ⟨hint, r, s, rfl, hkey⟩ := exists_encode_of_signWith hsigned
  refine ⟨hint.header, r, s, rfl, hint.header_mem.1, hint.header_mem.2,
    Scalar.isHigh_eq_false_iff.1 (isHigh_of_recoverFrom hkey), recover_sign h, ?_⟩
  exact recover_cons_eq_ok_iff.2 ⟨hint, hint.ofHeader_header_add_flag, hkey⟩

/-- A recovered key comes from a header in range and two scalars that verify for it, of which the
second is low. With the opposite of that scalar no header gives a key. -/
theorem exists_header_of_recover {signature : Bytes} {signer : PublicKey}
    (h : recover signature digest = .ok signer) :
    ∃ (header : UInt8) (r s : NonzeroScalar),
      signature = header :: (r.value.bytes ++ s.value.bytes) ∧
      27 ≤ header ∧ header ≤ 34 ∧ s.value.val ≤ groupOrder / 2 ∧
      verify signer digest r s = true ∧
      ∀ header' : UInt8,
        recover (header' :: (r.value.bytes ++ Bytes.bigEndian 32 (groupOrder - s.value.val)))
          digest = .error (.recovery
            (if 27 ≤ header' ∧ header' ≤ 34 then .noKey else .badHeader header')) := by
  obtain ⟨header, hint, r, s, rfl, hhint, hkey⟩ := recover_eq_ok_iff.1 h
  have low := isHigh_of_recoverFrom hkey
  have high : s.opposite.value.isHigh = true := by rw [s.isHigh_opposite, low, Bool.not_false]
  obtain ⟨lower, upper⟩ := Hint.mem_of_ofHeader hhint
  refine ⟨header, r, s, rfl, lower, upper, Scalar.isHigh_eq_false_iff.1 low,
    verify_of_recoverFrom hkey, fun header' => ?_⟩
  rw [← s.bytes_opposite]
  exact recover_of_isHigh high header'

/-- Signing and recovery. A signature is a header of the first series and two nonzero scalars of
which the second is in the lower half, and the signer is recovered from it under its header and
under that of the second series. A key is recovered only from a header of one of the series and two
scalars that verify for the key, the second in the lower half; the signature with the opposite
scalar is refused under every header. Of the header nothing but its offset modulo four matters, and
it always names a nonce point. -/
theorem sign_recover_verify (digest : Digest) :
    (∀ (key : PrivateKey) (signature : Signature), sign key digest = .ok signature →
      ∃ (header : UInt8) (r s : NonzeroScalar),
        signature.bytes = header :: (r.value.bytes ++ s.value.bytes) ∧
        27 ≤ header ∧ header ≤ 30 ∧ s.value.val ≤ groupOrder / 2 ∧
        recover signature.bytes digest = .ok key.publicKey ∧
        recover ((header + 4) :: (r.value.bytes ++ s.value.bytes)) digest = .ok key.publicKey) ∧
    (∀ (signature : Bytes) (signer : PublicKey), recover signature digest = .ok signer →
      ∃ (header : UInt8) (r s : NonzeroScalar),
        signature = header :: (r.value.bytes ++ s.value.bytes) ∧
        27 ≤ header ∧ header ≤ 34 ∧ s.value.val ≤ groupOrder / 2 ∧
        verify signer digest r s = true ∧
        ∀ header' : UInt8,
          recover (header' :: (r.value.bytes ++ Bytes.bigEndian 32 (groupOrder - s.value.val)))
            digest = .error (.recovery
              (if 27 ≤ header' ∧ header' ≤ 34 then .noKey else .badHeader header'))) ∧
    (∀ (header header' : UInt8) (body : Bytes), 27 ≤ header ∧ header ≤ 34 →
      27 ≤ header' ∧ header' ≤ 34 → (header - 27) % 4 = (header' - 27) % 4 →
        recover (header :: body) digest = recover (header' :: body) digest) ∧
    ∀ signature : Bytes, recover signature digest ≠ .error (.recovery .badHint) := by
  refine ⟨fun key signature => exists_header_of_sign, fun signature signer =>
    exists_header_of_recover, ?_, fun signature => recover_ne_badHint signature digest⟩
  intro header header' body h h' same
  exact recover_cons_congr (Hint.ofHeader_congr h h' same) body digest

/-- A signature by the key `5`. -/
theorem sign_recover_verify_of_five :
    let key : PrivateKey := ⟨⟨5, by decide⟩⟩
    let digest : Digest := ⟨.ofNat 32 1⟩
    ∃ signature, sign key digest = .ok signature ∧
      (∃ (header : UInt8) (r s : NonzeroScalar),
        signature.bytes = header :: (r.value.bytes ++ s.value.bytes) ∧
        recover ((header + 4) :: (r.value.bytes ++ s.value.bytes)) digest = .ok key.publicKey) ∧
      (∃ (header : UInt8) (r s : NonzeroScalar),
        signature.bytes = header :: (r.value.bytes ++ s.value.bytes) ∧
        verify key.publicKey digest r s = true ∧
        recover (28 :: (r.value.bytes ++ Bytes.bigEndian 32 (groupOrder - s.value.val))) digest =
          .error (.recovery .noKey)) ∧
      recover (27 :: signature.bytes.tail) digest =
        recover (31 :: signature.bytes.tail) digest := by
  intro key digest
  have signs : (signFirst? key digest).isSome = true := by decide +kernel
  obtain ⟨signature, hsign⟩ := exists_sign_of_first signs
  obtain ⟨signing, recovering, headers, -⟩ := sign_recover_verify digest
  obtain ⟨header, r, s, hbytes, -, -, -, recovered, flagged⟩ := signing key signature hsign
  obtain ⟨header', r', s', hbytes', -, -, -, verified, refused⟩ :=
    recovering signature.bytes key.publicKey recovered
  exact ⟨signature, hsign, ⟨header, r, s, hbytes, flagged⟩,
    ⟨header', r', s', hbytes', verified, refused 28⟩,
    headers 27 31 signature.bytes.tail (by decide) (by decide) (by decide)⟩

end Signature

end SealedMail
