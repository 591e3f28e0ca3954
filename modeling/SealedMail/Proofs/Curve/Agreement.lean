import SealedMail.Curve.Agreement
import SealedMail.Proofs.Curve.Encoding
import SealedMail.Proofs.Sequencing

/-!
# Both sides of a key agreement

Multiples of multiples of the generator commute, so the two parties share one secret
(`SharedSecret.derive_publicKey_comm`). The secret is a first coordinate, which opposite points have
in common: a key and its opposite give the same secret (`SharedSecret.derive_opposite`). The shared
point is never the identity, and the coordinate that lost its leading zeros gets them back when it
becomes a key (`SharedSecret.padded_derive`). The main statement is `SharedSecret.agreement`.
-/

namespace SealedMail.SharedSecret

open Curve
open scoped Arithmetic

theorem derive_eq (key : PrivateKey) (peer : PublicKey) :
    derive key peer =
      ⟨Bytes.stripZeros (coordinate (Point.ofGroup (key.scalar.value • peer.toGroup))).bytes⟩ := by
  rw [derive, ← PublicKey.ofGroup_toGroup, Point.multiple_eq_smul]

theorem derive_publicKey_comm (a b : PrivateKey) :
    derive a b.publicKey = derive b a.publicKey := by
  rw [derive_eq, derive_eq, PrivateKey.toGroup_publicKey, PrivateKey.toGroup_publicKey,
    smul_comm]

@[simp] theorem coordinate_neg (p : Point) : coordinate p.neg = coordinate p := by
  cases p <;> rfl

theorem derive_opposite (key : PrivateKey) (peer : PublicKey) :
    derive key peer.opposite = derive key peer := by
  rw [derive_eq, derive_eq, PublicKey.toGroup_opposite, smul_neg, Point.ofGroup_neg,
    coordinate_neg]

/-- The shared point is a point other than the identity. -/
theorem exists_shared_point (key : PrivateKey) (peer : PublicKey) :
    ∃ shared : PublicKey, peer.point.multiple key.scalar.value = shared.point ∧
      derive key peer = ⟨Bytes.stripZeros shared.x.bytes⟩ := by
  have nonzero : key.scalar.value • peer.toGroup ≠ 0 :=
    smul_ne_zero key.scalar.ne_zero peer.toGroup_ne_zero
  obtain ⟨shared, hshared⟩ := PublicKey.exists_toGroup_eq nonzero
  refine ⟨shared, ?_, ?_⟩
  · rw [← PublicKey.ofGroup_toGroup, Point.multiple_eq_smul, ← hshared, PublicKey.ofGroup_toGroup]
  · rw [derive_eq, ← hshared]
    rfl

/-- The padded secret is the whole first coordinate of the shared point. -/
theorem padded_derive (key : PrivateKey) (peer : PublicKey) :
    ∃ shared : PublicKey, peer.point.multiple key.scalar.value = shared.point ∧
      (derive key peer).padded = shared.x.bytes := by
  obtain ⟨shared, hpoint, hsecret⟩ := exists_shared_point key peer
  refine ⟨shared, hpoint, ?_⟩
  rw [hsecret, padded, Bytes.padTo_stripZeros_of_length (Coordinate.length_bytes _)]

/-- A secret that fills 32 bytes when padded is a key for chained blocks. -/
theorem exists_chainingKey {secret : SharedSecret} (h : secret.padded.length = 32) :
    ∃ chaining, secret.chainingKey = .ok chaining ∧ chaining.bytes = secret.padded := by
  refine ⟨⟨⟨secret.padded, h⟩⟩, ?_, rfl⟩
  rw [chainingKey, ChainingKey.ofBytes, Octets.ofBytes?, dif_pos h]

theorem recover_of_ofBytes {key : PrivateKey} {data : Bytes} {peer : PublicKey}
    (h : PublicKey.ofBytes data = .ok peer) : recover key data = .ok (derive key peer) := by
  rw [recover, h]
  rfl

/-- The receiver finds the generated secret from any encoding of the generated key. -/
theorem recover_generate {receiver : PrivateKey} {source : RandomSource} {h : source.OffersScalar}
    {data : Bytes}
    (hdata : PublicKey.ofBytes data = .ok (generate receiver.publicKey source h).1) :
    recover receiver data = .ok (generate receiver.publicKey source h).2.1 := by
  rw [recover_of_ofBytes hdata]
  exact congrArg Except.ok (derive_publicKey_comm receiver _)

theorem recoverSealingKey_eq (key : PrivateKey) (peer : Bytes) :
    recoverSealingKey key peer =
      (PublicKey.ofBytes peer).map fun point => (derive key point).sealingKey := by
  unfold recoverSealingKey recover
  cases PublicKey.ofBytes peer <;> rfl

theorem recoverSealingKey_eq_ok_iff {key : PrivateKey} {peer : Bytes} {sealing : SealingKey} :
    recoverSealingKey key peer = .ok sealing ↔
      ∃ point, PublicKey.decode? peer = some point ∧ (derive key point).sealingKey = sealing := by
  rw [recoverSealingKey_eq]
  unfold PublicKey.ofBytes
  cases PublicKey.decode? peer <;> simp

/-- The receiver finds the key that the sender agreed on with an ephemeral key. -/
theorem recoverSealingKey_compressed (receiver : PrivateKey) (ephemeral : EphemeralKey) :
    recoverSealingKey receiver ephemeral.publicKey.compressed =
      .ok (ephemeral.agree receiver.publicKey).sealingKey := by
  rw [recoverSealingKey_eq, PublicKey.ofBytes_compressed, EphemeralKey.publicKey,
    EphemeralKey.agree, derive_publicKey_comm, map_ok]

theorem derive_of_decodeShort? {receiver : PrivateKey} {odd odd' : Bool}
    {body : Bytes} {key other : PublicKey} (h : PublicKey.decodeShort? odd body = some key)
    (h' : PublicKey.decodeShort? odd' body = some other) :
    derive receiver other = derive receiver key := by
  obtain ⟨same, hsame, rfl | rfl⟩ := PublicKey.exists_decodeShort? h odd'
  · rw [Option.some.inj (h'.symm.trans hsame)]
  · rw [Option.some.inj (h'.symm.trans hsame), derive_opposite]

/-- Another header before the coordinate of a key gives the same sealing key, or no key at all. -/
theorem recoverSealingKey_cons {receiver : PrivateKey} {header : UInt8} (header' : UInt8)
    {body : Bytes} {sealing : SealingKey} (hlength : body.length = 32)
    (h : recoverSealingKey receiver (header :: body) = .ok sealing) :
    (header' ∈ [2, 3, 5] → recoverSealingKey receiver (header' :: body) = .ok sealing) ∧
    (header' ∉ [2, 3, 5] → recoverSealingKey receiver (header' :: body) =
      .error (.badPublicKey (.encoding 33))) := by
  obtain ⟨key, hkey, rfl⟩ := recoverSealingKey_eq_ok_iff.1 h
  -- The first header named the key by one of the two parities.
  obtain ⟨odd, hodd⟩ : ∃ odd, PublicKey.decodeShort? odd body = some key := by
    rw [PublicKey.decode?_cons_of_length hlength] at hkey
    split_ifs at hkey
    · exact ⟨false, hkey⟩
    · exact ⟨true, hkey⟩
  have named (odd' : Bool) : ∃ other, PublicKey.decodeShort? odd' body = some other ∧
      (derive receiver other).sealingKey = (derive receiver key).sealingKey := by
    obtain ⟨other, hother, -⟩ := PublicKey.exists_decodeShort? hodd odd'
    exact ⟨other, hother, by rw [derive_of_decodeShort? hodd hother]⟩
  constructor
  · intro hmem
    rw [recoverSealingKey_eq_ok_iff, PublicKey.decode?_cons_of_length hlength]
    -- Compact keys are read with even parity.
    by_cases heven : header' = 2 ∨ header' = 5
    · rw [if_pos heven]
      exact named false
    · have hthree : header' = 3 := by simp_all
      rw [if_neg heven, if_pos hthree]
      exact named true
  · intro hmem
    have none_named : PublicKey.decode? (header' :: body) = none := by
      rw [PublicKey.decode?_cons_of_length hlength, if_neg (by simp_all), if_neg (by simp_all)]
    rw [recoverSealingKey_eq, PublicKey.ofBytes, none_named, List.length_cons, hlength]
    rfl

/-- Key agreement. Two parties derive the same secret from each other's public keys, and a key gives
the same secret with a peer and with the opposite point. The secret is kept without a leading zero;
padded it has 32 bytes and is the whole first coordinate of the shared point, which is not the
identity. It is a key for chained blocks as it stands, and its hash is the sealing key. What a
sender generates for a receiver, the receiver recovers from every encoding of the ephemeral key. -/
theorem agreement (key : PrivateKey) (peer : PublicKey) :
    (∀ other : PrivateKey, derive key other.publicKey = derive other key.publicKey) ∧
    derive key peer.opposite = derive key peer ∧
    (derive key peer).magnitude.head? ≠ some 0 ∧ (derive key peer).magnitude.length ≤ 32 ∧
    (derive key peer).padded.length = 32 ∧
    (∃ x y, peer.point.multiple key.scalar.value = .affine x y ∧
      (derive key peer).padded = x.bytes) ∧
    (∃ chaining, (derive key peer).chainingKey = .ok chaining ∧
      chaining.bytes = (derive key peer).padded) ∧
    (derive key peer).sealingKey.bytes = (Digest.hash (derive key peer).padded).bytes ∧
    ∀ (source : RandomSource) (h : source.OffersScalar) (data : Bytes),
      (PublicKey.ofBytes data = .ok (generate key.publicKey source h).1 →
        recover key data = .ok (generate key.publicKey source h).2.1) ∧
      (PublicKey.ofBytes data = .ok (generateSealingKey key.publicKey source h).1 →
        recoverSealingKey key data = .ok (generateSealingKey key.publicKey source h).2.1) := by
  obtain ⟨shared, hpoint, hsecret⟩ := exists_shared_point key peer
  obtain ⟨shared', hpoint', hpadded⟩ := padded_derive key peer
  have size : (derive key peer).padded.length = 32 := by
    rw [hpadded, Coordinate.length_bytes]
  refine ⟨derive_publicKey_comm key, derive_opposite key peer, ?_, ?_, size,
    ⟨_, _, hpoint', hpadded⟩, exists_chainingKey size, rfl, fun source h data => ⟨?_, ?_⟩⟩
  · rw [hsecret]
    exact Bytes.head?_stripZeros_ne _
  · rw [hsecret]
    exact (Bytes.length_stripZeros_le _).trans_eq (Coordinate.length_bytes _)
  · exact recover_generate
  · intro hdata
    rw [recoverSealingKey, recover_generate hdata]
    rfl

/-- The ephemeral key as it is generated from a supply of zeros, sent in its uncompressed form. -/
theorem agreement_of_uncompressed_key :
    let receiver : PrivateKey := ⟨⟨5, by decide⟩⟩
    let source := RandomSource.ofBytes (List.replicate 32 0)
    ∃ (h : source.OffersScalar) (sent : PublicKey) (secret : SharedSecret) (rest : RandomSource),
      generate receiver.publicKey source h = (sent, secret, rest) ∧
      PublicKey.ofBytes sent.uncompressed = .ok sent ∧
      recover receiver sent.uncompressed = .ok secret := by
  intro receiver source
  have offers : source.OffersScalar := (RandomSource.endless_ofBytes _).offersScalar
  obtain ⟨-, -, -, -, -, -, -, -, recovered⟩ := agreement receiver receiver.publicKey
  exact ⟨offers, _, _, _, rfl, PublicKey.ofBytes_uncompressed _,
    (recovered source offers _).1 (PublicKey.ofBytes_uncompressed _)⟩

end SealedMail.SharedSecret
