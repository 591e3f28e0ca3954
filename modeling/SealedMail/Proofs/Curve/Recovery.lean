import SealedMail.Curve.Signature
import SealedMail.Proofs.Curve.Encoding
import SealedMail.Proofs.Curve.SigningNonce

/-!
# Recovering the signer

A header names a hint exactly if it lies in one of the two series (`Signature.Hint.exists_ofHeader`,
`Signature.Hint.ofHeader_of_not_mem`), so a signature is read as a hint and two scalars
(`Signature.recover_eq_ok_iff`). The hint names the nonce point or, where `s` was negated, its
opposite, also where the first coordinate was reduced (`Signature.coordinate?_reduce`). The equation
`s k = z + r d` in the scalars then leaves the public key of the signer (`Signature.recover_sign`).
It determines `z` if the key and the signature are given, so one signature gives one key only for
digests with one residue (`Signature.residue_eq_of_recover`).
-/

namespace SealedMail

open Curve
open scoped Arithmetic

/-! ## Opposite scalars -/

namespace Curve

theorem Scalar.val_neg {s : Scalar} (h : s ≠ 0) : (-s).val = groupOrder - s.val := by
  have hs : s.val ≠ 0 := mt (fun e => Fin.ext e) h
  rw [Fin.val_neg', Nat.mod_eq_of_lt (by omega)]

/-- The group order is odd, so one of a nonzero scalar and its opposite is high. -/
theorem Scalar.isHigh_neg {s : Scalar} (h : s ≠ 0) : (-s).isHigh = !s.isHigh := by
  have odd : groupOrder % 2 = 1 := by decide +kernel
  rw [isHigh, isHigh, val_neg h, ← decide_not, decide_eq_decide]
  omega

theorem Scalar.isHigh_eq_false_iff {s : Scalar} :
    s.isHigh = false ↔ s.val ≤ groupOrder / 2 := by
  rw [isHigh, decide_eq_false_iff_not, not_lt]

/-- The opposite of a nonzero scalar. -/
def NonzeroScalar.opposite (s : NonzeroScalar) : NonzeroScalar :=
  ⟨-s.value, neg_ne_zero.2 s.ne_zero⟩

theorem NonzeroScalar.bytes_opposite (s : NonzeroScalar) :
    s.opposite.value.bytes = Bytes.bigEndian 32 (groupOrder - s.value.val) := by
  rw [Scalar.bytes, opposite, Scalar.val_neg s.ne_zero]

theorem NonzeroScalar.isHigh_opposite (s : NonzeroScalar) :
    s.opposite.value.isHigh = !s.value.isHigh :=
  Scalar.isHigh_neg s.ne_zero

end Curve

namespace Signature

/-! ## Headers -/

namespace Hint

@[simp] theorem ofHeader_header (hint : Hint) : ofHeader hint.header = .ok hint := by
  rcases hint with ⟨_ | _, _ | _⟩ <;> decide

/-- The header of a hint in the second series. -/
theorem ofHeader_header_add_flag (hint : Hint) :
    ofHeader (hint.header + headerFlag) = .ok hint := by
  rcases hint with ⟨_ | _, _ | _⟩ <;> decide

theorem header_mem (hint : Hint) : 27 ≤ hint.header ∧ hint.header ≤ 30 := by
  rcases hint with ⟨_ | _, _ | _⟩ <;> decide

/-- A header in range names a hint, and its offset modulo four says which. -/
theorem exists_ofHeader {header : UInt8} (h : 27 ≤ header ∧ header ≤ 34) :
    ∃ hint, ofId? ((header - 27) % 4) = some hint ∧ ofHeader header = .ok hint := by
  obtain ⟨hlow, hhigh⟩ := h
  have lower : 27 ≤ header.toNat := UInt8.le_iff_toNat_le.1 hlow
  have upper : header.toNat ≤ 34 := UInt8.le_iff_toNat_le.1 hhigh
  rw [← UInt8.ofNat_toNat (x := header)]
  generalize header.toNat = number at lower upper
  interval_cases number <;> exact ⟨_, rfl, rfl⟩

theorem ofHeader_of_not_mem {header : UInt8} (h : ¬ (27 ≤ header ∧ header ≤ 34)) :
    ofHeader header = .error (.badHeader header) :=
  if_neg h

theorem mem_of_ofHeader {header : UInt8} {hint : Hint} (h : ofHeader header = .ok hint) :
    27 ≤ header ∧ header ≤ 34 := by
  by_contra outside
  cases h.symm.trans (ofHeader_of_not_mem outside)

/-- Headers with the same offset modulo four name the same hint. -/
theorem ofHeader_congr {header header' : UInt8} (h : 27 ≤ header ∧ header ≤ 34)
    (h' : 27 ≤ header' ∧ header' ≤ 34) (same : (header - 27) % 4 = (header' - 27) % 4) :
    ofHeader header = ofHeader header' := by
  obtain ⟨hint, hid, hhint⟩ := exists_ofHeader h
  obtain ⟨hint', hid', hhint'⟩ := exists_ofHeader h'
  rw [same, hid', Option.some.injEq] at hid
  rw [hhint, hhint', hid]

end Hint

/-! ## Reading a signature -/

theorem scalar?_eq_some_iff {data : Bytes} {x : NonzeroScalar} :
    recover.scalar? data = some x ↔ data = x.value.bytes := by
  unfold recover.scalar? Octets.ofBytes?
  split
  · rename_i h
    rw [Option.bind_some, NonzeroScalar.ofOctets?_eq_some_iff, ← Scalar.value_bytes]
    constructor
    · intro same
      exact Bytes.value_injective (h.trans (Scalar.length_bytes _).symm) same.symm
    · rintro rfl
      rfl
  · rename_i h
    simp only [Option.bind_none, reduceCtorEq, false_iff]
    rintro rfl
    exact h (Scalar.length_bytes _)

/-- A header and two scalars are read as the hint and the scalars say. -/
theorem recover_of_hint {header : UInt8} {hint : Hint} (h : Hint.ofHeader header = .ok hint)
    (r s : NonzeroScalar) (digest : Digest) :
    recover (header :: (r.value.bytes ++ s.value.bytes)) digest =
      match recoverFrom hint r s (residue digest) with
      | some key => .ok key
      | none => .error (.recovery .noKey) := by
  have length : ¬ (r.value.bytes ++ s.value.bytes).length ≠ 64 := by simp
  have front : recover.scalar? ((r.value.bytes ++ s.value.bytes).take 32) = some r :=
    scalar?_eq_some_iff.2 (List.take_left' (Scalar.length_bytes _))
  have back : recover.scalar? ((r.value.bytes ++ s.value.bytes).drop 32) = some s :=
    scalar?_eq_some_iff.2 (List.drop_left' (Scalar.length_bytes _))
  cases found : recoverFrom hint r s (residue digest) <;>
    simp only [recover, if_neg length, h, front, back, found]

/-- A header that names no hint is refused, whatever stands behind it. -/
theorem recover_of_not_mem {header : UInt8} (h : ¬ (27 ≤ header ∧ header ≤ 34)) {body : Bytes}
    (length : body.length = 64) (digest : Digest) :
    recover (header :: body) digest = .error (.recovery (.badHeader header)) := by
  simp [recover, length, Hint.ofHeader_of_not_mem h]

/-- Only the hint in the header matters. -/
theorem recover_cons_congr {header header' : UInt8}
    (h : Hint.ofHeader header = Hint.ofHeader header') (body : Bytes) (digest : Digest) :
    recover (header :: body) digest = recover (header' :: body) digest := by
  simp only [recover, h]

/-- What recovery can do: the length is wrong, the header names no hint, one of the scalars is
malformed, or it is left to the hint and the scalars. -/
theorem recover_cases (signature : Bytes) (digest : Digest) :
    (signature.length ≠ 65 ∧
      recover signature digest = .error (.recovery (.wrongLength signature.length))) ∨
    (∃ header body, signature = header :: body ∧ body.length = 64 ∧
      ¬ (27 ≤ header ∧ header ≤ 34) ∧
      recover signature digest = .error (.recovery (.badHeader header))) ∨
    (signature.length = 65 ∧ recover signature digest = .error (.recovery .badScalar)) ∨
    ∃ header hint r s, signature = header :: (r.value.bytes ++ s.value.bytes) ∧
      Hint.ofHeader header = .ok hint ∧
      recover signature digest =
        match recoverFrom hint r s (residue digest) with
        | some key => .ok key
        | none => .error (.recovery .noKey) := by
  rcases signature with _ | ⟨header, body⟩
  · exact Or.inl ⟨by decide, rfl⟩
  -- The length is checked first, then the header, then the scalars.
  by_cases length : body.length = 64
  · right
    by_cases inside : 27 ≤ header ∧ header ≤ 34
    · right
      obtain ⟨hint, -, hhint⟩ := Hint.exists_ofHeader inside
      cases hr : recover.scalar? (body.take 32) with
      | none => exact Or.inl ⟨by simp [length], by simp [recover, length, hhint, hr]⟩
      | some r =>
          cases hs : recover.scalar? (body.drop 32) with
          | none => exact Or.inl ⟨by simp [length], by simp [recover, length, hhint, hr, hs]⟩
          | some s =>
              have parts : body = r.value.bytes ++ s.value.bytes := by
                rw [← scalar?_eq_some_iff.1 hr, ← scalar?_eq_some_iff.1 hs, List.take_append_drop]
              rw [parts]
              exact Or.inr ⟨header, hint, r, s, rfl, hhint, recover_of_hint hhint r s digest⟩
    · exact Or.inl ⟨header, body, rfl, length, inside, recover_of_not_mem inside length digest⟩
  · exact Or.inl ⟨by simpa using length, by simp [recover, length]⟩

theorem recover_cons_eq_ok_iff {header : UInt8} {r s : NonzeroScalar} {digest : Digest}
    {key : PublicKey} :
    recover (header :: (r.value.bytes ++ s.value.bytes)) digest = .ok key ↔
      ∃ hint, Hint.ofHeader header = .ok hint ∧
        recoverFrom hint r s (residue digest) = some key := by
  constructor
  · intro h
    by_cases inside : 27 ≤ header ∧ header ≤ 34
    · obtain ⟨hint, -, hhint⟩ := Hint.exists_ofHeader inside
      rw [recover_of_hint hhint] at h
      split at h <;> cases h
      exact ⟨hint, hhint, ‹_›⟩
    · rw [recover_of_not_mem inside (by simp)] at h
      cases h
  · rintro ⟨hint, hhint, hkey⟩
    rw [recover_of_hint hhint, hkey]

/-- A key is recovered from a header that names a hint, and two nonzero scalars. -/
theorem recover_eq_ok_iff {signature : Bytes} {digest : Digest} {key : PublicKey} :
    recover signature digest = .ok key ↔
      ∃ header hint r s, signature = header :: (r.value.bytes ++ s.value.bytes) ∧
        Hint.ofHeader header = .ok hint ∧ recoverFrom hint r s (residue digest) = some key := by
  constructor
  · intro h
    rcases recover_cases signature digest with ⟨-, refused⟩ | ⟨_, _, -, -, -, refused⟩ |
      ⟨-, refused⟩ | ⟨header, _, r, s, rfl, -, -⟩
    · cases refused.symm.trans h
    · cases refused.symm.trans h
    · cases refused.symm.trans h
    · obtain ⟨hint, hhint, hkey⟩ := recover_cons_eq_ok_iff.1 h
      exact ⟨header, hint, r, s, rfl, hhint, hkey⟩
  · rintro ⟨header, hint, r, s, rfl, hhint, hkey⟩
    exact recover_cons_eq_ok_iff.2 ⟨hint, hhint, hkey⟩

/-- The number in a header is below four once the flag is cleared, so it always names a hint. -/
theorem recover_ne_badHint (signature : Bytes) (digest : Digest) :
    recover signature digest ≠ .error (.recovery .badHint) := by
  intro h
  rcases recover_cases signature digest with ⟨-, refused⟩ | ⟨_, _, -, -, -, refused⟩ |
    ⟨-, refused⟩ | ⟨header, hint, r, s, -, -, result⟩
  · cases refused.symm.trans h
  · cases refused.symm.trans h
  · cases refused.symm.trans h
  · rw [result] at h
    split at h <;> cases h

/-! ## The nonce point -/

/-- A first coordinate is named by its residue and whether it is below the group order. -/
theorem coordinate?_reduce (odd : Bool) (x : Coordinate) :
    coordinate? ⟨odd, decide (groupOrder ≤ x.val)⟩ (Scalar.reduce x.val) = some x := by
  have hlt : x.val < fieldPrime := x.isLt
  have hfit : fieldPrime < 2 * groupOrder := by decide +kernel
  have hval : (Scalar.reduce x.val).val = x.val % groupOrder := rfl
  rw [coordinate?, Coordinate.ofNat?_eq_some_iff, hval]
  by_cases wrapped : groupOrder ≤ x.val
  · -- The coordinate is below twice the order, so the reduction took the order off once.
    simp only [wrapped, decide_true, if_true]
    rw [Nat.mod_eq_sub_mod wrapped, Nat.mod_eq_of_lt (by omega)]
    omega
  · simp only [wrapped, decide_false, Bool.false_eq_true, if_false]
    exact (Nat.mod_eq_of_lt (by omega)).symm

/-- The coordinate that a scalar and a hint name reduces to that scalar. -/
theorem reduce_of_coordinate? {hint : Hint} {r : Scalar} {x : Coordinate}
    (h : coordinate? hint r = some x) : Scalar.reduce x.val = r := by
  rw [coordinate?, Coordinate.ofNat?_eq_some_iff] at h
  apply Fin.ext
  rw [Scalar.reduce, Fin.val_ofNat, h]
  split
  · rw [Nat.add_mod_right, Nat.mod_eq_of_lt r.isLt]
  · exact Nat.mod_eq_of_lt r.isLt

/-- The hint that names a point. -/
def Hint.ofPoint (point : PublicKey) : Hint := ⟨point.y.isOdd, groupOrder ≤ point.x.val⟩

/-- The key that a low `s` and a nonce point lead to. -/
theorem recoverFrom_eq {hint : Hint} {r s : NonzeroScalar} {z : Scalar} {x : Coordinate}
    {point : PublicKey} (low : s.value.isHigh = false)
    (hx : coordinate? hint r.value = some x) (hpoint : PublicKey.lift? hint.odd x = some point) :
    recoverFrom hint r s z = PublicKey.ofPoint?
      (Point.ofGroup (r.value⁻¹ • (s.value • point.toGroup - z • base))) := by
  -- The two multiples that the code adds, as one element of the group.
  have combine : Point.ofGroup (r.value⁻¹ • (s.value • point.toGroup - z • base)) =
      (Point.generator.multiple (-(r.value⁻¹ * z))).add
        (point.point.multiple (r.value⁻¹ * s.value)) := by
    rw [← ofGroup_base, ← PublicKey.ofGroup_toGroup, Point.multiple_eq_smul,
      Point.multiple_eq_smul, ← Point.ofGroup_add, smul_sub, smul_smul, smul_smul, neg_smul,
      sub_eq_neg_add]
  rw [combine]
  simp [recoverFrom, low, hx, hpoint, Scalar.inverse_eq]

/-- What a key is recovered from: a low `s` and the nonce point that the hint names. -/
theorem recoverFrom_eq_some_iff {hint : Hint} {r s : NonzeroScalar} {z : Scalar} {key : PublicKey} :
    recoverFrom hint r s z = some key ↔
      s.value.isHigh = false ∧ ∃ x point, coordinate? hint r.value = some x ∧
        PublicKey.lift? hint.odd x = some point ∧
        key.toGroup = r.value⁻¹ • (s.value • point.toGroup - z • base) := by
  constructor
  · intro h
    -- Without any one of these there is no key.
    cases high : s.value.isHigh with
    | true => simp [recoverFrom, high] at h
    | false =>
        cases hx : coordinate? hint r.value with
        | none => simp [recoverFrom, high, hx] at h
        | some x =>
            cases hpoint : PublicKey.lift? hint.odd x with
            | none => simp [recoverFrom, high, hx, hpoint] at h
            | some point =>
                rw [recoverFrom_eq high hx hpoint, PublicKey.ofPoint?_ofGroup] at h
                exact ⟨rfl, x, point, rfl, hpoint, h⟩
  · intro h
    rcases h with ⟨low, x, point, hx, hpoint, hkey⟩
    rw [recoverFrom_eq low hx hpoint, PublicKey.ofPoint?_ofGroup, hkey]

/-- A recovered key is the sum of a multiple of the generator and a proper multiple of the nonce
point. -/
theorem exists_sum_of_recover {signature : Bytes} {digest : Digest} {key : PublicKey}
    (h : recover signature digest = .ok key) :
    ∃ (point : PublicKey) (factor factor' : Scalar), factor' ≠ 0 ∧
      key.point = (Point.generator.multiple factor).add (point.point.multiple factor') := by
  obtain ⟨header, hint, r, s, -, -, hkey⟩ := recover_eq_ok_iff.1 h
  obtain ⟨-, x, point, -, -, hsum⟩ := recoverFrom_eq_some_iff.1 hkey
  have ne_zero : r.value⁻¹ * s.value ≠ 0 := mul_ne_zero (inv_ne_zero r.ne_zero) s.ne_zero
  have sum : key.toGroup =
      -(r.value⁻¹ * residue digest) • base + (r.value⁻¹ * s.value) • point.toGroup := by
    rw [hsum, smul_sub, smul_smul, smul_smul, neg_smul, sub_eq_neg_add]
  refine ⟨point, -(r.value⁻¹ * residue digest), _, ne_zero, ?_⟩
  rw [← PublicKey.ofGroup_toGroup, sum, Point.ofGroup_add, ← Point.multiple_eq_smul,
    ← Point.multiple_eq_smul, ofGroup_base, PublicKey.ofGroup_toGroup]

/-- A low `s` with the hint of a nonce point is read back as the key that both lead to. -/
theorem recoverFrom_ofPoint (point : PublicKey) {key : PublicKey} {r s : NonzeroScalar} {z : Scalar}
    (low : s.value.isHigh = false) (hr : r.value = Scalar.reduce point.x.val)
    (hkey : key.toGroup = r.value⁻¹ • (s.value • point.toGroup - z • base)) :
    recoverFrom (.ofPoint point) r s z = some key := by
  have hx : coordinate? (.ofPoint point) r.value = some point.x := by
    rw [hr, Hint.ofPoint, coordinate?_reduce]
  have named : PublicKey.lift? point.y.isOdd point.x = some point :=
    PublicKey.lift?_eq_some_iff.2 ⟨rfl, rfl⟩
  exact recoverFrom_eq_some_iff.2 ⟨low, point.x, point, hx, named, hkey⟩

/-! ## What signing writes -/

/-- What signing with a nonce gives, if it gives a signature: the nonce point, both scalars other
than zero, and the encoding with the lower of `s` and `-s`. -/
theorem signWith_cases {nonce : NonzeroScalar} {key : PrivateKey} {digest : Digest}
    {signature : Signature} (h : signWith nonce key digest = some signature) :
    ∃ (point : PublicKey) (r s : NonzeroScalar),
      point.toGroup = nonce.value • base ∧ r.value = Scalar.reduce point.x.val ∧
      s.value = nonce.value.inverse * (residue digest + r.value * key.scalar.value) ∧
      signature =
        encode ⟨point.y.isOdd != s.value.isHigh, decide (groupOrder ≤ point.x.val)⟩ r.value
          (if s.value.isHigh then -s.value else s.value) := by
  obtain ⟨point, hpoint⟩ :=
    PublicKey.exists_toGroup_eq (mt smul_base_eq_zero_iff.1 nonce.ne_zero)
  have multiple : Point.generator.multiple nonce.value = .affine point.x point.y := by
    rw [← ofGroup_base, Point.multiple_eq_smul, ← hpoint]
    rfl
  simp only [signWith, multiple] at h
  split at h
  · cases h
  · rename_i hzero
    obtain ⟨hr, hs⟩ := not_or.1 hzero
    exact ⟨point, ⟨_, hr⟩, ⟨_, hs⟩, hpoint, rfl, rfl, (Option.some.inj h).symm⟩

/-- The signature equation, solved for the public key. -/
theorem signer_eq {k r s z d : Scalar} (hk : k ≠ 0) (hr : r ≠ 0) (hs : s = k⁻¹ * (z + r * d)) :
    r⁻¹ • (s • k • base - z • base) = d • base := by
  have equation : s * k = z + r * d := by
    rw [hs]
    field_simp
  rw [smul_smul, equation, ← sub_smul, add_sub_cancel_left, smul_smul, inv_mul_cancel_left₀ hr]

/-- Signing with a nonce writes a hint and two scalars that lead back to the signer. -/
theorem exists_encode_of_signWith {nonce : NonzeroScalar} {key : PrivateKey} {digest : Digest}
    {signature : Signature} (h : signWith nonce key digest = some signature) :
    ∃ hint r s, signature = encode hint r.value s.value ∧
      recoverFrom hint r s (residue digest) = some key.publicKey := by
  obtain ⟨point, r, s, hpoint, hr, hs, rfl⟩ := signWith_cases h
  rw [Scalar.inverse_eq] at hs
  have signer : key.publicKey.toGroup =
      r.value⁻¹ • (s.value • point.toGroup - residue digest • base) := by
    rw [hpoint, signer_eq nonce.ne_zero r.ne_zero hs, PrivateKey.toGroup_publicKey]
  cases high : s.value.isHigh with
  | false =>
      refine ⟨.ofPoint point, r, s, ?_, recoverFrom_ofPoint point high hr signer⟩
      rw [Bool.bne_false, if_neg Bool.false_ne_true, Hint.ofPoint]
  | true =>
      -- The scalar was negated, and the hint names the opposite point.
      have low : s.opposite.value.isHigh = false := by rw [s.isHigh_opposite, high, Bool.not_true]
      have same : s.opposite.value • point.opposite.toGroup = s.value • point.toGroup := by
        rw [PublicKey.toGroup_opposite, NonzeroScalar.opposite, neg_smul_neg]
      rw [← same] at signer
      refine ⟨.ofPoint point.opposite, r, s.opposite, ?_,
        recoverFrom_ofPoint point.opposite low hr signer⟩
      rw [Bool.bne_true, if_pos rfl, Hint.ofPoint, ← point.isOdd_neg_y]
      rfl

theorem recover_signWith {nonce : NonzeroScalar} {key : PrivateKey} {digest : Digest}
    {signature : Signature} (h : signWith nonce key digest = some signature) :
    recover signature.bytes digest = .ok key.publicKey := by
  obtain ⟨hint, r, s, rfl, hkey⟩ := exists_encode_of_signWith h
  exact recover_cons_eq_ok_iff.2 ⟨hint, hint.ofHeader_header, hkey⟩

/-- A digest is signed with the first candidate for a nonce that can be used. -/
theorem sign_eq_ok_iff {key : PrivateKey} {digest : Digest} {signature : Signature} :
    sign key digest = .ok signature ↔
      ∃ count nonce, (SigningNonce.generator key digest).IsFirst count nonce ∧
        signWith nonce key digest = some signature := by
  have signed : sign key digest = .ok signature ↔
      ∃ nonce, SigningNonce.derive key digest = some nonce ∧
        signWith nonce key digest = some signature := by
    rw [sign, ← Option.bind_eq_some_iff]
    cases (SigningNonce.derive key digest).bind fun nonce => signWith nonce key digest <;> simp
  rw [signed, exists_comm]
  simp only [SigningNonce.derive, SigningNonce.search_eq_some_iff, exists_and_right]

/-- What is signed with the first candidate for a nonce, if it can be used. -/
def signFirst? (key : PrivateKey) (digest : Digest) : Option Signature :=
  (SigningNonce.generator key digest).candidate?.bind fun nonce => signWith nonce key digest

theorem exists_sign_of_first {key : PrivateKey} {digest : Digest}
    (h : (signFirst? key digest).isSome = true) : ∃ signature, sign key digest = .ok signature := by
  obtain ⟨signature, hfirst⟩ := Option.isSome_iff_exists.1 h
  obtain ⟨nonce, accepted, hsigned⟩ := Option.bind_eq_some_iff.1 hfirst
  have first : (SigningNonce.generator key digest).IsFirst 0 nonce :=
    SigningNonce.Generator.isFirst_zero_iff.2 accepted
  exact ⟨signature, sign_eq_ok_iff.2 ⟨0, nonce, first, hsigned⟩⟩

/-- The public key of the signer is recovered from every signature. -/
theorem recover_sign {key : PrivateKey} {digest : Digest} {signature : Signature}
    (h : sign key digest = .ok signature) :
    recover signature.bytes digest = .ok key.publicKey := by
  obtain ⟨-, nonce, -, hsigned⟩ := sign_eq_ok_iff.1 h
  exact recover_signWith hsigned

/-! ## One signature and several digests -/

/-- Scalars that lead to the same key are the same: the key fixes the multiple of the generator that
was taken off. -/
theorem eq_of_recoverFrom {hint : Hint} {r s : NonzeroScalar} {z z' : Scalar} {key : PublicKey}
    (h : recoverFrom hint r s z = some key) (h' : recoverFrom hint r s z' = some key) : z = z' := by
  obtain ⟨-, x, point, hx, hpoint, hkey⟩ := recoverFrom_eq_some_iff.1 h
  obtain ⟨-, x', point', hx', hpoint', hkey'⟩ := recoverFrom_eq_some_iff.1 h'
  obtain rfl := Option.some.inj (hx.symm.trans hx')
  obtain rfl := Option.some.inj (hpoint.symm.trans hpoint')
  have same : s.value • point.toGroup - z • base = s.value • point.toGroup - z' • base :=
    smul_right_injective _ (inv_ne_zero r.ne_zero) (hkey.symm.trans hkey')
  exact smul_left_injective Scalar base_ne_zero (sub_right_injective same)

/-- A residue is a digest modulo the group order. -/
theorem residue_eq_iff {digest digest' : Digest} :
    residue digest = residue digest' ↔
      Bytes.value digest.bytes ≡ Bytes.value digest'.bytes [MOD groupOrder] :=
  Fin.ext_iff

theorem recover_congr (signature : Bytes) {digest digest' : Digest}
    (h : residue digest = residue digest') :
    recover signature digest = recover signature digest' := by
  cases signature <;> simp only [recover, h]

/-- One signature gives one key for one residue only. -/
theorem residue_eq_of_recover {signature : Bytes} {digest digest' : Digest} {key : PublicKey}
    (h : recover signature digest = .ok key) (h' : recover signature digest' = .ok key) :
    residue digest = residue digest' := by
  obtain ⟨header, hint, r, s, rfl, hhint, hkey⟩ := recover_eq_ok_iff.1 h
  obtain ⟨hint', hhint', hkey'⟩ := recover_cons_eq_ok_iff.1 h'
  obtain rfl := Except.ok.inj (hhint.symm.trans hhint')
  exact eq_of_recoverFrom hkey hkey'

end Signature

end SealedMail
