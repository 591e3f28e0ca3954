import SealedMail.Message.Envelope
import SealedMail.Message.SignedPayload
import SealedMail.Proofs.Bytes.Base58
import SealedMail.Proofs.Message.Reading

/-!
# Exactly the written forms are read

The bytes of an envelope are a header, a nonce of the length that the header declares, and a
ciphertext; exactly those byte strings are read (`Envelope.parse_eq_ok_iff`). A signed payload is
read from what its encoder writes and any bytes behind it (`SignedPayload.parse_eq_ok_iff`).
-/

namespace SealedMail

theorem Header.bytes_eq (header : Header) :
    header.bytes = [Envelope.version] ++ header.ephemeral.bytes ++
      Field.encode (Bytes.ofText header.path) ++ Bytes.bigEndian 2 header.nonceSize := by
  simp [bytes]

namespace Envelope

open Reader (between)

theorem bigEndian_version : Bytes.bigEndian 1 version.toNat = [version] := rfl

/-- The bytes in front of a nonce, with its length. -/
theorem take_between_field (front nonce rest : Bytes) :
    (between front (Field.encode nonce ++ rest)).data.take
        ((between front (Field.encode nonce ++ rest)).position + 2) =
      front ++ Bytes.bigEndian 2 nonce.length := by
  rw [Reader.data_between, Reader.position_between, Field.encode, List.append_assoc,
    ← List.append_assoc]
  exact List.take_left' (by simp)

/-- The envelope that a header, a nonce and a ciphertext make up. -/
def ofHeader (header : Header) (nonce ciphertext : Bytes) : Envelope :=
  ⟨header.ephemeral.bytes, header.path, nonce, ciphertext, header.bytes⟩

/-- The part of an envelope behind its path holds a nonce, long enough, and a ciphertext. -/
theorem exists_of_reading_tail {front back : Bytes} {limit : ℕ} {envelope : Envelope}
    {after : Reader} {build : Bytes → Bytes → Envelope}
    (h : (do
      let nonce ← Read.field limit
      if nonce.length < Gcm.minNonceSize then
        Read.fail (.shortNonce Gcm.minNonceSize nonce.length)
      else
        let ciphertext ← Read.rest
        return build nonce ciphertext : Read Envelope) (between front back) =
          (.ok envelope, after)) :
    ∃ nonce ciphertext, nonce.length ≤ Field.maxSize ∧ Gcm.minNonceSize ≤ nonce.length ∧
      back = Field.encode nonce ++ ciphertext ∧ envelope = build nonce ciphertext := by
  obtain ⟨nonce, middle, hnonce, h⟩ := Read.bind_eq_ok_iff.1 h
  obtain ⟨ciphertext, -, hmax, rfl, rfl⟩ := Read.field_eq_ok_iff.1 hnonce
  split at h
  · simp at h
  · rename_i hmin
    rw [Read.bind_of_ok (Read.rest_between _ _), Read.pure_apply, Prod.mk.injEq,
      Except.ok.injEq] at h
    obtain ⟨rfl, -⟩ := h
    exact ⟨nonce, ciphertext, hmax, Nat.le_of_not_lt hmin, rfl, rfl⟩

/-- The bytes up to the end of the nonce, split into what each step is going to read. -/
theorem bytes_append_nonce {header : Header} {nonce : Bytes}
    (hnonce : header.nonceSize = nonce.length) :
    header.bytes ++ nonce = Bytes.bigEndian 1 version.toNat ++ (header.ephemeral.bytes ++
      (Field.encode (Bytes.ofText header.path) ++ Field.encode nonce)) := by
  simp [Header.bytes_eq, bigEndian_version, Field.encode, hnonce]

/-- A header, a nonce of the declared length and a ciphertext are read as such, unless the nonce is
too short. The two bytes of the nonce's length are those that the limit leaves out. -/
theorem parse_bytes_append {header : Header} {nonce : Bytes} (ciphertext : Bytes)
    (hsize : header.path.utf8ByteSize ≤ maxPathSize) (hnonce : header.nonceSize = nonce.length)
    (hmax : nonce.length ≤ Field.maxSize) :
    parse (header.bytes ++ nonce ++ ciphertext) =
      if nonce.length < Gcm.minNonceSize then .error (.shortNonce Gcm.minNonceSize nonce.length)
      else .ok (ofHeader header nonce ciphertext) := by
  have size : (Bytes.ofText header.path).length ≤ maxPathSize := hsize
  have size' : (Bytes.ofText header.path).length ≤ Field.maxSize := size.trans (by decide)
  have limit (front : Bytes) : nonce.length ≤
      (between front (Field.encode nonce ++ ciphertext)).remaining - 2 := by
    simp [Field.length_encode]
    omega
  rw [bytes_append_nonce hnonce, parse, Read.run, Reader.start_eq]
  simp only [List.append_assoc]
  -- Each step reads the next part of the layout and leaves the parts behind it.
  unfold reading
  rw [Read.bind_of_ok (Read.number_append (by decide) _ _), if_neg (not_not.2 rfl),
    Read.bind_of_ok (Read.exact_append header.ephemeral.length_eq _ _),
    Read.bind_of_ok (Read.field_append size size' _ _)]
  simp only [Bytes.toText?_ofText]
  rw [Read.bind_of_ok (Read.reader_apply _),
    Read.bind_of_ok (Read.field_append (limit _) hmax _ _)]
  split
  · rw [Read.fail_apply]
  · rw [Read.bind_of_ok (Read.rest_between _ _), Read.pure_apply, take_between_field, ofHeader,
      Header.bytes_eq, hnonce]
    rfl

/-- Exactly the byte strings that consist of a header, a nonce and a ciphertext are read. -/
theorem parse_eq_ok_iff {bytes : Bytes} {envelope : Envelope} :
    parse bytes = .ok envelope ↔
      ∃ (header : Header) (nonce ciphertext : Bytes),
        header.path.utf8ByteSize ≤ maxPathSize ∧ header.nonceSize = nonce.length ∧
        Gcm.minNonceSize ≤ nonce.length ∧ nonce.length ≤ Field.maxSize ∧
        bytes = header.bytes ++ nonce ++ ciphertext ∧
        envelope = ofHeader header nonce ciphertext := by
  constructor
  · -- What each step read is put together in the order of the layout.
    intro read
    rw [parse, Read.run_eq_ok_iff] at read
    unfold reading at read
    rcases read with ⟨after, h⟩
    obtain ⟨found, middle, hversion, h⟩ := Read.bind_eq_ok_iff.1 h
    obtain ⟨rest, -, rfl, rfl⟩ := Read.number_eq_ok_iff.1 hversion
    split at h
    · simp at h
    rename_i same
    obtain rfl := Decidable.not_not.1 same
    obtain ⟨ephemeral, middle, hephemeral, h⟩ := Read.bind_eq_ok_iff.1 h
    obtain ⟨rest, hlength, rfl, rfl⟩ := Read.exact_eq_ok_iff.1 hephemeral
    obtain ⟨pathBytes, middle, hpath, h⟩ := Read.bind_eq_ok_iff.1 h
    obtain ⟨rest, hsize, -, rfl, rfl⟩ := Read.field_eq_ok_iff.1 hpath
    cases htext : Bytes.toText? pathBytes with
    | none => simp [htext] at h
    | some path =>
    simp only [htext] at h
    obtain rfl := Bytes.ofText_of_toText? htext
    rw [Read.bind_of_ok (Read.reader_apply _)] at h
    obtain ⟨nonce, ciphertext, hmax, hmin, rfl, rfl⟩ := exists_of_reading_tail h
    refine ⟨⟨⟨ephemeral, hlength⟩, path, nonce.length⟩, nonce, ciphertext, hsize, rfl, hmin, hmax,
      ?_, ?_⟩
    · simp [Header.bytes_eq, bigEndian_version, Field.encode]
    · rw [take_between_field, ofHeader, Header.bytes_eq]
      rfl
  · intro h
    rcases h with ⟨header, nonce, ciphertext, hsize, hnonce, hmin, hmax, rfl, rfl⟩
    rw [parse_bytes_append ciphertext hsize hnonce hmax, if_neg (Nat.not_lt.2 hmin)]

/-- Another first byte is refused before anything else is read. -/
theorem parse_of_ne_version {found : UInt8} (h : found ≠ version) (rest : Bytes) :
    parse (found :: rest) = .error (.unsupportedVersion version.toNat found.toNat) := by
  have first : found :: rest = Bytes.bigEndian 1 found.toNat ++ rest := by
    rw [← Bytes.value_singleton found]
    exact congrArg (· ++ rest) (Bytes.bigEndian_value [found]).symm
  have different : found.toNat ≠ version.toNat := by
    intro e
    apply h
    exact UInt8.toNat_inj.1 e
  rw [parse, Read.run, Reader.start_eq, first, reading,
    Read.bind_of_ok (Read.number_append found.toNat_lt _ _), if_pos different, Read.fail_apply]

end Envelope

namespace SignedPayload

theorem encode_eq_ok_iff {signed : SignedPayload} {bytes : Bytes} :
    signed.encode = .ok bytes ↔
      signed.signature.length ≤ maxSignatureSize ∧ signed.payload.length ≤ Field.maxSize ∧
        bytes = Field.encode signed.signature ++ Field.encode signed.payload := by
  unfold encode Field.write
  split
  · rename_i h
    simp only [reduceCtorEq, false_iff]
    intro h
    rcases h with ⟨hsize, -, -⟩
    omega
  · rename_i hsize
    by_cases hmax : signed.payload.length ≤ Field.maxSize
    · simp only [if_pos hmax, Except.ok.injEq]
      constructor
      · rintro rfl
        exact ⟨Nat.le_of_not_lt hsize, hmax, rfl⟩
      · intro h
        rcases h with ⟨-, -, rfl⟩
        rfl
    · simp [hmax]

/-- Exactly what the encoder writes is read, with any bytes behind it. -/
theorem parse_eq_ok_iff {bytes : Bytes} {signed : SignedPayload} :
    parse bytes = .ok signed ↔ ∃ written trailing,
      signed.encode = .ok written ∧ bytes = written ++ trailing := by
  rw [parse, Read.run_eq_ok_iff]
  simp only [encode_eq_ok_iff, reading]
  constructor
  · -- What is left behind the payload is never looked at.
    intro read
    rcases read with ⟨after, h⟩
    obtain ⟨signature, middle, hsignature, h⟩ := Read.bind_eq_ok_iff.1 h
    obtain ⟨rest, hsize, -, rfl, rfl⟩ := Read.field_eq_ok_iff.1 hsignature
    rw [Read.bind_of_ok (Read.reader_apply _)] at h
    obtain ⟨payload, middle, hpayload, h⟩ := Read.bind_eq_ok_iff.1 h
    obtain ⟨trailing, -, hmax, rfl, rfl⟩ := Read.field_eq_ok_iff.1 hpayload
    cases h
    exact ⟨_, trailing, ⟨hsize, hmax, rfl⟩, by rw [List.append_assoc]⟩
  · intro h
    rcases h with ⟨written, trailing, ⟨hsize, hmax, rfl⟩, rfl⟩
    refine ⟨Reader.between ([] ++ Field.encode signed.signature ++ Field.encode signed.payload)
      trailing, ?_⟩
    have limit : signed.payload.length ≤ (Reader.between ([] ++ Field.encode signed.signature)
        (Field.encode signed.payload ++ trailing)).remaining := by
      rw [Reader.remaining_between, List.length_append, Field.length_encode]
      omega
    rw [List.append_assoc,
      Read.bind_of_ok (Read.field_append hsize (hsize.trans (by decide)) _ _),
      Read.bind_of_ok (Read.reader_apply _), Read.bind_of_ok (Read.field_append limit hmax _ _)]
    rfl

end SignedPayload

end SealedMail
