import SealedMail.Hash.Digest
import SealedMail.Proofs.Bytes.Hex

/-!
# The text of a digest

A digest is read from 64 digits, and the digits in lower case are its text. Reading has one outcome
for a text of another length (`ofHex_of_size_ne`) and two for a text of 64 bytes (`ofHex_cases`):
the digest, or the first byte that is no digit. Main statement: `Digest.text_of_digest`.
-/

namespace SealedMail.Digest

theorem ofHex_of_size_ne {text : String} (h : text.utf8ByteSize ≠ 64) :
    ofHex text = .error (.digestLength 64 text.utf8ByteSize) := if_neg h

/-- A text of 64 bytes is the text of a digest up to the case of its digits, or has a first byte
that is no digit. -/
theorem ofHex_cases {text : String} (size : text.utf8ByteSize = 64) :
    (∃ digest, ofHex text = .ok digest ∧ (∀ c ∈ text.toList, Hex.IsDigit c) ∧
      digest.toHex = text.toLower) ∨
    ∃ front byte back, Bytes.ofText text = front ++ byte :: back ∧
      (∀ before ∈ front, Hex.IsDigitByte before) ∧ ¬ Hex.IsDigitByte byte ∧
      ofHex text = .error (.badHexDigit ⟨byte, front.length⟩) := by
  have length : (Bytes.ofText text).length = 64 := size
  have even : (Bytes.ofText text).length % 2 = 0 := by rw [length]
  rw [ofHex, if_pos length, Hex.decode]
  rcases Hex.decodeFrom_cases 0 (Bytes.ofText text) even with
    ⟨bytes, read, digits, written⟩ | ⟨front, byte, back, spelled, digits, bad, failed⟩
  · have width : bytes.length = 32 := by rw [Hex.length_of_decodeFrom read, length]
    refine Or.inl ⟨⟨⟨bytes, width⟩⟩, ?_, Hex.forall_isDigitByte_iff.1 digits, ?_⟩
    · rw [read]
      simp only [ofBytes, Octets.ofBytes?, dif_pos width]
    · rw [toHex, Hex.encode, String.toLower, String.map_eq_internal,
        Hex.toList_of_isDigitByte digits, List.map_map]
      exact congrArg String.ofList written
  · refine Or.inr ⟨front, byte, back, spelled, digits, bad, ?_⟩
    rw [failed, Nat.zero_add]

/-- Digits take one byte each. -/
theorem length_of_isDigit {text : String} (h : ∀ c ∈ text.toList, Hex.IsDigit c) :
    text.length = text.utf8ByteSize := by
  rw [← String.length_toList, Hex.toList_of_isDigitByte (Hex.forall_isDigitByte_iff.2 h),
    List.length_map, Bytes.length_ofText]

/-- A digest is read from exactly 64 digits. -/
theorem exists_ofHex_iff {text : String} :
    (∃ digest, ofHex text = .ok digest) ↔
      text.length = 64 ∧ ∀ c ∈ text.toList, Hex.IsDigit c := by
  constructor
  · rintro ⟨digest, read⟩
    by_cases size : text.utf8ByteSize = 64
    · rcases ofHex_cases size with ⟨-, -, digits, -⟩ | ⟨front, byte, back, -, -, -, failed⟩
      · exact ⟨(length_of_isDigit digits).trans size, digits⟩
      · rw [failed] at read
        cases read
    · rw [ofHex_of_size_ne size] at read
      cases read
  · rintro ⟨length, digits⟩
    have size : text.utf8ByteSize = 64 := (length_of_isDigit digits).symm.trans length
    rcases ofHex_cases size with ⟨digest, read, -, -⟩ | ⟨front, byte, back, spelled, -, bad, -⟩
    · exact ⟨digest, read⟩
    · -- All bytes are digits.
      refine absurd (Hex.forall_isDigitByte_iff.2 digits byte ?_) bad
      rw [spelled]
      exact List.mem_append_right front List.mem_cons_self

theorem toHex_of_ofHex {text : String} {digest : Digest} (h : ofHex text = .ok digest) :
    digest.toHex = text.toLower := by
  by_cases size : text.utf8ByteSize = 64
  · rcases ofHex_cases size with ⟨other, read, -, lower⟩ | ⟨front, byte, back, -, -, -, failed⟩
    · rw [h] at read
      cases read
      exact lower
    · rw [failed] at h
      cases h
  · rw [ofHex_of_size_ne size] at h
    cases h

/-- A digest is read back from its text. -/
theorem ofHex_toHex (digest : Digest) : ofHex digest.toHex = .ok digest := by
  have length : (Bytes.ofText digest.toHex).length = 64 := by
    rw [toHex, Hex.length_ofText_encode, length_bytes]
  rw [ofHex, if_pos length, toHex, Hex.decode_encode]
  simp only [ofBytes, Octets.ofBytes?, dif_pos digest.length_bytes]
  rfl

/-- Digests and their texts. A digest is read from exactly the texts of 64 digits in either case,
and its own text is what was read, in lower case. A text of another size is refused for that size,
and a text of 64 bytes with a byte that is no digit is refused for the first such byte, whatever
characters it is made of. Every digest is read back from its own text, so no two digests have the
same text. -/
theorem text_of_digest :
    (∀ text : String, (∃ digest, ofHex text = .ok digest) ↔
      text.length = 64 ∧ ∀ c ∈ text.toList, Hex.IsDigit c) ∧
    (∀ text digest, ofHex text = .ok digest → digest.toHex = text.toLower) ∧
    (∀ text : String, text.utf8ByteSize ≠ 64 →
      ofHex text = .error (.digestLength 64 text.utf8ByteSize)) ∧
    (∀ text : String, text.utf8ByteSize = 64 → (∀ digest, ofHex text ≠ .ok digest) →
      ∃ front byte back, Bytes.ofText text = front ++ byte :: back ∧
        (∀ before ∈ front, Hex.IsDigitByte before) ∧ ¬ Hex.IsDigitByte byte ∧
        ofHex text = .error (.badHexDigit ⟨byte, front.length⟩)) ∧
    (∀ digest, ofHex digest.toHex = .ok digest) ∧
    ∀ digest other : Digest, digest.toHex = other.toHex → digest = other := by
  refine ⟨fun _ => exists_ofHex_iff, fun _ _ => toHex_of_ofHex, fun _ => ofHex_of_size_ne, ?_,
    ofHex_toHex, ?_⟩
  · intro text size refused
    rcases ofHex_cases size with ⟨digest, read, -, -⟩ | failed
    · exact absurd read (refused digest)
    · exact failed
  · intro digest other same
    have read := ofHex_toHex digest
    rw [same, ofHex_toHex] at read
    exact (Except.ok.inj read).symm

/-- Upper-case digits, a text of 63 characters in 64 bytes, and a short text. -/
theorem text_of_digest_of_three_texts :
    let upper := String.ofList (List.replicate 64 'A')
    let accented := String.ofList ('0' :: 'é' :: List.replicate 61 '0')
    (∃ digest, ofHex upper = .ok digest ∧ digest.toHex = upper.toLower) ∧
    (accented.utf8ByteSize = 64 ∧ ∃ front byte back,
      Bytes.ofText accented = front ++ byte :: back ∧ ¬ Hex.IsDigitByte byte ∧
      byte = 0xc3 ∧ front.length = 1 ∧ ofHex accented = .error (.badHexDigit ⟨0xc3, 1⟩)) ∧
    ofHex "abcd" = .error (.digestLength 64 4) := by
  intro upper accented
  obtain ⟨accepted, written, size, refused, -, -⟩ := text_of_digest
  have length : upper.length = 64 := String.length_ofList
  have digits : ∀ c ∈ upper.toList, Hex.IsDigit c := by
    intro c hc
    rw [String.toList_ofList] at hc
    rw [List.eq_of_mem_replicate hc]
    decide
  obtain ⟨digest, read⟩ := (accepted upper).2 ⟨length, digits⟩
  have size' : accented.utf8ByteSize = 64 := by decide +kernel
  have failed : ofHex accented = .error (.badHexDigit ⟨0xc3, 1⟩) := by decide +kernel
  have refused' : ∀ digest, ofHex accented ≠ .ok digest := by
    intro digest read'
    rw [failed] at read'
    cases read'
  obtain ⟨front, byte, back, spelled, -, bad, failed'⟩ := refused accented size' refused'
  have same := failed.symm.trans failed'
  simp only [Except.error.injEq, CryptoError.badHexDigit.injEq, Hex.BadDigit.mk.injEq] at same
  exact ⟨⟨digest, read, written upper digest read⟩,
    ⟨size', front, byte, back, spelled, bad, same.1.symm, same.2.symm, failed⟩,
    size "abcd" (by decide)⟩

end SealedMail.Digest
