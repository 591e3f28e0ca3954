import SealedMail.Proofs.Message.Layout
import SealedMail.Proofs.Sequencing

/-!
# The format of signed payloads

A signed payload is written exactly if its signature and its payload are short enough, and is read
from what is written for it and any bytes behind. Everything else is refused where one of its two
fields is (`SignedPayload.IsMalformed`, `SignedPayload.parse_eq_error_iff`). The limit for the
payload counts the two bytes of its own length, so a payload that is too long by one or two bytes
passes the limit and is refused for the bytes that are missing. Main statement:
`SignedPayload.parse_inverts_encode`.
-/

namespace SealedMail

namespace SignedPayload

theorem exists_encode_iff {signed : SignedPayload} :
    (∃ bytes, signed.encode = .ok bytes) ↔
      signed.signature.length ≤ maxSignatureSize ∧ signed.payload.length ≤ Field.maxSize := by
  simp only [encode_eq_ok_iff]
  constructor
  · rintro ⟨_, hsignature, hpayload, -⟩
    exact ⟨hsignature, hpayload⟩
  · rintro ⟨hsignature, hpayload⟩
    exact ⟨_, hsignature, hpayload, rfl⟩

/-- The bytes are not those of a signed payload: the field of the signature is refused, or that of
the payload, which may be as long as the bytes from its length on. -/
inductive IsMalformed : Bytes → MessageError → Prop where
  | signature {consumed rest : Bytes} {e : MessageError}
      (refused : Field.IsRefused 200 consumed rest e) : IsMalformed (consumed ++ rest) e
  | payload {signature consumed rest : Bytes} {e : MessageError} (fits : signature.length ≤ 200)
      (refused : Field.IsRefused (consumed ++ rest).length consumed rest e) :
      IsMalformed (Field.encode signature ++ (consumed ++ rest)) e

/-- Exactly malformed bytes are refused, each for one cause. -/
theorem parse_eq_error_iff {bytes : Bytes} {e : MessageError} :
    parse bytes = .error e ↔ IsMalformed bytes e := by
  rw [parse, Read.run_eq_error_iff]
  constructor
  · -- One of the two fields is refused, the second only behind a first that was read.
    rintro ⟨after, h⟩
    rw [reading, Read.bind_eq_error_iff] at h
    rcases h with h | ⟨signature, middle, hsignature, h⟩
    · obtain ⟨consumed, rest, refused, rfl, -⟩ := Read.field_eq_error_iff.1 h
      exact .signature refused
    · obtain ⟨back, fits, -, rfl, rfl⟩ := Read.field_eq_ok_iff.1 hsignature
      rw [Read.bind_of_ok (Read.reader_apply _), Reader.remaining_between] at h
      rcases Read.bind_eq_error_iff.1 h with h | ⟨payload, _, -, h⟩
      · obtain ⟨consumed, rest, refused, rfl, -⟩ := Read.field_eq_error_iff.1 h
        exact .payload fits refused
      · cases h
  · intro h
    cases h with
    | @signature consumed rest e refused =>
        exact ⟨_, Read.bind_eq_error_iff.2 (Or.inl
          (Read.field_eq_error_iff.2 ⟨consumed, rest, refused, rfl, rfl⟩))⟩
    | @payload signature consumed rest e fits refused =>
        have fits : signature.length ≤ maxSignatureSize := fits
        rw [reading, Read.bind_of_ok (Read.field_append fits (fits.trans (by decide)) _ _),
          Read.bind_of_ok (Read.reader_apply _), Reader.remaining_between]
        exact ⟨_, Read.bind_eq_error_iff.2 (Or.inl
          (Read.field_eq_error_iff.2 ⟨consumed, rest, refused, rfl, rfl⟩))⟩

/-- The format of signed payloads. A signature of at most 200 bytes and a payload of at most 65535
are written, and nothing else; what is written is read back, whatever follows it. Exactly the bytes
that consist of a signature within the limit and a payload, each behind its length, and of anything
behind them are read, as that signature and payload. All other bytes are refused at the first of the
two fields that is: for a declared length above the limit, which is 200 for the signature and the
number of bytes from its own length on for the payload, or else for the bytes that are missing. -/
theorem parse_inverts_encode :
    (∀ signed : SignedPayload, (∃ bytes, signed.encode = .ok bytes) ↔
      signed.signature.length ≤ 200 ∧ signed.payload.length ≤ 65535) ∧
    (∀ (signed : SignedPayload) bytes, signed.encode = .ok bytes →
      ∀ trailing, parse (bytes ++ trailing) = .ok signed) ∧
    (∀ bytes signed, parse bytes = .ok signed ↔
      signed.signature.length ≤ 200 ∧ signed.payload.length ≤ 65535 ∧
        ∃ trailing, bytes = Bytes.bigEndian 2 signed.signature.length ++ signed.signature ++
          Bytes.bigEndian 2 signed.payload.length ++ signed.payload ++ trailing) ∧
    (∀ bytes e, parse bytes = .error e ↔ IsMalformed bytes e) := by
  refine ⟨fun _ => exists_encode_iff, ?_, ?_, fun _ _ => parse_eq_error_iff⟩
  · intro signed bytes written trailing
    exact parse_eq_ok_iff.2 ⟨bytes, trailing, written, rfl⟩
  · intro bytes signed
    simp only [parse_eq_ok_iff, encode_eq_ok_iff]
    constructor
    · rintro ⟨written, trailing, ⟨hsignature, hpayload, rfl⟩, rfl⟩
      exact ⟨hsignature, hpayload, trailing, by simp [Field.encode]⟩
    · rintro ⟨hsignature, hpayload, trailing, rfl⟩
      exact ⟨_, trailing, ⟨hsignature, hpayload, rfl⟩, by simp [Field.encode]⟩

/-- Two bytes behind a signature of one; a length of 201 for a signature that is missing altogether;
and a length of four, then of five, for a payload of two bytes. -/
theorem parse_inverts_encode_of_short_texts :
    SignedPayload.encode ⟨[7], [104, 105]⟩ = .ok [0, 1, 7, 0, 2, 104, 105] ∧
      parse ([0, 1, 7, 0, 2, 104, 105] ++ [9, 9]) = .ok ⟨[7], [104, 105]⟩ ∧
      parse [0, 201] = .error (.lengthAboveLimit 201 200) ∧
      parse [0, 0, 0, 4, 1, 2] = .error (.truncated 4 2) ∧
      parse [0, 0, 0, 5, 1, 2] = .error (.lengthAboveLimit 5 4) := by
  obtain ⟨-, read, -, refused⟩ := parse_inverts_encode
  have written : SignedPayload.encode ⟨[7], [104, 105]⟩ = .ok [0, 1, 7, 0, 2, 104, 105] := rfl
  have long : Field.IsRefused 200 (Bytes.bigEndian 2 201) [] (.lengthAboveLimit 201 200) :=
    .aboveLimit (by decide) (by decide)
  have four : Field.IsRefused (Bytes.bigEndian 2 4 ++ [1, 2]).length (Bytes.bigEndian 2 4) [1, 2]
      (.truncated 4 2) := .cutOff (by decide) (by decide) (by decide)
  have five : Field.IsRefused (Bytes.bigEndian 2 5 ++ [1, 2]).length (Bytes.bigEndian 2 5) [1, 2]
      (.lengthAboveLimit 5 4) := .aboveLimit (by decide) (by decide)
  have empty : ([] : Bytes).length ≤ 200 := by decide
  exact ⟨written, read _ _ written _, (refused _ _).2 (.signature long),
    (refused _ _).2 (.payload empty four), (refused _ _).2 (.payload empty five)⟩

end SignedPayload

end SealedMail
