import SealedMail.Proofs.Message.Layout
import SealedMail.Proofs.Sequencing

/-!
# Envelopes and their text are canonical

The layout of an envelope is said without the reader: which bytes stand where, and how many
(`Envelope.IsLayout`). Exactly the byte strings with this layout are read, so the parts of an
envelope are unique, and the header in front of the nonce is what the header's encoder writes for
them. The other way round, a header is determined by its bytes, and what is written is read back
unless the nonce is too short (`Envelope.parse_canonical`). Transport text is canonical too: exactly
the texts over the alphabet are read, and each byte string has one text
(`Envelope.decodeText_canonical`).
-/

namespace SealedMail

/-! ## Headers -/

/-- A field tells where it ends. -/
theorem Field.encode_append_inj {a b rest rest' : Bytes} (ha : a.length ≤ maxSize)
    (hb : b.length ≤ maxSize) (h : encode a ++ rest = encode b ++ rest') :
    a = b ∧ rest = rest' := by
  have read := Read.field_append ha ha [] rest
  rw [h, Read.field_append hb hb] at read
  obtain rfl : b = a := Except.ok.inj (Prod.mk.inj read).1
  exact ⟨rfl, List.append_cancel_left h⟩

theorem Header.bytes_eq_parts (header : Header) :
    header.bytes = [1] ++ header.ephemeral.bytes ++
      Bytes.bigEndian 2 (Bytes.ofText header.path).length ++ Bytes.ofText header.path ++
      Bytes.bigEndian 2 header.nonceSize := by
  simp [bytes_eq, Field.encode, Envelope.version]

/-- A header is determined by its bytes. -/
theorem Header.encode_injective {header other : Header} {bytes : Bytes}
    (h : header.encode = .ok bytes) (h' : other.encode = .ok bytes) : header = other := by
  obtain ⟨hpath, hnonce, hbytes⟩ := encode_ok_iff.1 h
  obtain ⟨hpath', hnonce', hbytes'⟩ := encode_ok_iff.1 h'
  have fits {path : String} (hpath : path.utf8ByteSize ≤ Envelope.maxPathSize) :
      (Bytes.ofText path).length ≤ Field.maxSize := hpath.trans (by decide)
  have same : header.bytes = other.bytes := hbytes.symm.trans hbytes'
  -- The parts come apart one after another, from the front.
  simp only [Header.bytes, List.append_assoc] at same
  obtain ⟨hephemeral, same⟩ := List.append_inj (List.cons.inj same).2
    (header.ephemeral.length_eq.trans other.ephemeral.length_eq.symm)
  obtain ⟨htext, hsize⟩ := Field.encode_append_inj (fits hpath) (fits hpath') same
  have hsize := Bytes.bigEndian_injective (Nat.lt_succ_of_le hnonce) (Nat.lt_succ_of_le hnonce')
    hsize
  have htext := Bytes.ofText_injective htext
  obtain ⟨⟨ephemeral, _⟩, path, nonceSize⟩ := header
  obtain ⟨⟨ephemeral', _⟩, path', nonceSize'⟩ := other
  cases hephemeral
  cases htext
  cases hsize
  rfl

namespace Envelope

/-! ## Layout -/

/-- The bytes are a version byte, an ephemeral key, the text of a path behind its length, a nonce
behind its length, and a ciphertext. The header is everything in front of the nonce. -/
structure IsLayout (bytes : Bytes) (envelope : Envelope) : Prop where
  ephemeral_length : envelope.ephemeral.length = 33
  path_size : (Bytes.ofText envelope.path).length ≤ 1000
  nonce_min : 12 ≤ envelope.nonce.length
  nonce_max : envelope.nonce.length ≤ 65535
  bytes_eq : bytes = [1] ++ envelope.ephemeral ++
    Bytes.bigEndian 2 (Bytes.ofText envelope.path).length ++ Bytes.ofText envelope.path ++
    Bytes.bigEndian 2 envelope.nonce.length ++ envelope.nonce ++ envelope.ciphertext
  header_eq : bytes = envelope.header ++ envelope.nonce ++ envelope.ciphertext

theorem isLayout_ofHeader {header : Header} {nonce : Bytes} (ciphertext : Bytes)
    (hsize : header.path.utf8ByteSize ≤ maxPathSize) (hnonce : header.nonceSize = nonce.length)
    (hmin : Gcm.minNonceSize ≤ nonce.length) (hmax : nonce.length ≤ Field.maxSize) :
    IsLayout (header.bytes ++ nonce ++ ciphertext) (ofHeader header nonce ciphertext) where
  ephemeral_length := header.ephemeral.length_eq
  path_size := hsize
  nonce_min := hmin
  nonce_max := hmax
  bytes_eq := by rw [Header.bytes_eq_parts, hnonce]; rfl
  header_eq := rfl

/-- An envelope with a layout is made of a header, which its encoder writes. -/
theorem IsLayout.exists_header {bytes : Bytes} {envelope : Envelope} (h : IsLayout bytes envelope) :
    ∃ header : Header, header.ephemeral.bytes = envelope.ephemeral ∧ header.path = envelope.path ∧
      header.nonceSize = envelope.nonce.length ∧ header.encode = .ok envelope.header ∧
      envelope = ofHeader header envelope.nonce envelope.ciphertext := by
  let header : Header :=
    ⟨⟨envelope.ephemeral, h.ephemeral_length⟩, envelope.path, envelope.nonce.length⟩
  have hbytes : envelope.header = header.bytes := by
    have same := h.header_eq.symm.trans h.bytes_eq
    rw [List.append_cancel_right_eq, List.append_cancel_right_eq] at same
    rw [same, Header.bytes_eq_parts]
  refine ⟨header, rfl, rfl, rfl, Header.encode_ok_iff.2 ⟨h.path_size, h.nonce_max, hbytes⟩, ?_⟩
  rw [ofHeader, ← hbytes]

/-- Exactly the byte strings with the layout of an envelope are read, as that envelope. -/
theorem parse_eq_ok_iff_isLayout {bytes : Bytes} {envelope : Envelope} :
    parse bytes = .ok envelope ↔ IsLayout bytes envelope := by
  rw [parse_eq_ok_iff]
  constructor
  · rintro ⟨header, nonce, ciphertext, hsize, hnonce, hmin, hmax, rfl, rfl⟩
    exact isLayout_ofHeader ciphertext hsize hnonce hmin hmax
  · intro h
    obtain ⟨header, -, hpath, hnonce, hencode, heq⟩ := h.exists_header
    obtain ⟨hsize, -, hbytes⟩ := Header.encode_ok_iff.1 hencode
    exact ⟨header, envelope.nonce, envelope.ciphertext, hsize, hnonce, h.nonce_min, h.nonce_max,
      hbytes ▸ h.header_eq, heq⟩

/-- The format of envelopes. Exactly the byte strings with the layout of an envelope are read, as
that envelope, and no byte string is laid out in two ways. The header, the nonce and the ciphertext
are the whole of the bytes, and the header is what is written for the parts in front of the nonce. A
header is written exactly if its path and its nonce are short enough, headers with the same bytes
are the same, and what is written in front of a nonce and any ciphertext is read back exactly if the
nonce is long enough. -/
theorem parse_canonical :
    (∀ bytes envelope, parse bytes = .ok envelope ↔ IsLayout bytes envelope) ∧
    (∀ bytes envelope other, IsLayout bytes envelope → IsLayout bytes other → envelope = other) ∧
    (∀ bytes envelope, IsLayout bytes envelope →
      envelope.header ++ envelope.nonce ++ envelope.ciphertext = bytes ∧
      ∃ ephemeral : Octets 33, ephemeral.bytes = envelope.ephemeral ∧
        Header.encode ⟨ephemeral, envelope.path, envelope.nonce.length⟩ = .ok envelope.header) ∧
    (∀ header : Header, (∃ bytes, header.encode = .ok bytes) ↔
      header.path.utf8ByteSize ≤ 1000 ∧ header.nonceSize ≤ 65535) ∧
    (∀ (header other : Header) bytes, header.encode = .ok bytes → other.encode = .ok bytes →
      header = other) ∧
    (∀ (header : Header) nonce ciphertext bytes, header.nonceSize = nonce.length →
      header.encode = .ok bytes →
      parse (bytes ++ nonce ++ ciphertext) =
        if 12 ≤ nonce.length then
          .ok ⟨header.ephemeral.bytes, header.path, nonce, ciphertext, bytes⟩
        else .error (.shortNonce 12 nonce.length)) := by
  refine ⟨fun _ _ => parse_eq_ok_iff_isLayout, ?_, ?_, ?_, fun _ _ _ => Header.encode_injective, ?_⟩
  · intro bytes envelope other h h'
    rw [← parse_eq_ok_iff_isLayout] at h h'
    exact Except.ok.inj (h.symm.trans h')
  · intro bytes envelope h
    obtain ⟨⟨ephemeral, path, nonceSize⟩, hephemeral, hpath, hnonce, hencode, -⟩ := h.exists_header
    cases hpath
    cases hnonce
    exact ⟨h.header_eq.symm, ephemeral, hephemeral, hencode⟩
  · intro header
    constructor
    · rintro ⟨bytes, h⟩
      obtain ⟨hsize, hmax, -⟩ := Header.encode_ok_iff.1 h
      exact ⟨hsize, hmax⟩
    · rintro ⟨hsize, hmax⟩
      exact ⟨_, Header.encode_ok_iff.2 ⟨hsize, hmax, rfl⟩⟩
  · intro header nonce ciphertext bytes hnonce h
    obtain ⟨hsize, hmax, rfl⟩ := Header.encode_ok_iff.1 h
    rw [parse_bytes_append ciphertext hsize hnonce (hnonce ▸ hmax)]
    by_cases hmin : nonce.length < Gcm.minNonceSize
    · have short : ¬ 12 ≤ nonce.length := Nat.not_le.2 hmin
      rw [if_pos hmin, if_neg short]
      rfl
    · have enough : 12 ≤ nonce.length := Nat.not_lt.1 hmin
      rw [if_neg hmin, if_pos enough, ofHeader]

/-- A header with a labelled path, an empty ciphertext, and a nonce of one byte less than enough. -/
theorem parse_canonical_of_labelled_path :
    let header (nonceSize : ℕ) : Header := ⟨⟨List.replicate 33 2, rfl⟩, "m/a:7h", nonceSize⟩
    let envelope : Envelope :=
      ⟨List.replicate 33 2, "m/a:7h", List.replicate 12 9, [], (header 12).bytes⟩
    (header 12).encode = .ok (header 12).bytes ∧
      IsLayout ((header 12).bytes ++ List.replicate 12 9 ++ []) envelope ∧
      parse ((header 12).bytes ++ List.replicate 12 9 ++ []) = .ok envelope ∧
      parse ((header 11).bytes ++ List.replicate 11 9 ++ [1]) = .error (.shortNonce 12 11) := by
  intro header envelope
  have written : (header 12).encode = .ok (header 12).bytes := by decide +kernel
  have written' : (header 11).encode = .ok (header 11).bytes := by decide +kernel
  obtain ⟨layout, -, -, -, -, read⟩ := parse_canonical
  have found := read (header 12) (List.replicate 12 9) [] _ rfl written
  exact ⟨written, (layout _ _).1 found, found,
    read (header 11) (List.replicate 11 9) [1] _ rfl written'⟩

/-! ## Transport text -/

@[simp] theorem decodeText_encodeText (bytes : Bytes) :
    decodeText (encodeText bytes) = .ok bytes := by
  rw [decodeText, encodeText, Base58.decode_encode, mapError_ok]

theorem decodeText_eq_ok_iff {text : String} {bytes : Bytes} :
    decodeText text = .ok bytes ↔ text = encodeText bytes := by
  rw [decodeText, mapError_eq_ok_iff, Base58.decode_eq_ok_iff, encodeText]

/-- Transport text is canonical. Every byte string is read back from its text, exactly the texts
over the alphabet are read, and a text that is read is the text of its bytes, so a byte string has
one text. The text of a byte string has a `1` for each leading zero byte, and then the digits of the
value. -/
theorem decodeText_canonical :
    (∀ bytes, decodeText (encodeText bytes) = .ok bytes) ∧
    (∀ text, (∃ bytes, decodeText text = .ok bytes) ↔ ∀ c ∈ text.toList, c ∈ Base58.alphabet) ∧
    (∀ text bytes, decodeText text = .ok bytes ↔ encodeText bytes = text) ∧
    (∀ bytes, ∃! text, decodeText text = .ok bytes) ∧
    (∀ bytes, ∃ ds, encodeText bytes =
        String.ofList (List.replicate (bytes.takeWhile (· == 0)).length '1' ++
          ds.map Base58.digit) ∧
      (∀ d ∈ ds, d < 58) ∧ ds.head? ≠ some 0 ∧ Base58.ofDigits 58 ds = Bytes.value bytes) := by
  refine ⟨decodeText_encodeText, ?_, ?_, ?_, Base58.exists_encode_eq⟩
  · intro text
    simp only [decodeText, mapError_eq_ok_iff, Base58.exists_decode_iff]
  · intro text bytes
    rw [decodeText_eq_ok_iff, eq_comm]
  · intro bytes
    refine ⟨encodeText bytes, decodeText_encodeText bytes, ?_⟩
    intro text h
    exact decodeText_eq_ok_iff.1 h

/-- Leading zero bytes are kept, also in front of nothing. -/
example : encodeText [] = "" ∧ encodeText [0, 0] = "11" ∧ encodeText [0, 58] = "121" := by
  decide +kernel

end Envelope

end SealedMail
