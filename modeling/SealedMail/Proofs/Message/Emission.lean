import SealedMail.Proofs.Curve.FreshKey
import SealedMail.Proofs.Message.Canonical
import SealedMail.Proofs.Message.Delivery

/-!
# What a sealer draws and writes

Nothing but the lengths of the payload and of the path and the signature can fail, and each of these
fails before anything is drawn: the settings of a sealer have been checked, and the limits of the
header and of the plaintext are those of the first check. A sealer that signs takes the windows up
to the first that spells a key, then the nonce, and writes an envelope whose size only depends on
the sizes of the parts. It reports these sizes and nothing else (`Sealer.encrypt_cases`). The main
statement is `Sealer.encrypt_outcomes`.
-/

namespace SealedMail

theorem Header.length_bytes (header : Header) :
    header.bytes.length = header.path.utf8ByteSize + 38 := by
  have size : (Bytes.ofText header.path).length = header.path.utf8ByteSize := rfl
  rw [bytes_eq_parts]
  simp only [List.length_append, List.length_singleton, Bytes.length_bigEndian,
    header.ephemeral.length_eq, size]
  omega

namespace Sealer

/-- What is sealed is the signature and the payload, each behind its length. -/
theorem length_ciphertext (sealer : Sealer) (ephemeral : EphemeralKey) (nonce payload : Bytes)
    (signature : Signature) :
    (sealer.ciphertext ephemeral nonce
      (Field.encode signature.bytes ++ Field.encode payload)).length = payload.length + 85 := by
  rw [ciphertext, Gcm.length_encrypt, List.length_append, Field.length_encode, Field.length_encode,
    Signature.length_bytes, Gcm.tagSize]
  omega

/-- The size of an envelope only depends on the sizes of its parts. -/
theorem length_enclosed {sealer : Sealer} (ephemeral : EphemeralKey) {nonce : Bytes}
    (payload : Bytes) (signature : Signature)
    (hnonce : nonce.length = sealer.settings.nonceSize) :
    ((sealer.header ephemeral).bytes ++ nonce ++ sealer.ciphertext ephemeral nonce
      (Field.encode signature.bytes ++ Field.encode payload)).length =
        sealer.receiverPath.utf8ByteSize + sealer.settings.nonceSize + payload.length + 123 := by
  have hhead : (sealer.header ephemeral).bytes.length = sealer.receiverPath.utf8ByteSize + 38 :=
    Header.length_bytes _
  rw [List.length_append, List.length_append, length_ciphertext, hhead, hnonce]
  omega

/-- What a sealer writes is read back as the parts it was made of. -/
theorem parse_enclosed {sealer : Sealer} (ephemeral : EphemeralKey) {nonce : Bytes} (text : Bytes)
    (hpath : sealer.receiverPath.utf8ByteSize ≤ Envelope.maxPathSize)
    (hnonce : nonce.length = sealer.settings.nonceSize) :
    Envelope.parse
        ((sealer.header ephemeral).bytes ++ nonce ++ sealer.ciphertext ephemeral nonce text) =
      .ok (.ofHeader (sealer.header ephemeral) nonce (sealer.ciphertext ephemeral nonce text)) := by
  obtain ⟨hmin, hmax⟩ := sealer.nonceSize_bounds
  rw [← hnonce] at hmin hmax
  have fits : nonce.length ≤ Field.maxSize := hmax.trans (by decide)
  rw [Envelope.parse_bytes_append _ hpath hnonce.symm fits, if_neg (Nat.not_lt.2 hmin)]

/-- What a sealer draws from a source and writes: its key is the number in the first window that
spells one, and its nonce follows that window. -/
structure IsEmission (sealer : Sealer) (payload : Bytes) (source : RandomSource) (first : ℕ)
    (key : PrivateKey) (bytes : Bytes) (envelope : Envelope) : Prop where
  isScalarAt : source.IsScalarAt first
  not_isScalarAt : ∀ earlier < first, ¬ source.IsScalarAt earlier
  scalar_eq : key.scalar.value.val = source.window first
  length_eq : bytes.length = sealer.receiverPath.utf8ByteSize + sealer.settings.nonceSize +
    payload.length + 123
  parse_eq : Envelope.parse bytes = .ok envelope
  ephemeral_eq : envelope.ephemeral = key.publicKey.compressed
  path_eq : envelope.path = sealer.receiverPath
  nonce_eq : envelope.nonce =
    (source.skip (32 * (first + 1))).peek sealer.settings.nonceSize

/-- A payload that can be signed is sealed. -/
theorem exists_isEmission {sealer : Sealer} {payload : Bytes} {source : RandomSource}
    {signature : Signature} (offers : source.OffersScalar)
    (hpayload : payload.length ≤ Field.maxSize)
    (hpath : sealer.receiverPath.utf8ByteSize ≤ Envelope.maxPathSize)
    (hsign : Signature.sign sealer.sender (SignedPayload.digest payload sealer.receiver) =
      .ok signature) :
    ∃ first key text bytes envelope,
      (sealer.encrypt payload source fun _ => offers).1.result = .ok text ∧
      (sealer.encrypt payload source fun _ => offers).2 =
        source.skip (32 * (first + 1) + sealer.settings.nonceSize) ∧
      Envelope.decodeText text = .ok bytes ∧
      sealer.IsEmission payload source first key bytes envelope := by
  obtain ⟨first, hscalar, hearlier, hvalue, hrest⟩ := PrivateKey.exists_generate_eq offers
  have hdraw : EphemeralKey.generate source offers =
      (⟨(PrivateKey.generate source offers).1⟩, source.skip (32 * (first + 1))) := by
    rw [EphemeralKey.generate, hrest]
  -- The nonce is drawn where the search for the key has stopped.
  have hnonce := (source.skip (32 * (first + 1))).length_peek sealer.settings.nonceSize
  rw [encrypt_eq (fun _ => offers) hpath (plaintext_eq hpayload hpath hsign) hdraw]
  exact ⟨first, (PrivateKey.generate source offers).1, _, _, _, rfl,
    RandomSource.skip_skip _ _ _, Envelope.decodeText_encodeText _,
    { isScalarAt := hscalar
      not_isScalarAt := hearlier
      scalar_eq := hvalue
      length_eq := length_enclosed _ payload signature hnonce
      parse_eq := parse_enclosed _ _ hpath hnonce
      ephemeral_eq := rfl
      path_eq := rfl
      nonce_eq := rfl }⟩

/-- A sealer that fails reports and draws nothing. One that writes a text reports sizes once, and
that of the envelope follows from the others. -/
theorem encrypt_cases (sealer : Sealer) (payload : Bytes) {source : RandomSource}
    (offers : sealer.Draws payload → source.OffersScalar) :
    (∃ e, sealer.encrypt payload source offers = (.ofExcept (.error e), source)) ∨
    ∃ text bytes, Envelope.decodeText text = .ok bytes ∧
      bytes.length = sealer.receiverPath.utf8ByteSize + sealer.settings.nonceSize +
        payload.length + 123 ∧
      (sealer.encrypt payload source offers).1 =
        ⟨[.sealed payload.length sealer.receiverPath.utf8ByteSize sealer.settings.nonceSize
          bytes.length], .ok text⟩ := by
  cases hplaintext : sealer.plaintext payload with
  | error e => exact Or.inl ⟨e, encrypt_eq_of_error offers hplaintext⟩
  | ok plaintext =>
      obtain ⟨-, hpath, signature, -, rfl⟩ := exists_sign_of_plaintext_eq_ok hplaintext
      rcases hdraw : EphemeralKey.generate source (offers ⟨_, hplaintext⟩) with ⟨ephemeral, rest⟩
      rw [encrypt_eq offers hpath hplaintext hdraw]
      exact Or.inr ⟨_, _, Envelope.decodeText_encodeText _,
        length_enclosed ephemeral payload signature (rest.length_peek _), rfl⟩

/-- What a sealer draws and writes. A payload of more than 65535 bytes is refused, else a path of
more than 1000 bytes, else what cannot be signed; then nothing is drawn, and the source may be any.
Everything else is sealed with every source that has a window which spells a scalar: the windows up
to the first of these and the bytes of a nonce are drawn, and the bytes behind the text are an
envelope with the public key of that scalar, the path of the receiver and that nonce. -/
theorem encrypt_outcomes (sealer : Sealer) (payload : Bytes) (source : RandomSource) :
    (65535 < payload.length → ∃ h, sealer.encrypt payload source h =
      (.ofExcept (.error (.fieldTooLong .payload payload.length 65535)), source)) ∧
    (payload.length ≤ 65535 → 1000 < sealer.receiverPath.utf8ByteSize →
      ∃ h, sealer.encrypt payload source h =
        (.ofExcept (.error (.fieldTooLong .derivationPath
          sealer.receiverPath.utf8ByteSize 1000)), source)) ∧
    (payload.length ≤ 65535 → sealer.receiverPath.utf8ByteSize ≤ 1000 →
      (∀ e, Signature.sign sealer.sender (SignedPayload.digest payload sealer.receiver) =
          .error e →
        ∃ h, sealer.encrypt payload source h = (.ofExcept (.error (.signing e)), source)) ∧
      ∀ signature, Signature.sign sealer.sender (SignedPayload.digest payload sealer.receiver) =
          .ok signature →
        (∃ index, source.IsScalarAt index) →
          ∃ (offers : source.OffersScalar) (first : ℕ) (key : PrivateKey) (text : String)
            (bytes : Bytes) (envelope : Envelope),
            (sealer.encrypt payload source fun _ => offers).1.result = .ok text ∧
            (sealer.encrypt payload source fun _ => offers).2 =
              source.skip (32 * (first + 1) + sealer.settings.nonceSize) ∧
            Envelope.decodeText text = .ok bytes ∧
            sealer.IsEmission payload source first key bytes envelope) := by
  refine ⟨fun hlong => ?_, fun hpayload hlong => ?_, fun hpayload hpath => ⟨?_, ?_⟩⟩
  · exact exists_encrypt_eq_of_error source (plaintext_of_maxSize_lt hlong)
  · exact exists_encrypt_eq_of_error source (plaintext_of_maxPathSize_lt hpayload hlong)
  · intro e hsign
    exact exists_encrypt_eq_of_error source (plaintext_of_sign_eq_error hpayload hpath hsign)
  · intro signature hsign hsource
    have offers := RandomSource.offersScalar_iff.2 hsource
    exact ⟨offers, exists_isEmission offers hpayload hpath hsign⟩

/-- The first window of the source is zero and is passed over; with nothing but zeros, a payload
that is too long is refused all the same. -/
theorem encrypt_outcomes_after_zero_window :
    let sender : PrivateKey := ⟨⟨7, by decide⟩⟩
    let receiver : PrivateKey := ⟨⟨5, by decide⟩⟩
    let source := RandomSource.ofBytes (List.replicate 32 0)
    let zeros : RandomSource := ⟨fun _ => 0, 0⟩
    ¬ source.IsScalarAt 0 ∧ source.IsScalarAt 1 ∧
      ∃ sealer offers text bytes envelope,
        (Sealer.new sender receiver.publicKey "m/0").withSettings ⟨13⟩ = .ok sealer ∧
        (sealer.encrypt [104, 105] source fun _ => offers).1.result = .ok text ∧
        (sealer.encrypt [104, 105] source fun _ => offers).2 = source.skip 77 ∧
        Envelope.decodeText text = .ok bytes ∧ bytes.length = 141 ∧
        Envelope.parse bytes = .ok envelope ∧ envelope.nonce = List.replicate 13 1 ∧
        ∃ h, sealer.encrypt (List.replicate 65536 0) zeros h =
          (.ofExcept (.error (.fieldTooLong .payload 65536 65535)), zeros) := by
  intro sender receiver source zeros
  have zero : ¬ source.IsScalarAt 0 := by decide +kernel
  have one : source.IsScalarAt 1 := by decide +kernel
  obtain ⟨signature, hsign⟩ : ∃ signature, Signature.sign sender
      (SignedPayload.digest [104, 105] receiver.publicKey) = .ok signature :=
    SignedPayload.exists_sign_for_five
  obtain ⟨sealer, hsealer, hsender, hreceiver, hpath, hsettings⟩ :=
    (Sealer.new sender receiver.publicKey "m/0").exists_withSettings
      (rfl : (Settings.mk 13).isValid = true)
  have signs : Signature.sign sealer.sender
      (SignedPayload.digest [104, 105] sealer.receiver) = .ok signature := by
    rw [hsender, hreceiver]
    exact hsign
  have size : sealer.receiverPath.utf8ByteSize ≤ 1000 := by
    rw [hpath]
    decide +kernel
  obtain ⟨long, -, -⟩ := encrypt_outcomes sealer (List.replicate 65536 0) zeros
  obtain ⟨-, -, outcome⟩ := encrypt_outcomes sealer [104, 105] source
  obtain ⟨offers, first, key, text, bytes, envelope, hresult, hrest, hbytes, emission⟩ :=
    (outcome (by decide) size).2 signature signs ⟨1, one⟩
  -- The first window that spells a scalar is the second one.
  obtain rfl : first = 1 := by
    rcases Nat.lt_trichotomy first 1 with before | same | behind
    · obtain rfl : first = 0 := by omega
      exact absurd emission.isScalarAt zero
    · exact same
    · exact absurd one (emission.not_isScalarAt 1 behind)
  rw [hsettings] at hrest
  refine ⟨zero, one, sealer, offers, text, bytes, envelope, hsealer, hresult, hrest, hbytes, ?_,
    emission.parse_eq, ?_, ?_⟩
  · rw [emission.length_eq, hpath, hsettings]
    decide +kernel
  · rw [emission.nonce_eq, hsettings]
    exact RandomSource.peek_skip_ofBytes (by decide) 13
  · have hlong := long (by rw [List.length_replicate]; decide)
    rw [List.length_replicate] at hlong
    exact hlong

end Sealer

end SealedMail
