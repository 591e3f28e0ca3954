import SealedMail.Message.Sealer
import SealedMail.Proofs.Curve.Recovery
import SealedMail.Proofs.Message.Acceptance

/-!
# Delivery

A sealer within its limits writes an envelope whenever it can sign (`Sealer.encrypt_eq`,
`Sealer.enclose_eq`). An opener with the receiver's key finds the sealing key and the signed payload
again (`Opener.inspect_enclosed`) and leaves the decision to its policy about the signer
(`Opener.exists_decrypt_encrypt`). So what is sealed is delivered under every policy that accepts
the sender, and is refused under every other (`Opener.decrypt_encrypt`).
-/

namespace SealedMail

/-- The key `7` can sign two bytes for the key `5`. -/
theorem SignedPayload.exists_sign_for_five :
    ∃ signature, Signature.sign ⟨⟨7, by decide⟩⟩
      (digest [104, 105] (PrivateKey.publicKey ⟨⟨5, by decide⟩⟩)) = .ok signature :=
  Signature.exists_sign_of_first (by decide +kernel)

namespace Sealer

theorem exists_withSettings (sealer : Sealer) {settings : Settings}
    (h : settings.isValid = true) :
    ∃ changed, sealer.withSettings settings = .ok changed ∧ changed.sender = sealer.sender ∧
      changed.receiver = sealer.receiver ∧ changed.receiverPath = sealer.receiverPath ∧
      changed.settings = settings := by
  rw [withSettings, dif_pos h]
  exact ⟨_, rfl, rfl, rfl, rfl, rfl⟩

theorem checkLengths_eq_ok {sealer : Sealer} {payload : Bytes}
    (hpayload : payload.length ≤ Field.maxSize)
    (hpath : sealer.receiverPath.utf8ByteSize ≤ Envelope.maxPathSize) :
    sealer.checkLengths payload = .ok () := by
  rw [checkLengths, if_neg (Nat.not_lt.2 hpayload), if_neg (Nat.not_lt.2 hpath)]

/-- The plaintext within the limits, if the payload can be signed. -/
theorem plaintext_eq {sealer : Sealer} {payload : Bytes} {signature : Signature}
    (hpayload : payload.length ≤ Field.maxSize)
    (hpath : sealer.receiverPath.utf8ByteSize ≤ Envelope.maxPathSize)
    (hsign : Signature.sign sealer.sender (SignedPayload.digest payload sealer.receiver) =
      .ok signature) :
    sealer.plaintext payload = .ok (Field.encode signature.bytes ++ Field.encode payload) := by
  have fits : signature.bytes.length ≤ SignedPayload.maxSignatureSize := by
    rw [Signature.length_bytes]
    decide
  rw [plaintext, checkLengths_eq_ok hpayload hpath, ok_bind]
  simp only [hsign, mapError_ok, ok_bind]
  exact SignedPayload.encode_eq_ok_iff.2 ⟨fits, hpayload, rfl⟩

/-- The header that a sealer writes for an ephemeral key. -/
def header (sealer : Sealer) (ephemeral : EphemeralKey) : Header :=
  ⟨⟨ephemeral.publicKey.compressed, ephemeral.publicKey.length_compressed⟩, sealer.receiverPath,
    sealer.settings.nonceSize⟩

/-- The ciphertext that a sealer writes for an ephemeral key and a nonce. -/
def ciphertext (sealer : Sealer) (ephemeral : EphemeralKey) (nonce text : Bytes) : Bytes :=
  Gcm.encrypt (Aes.Schedule.ofKey (ephemeral.agree sealer.receiver).sealingKey.bytes) nonce text
    (sealer.header ephemeral).bytes

theorem nonceSize_bounds (sealer : Sealer) :
    Gcm.minNonceSize ≤ sealer.settings.nonceSize ∧
      sealer.settings.nonceSize ≤ Gcm.maxNonceSize := by
  simpa [Settings.isValid] using sealer.settings_valid

theorem sealWith_eq {sealer : Sealer} (ephemeral : EphemeralKey) {nonce : Bytes} (text : Bytes)
    (hnonce : nonce.length = sealer.settings.nonceSize) :
    Gcm.sealWith (ephemeral.agree sealer.receiver).sealingKey nonce text
      (sealer.header ephemeral).bytes = .ok (sealer.ciphertext ephemeral nonce text) := by
  have bounds := sealer.nonceSize_bounds
  rw [← hnonce] at bounds
  exact Gcm.sealWith_eq_ok_iff.2 ⟨bounds.1, bounds.2, rfl⟩

theorem enclose_eq {sealer : Sealer} (ephemeral : EphemeralKey) {nonce : Bytes} (text : Bytes)
    (hpath : sealer.receiverPath.utf8ByteSize ≤ Envelope.maxPathSize)
    (hnonce : nonce.length = sealer.settings.nonceSize) :
    sealer.enclose ephemeral nonce text =
      .ok ((sealer.header ephemeral).bytes ++ nonce ++ sealer.ciphertext ephemeral nonce text) := by
  have hmax : sealer.settings.nonceSize ≤ Field.maxSize :=
    sealer.nonceSize_bounds.2.trans (by decide)
  have hhead : Header.encode (sealer.header ephemeral) = .ok (sealer.header ephemeral).bytes :=
    Header.encode_ok_iff.2 ⟨hpath, hmax, rfl⟩
  rw [enclose, hnonce]
  change (Header.encode (sealer.header ephemeral) >>= _) = _
  rw [hhead, ok_bind, sealWith_eq ephemeral text hnonce]
  rfl

/-- What can be signed is sealed, under a key and a nonce off the stream. -/
theorem encrypt_eq {sealer : Sealer} {payload text : Bytes} {source : RandomSource}
    (h : sealer.Draws payload → source.OffersScalar)
    (hpath : sealer.receiverPath.utf8ByteSize ≤ Envelope.maxPathSize)
    (htext : sealer.plaintext payload = .ok text) {ephemeral : EphemeralKey} {rest : RandomSource}
    (hdraw : EphemeralKey.generate source (h ⟨text, htext⟩) = (ephemeral, rest)) :
    let nonce := rest.peek sealer.settings.nonceSize
    sealer.encrypt payload source h =
      (sealer.dispatch payload
        ((sealer.header ephemeral).bytes ++ nonce ++ sealer.ciphertext ephemeral nonce text),
        rest.skip sealer.settings.nonceSize) := by
  unfold encrypt
  split
  next e refused => cases refused.symm.trans htext
  next text' signed =>
    obtain rfl := Except.ok.inj (signed.symm.trans htext)
    simp only [hdraw, RandomSource.draw, enclose_eq _ _ hpath (RandomSource.length_peek _ _)]
    rfl

/-- The text of an envelope for an ephemeral key and a nonce off the stream. -/
theorem result_encrypt {sealer : Sealer} {payload text : Bytes} {source : RandomSource}
    (h : sealer.Draws payload → source.OffersScalar)
    (hpath : sealer.receiverPath.utf8ByteSize ≤ Envelope.maxPathSize)
    (htext : sealer.plaintext payload = .ok text) :
    ∃ ephemeral nonce, nonce.length = sealer.settings.nonceSize ∧
      (sealer.encrypt payload source h).1.result = .ok (Envelope.encodeText
        ((sealer.header ephemeral).bytes ++ nonce ++ sealer.ciphertext ephemeral nonce text)) := by
  rcases hdraw : EphemeralKey.generate source (h ⟨text, htext⟩) with ⟨ephemeral, rest⟩
  rw [encrypt_eq h hpath htext hdraw]
  exact ⟨ephemeral, _, RandomSource.length_peek _ _, rfl⟩

theorem not_draws_of_error {sealer : Sealer} {payload : Bytes} {e : MessageError}
    (refused : sealer.plaintext payload = .error e) : ¬ sealer.Draws payload := by
  rintro ⟨text, signed⟩
  cases refused.symm.trans signed

/-- What cannot be signed and written is refused before anything is drawn. -/
theorem encrypt_eq_of_error {sealer : Sealer} {payload : Bytes} {source : RandomSource}
    {e : MessageError} (h : sealer.Draws payload → source.OffersScalar)
    (refused : sealer.plaintext payload = .error e) :
    sealer.encrypt payload source h = (.ofExcept (.error e), source) := by
  unfold encrypt
  split
  next e' refused' =>
    obtain rfl := Except.error.inj (refused'.symm.trans refused)
    rfl
  next text signed => cases refused.symm.trans signed

/-- A refusal asks nothing of the source. -/
theorem exists_encrypt_eq_of_error {sealer : Sealer} {payload : Bytes} {e : MessageError}
    (source : RandomSource) (refused : sealer.plaintext payload = .error e) :
    ∃ h, sealer.encrypt payload source h = (.ofExcept (.error e), source) :=
  ⟨fun draws => absurd draws (not_draws_of_error refused), encrypt_eq_of_error _ refused⟩

theorem plaintext_of_maxPathSize_lt {sealer : Sealer} {payload : Bytes}
    (hpayload : payload.length ≤ Field.maxSize)
    (hpath : Envelope.maxPathSize < sealer.receiverPath.utf8ByteSize) :
    sealer.plaintext payload = .error (.fieldTooLong .derivationPath
      sealer.receiverPath.utf8ByteSize Envelope.maxPathSize) := by
  rw [plaintext, checkLengths, if_neg (Nat.not_lt.2 hpayload), if_pos hpath, error_bind]

/-- The length of the payload is checked before that of the path. -/
theorem plaintext_of_maxSize_lt {sealer : Sealer} {payload : Bytes}
    (hpayload : Field.maxSize < payload.length) :
    sealer.plaintext payload =
      .error (.fieldTooLong .payload payload.length Field.maxSize) := by
  rw [plaintext, checkLengths, if_pos hpayload, error_bind]

theorem plaintext_of_sign_eq_error {sealer : Sealer} {payload : Bytes} {e : CryptoError}
    (hpayload : payload.length ≤ Field.maxSize)
    (hpath : sealer.receiverPath.utf8ByteSize ≤ Envelope.maxPathSize)
    (hsign : Signature.sign sealer.sender (SignedPayload.digest payload sealer.receiver) =
      .error e) :
    sealer.plaintext payload = .error (.signing e) := by
  rw [plaintext, checkLengths_eq_ok hpayload hpath, ok_bind]
  simp only [hsign, mapError_error, error_bind]

/-- A plaintext is written only within the limits, and only with a signature. -/
theorem exists_sign_of_plaintext_eq_ok {sealer : Sealer} {payload text : Bytes}
    (h : sealer.plaintext payload = .ok text) :
    payload.length ≤ Field.maxSize ∧ sealer.receiverPath.utf8ByteSize ≤ Envelope.maxPathSize ∧
      ∃ signature, Signature.sign sealer.sender (SignedPayload.digest payload sealer.receiver) =
          .ok signature ∧
        text = Field.encode signature.bytes ++ Field.encode payload := by
  by_cases hpayload : payload.length ≤ Field.maxSize
  · by_cases hpath : sealer.receiverPath.utf8ByteSize ≤ Envelope.maxPathSize
    · cases hsign : Signature.sign sealer.sender
          (SignedPayload.digest payload sealer.receiver) with
      | error e => cases (plaintext_of_sign_eq_error hpayload hpath hsign).symm.trans h
      | ok signature =>
          rw [plaintext_eq hpayload hpath hsign] at h
          exact ⟨hpayload, hpath, signature, rfl, (Except.ok.inj h).symm⟩
    · cases (plaintext_of_maxPathSize_lt hpayload (Nat.not_le.1 hpath)).symm.trans h
  · cases (plaintext_of_maxSize_lt (Nat.not_le.1 hpayload)).symm.trans h

end Sealer

namespace Opener

/-- What a sealer encloses has the address of its receiver. -/
theorem address_enclosed {sealer : Sealer} {place : Path} (ephemeral : EphemeralKey)
    {nonce : Bytes} (text : Bytes)
    (hpath : sealer.receiverPath.utf8ByteSize ≤ Envelope.maxPathSize)
    (hnonce : nonce.length = sealer.settings.nonceSize)
    (hplace : Path.parse sealer.receiverPath = .ok place) :
    address (Envelope.encodeText ((sealer.header ephemeral).bytes ++ nonce ++
      sealer.ciphertext ephemeral nonce text)) =
        .ok (.ofHeader (sealer.header ephemeral) nonce (sealer.ciphertext ephemeral nonce text),
          place) := by
  have bounds := sealer.nonceSize_bounds
  rw [← hnonce] at bounds
  exact address_layout (sealer.header ephemeral) _ hpath hnonce.symm bounds.1
    (bounds.2.trans (by decide)) hplace

/-- The receiver of an envelope finds the signed payload in it. -/
theorem inspect_enclosed {keys : KeyTree} {sealer : Sealer} {place : Path} {receiver : PrivateKey}
    {payload text : Bytes} (ephemeral : EphemeralKey) {nonce : Bytes} {signature : Signature}
    (hpayload : payload.length ≤ Field.maxSize)
    (hpath : sealer.receiverPath.utf8ByteSize ≤ Envelope.maxPathSize)
    (hsign : Signature.sign sealer.sender (SignedPayload.digest payload sealer.receiver) =
      .ok signature)
    (htext : sealer.plaintext payload = .ok text)
    (hnonce : nonce.length = sealer.settings.nonceSize)
    (hplace : Path.parse sealer.receiverPath = .ok place)
    (hkeys : (keys place).result = .ok receiver)
    (hreceiver : sealer.receiver = receiver.publicKey) :
    inspect keys (Envelope.encodeText ((sealer.header ephemeral).bytes ++ nonce ++
      sealer.ciphertext ephemeral nonce text)) = .ok (receiver, ⟨signature.bytes, payload⟩) := by
  have haddress := address_enclosed ephemeral text hpath hnonce hplace
  -- The receiver agrees on the key that the sender sealed with.
  have hunlock : unlock receiver (.ofHeader (sealer.header ephemeral) nonce
      (sealer.ciphertext ephemeral nonce text)) = .ok text :=
    unlock_eq_ok_iff.2 ⟨_, SharedSecret.recoverSealingKey_compressed receiver ephemeral,
      hreceiver ▸ sealer.sealWith_eq ephemeral text hnonce⟩
  have hsigned : SignedPayload.parse text = .ok ⟨signature.bytes, payload⟩ := by
    have fits : signature.bytes.length ≤ SignedPayload.maxSignatureSize := by
      rw [Signature.length_bytes]
      decide
    rw [Sealer.plaintext_eq hpayload hpath hsign] at htext
    obtain rfl := Except.ok.inj htext
    exact SignedPayload.parse_eq_ok_iff.2 ⟨_, [],
      SignedPayload.encode_eq_ok_iff.2 ⟨fits, hpayload, rfl⟩, (List.append_nil _).symm⟩
  exact inspect_eq_ok_iff.2 ⟨_, place, text, haddress, hkeys, hunlock, hsigned⟩

/-- The policy of the receiver decides about the sender. -/
theorem result_decrypt_enclosed {keys : KeyTree} (policy : SenderPolicy) {sealer : Sealer}
    {place : Path} {receiver : PrivateKey} {payload text : Bytes} (ephemeral : EphemeralKey)
    {nonce : Bytes} {signature : Signature}
    (hpayload : payload.length ≤ Field.maxSize)
    (hpath : sealer.receiverPath.utf8ByteSize ≤ Envelope.maxPathSize)
    (hsign : Signature.sign sealer.sender (SignedPayload.digest payload sealer.receiver) =
      .ok signature)
    (htext : sealer.plaintext payload = .ok text)
    (hnonce : nonce.length = sealer.settings.nonceSize)
    (hplace : Path.parse sealer.receiverPath = .ok place)
    (hkeys : (keys place).result = .ok receiver)
    (hreceiver : sealer.receiver = receiver.publicKey) :
    ((Opener.mk keys policy).decrypt (Envelope.encodeText ((sealer.header ephemeral).bytes ++
      nonce ++ sealer.ciphertext ephemeral nonce text))).result =
        (policy.check receiver.publicKey sealer.sender.publicKey).map fun _ => payload := by
  have hsigner : (SignedPayload.mk signature.bytes payload).signer receiver.publicKey =
      .ok sealer.sender.publicKey := by
    rw [SignedPayload.signer_eq_ok_iff, ← hreceiver]
    exact Signature.recover_sign hsign
  rw [result_decrypt_eq_inspect, inspect_enclosed ephemeral hpayload hpath hsign htext hnonce hplace
    hkeys hreceiver, ok_bind, hsigner, ok_bind]

/-- What is sealed arrives, up to the decision of the receiver's policy about the sender. -/
theorem exists_decrypt_encrypt {keys : KeyTree} {sealer : Sealer} {place : Path}
    {receiver : PrivateKey} {payload : Bytes} {source : RandomSource} {signature : Signature}
    (hpayload : payload.length ≤ Field.maxSize)
    (hpath : sealer.receiverPath.utf8ByteSize ≤ Envelope.maxPathSize)
    (hsign : Signature.sign sealer.sender (SignedPayload.digest payload sealer.receiver) =
      .ok signature)
    (hplace : Path.parse sealer.receiverPath = .ok place)
    (hkeys : (keys place).result = .ok receiver)
    (hreceiver : sealer.receiver = receiver.publicKey)
    (offers : sealer.Draws payload → source.OffersScalar) :
    ∃ text, (sealer.encrypt payload source offers).1.result = .ok text ∧
      ∀ policy, ((Opener.mk keys policy).decrypt text).result =
        (policy.check receiver.publicKey sealer.sender.publicKey).map fun _ => payload := by
  have hplaintext := Sealer.plaintext_eq hpayload hpath hsign
  obtain ⟨ephemeral, nonce, hnonce, hencrypt⟩ := Sealer.result_encrypt offers hpath hplaintext
  exact ⟨_, hencrypt, fun policy => result_decrypt_enclosed policy ephemeral hpayload hpath hsign
    hplaintext hnonce hplace hkeys hreceiver⟩

/-- A payload that the sender can sign is delivered. For every path text that names a key of the
receiver, every supported nonce size and every source of randomness, the sealer returns a text that
opens to the payload for an opener that trusts the sender or anyone, and for one that trusts only
the receiver if the sender has the receiver's key; every other demand on the signer refuses it. -/
theorem decrypt_encrypt {keys : KeyTree} {path : String} {place : Path}
    {sender receiver : PrivateKey} {payload : Bytes} {nonceSize : ℕ} {source : RandomSource}
    {signature : Signature}
    (hpath : path.utf8ByteSize ≤ 1000) (hplace : Path.parse path = .ok place)
    (hkeys : (keys place).result = .ok receiver) (hpayload : payload.length ≤ 65535)
    (hmin : 12 ≤ nonceSize) (hmax : nonceSize ≤ 32) (offers : source.OffersScalar)
    (hsign : Signature.sign sender (SignedPayload.digest payload receiver.publicKey) =
      .ok signature) :
    ∃ sealer text,
      (Sealer.new sender receiver.publicKey path).withSettings ⟨nonceSize⟩ = .ok sealer ∧
      (sealer.encrypt payload source fun _ => offers).1.result = .ok text ∧
      ((Opener.mk keys (.only sender.publicKey)).decrypt text).result = .ok payload ∧
      ((Opener.mk keys .anyone).decrypt text).result = .ok payload ∧
      ((Opener.mk keys .receiverOnly).decrypt text).result =
        (if sender.publicKey = receiver.publicKey then .ok payload
          else .error .unexpectedSigner) ∧
      ∀ other, other ≠ sender.publicKey →
        ((Opener.mk keys (.only other)).decrypt text).result = .error .unexpectedSigner := by
  have valid : (Settings.mk nonceSize).isValid = true := by
    simp [Settings.isValid, Gcm.minNonceSize, Gcm.maxNonceSize, hmin, hmax]
  obtain ⟨sealer, hsealer, hsender, hreceiver, hreceiverPath, -⟩ :=
    (Sealer.new sender receiver.publicKey path).exists_withSettings valid
  obtain rfl : sealer.sender = sender := hsender
  obtain rfl : sealer.receiverPath = path := hreceiverPath
  replace hreceiver : sealer.receiver = receiver.publicKey := hreceiver
  rw [← hreceiver] at hsign
  have hplaintext := Sealer.plaintext_eq hpayload hpath hsign
  obtain ⟨ephemeral, nonce, hnonce, hencrypt⟩ :=
    Sealer.result_encrypt (fun _ => offers) hpath hplaintext
  have opened (policy : SenderPolicy) := result_decrypt_enclosed policy ephemeral hpayload hpath
    hsign hplaintext hnonce hplace hkeys hreceiver
  -- What is left is the decision of each policy about the sender.
  refine ⟨sealer, _, hsealer, hencrypt, ?_, ?_, ?_, ?_⟩
  · rw [opened]
    simp [SenderPolicy.check, SenderPolicy.expected]
  · rw [opened]
    simp [SenderPolicy.check, SenderPolicy.expected]
  · rw [opened]
    by_cases same : sealer.sender.publicKey = receiver.publicKey
    · simp [SenderPolicy.check, SenderPolicy.expected, same]
    · simp [SenderPolicy.check, SenderPolicy.expected, same]
  · intro other hother
    rw [opened]
    simp [SenderPolicy.check, SenderPolicy.expected, hother.symm]

/-- From the key `7` to the key `5`, under a path text with a label, leading zeros and a marker. -/
theorem decrypt_encrypt_labelled_path :
    let sender : PrivateKey := ⟨⟨7, by decide⟩⟩
    let receiver : PrivateKey := ⟨⟨5, by decide⟩⟩
    let keys := KeyTree.single receiver
    let place : Path := ⟨[⟨some "inbox", 7, true, by decide⟩], by decide⟩
    let source := RandomSource.ofBytes [1, 2, 3]
    let offers := (RandomSource.endless_ofBytes [1, 2, 3]).offersScalar
    "m/inbox:007h".utf8ByteSize ≤ 1000 ∧ Path.parse "m/inbox:007h" = .ok place ∧
      (keys place).result = .ok receiver ∧
      ∃ signature, Signature.sign sender (SignedPayload.digest [104, 105] receiver.publicKey) =
        .ok signature ∧
      ∃ sealer text,
        (Sealer.new sender receiver.publicKey "m/inbox:007h").withSettings ⟨13⟩ = .ok sealer ∧
        (sealer.encrypt [104, 105] source fun _ => offers).1.result = .ok text ∧
        ((Opener.mk keys .anyone).decrypt text).result = .ok [104, 105] := by
  intro sender receiver keys place source offers
  have size : "m/inbox:007h".utf8ByteSize ≤ 1000 := by decide +kernel
  have parsed : Path.parse "m/inbox:007h" = .ok place := by decide +kernel
  have found : (keys place).result = .ok receiver := rfl
  obtain ⟨signature, hsign⟩ : ∃ signature, Signature.sign sender
      (SignedPayload.digest [104, 105] receiver.publicKey) = .ok signature :=
    SignedPayload.exists_sign_for_five
  obtain ⟨sealer, text, hsealer, htext, -, hopen, -⟩ := decrypt_encrypt size parsed found
    (by decide : [104, 105].length ≤ 65535) (by decide : 12 ≤ 13) (by decide : 13 ≤ 32) offers hsign
  exact ⟨size, parsed, found, signature, hsign, sealer, text, hsealer, htext, hopen⟩

end Opener

end SealedMail
