import SealedMail.Proofs.Cipher.Authentication
import SealedMail.Proofs.Derivation.Labels
import SealedMail.Proofs.Message.Delivery

/-!
# Changing one byte of an accepted message

The parts of a text that opens, with the keys it opens under, are gathered in `Opens`. A change of
one byte in a part leads to a fixed refusal: the version is checked first; another header of the
ephemeral key gives the same sealing key or no key at all; other labels lead to the same receiver;
and whatever is still decrypted does not authenticate. Together these are the refusals of
`Opener.decrypt_changed_byte`, whatever the policy about signers.
-/

namespace SealedMail

/-- The key that opening a text would decrypt with. -/
def KeyTree.sealingKey (keys : KeyTree) (text : String) : Except MessageError SealingKey := do
  let found ← Opener.address text
  let receiver ← (keys found.2).result.mapError .derivation
  (SharedSecret.recoverSealingKey receiver found.1.ephemeral).mapError .crypto

theorem KeyTree.sealingKey_eq_ok_iff {keys : KeyTree} {text : String} {envelope : Envelope}
    {place : Path} {receiver : PrivateKey} {key : SealingKey}
    (haddress : Opener.address text = .ok (envelope, place))
    (hreceiver : (keys place).result = .ok receiver) :
    keys.sealingKey text = .ok key ↔
      SharedSecret.recoverSealingKey receiver envelope.ephemeral = .ok key := by
  rw [sealingKey, haddress, ok_bind, hreceiver, mapError_ok, ok_bind, mapError_eq_ok_iff]

/-- The parts of a text that a key tree opens, and the keys that it opens under. -/
structure Opens (keys : KeyTree) (header : Header) (nonce ciphertext : Bytes) (place : Path)
    (receiver : PrivateKey) (key : SealingKey) (plaintext : Bytes) : Prop where
  path_size : header.path.utf8ByteSize ≤ Envelope.maxPathSize
  nonceSize_eq : header.nonceSize = nonce.length
  le_nonce : Gcm.minNonceSize ≤ nonce.length
  nonce_le : nonce.length ≤ Field.maxSize
  parse_path : Path.parse header.path = .ok place
  find_key : (keys place).result = .ok receiver
  recover_key : SharedSecret.recoverSealingKey receiver header.ephemeral.bytes = .ok key
  openWith_key : Gcm.openWith key nonce ciphertext header.bytes = .ok plaintext

theorem exists_opens {keys : KeyTree} {policy : SenderPolicy} {text : String}
    {bytes payload : Bytes} {envelope : Envelope} {place : Path} {key : SealingKey}
    (accepted : ((Opener.mk keys policy).decrypt text).result = .ok payload)
    (haddress : Opener.address text = .ok (envelope, place)) (hkey : keys.sealingKey text = .ok key)
    (hbytes : Envelope.decodeText text = .ok bytes) :
    ∃ header nonce ciphertext receiver plaintext,
      Opens keys header nonce ciphertext place receiver key plaintext ∧
        bytes = header.bytes ++ nonce ++ ciphertext ∧
        envelope = .ofHeader header nonce ciphertext := by
  obtain ⟨envelope', place', receiver, haddress', hreceiver, hreveal⟩ :=
    Opener.result_decrypt_eq_ok_iff.1 accepted
  obtain ⟨rfl, rfl⟩ := Prod.mk.inj (Except.ok.inj (haddress.symm.trans haddress'))
  obtain ⟨bytes', rfl, hparse, hplace⟩ := Opener.address_eq_ok_iff.1 haddress
  obtain rfl : bytes' = bytes :=
    Except.ok.inj ((Envelope.decodeText_encodeText _).symm.trans hbytes)
  obtain ⟨plaintext, signed, signer, hunlock, -⟩ := Opener.reveal_eq_ok_iff.1 hreveal
  obtain ⟨header, nonce, ciphertext, hsize, hnonce, hmin, hmax, hlayout, rfl⟩ :=
    Envelope.parse_eq_ok_iff.1 hparse
  have hrecover : SharedSecret.recoverSealingKey receiver header.ephemeral.bytes = .ok key :=
    (KeyTree.sealingKey_eq_ok_iff haddress hreceiver).1 hkey
  rw [Opener.unlock_of_recover hrecover, mapError_eq_ok_iff] at hunlock
  exact ⟨header, nonce, ciphertext, receiver, plaintext,
    ⟨hsize, hnonce, hmin, hmax, hplace, hreceiver, hrecover, hunlock⟩, hlayout, rfl⟩

namespace Opener

/-- What a sealer encloses is accepted, under the sealing key that the ephemeral key agrees on. -/
theorem exists_accepted {keys : KeyTree} {sealer : Sealer} {place : Path} {receiver : PrivateKey}
    {payload nonce : Bytes} {signature : Signature} (ephemeral : EphemeralKey)
    (hpayload : payload.length ≤ Field.maxSize)
    (hpath : sealer.receiverPath.utf8ByteSize ≤ Envelope.maxPathSize)
    (hsign : Signature.sign sealer.sender (SignedPayload.digest payload sealer.receiver) =
      .ok signature)
    (hnonce : nonce.length = sealer.settings.nonceSize)
    (hplace : Path.parse sealer.receiverPath = .ok place)
    (hkeys : (keys place).result = .ok receiver)
    (hreceiver : sealer.receiver = receiver.publicKey) :
    ∃ text bytes envelope,
      ((Opener.mk keys .anyone).decrypt text).result = .ok payload ∧
      address text = .ok (envelope, place) ∧
      keys.sealingKey text = .ok (ephemeral.agree receiver.publicKey).sealingKey ∧
      Envelope.decodeText text = .ok bytes ∧ (sealer.header ephemeral).bytes <+: bytes ∧
      envelope.path = sealer.receiverPath := by
  have hplaintext := Sealer.plaintext_eq hpayload hpath hsign
  have accepted := result_decrypt_enclosed .anyone ephemeral hpayload hpath hsign hplaintext hnonce
    hplace hkeys hreceiver
  have haddress := address_enclosed ephemeral
    (Field.encode signature.bytes ++ Field.encode payload) hpath hnonce hplace
  refine ⟨_, _, _, accepted, haddress, ?_, Envelope.decodeText_encodeText _, ?_, rfl⟩
  · exact (KeyTree.sealingKey_eq_ok_iff haddress hkeys).2
      (SharedSecret.recoverSealingKey_compressed receiver ephemeral)
  · rw [List.append_assoc]
    exact List.prefix_append _ _

/-- A text that is read and whose envelope cannot be unlocked is refused for that cause. -/
theorem result_decrypt_of_unlock_error {keys : KeyTree} (policy : SenderPolicy) {header : Header}
    {nonce ciphertext : Bytes} {place : Path} {receiver : PrivateKey} {cause : MessageError}
    (hsize : header.path.utf8ByteSize ≤ Envelope.maxPathSize)
    (hnonce : header.nonceSize = nonce.length) (hmin : Gcm.minNonceSize ≤ nonce.length)
    (hmax : nonce.length ≤ Field.maxSize) (hplace : Path.parse header.path = .ok place)
    (hreceiver : (keys place).result = .ok receiver)
    (hunlock : unlock receiver (.ofHeader header nonce ciphertext) = .error cause) :
    ((Opener.mk keys policy).decrypt
      (Envelope.encodeText (header.bytes ++ nonce ++ ciphertext))).result = .error cause := by
  rw [result_decrypt, address_layout header ciphertext hsize hnonce hmin hmax hplace, ok_bind,
    hreceiver, mapError_ok, ok_bind, reveal, hunlock, error_bind]

/-- A text whose ciphertext does not open under the agreed key is refused for that cause. -/
theorem result_decrypt_of_notAuthentic {keys : KeyTree} (policy : SenderPolicy) {header : Header}
    {nonce ciphertext : Bytes} {place : Path} {receiver : PrivateKey} {key : SealingKey}
    (hsize : header.path.utf8ByteSize ≤ Envelope.maxPathSize)
    (hnonce : header.nonceSize = nonce.length) (hmin : Gcm.minNonceSize ≤ nonce.length)
    (hmax : nonce.length ≤ Field.maxSize) (hplace : Path.parse header.path = .ok place)
    (hreceiver : (keys place).result = .ok receiver)
    (hrecover : SharedSecret.recoverSealingKey receiver header.ephemeral.bytes = .ok key)
    (hrefused : Gcm.openWith key nonce ciphertext header.bytes = .error .notAuthentic) :
    ((Opener.mk keys policy).decrypt
      (Envelope.encodeText (header.bytes ++ nonce ++ ciphertext))).result =
        .error (.crypto .notAuthentic) := by
  have agreed : SharedSecret.recoverSealingKey receiver
      (Envelope.ofHeader header nonce ciphertext).ephemeral = .ok key := hrecover
  have hunlock : unlock receiver (.ofHeader header nonce ciphertext) =
      .error (.crypto .notAuthentic) := by
    rw [unlock_of_recover agreed]
    exact congrArg (Except.mapError MessageError.crypto) hrefused
  exact result_decrypt_of_unlock_error policy hsize hnonce hmin hmax hplace hreceiver hunlock

/-- A text of another version is refused before anything else is looked at. -/
theorem result_decrypt_of_ne_version {keys : KeyTree} (policy : SenderPolicy) {found : UInt8}
    (h : found ≠ Envelope.version) (rest : Bytes) :
    ((Opener.mk keys policy).decrypt (Envelope.encodeText (found :: rest))).result =
      .error (.unsupportedVersion Envelope.version.toNat found.toNat) := by
  rw [result_decrypt, address, Envelope.decodeText_encodeText, ok_bind,
    Envelope.parse_of_ne_version h, error_bind, error_bind]

end Opener

namespace Opens

variable {keys : KeyTree} {header : Header} {nonce ciphertext : Bytes} {place : Path}
  {receiver : PrivateKey} {key : SealingKey} {plaintext : Bytes}

theorem changed_nonce (h : Opens keys header nonce ciphertext place receiver key plaintext)
    (hkey : Gcm.hashKey (Aes.Schedule.ofKey key.bytes) ≠ 0#128) {nonce' : Bytes}
    (hchange : OneChange nonce nonce') (policy : SenderPolicy) :
    ((Opener.mk keys policy).decrypt
      (Envelope.encodeText (header.bytes ++ nonce' ++ ciphertext))).result =
        .error (.crypto .notAuthentic) := by
  have length := hchange.length_eq
  apply Opener.result_decrypt_of_notAuthentic policy h.path_size
    (h.nonceSize_eq.trans length.symm) (length ▸ h.le_nonce) (length ▸ h.nonce_le) h.parse_path
    h.find_key h.recover_key
  exact Gcm.openWith_changed_nonce hkey h.openWith_key (hchange.blockChange 16)

theorem changed_ciphertext (h : Opens keys header nonce ciphertext place receiver key plaintext)
    (hkey : Gcm.hashKey (Aes.Schedule.ofKey key.bytes) ≠ 0#128) {ciphertext' : Bytes}
    (hchange : OneChange ciphertext ciphertext') (policy : SenderPolicy) :
    ((Opener.mk keys policy).decrypt
      (Envelope.encodeText (header.bytes ++ nonce ++ ciphertext'))).result =
        .error (.crypto .notAuthentic) := by
  apply Opener.result_decrypt_of_notAuthentic policy h.path_size h.nonceSize_eq h.le_nonce
    h.nonce_le h.parse_path h.find_key h.recover_key
  exact Gcm.openWith_changed_ciphertext hkey h.openWith_key hchange

/-- A changed header that leads to the same sealing key is refused, because it is authenticated. -/
theorem changed_header (h : Opens keys header nonce ciphertext place receiver key plaintext)
    (hkey : Gcm.hashKey (Aes.Schedule.ofKey key.bytes) ≠ 0#128) {header' : Header} {place' : Path}
    (hsize : header'.path.utf8ByteSize ≤ Envelope.maxPathSize)
    (hnonce : header'.nonceSize = nonce.length) (hplace : Path.parse header'.path = .ok place')
    (hreceiver : (keys place').result = .ok receiver)
    (hrecover : SharedSecret.recoverSealingKey receiver header'.ephemeral.bytes = .ok key)
    (hchange : OneChange header.bytes header'.bytes) (policy : SenderPolicy) :
    ((Opener.mk keys policy).decrypt
      (Envelope.encodeText (header'.bytes ++ nonce ++ ciphertext))).result =
        .error (.crypto .notAuthentic) := by
  apply Opener.result_decrypt_of_notAuthentic policy hsize hnonce h.le_nonce h.nonce_le hplace
    hreceiver hrecover
  exact Gcm.openWith_changed_associated hkey h.openWith_key (hchange.blockChange 16)

/-- Another first byte of the ephemeral key: the same sealing key, or no key at all. -/
theorem changed_parity (h : Opens keys header nonce ciphertext place receiver key plaintext)
    (hkey : Gcm.hashKey (Aes.Schedule.ofKey key.bytes) ≠ 0#128) {first value : UInt8}
    {rest : Bytes} (hfirst : header.ephemeral.bytes = first :: rest) (hne : first ≠ value)
    (header' : Header) (hephemeral : header'.ephemeral.bytes = value :: rest)
    (hpath : header'.path = header.path) (hsize : header'.nonceSize = header.nonceSize)
    (policy : SenderPolicy) :
    (value ∈ [2, 3, 5] →
      keys.sealingKey (Envelope.encodeText (header'.bytes ++ nonce ++ ciphertext)) = .ok key ∧
      ((Opener.mk keys policy).decrypt
        (Envelope.encodeText (header'.bytes ++ nonce ++ ciphertext))).result =
          .error (.crypto .notAuthentic)) ∧
    (value ∉ [2, 3, 5] →
      ((Opener.mk keys policy).decrypt
        (Envelope.encodeText (header'.bytes ++ nonce ++ ciphertext))).result =
          .error (.crypto (.badPublicKey (.encoding 33)))) := by
  have hlength : rest.length = 32 := by
    have := hfirst ▸ header.ephemeral.length_eq
    simpa using this
  have hrecover := h.recover_key
  rw [hfirst] at hrecover
  obtain ⟨same, none_found⟩ := SharedSecret.recoverSealingKey_cons value hlength hrecover
  rw [← hephemeral] at same none_found
  have path_size := h.path_size
  have parse_path := h.parse_path
  rw [← hpath] at path_size parse_path
  have nonceSize_eq := hsize.trans h.nonceSize_eq
  constructor
  · intro hmem
    refine ⟨?_, ?_⟩
    · have haddress := Opener.address_layout header' ciphertext path_size nonceSize_eq h.le_nonce
        h.nonce_le parse_path
      exact (KeyTree.sealingKey_eq_ok_iff haddress h.find_key).2 (same hmem)
    · -- The sealing key is the same, but the header that it authenticates is another one.
      have hchange : OneChange header.bytes header'.bytes := by
        rw [Header.bytes, Header.bytes, hfirst, hephemeral, hpath, hsize]
        exact OneChange.of_ne hne [Envelope.version] _
      exact h.changed_header hkey path_size nonceSize_eq parse_path h.find_key (same hmem) hchange
        policy
  · intro hmem
    apply Opener.result_decrypt_of_unlock_error policy path_size nonceSize_eq h.le_nonce h.nonce_le
      parse_path h.find_key
    rw [Opener.unlock, Envelope.ofHeader, none_found hmem, mapError_error, error_bind]

/-- Another text of the path with the same child numbers. -/
theorem changed_path (h : Opens keys header nonce ciphertext place receiver key plaintext)
    (hkey : Gcm.hashKey (Aes.Schedule.ofKey key.bytes) ≠ 0#128) (labels : keys.IgnoresLabels)
    (header' : Header) {place' : Path}
    (hchange : OneChange (Bytes.ofText header.path) (Bytes.ofText header'.path))
    (hephemeral : header'.ephemeral = header.ephemeral)
    (hsize : header'.nonceSize = header.nonceSize) (hplace : Path.parse header'.path = .ok place')
    (hnumbers : place'.childNumbers = place.childNumbers) (policy : SenderPolicy) :
    ((Opener.mk keys policy).decrypt
      (Envelope.encodeText (header'.bytes ++ nonce ++ ciphertext))).result =
        .error (.crypto .notAuthentic) := by
  -- The length of the path is written before it and stays the same.
  have length : header'.path.utf8ByteSize = header.path.utf8ByteSize := hchange.length_eq
  refine h.changed_header hkey (length ▸ h.path_size) (hsize.trans h.nonceSize_eq) hplace
    (labels place place' receiver hnumbers.symm h.find_key) (hephemeral ▸ h.recover_key) ?_ policy
  have fields : OneChange (Field.encode (Bytes.ofText header.path))
      (Field.encode (Bytes.ofText header'.path)) := by
    rw [Field.encode, Field.encode, hchange.length_eq]
    exact hchange.append_left _
  rw [Header.bytes, Header.bytes, hephemeral, hsize]
  exact ((fields.append_left _).append_right _).append_left [Envelope.version]

end Opens

/-! ## Positions -/

/-- The path stands between bytes 36 and 36 plus its size. -/
theorem Header.set_path {header : Header} {position : ℕ} (hmin : 36 ≤ position)
    (hmax : position < 36 + header.path.utf8ByteSize) (value : UInt8) (back : Bytes) :
    (header.bytes ++ back).set position value =
      Envelope.version :: (header.ephemeral.bytes ++
        (Field.encode ((Bytes.ofText header.path).set (position - 36) value) ++
          (Bytes.bigEndian 2 header.nonceSize ++ back))) := by
  have front : (Envelope.version :: (header.ephemeral.bytes ++
      Bytes.bigEndian 2 (Bytes.ofText header.path).length)).length = 36 := by
    simp [header.ephemeral.length_eq]
  have layout : header.bytes ++ back = (Envelope.version :: (header.ephemeral.bytes ++
      Bytes.bigEndian 2 (Bytes.ofText header.path).length)) ++ (Bytes.ofText header.path ++
        (Bytes.bigEndian 2 header.nonceSize ++ back)) := by
    simp [Header.bytes, Field.encode]
  have inside : position - 36 < (Bytes.ofText header.path).length := by
    rw [Bytes.length_ofText]
    omega
  rw [layout, List.set_append_right _ _ (front.trans_le hmin), front,
    List.set_append_left _ _ inside]
  simp [Field.encode]

namespace Opens

variable {keys : KeyTree} {header : Header} {nonce ciphertext : Bytes} {place : Path}
  {receiver : PrivateKey} {key : SealingKey} {plaintext : Bytes} {position : ℕ} {value : UInt8}

/-- The first byte of the ephemeral key stands behind the version. -/
theorem set_one (h : Opens keys header nonce ciphertext place receiver key plaintext)
    (hkey : Gcm.hashKey (Aes.Schedule.ofKey key.bytes) ≠ 0#128)
    (hposition : 1 < (header.bytes ++ nonce ++ ciphertext).length)
    (hvalue : (header.bytes ++ nonce ++ ciphertext)[1] ≠ value) (policy : SenderPolicy) :
    let tampered := Envelope.encodeText ((header.bytes ++ nonce ++ ciphertext).set 1 value)
    let result := ((Opener.mk keys policy).decrypt tampered).result
    (value ∈ [2, 3, 5] →
      keys.sealingKey tampered = .ok key ∧ result = .error (.crypto .notAuthentic)) ∧
    (value ∉ [2, 3, 5] → result = .error (.crypto (.badPublicKey (.encoding 33)))) := by
  -- The byte is the first of the ephemeral key, so what is changed is a header again.
  obtain ⟨first, rest, hfirst⟩ : ∃ first rest, header.ephemeral.bytes = first :: rest := by
    cases hbytes : header.ephemeral.bytes with
    | nil =>
        have length := header.ephemeral.length_eq
        simp [hbytes] at length
    | cons first rest => exact ⟨first, rest, rfl⟩
  have length : (value :: rest).length = 33 := by
    have length := header.ephemeral.length_eq
    rw [hfirst] at length
    simpa using length
  have hne : first ≠ value := by simpa [Header.bytes, hfirst] using hvalue
  let header' : Header := ⟨⟨value :: rest, length⟩, header.path, header.nonceSize⟩
  have tampered : (header.bytes ++ nonce ++ ciphertext).set 1 value =
      header'.bytes ++ nonce ++ ciphertext := by
    simp [Header.bytes, hfirst, header']
  rw [tampered]
  exact h.changed_parity hkey hfirst hne header' rfl rfl rfl policy

/-- The path stands between bytes 36 and 36 plus its size. -/
theorem set_path (h : Opens keys header nonce ciphertext place receiver key plaintext)
    (hkey : Gcm.hashKey (Aes.Schedule.ofKey key.bytes) ≠ 0#128) (labels : keys.IgnoresLabels)
    (hmin : 36 ≤ position) (hmax : position < 36 + header.path.utf8ByteSize)
    (hposition : position < (header.bytes ++ nonce ++ ciphertext).length)
    (hvalue : (header.bytes ++ nonce ++ ciphertext)[position] ≠ value)
    {path : String} {place' : Path}
    (hpath : Bytes.ofText path = (Bytes.ofText header.path).set (position - 36) value)
    (hplace : Path.parse path = .ok place') (hnumbers : place'.childNumbers = place.childNumbers)
    (policy : SenderPolicy) :
    ((Opener.mk keys policy).decrypt (Envelope.encodeText
      ((header.bytes ++ nonce ++ ciphertext).set position value))).result =
        .error (.crypto .notAuthentic) := by
  have inside : position - 36 < (Bytes.ofText header.path).length := by
    rw [Bytes.length_ofText]
    omega
  have hne : (Bytes.ofText header.path)[position - 36] ≠ value := by
    -- Setting a byte of the path to what it is would leave all bytes as they are.
    intro same
    have unchanged : (header.bytes ++ nonce ++ ciphertext).set position value =
        header.bytes ++ nonce ++ ciphertext := by
      rw [List.append_assoc, Header.set_path hmin hmax, ← same, List.set_getElem_self]
      simp [Header.bytes]
    have hset : position < ((header.bytes ++ nonce ++ ciphertext).set position value).length := by
      rwa [List.length_set]
    refine hvalue ?_
    calc (header.bytes ++ nonce ++ ciphertext)[position]
        = ((header.bytes ++ nonce ++ ciphertext).set position value)[position] := by
          simp only [unchanged]
      _ = value := List.getElem_set_self _
  have hchange : OneChange (Bytes.ofText header.path) (Bytes.ofText path) :=
    hpath ▸ OneChange.set inside hne
  let header' : Header := ⟨header.ephemeral, path, header.nonceSize⟩
  have tampered : (header.bytes ++ nonce ++ ciphertext).set position value =
      header'.bytes ++ nonce ++ ciphertext := by
    rw [List.append_assoc, Header.set_path hmin hmax, ← hpath]
    simp [Header.bytes, header']
  rw [tampered]
  exact h.changed_path hkey labels header' hchange rfl rfl hplace hnumbers policy

/-- The nonce and the ciphertext stand behind the header. -/
theorem set_behind_header (h : Opens keys header nonce ciphertext place receiver key plaintext)
    (hkey : Gcm.hashKey (Aes.Schedule.ofKey key.bytes) ≠ 0#128)
    (hbehind : header.bytes.length ≤ position)
    (hposition : position < (header.bytes ++ nonce ++ ciphertext).length)
    (hvalue : (header.bytes ++ nonce ++ ciphertext)[position] ≠ value) (policy : SenderPolicy) :
    ((Opener.mk keys policy).decrypt (Envelope.encodeText
      ((header.bytes ++ nonce ++ ciphertext).set position value))).result =
        .error (.crypto .notAuthentic) := by
  simp only [List.append_assoc] at hvalue hposition ⊢
  rw [List.set_append_right _ _ hbehind]
  have hchange : OneChange (nonce ++ ciphertext)
      ((nonce ++ ciphertext).set (position - header.bytes.length) value) := by
    refine OneChange.set ?_ ?_
    · rw [List.length_append] at hposition
      omega
    · rwa [List.getElem_append_right hbehind] at hvalue
  rcases hchange.of_append with ⟨nonce', hnonce, heq⟩ | ⟨ciphertext', hciphertext, heq⟩
  · rw [heq, ← List.append_assoc]
    exact h.changed_nonce hkey hnonce policy
  · rw [heq, ← List.append_assoc]
    exact h.changed_ciphertext hkey hciphertext policy

end Opens

namespace Opener

/-- One changed byte in an accepted text, under a hash key other than zero and whatever the policy.
Another version is named; another first byte of the ephemeral key is a cryptographic failure, also
where it leaves the sealing key as it is; and no change of a byte of the path that leads to the same
child numbers, of the nonce or of the ciphertext with its tag authenticates. -/
theorem decrypt_changed_byte {keys : KeyTree} {policy : SenderPolicy} {text : String}
    {bytes payload : Bytes} {envelope : Envelope} {place : Path} {key : SealingKey} {position : ℕ}
    {value : UInt8} (labels : keys.IgnoresLabels)
    (accepted : ((Opener.mk keys policy).decrypt text).result = .ok payload)
    (haddress : address text = .ok (envelope, place)) (hkey : keys.sealingKey text = .ok key)
    (nonzero : Gcm.hashKey (Aes.Schedule.ofKey key.bytes) ≠ 0)
    (hbytes : Envelope.decodeText text = .ok bytes) (hposition : position < bytes.length)
    (hvalue : bytes[position] ≠ value) (policy' : SenderPolicy) :
    let tampered := Envelope.encodeText (bytes.set position value)
    let result := ((Opener.mk keys policy').decrypt tampered).result
    (position = 0 → result = .error (.unsupportedVersion 1 value.toNat)) ∧
    (position = 1 → ∃ e, result = .error e ∧ e.kind = .crypto) ∧
    (position = 1 → value ∈ [2, 3, 5] →
      keys.sealingKey tampered = .ok key ∧ result = .error (.crypto .notAuthentic)) ∧
    (36 ≤ position → position < 36 + envelope.path.utf8ByteSize →
      ∀ path' place', Bytes.ofText path' = (Bytes.ofText envelope.path).set (position - 36) value →
        Path.parse path' = .ok place' → place'.childNumbers = place.childNumbers →
          result = .error (.crypto .notAuthentic)) ∧
    (envelope.header.length ≤ position → result = .error (.crypto .notAuthentic)) := by
  intro tampered result
  obtain ⟨header, nonce, ciphertext, receiver, plaintext, opens, rfl, rfl⟩ :=
    exists_opens accepted haddress hkey hbytes
  refine ⟨?_, ?_, ?_, ?_, ?_⟩
  · rintro rfl
    have hne : value ≠ Envelope.version := Ne.symm hvalue
    exact result_decrypt_of_ne_version policy' hne _
  · rintro rfl
    obtain ⟨same, none_found⟩ := opens.set_one nonzero hposition hvalue policy'
    by_cases hmem : value ∈ [2, 3, 5]
    · exact ⟨_, (same hmem).2, rfl⟩
    · exact ⟨_, none_found hmem, rfl⟩
  · rintro rfl
    exact (opens.set_one nonzero hposition hvalue policy').1
  · intro hmin hmax path' place' hpath hplace hnumbers
    exact opens.set_path nonzero labels hmin hmax hposition hvalue hpath hplace hnumbers policy'
  · intro hbehind
    exact opens.set_behind_header nonzero hbehind hposition hvalue policy'

/-- One label for another in a message to the key `5` at `m/7'`. -/
theorem decrypt_changed_byte_of_label :
    let receiver : PrivateKey := ⟨⟨5, by decide⟩⟩
    let keys := KeyTree.below ⟨receiver, .ofNat 32 0, ⟨[⟨none, 7, true, by decide⟩], by decide⟩⟩
    let place : Path := ⟨[⟨some "a", 7, true, by decide⟩], by decide⟩
    keys.IgnoresLabels ∧ ∃ text bytes envelope key,
      ((Opener.mk keys .anyone).decrypt text).result = .ok [104, 105] ∧
      address text = .ok (envelope, place) ∧ keys.sealingKey text = .ok key ∧
      Gcm.hashKey (Aes.Schedule.ofKey key.bytes) ≠ 0 ∧ Envelope.decodeText text = .ok bytes ∧
      bytes[38]? = some 97 ∧
      ((Opener.mk keys .receiverOnly).decrypt
        (Envelope.encodeText (bytes.set 38 98))).result = .error (.crypto .notAuthentic) := by
  intro receiver keys place
  have labels : keys.IgnoresLabels := KeyTree.ignoresLabels_below _
  let ephemeral : EphemeralKey := ⟨⟨⟨11, by decide⟩⟩⟩
  let sealer : Sealer := ⟨⟨⟨7, by decide⟩⟩, receiver.publicKey, "m/a:7h", ⟨12⟩, rfl⟩
  have size : sealer.receiverPath.utf8ByteSize ≤ Envelope.maxPathSize := by decide +kernel
  have parsed : Path.parse sealer.receiverPath = .ok place := by decide +kernel
  have nonzero : Gcm.hashKey (Aes.Schedule.ofKey
      (ephemeral.agree receiver.publicKey).sealingKey.bytes) ≠ 0 := by decide +kernel
  have label : (sealer.header ephemeral).bytes[38]? = some 97 := by decide +kernel
  obtain ⟨signature, hsign⟩ : ∃ signature, Signature.sign ⟨⟨7, by decide⟩⟩
      (SignedPayload.digest [104, 105] receiver.publicKey) = .ok signature :=
    SignedPayload.exists_sign_for_five
  have hnonce : (List.replicate 12 (0 : UInt8)).length = sealer.settings.nonceSize := rfl
  have found : (keys place).result = .ok receiver :=
    KeyTree.result_below_of_childNumbers_eq rfl
  obtain ⟨text, bytes, envelope, accepted, haddress, hkey, hbytes, starts, hpath⟩ :=
    exists_accepted ephemeral (by decide) size hsign hnonce parsed found rfl
  have stands : bytes[38]? = some 97 := by
    obtain ⟨back, rfl⟩ := starts
    rwa [List.getElem?_append_left (List.getElem?_eq_some_iff.1 label).1]
  obtain ⟨hposition, hvalue⟩ := List.getElem?_eq_some_iff.1 stands
  have differs : bytes[38] ≠ 98 := by
    rw [hvalue]
    decide
  have refused := (decrypt_changed_byte labels accepted haddress hkey nonzero hbytes hposition
    differs .receiverOnly).2.2.2.1
  rw [hpath] at refused
  exact ⟨labels, text, bytes, envelope, _, accepted, haddress, hkey, nonzero, hbytes, stands,
    refused (by decide) (by decide +kernel) "m/b:7h"
      ⟨[⟨some "b", 7, true, by decide⟩], by decide⟩ (by decide +kernel) (by decide +kernel) rfl⟩

end Opener

end SealedMail
