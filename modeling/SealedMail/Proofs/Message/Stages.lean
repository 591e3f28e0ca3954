import SealedMail.Message.Opener
import SealedMail.Proofs.Curve.Agreement
import SealedMail.Proofs.Cipher.Sealing
import SealedMail.Proofs.Message.Canonical

/-!
# The stages of opening

The result of opening a text is that of reading it, asking the key tree, and revealing the payload
(`Opener.result_decrypt`). Each stage is described by what it accepts: a text that is read is the
text of the bytes of an envelope (`Opener.address_eq_ok_iff`), and an envelope that is unlocked
carries a sealed plaintext (`Opener.unlock_eq_ok_iff`). The receiver's key and the signed payload
are found without the policy (`Opener.inspect`), which comes last
(`Opener.result_decrypt_eq_inspect`).
-/

namespace SealedMail

namespace Opener

/-- The result of opening, stage by stage. -/
theorem result_decrypt (opener : Opener) (text : String) :
    (opener.decrypt text).result =
      address text >>= fun found =>
        (opener.keys found.2).result.mapError .derivation >>= fun receiver =>
          reveal opener.policy receiver found.1 := by
  -- The report of a success changes nothing.
  have reported (revealed : Except MessageError Bytes) :
      (revealed >>= fun payload => Except.ok () >>= fun _ => .ok payload) = revealed := by
    cases revealed <;> rfl
  simp only [decrypt, receive, Traced.result_emitOnError, Traced.result_bind,
    Traced.result_ofExcept, Traced.result_mapError, Traced.result_emit, Traced.result_pure,
    reported]

theorem result_decrypt_eq_ok_iff {opener : Opener} {text : String} {payload : Bytes} :
    (opener.decrypt text).result = .ok payload ↔
      ∃ envelope path receiver, address text = .ok (envelope, path) ∧
        (opener.keys path).result = .ok receiver ∧
        reveal opener.policy receiver envelope = .ok payload := by
  rw [result_decrypt]
  simp only [bind_eq_ok_iff, mapError_eq_ok_iff, Prod.exists]
  constructor
  · intro h
    rcases h with ⟨envelope, path, haddress, receiver, hkeys, hreveal⟩
    exact ⟨envelope, path, receiver, haddress, hkeys, hreveal⟩
  · intro h
    rcases h with ⟨envelope, path, receiver, haddress, hkeys, hreveal⟩
    exact ⟨envelope, path, haddress, receiver, hkeys, hreveal⟩

theorem address_eq_ok_iff {text : String} {envelope : Envelope} {path : Path} :
    address text = .ok (envelope, path) ↔
      ∃ bytes, text = Envelope.encodeText bytes ∧ Envelope.parse bytes = .ok envelope ∧
        Path.parse envelope.path = .ok path := by
  simp only [address, bind_eq_ok_iff, Envelope.decodeText_eq_ok_iff, mapError_eq_ok_iff,
    pure_eq_ok, Except.ok.injEq, Prod.mk.injEq]
  constructor
  · intro h
    rcases h with ⟨bytes, htext, envelope, hparse, path, hpath, rfl, rfl⟩
    exact ⟨bytes, htext, hparse, hpath⟩
  · intro read
    rcases read with ⟨bytes, htext, hparse, hpath⟩
    exact ⟨bytes, htext, envelope, hparse, path, hpath, rfl, rfl⟩

theorem address_encodeText_eq_ok_iff {bytes : Bytes} {envelope : Envelope} {path : Path} :
    address (Envelope.encodeText bytes) = .ok (envelope, path) ↔
      Envelope.parse bytes = .ok envelope ∧ Path.parse envelope.path = .ok path := by
  rw [address_eq_ok_iff]
  constructor
  · intro read
    rcases read with ⟨bytes', htext, hparse, hpath⟩
    have same := Envelope.decodeText_eq_ok_iff.2 htext
    rw [Envelope.decodeText_encodeText] at same
    obtain rfl := Except.ok.inj same
    exact ⟨hparse, hpath⟩
  · intro read
    rcases read with ⟨hparse, hpath⟩
    exact ⟨bytes, rfl, hparse, hpath⟩

/-- The text of a header, a nonce and a ciphertext is read as the envelope they make up. -/
theorem address_layout (header : Header) {nonce : Bytes} (ciphertext : Bytes) {place : Path}
    (hsize : header.path.utf8ByteSize ≤ Envelope.maxPathSize)
    (hnonce : header.nonceSize = nonce.length) (hmin : Gcm.minNonceSize ≤ nonce.length)
    (hmax : nonce.length ≤ Field.maxSize) (hplace : Path.parse header.path = .ok place) :
    address (Envelope.encodeText (header.bytes ++ nonce ++ ciphertext)) =
      .ok (.ofHeader header nonce ciphertext, place) :=
  address_encodeText_eq_ok_iff.2 ⟨Envelope.parse_eq_ok_iff.2
    ⟨header, nonce, ciphertext, hsize, hnonce, hmin, hmax, rfl, rfl⟩, hplace⟩

/-- An envelope is unlocked exactly if it carries a plaintext sealed under the agreed key. -/
theorem unlock_eq_ok_iff {receiver : PrivateKey} {envelope : Envelope} {plaintext : Bytes} :
    unlock receiver envelope = .ok plaintext ↔
      ∃ key, SharedSecret.recoverSealingKey receiver envelope.ephemeral = .ok key ∧
        Gcm.sealWith key envelope.nonce plaintext envelope.header = .ok envelope.ciphertext := by
  simp only [unlock, bind_eq_ok_iff, mapError_eq_ok_iff, Gcm.openWith_eq_ok_iff]

theorem unlock_of_recover {receiver : PrivateKey} {envelope : Envelope} {key : SealingKey}
    (h : SharedSecret.recoverSealingKey receiver envelope.ephemeral = .ok key) :
    unlock receiver envelope =
      (Gcm.openWith key envelope.nonce envelope.ciphertext envelope.header).mapError .crypto := by
  rw [unlock, h, mapError_ok, ok_bind]

theorem reveal_eq_ok_iff {policy : SenderPolicy} {receiver : PrivateKey} {envelope : Envelope}
    {payload : Bytes} :
    reveal policy receiver envelope = .ok payload ↔
      ∃ plaintext signed signer, unlock receiver envelope = .ok plaintext ∧
        SignedPayload.parse plaintext = .ok signed ∧
        signed.signer receiver.publicKey = .ok signer ∧
        policy.check receiver.publicKey signer = .ok () ∧ signed.payload = payload := by
  simp only [reveal, bind_eq_ok_iff, pure_eq_ok, Except.ok.injEq]
  constructor
  · intro h
    rcases h with ⟨plaintext, hunlock, signed, hparse, signer, hsigner, ⟨⟩, hcheck, hpayload⟩
    exact ⟨plaintext, signed, signer, hunlock, hparse, hsigner, hcheck, hpayload⟩
  · intro h
    rcases h with ⟨plaintext, signed, signer, hunlock, hparse, hsigner, hcheck, hpayload⟩
    exact ⟨plaintext, hunlock, signed, hparse, signer, hsigner, (), hcheck, hpayload⟩

/-! ## What a text holds -/

/-- The receiver's key and the signed payload that a text holds for a key tree. -/
def inspect (keys : KeyTree) (text : String) :
    Except MessageError (PrivateKey × SignedPayload) := do
  let (envelope, place) ← address text
  let receiver ← (keys place).result.mapError .derivation
  let signed ← SignedPayload.parse (← unlock receiver envelope)
  return (receiver, signed)

theorem inspect_eq_ok_iff {keys : KeyTree} {text : String} {receiver : PrivateKey}
    {signed : SignedPayload} :
    inspect keys text = .ok (receiver, signed) ↔
      ∃ envelope place plaintext, address text = .ok (envelope, place) ∧
        (keys place).result = .ok receiver ∧ unlock receiver envelope = .ok plaintext ∧
        SignedPayload.parse plaintext = .ok signed := by
  simp only [inspect, bind_eq_ok_iff, mapError_eq_ok_iff, pure_eq_ok, Except.ok.injEq,
    Prod.exists, Prod.mk.injEq]
  constructor
  · intro h
    rcases h with ⟨envelope, place, haddress, _, hkeys, plaintext, hunlock, _, hparse, rfl, rfl⟩
    exact ⟨envelope, place, plaintext, haddress, hkeys, hunlock, hparse⟩
  · intro h
    rcases h with ⟨envelope, place, plaintext, haddress, hkeys, hunlock, hparse⟩
    exact ⟨envelope, place, haddress, receiver, hkeys, plaintext, hunlock, signed, hparse, rfl,
      rfl⟩

/-- The policy comes last: it is asked about the signer of what the text holds. -/
theorem result_decrypt_eq_inspect (opener : Opener) (text : String) :
    (opener.decrypt text).result =
      inspect opener.keys text >>= fun found =>
        found.2.signer found.1.publicKey >>= fun signer =>
          (opener.policy.check found.1.publicKey signer).map fun _ => found.2.payload := by
  rw [result_decrypt, inspect]
  -- Both sides go through the same stages, and stop at the same one.
  cases address text with
  | error e => rfl
  | ok found =>
      obtain ⟨envelope, place⟩ := found
      simp only [ok_bind]
      cases (opener.keys place).result with
      | error e => rfl
      | ok receiver =>
          simp only [mapError_ok, ok_bind, reveal]
          cases unlock receiver envelope with
          | error e => rfl
          | ok plaintext =>
              simp only [ok_bind]
              cases SignedPayload.parse plaintext with
              | error e => rfl
              | ok signed =>
                  simp only [ok_bind, pure_eq_ok]
                  cases signed.signer receiver.publicKey with
                  | error e => rfl
                  | ok signer =>
                      simp only [ok_bind]
                      cases opener.policy.check receiver.publicKey signer <;> rfl

end Opener

end SealedMail
