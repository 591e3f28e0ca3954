import SealedMail.Proofs.Message.Delivery

/-!
# Policies about signers

The policy of an opener comes into play last. An opening fails for a cause that all policies share,
or the policy decides about one signer (`Opener.result_decrypt_cases`), the one that is recovered
from what the text holds (`Opener.result_decrypt_only_eq_ok_iff`). Main statement:
`Opener.decrypt_of_policy`.
-/

namespace SealedMail

theorem SignedPayload.digest_eq (payload : Bytes) (receiver : PublicKey) :
    digest payload receiver = Digest.hash (payload ++ receiver.compressed) := by
  simp [digest, Digest.hashConcat]

theorem KeyTree.result_publicKey {keys : KeyTree} {place : Path} {receiver : PrivateKey}
    (h : (keys place).result = .ok receiver) :
    (keys.publicKey place).result = .ok receiver.publicKey := by
  rw [publicKey, Traced.result_bind, h, ok_bind, Traced.result_pure]

/-- A policy that expects one signer passes a payload on from that signer only. -/
theorem SenderPolicy.map_check {policy : SenderPolicy} {receiver key : PublicKey}
    (h : policy.expected receiver = some key) (signer : PublicKey) (payload : Bytes) :
    ((policy.check receiver signer).map fun _ => payload) =
      if signer = key then .ok payload else .error .unexpectedSigner := by
  rw [check, h]
  by_cases same : signer = key <;> simp [same]

theorem SenderPolicy.eq_of_map_check {policy : SenderPolicy} {receiver signer : PublicKey}
    {payload payload' : Bytes}
    (h : ((policy.check receiver signer).map fun _ => payload) = .ok payload') :
    payload = payload' := by
  cases hcheck : policy.check receiver signer with
  | error e => simp [hcheck] at h
  | ok checked => simpa [hcheck] using h

namespace Opener

/-- Opening fails for a cause that does not depend on the policy, or the policy decides about the
signer of what the text holds. -/
theorem result_decrypt_cases (keys : KeyTree) (text : String) :
    (∃ e, ∀ policy, ((Opener.mk keys policy).decrypt text).result = .error e) ∨
    ∃ receiver signed signer, inspect keys text = .ok (receiver, signed) ∧
      signed.signer receiver.publicKey = .ok signer ∧
      ∀ policy, ((Opener.mk keys policy).decrypt text).result =
        (policy.check receiver.publicKey signer).map fun _ => signed.payload := by
  simp only [result_decrypt_eq_inspect]
  cases hfound : inspect keys text with
  | error e => exact Or.inl ⟨e, fun _ => rfl⟩
  | ok found =>
      obtain ⟨receiver, signed⟩ := found
      cases hsigner : signed.signer receiver.publicKey with
      | error e => exact Or.inl ⟨e, fun _ => by simp [hsigner]⟩
      | ok signer =>
          exact Or.inr ⟨receiver, signed, signer, rfl, hsigner, fun _ => by simp [hsigner]⟩

/-- One signer is accepted exactly if the signature in the text recovers that signer. -/
theorem result_decrypt_only_eq_ok_iff {keys : KeyTree} {text : String} {signer : PublicKey}
    {payload : Bytes} :
    ((Opener.mk keys (.only signer)).decrypt text).result = .ok payload ↔
      ∃ receiver signed, inspect keys text = .ok (receiver, signed) ∧ signed.payload = payload ∧
        Signature.recover signed.signature
          (Digest.hash (payload ++ receiver.publicKey.compressed)) = .ok signer := by
  rw [result_decrypt_eq_inspect]
  constructor
  · intro h
    obtain ⟨⟨receiver, signed⟩, hfound, h⟩ := bind_eq_ok_iff.1 h
    obtain ⟨recovered, hrecovered, h⟩ := bind_eq_ok_iff.1 h
    rw [SenderPolicy.map_check rfl] at h
    split_ifs at h with same
    cases h
    subst same
    refine ⟨receiver, signed, hfound, rfl, ?_⟩
    rw [← SignedPayload.digest_eq]
    exact SignedPayload.signer_eq_ok_iff.1 hrecovered
  · rintro ⟨receiver, signed, hfound, rfl, hrecover⟩
    rw [← SignedPayload.digest_eq] at hrecover
    rw [hfound, ok_bind, SignedPayload.signer_eq_ok_iff.2 hrecover, ok_bind,
      SenderPolicy.map_check rfl, if_pos rfl]

/-- What is enclosed with an ephemeral key and a nonce opens for the sender. -/
theorem exists_text_enclosed {keys : KeyTree} {sealer : Sealer} {place : Path}
    {receiver : PrivateKey} {payload nonce : Bytes} {signature : Signature}
    (ephemeral : EphemeralKey) (hpayload : payload.length ≤ Field.maxSize)
    (hpath : sealer.receiverPath.utf8ByteSize ≤ Envelope.maxPathSize)
    (hsign : Signature.sign sealer.sender (SignedPayload.digest payload sealer.receiver) =
      .ok signature)
    (hnonce : nonce.length = sealer.settings.nonceSize)
    (hplace : Path.parse sealer.receiverPath = .ok place)
    (hkeys : (keys place).result = .ok receiver)
    (hreceiver : sealer.receiver = receiver.publicKey) :
    ∃ text, inspect keys text = .ok (receiver, ⟨signature.bytes, payload⟩) ∧
      ((Opener.mk keys (.only sealer.sender.publicKey)).decrypt text).result = .ok payload := by
  have found := inspect_enclosed ephemeral hpayload hpath hsign
    (Sealer.plaintext_eq hpayload hpath hsign) hnonce hplace hkeys hreceiver
  refine ⟨_, found, result_decrypt_only_eq_ok_iff.2 ⟨receiver, _, found, rfl, ?_⟩⟩
  rw [← SignedPayload.digest_eq, ← hreceiver]
  exact Signature.recover_sign hsign

/-- The policies only filter on one signer. What fails without a demand on the signer fails for the
same cause under every policy. A text that opens to a payload has one signer: trusting that signer
opens it, trusting any other is refused, and trusting the receiver alone opens it exactly if the
signer is the public key at the place written in the text. No policy opens it to anything else, and
what opens for a trusted signer is signed by that signer for the receiver. -/
theorem decrypt_of_policy (keys : KeyTree) (text : String) :
    let result (policy : SenderPolicy) := ((Opener.mk keys policy).decrypt text).result
    (∀ e, result .anyone = .error e → ∀ policy, result policy = .error e) ∧
    (∀ payload, result .anyone = .ok payload →
      ∃ signer envelope place own, address text = .ok (envelope, place) ∧
        (keys.publicKey place).result = .ok own ∧
        result (.only signer) = .ok payload ∧
        (∀ other, other ≠ signer → result (.only other) = .error .unexpectedSigner) ∧
        result .receiverOnly =
          (if signer = own then .ok payload else .error .unexpectedSigner)) ∧
    (∀ policy payload, result policy = .ok payload → result .anyone = .ok payload) ∧
    (∀ signer payload, result (.only signer) = .ok payload →
      ∃ receiver signed, inspect keys text = .ok (receiver, signed) ∧ signed.payload = payload ∧
        Signature.recover signed.signature
          (Digest.hash (payload ++ receiver.publicKey.compressed)) = .ok signer) := by
  intro result
  -- Up to the signer no policy is asked, so what all policies have in common settles each part.
  refine ⟨?_, ?_, ?_, fun signer payload h => result_decrypt_only_eq_ok_iff.1 h⟩
  · intro e he policy
    rcases result_decrypt_cases keys text with
      ⟨cause, failed⟩ | ⟨receiver, signed, signer, -, -, decided⟩
    · rw [← he]
      exact (failed policy).trans (failed .anyone).symm
    · cases (decided .anyone).symm.trans he
  · intro payload h
    rcases result_decrypt_cases keys text with
      ⟨cause, failed⟩ | ⟨receiver, signed, signer, hfound, -, decided⟩
    · cases (failed .anyone).symm.trans h
    · obtain rfl : signed.payload = payload := Except.ok.inj ((decided .anyone).symm.trans h)
      obtain ⟨envelope, place, plaintext, haddress, hkeys, -⟩ := inspect_eq_ok_iff.1 hfound
      have filtered {policy : SenderPolicy} {key : PublicKey}
          (expects : policy.expected receiver.publicKey = some key) :
          result policy =
            if signer = key then .ok signed.payload else .error .unexpectedSigner :=
        (decided policy).trans (SenderPolicy.map_check expects signer signed.payload)
      refine ⟨signer, envelope, place, receiver.publicKey, haddress,
        KeyTree.result_publicKey hkeys, ?_, ?_, filtered rfl⟩
      · rw [filtered rfl, if_pos rfl]
      · intro other hother
        rw [filtered rfl, if_neg (Ne.symm hother)]
  · intro policy payload h
    rcases result_decrypt_cases keys text with
      ⟨cause, failed⟩ | ⟨receiver, signed, signer, -, -, decided⟩
    · cases (failed policy).symm.trans h
    · obtain rfl := SenderPolicy.eq_of_map_check ((decided policy).symm.trans h)
      exact decided .anyone

/-- A text that is not base-58, and a message from the key `7` to the key `5`. -/
theorem decrypt_of_policy_of_two_texts :
    let sender : PrivateKey := ⟨⟨7, by decide⟩⟩
    let receiver : PrivateKey := ⟨⟨5, by decide⟩⟩
    let keys := KeyTree.single receiver
    (∀ policy, ((Opener.mk keys policy).decrypt "0").result =
      .error (.notBase58 (.badCharacter '0' 0))) ∧
    ∃ text, ((Opener.mk keys (.only sender.publicKey)).decrypt text).result = .ok [104, 105] ∧
      ((Opener.mk keys .anyone).decrypt text).result = .ok [104, 105] ∧
      ((Opener.mk keys .receiverOnly).decrypt text).result = .error .unexpectedSigner ∧
      ∃ opened signed, inspect keys text = .ok (opened, signed) ∧ signed.payload = [104, 105] ∧
        Signature.recover signed.signature
          (Digest.hash ([104, 105] ++ opened.publicKey.compressed)) = .ok sender.publicKey := by
  intro sender receiver keys
  have unread : ((Opener.mk keys .anyone).decrypt "0").result =
      .error (.notBase58 (.badCharacter '0' 0)) := by decide +kernel
  obtain ⟨signature, hsign⟩ : ∃ signature, Signature.sign sender
      (SignedPayload.digest [104, 105] receiver.publicKey) = .ok signature :=
    SignedPayload.exists_sign_for_five
  let sealer : Sealer := ⟨sender, receiver.publicKey, "m/a:7h", ⟨12⟩, rfl⟩
  let place : Path := ⟨[⟨some "a", 7, true, by decide⟩], by decide⟩
  have size : sealer.receiverPath.utf8ByteSize ≤ Envelope.maxPathSize := by decide +kernel
  have parsed : Path.parse sealer.receiverPath = .ok place := by decide +kernel
  have found : (keys place).result = .ok receiver := rfl
  have hnonce : (List.replicate 12 (0 : UInt8)).length = sealer.settings.nonceSize := rfl
  obtain ⟨text, -, trusted⟩ := exists_text_enclosed ⟨⟨⟨11, by decide⟩⟩⟩ (by decide) size hsign
    hnonce parsed found rfl
  obtain ⟨filtered, -, -, -⟩ := decrypt_of_policy keys "0"
  obtain ⟨-, one_signer, same_payload, signed_for⟩ := decrypt_of_policy keys text
  have accepted := same_payload _ _ trusted
  obtain ⟨signer, -, place', own, -, hown, -, others, of_receiver⟩ := one_signer _ accepted
  obtain rfl : sender.publicKey = signer := by
    by_contra different
    cases (others _ different).symm.trans trusted
  have single : (keys.publicKey place').result = .ok receiver.publicKey :=
    KeyTree.result_publicKey rfl
  obtain rfl : receiver.publicKey = own := Except.ok.inj (single.symm.trans hown)
  have different : sender.publicKey ≠ receiver.publicKey := by decide +kernel
  rw [if_neg different] at of_receiver
  exact ⟨filtered _ unread, text, trusted, accepted, of_receiver, signed_for _ _ trusted⟩

end Opener

end SealedMail
