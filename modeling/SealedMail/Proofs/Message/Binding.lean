import SealedMail.Proofs.Derivation.Descent
import SealedMail.Proofs.Message.Policies

/-!
# What a signature binds

A digest covers a payload and the receiver's key without a length between them. The key has a fixed
width and comes last, so the two can be told apart (`SignedPayload.append_compressed_inj`), and one
signature leads to one signer only for digests that are congruent. Main statement:
`Opener.signature_binds_receiver`.
-/

namespace SealedMail

open Curve

/-- The bytes that are hashed determine the payload and the receiver. -/
theorem SignedPayload.append_compressed_inj {payload payload' : Bytes}
    {receiver receiver' : PublicKey}
    (h : payload ++ receiver.compressed = payload' ++ receiver'.compressed) :
    payload = payload' ∧ receiver = receiver' := by
  have width : receiver.compressed.length = receiver'.compressed.length := by simp
  obtain ⟨rfl, same⟩ := List.append_inj' h width
  exact ⟨rfl, PublicKey.compressed_injective same⟩

namespace Opener

/-- A signature binds the receiver. If it recovers one signer from two digests, the digests are
congruent modulo the group order. So two texts that hold this signature and open for this signer
have congruent digests, whatever the key trees are, and they hash the same bytes only for the same
payload and the same receiver. -/
theorem signature_binds_receiver (signature : Bytes) (signer : PublicKey) :
    (∀ digest digest', Signature.recover signature digest = .ok signer →
      Signature.recover signature digest' = .ok signer →
        Bytes.value digest.bytes ≡ Bytes.value digest'.bytes [MOD groupOrder]) ∧
    ∀ keys keys' text text' receiver receiver' payload payload',
      inspect keys text = .ok (receiver, ⟨signature, payload⟩) →
      inspect keys' text' = .ok (receiver', ⟨signature, payload'⟩) →
      ((Opener.mk keys (.only signer)).decrypt text).result = .ok payload →
      ((Opener.mk keys' (.only signer)).decrypt text').result = .ok payload' →
        let hashed := payload ++ receiver.publicKey.compressed
        let hashed' := payload' ++ receiver'.publicKey.compressed
        Bytes.value (Digest.hash hashed).bytes ≡ Bytes.value (Digest.hash hashed').bytes
            [MOD groupOrder] ∧
          (hashed = hashed' → payload = payload' ∧ receiver = receiver') := by
  have congruent {digest digest' : Digest} (h : Signature.recover signature digest = .ok signer)
      (h' : Signature.recover signature digest' = .ok signer) :
      Bytes.value digest.bytes ≡ Bytes.value digest'.bytes [MOD groupOrder] :=
    Signature.residue_eq_iff.1 (Signature.residue_eq_of_recover h h')
  -- What opens for one signer is signed by that signer for the receiver.
  have recovered {keys : KeyTree} {text : String} {receiver : PrivateKey} {payload : Bytes}
      (found : inspect keys text = .ok (receiver, ⟨signature, payload⟩))
      (opened : ((Opener.mk keys (.only signer)).decrypt text).result = .ok payload) :
      Signature.recover signature (Digest.hash (payload ++ receiver.publicKey.compressed)) =
        .ok signer := by
    obtain ⟨receiver', signed, found', -, hrecover⟩ := result_decrypt_only_eq_ok_iff.1 opened
    obtain ⟨rfl, rfl⟩ := Prod.mk.inj (Except.ok.inj (found'.symm.trans found))
    exact hrecover
  refine ⟨fun digest digest' => congruent, ?_⟩
  intro keys keys' text text' receiver receiver' payload payload' found found' opened opened'
    hashed hashed'
  refine ⟨congruent (recovered found opened) (recovered found' opened'), fun same => ?_⟩
  obtain ⟨samePayload, sameKey⟩ := SignedPayload.append_compressed_inj same
  exact ⟨samePayload, PrivateKey.publicKey_injective sameKey⟩

/-- Two digests that differ by the group order; and two messages from the key `7` to the key `5`, at
different paths and with nonces of different sizes. -/
theorem signature_binds_receiver_of_two_texts :
    let signer := PrivateKey.publicKey ⟨⟨7, by decide⟩⟩
    let receiver : PrivateKey := ⟨⟨5, by decide⟩⟩
    let keys := KeyTree.single receiver
    let keys' := KeyTree.below ⟨receiver, .ofNat 32 0, ⟨[⟨none, 7, true, by decide⟩], by decide⟩⟩
    let hashed := [104, 105] ++ receiver.publicKey.compressed
    let low : Digest := ⟨.ofNat 32 5⟩
    let high : Digest := ⟨.ofNat 32 (5 + groupOrder)⟩
    low ≠ high ∧
    (∃ signature, Signature.recover signature low = .ok signer ∧
      Signature.recover signature high = .ok signer ∧
      Bytes.value low.bytes ≡ Bytes.value high.bytes [MOD groupOrder]) ∧
    ∃ signature text text',
      inspect keys text = .ok (receiver, ⟨signature, [104, 105]⟩) ∧
      inspect keys' text' = .ok (receiver, ⟨signature, [104, 105]⟩) ∧
      ((Opener.mk keys (.only signer)).decrypt text).result = .ok [104, 105] ∧
      ((Opener.mk keys' (.only signer)).decrypt text').result = .ok [104, 105] ∧
      Bytes.value (Digest.hash hashed).bytes ≡ Bytes.value (Digest.hash hashed).bytes
        [MOD groupOrder] := by
  intro signer receiver keys keys' hashed low high
  have distinct : low ≠ high := by decide +kernel
  have residues : Signature.residue low = Signature.residue high := by decide +kernel
  have signs : (Signature.signWith ⟨3, by decide⟩ ⟨⟨7, by decide⟩⟩ low).isSome = true := by
    decide +kernel
  obtain ⟨written, hwritten⟩ := Option.isSome_iff_exists.1 signs
  have recovered := Signature.recover_signWith hwritten
  have recovered' := (Signature.recover_congr written.bytes residues).symm.trans recovered
  obtain ⟨congruent, -⟩ := signature_binds_receiver written.bytes signer
  refine ⟨distinct, ⟨_, recovered, recovered', congruent _ _ recovered recovered'⟩, ?_⟩
  obtain ⟨signature, hsign⟩ : ∃ signature, Signature.sign ⟨⟨7, by decide⟩⟩
      (SignedPayload.digest [104, 105] receiver.publicKey) = .ok signature :=
    SignedPayload.exists_sign_for_five
  let sealer : Sealer := ⟨⟨⟨7, by decide⟩⟩, receiver.publicKey, "m/0", ⟨13⟩, rfl⟩
  let sealer' : Sealer := ⟨⟨⟨7, by decide⟩⟩, receiver.publicKey, "m/a:7h", ⟨12⟩, rfl⟩
  have size : sealer.receiverPath.utf8ByteSize ≤ Envelope.maxPathSize := by decide +kernel
  have size' : sealer'.receiverPath.utf8ByteSize ≤ Envelope.maxPathSize := by decide +kernel
  have hnonce : (List.replicate 13 (0 : UInt8)).length = sealer.settings.nonceSize := rfl
  have hnonce' : (List.replicate 12 (0 : UInt8)).length = sealer'.settings.nonceSize := rfl
  have parsed : Path.parse sealer.receiverPath =
      .ok ⟨[⟨none, 0, false, by decide⟩], by decide⟩ := by decide +kernel
  have parsed' : Path.parse sealer'.receiverPath =
      .ok ⟨[⟨some "a", 7, true, by decide⟩], by decide⟩ := by decide +kernel
  obtain ⟨text, found, opened⟩ := exists_text_enclosed ⟨⟨⟨11, by decide⟩⟩⟩ (by decide) size hsign
    hnonce parsed (rfl : (keys _).result = .ok receiver) rfl
  have reached' : (keys' ⟨[⟨some "a", 7, true, by decide⟩], by decide⟩).result = .ok receiver :=
    KeyTree.result_below_of_childNumbers_eq rfl
  obtain ⟨text', found', opened'⟩ := exists_text_enclosed ⟨⟨⟨13, by decide⟩⟩⟩ (by decide) size'
    hsign hnonce' parsed' reached' rfl
  obtain ⟨-, bound⟩ := signature_binds_receiver signature.bytes signer
  obtain ⟨congruent', -⟩ := bound keys keys' text text' receiver receiver _ _ found found' opened
    opened'
  exact ⟨signature.bytes, text, text', found, found', opened, opened', congruent'⟩

end Opener

end SealedMail
