import SealedMail.Proofs.Message.Stages

/-!
# What an opener accepts

An opener returns a payload for a text exactly if the text encodes a header, a nonce and a sealed
plaintext that begins with the payload and a signature over it, from which the policy accepts the
signer (`Opener.result_decrypt_eq_ok_iff_sealed`). Without a demand on the signer, every signature
that a key can be recovered from will do (`Opener.decrypt_anyone_eq_ok_iff`).
-/

namespace SealedMail

theorem SignedPayload.signer_eq_ok_iff {signed : SignedPayload} {receiver signer : PublicKey} :
    signed.signer receiver = .ok signer ↔
      Signature.recover signed.signature (digest signed.payload receiver) = .ok signer := by
  rw [SignedPayload.signer, mapError_eq_ok_iff]

namespace Opener

/-- Exactly the texts of sealed and signed payloads with an accepted signer are opened. -/
theorem result_decrypt_eq_ok_iff_sealed {opener : Opener} {text : String} {payload : Bytes} :
    (opener.decrypt text).result = .ok payload ↔
      ∃ (ephemeral : Octets 33) (path : String) (nonce signature trailing : Bytes)
        (place : Path) (receiver : PrivateKey) (head : Bytes) (key : SealingKey)
        (written ciphertext : Bytes) (signer : PublicKey),
        Path.parse path = .ok place ∧
        (opener.keys place).result = .ok receiver ∧
        Header.encode ⟨ephemeral, path, nonce.length⟩ = .ok head ∧
        SharedSecret.recoverSealingKey receiver ephemeral.bytes = .ok key ∧
        SignedPayload.encode ⟨signature, payload⟩ = .ok written ∧
        Gcm.sealWith key nonce (written ++ trailing) head = .ok ciphertext ∧
        text = Envelope.encodeText (head ++ nonce ++ ciphertext) ∧
        Signature.recover signature (SignedPayload.digest payload receiver.publicKey) =
          .ok signer ∧
        opener.policy.check receiver.publicKey signer = .ok () := by
  rw [result_decrypt_eq_ok_iff]
  constructor
  · intro h
    rcases h with ⟨envelope, place, receiver, haddress, hkeys, hreveal⟩
    -- Each stage that succeeded tells what its input was made from.
    obtain ⟨bytes, rfl, hparse, hplace⟩ := address_eq_ok_iff.1 haddress
    obtain ⟨plaintext, signed, signer, hunlock, hsigned, hsigner, hcheck, rfl⟩ :=
      reveal_eq_ok_iff.1 hreveal
    obtain ⟨header, nonce, ciphertext, hsize, hnonce, -, hmax, rfl, rfl⟩ :=
      Envelope.parse_eq_ok_iff.1 hparse
    obtain ⟨key, hkey, hseal⟩ := unlock_eq_ok_iff.1 hunlock
    obtain ⟨written, trailing, hwritten, rfl⟩ := SignedPayload.parse_eq_ok_iff.1 hsigned
    obtain ⟨ephemeral, path, nonceSize⟩ := header
    obtain rfl : nonceSize = nonce.length := hnonce
    exact ⟨ephemeral, path, nonce, signed.signature, trailing, place, receiver, _, key, written,
      ciphertext, signer, hplace, hkeys, Header.encode_ok_iff.2 ⟨hsize, hmax, rfl⟩, hkey, hwritten,
      hseal, rfl, SignedPayload.signer_eq_ok_iff.1 hsigner, hcheck⟩
  · rintro ⟨ephemeral, path, nonce, signature, trailing, place, receiver, head, key, written,
      ciphertext, signer, hplace, hkeys, hhead, hkey, hwritten, hseal, rfl, hrecover, hcheck⟩
    obtain ⟨hsize, hmax, rfl⟩ := Header.encode_ok_iff.1 hhead
    have hmin : Gcm.minNonceSize ≤ nonce.length := (Gcm.sealWith_eq_ok_iff.1 hseal).1
    have haddress := address_layout ⟨ephemeral, path, nonce.length⟩ ciphertext hsize rfl hmin hmax
      hplace
    refine ⟨_, place, receiver, haddress, hkeys, ?_⟩
    have hunlock : unlock receiver (.ofHeader ⟨ephemeral, path, nonce.length⟩ nonce ciphertext) =
        .ok (written ++ trailing) := unlock_eq_ok_iff.2 ⟨key, hkey, hseal⟩
    have hsigned := SignedPayload.parse_eq_ok_iff.2 ⟨written, trailing, hwritten, rfl⟩
    exact reveal_eq_ok_iff.2 ⟨_, _, signer, hunlock, hsigned,
      SignedPayload.signer_eq_ok_iff.2 hrecover, hcheck, rfl⟩

/-- Without a demand on the signer, an opener returns a payload for a text exactly if the text
encodes a header with the path of one of its keys, a nonce of 12 to 32 bytes, and a sealed plaintext
that begins with the payload and a signature from which some key can be recovered. -/
theorem decrypt_anyone_eq_ok_iff (keys : KeyTree) (text : String) (payload : Bytes) :
    ((Opener.mk keys .anyone).decrypt text).result = .ok payload ↔
      ∃ (ephemeral : Octets 33) (path : String) (nonce signature trailing : Bytes)
        (place : Path) (receiver : PrivateKey) (point : PublicKey) (associated : Bytes)
        (key : SealingKey) (written ciphertext : Bytes),
        path.utf8ByteSize ≤ 1000 ∧ 12 ≤ nonce.length ∧ nonce.length ≤ 32 ∧
        Path.parse path = .ok place ∧
        (keys place).result = .ok receiver ∧
        PublicKey.ofBytes ephemeral.bytes = .ok point ∧
        Header.encode ⟨ephemeral, path, nonce.length⟩ = .ok associated ∧
        SharedSecret.recoverSealingKey receiver ephemeral.bytes = .ok key ∧
        SignedPayload.encode ⟨signature, payload⟩ = .ok written ∧
        Gcm.sealWith key nonce (written ++ trailing) associated = .ok ciphertext ∧
        text = Envelope.encodeText (associated ++ nonce ++ ciphertext) ∧
        ∃ signer, Signature.recover signature
          (SignedPayload.digest payload receiver.publicKey) = .ok signer := by
  rw [result_decrypt_eq_ok_iff_sealed]
  constructor
  · rintro ⟨ephemeral, path, nonce, signature, trailing, place, receiver, head, key, written,
      ciphertext, signer, hplace, hkeys, hhead, hkey, hwritten, hseal, htext, hrecover, -⟩
    obtain ⟨point, hpoint, -⟩ := SharedSecret.recoverSealingKey_eq_ok_iff.1 hkey
    obtain ⟨hmin, hmax, -⟩ := Gcm.sealWith_eq_ok_iff.1 hseal
    have hsize := (Header.encode_ok_iff.1 hhead).1
    exact ⟨ephemeral, path, nonce, signature, trailing, place, receiver, point, head, key, written,
      ciphertext, hsize, hmin, hmax, hplace, hkeys, PublicKey.ofBytes_eq_ok_iff.2 hpoint, hhead,
      hkey, hwritten, hseal, htext, signer, hrecover⟩
  · rintro ⟨ephemeral, path, nonce, signature, trailing, place, receiver, point, head, key, written,
      ciphertext, -, -, -, hplace, hkeys, -, hhead, hkey, hwritten, hseal, htext, signer, hrecover⟩
    exact ⟨ephemeral, path, nonce, signature, trailing, place, receiver, head, key, written,
      ciphertext, signer, hplace, hkeys, hhead, hkey, hwritten, hseal, htext, hrecover, rfl⟩

end Opener

end SealedMail
