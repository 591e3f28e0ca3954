import Mathlib
import SealedMail.Cipher.Gcm
import SealedMail.Proofs.Sequencing

/-!
# Opening is the inverse of sealing

Adding a keystream twice changes nothing (`Gcm.crypt_crypt`), and the tag is a function of the
ciphertext. So a ciphertext opens to a plaintext exactly if it is what sealing the plaintext gives
(`Gcm.openWith_eq_ok_iff`).
-/

namespace SealedMail

theorem Bytes.xor_xor_cancel {left right : Bytes} (h : left.length ≤ right.length) :
    xor (xor left right) right = left := by
  induction left generalizing right with
  | nil => simp [xor]
  | cons byte left ih =>
      rcases right with _ | ⟨other, right⟩
      · simp at h
      · have shorter : left.length ≤ right.length := by simpa using h
        have rest := ih shorter
        simp only [xor, List.zipWith_cons_cons] at rest ⊢
        rw [rest, UInt8.xor_assoc, UInt8.xor_self, UInt8.xor_zero]

namespace Gcm

open Aes (Schedule)

@[simp] theorem length_crypt (schedule : Schedule) (counter : Galois.Element) (data : Bytes) :
    (crypt schedule counter data).length = data.length := by
  simp only [crypt, Bytes.xor, List.length_zipWith, length_keystream]
  omega

theorem crypt_crypt (schedule : Schedule) (counter : Galois.Element) (data : Bytes) :
    crypt schedule counter (crypt schedule counter data) = data := by
  have enough : data.length ≤ (keystream schedule counter ((data.length + 15) / 16)).length := by
    rw [length_keystream]
    omega
  rw [crypt, length_crypt, crypt, Bytes.xor_xor_cancel enough]

@[simp] theorem length_tag (schedule : Schedule) (counter : Galois.Element)
    (associated ciphertext : Bytes) :
    (tag schedule counter associated ciphertext).length = tagSize :=
  Bytes.length_bigEndian 16 _

@[simp] theorem length_encrypt (schedule : Schedule) (nonce plaintext associated : Bytes) :
    (encrypt schedule nonce plaintext associated).length = plaintext.length + tagSize := by
  rw [encrypt, List.length_append, length_crypt, length_tag]

/-- A body and a tag are accepted exactly if the tag is that of the body. -/
theorem decrypt?_append {schedule : Schedule} {nonce body sent associated : Bytes}
    (h : sent.length = tagSize) :
    decrypt? schedule nonce (body ++ sent) associated =
      if sent = tag schedule (firstCounter schedule nonce) associated body then
        some (crypt schedule (firstCounter schedule nonce) body)
      else none := by
  have long : ¬ (body ++ sent).length < tagSize := by
    rw [List.length_append]
    omega
  have cut : (body ++ sent).length - tagSize = body.length := by
    rw [List.length_append]
    omega
  rw [decrypt?, if_neg long]
  simp only [cut, List.drop_left, List.take_left]

theorem decrypt?_eq_some_iff {schedule : Schedule} {nonce ciphertext associated plaintext : Bytes} :
    decrypt? schedule nonce ciphertext associated = some plaintext ↔
      ciphertext = encrypt schedule nonce plaintext associated := by
  constructor
  · intro h
    by_cases short : ciphertext.length < tagSize
    · rw [decrypt?, if_pos short] at h
      cases h
    · -- The last bytes are the tag.
      have split := List.take_append_drop (ciphertext.length - tagSize) ciphertext
      have size : (ciphertext.drop (ciphertext.length - tagSize)).length = tagSize := by
        rw [List.length_drop]
        omega
      rw [← split, decrypt?_append size] at h
      split at h
      · rename_i same
        obtain rfl := Option.some.inj h
        rw [encrypt, crypt_crypt, ← same, split]
      · cases h
  · rintro rfl
    rw [encrypt, decrypt?_append (length_tag _ _ _ _), if_pos rfl, crypt_crypt]

theorem checkNonce_eq_ok_iff {nonce : Bytes} :
    checkNonce nonce = .ok () ↔ minNonceSize ≤ nonce.length ∧ nonce.length ≤ maxNonceSize := by
  unfold checkNonce supportsNonce
  split <;> simp_all

theorem sealWith_eq_ok_iff {key : SealingKey} {nonce plaintext associated ciphertext : Bytes} :
    sealWith key nonce plaintext associated = .ok ciphertext ↔
      minNonceSize ≤ nonce.length ∧ nonce.length ≤ maxNonceSize ∧
        ciphertext = encrypt (Schedule.ofKey key.bytes) nonce plaintext associated := by
  rw [sealWith, ← and_assoc, ← checkNonce_eq_ok_iff]
  cases checkNonce nonce with
  | error e => simp
  | ok _ => simp [eq_comm]

theorem openWith_eq {key : SealingKey} {nonce ciphertext associated : Bytes}
    (h : checkNonce nonce = .ok ()) :
    openWith key nonce ciphertext associated =
      match decrypt? (Schedule.ofKey key.bytes) nonce ciphertext associated with
      | some plaintext => .ok plaintext
      | none => .error .notAuthentic := by
  rw [openWith, h, ok_bind]
  cases decrypt? (Schedule.ofKey key.bytes) nonce ciphertext associated <;> rfl

/-- A ciphertext opens to a plaintext exactly if sealing the plaintext gives the ciphertext. -/
theorem openWith_eq_ok_iff {key : SealingKey} {nonce ciphertext associated plaintext : Bytes} :
    openWith key nonce ciphertext associated = .ok plaintext ↔
      sealWith key nonce plaintext associated = .ok ciphertext := by
  rw [sealWith_eq_ok_iff, ← and_assoc, ← checkNonce_eq_ok_iff, ← decrypt?_eq_some_iff]
  cases hcheck : checkNonce nonce with
  | error e =>
      simp [openWith, hcheck]
  | ok _ =>
      rw [openWith_eq hcheck]
      cases decrypt? (Schedule.ofKey key.bytes) nonce ciphertext associated <;> simp

end Gcm

end SealedMail
