import SealedMail.Message.Settings
import SealedMail.Proofs.Cipher.Sealing

/-!
# Supported nonces

The length of the nonce alone decides whether sealing succeeds, and then opening either inverts
sealing or reports that the ciphertext is not authentic. With a nonce of any other length both
report the length. Settings are valid exactly if sealing takes nonces of their size. The main
statement is `Gcm.openWith_inverts_sealWith`.
-/

namespace SealedMail

namespace Gcm

theorem checkNonce_eq_error {nonce : Bytes}
    (h : ¬ (minNonceSize ≤ nonce.length ∧ nonce.length ≤ maxNonceSize)) :
    checkNonce nonce = .error (.nonceLength minNonceSize maxNonceSize nonce.length) := by
  unfold checkNonce
  split
  · rename_i supported
    exact absurd (by simpa [supportsNonce] using supported) h
  · rfl

/-- Sealing succeeds exactly with a nonce of a supported length. -/
theorem exists_sealWith_eq_ok_iff {key : SealingKey} {nonce plaintext associated : Bytes} :
    (∃ ciphertext, sealWith key nonce plaintext associated = .ok ciphertext) ↔
      minNonceSize ≤ nonce.length ∧ nonce.length ≤ maxNonceSize := by
  simp only [sealWith_eq_ok_iff, ← and_assoc, exists_and_left, exists_eq, and_true]

theorem length_of_sealWith {key : SealingKey} {nonce plaintext associated ciphertext : Bytes}
    (h : sealWith key nonce plaintext associated = .ok ciphertext) :
    ciphertext.length = plaintext.length + tagSize := by
  obtain ⟨-, -, rfl⟩ := sealWith_eq_ok_iff.1 h
  exact length_encrypt _ _ _ _

/-- What is no sealed plaintext does not open. -/
theorem openWith_eq_notAuthentic {key : SealingKey} {nonce ciphertext associated : Bytes}
    (hnonce : checkNonce nonce = .ok ())
    (h : ∀ plaintext, sealWith key nonce plaintext associated ≠ .ok ciphertext) :
    openWith key nonce ciphertext associated = .error .notAuthentic := by
  rw [openWith_eq hnonce]
  cases found : decrypt? (Aes.Schedule.ofKey key.bytes) nonce ciphertext associated with
  | none => rfl
  | some plaintext =>
      have opens : openWith key nonce ciphertext associated = .ok plaintext := by
        rw [openWith_eq hnonce, found]
      exact absurd (openWith_eq_ok_iff.1 opens) (h plaintext)

end Gcm

theorem Settings.validate_eq_ok_iff {settings : Settings} :
    settings.validate = .ok () ↔
      Gcm.minNonceSize ≤ settings.nonceSize ∧ settings.nonceSize ≤ Gcm.maxNonceSize := by
  rw [validate, isValid]
  split <;> simp_all

namespace Gcm

/-- Sealing and opening are inverse. With a nonce of 12 to 32 bytes every plaintext can be sealed,
which adds 16 bytes, and a ciphertext opens to a plaintext exactly if sealing the plaintext gives
the ciphertext; every other ciphertext, so every one of less than 16 bytes, is not authentic. With
another nonce both report its length. Settings are valid exactly if sealing takes nonces of their
size. -/
theorem openWith_inverts_sealWith (key : SealingKey) (nonce associated : Bytes) :
    (12 ≤ nonce.length ∧ nonce.length ≤ 32 →
      (∀ plaintext, ∃ ciphertext, sealWith key nonce plaintext associated = .ok ciphertext ∧
        ciphertext.length = plaintext.length + 16) ∧
      (∀ plaintext ciphertext, openWith key nonce ciphertext associated = .ok plaintext ↔
        sealWith key nonce plaintext associated = .ok ciphertext) ∧
      (∀ ciphertext, (∀ plaintext, sealWith key nonce plaintext associated ≠ .ok ciphertext) →
        openWith key nonce ciphertext associated = .error .notAuthentic) ∧
      ∀ ciphertext, ciphertext.length < 16 →
        openWith key nonce ciphertext associated = .error .notAuthentic) ∧
    (¬ (12 ≤ nonce.length ∧ nonce.length ≤ 32) → ∀ text,
      sealWith key nonce text associated = .error (.nonceLength 12 32 nonce.length) ∧
      openWith key nonce text associated = .error (.nonceLength 12 32 nonce.length)) ∧
    ∀ plaintext, (Settings.mk nonce.length).validate = .ok () ↔
      ∃ ciphertext, sealWith key nonce plaintext associated = .ok ciphertext := by
  refine ⟨fun supported => ?_, fun unsupported text => ?_, fun plaintext => ?_⟩
  · have hnonce : checkNonce nonce = .ok () := checkNonce_eq_ok_iff.2 supported
    refine ⟨fun plaintext => ?_, fun _ _ => openWith_eq_ok_iff,
      fun ciphertext => openWith_eq_notAuthentic hnonce, fun ciphertext short => ?_⟩
    · obtain ⟨ciphertext, sealed⟩ := exists_sealWith_eq_ok_iff.2 supported
      exact ⟨ciphertext, sealed, length_of_sealWith sealed⟩
    · -- What is sealed is at least as long as a tag.
      refine openWith_eq_notAuthentic hnonce fun plaintext sealed => ?_
      have size : ciphertext.length = plaintext.length + 16 := length_of_sealWith sealed
      omega
  · have hnonce : checkNonce nonce = .error (.nonceLength 12 32 nonce.length) :=
      checkNonce_eq_error unsupported
    constructor
    · rw [sealWith, hnonce, error_bind]
    · rw [openWith, hnonce, error_bind]
  · rw [Settings.validate_eq_ok_iff, exists_sealWith_eq_ok_iff]

/-- A nonce of 13 bytes, which is hashed into the counter block, and one of 11 bytes. -/
theorem openWith_inverts_sealWith_of_hashed_nonce :
    let key : SealingKey := ⟨⟨List.replicate 32 0, rfl⟩⟩
    let nonce (size : ℕ) : Bytes := List.replicate size 9
    (∃ ciphertext, sealWith key (nonce 13) [104, 105] [1] = .ok ciphertext ∧
      ciphertext.length = 18 ∧ openWith key (nonce 13) ciphertext [1] = .ok [104, 105]) ∧
    openWith key (nonce 13) (List.replicate 15 0) [1] = .error .notAuthentic ∧
    sealWith key (nonce 11) [104, 105] [1] = .error (.nonceLength 12 32 11) := by
  intro key nonce
  obtain ⟨supported, -, -⟩ := openWith_inverts_sealWith key (nonce 13) [1]
  obtain ⟨-, unsupported, -⟩ := openWith_inverts_sealWith key (nonce 11) [1]
  obtain ⟨seals, inverse, -, short⟩ := supported (by decide)
  obtain ⟨ciphertext, sealed, size⟩ := seals [104, 105]
  exact ⟨⟨ciphertext, sealed, size, (inverse _ _).2 sealed⟩, short _ (by decide),
    (unsupported (by decide) _).1⟩

end Gcm

end SealedMail
