import SealedMail.Message.Unauthenticated
import SealedMail.Proofs.Cipher.Chaining
import SealedMail.Proofs.Curve.Agreement
import SealedMail.Proofs.Curve.FreshKey

/-!
# Encryption without authentication

Both sides chain their blocks under the padded shared secret, which is always a key, and from the
last bytes of the encoded ephemeral key, which are always an initial vector
(`ChainedCiphertext.length_initialVector`). So the length of the data and the encoding of the
ephemeral key alone decide what fails, and decryption undoes encryption
(`ChainedCiphertext.decrypt_undoes_encrypt`). The ephemeral key is drawn before any length is looked
at, so encryption needs a source that offers one, and never ends on a stream of zeros
(`ChainedCiphertext.never_encrypts_from_zeros`). The secret does not tell a point from its opposite
and knows nothing of its encoding, while the initial vector is cut from the encoding: another
encoding reaches the first block only (`ChainedCiphertext.decrypt_reencoded`).
-/

namespace SealedMail

/-- The byte string encodes the key or its opposite. -/
def PublicKey.IsEncodedAs (key : PublicKey) (data : Bytes) : Prop :=
  ofBytes data = .ok key ∨ ofBytes data = .ok key.opposite

namespace ChainedCiphertext

/-! ## Keys and initial vectors -/

/-- The initial vector is the last block. -/
theorem initialVector_eq_rtake (encoded : Bytes) : initialVector encoded = encoded.rtake 16 := rfl

theorem length_initialVector {encoded : Bytes} {point : PublicKey}
    (h : PublicKey.ofBytes encoded = .ok point) : (initialVector encoded).length = 16 := by
  have long := PublicKey.lt_length_of_decode? (PublicKey.ofBytes_eq_ok_iff.1 h)
  rw [initialVector, List.length_drop, Cbc.blockSize]
  omega

/-- Every shared secret is a key for chained blocks. -/
theorem exists_chainingKey_derive (key : PrivateKey) (peer : PublicKey) :
    ∃ chaining, (SharedSecret.derive key peer).chainingKey = .ok chaining := by
  obtain ⟨shared, -, hpadded⟩ := SharedSecret.padded_derive key peer
  obtain ⟨chaining, hchaining, -⟩ := SharedSecret.exists_chainingKey
    (hpadded ▸ Curve.Coordinate.length_bytes shared.x)
  exact ⟨chaining, hchaining⟩

/-! ## Both directions -/

section Directions

variable {chaining : ChainingKey} {receiver : PrivateKey}

theorem encryptWith_eq {ephemeral : EphemeralKey} {peer : PublicKey} {plaintext : Bytes}
    (hkey : (ephemeral.agree peer).chainingKey = .ok chaining) :
    encryptWith ephemeral peer plaintext =
      (Cbc.encrypt chaining (initialVector ephemeral.publicKey.compressed) plaintext).map
        (ChainedCiphertext.mk ephemeral.publicKey) := by
  rw [encryptWith, hkey, ok_bind]
  cases Cbc.encrypt chaining (initialVector ephemeral.publicKey.compressed) plaintext <;> rfl

theorem result_encrypt_eq (peer : PublicKey) (plaintext : Bytes) (source : RandomSource)
    (h : source.OffersScalar) :
    (encrypt peer plaintext source h).1.result =
      (encryptWith (EphemeralKey.generate source h).1 peer plaintext).mapError .crypto := by
  simp only [encrypt, Traced.result_bind, Traced.result_ofExcept, Traced.result_emit,
    Traced.result_pure, ok_bind]
  cases encryptWith (EphemeralKey.generate source h).1 peer plaintext <;> rfl

theorem decrypt_eq {encoded ciphertext : Bytes} {point : PublicKey}
    (h : PublicKey.ofBytes encoded = .ok point)
    (hkey : (SharedSecret.derive receiver point).chainingKey = .ok chaining) :
    decrypt receiver encoded ciphertext =
      (Cbc.decrypt chaining (initialVector encoded) ciphertext).mapError .crypto := by
  rw [decrypt, SharedSecret.recover_of_ofBytes h, ok_bind, hkey, ok_bind]

/-- Whole blocks are encrypted to as many bytes, which the receiver decrypts. -/
theorem exists_encryptWith (receiver : PrivateKey) (ephemeral : EphemeralKey) {plaintext : Bytes}
    (h : plaintext.length % 16 = 0) :
    ∃ sent, encryptWith ephemeral receiver.publicKey plaintext = .ok sent ∧
      sent.ciphertext.length = plaintext.length ∧
      decrypt receiver sent.ephemeral.compressed sent.ciphertext = .ok plaintext := by
  obtain ⟨chaining, hkey⟩ := exists_chainingKey_derive receiver ephemeral.publicKey
  have sender : (ephemeral.agree receiver.publicKey).chainingKey = .ok chaining := by
    rw [EphemeralKey.agree, SharedSecret.derive_publicKey_comm]
    exact hkey
  have encoded := PublicKey.ofBytes_compressed ephemeral.publicKey
  obtain ⟨ciphertext, encrypted, size, decrypted⟩ :=
    Cbc.exists_encrypt chaining (length_initialVector encoded) h
  refine ⟨⟨ephemeral.publicKey, ciphertext⟩, ?_, size, ?_⟩
  · rw [encryptWith_eq sender, encrypted, map_ok]
  · rw [decrypt_eq encoded hkey, decrypted, mapError_ok]

theorem encryptWith_of_unaligned (ephemeral : EphemeralKey) (peer : PublicKey) {plaintext : Bytes}
    (h : plaintext.length % 16 ≠ 0) :
    encryptWith ephemeral peer plaintext = .error (.blockLength 16 plaintext.length) := by
  obtain ⟨chaining, hkey⟩ := exists_chainingKey_derive ephemeral.secret peer
  have encoded := PublicKey.ofBytes_compressed ephemeral.publicKey
  rw [encryptWith_eq hkey, Cbc.encrypt_of_unaligned (length_initialVector encoded) h, map_error]

variable {encoded ciphertext : Bytes}

theorem decrypt_of_ofBytes_error {cause : CryptoError}
    (h : PublicKey.ofBytes encoded = .error cause) :
    decrypt receiver encoded ciphertext = .error (.crypto cause) := by
  rw [decrypt, SharedSecret.recover, h, error_bind, error_bind, mapError_error]

/-- The ephemeral key is read first, and then the length of the ciphertext decides. -/
theorem decrypt_cases (receiver : PrivateKey) (encoded ciphertext : Bytes) :
    ((¬ ∃ point, PublicKey.ofBytes encoded = .ok point) ∧
      decrypt receiver encoded ciphertext =
        .error (.crypto (.badPublicKey (.encoding encoded.length)))) ∨
    ((∃ point, PublicKey.ofBytes encoded = .ok point) ∧ ciphertext.length % 16 ≠ 0 ∧
      decrypt receiver encoded ciphertext =
        .error (.crypto (.blockLength 16 ciphertext.length))) ∨
    ((∃ point, PublicKey.ofBytes encoded = .ok point) ∧ ciphertext.length % 16 = 0 ∧
      ∃ plaintext, decrypt receiver encoded ciphertext = .ok plaintext ∧
        plaintext.length = ciphertext.length) := by
  cases hread : PublicKey.decode? encoded with
  | none =>
      have refused : PublicKey.ofBytes encoded =
          .error (.badPublicKey (.encoding encoded.length)) := by
        rw [PublicKey.ofBytes, hread]
      exact Or.inl ⟨by simp [refused], decrypt_of_ofBytes_error refused⟩
  | some point =>
      have hpoint := PublicKey.ofBytes_eq_ok_iff.2 hread
      have hiv := length_initialVector hpoint
      obtain ⟨chaining, hkey⟩ := exists_chainingKey_derive receiver point
      rw [decrypt_eq hpoint hkey]
      by_cases aligned : ciphertext.length % 16 = 0
      · obtain ⟨plaintext, decrypted, size, -⟩ := Cbc.exists_decrypt chaining hiv aligned
        exact Or.inr (Or.inr ⟨⟨point, hpoint⟩, aligned, plaintext, by
          rw [decrypted, mapError_ok], size⟩)
      · exact Or.inr (Or.inl ⟨⟨point, hpoint⟩, aligned, by
          rw [Cbc.decrypt_of_unaligned hiv aligned, mapError_error]⟩)

end Directions

/-- Decryption undoes encryption. From every source that yields an ephemeral key, whole blocks are
encrypted to as many bytes, which the receiver decrypts with the compressed ephemeral key; other
plaintexts are refused for their length. Decryption fails exactly with an ephemeral key that cannot
be read, which comes first, or a ciphertext that is not whole blocks. Neither direction ever fails
for the length of a key or of an initial vector. -/
theorem decrypt_undoes_encrypt (receiver : PrivateKey) :
    (∀ (plaintext : Bytes) (source : RandomSource) (h : source.OffersScalar),
      (plaintext.length % 16 = 0 →
        ∃ sent, (encrypt receiver.publicKey plaintext source h).1.result = .ok sent ∧
          sent.ciphertext.length = plaintext.length ∧
          decrypt receiver sent.ephemeral.compressed sent.ciphertext = .ok plaintext) ∧
      (plaintext.length % 16 ≠ 0 →
        (encrypt receiver.publicKey plaintext source h).1.result =
          .error (.crypto (.blockLength 16 plaintext.length))) ∧
      ∀ expected actual, (encrypt receiver.publicKey plaintext source h).1.result ≠
        .error (.crypto (.keyLength expected actual))) ∧
    ∀ encoded ciphertext : Bytes,
      ((∃ e, decrypt receiver encoded ciphertext = .error e) ↔
        (¬ ∃ point, PublicKey.ofBytes encoded = .ok point) ∨ ciphertext.length % 16 ≠ 0) ∧
      ((¬ ∃ point, PublicKey.ofBytes encoded = .ok point) →
        decrypt receiver encoded ciphertext =
          .error (.crypto (.badPublicKey (.encoding encoded.length)))) ∧
      ((∃ point, PublicKey.ofBytes encoded = .ok point) → ciphertext.length % 16 ≠ 0 →
        decrypt receiver encoded ciphertext =
          .error (.crypto (.blockLength 16 ciphertext.length))) ∧
      ∀ expected actual, decrypt receiver encoded ciphertext ≠
        .error (.crypto (.keyLength expected actual)) := by
  constructor
  · intro plaintext source h
    rw [result_encrypt_eq]
    by_cases aligned : plaintext.length % 16 = 0
    · obtain ⟨sent, encrypted, size, decrypted⟩ := exists_encryptWith receiver
        (EphemeralKey.generate source h).1 aligned
      simp [encrypted, size, decrypted, aligned]
    · simp [encryptWith_of_unaligned _ _ aligned, aligned]
  · intro encoded ciphertext
    rcases decrypt_cases receiver encoded ciphertext with
      ⟨unreadable, failed⟩ | ⟨readable, unaligned, failed⟩ | ⟨readable, aligned, _, decrypted, -⟩
    · simp [failed, unreadable]
    · simp [failed, readable, unaligned]
    · simp [decrypted, readable, aligned]

/-- From a supply of zeros: two blocks and back, three bytes that are no block, and an empty
ephemeral key. -/
theorem decrypt_undoes_encrypt_of_two_blocks :
    let receiver : PrivateKey := ⟨⟨5, by decide⟩⟩
    let source := RandomSource.ofBytes (List.replicate 32 0)
    let plaintext : Bytes := List.replicate 32 104
    ∃ h : source.OffersScalar,
      (∃ sent, (encrypt receiver.publicKey plaintext source h).1.result = .ok sent ∧
        sent.ciphertext.length = 32 ∧
        decrypt receiver sent.ephemeral.compressed sent.ciphertext = .ok plaintext) ∧
      (encrypt receiver.publicKey [1, 2, 3] source h).1.result =
        .error (.crypto (.blockLength 16 3)) ∧
      decrypt receiver [] [1, 2, 3] = .error (.crypto (.badPublicKey (.encoding 0))) ∧
      decrypt receiver PublicKey.generator.compressed [1, 2, 3] =
        .error (.crypto (.blockLength 16 3)) := by
  intro receiver source plaintext
  have offers : source.OffersScalar := (RandomSource.endless_ofBytes _).offersScalar
  obtain ⟨encrypts, decrypts⟩ := decrypt_undoes_encrypt receiver
  obtain ⟨-, unreadable, -, -⟩ := decrypts [] [1, 2, 3]
  obtain ⟨-, -, unaligned, -⟩ := decrypts PublicKey.generator.compressed [1, 2, 3]
  exact ⟨offers, (encrypts plaintext source offers).1 (by decide),
    (encrypts [1, 2, 3] source offers).2.1 (by decide),
    unreadable (by simp [PublicKey.ofBytes, PublicKey.decode?]),
    unaligned ⟨_, PublicKey.ofBytes_compressed _⟩ (by decide)⟩

/-- On a stream of zeros the search for an ephemeral key is never over. So there is neither a
ciphertext of two blocks nor the refusal of three bytes, although the lengths would decide. -/
theorem never_encrypts_from_zeros :
    let receiver : PrivateKey := ⟨⟨5, by decide⟩⟩
    let zeros : RandomSource := ⟨fun _ => 0, 0⟩
    let blocks : Bytes := List.replicate 32 104
    (∀ limit, PrivateKey.generateWithin limit zeros = none) ∧
    (blocks.length % 16 = 0 ∧ ¬ ∃ (h : zeros.OffersScalar) (sent : ChainedCiphertext),
      (encrypt receiver.publicKey blocks zeros h).1.result = .ok sent) ∧
    (([1, 2, 3] : Bytes).length % 16 ≠ 0 ∧ ¬ ∃ h : zeros.OffersScalar,
      (encrypt receiver.publicKey [1, 2, 3] zeros h).1.result =
        .error (.crypto (.blockLength 16 3))) := by
  intro receiver zeros blocks
  have nothing : ¬ zeros.OffersScalar := RandomSource.not_offersScalar_of_zeros fun _ => rfl
  refine ⟨PrivateKey.generateWithin_of_not_offersScalar nothing, ⟨by decide, ?_⟩, by decide, ?_⟩
  · rintro ⟨offers, -⟩
    exact nothing offers
  · rintro ⟨offers, -⟩
    exact nothing offers

/-! ## Other encodings of the ephemeral key -/

section Encodings

variable {receiver : PrivateKey} {point : PublicKey} {encoded ciphertext : Bytes}

/-- What an encoding of a key or of its opposite names shares the key's secret. -/
theorem exists_named {chaining : ChainingKey} (h : point.IsEncodedAs encoded)
    (hkey : (SharedSecret.derive receiver point).chainingKey = .ok chaining) :
    ∃ named, PublicKey.ofBytes encoded = .ok named ∧
      (SharedSecret.derive receiver named).chainingKey = .ok chaining := by
  rcases h with h | h
  · exact ⟨point, h, hkey⟩
  · refine ⟨point.opposite, h, ?_⟩
    rw [SharedSecret.derive_opposite]
    exact hkey

/-- Under two encodings of one key, up to the sign, a ciphertext decrypts alike behind the first
block, and there the plaintexts differ as the ends of the encodings do. -/
theorem exists_decrypt_of_encodings (receiver : PrivateKey) {encoded' : Bytes}
    (h : point.IsEncodedAs encoded) (h' : point.IsEncodedAs encoded')
    (aligned : ciphertext.length % 16 = 0) :
    ∃ plaintext plaintext', decrypt receiver encoded ciphertext = .ok plaintext ∧
      decrypt receiver encoded' ciphertext = .ok plaintext' ∧
      Cbc.DifferByVectors ciphertext (encoded.rtake 16) (encoded'.rtake 16) plaintext
        plaintext' := by
  obtain ⟨chaining, hkey⟩ := exists_chainingKey_derive receiver point
  obtain ⟨named, hnamed, shared⟩ := exists_named h hkey
  obtain ⟨named', hnamed', shared'⟩ := exists_named h' hkey
  obtain ⟨plaintext, plaintext', decrypted, decrypted', differ⟩ :=
    Cbc.exists_decrypt_of_vectors chaining (length_initialVector hnamed)
      (length_initialVector hnamed') aligned
  rw [initialVector_eq_rtake, initialVector_eq_rtake] at differ
  refine ⟨plaintext, plaintext', ?_, ?_, differ⟩
  · rw [decrypt_eq hnamed shared, decrypted, mapError_ok]
  · rw [decrypt_eq hnamed' shared', decrypted', mapError_ok]

theorem rtake_append (front : Bytes) {back : Bytes} (h : 16 ≤ back.length) :
    (front ++ back).rtake 16 = back.rtake 16 := by
  have long : 16 ≤ back.reverse.length := by rwa [List.length_reverse]
  rw [List.rtake_eq_reverse_take_reverse, List.rtake_eq_reverse_take_reverse, List.reverse_append,
    List.take_append_of_le_length long]

theorem rtake_compressed (point : PublicKey) :
    point.compressed.rtake 16 = point.x.bytes.rtake 16 :=
  rtake_append [_] (by simp)

theorem rtake_uncompressed (point : PublicKey) :
    point.uncompressed.rtake 16 = point.y.bytes.rtake 16 :=
  rtake_append (4 :: point.x.bytes) (by simp)

/-- The two parity headers decrypt alike, and fail alike. -/
theorem decrypt_cons_two (receiver : PrivateKey) (body ciphertext : Bytes) :
    decrypt receiver (2 :: body) ciphertext = decrypt receiver (3 :: body) ciphertext := by
  cases heven : PublicKey.decodeShort? false body with
  | none =>
      -- No key stands over the coordinate with either parity.
      have hodd : PublicKey.decodeShort? true body = none := by
        by_contra some_odd
        obtain ⟨key, hkey⟩ := Option.ne_none_iff_exists'.1 some_odd
        obtain ⟨other, hother, -⟩ := PublicKey.exists_decodeShort? hkey false
        cases heven.symm.trans hother
      have refused (header : UInt8) (h : PublicKey.decode? (header :: body) = none) :
          PublicKey.ofBytes (header :: body) =
            .error (.badPublicKey (.encoding (body.length + 1))) := by
        rw [PublicKey.ofBytes, h, List.length_cons]
      rw [decrypt_of_ofBytes_error (refused 2 heven), decrypt_of_ofBytes_error (refused 3 hodd)]
  | some key =>
      obtain ⟨other, hodd, -⟩ := PublicKey.exists_decodeShort? heven true
      have same : SharedSecret.derive receiver other = SharedSecret.derive receiver key :=
        SharedSecret.derive_of_decodeShort? heven hodd
      have size : 16 ≤ body.length := by
        rw [(PublicKey.decodeShort?_eq_some_iff.1 heven).1, Curve.Coordinate.length_bytes]
        decide
      obtain ⟨chaining, hkey⟩ := exists_chainingKey_derive receiver key
      have shared : (SharedSecret.derive receiver other).chainingKey = .ok chaining := by
        rw [same]
        exact hkey
      -- The vector is cut from the coordinate, behind the header that tells the two apart.
      have vectors : initialVector (2 :: body) = initialVector (3 :: body) :=
        (rtake_append [2] size).trans (rtake_append [3] size).symm
      rw [← PublicKey.decode?_cons_two] at heven
      rw [← PublicKey.decode?_cons_three] at hodd
      rw [decrypt_eq (PublicKey.ofBytes_eq_ok_iff.2 heven) hkey,
        decrypt_eq (PublicKey.ofBytes_eq_ok_iff.2 hodd) shared, vectors]

end Encodings

/-- Encodings of the ephemeral key. With two encodings that a key or its opposite has, a ciphertext
of whole blocks decrypts to plaintexts that agree behind the first block and differ there as the
last sixteen bytes of the encodings do. So the headers `02` and `03` before one coordinate always
give the same result, and between the compressed and the uncompressed form the first block changes
by the ends of the two coordinates. -/
theorem decrypt_reencoded (receiver : PrivateKey) :
    (∀ (point : PublicKey) (encoded encoded' ciphertext : Bytes),
      point.IsEncodedAs encoded → point.IsEncodedAs encoded' → ciphertext.length % 16 = 0 →
        ∃ plaintext plaintext', decrypt receiver encoded ciphertext = .ok plaintext ∧
          decrypt receiver encoded' ciphertext = .ok plaintext' ∧
          Cbc.DifferByVectors ciphertext (encoded.rtake 16) (encoded'.rtake 16) plaintext
            plaintext') ∧
    (∀ body ciphertext : Bytes,
      decrypt receiver (2 :: body) ciphertext = decrypt receiver (3 :: body) ciphertext) ∧
    ∀ (point : PublicKey) (ciphertext : Bytes), ciphertext.length % 16 = 0 →
      ∃ plaintext plaintext', decrypt receiver point.compressed ciphertext = .ok plaintext ∧
        decrypt receiver point.uncompressed ciphertext = .ok plaintext' ∧
        Cbc.DifferByVectors ciphertext (point.x.bytes.rtake 16) (point.y.bytes.rtake 16) plaintext
          plaintext' := by
  refine ⟨fun point encoded encoded' ciphertext h h' aligned => ?_, decrypt_cons_two receiver,
    fun point ciphertext aligned => ?_⟩
  · exact exists_decrypt_of_encodings receiver h h' aligned
  · have compressed : point.IsEncodedAs point.compressed :=
      Or.inl (PublicKey.ofBytes_compressed point)
    have uncompressed : point.IsEncodedAs point.uncompressed :=
      Or.inl (PublicKey.ofBytes_uncompressed point)
    rw [← rtake_compressed, ← rtake_uncompressed]
    exact exists_decrypt_of_encodings receiver compressed uncompressed aligned

/-- The generator with the parity header of its opposite, and in its uncompressed form: the first of
two blocks changes and the second does not. -/
theorem decrypt_reencoded_of_generator :
    let receiver : PrivateKey := ⟨⟨5, by decide⟩⟩
    let opposite : Bytes := 3 :: PublicKey.generator.x.bytes
    let ciphertext : Bytes := List.replicate 32 0
    PublicKey.generator.IsEncodedAs opposite ∧
    PublicKey.generator.IsEncodedAs PublicKey.generator.uncompressed ∧
    ∃ plaintext plaintext', decrypt receiver opposite ciphertext = .ok plaintext ∧
      decrypt receiver PublicKey.generator.uncompressed ciphertext = .ok plaintext' ∧
      plaintext.drop 16 = plaintext'.drop 16 ∧ plaintext ≠ plaintext' := by
  intro receiver opposite ciphertext
  have odd : PublicKey.generator.opposite.compressed = opposite := by decide +kernel
  have encoded : PublicKey.generator.IsEncodedAs opposite :=
    Or.inr (odd ▸ PublicKey.ofBytes_compressed _)
  have encoded' : PublicKey.generator.IsEncodedAs PublicKey.generator.uncompressed :=
    Or.inl (PublicKey.ofBytes_uncompressed _)
  have ends : opposite.rtake 16 ≠ PublicKey.generator.uncompressed.rtake 16 := by decide +kernel
  obtain ⟨general, -, -⟩ := decrypt_reencoded receiver
  obtain ⟨plaintext, plaintext', decrypted, decrypted', differ⟩ :=
    general _ _ _ ciphertext encoded encoded' (by decide)
  refine ⟨encoded, encoded', plaintext, plaintext', decrypted, decrypted', differ.drop_eq, ?_⟩
  intro same
  rcases differ.eq_iff.1 same with empty | vectors
  · exact absurd empty (by decide)
  · exact ends vectors

end ChainedCiphertext

end SealedMail
