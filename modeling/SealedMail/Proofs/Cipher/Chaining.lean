import SealedMail.Cipher.Cbc
import SealedMail.Proofs.Cipher.Permutation
import SealedMail.Proofs.Sequencing

/-!
# Chained blocks and the spread of a change

Whole blocks are a list of blocks written out (`Cbc.exists_ofBlocks`), on which encryption and
decryption are inverse to each other (`Cbc.decryptBlocks_encryptBlocks`,
`Cbc.encryptBlocks_decryptBlocks`). A decrypted block depends on two ciphertext blocks only: it is
the decipherment of the block in its place plus the block before
(`Cbc.getElem?_decryptBlocks`). So a change of one ciphertext block garbles the plaintext block in
its place and is added to the next one, and a change of the initial vector is added to the first
(`Cbc.exists_decrypt_of_vectors`). Main statement: `Cbc.chaining_laws`.
-/

namespace SealedMail

namespace Bytes

/-- The block with a given number, counted from zero. -/
def block (size number : ℕ) (data : Bytes) : Bytes := (data.drop (number * size)).take size

theorem blocks_append {size : ℕ} (hsize : 0 < size) {front : Bytes} (h : front.length = size)
    (back : Bytes) : blocks size (front ++ back) = front :: blocks size back := by
  have filled : front ≠ [] := List.ne_nil_of_length_pos (h ▸ hsize)
  rw [blocks, if_neg (by simp [filled, hsize.ne']), List.take_left' h, List.drop_left' h]

section Append

variable {size : ℕ} {front : Bytes} (h : front.length = size) (back : Bytes)

include h

theorem block_zero_append : block size 0 (front ++ back) = front := by
  rw [block, Nat.zero_mul, List.drop_zero, List.take_left' h]

theorem block_succ_append (number : ℕ) :
    block size (number + 1) (front ++ back) = block size number back := by
  rw [block, Nat.succ_mul, Nat.add_comm, ← List.drop_drop, List.drop_left' h, block]

end Append

end Bytes

namespace Aes.Block

theorem bytes_add (b d : Block) : (b.add d).bytes = Bytes.xor b.bytes d.bytes := rfl

/-- What two sums have in common does not show in their difference. -/
theorem add_add_add (b d d' : Block) : (b.add d).add (b.add d') = d.add d' := by
  simp only [add, Column.add, UInt8.xor_assoc, xor_left_comm, xor_self_xor]

theorem add_left_injective (b : Block) : Function.Injective b.add := by
  intro d d' h
  have same : d.add d' = d'.add d' := by
    rw [← add_add_add b d d', ← add_add_add b d' d', h]
  exact add_injective d' same

end Aes.Block

namespace Cbc

open Aes (Schedule Block)

/-! ## Whole blocks -/

@[simp] theorem ofBlocks_cons (b : Block) (bs : List Block) :
    ofBlocks (b :: bs) = b.bytes ++ ofBlocks bs := rfl

@[simp] theorem length_ofBlocks (bs : List Block) : (ofBlocks bs).length = bs.length * 16 := by
  induction bs with
  | nil => rfl
  | cons b bs ih =>
      rw [ofBlocks_cons, List.length_append, ih, Block.length_bytes, List.length_cons]
      omega

theorem toBlocks_ofBlocks (bs : List Block) : toBlocks (ofBlocks bs) = bs := by
  induction bs with
  | nil => simp [toBlocks, ofBlocks, Bytes.blocks]
  | cons b bs ih =>
      have split : Bytes.blocks blockSize (b.bytes ++ ofBlocks bs) =
          b.bytes :: Bytes.blocks blockSize (ofBlocks bs) :=
        Bytes.blocks_append (by decide) (Block.length_bytes b) _
      rw [toBlocks, ofBlocks_cons, split, List.map_cons, Block.ofBytes_bytes]
      exact congrArg (b :: ·) ih

/-- Sixteen bytes are a block written out. -/
theorem exists_bytes_eq {data : Bytes} (h : data.length = 16) : ∃ b : Block, b.bytes = data :=
  ⟨Block.ofBytes data, Block.bytes_ofBytes h⟩

/-- Data of whole blocks is a list of blocks written out. -/
theorem exists_ofBlocks {data : Bytes} (h : data.length % 16 = 0) :
    ∃ bs : List Block, ofBlocks bs = data := by
  obtain ⟨count, hcount⟩ := Nat.dvd_of_mod_eq_zero h
  -- On the number of blocks, with the first one cut off in each step.
  induction count generalizing data with
  | zero => exact ⟨[], (List.eq_nil_of_length_eq_zero hcount).symm⟩
  | succ count ih =>
      have front : (data.take 16).length = 16 := by
        rw [List.length_take]
        omega
      have back : (data.drop 16).length = 16 * count := by
        rw [List.length_drop]
        omega
      obtain ⟨b, hb⟩ := exists_bytes_eq front
      obtain ⟨bs, hbs⟩ := ih (by rw [back, Nat.mul_mod_right]) back
      exact ⟨b :: bs, by rw [ofBlocks_cons, hb, hbs, List.take_append_drop]⟩

theorem block_ofBlocks {bs : List Block} {number : ℕ} {b : Block} (h : bs[number]? = some b) :
    Bytes.block 16 number (ofBlocks bs) = b.bytes := by
  induction bs generalizing number with
  | nil => cases h
  | cons first bs ih =>
      cases number with
      | zero =>
          obtain rfl := Option.some.inj h
          exact Bytes.block_zero_append (Block.length_bytes first) _
      | succ number =>
          rw [ofBlocks_cons, Bytes.block_succ_append (Block.length_bytes first)]
          exact ih h

/-! ## Both directions on blocks -/

section Blocks

variable (schedule : Schedule)

@[simp] theorem length_encryptBlocks (previous : Block) (bs : List Block) :
    (encryptBlocks schedule previous bs).length = bs.length := by
  induction bs generalizing previous with
  | nil => rfl
  | cons b bs ih => rw [encryptBlocks, List.length_cons, ih, List.length_cons]

@[simp] theorem length_decryptBlocks (previous : Block) (cs : List Block) :
    (decryptBlocks schedule previous cs).length = cs.length := by
  induction cs generalizing previous with
  | nil => rfl
  | cons c cs ih => rw [decryptBlocks, List.length_cons, ih, List.length_cons]

theorem decryptBlocks_encryptBlocks (previous : Block) (bs : List Block) :
    decryptBlocks schedule previous (encryptBlocks schedule previous bs) = bs := by
  induction bs generalizing previous with
  | nil => rfl
  | cons b bs ih =>
      -- Both directions add the block before, and carry on with the ciphertext block.
      rw [encryptBlocks, decryptBlocks, Aes.decrypt_encrypt_block, Block.add_add_cancel, ih]

theorem encryptBlocks_decryptBlocks (previous : Block) (cs : List Block) :
    encryptBlocks schedule previous (decryptBlocks schedule previous cs) = cs := by
  induction cs generalizing previous with
  | nil => rfl
  | cons c cs ih =>
      rw [decryptBlocks, encryptBlocks, Block.add_add_cancel, Aes.encrypt_decrypt_block, ih]

/-- A decrypted block is the decipherment of the block in its place plus the block before. -/
theorem getElem?_decryptBlocks {previous : Block} {cs : List Block} {j : ℕ} {c before : Block}
    (hc : cs[j]? = some c) (hbefore : (previous :: cs)[j]? = some before) :
    (decryptBlocks schedule previous cs)[j]? = some ((Aes.decrypt schedule c).add before) := by
  induction cs generalizing previous j with
  | nil => cases hc
  | cons first cs ih =>
      cases j with
      | zero =>
          obtain rfl := Option.some.inj hc
          obtain rfl := Option.some.inj hbefore
          rfl
      -- Behind the first block, what stands before is a ciphertext block.
      | succ j => exact ih hc hbefore

end Blocks

/-! ## Both directions on bytes -/

theorem encrypt_ofBlocks (key : ChainingKey) (iv : Block) (bs : List Block) :
    encrypt key iv.bytes (ofBlocks bs) =
      .ok (ofBlocks (encryptBlocks (Schedule.ofKey key.bytes) iv bs)) := by
  have aligned : check iv.bytes (ofBlocks bs) = .ok () := by
    simp [check, blockSize]
  rw [encrypt, aligned, ok_bind, Block.ofBytes_bytes, toBlocks_ofBlocks, pure_eq_ok]

theorem decrypt_ofBlocks (key : ChainingKey) (iv : Block) (cs : List Block) :
    decrypt key iv.bytes (ofBlocks cs) =
      .ok (ofBlocks (decryptBlocks (Schedule.ofKey key.bytes) iv cs)) := by
  have aligned : check iv.bytes (ofBlocks cs) = .ok () := by
    simp [check, blockSize]
  rw [decrypt, aligned, ok_bind, Block.ofBytes_bytes, toBlocks_ofBlocks, pure_eq_ok]

section Bytes

variable {iv data : Bytes}

/-- Whole blocks can be encrypted, and decryption undoes it. -/
theorem exists_encrypt (key : ChainingKey) (hiv : iv.length = 16) (hdata : data.length % 16 = 0) :
    ∃ ciphertext, encrypt key iv data = .ok ciphertext ∧ ciphertext.length = data.length ∧
      decrypt key iv ciphertext = .ok data := by
  obtain ⟨first, rfl⟩ := exists_bytes_eq hiv
  obtain ⟨bs, rfl⟩ := exists_ofBlocks hdata
  refine ⟨_, encrypt_ofBlocks key first bs, by simp, ?_⟩
  rw [decrypt_ofBlocks, decryptBlocks_encryptBlocks]

/-- Whole blocks can be decrypted, and encryption undoes it. -/
theorem exists_decrypt (key : ChainingKey) (hiv : iv.length = 16) (hdata : data.length % 16 = 0) :
    ∃ plaintext, decrypt key iv data = .ok plaintext ∧ plaintext.length = data.length ∧
      encrypt key iv plaintext = .ok data := by
  obtain ⟨first, rfl⟩ := exists_bytes_eq hiv
  obtain ⟨cs, rfl⟩ := exists_ofBlocks hdata
  refine ⟨_, decrypt_ofBlocks key first cs, by simp, ?_⟩
  rw [encrypt_ofBlocks, encryptBlocks_decryptBlocks]

theorem check_of_length_ne (h : iv.length ≠ 16) :
    check iv data = .error (.keyLength 16 iv.length) := if_pos h

theorem check_of_unaligned (hiv : iv.length = 16) (h : data.length % 16 ≠ 0) :
    check iv data = .error (.blockLength 16 data.length) := by
  have vector : ¬ iv.length ≠ blockSize := not_not.2 hiv
  rw [check, if_neg vector]
  exact if_pos h

variable {key : ChainingKey}

theorem encrypt_of_unaligned (hiv : iv.length = 16) (h : data.length % 16 ≠ 0) :
    encrypt key iv data = .error (.blockLength 16 data.length) := by
  rw [encrypt, check_of_unaligned hiv h, error_bind]

theorem decrypt_of_unaligned (hiv : iv.length = 16) (h : data.length % 16 ≠ 0) :
    decrypt key iv data = .error (.blockLength 16 data.length) := by
  rw [decrypt, check_of_unaligned hiv h, error_bind]

/-- A decrypted block is the decipherment of the block in its place plus the block before, which for
the first one is the initial vector. -/
theorem exists_blocks {plaintext : Bytes} (hiv : iv.length = 16) (hdata : data.length % 16 = 0)
    (h : decrypt key iv data = .ok plaintext) {j : ℕ} (hj : j < data.length / 16) :
    ∃ c before : Block, data.block 16 j = c.bytes ∧ (iv ++ data).block 16 j = before.bytes ∧
      plaintext.block 16 j = ((Aes.decrypt (Schedule.ofKey key.bytes) c).add before).bytes := by
  obtain ⟨first, rfl⟩ := exists_bytes_eq hiv
  obtain ⟨cs, rfl⟩ := exists_ofBlocks hdata
  obtain rfl := Except.ok.inj ((decrypt_ofBlocks key first cs).symm.trans h)
  have inside : j < cs.length := by
    rw [length_ofBlocks] at hj
    omega
  have inside' : j < (first :: cs).length := by
    rw [List.length_cons]
    omega
  have hc := List.getElem?_eq_getElem inside
  have hbefore := List.getElem?_eq_getElem inside'
  exact ⟨_, _, block_ofBlocks hc, block_ofBlocks hbefore,
    block_ofBlocks (getElem?_decryptBlocks _ hc hbefore)⟩

end Bytes

/-! ## Two ciphertexts -/

/-- Plaintexts of one ciphertext under two initial vectors, which agree behind the first block and
differ there as the vectors do. -/
structure DifferByVectors (ciphertext iv iv' plaintext plaintext' : Bytes) : Prop where
  length_eq : plaintext.length = ciphertext.length
  length_eq' : plaintext'.length = ciphertext.length
  drop_eq : plaintext.drop 16 = plaintext'.drop 16
  xor_take : ciphertext ≠ [] →
    Bytes.xor (plaintext.take 16) (plaintext'.take 16) = Bytes.xor iv iv'
  eq_iff : plaintext = plaintext' ↔ ciphertext = [] ∨ iv = iv'

theorem differByVectors_decryptBlocks (schedule : Schedule) (iv iv' : Block) (cs : List Block) :
    DifferByVectors (ofBlocks cs) iv.bytes iv'.bytes (ofBlocks (decryptBlocks schedule iv cs))
      (ofBlocks (decryptBlocks schedule iv' cs)) := by
  have size (vector : Block) :
      (ofBlocks (decryptBlocks schedule vector cs)).length = (ofBlocks cs).length := by
    rw [length_ofBlocks, length_ofBlocks, length_decryptBlocks]
  cases cs with
  | nil => exact ⟨rfl, rfl, rfl, fun filled => absurd rfl filled, fun _ => Or.inl rfl, fun _ => rfl⟩
  | cons c cs =>
      have filled : ofBlocks (c :: cs) ≠ [] := List.ne_nil_of_length_pos (by simp)
      refine ⟨size iv, size iv', ?_, fun _ => ?_, ?_⟩
      all_goals rw [decryptBlocks, decryptBlocks, ofBlocks_cons, ofBlocks_cons]
      -- Behind the first block both runs go on with `c` as the block before.
      · rw [List.drop_left' (Block.length_bytes _), List.drop_left' (Block.length_bytes _)]
      · rw [List.take_left' (Block.length_bytes _), List.take_left' (Block.length_bytes _),
          ← Block.bytes_add, ← Block.bytes_add, Block.add_add_add]
      · rw [List.append_cancel_right_eq, Block.bytes_injective.eq_iff,
          (Block.add_left_injective _).eq_iff, Block.bytes_injective.eq_iff, or_iff_right filled]

/-- Another initial vector changes the first block only. -/
theorem exists_decrypt_of_vectors (key : ChainingKey) {iv iv' ciphertext : Bytes}
    (hiv : iv.length = 16) (hiv' : iv'.length = 16) (h : ciphertext.length % 16 = 0) :
    ∃ plaintext plaintext', decrypt key iv ciphertext = .ok plaintext ∧
      decrypt key iv' ciphertext = .ok plaintext' ∧
      DifferByVectors ciphertext iv iv' plaintext plaintext' := by
  obtain ⟨first, rfl⟩ := exists_bytes_eq hiv
  obtain ⟨first', rfl⟩ := exists_bytes_eq hiv'
  obtain ⟨cs, rfl⟩ := exists_ofBlocks h
  exact ⟨_, _, decrypt_ofBlocks key first cs, decrypt_ofBlocks key first' cs,
    differByVectors_decryptBlocks _ first first' cs⟩

/-- Chaining of blocks. Under an initial vector of 16 bytes encryption and decryption are inverse to
each other on whole blocks and keep the length; other data is refused, and with another initial
vector all data is. Of two ciphertexts of one length, each under a vector of its own, the decrypted
blocks at one place differ as the blocks before that place do if the ciphertext blocks in that place
are the same; they differ if the blocks before are the same and those in place are not. What stands
before block `j` of a ciphertext is block `j` of the initial vector followed by the ciphertext. -/
theorem chaining_laws (key : ChainingKey) (iv : Bytes) :
    (iv.length = 16 → ∀ data : Bytes,
      (data.length % 16 = 0 →
        (∃ ciphertext, encrypt key iv data = .ok ciphertext ∧ ciphertext.length = data.length ∧
          decrypt key iv ciphertext = .ok data) ∧
        ∃ plaintext, decrypt key iv data = .ok plaintext ∧ plaintext.length = data.length ∧
          encrypt key iv plaintext = .ok data) ∧
      (data.length % 16 ≠ 0 →
        encrypt key iv data = .error (.blockLength 16 data.length) ∧
          decrypt key iv data = .error (.blockLength 16 data.length))) ∧
    (iv.length ≠ 16 → ∀ data : Bytes,
      encrypt key iv data = .error (.keyLength 16 iv.length) ∧
        decrypt key iv data = .error (.keyLength 16 iv.length)) ∧
    ∀ iv' c c' : Bytes, iv.length = 16 → iv'.length = 16 → c.length % 16 = 0 →
      c'.length = c.length → ∃ p p', decrypt key iv c = .ok p ∧ decrypt key iv' c' = .ok p' ∧
        ∀ j < c.length / 16,
          (c.block 16 j = c'.block 16 j →
            (p.block 16 j).xor (p'.block 16 j) =
              ((iv ++ c).block 16 j).xor ((iv' ++ c').block 16 j) ∧
            (p.block 16 j = p'.block 16 j ↔ (iv ++ c).block 16 j = (iv' ++ c').block 16 j)) ∧
          ((iv ++ c).block 16 j = (iv' ++ c').block 16 j → c.block 16 j ≠ c'.block 16 j →
            p.block 16 j ≠ p'.block 16 j) := by
  refine ⟨fun hiv data => ⟨fun aligned => ?_, fun unaligned => ?_⟩, fun hiv data => ?_, ?_⟩
  · exact ⟨exists_encrypt key hiv aligned, exists_decrypt key hiv aligned⟩
  · exact ⟨encrypt_of_unaligned hiv unaligned, decrypt_of_unaligned hiv unaligned⟩
  · rw [encrypt, decrypt, check_of_length_ne hiv, error_bind, error_bind]
    exact ⟨rfl, rfl⟩
  · intro iv' c c' hiv hiv' hc hlength
    obtain ⟨p, hp, -⟩ := exists_decrypt key hiv hc
    obtain ⟨p', hp', -⟩ := exists_decrypt key hiv' (hlength ▸ hc)
    refine ⟨p, p', hp, hp', fun j hj => ?_⟩
    obtain ⟨b, before, hb, hbefore, hplain⟩ := exists_blocks hiv hc hp hj
    obtain ⟨b', before', hb', hbefore', hplain'⟩ :=
      exists_blocks hiv' (hlength ▸ hc) hp' (hlength ▸ hj)
    simp only [hb, hb', hbefore, hbefore', hplain, hplain', ← Block.bytes_add,
      Block.bytes_injective.eq_iff, ne_eq]
    refine ⟨?_, ?_⟩
    · rintro rfl
      exact ⟨Block.add_add_add _ _ _, (Block.add_left_injective _).eq_iff⟩
    · rintro rfl differ same
      -- Both the addition of the block before and the decipherment can be undone.
      exact differ (Aes.decrypt_injective _ (Block.add_injective _ same))

/-- Two blocks of zeros with one changed bit in the first: it is garbled, and the bit changes in the
second. An initial vector of eight bytes is refused. -/
theorem chaining_laws_of_changed_bit :
    let key : ChainingKey := ⟨⟨List.replicate 32 0, rfl⟩⟩
    let iv : Bytes := List.replicate 16 7
    let c : Bytes := List.replicate 32 0
    let c' : Bytes := c.set 3 128
    (∃ ciphertext, encrypt key iv c = .ok ciphertext ∧ decrypt key iv ciphertext = .ok c) ∧
    encrypt key iv [1] = .error (.blockLength 16 1) ∧
    decrypt key (List.replicate 8 7) c = .error (.keyLength 16 8) ∧
    ∃ p p', decrypt key iv c = .ok p ∧ decrypt key iv c' = .ok p' ∧
      p.block 16 0 ≠ p'.block 16 0 ∧
      (p.block 16 1).xor (p'.block 16 1) = (List.replicate 16 0).set 3 128 := by
  intro key iv c c'
  obtain ⟨inverse, -, changes⟩ := chaining_laws key iv
  obtain ⟨-, refused, -⟩ := chaining_laws key (List.replicate 8 7)
  obtain ⟨⟨ciphertext, encrypted, -, decrypted⟩, -⟩ := (inverse rfl c).1 (by decide)
  obtain ⟨p, p', hp, hp', blocks⟩ := changes iv c c' rfl rfl (by decide) (by decide)
  have garbled := (blocks 0 (by decide)).2 (by decide) (by decide)
  have flipped := ((blocks 1 (by decide)).1 (by decide)).1
  refine ⟨⟨ciphertext, encrypted, decrypted⟩, ((inverse rfl [1]).2 (by decide)).1,
    (refused (by decide) c).2, p, p', hp, hp', garbled, flipped.trans ?_⟩
  decide

end Cbc

end SealedMail
