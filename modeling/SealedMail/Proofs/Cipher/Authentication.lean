import SealedMail.Proofs.Bytes.Change
import SealedMail.Proofs.Bytes.Positional
import SealedMail.Proofs.Cipher.Field
import SealedMail.Proofs.Cipher.Permutation
import SealedMail.Proofs.Cipher.Sealing

/-!
# A changed block does not authenticate

A change inside one block of 16 bytes changes one field element (`Galois.oneChange_elements`), and
at a hash key other than zero one changed element changes the hash (`Galois.hash_ne`). A changed
nonce gives another counter block, which the cipher keeps apart (`Gcm.cipher_injective`). So a
ciphertext that opens is refused after a change inside one block of the associated data, the nonce
or the body, and after any change of the tag. The main statement is `Gcm.openWith_changed_block`;
for one changed byte of the ciphertext there is `Gcm.openWith_changed_ciphertext`.
-/

namespace SealedMail

namespace Galois

theorem toNat_ofBlock {block : Bytes} (h : block.length = 16) :
    (ofBlock block).toNat = Bytes.value block := by
  rw [ofBlock, BitVec.toNat_ofNat]
  apply Nat.mod_eq_of_lt
  apply lt_of_lt_of_eq (Bytes.value_lt block)
  rw [h]
  decide

theorem ofBlock_injective {a b : Bytes} (ha : a.length = 16) (hb : b.length = 16)
    (h : ofBlock a = ofBlock b) : a = b := by
  refine Bytes.value_injective (ha.trans hb.symm) ?_
  rw [← toNat_ofBlock ha, ← toNat_ofBlock hb, h]

theorem length_toBlock (e : Element) : (toBlock e).length = 16 := Bytes.length_bigEndian 16 _

theorem ofBlock_toBlock (e : Element) : ofBlock (toBlock e) = e := by
  apply BitVec.eq_of_toNat_eq
  rw [toNat_ofBlock (length_toBlock e), toBlock, Bytes.value_bigEndian_of_lt]
  exact lt_of_lt_of_eq e.isLt (by decide)

theorem toBlock_injective : Function.Injective toBlock :=
  Function.LeftInverse.injective ofBlock_toBlock

/-! ## Elements of a byte string -/

/-- The element that the bytes of a block, filled up with zeros, spell. -/
def padded (block : Bytes) : Element := ofBlock (block ++ List.replicate (16 - block.length) 0)

theorem padded_ne {a b : Bytes} (ha : a.length ≤ 16) (hlength : b.length = a.length) (h : a ≠ b) :
    padded a ≠ padded b := by
  intro e
  have same := ofBlock_injective (by simp [ha]) (by simp [hlength, ha]) e
  apply h
  exact List.append_inj_left same hlength.symm

theorem elements_of_ne_nil (data : Bytes) (h : data ≠ []) :
    elements data = padded (data.take 16) :: elements (data.drop 16) := by
  rw [elements, Bytes.blocks, if_neg (by simp [h])]
  rfl

/-- A change inside one block changes one element. -/
theorem oneChange_elements {before after : Bytes} (h : BlockChange 16 before after) :
    OneChange (elements before) (elements after) := by
  -- By the length: each step takes the first block off both.
  induction hlength : before.length using Nat.strongRecOn generalizing before after with
  | ind length ih =>
      subst hlength
      have filled : 0 < before.length := by
        by_contra empty
        have none_before := List.eq_nil_of_length_eq_zero (Nat.eq_zero_of_not_pos empty)
        exact h.ne (none_before.trans (List.eq_nil_of_length_eq_zero
          (h.length_eq.trans (Nat.eq_zero_of_not_pos empty))).symm)
      rw [elements_of_ne_nil before (List.ne_nil_of_length_pos filled),
        elements_of_ne_nil after (List.ne_nil_of_length_pos (h.length_eq ▸ filled))]
      rcases h.cases (by decide) with ⟨first, rest⟩ | ⟨first, later⟩
      · rw [rest]
        refine OneChange.of_ne (padded_ne ?_ ?_ first) [] _
        · simp
        · simp [h.length_eq]
      · -- The first blocks are the same, and the change is in the rest.
        have shorter : (before.drop 16).length < before.length := by
          rw [List.length_drop]
          omega
        rw [first]
        exact (ih _ shorter later rfl).append_left [_]

/-! ## The hash -/

theorem foldl_injective {h : Element} (hh : h ≠ 0#128) (coefficients : List Element) :
    Function.Injective fun acc => coefficients.foldl (fun acc c => mul (acc ^^^ c) h) acc := by
  induction coefficients with
  | nil =>
      intro a b e
      exact e
  | cons c coefficients ih =>
      intro a b e
      -- Each step adds a coefficient and multiplies, and both are injective.
      have step : a ^^^ c = b ^^^ c := mul_injective hh (ih e)
      simpa using congrArg (· ^^^ c) step

/-- At a key other than zero, one changed element changes the hash. -/
theorem hash_ne {h : Element} (hh : h ≠ 0#128) {before after : List Element}
    (hchange : OneChange before after) : hash h before ≠ hash h after := by
  obtain ⟨front, old, new, back, rfl, rfl, hne⟩ := hchange
  intro e
  simp only [hash, List.foldl_append, List.foldl_cons] at e
  have step := mul_injective hh (foldl_injective hh back e)
  apply hne
  simpa using step

end Galois

namespace Gcm

open Aes (Schedule Block)

theorem cipher_injective (schedule : Schedule) : Function.Injective (cipher schedule) := by
  intro a b h
  have blocks := Aes.encrypt_injective schedule (Block.bytes_injective
    (Galois.ofBlock_injective (Block.length_bytes _) (Block.length_bytes _) h))
  have bytes := congrArg Block.bytes blocks
  rw [Block.bytes_ofBytes (Galois.length_toBlock a), Block.bytes_ofBytes (Galois.length_toBlock b)]
    at bytes
  exact Galois.toBlock_injective bytes

/-- A nonce changed inside one block gives another counter block. -/
theorem firstCounter_ne {schedule : Schedule} (hkey : hashKey schedule ≠ 0#128)
    {nonce nonce' : Bytes} (h : BlockChange 16 nonce nonce') :
    firstCounter schedule nonce ≠ firstCounter schedule nonce' := by
  rw [firstCounter, firstCounter, h.length_eq]
  -- A nonce of twelve bytes is the counter block; any other is hashed with its length.
  split
  · rename_i short
    intro e
    have same := Galois.ofBlock_injective (by simp [short]) (by simp [h.length_eq, short]) e
    apply h.ne
    exact List.append_cancel_right same
  · have lengths : Galois.lengths [] nonce' = Galois.lengths [] nonce := by
      rw [Galois.lengths, Galois.lengths, h.length_eq]
    rw [lengths]
    exact Galois.hash_ne hkey ((Galois.oneChange_elements h).append_right _)

theorem tag_ne_of_firstCounter_ne (schedule : Schedule) {counter counter' : Galois.Element}
    (h : counter ≠ counter') (associated body : Bytes) :
    tag schedule counter associated body ≠ tag schedule counter' associated body := by
  intro e
  -- The hash is the same on both sides, so the ciphers of the counters are.
  have same := Galois.toBlock_injective e
  apply h
  apply cipher_injective schedule
  exact (BitVec.xor_right_inj _).1 same

theorem tag_ne_of_oneChange {schedule : Schedule} (hkey : hashKey schedule ≠ 0#128)
    (counter : Galois.Element) {associated associated' body body' : Bytes}
    (h : OneChange (authenticated associated body) (authenticated associated' body')) :
    tag schedule counter associated body ≠ tag schedule counter associated' body' := by
  intro e
  -- The cipher of the counter is the same on both sides, so the hashes are.
  have same := Galois.toBlock_injective e
  apply Galois.hash_ne hkey h
  exact (BitVec.xor_left_inj _).1 same

theorem oneChange_authenticated_left {associated associated' : Bytes}
    (h : BlockChange 16 associated associated') (body : Bytes) :
    OneChange (authenticated associated body) (authenticated associated' body) := by
  have lengths : Galois.lengths associated' body = Galois.lengths associated body := by
    rw [Galois.lengths, Galois.lengths, h.length_eq]
  rw [authenticated, authenticated, lengths]
  exact ((Galois.oneChange_elements h).append_right _).append_right _

theorem oneChange_authenticated_right (associated : Bytes) {body body' : Bytes}
    (h : BlockChange 16 body body') :
    OneChange (authenticated associated body) (authenticated associated body') := by
  have lengths : Galois.lengths associated body' = Galois.lengths associated body := by
    rw [Galois.lengths, Galois.lengths, h.length_eq]
  rw [authenticated, authenticated, lengths]
  exact ((Galois.oneChange_elements h).append_left _).append_right _

/-! ## Refusals -/

/-- A body in front of another tag than its own is refused. -/
theorem openWith_of_ne_tag {key : SealingKey} {nonce body sent associated : Bytes}
    (hnonce : checkNonce nonce = .ok ()) (hsize : sent.length = tagSize)
    (h : sent ≠ tag (Schedule.ofKey key.bytes) (firstCounter (Schedule.ofKey key.bytes) nonce)
      associated body) :
    openWith key nonce (body ++ sent) associated = .error .notAuthentic := by
  rw [openWith_eq hnonce, decrypt?_append hsize, if_neg h]

/-- What opens has a supported nonce and ends with the tag of its body. -/
theorem exists_body_of_openWith {key : SealingKey} {nonce ciphertext associated plaintext : Bytes}
    (h : openWith key nonce ciphertext associated = .ok plaintext) :
    checkNonce nonce = .ok () ∧ ∃ body, ciphertext = body ++
      tag (Schedule.ofKey key.bytes) (firstCounter (Schedule.ofKey key.bytes) nonce) associated
        body := by
  obtain ⟨hmin, hmax, rfl⟩ := sealWith_eq_ok_iff.1 (openWith_eq_ok_iff.1 h)
  exact ⟨checkNonce_eq_ok_iff.2 ⟨hmin, hmax⟩, _, rfl⟩

section Changes

variable {key : SealingKey} {nonce associated plaintext : Bytes}

theorem openWith_changed_associated {ciphertext : Bytes}
    (hkey : hashKey (Schedule.ofKey key.bytes) ≠ 0#128)
    (h : openWith key nonce ciphertext associated = .ok plaintext) {associated' : Bytes}
    (hchange : BlockChange 16 associated associated') :
    openWith key nonce ciphertext associated' = .error .notAuthentic := by
  obtain ⟨hnonce, body, rfl⟩ := exists_body_of_openWith h
  apply openWith_of_ne_tag hnonce (length_tag _ _ _ _)
  apply tag_ne_of_oneChange hkey
  exact oneChange_authenticated_left hchange body

theorem openWith_changed_nonce {ciphertext : Bytes}
    (hkey : hashKey (Schedule.ofKey key.bytes) ≠ 0#128)
    (h : openWith key nonce ciphertext associated = .ok plaintext) {nonce' : Bytes}
    (hchange : BlockChange 16 nonce nonce') :
    openWith key nonce' ciphertext associated = .error .notAuthentic := by
  obtain ⟨hnonce, body, rfl⟩ := exists_body_of_openWith h
  have hnonce' : checkNonce nonce' = .ok () := by
    rw [checkNonce_eq_ok_iff, hchange.length_eq]
    exact checkNonce_eq_ok_iff.1 hnonce
  apply openWith_of_ne_tag hnonce' (length_tag _ _ _ _)
  apply tag_ne_of_firstCounter_ne
  exact firstCounter_ne hkey hchange

variable {body sent : Bytes} (hsize : sent.length = tagSize)
  (h : openWith key nonce (body ++ sent) associated = .ok plaintext)

include hsize h

/-- A body and a tag that open: the nonce is supported, and the tag is that of the body. -/
theorem eq_tag_of_openWith :
    checkNonce nonce = .ok () ∧ sent = tag (Schedule.ofKey key.bytes)
      (firstCounter (Schedule.ofKey key.bytes) nonce) associated body := by
  obtain ⟨hnonce, body', split⟩ := exists_body_of_openWith h
  obtain ⟨rfl, hsent⟩ := List.append_inj' split (hsize.trans (length_tag _ _ _ _).symm)
  exact ⟨hnonce, hsent⟩

theorem openWith_changed_body (hkey : hashKey (Schedule.ofKey key.bytes) ≠ 0#128) {body' : Bytes}
    (hchange : BlockChange 16 body body') :
    openWith key nonce (body' ++ sent) associated = .error .notAuthentic := by
  obtain ⟨hnonce, hsent⟩ := eq_tag_of_openWith hsize h
  -- The tag is still that of the old body.
  apply openWith_of_ne_tag hnonce hsize
  rw [hsent]
  apply tag_ne_of_oneChange hkey
  exact oneChange_authenticated_right associated hchange

theorem openWith_changed_tag {sent' : Bytes} (hsize' : sent'.length = tagSize)
    (hne : sent ≠ sent') :
    openWith key nonce (body ++ sent') associated = .error .notAuthentic := by
  obtain ⟨hnonce, hsent⟩ := eq_tag_of_openWith hsize h
  apply openWith_of_ne_tag hnonce hsize'
  rw [← hsent]
  exact hne.symm

end Changes

/-- One changed byte of the body or of the tag. -/
theorem openWith_changed_ciphertext {key : SealingKey}
    {nonce ciphertext associated plaintext : Bytes}
    (hkey : hashKey (Schedule.ofKey key.bytes) ≠ 0#128)
    (h : openWith key nonce ciphertext associated = .ok plaintext) {ciphertext' : Bytes}
    (hchange : OneChange ciphertext ciphertext') :
    openWith key nonce ciphertext' associated = .error .notAuthentic := by
  obtain ⟨-, body, rfl⟩ := exists_body_of_openWith h
  rcases hchange.of_append with ⟨body', hbody, rfl⟩ | ⟨sent, hsent, rfl⟩
  · exact openWith_changed_body (length_tag _ _ _ _) h hkey (hbody.blockChange 16)
  · exact openWith_changed_tag (length_tag _ _ _ _) h (hsent.length_eq.trans (length_tag _ _ _ _))
      hsent.ne

/-- What opens is refused after a change inside one block. A change of the associated data, of the
nonce or of the body stays inside one of their blocks of 16 bytes; a nonce of 12 bytes and the tag
have a single block, so any bytes of them may change. -/
theorem openWith_changed_block {key : SealingKey} {nonce ciphertext associated plaintext : Bytes}
    (hkey : hashKey (Schedule.ofKey key.bytes) ≠ 0#128)
    (h : openWith key nonce ciphertext associated = .ok plaintext) :
    (∀ associated', BlockChange 16 associated associated' →
      openWith key nonce ciphertext associated' = .error .notAuthentic) ∧
    (∀ nonce', BlockChange 16 nonce nonce' →
      openWith key nonce' ciphertext associated = .error .notAuthentic) ∧
    (∀ nonce', nonce.length = 12 → nonce'.length = 12 → nonce' ≠ nonce →
      openWith key nonce' ciphertext associated = .error .notAuthentic) ∧
    ∃ body sent, ciphertext = body ++ sent ∧ sent.length = 16 ∧
      (∀ body', BlockChange 16 body body' →
        openWith key nonce (body' ++ sent) associated = .error .notAuthentic) ∧
      ∀ sent', sent'.length = 16 → sent' ≠ sent →
        openWith key nonce (body ++ sent') associated = .error .notAuthentic := by
  refine ⟨fun associated' => openWith_changed_associated hkey h,
    fun nonce' => openWith_changed_nonce hkey h, fun nonce' short short' hne => ?_, ?_⟩
  · have single : BlockChange 16 nonce nonce' :=
      BlockChange.of_length_le (by omega) (short'.trans short.symm) hne.symm
    exact openWith_changed_nonce hkey h single
  · obtain ⟨-, body, split⟩ := exists_body_of_openWith h
    rw [split] at h
    exact ⟨body, _, split, length_tag _ _ _ _,
      fun body' => openWith_changed_body (length_tag _ _ _ _) h hkey,
      fun sent' size hne => openWith_changed_tag (length_tag _ _ _ _) h size hne.symm⟩

/-- Twenty bytes of associated data with sixteen of them changed, and a hashed nonce of 17 bytes
with its second block changed. -/
theorem openWith_changed_block_of_two_blocks :
    let key : SealingKey := ⟨⟨List.replicate 32 0, rfl⟩⟩
    let nonce : Bytes := List.replicate 17 9
    let associated : Bytes := List.replicate 16 1 ++ List.replicate 4 2
    hashKey (Schedule.ofKey key.bytes) ≠ 0#128 ∧ ∃ ciphertext,
      openWith key nonce ciphertext associated = .ok [104, 105] ∧
      openWith key nonce ciphertext (List.replicate 16 3 ++ List.replicate 4 2) =
        .error .notAuthentic ∧
      openWith key (nonce.set 16 8) ciphertext associated = .error .notAuthentic := by
  intro key nonce associated
  have nonzero : hashKey (Schedule.ofKey key.bytes) ≠ 0#128 := by decide +kernel
  have opens : openWith key nonce
      (encrypt (Schedule.ofKey key.bytes) nonce [104, 105] associated) associated =
        .ok [104, 105] := by
    rw [openWith_eq_ok_iff, sealWith_eq_ok_iff]
    exact ⟨by decide, by decide, rfl⟩
  obtain ⟨changedAssociated, changedNonce, -, -⟩ := openWith_changed_block nonzero opens
  refine ⟨nonzero, _, opens, changedAssociated _ ⟨rfl, by decide, 0, fun i outside => ?_⟩,
    changedNonce _ ((OneChange.set ?_ ?_).blockChange 16)⟩
  · -- Behind the first block both end with the same four bytes.
    have behind : 16 ≤ i := by omega
    rw [List.getElem?_append_right behind, List.getElem?_append_right behind]
    rfl
  · decide
  · decide

end Gcm

end SealedMail
