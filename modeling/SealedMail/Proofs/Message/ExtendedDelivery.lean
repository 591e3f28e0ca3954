import SealedMail.Proofs.Derivation.Lineage
import SealedMail.Proofs.Derivation.Printing
import SealedMail.Proofs.Derivation.PublicHalf
import SealedMail.Proofs.Message.Policies

/-!
# Delivery to descendants of a public key

A sender derives the receiver's key from the public half of an account, writes the place of the key
as text, and seals. The receiver reads the text and derives from the root. The place mixes the
labels of the root, of the account and of the target, all of them grammatical
(`Lineage.isGrammatical_descend`), so the text is read back as that place. There the root finds the
private key, since the two descents make up a run. Main statement: `Opener.decrypt_forExtended`.
-/

namespace SealedMail

/-- The labels on the way down are those of the start and those of the target. -/
theorem Lineage.isGrammatical_descend {κ ν : Type} {kind : Lineage κ ν} {start key : κ}
    {target : Path} (hstart : (kind.path start).isGrammatical = true)
    (htarget : target.isGrammatical = true) (h : kind.descend start target = .ok key) :
    (kind.path key).isGrammatical = true := by
  rw [Path.isGrammatical_iff] at hstart htarget ⊢
  rw [segments_descend h]
  exact List.forall_mem_append.2 ⟨hstart, fun step hmem => htarget step (List.mem_of_mem_drop hmem)⟩

namespace ExtendedPrivateKey

/-- Through normal steps the public half finds the public half of a key, unless a child number is
refused. -/
theorem exists_descend_toPublic {start : ExtendedPrivateKey} {target : Path}
    (below : start.path.isPrefixOf target = true)
    (normal : ∀ step ∈ target.segments.drop start.path.depth, step.hardened = false)
    (not_refused : ∀ number, start.toPublic.descend target ≠ .error (.noChild number)) :
    ∃ key, (start.descend target).result = .ok key ∧
      start.toPublic.descend target = .ok key.toPublic := by
  have commutes : start.toPublic.descend target = (start.descend target).result.map toPublic := by
    rw [result_descend_of_isPrefixOf below, ← foldlM_child_toPublic normal]
    exact ExtendedPublicKey.lineage.descend_eq below normal
  cases found : (start.descend target).result with
  | ok key => exact ⟨key, rfl, by rw [commutes, found, map_ok]⟩
  | error e =>
      have refused := found
      rw [result_descend_of_isPrefixOf below] at refused
      obtain ⟨step, -, rfl⟩ :=
        exists_noChild_of_foldlM_child (Path.depth_add_length_drop below) refused
      exact absurd (by rw [commutes, found, map_error]) (not_refused step.childNumber)

/-- The tree below a root holds the key that two descents find, at the place of that key. -/
theorem result_below_of_descend {root account key : ExtendedPrivateKey} {accountPath target : Path}
    (haccount : (root.descend accountPath).result = .ok account)
    (hkey : (account.descend target).result = .ok key) :
    (KeyTree.below root key.path).result = .ok key.key := by
  have run : lineage.Reaches root key :=
    (Relation.ReflTransGen.single (.descend accountPath haccount)).tail (.descend target hkey)
  have found : (root.descend key.path).result = .ok key := Lineage.descend_of_reaches run
  rw [KeyTree.result_below, found, map_ok]

end ExtendedPrivateKey

namespace Opener

/-- What is sealed for an extended public key opens for its owner. Let an account be derived from a
root with grammatical labels, and a receiver from the public half of the account by normal steps,
the paths being read from texts with labels of their own. Then a payload that can be signed arrives
at the opener below the root that trusts the sender, if the receiver's path has at most 1000 bytes
as text and the source of randomness offers a scalar. A longer path is refused whatever the source
is, and the source is left untouched. -/
theorem decrypt_forExtended (sender : PrivateKey) {root account : ExtendedPrivateKey}
    {accountText targetText : String} {accountPath target : Path} {payload : Bytes}
    (labels : root.path.isGrammatical = true)
    (haccountPath : Path.parse accountText = .ok accountPath)
    (haccount : (root.descend accountPath).result = .ok account)
    (htarget : Path.parse targetText = .ok target)
    (below : accountPath.isPrefixOf target = true)
    (normal : ∀ step ∈ target.segments.drop accountPath.depth, step.hardened = false)
    (not_refused : ∀ number, account.toPublic.descend target ≠ .error (.noChild number))
    (hpayload : payload.length ≤ 65535) (source : RandomSource) :
    ∃ receiver, account.toPublic.descend target = .ok receiver ∧
      let sealer := Sealer.forExtended sender receiver
      let size := receiver.path.text.utf8ByteSize
      (size ≤ 1000 → ∀ signature,
        Signature.sign sender (SignedPayload.digest payload receiver.key) = .ok signature →
          ∀ offers : source.OffersScalar,
            ∃ text, (sealer.encrypt payload source fun _ => offers).1.result = .ok text ∧
              ((Opener.mk (KeyTree.below root) (.only sender.publicKey)).decrypt text).result =
                .ok payload) ∧
      (1000 < size → ∃ h, sealer.encrypt payload source h =
        (.ofExcept (.error (.fieldTooLong .derivationPath size 1000)), source)) := by
  have descended : ExtendedPrivateKey.lineage.descend root accountPath = .ok account := haccount
  have numbers : account.path.childNumbers = accountPath.childNumbers :=
    Lineage.childNumbers_descend descended
  have depth : account.path.depth = accountPath.depth := Lineage.depth_descend descended
  -- The account has labels of its own, but the child numbers of its path.
  have below' : account.path.isPrefixOf target = true := by
    rw [Path.isPrefixOf, numbers]
    exact below
  rw [← depth] at normal
  obtain ⟨key, hkey, hreceiver⟩ :=
    ExtendedPrivateKey.exists_descend_toPublic below' normal not_refused
  refine ⟨key.toPublic, hreceiver, ?_, ?_⟩
  · intro hsize signature hsign offers
    have descended' : ExtendedPrivateKey.lineage.descend account target = .ok key := hkey
    have grammatical : key.path.isGrammatical = true :=
      Lineage.isGrammatical_descend
        (Lineage.isGrammatical_descend labels (Path.isGrammatical_of_parse haccountPath) descended)
        (Path.isGrammatical_of_parse htarget) descended'
    have hplace : Path.parse key.path.text = .ok key.path := Path.parse_text grammatical
    let sealer := Sealer.forExtended sender key.toPublic
    have hpath : sealer.receiverPath.utf8ByteSize ≤ Envelope.maxPathSize := hsize
    have hsign : Signature.sign sealer.sender (SignedPayload.digest payload sealer.receiver) =
        .ok signature := hsign
    obtain ⟨text, hencrypt, opened⟩ := exists_decrypt_encrypt hpayload hpath hsign hplace
      (ExtendedPrivateKey.result_below_of_descend haccount hkey) rfl fun _ => offers
    refine ⟨text, hencrypt, ?_⟩
    have trusted : sealer.sender.publicKey = sender.publicKey := rfl
    rw [opened, SenderPolicy.map_check rfl, if_pos trusted]
  · intro hlong
    exact Sealer.exists_encrypt_eq_of_error source
      (Sealer.plaintext_of_maxPathSize_lt hpayload hlong)

/-- From the key `7` to a normal child of a hardened child of the key `5`, under labels of three
origins; and a refusal for the key `5` below a hundred steps, with a source of zeros. -/
theorem decrypt_forExtended_below_labels :
    let sender : PrivateKey := ⟨⟨7, by decide⟩⟩
    let root : ExtendedPrivateKey :=
      ⟨⟨⟨5, by decide⟩⟩, .ofNat 32 0, ⟨[⟨some "r", 1, true, by decide⟩], by decide⟩⟩
    let deep : ExtendedPrivateKey := ⟨⟨⟨5, by decide⟩⟩, .ofNat 32 0,
      ⟨List.replicate 100 ⟨none, 2147483647, true, by decide⟩, by decide⟩⟩
    let payload : Bytes := [104, 105]
    let source := RandomSource.ofBytes [1, 2, 3]
    let offers := (RandomSource.endless_ofBytes [1, 2, 3]).offersScalar
    let zeros : RandomSource := ⟨fun _ => 0, 0⟩
    (∃ accountPath target account receiver signature text,
      Path.parse "m/x:1'/a:2h" = .ok accountPath ∧ Path.parse "m/1'/2'/b:03" = .ok target ∧
      (root.descend accountPath).result = .ok account ∧
      account.toPublic.descend target = .ok receiver ∧
      receiver.path.text = "m/r:1'/a:2'/b:3" ∧
      Signature.sign sender (SignedPayload.digest payload receiver.key) = .ok signature ∧
      ((Sealer.forExtended sender receiver).encrypt payload source fun _ => offers).1.result =
        .ok text ∧
      ((Opener.mk (KeyTree.below root) (.only sender.publicKey)).decrypt text).result =
        .ok payload) ∧
    Path.parse deep.path.text = .ok deep.path ∧ (deep.descend deep.path).result = .ok deep ∧
      deep.toPublic.descend deep.path = .ok deep.toPublic ∧
      deep.path.text.utf8ByteSize = 1201 ∧
      ∃ h, (Sealer.forExtended sender deep.toPublic).encrypt payload zeros h =
        (.ofExcept (.error (.fieldTooLong .derivationPath 1201 1000)), zeros) := by
  intro sender root deep payload source offers zeros
  have fits : payload.length ≤ 65535 := by decide
  let accountPath : Path :=
    ⟨[⟨some "x", 1, true, by decide⟩, ⟨some "a", 2, true, by decide⟩], by decide⟩
  let target : Path := ⟨[⟨none, 1, true, by decide⟩, ⟨none, 2, true, by decide⟩,
    ⟨some "b", 3, false, by decide⟩], by decide⟩
  have parsed : Path.parse "m/x:1'/a:2h" = .ok accountPath := by decide +kernel
  have parsed' : Path.parse "m/1'/2'/b:03" = .ok target := by decide +kernel
  have run : ((root.descend accountPath).result >>= fun account =>
      account.toPublic.descend target).toOption.map (fun receiver => (receiver.path.text,
        (Signature.signFirst? sender (SignedPayload.digest payload receiver.key)).isSome)) =
      some ("m/r:1'/a:2'/b:3", true) := by
    decide +kernel
  obtain ⟨receiver, hrun, hreceiver⟩ := exists_eq_ok_of_map_eq_some run
  obtain ⟨account, haccount, hdescend⟩ := bind_eq_ok_iff.1 hrun
  obtain ⟨htext, signs⟩ := Prod.mk.inj hreceiver
  obtain ⟨signature, hsign⟩ := Signature.exists_sign_of_first signs
  have size : receiver.path.text.utf8ByteSize ≤ 1000 := by
    rw [htext]
    decide +kernel
  obtain ⟨found, hfound, delivered, -⟩ := decrypt_forExtended sender (by decide) parsed haccount
    parsed' (by decide) (by decide) (by simp [hdescend]) fits source
  obtain rfl : receiver = found := Except.ok.inj (hdescend.symm.trans hfound)
  obtain ⟨text, hencrypt, hdecrypt⟩ := delivered size signature hsign offers
  refine ⟨⟨accountPath, target, account, receiver, signature, text, parsed, parsed', haccount,
    hdescend, htext, hsign, hencrypt, hdecrypt⟩, ?_⟩
  have grammatical : deep.path.isGrammatical = true := by decide
  have parsed_deep : Path.parse deep.path.text = .ok deep.path := Path.parse_text grammatical
  -- The empty run is a descent to the place where it starts.
  have stays : ExtendedPrivateKey.lineage.Reaches deep deep := .refl
  have stays' : ExtendedPublicKey.lineage.Reaches deep.toPublic deep.toPublic := .refl
  have reached : (deep.descend deep.path).result = .ok deep := Lineage.descend_of_reaches stays
  have reached' : deep.toPublic.descend deep.path = .ok deep.toPublic :=
    Lineage.descend_of_reaches stays'
  have long : deep.toPublic.path.text.utf8ByteSize = 1201 := by decide +kernel
  have below : deep.path.isPrefixOf deep.path = true := Path.isPrefixOf_iff.2 List.prefix_rfl
  obtain ⟨found, hfound, -, refused⟩ := decrypt_forExtended sender grammatical parsed_deep reached
    parsed_deep below (by simp [Path.depth]) (by simp [reached']) fits zeros
  obtain rfl : deep.toPublic = found := Except.ok.inj (reached'.symm.trans hfound)
  rw [long] at refused
  exact ⟨parsed_deep, reached, reached', long, refused (by decide)⟩

end Opener

end SealedMail
