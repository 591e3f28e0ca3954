import SealedMail.Proofs.Curve.Spellings
import SealedMail.Proofs.Derivation.Descent
import SealedMail.Proofs.Derivation.PrefixOrder

/-!
# The messages hashed for children

A derivation with the keyed hash as a parameter (`ExtendedPrivateKey.childUsing`,
`ExtendedPublicKey.childUsing`) shows what it gives to the hash: the chain code as the key and one
message, or nothing at all if it fails before (`childUsing_recording`). The messages are joined
without framing, and still tell their parts: a hardened one starts with a zero, which starts no
encoded public key (`hardenedMessage_ne_normalMessage`), and all parts have fixed lengths
(`hardenedMessage_inj`, `normalMessage_inj`). Main statement: `children_hash_apart`.
-/

namespace SealedMail

/-! ## What is given to the hash -/

/-- What a keyed hash works on. -/
structure HashInput where
  key : Bytes
  message : Bytes

/-- The keyed hash that records what it is given. -/
def recording (input : HashInput) : StateM (List HashInput) Split := do
  modify (· ++ [input])
  return Split.ofHash input.key input.message

section Using

variable {m : Type → Type} [Monad m] (hash : HashInput → m Split)

/-- Derive a child with a given keyed hash. -/
def ExtendedPrivateKey.childUsing (parent : ExtendedPrivateKey) (segment : Segment) :
    m (Except DerivationError ExtendedPrivateKey) :=
  match parent.path.child segment with
  | .error e => return .error e
  | .ok path => do
      let split ← hash ⟨parent.chainCode.bytes, parent.childMessage segment⟩
      match parent.key.offsetBy split.tweak with
      | .ok key => return .ok ⟨key, split.chainCode, path⟩
      | .error _ => return .error (.noChild segment.childNumber)

/-- Derive a child with a given keyed hash; hardened children are refused. -/
def ExtendedPublicKey.childUsing (parent : ExtendedPublicKey) (segment : Segment) :
    m (Except DerivationError ExtendedPublicKey) :=
  match parent.path.child segment with
  | .error e => return .error e
  | .ok path =>
      if segment.hardened then return .error (.hardenedChild path.text)
      else do
        let split ← hash
          ⟨parent.chainCode.bytes, normalMessage parent.key segment.childNumber⟩
        match parent.key.offsetBy split.tweak with
        | .ok key => return .ok ⟨key, split.chainCode, path⟩
        | .error _ => return .error (.noChild segment.childNumber)

end Using

theorem run_recording_bind {α : Type} (input : HashInput) (next : Split → StateM (List HashInput) α)
    (inputs : List HashInput) :
    (recording input >>= next).run inputs =
      (next (Split.ofHash input.key input.message)).run (inputs ++ [input]) := rfl

/-- A private key gives one message to the hash, unless it is as deep as the tree. -/
theorem ExtendedPrivateKey.childUsing_recording (parent : ExtendedPrivateKey)
    (segment : Segment) :
    (parent.childUsing recording segment).run [] = (parent.child segment,
      if parent.path.depth < 255 then
        [⟨parent.chainCode.bytes, parent.childMessage segment⟩]
      else []) := by
  unfold childUsing child
  cases hpath : parent.path.child segment with
  | error e =>
      rw [if_neg (Path.not_lt_of_child_eq_error hpath)]
      rfl
  | ok path =>
      rw [if_pos (Path.exists_child_iff.1 ⟨path, hpath⟩), ok_bind]
      dsimp only
      rw [run_recording_bind]
      cases parent.key.offsetBy
        (Split.ofHash parent.chainCode.bytes (parent.childMessage segment)).tweak <;> rfl

/-- A public key gives one message to the hash for a normal child, unless it is as deep as the tree,
and none for a hardened child. -/
theorem ExtendedPublicKey.childUsing_recording (parent : ExtendedPublicKey) (segment : Segment) :
    (parent.childUsing recording segment).run [] = (parent.child segment,
      if parent.path.depth < 255 ∧ segment.hardened = false then
        [⟨parent.chainCode.bytes, normalMessage parent.key segment.childNumber⟩]
      else []) := by
  unfold childUsing child
  cases hpath : parent.path.child segment with
  | error e =>
      rw [if_neg fun room => Path.not_lt_of_child_eq_error hpath room.1]
      rfl
  | ok path =>
      have room : parent.path.depth < 255 := Path.exists_child_iff.1 ⟨path, hpath⟩
      rw [ok_bind]
      cases hkind : segment.hardened with
      | true =>
          simp only [if_true, reduceCtorEq, and_false, if_false]
          rfl
      | false =>
          simp only [Bool.false_eq_true, if_false, room, and_self, if_true]
          rw [run_recording_bind]
          cases parent.key.offsetBy (Split.ofHash parent.chainCode.bytes
            (normalMessage parent.key segment.childNumber)).tweak <;> rfl

/-! ## What a message tells -/

theorem hardenedMessage_inj {key key' : PrivateKey} {segment segment' : Segment}
    (same : hardenedMessage key segment.childNumber = hardenedMessage key' segment'.childNumber) :
    key = key' ∧ segment.childNumber = segment'.childNumber := by
  have length : key.bytes.length = key'.bytes.length := by
    rw [key.length_bytes, key'.length_bytes]
  obtain ⟨hkey, hnumber⟩ := List.append_inj (List.cons.inj same).2 length
  exact ⟨PrivateKey.bytes_injective hkey,
    Bytes.bigEndian_injective segment.childNumber_lt segment'.childNumber_lt hnumber⟩

theorem normalMessage_inj {key key' : PublicKey} {segment segment' : Segment}
    (same : normalMessage key segment.childNumber = normalMessage key' segment'.childNumber) :
    key = key' ∧ segment.childNumber = segment'.childNumber := by
  have length : key.compressed.length = key'.compressed.length := by
    rw [key.length_compressed, key'.length_compressed]
  obtain ⟨hkey, hnumber⟩ := List.append_inj same length
  exact ⟨PublicKey.compressed_injective hkey,
    Bytes.bigEndian_injective segment.childNumber_lt segment'.childNumber_lt hnumber⟩

/-- The first byte tells the kinds apart. -/
theorem hardenedMessage_ne_normalMessage (key : PrivateKey) (other : PublicKey)
    (number number' : ℕ) : hardenedMessage key number ≠ normalMessage other number' := by
  intro same
  have front : (normalMessage other number').head? = other.compressed.head? :=
    List.head?_append_of_ne_nil _ (List.ne_nil_of_length_eq_add_one other.length_compressed)
  rw [← same] at front
  rcases other.head?_compressed with two | three
  · rw [two] at front
    cases front
  · rw [three] at front
    cases front

namespace ExtendedPrivateKey

theorem childMessage_of_hardened (parent : ExtendedPrivateKey) {segment : Segment}
    (h : segment.hardened = true) :
    parent.childMessage segment = hardenedMessage parent.key segment.childNumber := if_pos h

theorem childMessage_of_normal (parent : ExtendedPrivateKey) {segment : Segment}
    (h : segment.hardened = false) :
    parent.childMessage segment = normalMessage parent.key.publicKey segment.childNumber := by
  rw [childMessage, h, if_neg Bool.false_ne_true]

theorem length_childMessage (parent : ExtendedPrivateKey) (segment : Segment) :
    (parent.childMessage segment).length = 37 := by
  cases h : segment.hardened with
  | true => rw [childMessage_of_hardened _ h, length_hardenedMessage]
  | false => rw [childMessage_of_normal _ h, length_normalMessage]

/-- A hardened and a normal child have different messages. -/
theorem childMessage_ne_of_kinds {parent other : ExtendedPrivateKey} {segment segment' : Segment}
    (hardened : segment.hardened = true) (normal : segment'.hardened = false) :
    parent.childMessage segment ≠ other.childMessage segment' := by
  rw [childMessage_of_hardened _ hardened, childMessage_of_normal _ normal]
  exact hardenedMessage_ne_normalMessage _ _ _ _

/-- A message tells the child number, and the key that its kind of child is derived from. -/
theorem childMessage_eq_iff {parent other : ExtendedPrivateKey} {segment segment' : Segment} :
    parent.childMessage segment = other.childMessage segment' ↔
      segment.childNumber = segment'.childNumber ∧
        if segment.hardened then parent.key = other.key
        else parent.key.publicKey = other.key.publicKey := by
  constructor
  · intro same
    cases h : segment.hardened <;> cases h' : segment'.hardened
    · rw [childMessage_of_normal _ h, childMessage_of_normal _ h'] at same
      exact (normalMessage_inj same).symm
    · exact absurd same.symm (childMessage_ne_of_kinds h' h)
    · exact absurd same (childMessage_ne_of_kinds h h')
    · rw [childMessage_of_hardened _ h, childMessage_of_hardened _ h'] at same
      exact (hardenedMessage_inj same).symm
  · rintro ⟨number, key⟩
    have kind := Segment.hardened_eq_of_childNumber_eq number
    cases h : segment.hardened with
    | true =>
        rw [h, if_pos rfl] at key
        rw [childMessage_of_hardened _ h, childMessage_of_hardened _ (kind.symm.trans h), number,
          key]
    | false =>
        rw [h, if_neg Bool.false_ne_true] at key
        rw [childMessage_of_normal _ h, childMessage_of_normal _ (kind.symm.trans h), number, key]

end ExtendedPrivateKey

/-- What is hashed for children. A private key that is not as deep as the tree gives its chain code
and one message to the hash, and the message has 37 bytes. A public key gives its chain code and the
message of the private key for a normal child, and nothing for a hardened one. Two messages are the
same exactly if they are for the same child number and the same key: the private key of a hardened
child, the public key of a normal one. So hardened and normal children share no message, nor do
children of one parent that differ in more than their labels. -/
theorem children_hash_apart :
    (∀ (parent : ExtendedPrivateKey) (segment : Segment),
      (parent.childUsing recording segment).run [] = (parent.child segment,
        if parent.path.depth < 255 then
          [⟨parent.chainCode.bytes, parent.childMessage segment⟩]
        else []) ∧
      (parent.childMessage segment).length = 37) ∧
    (∀ (parent : ExtendedPublicKey) (holder : ExtendedPrivateKey) (segment : Segment),
      parent.key = holder.key.publicKey →
      (parent.childUsing recording segment).run [] = (parent.child segment,
        if parent.path.depth < 255 ∧ segment.hardened = false then
          [⟨parent.chainCode.bytes, holder.childMessage segment⟩]
        else [])) ∧
    (∀ (parent other : ExtendedPrivateKey) (segment segment' : Segment),
      parent.childMessage segment = other.childMessage segment' ↔
        segment.childNumber = segment'.childNumber ∧
          if segment.hardened then parent.key = other.key
          else parent.key.publicKey = other.key.publicKey) ∧
    (∀ (parent other : ExtendedPrivateKey) (segment segment' : Segment),
      segment.hardened = true → segment'.hardened = false →
        parent.childMessage segment ≠ other.childMessage segment') ∧
    ∀ (parent : ExtendedPrivateKey) (segment segment' : Segment),
      segment.index ≠ segment'.index ∨ segment.hardened ≠ segment'.hardened →
        parent.childMessage segment ≠ parent.childMessage segment' := by
  refine ⟨fun parent segment =>
    ⟨parent.childUsing_recording segment, parent.length_childMessage segment⟩, ?_,
    fun _ _ _ _ => ExtendedPrivateKey.childMessage_eq_iff,
    fun _ _ _ _ => ExtendedPrivateKey.childMessage_ne_of_kinds, ?_⟩
  · intro parent holder segment key
    rw [parent.childUsing_recording]
    cases h : segment.hardened with
    | true => simp
    | false => rw [key, holder.childMessage_of_normal h]
  · intro parent segment segment' differ same
    have number := (ExtendedPrivateKey.childMessage_eq_iff.1 same).1
    obtain ⟨index, kind⟩ := Segment.childNumber_eq_iff.1 number
    exact differ.elim (fun ne => ne index) fun ne => ne kind

/-- The children `1'`, `1` under a label and `2` of a key, and the child `1` of its public half
under another chain code. -/
theorem children_hash_apart_under_one_key :
    let holder : ExtendedPrivateKey :=
      ⟨⟨⟨7, by decide⟩⟩, .ofNat 32 5, ⟨[⟨none, 1, true, by decide⟩], by decide⟩⟩
    let viewer : ExtendedPublicKey := ⟨holder.key.publicKey, .ofNat 32 6, Path.root⟩
    let hardened : Segment := ⟨none, 1, true, by decide⟩
    let normal : Segment := ⟨some "a", 1, false, by decide⟩
    let second : Segment := ⟨none, 2, false, by decide⟩
    viewer.key = holder.key.publicKey ∧
    ((viewer.childUsing recording normal).run []).2 =
      [⟨viewer.chainCode.bytes, holder.childMessage normal⟩] ∧
    (hardened.hardened = true ∧ normal.hardened = false ∧
      holder.childMessage hardened ≠ holder.childMessage normal) ∧
    ((normal.index ≠ second.index ∨ normal.hardened ≠ second.hardened) ∧
      holder.childMessage normal ≠ holder.childMessage second) := by
  intro holder viewer hardened normal second
  have differ : normal.index ≠ second.index ∨ normal.hardened ≠ second.hardened :=
    Or.inl (by decide)
  obtain ⟨-, shared, -, kinds, children⟩ := children_hash_apart
  have given := shared viewer holder normal rfl
  have room : viewer.path.depth < 255 ∧ normal.hardened = false := by decide
  rw [if_pos room] at given
  exact ⟨rfl, congrArg Prod.snd given, ⟨rfl, rfl, kinds holder holder hardened normal rfl rfl⟩,
    differ, children holder normal second differ⟩

end SealedMail
