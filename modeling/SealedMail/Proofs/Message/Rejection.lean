import SealedMail.Proofs.Message.Policies

/-!
# Where opening fails

Opening is a machine of nine stages. Each one turns what is known about a text into more, or fails
(`Opener.advance`), and the result of opening is that of nine steps of the machine
(`Opener.steps_nine`). A step that fails does so with the kind of its stage
(`Opener.kind_of_advance_eq_error`), and steps fail exactly if one of them does after the ones
before it have succeeded (`Opener.steps_eq_error_iff`), so the failure of opening belongs to one
stage. The key tree is asked in one stage only, with the place that was read from the text
(`Opener.decrypt_of_address`). Main statement: `Opener.decrypt_fails_at_first_stage`.
-/

namespace SealedMail

/-! ## Stages -/

/-- The stages of opening, in order. Each is named for what it is about: the base-58 text, the
layout of the envelope, the path in it, the key at the path, the ephemeral key, the cipher with its
nonce and tag, the framing of the payload, the signature, and the demand on the signer. -/
inductive Stage where
  | text
  | layout
  | path
  | keys
  | ephemeral
  | cipher
  | payload
  | signature
  | signer
  deriving DecidableEq

namespace Stage

/-- The number of stages before this one. -/
def index : Stage → ℕ
  | text => 0
  | layout => 1
  | path => 2
  | keys => 3
  | ephemeral => 4
  | cipher => 5
  | payload => 6
  | signature => 7
  | signer => 8

/-- What kind of failure ends opening at a stage. -/
def kind : Stage → FailureKind
  | text | layout | payload => .format
  | path | keys => .derivation
  | ephemeral | cipher => .crypto
  | signature | signer => .authentication

theorem index_lt (stage : Stage) : stage.index < 9 := by
  cases stage <;> decide

theorem index_injective : Function.Injective index := by
  intro stage other h
  cases stage <;> cases other <;> first | rfl | cases h

end Stage

/-- What is known about a text on the way to its payload, from the text itself to the payload of an
accepted signer. -/
inductive Progress where
  | unread (text : String)
  | decoded (bytes : Bytes)
  | parsed (envelope : Envelope)
  | placed (envelope : Envelope) (place : Path)
  | keyed (envelope : Envelope) (receiver : PrivateKey)
  | agreed (envelope : Envelope) (receiver : PrivateKey) (key : SealingKey)
  | unsealed (receiver : PrivateKey) (plaintext : Bytes)
  | unpacked (receiver : PrivateKey) (signed : SignedPayload)
  | recovered (receiver : PrivateKey) (signed : SignedPayload) (signer : PublicKey)
  | accepted (payload : Bytes)
  deriving DecidableEq

namespace Progress

/-- The stage to come. -/
def stage : Progress → Option Stage
  | unread _ => some .text
  | decoded _ => some .layout
  | parsed _ => some .path
  | placed _ _ => some .keys
  | keyed _ _ => some .ephemeral
  | agreed _ _ _ => some .cipher
  | unsealed _ _ => some .payload
  | unpacked _ _ => some .signature
  | recovered _ _ _ => some .signer
  | accepted _ => none

/-- The number of stages passed. -/
def passed (progress : Progress) : ℕ := progress.stage.elim 9 Stage.index

theorem stage_eq_of_passed {progress : Progress} {stage : Stage}
    (h : progress.passed = stage.index) : progress.stage = some stage := by
  unfold passed at h
  cases hstage : progress.stage with
  | none =>
      have := stage.index_lt
      rw [hstage, Option.elim_none] at h
      omega
  | some found =>
      rw [hstage, Option.elim_some] at h
      rw [Stage.index_injective h]

end Progress

/-! ## Kinds of failure -/

theorem Envelope.kind_of_decodeText_eq_error {text : String} {e : MessageError}
    (h : decodeText text = .error e) : e.kind = .format := by
  obtain ⟨cause, -, rfl⟩ := mapError_eq_error_iff.1 h
  rfl

theorem Envelope.failsAs_reading : Read.FailsAs .format reading := by
  refine (Read.failsAs_number 1).bind fun version => ?_
  split
  · exact Read.failsAs_fail rfl
  refine (Read.failsAs_exact 33).bind fun ephemeral => ?_
  refine (Read.failsAs_field maxPathSize).bind fun pathBytes => ?_
  split
  · exact Read.failsAs_fail rfl
  refine Read.failsAs_reader.bind fun before => ?_
  refine (Read.failsAs_field _).bind fun nonce => ?_
  split
  · exact Read.failsAs_fail rfl
  · exact Read.failsAs_rest.bind fun ciphertext => Read.failsAs_pure _

theorem SignedPayload.failsAs_reading : Read.FailsAs .format reading := by
  refine (Read.failsAs_field maxSignatureSize).bind fun signature => ?_
  refine Read.failsAs_reader.bind fun before => ?_
  exact (Read.failsAs_field _).bind fun payload => Read.failsAs_pure _

theorem SenderPolicy.kind_of_check_eq_error {policy : SenderPolicy} {receiver signer : PublicKey}
    {e : MessageError} (h : policy.check receiver signer = .error e) :
    e.kind = .authentication := by
  unfold check at h
  split at h
  · split at h
    · cases h
    · cases h
      rfl
  · cases h

/-! ## Key trees that report -/

/-- A key tree that reports each question before it answers. -/
def KeyTree.reporting (keys : KeyTree) (report : Path → Event) : KeyTree := fun path => do
  Traced.emit (report path)
  keys path

theorem KeyTree.reporting_apply (keys : KeyTree) (report : Path → Event) (path : Path) :
    keys.reporting report path = ⟨report path :: (keys path).events, (keys path).result⟩ := rfl

namespace Opener

/-! ## Steps -/

/-- Pass the stage to come. A payload stays what it is. -/
def advance (opener : Opener) : Progress → Except MessageError Progress
  | .unread text => (Envelope.decodeText text).map .decoded
  | .decoded bytes => (Envelope.parse bytes).map .parsed
  | .parsed envelope =>
      ((Path.parse envelope.path).mapError .derivation).map (.placed envelope)
  | .placed envelope place =>
      ((opener.keys place).result.mapError .derivation).map (.keyed envelope)
  | .keyed envelope receiver =>
      ((SharedSecret.recoverSealingKey receiver envelope.ephemeral).mapError .crypto).map
        (.agreed envelope receiver)
  | .agreed envelope receiver key =>
      ((Gcm.openWith key envelope.nonce envelope.ciphertext envelope.header).mapError .crypto).map
        (.unsealed receiver)
  | .unsealed receiver plaintext => (SignedPayload.parse plaintext).map (.unpacked receiver)
  | .unpacked receiver signed => (signed.signer receiver.publicKey).map (.recovered receiver signed)
  | .recovered receiver signed signer =>
      (opener.policy.check receiver.publicKey signer).map fun _ => .accepted signed.payload
  | .accepted payload => .ok (.accepted payload)

/-- Pass `count` stages; the first failure ends the passing. -/
def steps (opener : Opener) (progress : Progress) : (count : ℕ) → Except MessageError Progress
  | 0 => .ok progress
  | count + 1 => opener.steps progress count >>= opener.advance

/-- The stages before this one succeed for the text, and this one fails. -/
def FailsAt (opener : Opener) (text : String) (stage : Stage) (e : MessageError) : Prop :=
  ∃ progress, opener.steps (.unread text) stage.index = .ok progress ∧
    opener.advance progress = .error e

section Steps

variable {opener : Opener} {progress last : Progress} {text : String} {e : MessageError}

/-- A step that fails does so with the kind of its stage. -/
theorem kind_of_advance_eq_error (h : opener.advance progress = .error e) :
    ∃ stage, progress.stage = some stage ∧ e.kind = stage.kind := by
  -- A stage wraps the errors of one function, which decides their kind.
  cases progress with
  | unread text => exact ⟨.text, rfl, Envelope.kind_of_decodeText_eq_error (map_eq_error_iff.1 h)⟩
  | decoded bytes => exact ⟨.layout, rfl, Envelope.failsAs_reading.run (map_eq_error_iff.1 h)⟩
  | parsed envelope =>
      obtain ⟨cause, -, rfl⟩ := mapError_eq_error_iff.1 (map_eq_error_iff.1 h)
      exact ⟨.path, rfl, rfl⟩
  | placed envelope place =>
      obtain ⟨cause, -, rfl⟩ := mapError_eq_error_iff.1 (map_eq_error_iff.1 h)
      exact ⟨.keys, rfl, rfl⟩
  | keyed envelope receiver =>
      obtain ⟨cause, -, rfl⟩ := mapError_eq_error_iff.1 (map_eq_error_iff.1 h)
      exact ⟨.ephemeral, rfl, rfl⟩
  | agreed envelope receiver key =>
      obtain ⟨cause, -, rfl⟩ := mapError_eq_error_iff.1 (map_eq_error_iff.1 h)
      exact ⟨.cipher, rfl, rfl⟩
  | unsealed receiver plaintext =>
      exact ⟨.payload, rfl, SignedPayload.failsAs_reading.run (map_eq_error_iff.1 h)⟩
  | unpacked receiver signed =>
      obtain ⟨cause, -, rfl⟩ := mapError_eq_error_iff.1 (map_eq_error_iff.1 h)
      exact ⟨.signature, rfl, rfl⟩
  | recovered receiver signed signer =>
      exact ⟨.signer, rfl, SenderPolicy.kind_of_check_eq_error (map_eq_error_iff.1 h)⟩
  | accepted payload => cases h

theorem passed_of_advance {next : Progress} (h : opener.advance progress = .ok next)
    (hmore : progress.passed < 9) : next.passed = progress.passed + 1 := by
  cases progress with
  | accepted payload => exact absurd hmore (Nat.lt_irrefl 9)
  | _ =>
      obtain ⟨found, -, rfl⟩ := map_eq_ok_iff.1 h
      rfl

/-- As many stages are passed as steps are made. -/
theorem passed_of_steps {count : ℕ} (h : opener.steps progress count = .ok last)
    (hcount : progress.passed + count ≤ 9) : last.passed = progress.passed + count := by
  induction count generalizing last with
  | zero =>
      cases h
      rfl
  | succ count ih =>
      obtain ⟨before, hbefore, hlast⟩ := bind_eq_ok_iff.1 h
      have hpassed := ih hbefore (by omega)
      rw [passed_of_advance hlast (by omega), hpassed, Nat.add_assoc]

theorem passed_of_steps_unread {count : ℕ} (h : opener.steps (.unread text) count = .ok last)
    (hcount : count ≤ 9) : last.passed = count := by
  have start : (Progress.unread text).passed = 0 := rfl
  rw [passed_of_steps h (by omega), start, Nat.zero_add]

theorem exists_of_steps_of_le {count more : ℕ} (hle : count ≤ more)
    (h : opener.steps progress more = .ok last) :
    ∃ middle, opener.steps progress count = .ok middle := by
  induction hle generalizing last with
  | refl => exact ⟨last, h⟩
  | step hle ih =>
      obtain ⟨before, hbefore, -⟩ := bind_eq_ok_iff.1 h
      exact ih hbefore

/-- Steps fail exactly if one of them fails after the ones before it. -/
theorem steps_eq_error_iff {count : ℕ} :
    opener.steps progress count = .error e ↔
      ∃ k < count, ∃ last, opener.steps progress k = .ok last ∧ opener.advance last = .error e := by
  induction count with
  | zero => simp [steps]
  | succ count ih => rw [steps, bind_eq_error_iff, ih, Nat.exists_lt_succ_right]

/-! ## Failing at a stage -/

theorem FailsAt.kind_eq {stage : Stage} (h : opener.FailsAt text stage e) :
    e.kind = stage.kind := by
  obtain ⟨last, hlast, hfail⟩ := h
  have hpassed := passed_of_steps_unread hlast stage.index_lt.le
  obtain ⟨found, hfound, hkind⟩ := kind_of_advance_eq_error hfail
  obtain rfl := Option.some.inj (hfound.symm.trans (Progress.stage_eq_of_passed hpassed))
  exact hkind

/-- Only one stage fails. -/
theorem FailsAt.unique {stage stage' : Stage} {e' : MessageError} (h : opener.FailsAt text stage e)
    (h' : opener.FailsAt text stage' e') : stage = stage' ∧ e = e' := by
  obtain ⟨last, hlast, hfail⟩ := h
  obtain ⟨last', hlast', hfail'⟩ := h'
  -- Steps that go past a failure fail, so neither of the two comes first.
  have not_before {k k' : ℕ} {p p' : Progress} {e : MessageError}
      (hp : opener.steps (.unread text) k = .ok p) (hfail : opener.advance p = .error e)
      (hp' : opener.steps (.unread text) k' = .ok p') : ¬ k < k' := by
    intro hlt
    cases (steps_eq_error_iff.2 ⟨k, hlt, p, hp, hfail⟩).symm.trans hp'
  have same : stage.index = stage'.index :=
    Nat.le_antisymm (Nat.not_lt.1 (not_before hlast' hfail' hlast))
      (Nat.not_lt.1 (not_before hlast hfail hlast'))
  obtain rfl := Stage.index_injective same
  obtain rfl : last = last' := Except.ok.inj (hlast.symm.trans hlast')
  exact ⟨rfl, Except.error.inj (hfail.symm.trans hfail')⟩

end Steps

/-- The result of opening is that of nine steps. -/
theorem steps_nine (opener : Opener) (text : String) :
    opener.steps (.unread text) 9 = (opener.decrypt text).result.map .accepted := by
  simp only [result_decrypt, address, reveal, unlock, steps, advance, map_eq_bind, bind_assoc,
    pure_eq_ok, ok_bind]

theorem steps_three (opener : Opener) (text : String) :
    opener.steps (.unread text) 3 =
      (address text).map fun found => .placed found.1 found.2 := by
  simp only [address, steps, advance, map_eq_bind, bind_assoc, pure_eq_ok, ok_bind]

theorem steps_three_eq_error_iff {opener : Opener} {text : String} {e : MessageError} :
    opener.steps (.unread text) 3 = .error e ↔ address text = .error e := by
  rw [steps_three, map_eq_error_iff]

/-- Six steps succeed only with a plaintext that the cipher has opened. -/
theorem exists_openWith_of_steps {opener : Opener} {text : String} {last : Progress}
    (h : opener.steps (.unread text) 6 = .ok last) :
    ∃ envelope place receiver key plaintext, address text = .ok (envelope, place) ∧
      (opener.keys place).result = .ok receiver ∧
      SharedSecret.recoverSealingKey receiver envelope.ephemeral = .ok key ∧
      Gcm.openWith key envelope.nonce envelope.ciphertext envelope.header = .ok plaintext := by
  obtain ⟨agreed, h, hcipher⟩ := bind_eq_ok_iff.1 h
  obtain ⟨keyed, h, hephemeral⟩ := bind_eq_ok_iff.1 h
  obtain ⟨placed, h, hkeys⟩ := bind_eq_ok_iff.1 h
  rw [steps_three] at h
  obtain ⟨⟨envelope, place⟩, haddress, rfl⟩ := map_eq_ok_iff.1 h
  obtain ⟨receiver, hreceiver, rfl⟩ := map_eq_ok_iff.1 hkeys
  obtain ⟨key, hkey, rfl⟩ := map_eq_ok_iff.1 hephemeral
  obtain ⟨plaintext, hopen, -⟩ := map_eq_ok_iff.1 hcipher
  exact ⟨envelope, place, receiver, key, plaintext, haddress, mapError_eq_ok_iff.1 hreceiver,
    mapError_eq_ok_iff.1 hkey, mapError_eq_ok_iff.1 hopen⟩

/-- Opening fails exactly with the failure of a stage. -/
theorem result_decrypt_eq_error_iff {opener : Opener} {text : String} {e : MessageError} :
    (opener.decrypt text).result = .error e ↔ ∃ stage, opener.FailsAt text stage e := by
  rw [← map_eq_error_iff, ← steps_nine, steps_eq_error_iff]
  constructor
  · rintro ⟨k, hk, last, hlast, hfail⟩
    obtain ⟨stage, hstage, -⟩ := kind_of_advance_eq_error hfail
    have hpassed := passed_of_steps_unread hlast hk.le
    obtain rfl : k = stage.index := by
      rw [← hpassed, Progress.passed, hstage, Option.elim_some]
    exact ⟨stage, last, hlast, hfail⟩
  · rintro ⟨stage, last, hlast, hfail⟩
    exact ⟨stage.index, stage.index_lt, last, hlast, hfail⟩

/-- A stage before the key tree fails with what keeps the text from having an address. -/
theorem FailsAt.address_eq_error {opener : Opener} {text : String} {stage : Stage}
    {e : MessageError} (h : opener.FailsAt text stage e) (hstage : stage.index < Stage.keys.index) :
    address text = .error e := by
  obtain ⟨last, hlast, hfail⟩ := h
  exact steps_three_eq_error_iff.1 (steps_eq_error_iff.2 ⟨stage.index, hstage, last, hlast, hfail⟩)

/-! ## The question to the key tree -/

/-- What is reported last: the sizes of what was opened, or the failure. -/
def closing (envelope : Envelope) : Except MessageError Bytes → Event
  | .ok payload => .opened envelope.path.utf8ByteSize envelope.nonce.length payload.length
  | .error e => .refused e

theorem decrypt_of_address_eq_error {text : String} {e : MessageError} (h : address text = .error e)
    (opener : Opener) : opener.decrypt text = ⟨[.refused e], .error e⟩ := by
  rw [decrypt, receive, h]
  rfl

/-- The key tree is asked for the place in the text, and nothing else of it is used. -/
theorem decrypt_of_address {text : String} {envelope : Envelope} {place : Path}
    (h : address text = .ok (envelope, place)) (opener : Opener) :
    let revealed := (opener.keys place).result.mapError .derivation >>= fun receiver =>
      reveal opener.policy receiver envelope
    opener.decrypt text =
      ⟨(opener.keys place).events ++ [closing envelope revealed], revealed⟩ := by
  have ask : opener.receive text =
      Traced.bind ((opener.keys place).mapError .derivation) fun receiver =>
        Traced.bind (.ofExcept (reveal opener.policy receiver envelope)) fun payload =>
          Traced.bind (.emit (closing envelope (.ok payload))) fun _ => .pure payload := by
    rw [receive, h]
    rfl
  rw [decrypt, ask]
  rcases opener.keys place with ⟨events, cause | receiver⟩
  · rfl
  · rw [mapError_ok, ok_bind]
    cases hreveal : reveal opener.policy receiver envelope with
    | error e =>
        simp [Traced.bind, Traced.mapError, Traced.ofExcept, Traced.emitOnError, closing, hreveal]
    | ok payload =>
        simp [Traced.bind, Traced.mapError, Traced.ofExcept, Traced.emitOnError, Traced.emit,
          Traced.pure, closing, hreveal]

/-- The places that the key tree is asked for: that of the text, if it has one. -/
def questions (text : String) : List Path :=
  match address text with
  | .ok (_, place) => [place]
  | .error _ => []

/-- A key tree that reports what it is asked adds these reports in front, and nothing else. -/
theorem decrypt_reporting (opener : Opener) (report : Path → Event) (text : String) :
    decrypt ⟨opener.keys.reporting report, opener.policy⟩ text =
      ⟨(questions text).map report ++ (opener.decrypt text).events,
        (opener.decrypt text).result⟩ := by
  cases h : address text with
  | error e => simp [questions, decrypt_of_address_eq_error h, h]
  | ok found =>
      obtain ⟨envelope, place⟩ := found
      simp [questions, decrypt_of_address h, h, KeyTree.reporting_apply]

/-- Key trees that agree where they are asked cannot be told apart. -/
theorem decrypt_congr {opener : Opener} {keys : KeyTree} {text : String}
    (h : ∀ place ∈ questions text, keys place = opener.keys place) :
    decrypt ⟨keys, opener.policy⟩ text = opener.decrypt text := by
  cases haddress : address text with
  | error e => rw [decrypt_of_address_eq_error haddress, decrypt_of_address_eq_error haddress]
  | ok found =>
      obtain ⟨envelope, place⟩ := found
      have same : keys place = opener.keys place := h place (by simp [questions, haddress])
      rw [decrypt_of_address haddress, decrypt_of_address haddress, ← same]

/-! ## The first stage that fails -/

/-- Opening passes nine stages, and a failure is exactly that of the one stage that fails after the
ones before it have succeeded. The stage gives the kind of the failure, and the cause for which a
key tree has no key is kept as it is. The key tree is asked once at most, and for the place in the
text: a key tree that reports what it is asked adds this report alone, and key trees that agree
there cannot be told apart. If the text, its layout or its path fails, nothing is asked and every
opener fails in the same way. A sender is distrusted only after the cipher has opened the envelope.
-/
theorem decrypt_fails_at_first_stage (opener : Opener) (text : String) :
    (opener.decrypt text).result.map .accepted = opener.steps (.unread text) 9 ∧
    (∀ e, (opener.decrypt text).result = .error e ↔ ∃ stage, opener.FailsAt text stage e) ∧
    (∀ stage stage' e e', opener.FailsAt text stage e → opener.FailsAt text stage' e' →
      stage = stage' ∧ e = e') ∧
    (∀ stage e, opener.FailsAt text stage e →
      e.kind = stage.kind ∧ e.kind ≠ .encoding ∧ e.kind ≠ .signing) ∧
    (∀ envelope place cause, address text = .ok (envelope, place) →
      (opener.keys place).result = .error cause →
        opener.FailsAt text .keys (.derivation cause)) ∧
    (∀ report, decrypt ⟨opener.keys.reporting report, opener.policy⟩ text =
      ⟨(questions text).map report ++ (opener.decrypt text).events,
        (opener.decrypt text).result⟩) ∧
    (∀ keys, (∀ place ∈ questions text, keys place = opener.keys place) →
      decrypt ⟨keys, opener.policy⟩ text = opener.decrypt text) ∧
    (∀ stage e, opener.FailsAt text stage e → stage.index < Stage.keys.index →
      questions text = [] ∧ ∀ other : Opener, other.decrypt text = ⟨[.refused e], .error e⟩) ∧
    (∀ e, (opener.decrypt text).result = .error e → e.kind = .authentication →
      ∃ envelope place receiver key plaintext, address text = .ok (envelope, place) ∧
        (opener.keys place).result = .ok receiver ∧
        SharedSecret.recoverSealingKey receiver envelope.ephemeral = .ok key ∧
        Gcm.openWith key envelope.nonce envelope.ciphertext envelope.header = .ok plaintext) := by
  refine ⟨(steps_nine opener text).symm, fun e => result_decrypt_eq_error_iff,
    fun _ _ _ _ => FailsAt.unique, ?_, ?_, fun report => decrypt_reporting opener report text,
    fun keys => decrypt_congr, ?_, ?_⟩
  · intro stage e h
    rw [h.kind_eq]
    cases stage <;> exact ⟨rfl, by decide, by decide⟩
  · intro envelope place cause haddress hkeys
    refine ⟨.placed envelope place, ?_, ?_⟩
    · rw [Stage.index, steps_three, haddress, map_ok]
    · rw [advance, hkeys, mapError_error, map_error]
  · intro stage e h hstage
    have haddress := h.address_eq_error hstage
    exact ⟨by rw [questions, haddress], decrypt_of_address_eq_error haddress⟩
  · intro e hfail hkind
    obtain ⟨stage, h⟩ := result_decrypt_eq_error_iff.1 hfail
    rw [h.kind_eq] at hkind
    obtain ⟨last, hlast, -⟩ := h
    -- Only the last two stages end with this kind, and the cipher stands before them.
    have hle : 6 ≤ stage.index := by
      cases stage with
      | signature => decide
      | signer => decide
      | _ => cases hkind
    obtain ⟨middle, hmiddle⟩ := exists_of_steps_of_le hle hlast
    exact exists_openWith_of_steps hmiddle

/-- A text that is not base-58; an envelope without an ephemeral key, for a key tree that fails for
a cryptographic cause and for one that has a key; and a message from the key `7` to the key `5`,
which accepts its own messages only. -/
theorem decrypt_fails_at_first_stage_of_three_texts :
    let receiver : PrivateKey := ⟨⟨5, by decide⟩⟩
    let place : Path := ⟨[⟨some "a", 7, true, by decide⟩], by decide⟩
    let opener : Opener := ⟨.single receiver, .receiverOnly⟩
    let keyless : Opener := ⟨.failing (.crypto .badPrivateKey), .receiverOnly⟩
    (∀ other : Opener, other.decrypt "0" =
      ⟨[.refused (.notBase58 (.badCharacter '0' 0))], .error (.notBase58 (.badCharacter '0' 0))⟩) ∧
    (∃ text, questions text = [place] ∧
      (keyless.decrypt text).result = .error (.derivation (.crypto .badPrivateKey)) ∧
      opener.FailsAt text .ephemeral (.crypto (.badPublicKey (.encoding 33)))) ∧
    ∃ text, (opener.decrypt text).result = .error .unexpectedSigner ∧
      ∃ (envelope : Envelope) (key : SealingKey) (plaintext : Bytes),
        Gcm.openWith key envelope.nonce envelope.ciphertext envelope.header = .ok plaintext := by
  intro receiver place opener keyless
  refine ⟨?_, ?_, ?_⟩
  · obtain ⟨-, -, -, -, -, -, -, early, -⟩ := decrypt_fails_at_first_stage opener "0"
    have unread : opener.FailsAt "0" .text (.notBase58 (.badCharacter '0' 0)) :=
      ⟨_, rfl, by decide +kernel⟩
    exact (early _ _ unread (by decide)).2
  · let header : Header := ⟨.ofNat 33 0, "m/a:7h", 12⟩
    let nonce : Bytes := List.replicate 12 0
    have size : header.path.utf8ByteSize ≤ Envelope.maxPathSize := by decide +kernel
    have hnonce : header.nonceSize = nonce.length := rfl
    have parsed : Path.parse header.path = .ok place := by decide +kernel
    have found := address_layout header [] size hnonce (by decide) (by decide) parsed
    obtain ⟨-, fails, -, -, refused, -⟩ := decrypt_fails_at_first_stage keyless _
    refine ⟨_, by rw [questions, found], (fails _).2 ⟨.keys, refused _ _ _ found rfl⟩,
      .keyed (.ofHeader header nonce []) receiver, ?_, by decide +kernel⟩
    rw [Stage.index, steps, steps_three, found]
    rfl
  · obtain ⟨signature, hsign⟩ : ∃ signature, Signature.sign ⟨⟨7, by decide⟩⟩
        (SignedPayload.digest [104, 105] receiver.publicKey) = .ok signature :=
      SignedPayload.exists_sign_for_five
    let sealer : Sealer := ⟨⟨⟨7, by decide⟩⟩, receiver.publicKey, "m/a:7h", ⟨12⟩, rfl⟩
    have size : sealer.receiverPath.utf8ByteSize ≤ Envelope.maxPathSize := by decide +kernel
    have hnonce : (List.replicate 12 (0 : UInt8)).length = sealer.settings.nonceSize := rfl
    have parsed : Path.parse sealer.receiverPath = .ok place := by decide +kernel
    obtain ⟨text, found, opened⟩ := exists_text_enclosed ⟨⟨⟨11, by decide⟩⟩⟩ (by decide) size hsign
      hnonce parsed (rfl : (opener.keys place).result = .ok receiver) rfl
    have refused : (opener.decrypt text).result = .error .unexpectedSigner := by
      rcases result_decrypt_cases (.single receiver) text with
        ⟨e, failed⟩ | ⟨receiver', signed, signer, found', -, decided⟩
      · cases (failed _).symm.trans opened
      · obtain ⟨rfl, -⟩ := Prod.mk.inj (Except.ok.inj (found'.symm.trans found))
        have trusted := (decided _).symm.trans opened
        rw [SenderPolicy.map_check rfl] at trusted
        split_ifs at trusted with same
        have different : signer ≠ receiver.publicKey := by
          rw [same]
          decide +kernel
        rw [decided, SenderPolicy.map_check rfl, if_neg different]
    obtain ⟨-, -, -, -, -, -, -, -, distrusted⟩ := decrypt_fails_at_first_stage opener text
    obtain ⟨envelope, -, -, key, plaintext, -, -, -, hopen⟩ := distrusted _ refused rfl
    exact ⟨text, refused, envelope, key, plaintext, hopen⟩

end Opener

end SealedMail
