import SealedMail.Proofs.Derivation.Descent
import SealedMail.Proofs.Message.Emission
import SealedMail.Proofs.Message.Rejection

/-!
# What a log shows

A sealer reports the sizes of what it has written and nothing else (`Sealer.encrypt_isLog`). An
opener with the tree below an extended key reports the descent, if the text has an address and the
descent arrives (`Opener.Reaches`), and then either the sizes of what it has opened or the failure
(`Opener.decrypt_isLog`). So two successful runs whose sizes agree cannot be told apart by what they
report, whatever the payloads, the keys and the random bytes are. The main statement is
`reports_depend_on_sizes`.
-/

namespace SealedMail

/-- What a log shows of an event: its level, its message and its fields. -/
def Event.line (event : Event) : String × String × List (String × String) :=
  (event.level.name, event.message, event.fields)

/-! ## Sealers -/

namespace Sealer

/-- The lines that sealing a payload leaves in a log, next to its result: none for a failure, and
one for a text, with the length of the bytes behind it. -/
inductive IsLog (sealer : Sealer) (payload : Bytes) :
    Except MessageError String → List (String × String × List (String × String)) → Prop where
  | refused (e : MessageError) : IsLog sealer payload (.error e) []
  | sealed {text : String} {bytes : Bytes} (h : Envelope.decodeText text = .ok bytes) :
      IsLog sealer payload (.ok text)
        [("DEBUG", "Encrypted payload",
          [("payload_len", toString payload.length),
           ("path_len", toString sealer.receiverPath.utf8ByteSize),
           ("nonce_len", toString sealer.settings.nonceSize),
           ("blob_len", toString bytes.length)])]

theorem encrypt_isLog (sealer : Sealer) (payload : Bytes) {source : RandomSource}
    (offers : sealer.Draws payload → source.OffersScalar) :
    sealer.IsLog payload (sealer.encrypt payload source offers).1.result
      ((sealer.encrypt payload source offers).1.events.map Event.line) := by
  rcases sealer.encrypt_cases payload offers with ⟨e, h⟩ | ⟨text, bytes, hbytes, -, h⟩
  · rw [h]
    exact .refused e
  · rw [h]
    exact .sealed hbytes

/-- A run of a sealer that has written a text. -/
structure Success where
  sealer : Sealer
  payload : Bytes
  source : RandomSource
  offers : sealer.Draws payload → source.OffersScalar
  text : String
  result_eq : (sealer.encrypt payload source offers).1.result = .ok text

namespace Success

/-- The lengths of the payload, the path and the nonce. -/
def sizes (run : Success) : ℕ × ℕ × ℕ :=
  (run.payload.length, run.sealer.receiverPath.utf8ByteSize, run.sealer.settings.nonceSize)

/-- What the run reports. -/
def events (run : Success) : List Event :=
  (run.sealer.encrypt run.payload run.source run.offers).1.events

theorem events_eq (run : Success) :
    run.events = [.sealed run.sizes.1 run.sizes.2.1 run.sizes.2.2
      (run.sizes.2.1 + run.sizes.2.2 + run.sizes.1 + 123)] := by
  have hresult := run.result_eq
  rcases run.sealer.encrypt_cases run.payload run.offers with ⟨e, h⟩ | ⟨text, bytes, -, hlength, h⟩
  · rw [h] at hresult
    cases hresult
  · rw [events, h, hlength]
    rfl

end Success

/-- A payload that can be signed is sealed. -/
theorem exists_success {sealer : Sealer} {payload : Bytes} {source : RandomSource}
    {signature : Signature} (offers : sealer.Draws payload → source.OffersScalar)
    (hpayload : payload.length ≤ Field.maxSize)
    (hpath : sealer.receiverPath.utf8ByteSize ≤ Envelope.maxPathSize)
    (hsign : Signature.sign sealer.sender (SignedPayload.digest payload sealer.receiver) =
      .ok signature) :
    ∃ run : Success, run.sealer = sealer ∧ run.payload = payload ∧ run.source = source := by
  obtain ⟨ephemeral, nonce, -, hresult⟩ :=
    result_encrypt offers hpath (plaintext_eq hpayload hpath hsign)
  exact ⟨⟨sealer, payload, source, offers, _, hresult⟩, rfl, rfl, rfl⟩

end Sealer

/-! ## Openers -/

namespace Opener

/-- The text has an address, and the tree below the root has a key there, so many steps below. -/
structure Reaches (root : ExtendedPrivateKey) (text : String) (envelope : Envelope) (place : Path)
    (steps : ℕ) : Prop where
  address_eq : address text = .ok (envelope, place)
  exists_key : ∃ key, (root.descend place).result = .ok key
  depth_eq : place.depth = root.path.depth + steps

/-- The lines that opening a text leaves in a log, next to its result. Without a key there is the
failure only; with one, the descent to it comes first. -/
inductive IsLog (root : ExtendedPrivateKey) (text : String) :
    Except MessageError Bytes → List (String × String × List (String × String)) → Prop where
  | unreached {e : MessageError}
      (h : ∀ envelope place steps, ¬ Reaches root text envelope place steps) :
      IsLog root text (.error e)
        [("DEBUG", "Rejected encrypted blob", [("kind", e.kind.name), ("error", e.message)])]
  | refused {envelope : Envelope} {place : Path} {steps : ℕ} {e : MessageError}
      (h : Reaches root text envelope place steps) :
      IsLog root text (.error e)
        [("TRACE", "Derived private key",
          [("depth", toString place.depth), ("steps", toString steps)]),
         ("DEBUG", "Rejected encrypted blob", [("kind", e.kind.name), ("error", e.message)])]
  | opened {envelope : Envelope} {place : Path} {steps : ℕ} {payload : Bytes}
      (h : Reaches root text envelope place steps) :
      IsLog root text (.ok payload)
        [("TRACE", "Derived private key",
          [("depth", toString place.depth), ("steps", toString steps)]),
         ("TRACE", "Decrypted payload",
          [("path_len", toString envelope.path.utf8ByteSize),
           ("nonce_len", toString envelope.nonce.length),
           ("payload_len", toString payload.length)])]

section

variable {root : ExtendedPrivateKey} {text : String} {envelope : Envelope} {place : Path}
  {steps : ℕ}

/-- Behind the key, the descent is reported and then what comes of the text. -/
theorem Reaches.exists_decrypt_eq (h : Reaches root text envelope place steps)
    (policy : SenderPolicy) :
    ∃ result, (Opener.mk (.below root) policy).decrypt text =
      ⟨[.derived place.depth steps, closing envelope result], result⟩ := by
  obtain ⟨key, hkey⟩ := h.exists_key
  have events : (KeyTree.below root place).events = [.derived place.depth steps] := by
    rw [KeyTree.events_below]
    rcases root.descend_cases place with ⟨count, descendant, hdepth, hdescend⟩ | ⟨e, hdescend⟩
    · obtain rfl : count = steps := Nat.add_left_cancel (hdepth.symm.trans h.depth_eq)
      rw [hdescend]
    · rw [hdescend] at hkey
      cases hkey
  have hdecrypt := decrypt_of_address h.address_eq (Opener.mk (.below root) policy)
  dsimp only at hdecrypt
  rw [events] at hdecrypt
  exact ⟨_, hdecrypt⟩

/-- Without a key, the failure is all that is reported. -/
theorem exists_decrypt_eq_of_not_reaches
    (h : ∀ envelope place steps, ¬ Reaches root text envelope place steps)
    (policy : SenderPolicy) :
    ∃ e, (Opener.mk (.below root) policy).decrypt text = ⟨[.refused e], .error e⟩ := by
  cases haddress : address text with
  | error e => exact ⟨e, decrypt_of_address_eq_error haddress _⟩
  | ok found =>
      obtain ⟨envelope, place⟩ := found
      rcases root.descend_cases place with ⟨steps, key, hdepth, hdescend⟩ | ⟨e, hdescend⟩
      · exact absurd ⟨haddress, ⟨key, by rw [hdescend]⟩, hdepth⟩ (h envelope place steps)
      · refine ⟨.derivation e, ?_⟩
        rw [decrypt_of_address haddress, KeyTree.events_below, KeyTree.result_below, hdescend]
        rfl

theorem decrypt_isLog (root : ExtendedPrivateKey) (policy : SenderPolicy) (text : String) :
    IsLog root text ((Opener.mk (.below root) policy).decrypt text).result
      (((Opener.mk (.below root) policy).decrypt text).events.map Event.line) := by
  by_cases reached : ∃ envelope place steps, Reaches root text envelope place steps
  · obtain ⟨envelope, place, steps, h⟩ := reached
    obtain ⟨result, hdecrypt⟩ := h.exists_decrypt_eq policy
    rw [hdecrypt]
    cases result with
    | error e => exact .refused h
    | ok payload => exact .opened h
  · have unreached : ∀ envelope place steps, ¬ Reaches root text envelope place steps :=
      fun envelope place steps h => reached ⟨envelope, place, steps, h⟩
    obtain ⟨e, hdecrypt⟩ := exists_decrypt_eq_of_not_reaches unreached policy
    rw [hdecrypt]
    exact .unreached unreached

end

/-- A run of an opener with the tree below `root` that has found a payload; the receiver's key is at
`place`, so many steps below the root. -/
structure Success where
  root : ExtendedPrivateKey
  policy : SenderPolicy
  text : String
  envelope : Envelope
  place : Path
  steps : ℕ
  reaches : Reaches root text envelope place steps
  payload : Bytes
  result_eq : ((Opener.mk (.below root) policy).decrypt text).result = .ok payload

namespace Success

/-- The lengths of the path, the nonce and the payload. -/
def sizes (run : Success) : ℕ × ℕ × ℕ :=
  (run.envelope.path.utf8ByteSize, run.envelope.nonce.length, run.payload.length)

/-- What the run reports. -/
def events (run : Success) : List Event :=
  ((Opener.mk (.below run.root) run.policy).decrypt run.text).events

theorem events_eq (run : Success) :
    run.events = [.derived run.place.depth run.steps,
      .opened run.sizes.1 run.sizes.2.1 run.sizes.2.2] := by
  have hresult := run.result_eq
  obtain ⟨result, hdecrypt⟩ := run.reaches.exists_decrypt_eq run.policy
  rw [hdecrypt] at hresult
  obtain rfl : result = .ok run.payload := hresult
  rw [events, hdecrypt]
  rfl

end Success

/-- What is sealed for a key that the tree has is opened. -/
theorem exists_success {root : ExtendedPrivateKey} {sealer : Sealer} {place : Path} {steps : ℕ}
    {receiver : PrivateKey} {payload nonce : Bytes} {signature : Signature}
    (ephemeral : EphemeralKey) (hpayload : payload.length ≤ Field.maxSize)
    (hpath : sealer.receiverPath.utf8ByteSize ≤ Envelope.maxPathSize)
    (hsign : Signature.sign sealer.sender (SignedPayload.digest payload sealer.receiver) =
      .ok signature)
    (hnonce : nonce.length = sealer.settings.nonceSize)
    (hplace : Path.parse sealer.receiverPath = .ok place)
    (hkeys : (KeyTree.below root place).result = .ok receiver)
    (hsteps : place.depth = root.path.depth + steps)
    (hreceiver : sealer.receiver = receiver.publicKey) :
    ∃ run : Success, run.envelope.path = sealer.receiverPath ∧ run.envelope.nonce = nonce ∧
      run.place = place ∧ run.steps = steps ∧ run.payload = payload := by
  have htext := Sealer.plaintext_eq hpayload hpath hsign
  have haddress := address_enclosed ephemeral
    (Field.encode signature.bytes ++ Field.encode payload) hpath hnonce hplace
  have hopened := result_decrypt_enclosed .anyone ephemeral hpayload hpath hsign htext hnonce hplace
    hkeys hreceiver
  rw [KeyTree.result_below] at hkeys
  obtain ⟨key, hkey, -⟩ := map_eq_ok_iff.1 hkeys
  exact ⟨⟨root, .anyone, _, _, place, steps, ⟨haddress, ⟨key, hkey⟩, hsteps⟩, payload, hopened⟩,
    rfl, rfl, rfl, rfl, rfl⟩

end Opener

/-! ## Reports and sizes -/

/-- What sealing and opening report. Opening a text with the tree below an extended key leaves one
line about the descent, exactly if the text has an address and the descent arrives, and behind it
one line about the result: the lengths for a payload, the kind and the message for a failure.
Sealing leaves one line with the lengths for a text, and none for a failure. So two texts that are
sealed from payloads, paths and nonces of the same lengths are reported by the same events, and so
are two payloads that are opened with the same lengths, depth and number of steps. -/
theorem reports_depend_on_sizes :
    (∀ root policy text,
      Opener.IsLog root text ((Opener.mk (.below root) policy).decrypt text).result
        (((Opener.mk (.below root) policy).decrypt text).events.map Event.line)) ∧
    (∀ (sealer : Sealer) payload source (offers : sealer.Draws payload → source.OffersScalar),
      sealer.IsLog payload (sealer.encrypt payload source offers).1.result
        ((sealer.encrypt payload source offers).1.events.map Event.line)) ∧
    (∀ run run' : Sealer.Success, run.sizes = run'.sizes → run.events = run'.events) ∧
    ∀ run run' : Opener.Success, run.sizes = run'.sizes → run.place.depth = run'.place.depth →
      run.steps = run'.steps → run.events = run'.events := by
  refine ⟨Opener.decrypt_isLog, fun sealer payload source => sealer.encrypt_isLog payload, ?_, ?_⟩
  · intro run run' hsizes
    rw [run.events_eq, run'.events_eq, hsizes]
  · intro run run' hsizes hdepth hsteps
    rw [run.events_eq, run'.events_eq, hsizes, hdepth, hsteps]

/-- The key `7` seals two bytes for the key `5` at `m/a:7h` with random bytes from two sources, and
the key `5` opens two envelopes of them with different nonces. -/
theorem reports_depend_on_sizes_of_two_runs :
    let source := RandomSource.ofBytes []
    let source' := RandomSource.ofBytes [2]
    (∃ run run' : Sealer.Success, run.source = source ∧ run'.source = source' ∧
      run.sizes = run'.sizes ∧ run.events = run'.events) ∧
    ∃ run run' : Opener.Success, run.envelope.nonce = List.replicate 12 0 ∧
      run'.envelope.nonce = List.replicate 12 1 ∧ run.sizes = run'.sizes ∧
      run.place.depth = run'.place.depth ∧ run.steps = run'.steps ∧ run.events = run'.events := by
  intro source source'
  let place : Path := ⟨[⟨some "a", 7, true, by decide⟩], by decide⟩
  let receiver : PrivateKey := ⟨⟨5, by decide⟩⟩
  let root : ExtendedPrivateKey := ⟨receiver, .ofNat 32 0, place⟩
  let sealer : Sealer := ⟨⟨⟨7, by decide⟩⟩, receiver.publicKey, "m/a:7h", ⟨12⟩, rfl⟩
  have size : sealer.receiverPath.utf8ByteSize ≤ Envelope.maxPathSize := by decide +kernel
  have parsed : Path.parse sealer.receiverPath = .ok place := by decide +kernel
  have few : ([104, 105] : Bytes).length ≤ Field.maxSize := by decide
  have width (byte : UInt8) : (List.replicate 12 byte).length = sealer.settings.nonceSize :=
    List.length_replicate
  have held : (KeyTree.below root place).result = .ok receiver :=
    KeyTree.result_below_of_childNumbers_eq rfl
  obtain ⟨signature, hsign⟩ : ∃ signature, Signature.sign ⟨⟨7, by decide⟩⟩
      (SignedPayload.digest [104, 105] receiver.publicKey) = .ok signature :=
    SignedPayload.exists_sign_for_five
  obtain ⟨-, -, sealing, opening⟩ := reports_depend_on_sizes
  constructor
  · have offers (supply : Bytes) := (RandomSource.endless_ofBytes supply).offersScalar
    obtain ⟨run, hsealer, hpayload, hsource⟩ :=
      Sealer.exists_success (fun _ => offers []) few size hsign
    obtain ⟨run', hsealer', hpayload', hsource'⟩ :=
      Sealer.exists_success (fun _ => offers [2]) few size hsign
    have hsizes : run.sizes = run'.sizes := by
      rw [Sealer.Success.sizes, Sealer.Success.sizes, hsealer, hsealer', hpayload, hpayload']
    exact ⟨run, run', hsource, hsource', hsizes, sealing run run' hsizes⟩
  · obtain ⟨run, hpath, hnonce, hplace, hsteps, hpayload⟩ := Opener.exists_success
      ⟨⟨⟨11, by decide⟩⟩⟩ few size hsign (width 0) parsed held (Nat.add_zero _).symm rfl
    obtain ⟨run', hpath', hnonce', hplace', hsteps', hpayload'⟩ := Opener.exists_success
      ⟨⟨⟨11, by decide⟩⟩⟩ few size hsign (width 1) parsed held (Nat.add_zero _).symm rfl
    have hsizes : run.sizes = run'.sizes := by
      simp only [Opener.Success.sizes, hpath, hpath', hnonce, hnonce', hpayload, hpayload',
        List.length_replicate]
    have hdepth : run.place.depth = run'.place.depth := by rw [hplace, hplace']
    have hcount : run.steps = run'.steps := hsteps.trans hsteps'.symm
    exact ⟨run, run', hnonce, hnonce', hsizes, hdepth, hcount,
      opening run run' hsizes hdepth hcount⟩

end SealedMail
