import SealedMail.Curve.Agreement
import SealedMail.Proofs.Curve.FreshKey

/-!
# Draws from one source

Calls on one source take bytes off its stream one after another. A call gives the bytes that it
takes, or searches them for a key, and leaves the source behind them (`Turn.IsMade`,
`Turn.IsMade.exists_skip`). Along a run (`IsRun`) the stream stays, so the stretches that the calls
take lie end to end, in the order of the calls (`IsRun.flatten_stretches`). A search that is given
up after some number of windows (`PrivateKey.generateWithin`) shows how many a search for a key
needs; behind a finite supply of bytes it needs one (`PrivateKey.generateWithin_ofBytes`). Main
statement: `RandomSource.draws_in_order`.
-/

namespace SealedMail

/-! ## How long a search takes -/

namespace PrivateKey

/-- A finite supply is behind the search after the windows that touch it, and one more window is
enough then. -/
theorem generateWithin_ofBytes (supply : Bytes) (position : ℕ)
    (h : ((RandomSource.ofBytes supply).skip position).OffersScalar) :
    let source := (RandomSource.ofBytes supply).skip position
    let windows := (supply.length - position) ⌈/⌉ 32 + 1
    generateWithin windows source = some (generate source h) ∧
      (generate source h).2.taken ≤ source.taken + 32 * windows := by
  intro source windows
  obtain ⟨index, first⟩ := h.exists_first
  obtain ⟨key, found⟩ := Option.isSome_iff_exists.1 first.1
  have past : supply.length ≤ position + 32 * ((supply.length - position) ⌈/⌉ 32) := by
    rw [Nat.ceilDiv_eq_add_pred_div]
    omega
  have usable := RandomSource.isSome_key?_skip_ofBytes past
  rw [← RandomSource.skip_skip] at usable
  have reached : index < windows := Nat.lt_succ_of_le (first.le usable)
  constructor
  · rw [generateWithin_of_isFirstKey h first, if_pos reached]
  · rw [generate_of_isFirstKey h first found]
    exact Nat.add_le_add_left (Nat.mul_le_mul_left 32 reached) source.taken

end PrivateKey

namespace RandomSource

/-! ## Stretches of the stream -/

/-- The bytes of the stream from one offset up to another. -/
def stretch (source : RandomSource) (start stop : ℕ) : Bytes :=
  (List.range' start (stop - start)).map source.byteAt

theorem stretch_append (source : RandomSource) {a b c : ℕ} (hab : a ≤ b) (hbc : b ≤ c) :
    source.stretch a b ++ source.stretch b c = source.stretch a c := by
  have middle : b = a + 1 * (b - a) := by omega
  have size : c - a = (b - a) + (c - b) := by omega
  rw [stretch, stretch, stretch, ← List.map_append, size, ← List.range'_append, ← middle]

/-- What comes next is the stretch that is taken. -/
theorem peek_eq_stretch (source : RandomSource) (count : ℕ) :
    source.peek count = source.stretch source.taken (source.skip count).taken := by
  rw [peek, stretch, skip, Nat.add_sub_cancel_left, List.range'_eq_map_range, List.map_map]
  rfl

/-! ## Calls -/

/-- A call that takes bytes off a source: for a private key, a key pair for one agreement, so many
bytes, or bytes that overwrite a buffer. -/
inductive Call where
  | key
  | keyPair
  | bytes (count : ℕ)
  | fill (buffer : Bytes)

/-- What a call gives back. -/
inductive Answer where
  | key (key : PrivateKey)
  | keyPair (pair : EphemeralKey)
  | bytes (content : Bytes)

/-- A call with the source before it, what it gives back, and the source after it. -/
structure Turn where
  call : Call
  before : RandomSource
  answer : Answer
  after : RandomSource

namespace Turn

/-- The call is made and comes back. -/
inductive IsMade : Turn → Prop where
  | key {source : RandomSource} (h : source.OffersScalar) :
      IsMade ⟨.key, source, .key (PrivateKey.generate source h).1,
        (PrivateKey.generate source h).2⟩
  | keyPair {source : RandomSource} (h : source.OffersScalar) :
      IsMade ⟨.keyPair, source, .keyPair (EphemeralKey.generate source h).1,
        (EphemeralKey.generate source h).2⟩
  | bytes (source : RandomSource) (count : ℕ) :
      IsMade ⟨.bytes count, source, .bytes (source.draw count).1, (source.draw count).2⟩
  | fill (source : RandomSource) (buffer : Bytes) :
      IsMade ⟨.fill buffer, source, .bytes (source.fill buffer).1, (source.fill buffer).2⟩

variable {turn other : Turn}

/-- A call takes the next bytes of the stream and nothing else. -/
theorem IsMade.exists_skip (made : turn.IsMade) : ∃ count, turn.after = turn.before.skip count := by
  cases made with
  | key h => exact PrivateKey.exists_skip_generate _ h
  | keyPair h => exact PrivateKey.exists_skip_generate _ h
  | bytes source count => exact ⟨count, rfl⟩
  | fill source buffer => exact ⟨buffer.length, rfl⟩

/-- A call and the source that it finds decide what it gives back and leaves. -/
theorem IsMade.eq (made : turn.IsMade) (made' : other.IsMade) (call : turn.call = other.call)
    (before : turn.before = other.before) : turn = other := by
  cases made <;> cases made' <;> cases call <;> cases before <;> rfl

/-- A source that always offers a key lets every call come back. -/
theorem exists_isMade {source : RandomSource} (endless : source.Endless) (call : Call) :
    ∃ turn : Turn, turn.IsMade ∧ turn.call = call ∧ turn.before = source := by
  cases call with
  | key => exact ⟨_, .key endless.offersScalar, rfl, rfl⟩
  | keyPair => exact ⟨_, .keyPair endless.offersScalar, rfl, rfl⟩
  | bytes count => exact ⟨_, .bytes source count, rfl, rfl⟩
  | fill buffer => exact ⟨_, .fill source buffer, rfl, rfl⟩

/-- The call takes `count` bytes off the stream and gives them back. -/
def Returns (turn : Turn) (count : ℕ) : Prop :=
  turn.after = turn.before.skip count ∧
    turn.answer = .bytes (turn.before.stretch turn.before.taken turn.after.taken)

/-- The call takes windows off the stream up to the first that spells a key, and this is the key. -/
def FindsKey (turn : Turn) (key : PrivateKey) : Prop :=
  ∃ index, turn.before.IsScalarAt index ∧
    (∀ earlier < index, ¬ turn.before.IsScalarAt earlier) ∧
    key.scalar.value.val = turn.before.window index ∧
    turn.after = turn.before.skip (32 * (index + 1))

theorem IsMade.returns (made : turn.IsMade) {count : ℕ} (call : turn.call = .bytes count) :
    turn.Returns count := by
  cases made with
  | bytes source count' =>
      cases call
      exact ⟨rfl, congrArg Answer.bytes (source.peek_eq_stretch count)⟩
  | _ => cases call

theorem IsMade.returns_fill (made : turn.IsMade) {buffer : Bytes}
    (call : turn.call = .fill buffer) : turn.Returns buffer.length := by
  cases made with
  | fill source buffer' =>
      cases call
      exact ⟨rfl, congrArg Answer.bytes (source.peek_eq_stretch buffer.length)⟩
  | _ => cases call

theorem IsMade.findsKey (made : turn.IsMade) (call : turn.call = .key) :
    ∃ key, turn.answer = .key key ∧ turn.FindsKey key := by
  cases made with
  | key h => exact ⟨_, rfl, PrivateKey.exists_generate_eq h⟩
  | _ => cases call

theorem IsMade.findsKey_keyPair (made : turn.IsMade) (call : turn.call = .keyPair) :
    ∃ pair, turn.answer = .keyPair pair ∧ turn.FindsKey pair.secret := by
  cases made with
  | keyPair h => exact ⟨_, rfl, PrivateKey.exists_generate_eq h⟩
  | _ => cases call

end Turn

/-! ## Runs -/

/-- Calls on one source, one after another: each finds the source that the one before has left. -/
inductive IsRun : RandomSource → List Turn → RandomSource → Prop where
  | nil (source : RandomSource) : IsRun source [] source
  | cons {source last : RandomSource} {turn : Turn} {turns : List Turn}
      (found : turn.before = source) (made : turn.IsMade) (rest : IsRun turn.after turns last) :
      IsRun source (turn :: turns) last

namespace IsRun

variable {source last : RandomSource} {turns : List Turn}

/-- A run takes the next bytes of the stream and nothing else. -/
theorem exists_skip (run : IsRun source turns last) : ∃ count, last = source.skip count := by
  induction run with
  | nil source => exact ⟨0, rfl⟩
  | cons found made rest ih =>
      obtain ⟨count, hafter⟩ := made.exists_skip
      obtain ⟨more, hlast⟩ := ih
      exact ⟨count + more, by rw [hlast, hafter, found, skip_skip]⟩

/-- Every call of a run is made, on the stream of the run and not in front of its start. -/
theorem made_of_mem (run : IsRun source turns last) {turn : Turn} (h : turn ∈ turns) :
    turn.IsMade ∧ turn.before.byteAt = source.byteAt ∧ source.taken ≤ turn.before.taken := by
  induction run with
  | nil source => cases h
  | cons found made rest ih =>
      subst found
      rcases List.mem_cons.1 h with rfl | later
      · exact ⟨made, rfl, le_refl _⟩
      · obtain ⟨made', stream, place⟩ := ih later
        obtain ⟨count, hafter⟩ := made.exists_skip
        rw [hafter] at stream place
        exact ⟨made', stream, (Nat.le_add_right _ _).trans place⟩

/-- A call finds the source that the one before it has left. -/
theorem isChain (run : IsRun source turns last) :
    turns.IsChain fun earlier later => later.before = earlier.after := by
  induction run with
  | nil source => exact List.IsChain.nil
  | cons found made rest ih =>
      cases rest with
      | nil source => exact List.IsChain.singleton _
      | cons found' made' rest' => exact List.IsChain.cons_cons found' ih

/-- What a call takes lies behind everything that earlier calls have taken. -/
theorem pairwise (run : IsRun source turns last) :
    turns.Pairwise fun earlier later => earlier.after.taken ≤ later.before.taken := by
  induction run with
  | nil source => exact List.Pairwise.nil
  | cons found made rest ih =>
      refine List.Pairwise.cons (fun later h => ?_) ih
      exact (rest.made_of_mem h).2.2

/-- The stretches that the calls take make up the stretch that the run takes. -/
theorem flatten_stretches (run : IsRun source turns last) :
    (turns.map fun turn => source.stretch turn.before.taken turn.after.taken).flatten =
      source.stretch source.taken last.taken := by
  induction run with
  | nil source => simp [stretch]
  | @cons source last turn turns found made rest ih =>
      subst found
      -- The first stretch ends where the stretch of the other calls begins.
      obtain ⟨count, hafter⟩ := made.exists_skip
      obtain ⟨more, hlast⟩ := rest.exists_skip
      have stream : turn.after.stretch = turn.before.stretch := by
        rw [hafter]
        rfl
      have taken : turn.before.taken ≤ turn.after.taken := by
        rw [hafter]
        exact Nat.le_add_right _ _
      have taken' : turn.after.taken ≤ last.taken := by
        rw [hlast]
        exact Nat.le_add_right _ _
      rw [stream] at ih
      rw [List.map_cons, List.flatten_cons, ih, stretch_append _ taken taken']

/-- A source that always offers a key lets every sequence of calls come back. -/
theorem exists_of_endless {source : RandomSource} (endless : source.Endless) (calls : List Call) :
    ∃ turns last, IsRun source turns last ∧ turns.map Turn.call = calls := by
  induction calls generalizing source with
  | nil => exact ⟨[], source, .nil source, rfl⟩
  | cons call calls ih =>
      obtain ⟨turn, made, rfl, found⟩ := Turn.exists_isMade endless call
      obtain ⟨count, hafter⟩ := made.exists_skip
      have endless' : turn.after.Endless := by
        rw [hafter, found]
        exact endless.skip count
      obtain ⟨turns, last, rest, rfl⟩ := ih endless'
      exact ⟨turn :: turns, last, .cons found made rest, rfl⟩

/-- The calls and the source decide the run. -/
theorem eq_of_map_call {turns' : List Turn} {last' : RandomSource} (run : IsRun source turns last)
    (run' : IsRun source turns' last') (calls : turns'.map Turn.call = turns.map Turn.call) :
    turns' = turns := by
  induction run generalizing turns' with
  | nil source => exact List.map_eq_nil_iff.1 calls
  | @cons source last turn turns found made rest ih =>
      cases run' with
      | nil source => cases calls
      | @cons _ _ turn' turns' found' made' rest' =>
          obtain ⟨call, later⟩ := List.cons.inj calls
          obtain rfl := made'.eq made call (found'.trans found.symm)
          rw [ih rest' later]

end IsRun

/-- What is drawn from one source. A key can be drawn exactly if one of the next windows of 32 bytes
spells a number between zero and the group order; the first of these numbers is the key, and the
windows up to it are taken. Behind a finite supply of bytes this needs the windows that touch the
supply and one more at most. In a run of calls, each call takes the next bytes of the stream: as
many as it is asked for, which it gives back, or the windows up to the first that spells a key. A
call starts where the one before it has stopped, so what it takes lies behind everything taken
before, and all stretches together make up the one that the run takes. From a source that always
offers a key, every sequence of calls comes back, in one way. -/
theorem draws_in_order :
    (∀ source : RandomSource,
      (source.OffersScalar ↔ ∃ index, source.IsScalarAt index) ∧
      ∀ h : source.OffersScalar, ∃ index, source.IsScalarAt index ∧
        (∀ earlier < index, ¬ source.IsScalarAt earlier) ∧
        (PrivateKey.generate source h).1.scalar.value.val = source.window index ∧
        (PrivateKey.generate source h).2 = source.skip (32 * (index + 1))) ∧
    (∀ (supply : Bytes) (position : ℕ),
      let source := (ofBytes supply).skip position
      let windows := (supply.length - position) ⌈/⌉ 32 + 1
      source.Endless ∧ ∃ h : source.OffersScalar,
        PrivateKey.generateWithin windows source = some (PrivateKey.generate source h) ∧
          (PrivateKey.generate source h).2.taken ≤ source.taken + 32 * windows) ∧
    (∀ source turns last, IsRun source turns last →
      (∀ turn ∈ turns,
        (turn.before.byteAt = source.byteAt ∧ ∃ count, turn.after = turn.before.skip count) ∧
        (∀ count, turn.call = .bytes count → turn.Returns count) ∧
        (∀ buffer, turn.call = .fill buffer → turn.Returns buffer.length) ∧
        (turn.call = .key → ∃ key, turn.answer = .key key ∧ turn.FindsKey key) ∧
        (turn.call = .keyPair → ∃ pair, turn.answer = .keyPair pair ∧
          turn.FindsKey pair.secret)) ∧
      turns.IsChain (fun earlier later => later.before = earlier.after) ∧
      turns.Pairwise (fun earlier later => earlier.after.taken ≤ later.before.taken) ∧
      (turns.map fun turn => source.stretch turn.before.taken turn.after.taken).flatten =
        source.stretch source.taken last.taken) ∧
    ∀ source : RandomSource, source.Endless → ∀ calls : List Call,
      ∃! turns, ∃ last, IsRun source turns last ∧ turns.map Turn.call = calls := by
  refine ⟨fun source => ⟨offersScalar_iff, PrivateKey.exists_generate_eq⟩, ?_, ?_, ?_⟩
  · intro supply position source
    have endless : source.Endless := (endless_ofBytes supply).skip position
    exact ⟨endless, endless.offersScalar, PrivateKey.generateWithin_ofBytes supply position _⟩
  · intro source turns last run
    refine ⟨fun turn h => ?_, run.isChain, run.pairwise, run.flatten_stretches⟩
    obtain ⟨made, stream, -⟩ := run.made_of_mem h
    exact ⟨⟨stream, made.exists_skip⟩, fun _ => made.returns, fun _ => made.returns_fill,
      made.findsKey, made.findsKey_keyPair⟩
  · intro source endless calls
    obtain ⟨turns, last, run, hcalls⟩ := IsRun.exists_of_endless endless calls
    refine ⟨turns, ⟨last, run, hcalls⟩, ?_⟩
    rintro turns' ⟨last', run', hcalls'⟩
    exact run.eq_of_map_call run' (hcalls'.trans hcalls.symm)

/-- A piece of five bytes, a key behind a window of zeros and a buffer of two bytes. -/
theorem draws_in_order_around_zero_window :
    let source := ofBytes (List.replicate 37 0)
    let calls : List Call := [.bytes 5, .key, .fill [9, 9]]
    (source.skip 5).OffersScalar ∧
    (∀ h : (source.skip 5).OffersScalar,
      (PrivateKey.generate (source.skip 5) h).2 = source.skip 69) ∧
    source.Endless ∧ ∃ turns last, IsRun source turns last ∧ turns.map Turn.call = calls ∧
      turns.Pairwise (fun earlier later => earlier.after.taken ≤ later.before.taken) ∧
      (turns.map fun turn => source.stretch turn.before.taken turn.after.taken).flatten =
        source.stretch 0 last.taken := by
  intro source calls
  have zero : ¬ (source.skip 5).IsScalarAt 0 := by decide +kernel
  have one : (source.skip 5).IsScalarAt 1 := by decide +kernel
  obtain ⟨keys, -, runs, sequences⟩ := draws_in_order
  obtain ⟨offers, generates⟩ := keys (source.skip 5)
  have endless : source.Endless := endless_ofBytes _
  obtain ⟨turns, ⟨last, run, hcalls⟩, -⟩ := sequences source endless calls
  obtain ⟨-, -, ordered, whole⟩ := runs source turns last run
  refine ⟨offers.2 ⟨1, one⟩, fun h => ?_, endless, turns, last, run, hcalls, ordered, whole⟩
  -- The second window behind the piece is the first that spells a key.
  obtain ⟨index, usable, unusable, -, rest⟩ := generates h
  have second : (source.skip 5).IsFirstKey 1 := by
    refine isFirstKey_iff.2 ⟨one, fun earlier before => ?_⟩
    obtain rfl : earlier = 0 := by omega
    exact zero
  obtain rfl : index = 1 := (isFirstKey_iff.2 ⟨usable, unusable⟩).unique second
  rw [rest, skip_skip]

end RandomSource

end SealedMail
