import SealedMail.Message.Field
import SealedMail.Proofs.Bytes.Positional

/-!
# What reading steps accept and refuse

A reader is described by the bytes before and behind its position (`Reader.between`). Each reading
step accepts exactly what the corresponding writing produces: a number its big-endian encoding, a
field its length and its bytes (`Read.number_eq_ok_iff`, `Read.field_eq_ok_iff`). A sequence of
steps accepts what its steps accept one after another (`Read.bind_eq_ok_iff`). A field is refused
for its length before it is refused for the bytes that are missing (`Read.field_eq_error_iff`). What
goes wrong in a step is a failure of its format, and the steps of a sequence pass that on
(`Read.FailsAs.bind`).
-/

namespace SealedMail

theorem Field.length_encode (content : Bytes) :
    (Field.encode content).length = 2 + content.length := by
  simp [encode]

/-- What keeps a field of at most `limit` bytes from being read: the bytes consumed on the way, the
bytes left behind them, and the failure. -/
inductive Field.IsRefused (limit : ℕ) : (consumed rest : Bytes) → MessageError → Prop where
  | noLength {rest : Bytes} (short : rest.length < 2) :
      IsRefused limit [] rest (.truncated 2 rest.length)
  | aboveLimit {length : ℕ} {rest : Bytes} (fits : length ≤ maxSize) (above : limit < length) :
      IsRefused limit (Bytes.bigEndian 2 length) rest (.lengthAboveLimit length limit)
  | cutOff {length : ℕ} {rest : Bytes} (fits : length ≤ maxSize) (within : length ≤ limit)
      (short : rest.length < length) :
      IsRefused limit (Bytes.bigEndian 2 length) rest (.truncated length rest.length)

namespace Reader

/-- The reader that has consumed `front` and still has `back` before it. -/
def between (front back : Bytes) : Reader where
  data := front ++ back
  position := front.length
  position_le := by simp

theorem start_eq (data : Bytes) : start data = between [] data := rfl

theorem exists_between (reader : Reader) : ∃ front back, reader = between front back := by
  obtain ⟨data, position, h⟩ := reader
  exact ⟨data.take position, data.drop position, by simp [between, h]⟩

@[simp] theorem data_between (front back : Bytes) : (between front back).data = front ++ back := rfl

@[simp] theorem position_between (front back : Bytes) :
    (between front back).position = front.length := rfl

@[simp] theorem remaining_between (front back : Bytes) :
    (between front back).remaining = back.length := by
  simp [remaining]

@[simp] theorem peek_between (front back : Bytes) (count : ℕ) :
    (between front back).peek count = back.take count := by
  simp [peek]

theorem advance_between (front back : Bytes) {count : ℕ}
    (h : count ≤ (between front back).remaining) :
    (between front back).advance count h =
      between (front ++ back.take count) (back.drop count) := by
  have hle : count ≤ back.length := by simpa using h
  simp [advance, between, hle]

end Reader

namespace Read

open Reader (between)

variable {α β : Type}

@[simp] theorem pure_apply (value : α) (reader : Reader) :
    (Pure.pure value : Read α) reader = (.ok value, reader) := rfl

@[simp] theorem fail_apply (e : MessageError) (reader : Reader) :
    (fail e : Read α) reader = (.error e, reader) := rfl

@[simp] theorem reader_apply (r : Reader) : reader r = (.ok r, r) := rfl

theorem bind_of_ok {step : Read α} {next : α → Read β} {before middle : Reader} {value : α}
    (h : step before = (.ok value, middle)) : (step >>= next) before = next value middle := by
  change Read.bind step next before = _
  rw [Read.bind, h]

theorem bind_eq_ok_iff {step : Read α} {next : α → Read β} {before after : Reader} {result : β} :
    (step >>= next) before = (.ok result, after) ↔
      ∃ value middle, step before = (.ok value, middle) ∧
        next value middle = (.ok result, after) := by
  change Read.bind step next before = _ ↔ _
  unfold Read.bind
  rcases step before with ⟨e | value, middle⟩
  · simp
  · constructor
    · intro h
      exact ⟨value, middle, rfl, h⟩
    · intro h
      rcases h with ⟨value', middle', h, hnext⟩
      cases h
      exact hnext

theorem bind_eq_error_iff {step : Read α} {next : α → Read β} {before after : Reader}
    {e : MessageError} :
    (step >>= next) before = (.error e, after) ↔
      step before = (.error e, after) ∨
      ∃ value middle, step before = (.ok value, middle) ∧
        next value middle = (.error e, after) := by
  change Read.bind step next before = _ ↔ _
  unfold Read.bind
  rcases step before with ⟨cause | value, middle⟩
  · simp
  · constructor
    · intro h
      exact Or.inr ⟨value, middle, rfl, h⟩
    · intro h
      rcases h with h | ⟨value', middle', h, hnext⟩
      · cases h
      · cases h
        exact hnext

theorem run_eq_ok_iff {step : Read α} {data : Bytes} {value : α} :
    step.run data = .ok value ↔ ∃ after, step (between [] data) = (.ok value, after) := by
  rw [run, Reader.start_eq]
  rcases step (between [] data) with ⟨result, after⟩
  simp

theorem run_eq_error_iff {step : Read α} {data : Bytes} {e : MessageError} :
    step.run data = .error e ↔ ∃ after, step (between [] data) = (.error e, after) := by
  rw [run, Reader.start_eq]
  rcases step (between [] data) with ⟨result, after⟩
  simp

theorem exact_eq_ok_iff {count : ℕ} {front back content : Bytes} {after : Reader} :
    exact count (between front back) = (.ok content, after) ↔
      ∃ rest, content.length = count ∧ back = content ++ rest ∧
        after = between (front ++ content) rest := by
  unfold exact
  -- The step takes the bytes if there are enough of them left.
  split
  · rename_i h
    have hle : count ≤ back.length := by simpa using h
    rw [Reader.advance_between, Reader.peek_between, Prod.mk.injEq, Except.ok.injEq]
    constructor
    · intro h
      rcases h with ⟨rfl, rfl⟩
      exact ⟨back.drop count, by simp [hle], by simp, rfl⟩
    · intro h
      rcases h with ⟨rest, rfl, rfl, rfl⟩
      simp
  · rename_i h
    simp only [Prod.mk.injEq, reduceCtorEq, false_and, false_iff]
    intro h
    rcases h with ⟨rest, rfl, rfl, -⟩
    simp at h

/-- Too few bytes are not consumed. -/
theorem exact_eq_error_iff {count : ℕ} {front back : Bytes} {e : MessageError} {after : Reader} :
    exact count (between front back) = (.error e, after) ↔
      back.length < count ∧ e = .truncated count back.length ∧ after = between front back := by
  unfold exact
  split
  · rename_i h
    have hle : count ≤ back.length := by simpa using h
    simp [hle]
  · rename_i h
    have hlt : back.length < count := by simpa using h
    rw [Reader.remaining_between, Prod.mk.injEq, Except.error.injEq]
    constructor
    · rintro ⟨rfl, rfl⟩
      exact ⟨hlt, rfl, rfl⟩
    · rintro ⟨-, rfl, rfl⟩
      exact ⟨rfl, rfl⟩

theorem rest_between (front back : Bytes) :
    rest (between front back) = (.ok back, between (front ++ back) []) := by
  rw [rest, Reader.advance_between]
  simp

theorem number_eq_ok_iff {width value : ℕ} {front back : Bytes} {after : Reader} :
    number width (between front back) = (.ok value, after) ↔
      ∃ rest, value < 256 ^ width ∧ back = Bytes.bigEndian width value ++ rest ∧
        after = between (front ++ Bytes.bigEndian width value) rest := by
  simp only [number, bind_eq_ok_iff, exact_eq_ok_iff, pure_apply, Prod.mk.injEq, Except.ok.injEq]
  constructor
  · intro h
    rcases h with ⟨digits, middle, ⟨rest, rfl, rfl, rfl⟩, rfl, rfl⟩
    rw [Bytes.bigEndian_value]
    exact ⟨rest, Bytes.value_lt digits, rfl, rfl⟩
  · intro h
    rcases h with ⟨rest, hlt, rfl, rfl⟩
    exact ⟨_, _, ⟨rest, Bytes.length_bigEndian _ _, rfl, rfl⟩, Bytes.value_bigEndian_of_lt hlt, rfl⟩

theorem number_eq_error_iff {width : ℕ} {front back : Bytes} {e : MessageError} {after : Reader} :
    number width (between front back) = (.error e, after) ↔
      back.length < width ∧ e = .truncated width back.length ∧ after = between front back := by
  simp only [number, bind_eq_error_iff, exact_eq_error_iff, pure_apply, Prod.mk.injEq,
    reduceCtorEq, false_and, and_false, exists_false, or_false]

/-- A field accepts the length and the bytes of a content within the limit. -/
theorem field_eq_ok_iff {limit : ℕ} {front back content : Bytes} {after : Reader} :
    field limit (between front back) = (.ok content, after) ↔
      ∃ rest, content.length ≤ limit ∧ content.length ≤ Field.maxSize ∧
        back = Field.encode content ++ rest ∧
        after = between (front ++ Field.encode content) rest := by
  simp only [field, bind_eq_ok_iff, number_eq_ok_iff]
  constructor
  · intro read
    rcases read with ⟨length, middle, ⟨rest, hlt, rfl, rfl⟩, h⟩
    split at h
    · simp at h
    · rename_i hlimit
      obtain ⟨rest', rfl, rfl, rfl⟩ := exact_eq_ok_iff.1 h
      have hmax : content.length ≤ Field.maxSize := Nat.le_of_lt_succ hlt
      refine ⟨rest', Nat.le_of_not_lt hlimit, hmax, ?_, ?_⟩
      · rw [Field.encode, List.append_assoc]
      · rw [Field.encode, List.append_assoc]
  · intro h
    rcases h with ⟨rest, hlimit, hmax, rfl, rfl⟩
    refine ⟨content.length, _, ⟨content ++ rest, Nat.lt_succ_of_le hmax, ?_, rfl⟩, ?_⟩
    · rw [Field.encode, List.append_assoc]
    · rw [if_neg (Nat.not_lt.2 hlimit), exact_eq_ok_iff]
      exact ⟨rest, rfl, rfl, by rw [Field.encode, List.append_assoc]⟩

/-- A field is refused for its length first, and then for what is left behind the length. -/
theorem field_eq_error_iff {limit : ℕ} {front back : Bytes} {e : MessageError} {after : Reader} :
    field limit (between front back) = (.error e, after) ↔
      ∃ consumed rest, Field.IsRefused limit consumed rest e ∧ back = consumed ++ rest ∧
        after = between (front ++ consumed) rest := by
  simp only [field, bind_eq_error_iff, number_eq_error_iff, number_eq_ok_iff]
  constructor
  · rintro (⟨short, rfl, rfl⟩ | ⟨length, middle, ⟨rest, fits, rfl, rfl⟩, h⟩)
    · exact ⟨[], back, .noLength short, rfl, by rw [List.append_nil]⟩
    · -- The length was read. It is held against the limit before the content is.
      have fits : length ≤ Field.maxSize := Nat.le_of_lt_succ fits
      split at h
      · rename_i above
        cases h
        exact ⟨_, rest, .aboveLimit fits above, rfl, rfl⟩
      · rename_i within
        obtain ⟨short, rfl, rfl⟩ := exact_eq_error_iff.1 h
        exact ⟨_, rest, .cutOff fits (Nat.le_of_not_lt within) short, rfl, rfl⟩
  · rintro ⟨consumed, rest, refused, rfl, rfl⟩
    cases refused with
    | noLength short =>
        exact Or.inl ⟨short, rfl, by rw [List.append_nil, List.nil_append]⟩
    | aboveLimit fits above =>
        refine Or.inr ⟨_, _, ⟨rest, Nat.lt_succ_of_le fits, rfl, rfl⟩, ?_⟩
        rw [if_pos above, fail_apply]
    | cutOff fits within short =>
        refine Or.inr ⟨_, _, ⟨rest, Nat.lt_succ_of_le fits, rfl, rfl⟩, ?_⟩
        rw [if_neg (Nat.not_lt.2 within)]
        exact exact_eq_error_iff.2 ⟨short, rfl, rfl⟩

theorem number_append {width value : ℕ} (h : value < 256 ^ width) (front rest : Bytes) :
    number width (between front (Bytes.bigEndian width value ++ rest)) =
      (.ok value, between (front ++ Bytes.bigEndian width value) rest) :=
  number_eq_ok_iff.2 ⟨rest, h, rfl, rfl⟩

theorem exact_append {count : ℕ} {content : Bytes} (h : content.length = count)
    (front rest : Bytes) :
    exact count (between front (content ++ rest)) =
      (.ok content, between (front ++ content) rest) :=
  exact_eq_ok_iff.2 ⟨rest, h, rfl, rfl⟩

theorem field_append {limit : ℕ} {content : Bytes} (hlimit : content.length ≤ limit)
    (hmax : content.length ≤ Field.maxSize) (front rest : Bytes) :
    field limit (between front (Field.encode content ++ rest)) =
      (.ok content, between (front ++ Field.encode content) rest) :=
  field_eq_ok_iff.2 ⟨rest, hlimit, hmax, rfl, rfl⟩

/-! ## Kinds of failure -/

/-- Whatever goes wrong in the step is of this kind. -/
def FailsAs (kind : FailureKind) (step : Read α) : Prop :=
  ∀ reader e, (step reader).1 = .error e → e.kind = kind

section FailsAs

variable {kind : FailureKind}

theorem failsAs_pure (value : α) : FailsAs kind (Pure.pure value : Read α) := by
  intro reader e h
  cases h

theorem failsAs_reader : FailsAs kind Read.reader := by
  intro reader e h
  cases h

theorem failsAs_rest : FailsAs kind rest := by
  intro reader e h
  cases h

theorem failsAs_fail {e : MessageError} (h : e.kind = kind) : FailsAs kind (fail e : Read α) := by
  intro reader e' h'
  cases h'
  exact h

theorem FailsAs.bind {step : Read α} {next : α → Read β} (hstep : FailsAs kind step)
    (hnext : ∀ value, FailsAs kind (next value)) : FailsAs kind (step >>= next) := by
  intro reader e h
  change (Read.bind step next reader).1 = .error e at h
  unfold Read.bind at h
  split at h
  · exact hnext _ _ _ h
  · rename_i hfail
    cases h
    exact hstep reader e (congrArg Prod.fst hfail)

theorem failsAs_exact (count : ℕ) : FailsAs .format (exact count) := by
  intro reader e h
  unfold exact at h
  split at h
  · cases h
  · cases h
    rfl

theorem failsAs_number (width : ℕ) : FailsAs .format (number width) :=
  (failsAs_exact width).bind fun _ => failsAs_pure _

theorem failsAs_field (limit : ℕ) : FailsAs .format (field limit) := by
  refine (failsAs_number 2).bind fun length => ?_
  split
  · exact failsAs_fail rfl
  · exact failsAs_exact length

theorem FailsAs.run {step : Read α} (hstep : FailsAs kind step) {data : Bytes} {e : MessageError}
    (h : step.run data = .error e) : e.kind = kind :=
  hstep _ e h

end FailsAs

end Read

end SealedMail
