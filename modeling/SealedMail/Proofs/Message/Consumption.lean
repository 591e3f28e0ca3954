import SealedMail.Proofs.Message.Framing

/-!
# What a run of calls consumes

A run makes calls on one reader and goes on after a failure. A call consumes the bytes that its
answer stands for, or nothing, or, if it is a refused field, the length alone (`Call.Effect`,
`Call.exists_effect`). Along a run the reader stays on its data, and every call has its effect at
some place there (`Turn.exists_isAt`), behind what the earlier calls have consumed
(`pairwise_turns`). A field that is read takes two bytes at least, so a loop that reads fields comes
to an end (`Read.fieldsUntilRefused`, `Read.fieldsUntilRefused_spec`). Main statement:
`Reader.turns_in_order`.
-/

namespace SealedMail

namespace Reader

/-- One call on a reader: for a big-endian number, a piece of given length, a field of at most
`limit` bytes, or everything that is left. -/
inductive Call where
  | number (width : ℕ)
  | exact (count : ℕ)
  | field (limit : ℕ)
  | rest

/-- What a call gives back. -/
inductive Answer where
  | number (value : ℕ)
  | bytes (content : Bytes)

namespace Call

/-- Make a call. -/
def perform : Call → Read Answer
  | number width => do return .number (← Read.number width)
  | exact count => do return .bytes (← Read.exact count)
  | field limit => do return .bytes (← Read.field limit)
  | rest => do return .bytes (← Read.rest)

/-- What a call does with the bytes left: those that it consumes, those that it leaves, and its
outcome. -/
inductive Effect : Call → (consumed behind : Bytes) → Except MessageError Answer → Prop where
  | number {digits behind : Bytes} :
      Effect (.number digits.length) digits behind (.ok (.number (Bytes.value digits)))
  | exact {content behind : Bytes} :
      Effect (.exact content.length) content behind (.ok (.bytes content))
  | field {limit : ℕ} {content behind : Bytes} (within : content.length ≤ limit)
      (fits : content.length ≤ Field.maxSize) :
      Effect (.field limit) (Field.encode content) behind (.ok (.bytes content))
  | rest {content : Bytes} : Effect .rest content [] (.ok (.bytes content))
  | shortNumber {width : ℕ} {behind : Bytes} (short : behind.length < width) :
      Effect (.number width) [] behind (.error (.truncated width behind.length))
  | short {count : ℕ} {behind : Bytes} (short : behind.length < count) :
      Effect (.exact count) [] behind (.error (.truncated count behind.length))
  | refused {limit : ℕ} {consumed behind : Bytes} {e : MessageError}
      (refused : Field.IsRefused limit consumed behind e) :
      Effect (.field limit) consumed behind (.error e)

/-- Every call has one of these effects. -/
theorem exists_effect (call : Call) (front back : Bytes) :
    ∃ consumed behind outcome, call.Effect consumed behind outcome ∧ back = consumed ++ behind ∧
      call.perform (between front back) = (outcome, between (front ++ consumed) behind) := by
  -- Each read has one success and one failure, and each of them is one of the effects.
  cases call with
  | number width =>
      rcases h : Read.number width (between front back) with ⟨e | value, after⟩
      · obtain ⟨short, rfl, rfl⟩ := Read.number_eq_error_iff.1 h
        refine ⟨[], back, _, .shortNumber short, rfl, ?_⟩
        rw [List.append_nil]
        exact Read.bind_eq_error_iff.2 (Or.inl h)
      · obtain ⟨behind, fits, rfl, rfl⟩ := Read.number_eq_ok_iff.1 h
        have effect : Effect (.number (Bytes.bigEndian width value).length)
            (Bytes.bigEndian width value) behind _ := .number
        rw [Bytes.length_bigEndian, Bytes.value_bigEndian_of_lt fits] at effect
        exact ⟨_, behind, _, effect, rfl, Read.bind_of_ok h⟩
  | exact count =>
      rcases h : Read.exact count (between front back) with ⟨e | content, after⟩
      · obtain ⟨short, rfl, rfl⟩ := Read.exact_eq_error_iff.1 h
        refine ⟨[], back, _, .short short, rfl, ?_⟩
        rw [List.append_nil]
        exact Read.bind_eq_error_iff.2 (Or.inl h)
      · obtain ⟨behind, rfl, rfl, rfl⟩ := Read.exact_eq_ok_iff.1 h
        exact ⟨content, behind, _, .exact, rfl, Read.bind_of_ok h⟩
  | field limit =>
      rcases h : Read.field limit (between front back) with ⟨e | content, after⟩
      · obtain ⟨consumed, behind, refused, rfl, rfl⟩ := Read.field_eq_error_iff.1 h
        exact ⟨consumed, behind, _, .refused refused, rfl,
          Read.bind_eq_error_iff.2 (Or.inl h)⟩
      · obtain ⟨behind, within, fits, rfl, rfl⟩ := Read.field_eq_ok_iff.1 h
        exact ⟨_, behind, _, .field within fits, rfl, Read.bind_of_ok h⟩
  | rest =>
      exact ⟨back, [], _, .rest, (List.append_nil back).symm,
        Read.bind_of_ok (Read.rest_between front back)⟩

end Call

/-! ## Runs -/

/-- One call of a run, with the reader that it finds, its outcome, and the reader that it leaves. -/
structure Turn where
  call : Call
  before : Reader
  outcome : Except MessageError Answer
  after : Reader

/-- Make calls one after another. Each finds the reader that the one before it has left, also if
that one failed. -/
def turns (reader : Reader) : List Call → List Turn
  | [] => []
  | call :: calls =>
      let (outcome, after) := call.perform reader
      ⟨call, reader, outcome, after⟩ :: turns after calls

theorem map_call_turns (reader : Reader) (calls : List Call) :
    (turns reader calls).map Turn.call = calls := by
  induction calls generalizing reader with
  | nil => rfl
  | cons call calls ih => rw [turns, List.map_cons, ih]

/-- The call had its effect at a place of the data: behind `front`, on the bytes `consumed`. -/
structure Turn.IsAt (turn : Turn) (data front consumed behind : Bytes) : Prop where
  data_eq : data = front ++ (consumed ++ behind)
  before_eq : turn.before = between front (consumed ++ behind)
  after_eq : turn.after = between (front ++ consumed) behind
  effect : turn.call.Effect consumed behind turn.outcome

/-- Every call of a run has its effect at some place of the data, not in front of the start. -/
theorem Turn.exists_isAt {reader : Reader} {calls : List Call} {turn : Turn}
    (h : turn ∈ turns reader calls) :
    ∃ front consumed behind, turn.IsAt reader.data front consumed behind ∧
      reader.position ≤ front.length := by
  -- The invariant is that the data stay and the position does not go back.
  induction calls generalizing reader with
  | nil => cases h
  | cons call calls ih =>
      obtain ⟨front, back, rfl⟩ := reader.exists_between
      obtain ⟨consumed, behind, outcome, effect, rfl, performed⟩ := call.exists_effect front back
      rw [turns, performed, List.mem_cons] at h
      rcases h with rfl | h
      · exact ⟨front, consumed, behind, ⟨rfl, rfl, rfl, effect⟩, le_refl _⟩
      · obtain ⟨front', consumed', behind', place, later⟩ := ih h
        rw [data_between, List.append_assoc] at place
        rw [position_between, List.length_append] at later
        exact ⟨front', consumed', behind', place, (Nat.le_add_right _ _).trans later⟩

/-- Calls start where the earlier ones have ended, or further on. -/
theorem pairwise_turns (reader : Reader) (calls : List Call) :
    (turns reader calls).Pairwise fun earlier later =>
      earlier.after.position ≤ later.before.position := by
  induction calls generalizing reader with
  | nil => exact List.Pairwise.nil
  | cons call calls ih =>
      rw [turns, List.pairwise_cons]
      refine ⟨fun later h => ?_, ih _⟩
      obtain ⟨front, consumed, behind, place, hposition⟩ := Turn.exists_isAt h
      rw [place.before_eq, position_between]
      exact hposition

/-! ## One call of a run -/

namespace Turn.IsAt

variable {turn : Turn} {data front consumed behind : Bytes}

theorem position_before (place : turn.IsAt data front consumed behind) :
    turn.before.position = front.length := by
  rw [place.before_eq, position_between]

theorem remaining_before (place : turn.IsAt data front consumed behind) :
    turn.before.remaining = consumed.length + behind.length := by
  rw [place.before_eq, remaining_between, List.length_append]

theorem position_after (place : turn.IsAt data front consumed behind) :
    turn.after.position = front.length + consumed.length := by
  rw [place.after_eq, position_between, List.length_append]

theorem remaining_after (place : turn.IsAt data front consumed behind) :
    turn.after.remaining = behind.length := by
  rw [place.after_eq, remaining_between]

/-- The position moves forward within the data. -/
theorem bounds (place : turn.IsAt data front consumed behind) :
    turn.before.position ≤ turn.after.position ∧ turn.after.position ≤ data.length ∧
      turn.after.position + turn.after.remaining = data.length := by
  have size : data.length = front.length + (consumed.length + behind.length) := by
    rw [place.data_eq, List.length_append, List.length_append]
  rw [place.position_before, place.position_after, place.remaining_after, size]
  omega

/-- The bytes between the positions, but for the first few, are the consumed bytes but for these. -/
theorem extract_eq (place : turn.IsAt data front consumed behind) {lead : ℕ}
    (h : lead ≤ consumed.length) :
    data.extract (turn.before.position + lead) turn.after.position = consumed.drop lead := by
  have size : front.length + consumed.length - (front.length + lead) =
      (consumed.drop lead).length := by
    rw [List.length_drop]
    omega
  rw [place.position_before, place.position_after, List.extract_eq_take_drop, place.data_eq,
    ← List.drop_drop, List.drop_left, List.drop_append_of_le_length h, size, List.take_left]

/-- The bytes between the positions are the consumed bytes. -/
theorem extract_eq_consumed (place : turn.IsAt data front consumed behind) :
    data.extract turn.before.position turn.after.position = consumed :=
  place.extract_eq (Nat.zero_le _)

/-- Where nothing is consumed, the reader stays as it is. -/
theorem after_eq_before (place : turn.IsAt data front [] behind) : turn.after = turn.before := by
  rw [place.after_eq, place.before_eq, List.append_nil, List.nil_append]

end Turn.IsAt

namespace Turn

/-- A call for `count` bytes. If fewer are left, the call consumes none of them; otherwise its
answer is made of the bytes that it consumes. -/
def Takes (turn : Turn) (data : Bytes) (count : ℕ) (answer : Bytes → Answer) : Prop :=
  turn.before.remaining < count ∧ turn.after = turn.before ∧
      turn.outcome = .error (.truncated count turn.before.remaining) ∨
    turn.after.position = turn.before.position + count ∧
      turn.outcome = .ok (answer (data.extract turn.before.position turn.after.position))

/-- A call for a field. Without two bytes for the length nothing is consumed. A field that is
refused for its length, or else for the bytes that are missing, leaves the reader behind the length;
one that is read is returned without the length. -/
def TakesField (turn : Turn) (data : Bytes) (limit : ℕ) : Prop :=
  let length := Bytes.value (turn.before.peek 2)
  turn.before.remaining < 2 ∧ turn.after = turn.before ∧
      turn.outcome = .error (.truncated 2 turn.before.remaining) ∨
    2 ≤ turn.before.remaining ∧ limit < length ∧
      turn.after.position = turn.before.position + 2 ∧
      turn.outcome = .error (.lengthAboveLimit length limit) ∨
    2 ≤ turn.before.remaining ∧ length ≤ limit ∧ turn.after.remaining < length ∧
      turn.after.position = turn.before.position + 2 ∧
      turn.outcome = .error (.truncated length turn.after.remaining) ∨
    2 ≤ turn.before.remaining ∧ length ≤ limit ∧
      turn.after.position = turn.before.position + 2 + length ∧
      turn.outcome = .ok (.bytes (data.extract (turn.before.position + 2) turn.after.position))

namespace IsAt

variable {turn : Turn} {data front consumed behind : Bytes}

/-- Too few bytes are left, and nothing is consumed. -/
theorem refused_short (place : turn.IsAt data front [] behind) {count : ℕ}
    (short : behind.length < count)
    (outcome : turn.outcome = .error (.truncated count behind.length)) :
    turn.before.remaining < count ∧ turn.after = turn.before ∧
      turn.outcome = .error (.truncated count turn.before.remaining) := by
  have left := place.remaining_before.trans (Nat.zero_add _)
  rw [left]
  exact ⟨short, place.after_eq_before, outcome⟩

theorem takes_consumed (place : turn.IsAt data front consumed behind) {answer : Bytes → Answer}
    (outcome : turn.outcome = .ok (answer consumed)) :
    turn.Takes data consumed.length answer := by
  refine Or.inr ⟨?_, ?_⟩
  · rw [place.position_after, place.position_before]
  · rw [place.extract_eq_consumed, outcome]

theorem takes_number (place : turn.IsAt data front consumed behind) {width : ℕ}
    (call : turn.call = .number width) :
    turn.Takes data width fun digits => .number (Bytes.value digits) := by
  obtain ⟨_, before, outcome, after⟩ := turn
  obtain rfl := call
  cases place.effect with
  | number => exact place.takes_consumed rfl
  | shortNumber short => exact Or.inl (place.refused_short short rfl)

theorem takes_exact (place : turn.IsAt data front consumed behind) {count : ℕ}
    (call : turn.call = .exact count) : turn.Takes data count .bytes := by
  obtain ⟨_, before, outcome, after⟩ := turn
  obtain rfl := call
  cases place.effect with
  | exact => exact place.takes_consumed rfl
  | short short => exact Or.inl (place.refused_short short rfl)

theorem takes_rest (place : turn.IsAt data front consumed behind) (call : turn.call = .rest) :
    turn.after.remaining = 0 ∧ turn.outcome =
      .ok (.bytes (data.extract turn.before.position turn.after.position)) := by
  obtain ⟨_, before, outcome, after⟩ := turn
  obtain rfl := call
  cases place.effect with
  | rest =>
      refine ⟨place.remaining_after, ?_⟩
      rw [place.extract_eq_consumed]

/-- The length that a field call finds in front of it. -/
theorem value_peek_two {length : ℕ} (tail : Bytes) (fits : length ≤ Field.maxSize)
    (place : turn.IsAt data front (Bytes.bigEndian 2 length ++ tail) behind) :
    Bytes.value (turn.before.peek 2) = length := by
  rw [place.before_eq, peek_between, List.append_assoc,
    List.take_left' (Bytes.length_bigEndian 2 length)]
  exact Bytes.value_bigEndian_of_lt (Nat.lt_succ_of_le fits)

/-- A refused field whose length is there leaves the reader behind the length. -/
theorem takes_length {length : ℕ} (place : turn.IsAt data front (Bytes.bigEndian 2 length) behind) :
    2 ≤ turn.before.remaining ∧ turn.after.position = turn.before.position + 2 := by
  rw [place.remaining_before, place.position_after, place.position_before, Bytes.length_bigEndian]
  exact ⟨Nat.le_add_right _ _, rfl⟩

theorem takes_field (place : turn.IsAt data front consumed behind) {limit : ℕ}
    (call : turn.call = .field limit) : turn.TakesField data limit := by
  obtain ⟨_, before, outcome, after⟩ := turn
  obtain rfl := call
  -- Every outcome is told by the length in front, as far as it is there.
  cases place.effect with
  | @field _ content _ within fits =>
      have size := Field.length_encode content
      have length : Bytes.value (before.peek 2) = content.length := place.value_peek_two _ fits
      have content_eq : (Field.encode content).drop 2 = content :=
        List.drop_left' (Bytes.length_bigEndian 2 _)
      refine Or.inr (Or.inr (Or.inr ⟨?_, ?_, ?_, ?_⟩))
      · rw [place.remaining_before, size]
        omega
      · rwa [length]
      · rw [place.position_after, place.position_before, size, length, Nat.add_assoc]
      · rw [place.extract_eq (by omega), content_eq]
  | refused refused =>
      cases refused with
      | noLength short => exact Or.inl (place.refused_short short rfl)
      | @aboveLimit length _ fits above =>
          obtain ⟨enough, position⟩ := place.takes_length
          have length_eq : Bytes.value (before.peek 2) = length :=
            value_peek_two [] fits (by rwa [List.append_nil])
          refine Or.inr (Or.inl ⟨enough, ?_, position, ?_⟩)
          · rwa [length_eq]
          · rw [length_eq]
      | @cutOff length _ fits within short =>
          obtain ⟨enough, position⟩ := place.takes_length
          have length_eq : Bytes.value (before.peek 2) = length :=
            value_peek_two [] fits (by rwa [List.append_nil])
          have left : after.remaining = behind.length := place.remaining_after
          refine Or.inr (Or.inr (Or.inl ⟨enough, ?_, ?_, position, ?_⟩))
          · rwa [length_eq]
          · rwa [length_eq, left]
          · rw [length_eq, left]

end IsAt

end Turn

end Reader

/-! ## Fields until one is refused -/

namespace Read

/-- A field that is read takes its length and its bytes. -/
theorem remaining_of_field {limit : ℕ} {reader after : Reader} {content : Bytes}
    (h : field limit reader = (.ok content, after)) :
    reader.remaining = 2 + content.length + after.remaining := by
  obtain ⟨front, back, rfl⟩ := reader.exists_between
  obtain ⟨rest, -, -, rfl, rfl⟩ := field_eq_ok_iff.1 h
  rw [Reader.remaining_between, Reader.remaining_between, List.length_append, Field.length_encode]

/-- Read fields, each under the next one of endless limits, until one is refused: the fields that
were read, why the next one was not, and where that left the reader. -/
def fieldsUntilRefused (limits : Stream' ℕ) (reader : Reader) :
    List Bytes × MessageError × Reader :=
  match _ : field limits.head reader with
  | (.error e, after) => ([], e, after)
  | (.ok content, after) =>
      let (contents, e, last) := fieldsUntilRefused limits.tail after
      (content :: contents, e, last)
termination_by reader.remaining
decreasing_by
  rename_i read
  have size := remaining_of_field read
  omega

theorem fieldsUntilRefused_of_error {limits : Stream' ℕ} {reader after : Reader} {e : MessageError}
    (h : field limits.head reader = (.error e, after)) :
    fieldsUntilRefused limits reader = ([], e, after) := by
  rw [fieldsUntilRefused]
  split <;> simp_all

theorem fieldsUntilRefused_of_ok {limits : Stream' ℕ} {reader after : Reader} {content : Bytes}
    (h : field limits.head reader = (.ok content, after)) :
    fieldsUntilRefused limits reader =
      (content :: (fieldsUntilRefused limits.tail after).1,
        (fieldsUntilRefused limits.tail after).2) := by
  rw [fieldsUntilRefused]
  split <;> simp_all

/-- The loop reads one field for each limit until it stops, and every field takes two bytes at
least. -/
theorem fieldsUntilRefused_spec {limits : Stream' ℕ} {reader last : Reader}
    {contents : List Bytes} {e : MessageError}
    (h : fieldsUntilRefused limits reader = (contents, e, last)) :
    2 * contents.length ≤ reader.remaining ∧
      ∃ stop, fields (limits.take contents.length) reader = (.ok contents, stop) ∧
        field (limits.get contents.length) stop = (.error e, last) := by
  -- The induction follows the loop, which has two bytes less left after each field.
  fun_induction fieldsUntilRefused limits reader generalizing contents with
  | case1 limits reader e' after refused =>
      cases h
      exact ⟨Nat.zero_le _, reader, rfl, refused⟩
  | case2 limits reader content after read contents' e' last' rest ih =>
      cases h
      obtain ⟨bound, stop, hfields, refused⟩ := ih rest
      refine ⟨?_, stop, ?_, refused⟩
      · rw [remaining_of_field read, List.length_cons]
        omega
      · rw [List.length_cons, Stream'.take_succ, fields, bind_of_ok read, bind_of_ok hfields,
          pure_apply]

end Read

namespace Reader

/-- The laws of a run of calls, which goes on after failures. The position never goes back and never
leaves the data, and it makes up the length of the data with what remains. A number or a piece of
fixed size is made of exactly the bytes consumed, or too few are left and nothing is consumed. A
field is returned without its length, and is within the limit; a refused one leaves the reader
behind the length, or where it was if there is none, and is refused for its length before it is
refused for missing bytes. What is left is always returned. The consumed ranges lie one behind the
other. A loop that reads fields under any limits until one is refused reads at most half as many as
there are bytes. -/
theorem turns_in_order (start : Reader) (calls : List Call) :
    (turns start calls).map Turn.call = calls ∧
    (∀ turn ∈ turns start calls,
      (turn.before.position ≤ turn.after.position ∧
        turn.after.position ≤ start.data.length ∧
        turn.after.position + turn.after.remaining = start.data.length) ∧
      (∀ width, turn.call = .number width →
        turn.Takes start.data width fun digits => .number (Bytes.value digits)) ∧
      (∀ count, turn.call = .exact count → turn.Takes start.data count .bytes) ∧
      (∀ limit, turn.call = .field limit → turn.TakesField start.data limit) ∧
      (turn.call = .rest → turn.after.remaining = 0 ∧ turn.outcome =
        .ok (.bytes (start.data.extract turn.before.position turn.after.position)))) ∧
    (turns start calls).Pairwise (fun earlier later =>
      earlier.after.position ≤ later.before.position) ∧
    ∀ (limits : Stream' ℕ) contents e last,
      Read.fieldsUntilRefused limits start = (contents, e, last) →
        2 * contents.length ≤ start.remaining ∧
        ∃ stop, Read.fields (limits.take contents.length) start = (.ok contents, stop) ∧
          Read.field (limits.get contents.length) stop = (.error e, last) := by
  refine ⟨map_call_turns start calls, ?_, pairwise_turns start calls, ?_⟩
  · intro turn h
    obtain ⟨front, consumed, behind, place, -⟩ := Turn.exists_isAt h
    exact ⟨place.bounds, fun _ => place.takes_number, fun _ => place.takes_exact,
      fun _ => place.takes_field, place.takes_rest⟩
  · intro limits contents e last h
    exact Read.fieldsUntilRefused_spec h

/-- Two fields that are refused, a piece longer than the data, and a field that is read behind them;
from the third length on, the loop reads that field only. -/
theorem turns_in_order_after_refusals :
    let start := Reader.start [0, 5, 1, 2, 0, 1, 7]
    let calls : List Call :=
      [.field 4, .field 1000, .exact 18446744073709551615, .field 9, .number 1, .rest]
    let refused : Turn :=
      ⟨.field 4, start, .error (.lengthAboveLimit 5 4), ⟨start.data, 2, by decide⟩⟩
    let behind : Reader := ⟨start.data, 4, by decide⟩
    (refused ∈ turns start calls ∧ refused.TakesField start.data 4 ∧
      refused.after.position ≤ start.data.length) ∧
    (turns start calls).map (fun turn => turn.after.position) = [2, 4, 4, 7, 7, 7] ∧
    ∃ last, Read.fieldsUntilRefused (Stream'.const 9) behind = ([[7]], .truncated 2 0, last) ∧
      2 * ([[7]] : List Bytes).length ≤ behind.remaining := by
  intro start calls refused behind
  have member : refused ∈ turns start calls := List.mem_cons_self
  obtain ⟨-, laws, -, -⟩ := turns_in_order start calls
  obtain ⟨⟨-, within, -⟩, -, -, field, -⟩ := laws refused member
  obtain ⟨-, -, -, loop⟩ := turns_in_order behind []
  have read : Read.fieldsUntilRefused (Stream'.const 9) behind =
      ([[7]], .truncated 2 0, ⟨start.data, 7, by decide⟩) := by
    rw [Read.fieldsUntilRefused_of_ok rfl, Read.fieldsUntilRefused_of_error rfl]
    rfl
  exact ⟨⟨member, field 4 rfl, within⟩, rfl, _, read, (loop _ _ _ _ read).1⟩

end Reader

end SealedMail
