import SealedMail.Proofs.Message.Layout

/-!
# Fields one after another

Writing a list of fields puts the fields that are short enough behind the buffer, each behind its
length, and passes over the others (`Field.writeAll_eq`). Reading fields under a list of limits
accepts exactly such fields, in order and within their limits (`Read.fields_eq_ok_iff`). So each
undoes the other (`Read.fields_invert_writes`).
-/

namespace SealedMail

/-! ## Writing -/

namespace Field

theorem exists_write_eq_error_iff {buffer content : Bytes} :
    (∃ e, (write buffer content).1 = .error e) ↔ maxSize < content.length := by
  unfold write
  split
  · simp; omega
  · simp; omega

/-- A refused write says how long the field is, and changes nothing. -/
theorem write_of_maxSize_lt (buffer : Bytes) {content : Bytes} (h : maxSize < content.length) :
    write buffer content = (.error (.fieldTooLong .framed content.length maxSize), buffer) := by
  rw [write, if_neg (Nat.not_le.2 h)]

theorem write_of_le_maxSize (buffer : Bytes) {content : Bytes} (h : content.length ≤ maxSize) :
    write buffer content = (.ok (), buffer ++ encode content) := by
  rw [write, if_pos h]

/-- Fields that are too long leave no trace. -/
theorem writeAll_eq (buffer : Bytes) (contents : List Bytes) :
    writeAll buffer contents =
      buffer ++ (contents.filter (·.length ≤ maxSize)).flatMap encode := by
  induction contents generalizing buffer with
  | nil => simp [writeAll]
  | cons content contents ih =>
      have step : writeAll buffer (content :: contents) =
          writeAll (write buffer content).2 contents := rfl
      rw [step, ih]
      by_cases h : content.length ≤ maxSize
      · simp [write_of_le_maxSize buffer h, h]
      · simp [write_of_maxSize_lt buffer (Nat.lt_of_not_le h), h]

end Field

/-! ## Reading -/

namespace Read

open Reader (between)

/-- Read one field for each limit. -/
def fields : List ℕ → Read (List Bytes)
  | [] => return []
  | limit :: limits => do
      let content ← field limit
      let contents ← fields limits
      return content :: contents

/-- Exactly fields within their limits are read, in order and up to the end of the last one. -/
theorem fields_eq_ok_iff {limits : List ℕ} {front back : Bytes} {contents : List Bytes}
    {after : Reader} :
    fields limits (between front back) = (.ok contents, after) ↔
      ∃ rest, List.Forall₂ (fun content limit => content.length ≤ limit) contents limits ∧
        (∀ content ∈ contents, content.length ≤ Field.maxSize) ∧
        back = contents.flatMap Field.encode ++ rest ∧
        after = between (front ++ contents.flatMap Field.encode) rest := by
  -- On the limits, one for each field; the front grows by the fields that are read.
  induction limits generalizing front back contents with
  | nil =>
      rw [fields, pure_apply, Prod.mk.injEq, Except.ok.injEq]
      constructor
      · rintro ⟨rfl, rfl⟩
        exact ⟨back, .nil, by simp, by simp, by simp⟩
      · rintro ⟨rest, within, -, rfl, rfl⟩
        cases within
        simp
  | cons limit limits ih =>
      simp only [fields, bind_eq_ok_iff, field_eq_ok_iff, pure_apply, Prod.mk.injEq,
        Except.ok.injEq]
      constructor
      · rintro ⟨content, _, ⟨rest, hlimit, hmax, rfl, rfl⟩, contents, _, hrest, rfl, rfl⟩
        obtain ⟨rest, within, fits, rfl, rfl⟩ := ih.1 hrest
        exact ⟨rest, .cons hlimit within, List.forall_mem_cons.2 ⟨hmax, fits⟩, by simp, by simp⟩
      · rintro ⟨rest, within, fits, rfl, rfl⟩
        cases within with
        | @cons content _ contents _ hlimit within =>
            obtain ⟨hmax, fits⟩ := List.forall_mem_cons.1 fits
            refine ⟨content, _, ⟨contents.flatMap Field.encode ++ rest, hlimit, hmax, ?_, rfl⟩,
              contents, _, ih.2 ⟨rest, within, fits, rfl, ?_⟩, rfl, rfl⟩
            · simp
            · simp

/-- Writing fields one after another and reading them again undo each other. A write is refused
exactly for a field of more than 65535 bytes, and leaves the buffer as it is; in the end the buffer
has the other fields behind what it had, each behind its length. From there on, with anything
behind, fields are read under limits that they keep as exactly these fields, up to the end of the
last one. Whatever fields are read one after another, under any limits, writing them again gives the
bytes that were consumed. -/
theorem fields_invert_writes :
    (∀ buffer content,
      ((∃ e, (Field.write buffer content).1 = .error e) ↔ 65535 < content.length) ∧
      (65535 < content.length → Field.write buffer content =
        (.error (.fieldTooLong .framed content.length 65535), buffer))) ∧
    (∀ (buffer : Bytes) (contents : List Bytes),
      let accepted := contents.filter (·.length ≤ 65535)
      let written := accepted.flatMap fun content =>
        Bytes.bigEndian 2 content.length ++ content
      Field.writeAll buffer contents = buffer ++ written ∧
      ∀ (limits : List ℕ) (reader : Reader) (rest : Bytes),
        List.Forall₂ (fun content limit => content.length ≤ limit) accepted limits →
        reader.data.drop reader.position = written ++ rest →
        ∃ after, fields limits reader = (.ok accepted, after) ∧ after.data = reader.data ∧
          after.position = reader.position + written.length) ∧
    (∀ limits reader contents after, fields limits reader = (.ok contents, after) →
      ∃ consumed, reader.data.drop reader.position =
          consumed ++ after.data.drop after.position ∧
        after.data = reader.data ∧ after.position = reader.position + consumed.length ∧
        (∀ content ∈ contents, ∀ buffer, (Field.write buffer content).1 = .ok ()) ∧
        ∀ buffer, Field.writeAll buffer contents = buffer ++ consumed) := by
  refine ⟨fun buffer content => ⟨Field.exists_write_eq_error_iff,
    Field.write_of_maxSize_lt buffer⟩, ?_, ?_⟩
  · intro buffer contents accepted written
    refine ⟨Field.writeAll_eq buffer contents, ?_⟩
    intro limits reader rest within hback
    obtain ⟨front, back, rfl⟩ := reader.exists_between
    obtain rfl : back = written ++ rest := by simpa using hback
    have fits : ∀ content ∈ accepted, content.length ≤ Field.maxSize := by
      intro content h
      exact of_decide_eq_true (List.mem_filter.1 h).2
    refine ⟨_, fields_eq_ok_iff.2 ⟨rest, within, fits, rfl, rfl⟩, ?_, ?_⟩
    · exact List.append_assoc _ _ _
    · exact List.length_append
  · intro limits reader contents after h
    obtain ⟨front, back, rfl⟩ := reader.exists_between
    obtain ⟨rest, -, fits, rfl, rfl⟩ := fields_eq_ok_iff.1 h
    refine ⟨contents.flatMap Field.encode, by simp, by simp, by simp, ?_, ?_⟩
    · intro content hmem buffer
      rw [Field.write_of_le_maxSize buffer (fits content hmem)]
    · intro buffer
      rw [Field.writeAll_eq, List.filter_eq_self.2]
      simpa using fits

/-- Two fields and, between them, one that is too long, behind a byte that was there before. -/
theorem fields_invert_writes_around_long_field :
    let long : Bytes := List.replicate 65536 0
    let reader : Reader := ⟨[170, 0, 2, 1, 2, 0, 0, 9], 1, by decide⟩
    Field.write [170] long = (.error (.fieldTooLong .framed 65536 65535), [170]) ∧
      Field.writeAll [170] [[1, 2], long, []] = [170, 0, 2, 1, 2, 0, 0] ∧
      ∃ after, fields [2, 5] reader = (.ok [[1, 2], []], after) ∧ after.position = 7 ∧
        Field.writeAll [] [[1, 2], []] = [0, 2, 1, 2, 0, 0] := by
  intro long reader
  have size : long.length = 65536 := List.length_replicate
  obtain ⟨writes, reads, rewrites⟩ := fields_invert_writes
  have refused := (writes [170] long).2 (by rw [size]; decide)
  rw [size] at refused
  have accepted : ([[1, 2], long, []] : List Bytes).filter (·.length ≤ 65535) = [[1, 2], []] := by
    simp [size]
  obtain ⟨written, read⟩ := reads [170] [[1, 2], long, []]
  rw [accepted] at written read
  obtain ⟨after, hread, hdata, hposition⟩ :=
    read [2, 5] reader [9] (.cons (by decide) (.cons (by decide) .nil)) rfl
  obtain ⟨consumed, hconsumed, -, -, -, hwrite⟩ := rewrites _ _ _ _ hread
  rw [hdata, hposition] at hconsumed
  obtain rfl : [0, 2, 1, 2, 0, 0] = consumed := List.append_cancel_right hconsumed
  exact ⟨refused, written, after, hread, hposition, hwrite []⟩

end Read

end SealedMail
