import SealedMail.Proofs.Message.Layout
import SealedMail.Proofs.Sequencing

/-!
# Envelopes cut short and continued

A reading step needs the bytes it reads: on everything that is cut off from them it fails for want
of bytes (`Read.Needs`). A number, a field and a sequence of steps need what is written for them, so
an envelope needs its header and its nonce, although the limit of the nonce depends on what is left
of the input. What follows the nonce is the ciphertext, however long. Main statement:
`Envelope.parse_take_and_append`.
-/

namespace SealedMail

/-- The failure is about bytes that are not there: the input ends, or it declares a length greater
than what is left for it. -/
inductive MessageError.IsShortage : MessageError → Prop where
  | truncated (needed remaining : ℕ) : IsShortage (.truncated needed remaining)
  | lengthAboveLimit (length limit : ℕ) : IsShortage (.lengthAboveLimit length limit)

namespace Read

open Reader (between)

variable {α β : Type}

/-- The step fails for want of bytes when its input ends within the written bytes. -/
def Needs (step : Read α) (written : Bytes) : Prop :=
  ∀ front count, count < written.length →
    ∃ e after, step (between front (written.take count)) = (.error e, after) ∧ e.IsShortage

theorem needs_fail {e : MessageError} (h : e.IsShortage) (written : Bytes) :
    Needs (fail e : Read α) written :=
  fun _ _ _ => ⟨e, _, fail_apply e _, h⟩

theorem needs_exact {size : ℕ} {written : Bytes} (h : written.length = size) :
    Needs (exact size) written := by
  intro front count hlt
  have short : (written.take count).length < size := by
    rw [List.length_take]
    omega
  exact ⟨_, _, exact_eq_error_iff.2 ⟨short, rfl, rfl⟩, .truncated _ _⟩

section Sequences

variable {step : Read α} {next : α → Read β} {written more : Bytes}

theorem Needs.bind_left (h : Needs step written) : Needs (step >>= next) written := by
  intro front count hlt
  obtain ⟨e, after, hfail, hshort⟩ := h front count hlt
  exact ⟨e, after, bind_eq_error_iff.2 (Or.inl hfail), hshort⟩

/-- The input ends in what the first step reads, or the first step succeeds. -/
theorem Needs.bind {value : α} (h : Needs step written)
    (hread : ∀ front rest,
      step (between front (written ++ rest)) = (.ok value, between (front ++ written) rest))
    (hnext : Needs (next value) more) : Needs (step >>= next) (written ++ more) := by
  intro front count hlt
  rw [List.length_append] at hlt
  rw [List.take_append]
  by_cases inside : count < written.length
  · have none_left : count - written.length = 0 := by omega
    rw [none_left, List.take_zero, List.append_nil]
    exact h.bind_left front count inside
  · rw [List.take_of_length_le (Nat.le_of_not_lt inside)]
    obtain ⟨e, after, hfail, hshort⟩ :=
      hnext (front ++ written) (count - written.length) (by omega)
    exact ⟨e, after, bind_eq_error_iff.2 (Or.inr ⟨value, _, hread _ _, hfail⟩), hshort⟩

theorem needs_reader_bind {next : Reader → Read β} (h : ∀ before, Needs (next before) written) :
    Needs (reader >>= next) written := by
  intro front count hlt
  rw [bind_of_ok (reader_apply _)]
  exact h _ front count hlt

theorem Needs.run (h : Needs step written) {count : ℕ} (hlt : count < written.length) :
    ∃ e, step.run (written.take count) = .error e ∧ e.IsShortage := by
  obtain ⟨e, after, hfail, hshort⟩ := h [] count hlt
  exact ⟨e, run_eq_error_iff.2 ⟨after, hfail⟩, hshort⟩

end Sequences

theorem needs_number {width : ℕ} {written : Bytes} (h : written.length = width) :
    Needs (number width) written :=
  (needs_exact h).bind_left

/-- A field needs its length and its bytes, whatever its limit. -/
theorem needs_field (limit : ℕ) {content : Bytes} (hmax : content.length ≤ Field.maxSize) :
    Needs (field limit) (Field.encode content) := by
  refine (needs_number (Bytes.length_bigEndian _ _)).bind
    (number_append (Nat.lt_succ_of_le hmax)) ?_
  split
  · exact needs_fail (.lengthAboveLimit _ _) _
  · exact needs_exact rfl

end Read

namespace Envelope

/-- An envelope needs its header and its nonce. -/
theorem needs_header_nonce {header : Header} {nonce : Bytes}
    (hsize : header.path.utf8ByteSize ≤ maxPathSize) (hnonce : header.nonceSize = nonce.length)
    (hmax : nonce.length ≤ Field.maxSize) : Read.Needs reading (header.bytes ++ nonce) := by
  have size : (Bytes.ofText header.path).length ≤ maxPathSize := hsize
  have size' : (Bytes.ofText header.path).length ≤ Field.maxSize := size.trans (by decide)
  rw [bytes_append_nonce hnonce]
  unfold reading
  refine (Read.needs_number (Bytes.length_bigEndian _ _)).bind
    (Read.number_append (by decide)) ?_
  rw [if_neg (not_not.2 rfl)]
  refine (Read.needs_exact header.ephemeral.length_eq).bind
    (Read.exact_append header.ephemeral.length_eq) ?_
  refine (Read.needs_field _ size').bind (Read.field_append size size') ?_
  simp only [Bytes.toText?_ofText]
  exact Read.needs_reader_bind fun before => (Read.needs_field _ hmax).bind_left

/-- An envelope that is cut behind its nonce keeps its parts, with the ciphertext cut accordingly;
cut anywhere before, it is refused for want of bytes; and bytes behind an envelope belong to its
ciphertext. -/
theorem parse_take_and_append {bytes : Bytes} {envelope : Envelope}
    (h : parse bytes = .ok envelope) :
    let front := envelope.header.length + envelope.nonce.length
    (∀ count, front ≤ count → parse (bytes.take count) =
      .ok { envelope with ciphertext := envelope.ciphertext.take (count - front) }) ∧
    (∀ count, count < front → ∃ e, parse (bytes.take count) = .error e ∧ e.IsShortage) ∧
    (∀ more, parse (bytes ++ more) =
      .ok { envelope with ciphertext := envelope.ciphertext ++ more }) := by
  obtain ⟨header, nonce, ciphertext, hsize, hnonce, hmin, hmax, rfl, rfl⟩ := parse_eq_ok_iff.1 h
  intro front
  have size : (header.bytes ++ nonce).length = front := List.length_append
  -- Any ciphertext may stand behind the nonce.
  have read (ciphertext : Bytes) : parse (header.bytes ++ nonce ++ ciphertext) =
      .ok (ofHeader header nonce ciphertext) :=
    parse_eq_ok_iff.2 ⟨header, nonce, ciphertext, hsize, hnonce, hmin, hmax, rfl, rfl⟩
  refine ⟨?_, ?_, ?_⟩
  · intro count hle
    rw [List.take_append, size, List.take_of_length_le (size ▸ hle), read]
    rfl
  · intro count hlt
    rw [List.take_append_of_le_length (size ▸ hlt.le)]
    exact (needs_header_nonce hsize hnonce hmax).run (size ▸ hlt)
  · intro more
    rw [List.append_assoc, read]
    rfl

/-- An envelope of 58 bytes with two bytes of ciphertext. Its nonce is the last thing that is
missed: one byte less and the declared length is above the limit. -/
theorem parse_take_and_append_of_labelled_path :
    let header : Header := ⟨⟨List.replicate 33 2, rfl⟩, "m/a:7h", 12⟩
    let bytes := header.bytes ++ List.replicate 12 9 ++ [1, 2]
    let envelope (ciphertext : Bytes) : Envelope :=
      ⟨List.replicate 33 2, "m/a:7h", List.replicate 12 9, ciphertext, header.bytes⟩
    parse bytes = .ok (envelope [1, 2]) ∧
      parse (bytes.take 57) = .ok (envelope [1]) ∧
      parse (bytes.take 56) = .ok (envelope []) ∧
      parse (bytes.take 55) = .error (.lengthAboveLimit 12 11) ∧
      (∃ e, parse (bytes.take 43) = .error e ∧ e.IsShortage) ∧
      parse (bytes ++ [3]) = .ok (envelope [1, 2, 3]) := by
  intro header bytes envelope
  have found : parse bytes = .ok (envelope [1, 2]) := by decide +kernel
  have front : (envelope [1, 2]).header.length + (envelope [1, 2]).nonce.length = 56 := by
    decide +kernel
  obtain ⟨cut, short, continued⟩ := parse_take_and_append found
  rw [front] at cut short
  exact ⟨found, cut 57 (by decide), cut 56 (by decide), by decide +kernel, short 43 (by decide),
    continued [3]⟩

end Envelope

end SealedMail
