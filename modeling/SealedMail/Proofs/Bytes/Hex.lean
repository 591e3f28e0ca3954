import Mathlib
import SealedMail.Bytes.Hex
import SealedMail.Bytes.Utf8

/-!
# Hexadecimal digits, pairs and texts

A byte is read as a digit exactly if it is one of 22 characters (`digit?_eq_none_iff`), and the
digit that is written for its value is that character in lower case (`digit_of_digit?`). Reading
pairs of digits either succeeds on digits alone, and writing the outcome gives the digits back in
lower case, or stops at the first byte that is no digit (`decodeFrom_cases`); what was written is
read back (`decodeFrom_encode`). A text whose bytes are all digits has one byte for each of its
characters (`forall_isDigitByte_iff`).
-/

namespace SealedMail.Hex

/-- A hexadecimal digit, in either case. -/
def IsDigit (c : Char) : Prop :=
  '0' ≤ c ∧ c ≤ '9' ∨ 'a' ≤ c ∧ c ≤ 'f' ∨ 'A' ≤ c ∧ c ≤ 'F'

instance : DecidablePred IsDigit := fun _ => inferInstanceAs (Decidable (_ ∨ _))

/-- The character whose code is a byte. -/
def latin (byte : UInt8) : Char := Char.ofNat byte.toNat

/-- The byte that is the code of a character, if it is that small. -/
def code (c : Char) : UInt8 := UInt8.ofNat c.toNat

/-- A byte that is the code of a digit. -/
def IsDigitByte (byte : UInt8) : Prop := IsDigit (latin byte)

instance : DecidablePred IsDigitByte := fun byte =>
  inferInstanceAs (Decidable (IsDigit (latin byte)))

/-! ## Digits -/

theorem digits_of_lt : ∀ byte < 256,
    (digit? (UInt8.ofNat byte) = none ↔ ¬ IsDigitByte (UInt8.ofNat byte)) ∧
    ∀ half ∈ digit? (UInt8.ofNat byte), half < 16 ∧
      digit half = (latin (UInt8.ofNat byte)).toLower := by
  decide +kernel

theorem digit?_eq_none_iff {byte : UInt8} : digit? byte = none ↔ ¬ IsDigitByte byte := by
  have h := (digits_of_lt byte.toNat byte.toNat_lt).1
  rwa [UInt8.ofNat_toNat] at h

theorem isDigitByte_of_digit? {byte : UInt8} {half : ℕ} (h : digit? byte = some half) :
    IsDigitByte byte := by
  by_contra bad
  rw [digit?_eq_none_iff.2 bad] at h
  cases h

/-- The digit that is written for a value is the one that was read, in lower case. -/
theorem digit_of_digit? {byte : UInt8} {half : ℕ} (h : digit? byte = some half) :
    half < 16 ∧ digit half = (latin byte).toLower := by
  have h' := (digits_of_lt byte.toNat byte.toNat_lt).2
  rw [UInt8.ofNat_toNat] at h'
  exact h' half h

theorem digit?_code_digit : ∀ half < 16, digit? (code (digit half)) = some half := by decide

theorem isDigit_digit : ∀ half < 16, IsDigit (digit half) := by decide

/-- Digits are ASCII characters. -/
theorem IsDigit.lt {c : Char} (h : IsDigit c) : c.toNat < 128 := by
  have nine : c ≤ '9' → c.toNat < 128 := fun le => lt_of_le_of_lt le (by decide)
  have f : c ≤ 'f' → c.toNat < 128 := fun le => lt_of_le_of_lt le (by decide)
  rcases h with h | h | h
  · exact nine h.2
  · exact f h.2
  · exact f (h.2.trans (by decide))

/-! ## Pairs of digits -/

section Pair

variable {high low : UInt8} {h l : ℕ} (position : ℕ) (rest : Bytes)

/-- The first byte of a pair is looked at first. -/
theorem decodeFrom_of_not_first (hhigh : digit? high = none) :
    decodeFrom position (high :: low :: rest) = .error ⟨high, position⟩ := by
  rw [decodeFrom, digitAt, hhigh]
  rfl

theorem decodeFrom_of_not_second (hhigh : digit? high = some h) (hlow : digit? low = none) :
    decodeFrom position (high :: low :: rest) = .error ⟨low, position + 1⟩ := by
  rw [decodeFrom, digitAt, hhigh, digitAt, hlow]
  rfl

theorem decodeFrom_of_digits (hhigh : digit? high = some h) (hlow : digit? low = some l) :
    decodeFrom position (high :: low :: rest) =
      (decodeFrom (position + 2) rest).map (UInt8.ofNat (16 * h + l) :: ·) := by
  rw [decodeFrom, digitAt, hhigh, digitAt, hlow]
  cases decodeFrom (position + 2) rest <;> rfl

end Pair

/-- The halves of a byte are written as the digits that were read for them. -/
theorem ofByte_of_digits {high low : ℕ} (hhigh : high < 16) (hlow : low < 16) :
    ofByte (UInt8.ofNat (16 * high + low)) = [digit high, digit low] := by
  have value : (UInt8.ofNat (16 * high + low)).toNat = 16 * high + low := by
    rw [UInt8.toNat_ofNat']
    omega
  have quotient : (16 * high + low) / 16 = high := by omega
  have remainder : (16 * high + low) % 16 = low := by omega
  rw [ofByte, value, quotient, remainder]

/-- Pairs of digits are read exactly if they are digits, and written again in lower case. Otherwise
reading stops at the first byte that is no digit. -/
theorem decodeFrom_cases (position : ℕ) (text : Bytes) (even : text.length % 2 = 0) :
    (∃ bytes, decodeFrom position text = .ok bytes ∧ (∀ byte ∈ text, IsDigitByte byte) ∧
      bytes.flatMap ofByte = text.map fun byte => (latin byte).toLower) ∨
    ∃ front byte back, text = front ++ byte :: back ∧ (∀ before ∈ front, IsDigitByte before) ∧
      ¬ IsDigitByte byte ∧ decodeFrom position text = .error ⟨byte, position + front.length⟩ := by
  induction position, text using decodeFrom.induct with
  | case1 position high low rest ih =>
      -- One of the pair is no digit, or the outcome is that of the rest.
      cases hhigh : digit? high with
      | none =>
          exact Or.inr ⟨[], high, low :: rest, rfl, by simp, digit?_eq_none_iff.1 hhigh,
            decodeFrom_of_not_first position rest hhigh⟩
      | some h =>
          have digit_high := isDigitByte_of_digit? hhigh
          cases hlow : digit? low with
          | none =>
              exact Or.inr ⟨[high], low, rest, rfl, by simpa using digit_high,
                digit?_eq_none_iff.1 hlow, decodeFrom_of_not_second position rest hhigh hlow⟩
          | some l =>
              have digit_low := isDigitByte_of_digit? hlow
              have even' : rest.length % 2 = 0 := by
                rw [List.length_cons, List.length_cons] at even
                omega
              rw [decodeFrom_of_digits position rest hhigh hlow]
              rcases ih even' with ⟨bytes, read, digits, written⟩ |
                ⟨front, byte, back, rfl, digits, bad, failed⟩
              · obtain ⟨high_lt, high_eq⟩ := digit_of_digit? hhigh
                obtain ⟨low_lt, low_eq⟩ := digit_of_digit? hlow
                refine Or.inl ⟨UInt8.ofNat (16 * h + l) :: bytes, ?_, ?_, ?_⟩
                · rw [read]
                  rfl
                · simpa using ⟨digit_high, digit_low, digits⟩
                · rw [List.flatMap_cons, ofByte_of_digits high_lt low_lt, written, high_eq, low_eq]
                  rfl
              · have place : position + 2 + front.length = position + (front.length + 1 + 1) := by
                  omega
                refine Or.inr ⟨high :: low :: front, byte, back, rfl, ?_, bad, ?_⟩
                · simpa using ⟨digit_high, digit_low, digits⟩
                · rw [failed, place]
                  rfl
  | case2 text position unpaired =>
      match text, unpaired with
      | [], _ => exact Or.inl ⟨[], rfl, by simp, rfl⟩
      | [_], _ => cases even
      | high :: low :: rest, unpaired => exact (unpaired high low rest rfl).elim

/-- What was written is read back. -/
theorem decodeFrom_encode (position : ℕ) (bytes : Bytes) :
    decodeFrom position ((bytes.flatMap ofByte).map code) = .ok bytes := by
  induction bytes generalizing position with
  | nil => rfl
  | cons byte rest ih =>
      have hbyte : byte.toNat < 256 := byte.toNat_lt
      have high : digit? (code (digit (byte.toNat / 16))) = some (byte.toNat / 16) :=
        digit?_code_digit _ (by omega)
      have low : digit? (code (digit (byte.toNat % 16))) = some (byte.toNat % 16) :=
        digit?_code_digit _ (by omega)
      have halves : UInt8.ofNat (16 * (byte.toNat / 16) + byte.toNat % 16) = byte := by
        rw [Nat.div_add_mod, UInt8.ofNat_toNat]
      rw [List.flatMap_cons, ofByte, List.cons_append, List.cons_append, List.nil_append,
        List.map_cons, List.map_cons, decodeFrom_of_digits position _ high low, ih, halves]
      rfl

/-! ## Texts -/

theorem latin_code {c : Char} (h : c.toNat < 128) : latin (code c) = c := by
  have small : (code c).toNat = c.toNat := by
    rw [code, UInt8.toNat_ofNat']
    omega
  rw [latin, small, Char.ofNat_toNat]

theorem utf8EncodeChar_of_lt {c : Char} (h : c.toNat < 128) :
    String.utf8EncodeChar c = [code c] := by
  have size : c.utf8Size = 1 := Char.utf8Size_eq_one_iff.2 (UInt32.le_iff_toNat_le.2 (by
    change c.toNat ≤ 127
    omega))
  rw [String.utf8EncodeChar_eq_singleton size, code]
  rfl

/-- ASCII characters take one byte each. -/
theorem ofText_ofList {chars : List Char} (h : ∀ c ∈ chars, c.toNat < 128) :
    Bytes.ofText (String.ofList chars) = chars.map code := by
  have encoded : Bytes.ofText (String.ofList chars) = chars.flatMap String.utf8EncodeChar := by
    rw [Bytes.ofText, String.toUTF8, String.toByteArray_ofList, List.utf8Encode,
      List.toList_data_toByteArray]
  rw [encoded, List.map_eq_flatMap]
  exact List.flatMap_congr fun c hc => utf8EncodeChar_of_lt (h c hc)

theorem code_latin (byte : UInt8) : code (latin byte) = byte := by
  have valid : byte.toNat.isValidChar := Or.inl (byte.toNat_lt.trans (by decide))
  rw [code, latin, Char.toNat_ofNat, if_pos valid, UInt8.ofNat_toNat]

/-- A text whose bytes are digits is made of the characters that these bytes are the codes of. -/
theorem toList_of_isDigitByte {text : String} (h : ∀ byte ∈ Bytes.ofText text, IsDigitByte byte) :
    text.toList = (Bytes.ofText text).map latin := by
  have same : text = String.ofList ((Bytes.ofText text).map latin) := by
    apply Bytes.ofText_injective
    rw [ofText_ofList, List.map_map]
    · exact (List.map_id'' code_latin _).symm
    · intro c hc
      obtain ⟨byte, hbyte, rfl⟩ := List.mem_map.1 hc
      exact (h byte hbyte).lt
  rw [same, String.toList_ofList, ← same]

/-- The bytes of a text are digits exactly if its characters are. -/
theorem forall_isDigitByte_iff {text : String} :
    (∀ byte ∈ Bytes.ofText text, IsDigitByte byte) ↔ ∀ c ∈ text.toList, IsDigit c := by
  constructor
  · intro h c hc
    rw [toList_of_isDigitByte h] at hc
    obtain ⟨byte, hbyte, rfl⟩ := List.mem_map.1 hc
    exact h byte hbyte
  · intro h byte hbyte
    have ascii : ∀ c ∈ text.toList, c.toNat < 128 := fun c hc => (h c hc).lt
    rw [← String.ofList_toList (s := text), ofText_ofList ascii] at hbyte
    obtain ⟨c, hc, rfl⟩ := List.mem_map.1 hbyte
    rw [IsDigitByte, latin_code (ascii c hc)]
    exact h c hc

/-! ## Written digits as a text -/

theorem isDigit_of_mem_ofByte {byte : UInt8} {c : Char} (h : c ∈ ofByte byte) : IsDigit c := by
  have hbyte : byte.toNat < 256 := byte.toNat_lt
  rw [ofByte, List.mem_pair] at h
  rcases h with rfl | rfl
  · exact isDigit_digit _ (by omega)
  · exact isDigit_digit _ (by omega)

theorem ofText_encode (bytes : Bytes) :
    Bytes.ofText (encode bytes) = (bytes.flatMap ofByte).map code := by
  apply ofText_ofList
  intro c hc
  obtain ⟨byte, -, hc⟩ := List.mem_flatMap.1 hc
  exact (isDigit_of_mem_ofByte hc).lt

/-- Two digits are written for each byte. -/
theorem length_ofText_encode (bytes : Bytes) :
    (Bytes.ofText (encode bytes)).length = 2 * bytes.length := by
  rw [ofText_encode, List.length_map]
  induction bytes with
  | nil => rfl
  | cons byte rest ih =>
      rw [List.flatMap_cons, List.length_append, ih, List.length_cons, ofByte, List.length_cons,
        List.length_singleton]
      omega

theorem decode_encode (bytes : Bytes) : decode (Bytes.ofText (encode bytes)) = .ok bytes := by
  rw [ofText_encode, decode, decodeFrom_encode]

end SealedMail.Hex
