import Mathlib
import SealedMail.Bytes.Base58

/-!
# Base-58 text is canonical

Both directions of the code change the base of a digit string and keep its leading zeros one for
one (`rebase`). Changing the base and back is the identity on digit strings (`rebase_rebase`), and
the characters are in bijection with the digits below 58. So every byte string is read back from its
text (`decode_encode`), and an accepted text is the text of what it is read as (`encode_of_decode`).
-/

namespace SealedMail.Base58

/-! ## Digits of a number -/

theorem digitsOnto_eq {base : ℕ} (h : 2 ≤ base) (number : ℕ) (tail : List ℕ) :
    digitsOnto base number tail = (Nat.digits base number).reverse ++ tail := by
  -- The tail collects the digits, so it grows along the induction.
  induction number using Nat.strongRecOn generalizing tail with
  | ind number ih =>
      rw [digitsOnto]
      by_cases hn : number = 0
      · simp [hn]
      · have hstop : ¬ (base < 2 ∨ number = 0) := by omega
        have hlt : number / base < number := Nat.div_lt_self (Nat.pos_of_ne_zero hn) h
        rw [if_neg hstop, ih _ hlt, Nat.digits_eq_cons_digits_div h hn]
        simp

theorem digits_eq {base : ℕ} (h : 2 ≤ base) (number : ℕ) :
    digits base number = (Nat.digits base number).reverse := by
  rw [digits, digitsOnto_eq h, List.append_nil]

theorem ofDigits_eq (base : ℕ) (ds : List ℕ) : ofDigits base ds = Nat.ofDigits base ds.reverse := by
  induction ds using List.reverseRecOn with
  | nil => rfl
  | append_singleton ds d ih =>
      rw [ofDigits, List.foldl_append, List.reverse_append, List.reverse_singleton,
        List.singleton_append, Nat.ofDigits_cons, ← ih]
      simp [ofDigits]
      ring

theorem ofDigits_digits {base : ℕ} (h : 2 ≤ base) (number : ℕ) :
    ofDigits base (digits base number) = number := by
  rw [digits_eq h, ofDigits_eq, List.reverse_reverse, Nat.ofDigits_digits]

theorem lt_of_mem_digits {base number d : ℕ} (h : 2 ≤ base) (hd : d ∈ digits base number) :
    d < base := by
  rw [digits_eq h, List.mem_reverse] at hd
  exact Nat.digits_lt_base h hd

/-! ## Leading zeros -/

theorem takeWhile_zero_eq_replicate (ds : List ℕ) :
    ds.takeWhile (· == 0) = List.replicate (ds.takeWhile (· == 0)).length 0 := by
  rw [List.eq_replicate_iff]
  refine ⟨rfl, ?_⟩
  intro d hd
  simpa using List.mem_takeWhile_imp hd

theorem head?_digits_ne_zero {base : ℕ} (h : 2 ≤ base) (number : ℕ) :
    (digits base number).head? ≠ some 0 := by
  rw [digits_eq h, List.head?_reverse]
  rcases eq_or_ne number 0 with rfl | hn
  · simp
  · have hne : Nat.digits base number ≠ [] := Nat.digits_ne_nil_iff_ne_zero.2 hn
    rw [List.getLast?_eq_some_getLast hne]
    intro e
    exact Nat.getLast_digit_ne_zero base hn (Option.some.inj e)

theorem takeWhile_replicate_append {zeros : ℕ} {ds : List ℕ} (h : ds.head? ≠ some 0) :
    (List.replicate zeros 0 ++ ds).takeWhile (· == 0) = List.replicate zeros 0 := by
  induction zeros with
  | zero =>
      cases ds with
      | nil => rfl
      | cons d ds =>
          have hd : d ≠ 0 := by
            rintro rfl
            exact h rfl
          simp [hd]
  | succ zeros ih => simp [List.replicate_succ, ih]

theorem ofDigits_replicate_append (base zeros : ℕ) (ds : List ℕ) :
    ofDigits base (List.replicate zeros 0 ++ ds) = ofDigits base ds := by
  rw [ofDigits_eq, ofDigits_eq, List.reverse_append, List.reverse_replicate,
    Nat.ofDigits_append_replicate_zero]

/-- The digits of a value are those it was read from, without the leading zeros. -/
theorem digits_ofDigits {base : ℕ} (h : 2 ≤ base) {ds : List ℕ} (hds : ∀ d ∈ ds, d < base) :
    digits base (ofDigits base ds) = ds.dropWhile (· == 0) := by
  -- Only the leading zeros are lost, and they count nothing.
  have split : ds = List.replicate (ds.takeWhile (· == 0)).length 0 ++ ds.dropWhile (· == 0) := by
    rw [← takeWhile_zero_eq_replicate, List.takeWhile_append_dropWhile]
  have value : ofDigits base ds = ofDigits base (ds.dropWhile (· == 0)) := by
    conv_lhs => rw [split, ofDigits_replicate_append]
  rw [value, digits_eq h, ofDigits_eq, Nat.digits_ofDigits base h, List.reverse_reverse]
  · intro d hd
    exact hds d ((List.dropWhile_sublist _).subset (List.mem_reverse.1 hd))
  · intro hne
    rw [List.getLast_reverse]
    have := List.head_dropWhile_not (· == 0) (l := ds) (by simpa using hne)
    simpa only [beq_eq_false_iff_ne] using this

/-! ## Change of base -/

/-- A digit string in another base: the same leading zeros, then the digits of the same value. -/
def rebase (source target : ℕ) (ds : List ℕ) : List ℕ :=
  ds.takeWhile (· == 0) ++ digits target (ofDigits source ds)

theorem rebase_rebase {source target : ℕ} (hs : 2 ≤ source) (ht : 2 ≤ target) {ds : List ℕ}
    (hds : ∀ d ∈ ds, d < source) : rebase target source (rebase source target ds) = ds := by
  have zeros : (rebase source target ds).takeWhile (· == 0) = ds.takeWhile (· == 0) := by
    rw [rebase, takeWhile_zero_eq_replicate ds,
      takeWhile_replicate_append (head?_digits_ne_zero ht _)]
  have value : ofDigits target (rebase source target ds) = ofDigits source ds := by
    rw [rebase, takeWhile_zero_eq_replicate ds, ofDigits_replicate_append, ofDigits_digits ht]
  rw [rebase, zeros, value, digits_ofDigits hs hds, List.takeWhile_append_dropWhile]

theorem lt_of_mem_rebase {source target d : ℕ} (ht : 2 ≤ target) {ds : List ℕ}
    (hd : d ∈ rebase source target ds) : d < target := by
  rcases List.mem_append.1 hd with hd | hd
  · have : d = 0 := by simpa using List.mem_takeWhile_imp hd
    omega
  · exact lt_of_mem_digits ht hd

/-! ## Characters -/

theorem digit?_digit : ∀ value < 58, digit? (digit value) = some value := by decide +kernel

theorem digit_of_digit? {c : Char} {value : ℕ} (h : digit? c = some value) :
    digit value = c ∧ value < 58 := by
  obtain ⟨hlt, hc, -⟩ := List.findIdx?_eq_some_iff_getElem.1 h
  have length : alphabet.length = 58 := by decide +kernel
  refine ⟨?_, length ▸ hlt⟩
  rw [digit, List.getD_eq_getElem _ _ hlt]
  exact beq_iff_eq.1 hc

theorem digitValues_map_digit (position : ℕ) {values : List ℕ} (h : ∀ v ∈ values, v < 58) :
    digitValues position (values.map digit) = .ok values := by
  induction values generalizing position with
  | nil => rfl
  | cons value values ih =>
      have hv := digit?_digit value (h value List.mem_cons_self)
      have others : ∀ v ∈ values, v < 58 := by
        intro v hmem
        exact h v (List.mem_cons_of_mem _ hmem)
      have hvs := ih (position + 1) others
      simp only [List.map_cons, digitValues, hv, hvs]
      rfl

theorem map_digit_of_digitValues {position : ℕ} {chars : List Char} {values : List ℕ}
    (h : digitValues position chars = .ok values) :
    values.map digit = chars ∧ ∀ v ∈ values, v < 58 := by
  induction chars generalizing position values with
  | nil =>
      cases h
      exact ⟨rfl, by simp⟩
  | cons c chars ih =>
      rw [digitValues] at h
      cases hc : digit? c with
      | none =>
          rw [hc] at h
          cases h
      | some value =>
          rw [hc] at h
          cases hrest : digitValues (position + 1) chars with
          | error e =>
              simp only [hrest] at h
              cases h
          | ok others =>
              simp only [hrest] at h
              cases h
              obtain ⟨hmap, hlt⟩ := ih hrest
              obtain ⟨hdigit, hvalue⟩ := digit_of_digit? hc
              refine ⟨by rw [List.map_cons, hdigit, hmap], ?_⟩
              simpa using ⟨hvalue, hlt⟩

theorem digit?_eq_none_iff {c : Char} : digit? c = none ↔ c ∉ alphabet := by
  rw [digit?, List.findIdx?_eq_none_iff]
  constructor
  · intro h hc
    simpa using h c hc
  · intro h other hother
    have hne : other ≠ c := ne_of_mem_of_not_mem hother h
    simpa using hne

/-- Exactly the characters of the alphabet have digit values. -/
theorem exists_digitValues_iff (position : ℕ) (chars : List Char) :
    (∃ values, digitValues position chars = .ok values) ↔ ∀ c ∈ chars, c ∈ alphabet := by
  induction chars generalizing position with
  | nil => simp [digitValues]
  | cons c chars ih =>
      rw [List.forall_mem_cons, ← ih (position + 1), digitValues]
      cases hc : digit? c with
      | none => simp [digit?_eq_none_iff.1 hc]
      | some value =>
          have known : c ∈ alphabet := by
            by_contra h
            cases hc.symm.trans (digit?_eq_none_iff.2 h)
          simp only [known, true_and]
          cases digitValues (position + 1) chars with
          | error e => simp [bind, Except.bind]
          | ok values => exact iff_of_true ⟨_, rfl⟩ ⟨_, rfl⟩

/-! ## The code -/

/-- The digits of a byte string in base 256. -/
def byteDigits (bytes : Bytes) : List ℕ := bytes.map UInt8.toNat

theorem byteDigits_lt {bytes : Bytes} : ∀ d ∈ byteDigits bytes, d < 256 := by
  intro d hd
  obtain ⟨byte, -, rfl⟩ := List.mem_map.1 hd
  exact byte.toNat_lt

theorem map_ofNat_byteDigits (bytes : Bytes) : (byteDigits bytes).map UInt8.ofNat = bytes := by
  simp [byteDigits, Function.comp_def]

theorem byteDigits_map_ofNat {ds : List ℕ} (h : ∀ d ∈ ds, d < 256) :
    byteDigits (ds.map UInt8.ofNat) = ds := by
  rw [byteDigits, List.map_map]
  conv_rhs => rw [← List.map_id ds]
  apply List.map_congr_left
  intro d hd
  simpa using Nat.mod_eq_of_lt (h d hd)

theorem ofDigits_byteDigits (bytes : Bytes) :
    ofDigits 256 (byteDigits bytes) = Bytes.value bytes := by
  rw [ofDigits, byteDigits, List.foldl_map]
  rfl

theorem takeWhile_byteDigits (bytes : Bytes) :
    (byteDigits bytes).takeWhile (· == 0) = byteDigits (bytes.takeWhile (· == 0)) := by
  rw [byteDigits, byteDigits, List.takeWhile_map]
  congr 2
  funext byte
  simp [← UInt8.toNat_inj]

theorem encode_eq (bytes : Bytes) :
    encode bytes = String.ofList ((rebase 256 58 (byteDigits bytes)).map digit) := by
  have one : digit 0 = '1' := by decide +kernel
  rw [encode, rebase, takeWhile_byteDigits, ofDigits_byteDigits, List.map_append]
  congr 2
  rw [byteDigits, List.map_map]
  apply List.map_congr_left
  intro byte hbyte
  have zero : byte = 0 := by simpa using List.mem_takeWhile_imp hbyte
  rw [zero]
  exact one.symm

theorem ofDigitValues_eq (values : List ℕ) :
    ofDigitValues values = (rebase 58 256 values).map UInt8.ofNat := by
  rw [ofDigitValues, rebase, List.map_append]
  congr 1
  apply List.map_congr_left
  intro d hd
  have zero : d = 0 := by simpa using List.mem_takeWhile_imp hd
  rw [zero]
  rfl

/-- A text has a `1` for each leading zero byte, and then the digits of the value without a leading
zero. -/
theorem exists_encode_eq (bytes : Bytes) :
    ∃ ds, encode bytes =
        String.ofList (List.replicate (bytes.takeWhile (· == 0)).length '1' ++ ds.map digit) ∧
      (∀ d ∈ ds, d < 58) ∧ ds.head? ≠ some 0 ∧ ofDigits 58 ds = Bytes.value bytes := by
  refine ⟨digits 58 (Bytes.value bytes), ?_, fun d => lt_of_mem_digits (by decide),
    head?_digits_ne_zero (by decide) _, ofDigits_digits (by decide) _⟩
  rw [encode, List.map_const']

/-- Every byte string is read back from its text. -/
theorem decode_encode (bytes : Bytes) : decode (encode bytes) = .ok bytes := by
  have small : ∀ v ∈ rebase 256 58 (byteDigits bytes), v < 58 := by
    intro v hv
    exact lt_of_mem_rebase (by decide) hv
  rw [decode, encode_eq, String.toList_ofList, digitValues_map_digit 0 small]
  change Except.ok (ofDigitValues _) = _
  rw [ofDigitValues_eq, rebase_rebase (by decide) (by decide) byteDigits_lt, map_ofNat_byteDigits]

/-- An accepted text is the text of the bytes it is read as. -/
theorem encode_of_decode {text : String} {bytes : Bytes} (h : decode text = .ok bytes) :
    encode bytes = text := by
  cases hvalues : digitValues 0 text.toList with
  | error e =>
      rw [decode, hvalues] at h
      cases h
  | ok values =>
      rw [decode, hvalues] at h
      cases h
      obtain ⟨hmap, hlt⟩ := map_digit_of_digitValues hvalues
      have bytes_lt : ∀ d ∈ rebase 58 256 values, d < 256 := by
        intro d hd
        exact lt_of_mem_rebase (by decide) hd
      rw [ofDigitValues_eq, encode_eq, byteDigits_map_ofNat bytes_lt,
        rebase_rebase (by decide) (by decide) hlt, hmap, String.ofList_toList]

/-- Exactly the texts over the alphabet are read. -/
theorem exists_decode_iff (text : String) :
    (∃ bytes, decode text = .ok bytes) ↔ ∀ c ∈ text.toList, c ∈ alphabet := by
  rw [← exists_digitValues_iff 0, decode]
  cases digitValues 0 text.toList with
  | error e => simp [Except.map]
  | ok values => exact iff_of_true ⟨_, rfl⟩ ⟨_, rfl⟩

theorem decode_eq_ok_iff {text : String} {bytes : Bytes} :
    decode text = .ok bytes ↔ text = encode bytes := by
  constructor
  · intro h
    exact (encode_of_decode h).symm
  · rintro rfl
    exact decode_encode bytes

end SealedMail.Base58
