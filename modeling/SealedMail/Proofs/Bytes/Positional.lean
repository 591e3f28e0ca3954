import Mathlib
import SealedMail.Bytes.Basic

/-!
# Byte strings and the numbers they spell

The value of a byte string is below `256` to its length (`value_lt`), and the encoding in a fixed
width is inverse to it: a number that fits is read back (`value_bigEndian_of_lt`), and a byte string
is the encoding of its value (`bigEndian_value`). Hence a byte string gets back from its shortest
spelling when it is filled up to its own length (`padTo_stripZeros_of_length`).
-/

namespace SealedMail.Bytes

theorem valueFrom_eq (acc : ℕ) (bytes : Bytes) :
    valueFrom acc bytes = acc * 256 ^ bytes.length + value bytes := by
  induction bytes generalizing acc with
  | nil => simp [valueFrom, value]
  | cons byte rest ih =>
      have start : value (byte :: rest) = valueFrom (0 * 256 + byte.toNat) rest := rfl
      rw [valueFrom_cons, ih, start, ih (0 * 256 + byte.toNat), List.length_cons, pow_succ]
      ring

theorem value_append (front back : Bytes) :
    value (front ++ back) = value front * 256 ^ back.length + value back := by
  rw [← valueFrom_eq, value, valueFrom, List.foldl_append]
  rfl

theorem value_cons (byte : UInt8) (rest : Bytes) :
    value (byte :: rest) = byte.toNat * 256 ^ rest.length + value rest := by
  rw [value, valueFrom_cons, valueFrom_eq, zero_mul, zero_add]

@[simp] theorem value_singleton (byte : UInt8) : value [byte] = byte.toNat := by
  simp [value, valueFrom]

theorem value_lt (bytes : Bytes) : value bytes < 256 ^ bytes.length := by
  induction bytes with
  | nil => simp [value, valueFrom]
  | cons byte rest ih =>
      have hbyte : byte.toNat + 1 ≤ 256 := byte.toNat_lt
      calc value (byte :: rest) = byte.toNat * 256 ^ rest.length + value rest := value_cons _ _
        _ < (byte.toNat + 1) * 256 ^ rest.length := by rw [add_mul, one_mul]; omega
        _ ≤ 256 * 256 ^ rest.length := Nat.mul_le_mul_right _ hbyte
        _ = 256 ^ (byte :: rest).length := by rw [List.length_cons, pow_succ']

theorem bigEndianOnto_append (width number : ℕ) (front back : Bytes) :
    bigEndianOnto width number (front ++ back) = bigEndianOnto width number front ++ back := by
  induction width generalizing number front with
  | zero => rfl
  | succ width ih => exact ih _ (_ :: front)

theorem bigEndian_succ (width number : ℕ) :
    bigEndian (width + 1) number =
      bigEndian width (number / 256) ++ [UInt8.ofNat (number % 256)] :=
  bigEndianOnto_append width (number / 256) [] [UInt8.ofNat (number % 256)]

theorem value_bigEndian (width number : ℕ) :
    value (bigEndian width number) = number % 256 ^ width := by
  induction width generalizing number with
  | zero => simp [bigEndian, bigEndianOnto, value, valueFrom, Nat.mod_one]
  | succ width ih =>
      have digit : (UInt8.ofNat (number % 256)).toNat = number % 256 := by simp
      rw [bigEndian_succ, value_append, ih, value_singleton, digit, List.length_singleton, pow_one,
        pow_succ', Nat.mod_mul]
      ring

/-- A number that fits its width is read back. -/
theorem value_bigEndian_of_lt {width number : ℕ} (h : number < 256 ^ width) :
    value (bigEndian width number) = number := by
  rw [value_bigEndian, Nat.mod_eq_of_lt h]

theorem bigEndian_injective {width a b : ℕ} (ha : a < 256 ^ width) (hb : b < 256 ^ width)
    (h : bigEndian width a = bigEndian width b) : a = b := by
  rw [← value_bigEndian_of_lt ha, h, value_bigEndian_of_lt hb]

/-- A byte string is the encoding of its value. -/
theorem bigEndian_value (bytes : Bytes) : bigEndian bytes.length (value bytes) = bytes := by
  -- The encoding writes the last byte first, so the induction takes it off.
  induction bytes using List.reverseRecOn with
  | nil => rfl
  | append_singleton front byte ih =>
      have hbyte : byte.toNat < 256 := byte.toNat_lt
      have quotient : value (front ++ [byte]) / 256 = value front := by
        rw [value_append, value_singleton, List.length_singleton, pow_one]
        omega
      have digit : value (front ++ [byte]) % 256 = byte.toNat := by
        rw [value_append, value_singleton, List.length_singleton, pow_one]
        omega
      rw [List.length_append, List.length_singleton, bigEndian_succ, quotient, digit, ih,
        UInt8.ofNat_toNat]

theorem bigEndian_value_of_length {width : ℕ} {bytes : Bytes} (h : bytes.length = width) :
    bigEndian width (value bytes) = bytes := by
  rw [← h, bigEndian_value]

theorem value_injective {left right : Bytes} (hlength : left.length = right.length)
    (h : value left = value right) : left = right := by
  rw [← bigEndian_value left, ← bigEndian_value right, hlength, h]

/-! ## Leading zeros -/

theorem head?_stripZeros_ne (bytes : Bytes) : (stripZeros bytes).head? ≠ some 0 := by
  have := List.head?_dropWhile_not (fun byte : UInt8 => byte == 0) bytes
  intro leading
  rw [stripZeros] at leading
  simp [leading] at this

theorem length_stripZeros_le (bytes : Bytes) : (stripZeros bytes).length ≤ bytes.length :=
  List.length_dropWhile_le _ _

theorem stripZeros_stripZeros (bytes : Bytes) : stripZeros (stripZeros bytes) = stripZeros bytes :=
  List.dropWhile_idempotent _ bytes

theorem length_padTo (width : ℕ) (bytes : Bytes) :
    (padTo width bytes).length = max width (stripZeros bytes).length := by
  rw [padTo, List.length_append, List.length_replicate]
  omega

theorem padTo_stripZeros (width : ℕ) (bytes : Bytes) :
    padTo width (stripZeros bytes) = padTo width bytes := by
  rw [padTo, padTo, stripZeros_stripZeros]

/-- Leading zeros that were taken off are put back. -/
theorem padTo_stripZeros_of_length {width : ℕ} {bytes : Bytes} (h : bytes.length = width) :
    padTo width (stripZeros bytes) = bytes := by
  rw [padTo_stripZeros]
  -- Both spell the same number in the same length.
  apply value_injective
  · rw [length_padTo, ← h]
    exact max_eq_left (length_stripZeros_le bytes)
  · exact value_padTo width bytes

end SealedMail.Bytes
