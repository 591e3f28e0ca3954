import Mathlib
import SealedMail.Cipher.Aes

/-!
# The block cipher is a permutation

Each layer of a round has an inverse: the substitution by a search in its table
(`unsubstitute_substitute`), the shift of rows by the shift back, the mixing of columns by three
further mixings (`Column.mix_mix`, `Column.mix_four`), and the addition of a key by itself. Hence
encryption and decryption under a fixed schedule are inverse to each other (`decrypt_encrypt_block`,
`encrypt_decrypt_block`), and both are injective.
-/

namespace SealedMail.Aes

/-! ## Bytes -/

@[simp] theorem xor_self_xor (a b : UInt8) : a ^^^ (a ^^^ b) = b := by
  rw [← UInt8.xor_assoc, UInt8.xor_self, UInt8.zero_xor]

theorem xor_left_comm (a b c : UInt8) : a ^^^ (b ^^^ c) = b ^^^ (a ^^^ c) := by
  rw [← UInt8.xor_assoc, UInt8.xor_comm a b, UInt8.xor_assoc]

theorem double_eq (b : UInt8) :
    double b = (b <<< 1) ^^^ (if b.toBitVec.msb then 0x1b else 0) := by
  have msb : b < 128 ↔ b.toBitVec.msb = false := by
    rw [BitVec.msb_eq_false_iff_two_mul_lt, UInt8.lt_iff_toNat_lt]
    change b.toNat < 128 ↔ 2 * b.toNat < 2 ^ 8
    omega
  rw [double]
  cases h : b.toBitVec.msb with
  | false => simp [msb.2 h]
  | true => simp [mt msb.1 (by simp [h])]

theorem shiftLeft_xor (a b : UInt8) : (a ^^^ b) <<< 1 = (a <<< 1) ^^^ (b <<< 1) := by
  apply UInt8.toBitVec_inj.1
  simp [BitVec.shiftLeft_xor_distrib]

/-- Doubling is additive. -/
theorem double_xor (a b : UInt8) : double (a ^^^ b) = double a ^^^ double b := by
  have carry : (if (a ^^^ b).toBitVec.msb then (0x1b : UInt8) else 0) =
      (if a.toBitVec.msb then 0x1b else 0) ^^^ (if b.toBitVec.msb then 0x1b else 0) := by
    rw [UInt8.toBitVec_xor, BitVec.msb_xor]
    cases a.toBitVec.msb <;> cases b.toBitVec.msb <;> decide
  -- Both the shift and the carry are additive.
  rw [double_eq, double_eq, double_eq, shiftLeft_xor, carry]
  ac_rfl

/-- The numbers of a list as the bits of a number. -/
def marks (ns : List ℕ) : ℕ := ns.foldr (fun n seen => seen ||| 1 <<< n) 0

theorem testBit_marks (ns : List ℕ) (i : ℕ) : (marks ns).testBit i = decide (i ∈ ns) := by
  induction ns with
  | nil => simp [marks]
  | cons n ns ih =>
      rw [marks, List.foldr_cons, Nat.testBit_or, ← marks, ih, Nat.shiftLeft_eq, one_mul,
        Nat.testBit_two_pow]
      simp [Bool.or_comm, eq_comm]

/-- Every byte stands in the table. -/
theorem marks_substitution : marks (substitution.toList.map UInt8.toNat) = 2 ^ 256 - 1 := by
  decide +kernel

theorem substitute_surjective : Function.Surjective substitute := by
  intro image
  have marked : (marks (substitution.toList.map UInt8.toNat)).testBit image.toNat = true := by
    rw [marks_substitution, Nat.testBit_two_pow_sub_one]
    exact decide_eq_true image.toNat_lt
  rw [testBit_marks, decide_eq_true_eq, List.mem_map] at marked
  obtain ⟨entry, hmem, hentry⟩ := marked
  obtain rfl := UInt8.toNat_inj.1 hentry
  obtain ⟨i, hi, rfl⟩ := List.mem_iff_getElem.1 hmem
  have hi' : i < 256 := by simpa using hi
  refine ⟨UInt8.ofNat i, ?_⟩
  have index : (UInt8.ofNat i).toNat = i := by simp [Nat.mod_eq_of_lt hi']
  simp [substitute, Vector.get, index]

theorem substitute_injective : Function.Injective substitute :=
  Finite.injective_iff_surjective.2 substitute_surjective

/-- A substitute stands in the table at its byte and nowhere before. -/
theorem findIdx?_substitution (b : UInt8) :
    substitution.toList.findIdx? (fun entry => entry.toNat == (substitute b).toNat) =
      some b.toNat := by
  have size : substitution.toList.length = 256 := by simp
  have entry (i : ℕ) (hi : i < substitution.toList.length) :
      substitution.toList[i] = substitute (UInt8.ofNat i) := by
    have small : i < 256 := size ▸ hi
    have index : (UInt8.ofNat i).toNat = i := by simp [Nat.mod_eq_of_lt small]
    simp [substitute, Vector.get, index]
  rw [List.findIdx?_eq_some_iff_getElem]
  refine ⟨by rw [size]; exact b.toNat_lt, ?_, fun i hi => ?_⟩
  · rw [entry, UInt8.ofNat_toNat, beq_self_eq_true]
  · rw [entry, beq_iff_eq, UInt8.toNat_inj]
    intro same
    -- The table has no entry twice.
    have index := congrArg UInt8.toNat (substitute_injective same)
    rw [UInt8.toNat_ofNat', Nat.mod_eq_of_lt (hi.trans b.toNat_lt)] at index
    omega

theorem unsubstitute_substitute (b : UInt8) : unsubstitute (substitute b) = b := by
  have image : (substitute b).toNat < 256 := (substitute b).toNat_lt
  have searched : unsubstitute (substitute b) =
      UInt8.ofNat ((substitution.toList.findIdx? fun entry =>
        entry.toNat == (substitute b).toNat).getD 0) := by
    rw [unsubstitute, substitutionInverse]
    exact Vector.getElem_ofFn image
  rw [searched, findIdx?_substitution, Option.getD_some, UInt8.ofNat_toNat]

theorem substitute_unsubstitute (b : UInt8) : substitute (unsubstitute b) = b :=
  Function.LeftInverse.rightInverse_of_surjective unsubstitute_substitute substitute_surjective b

/-! ## Columns -/

namespace Column

theorem map_map_cancel {f g : UInt8 → UInt8} (h : ∀ b, f (g b) = b) (c : Column) :
    (c.map g).map f = c := by
  simp [map, h]

@[simp] theorem add_add_cancel (c d : Column) : (c.add d).add d = c := by
  simp [add]

/-- The sum of the bytes. -/
def sum (c : Column) : UInt8 := c.r0 ^^^ c.r1 ^^^ c.r2 ^^^ c.r3

/-- Mixing keeps the sum of the bytes, since the rows of the matrix add up to one. -/
theorem sum_mix (c : Column) : c.mix.sum = c.sum := by
  simp only [sum, mix, double_xor, UInt8.xor_assoc, UInt8.xor_comm, xor_left_comm, xor_self_xor,
    UInt8.xor_self, UInt8.xor_zero]

theorem mix_eq (c : Column) :
    c.mix = ⟨c.r0 ^^^ c.sum ^^^ double (c.r0 ^^^ c.r1), c.r1 ^^^ c.sum ^^^ double (c.r1 ^^^ c.r2),
      c.r2 ^^^ c.sum ^^^ double (c.r2 ^^^ c.r3), c.r3 ^^^ c.sum ^^^ double (c.r3 ^^^ c.r0)⟩ := rfl

/-- One byte of a column that is mixed twice. -/
theorem mix_twice (a b c s : UInt8) :
    (a ^^^ s ^^^ double (a ^^^ b)) ^^^ s ^^^
        double ((a ^^^ s ^^^ double (a ^^^ b)) ^^^ (b ^^^ s ^^^ double (b ^^^ c))) =
      a ^^^ double (double (a ^^^ c)) := by
  simp only [double_xor, UInt8.xor_assoc, UInt8.xor_comm, xor_left_comm, xor_self_xor]

/-- Mixing twice multiplies by the circulant matrix with first row `5 0 4 0`. -/
theorem mix_mix (c : Column) :
    c.mix.mix =
      ⟨c.r0 ^^^ double (double (c.r0 ^^^ c.r2)), c.r1 ^^^ double (double (c.r1 ^^^ c.r3)),
       c.r2 ^^^ double (double (c.r2 ^^^ c.r0)), c.r3 ^^^ double (double (c.r3 ^^^ c.r1))⟩ := by
  rw [mix_eq c.mix, sum_mix, mix_eq c]
  simp only [mix_twice]

/-- Mixing four times changes nothing. -/
theorem mix_four (c : Column) : c.mix.mix.mix.mix = c := by
  rw [mix_mix, mix_mix]
  simp only [double_xor, UInt8.xor_comm, xor_left_comm, UInt8.xor_self, UInt8.xor_zero]

/-- The inverse matrix is the third power of the matrix. -/
theorem unmix_eq (c : Column) : c.unmix = c.mix.mix.mix := by
  rw [mix_mix c, unmix, UInt8.xor_comm c.r2 c.r0, UInt8.xor_comm c.r3 c.r1]

theorem unmix_mix (c : Column) : c.mix.unmix = c := by
  rw [unmix_eq, mix_four]

theorem mix_unmix (c : Column) : c.unmix.mix = c := by
  rw [unmix_eq, mix_four]

end Column

/-! ## Blocks -/

namespace Block

theorem map_map_cancel {f g : Column → Column} (h : ∀ c, f (g c) = c) (b : Block) :
    (b.map g).map f = b := by
  simp [map, h]

@[simp] theorem add_add_cancel (b d : Block) : (b.add d).add d = b := by
  simp [add]

theorem add_injective (d : Block) : Function.Injective fun b : Block => b.add d :=
  Function.LeftInverse.injective (g := fun sum => sum.add d) fun b => b.add_add_cancel d

theorem unscramble_scramble (b : Block) : b.scramble.unscramble = b := by
  rw [unscramble, scramble, unshiftRows_shiftRows,
    map_map_cancel (Column.map_map_cancel unsubstitute_substitute)]

theorem scramble_unscramble (b : Block) : b.unscramble.scramble = b := by
  rw [unscramble, scramble, map_map_cancel (Column.map_map_cancel substitute_unsubstitute),
    shiftRows_unshiftRows]

theorem bytes_injective : Function.Injective bytes :=
  Function.LeftInverse.injective ofBytes_bytes

/-- The block that sixteen bytes spell has those bytes. -/
theorem bytes_ofBytes {data : Bytes} (h : data.length = 16) : (ofBytes data).bytes = data := by
  apply List.ext_getElem
  · rw [length_bytes, h]
  · intro i hi _
    have hi' : i < 16 := hi
    interval_cases i <;> simp [ofBytes, bytes, Column.bytes, h]

end Block

/-! ## Rounds -/

theorem rounds_singleton (last b : Block) : rounds [last] b = b.scramble.add last := rfl

theorem rounds_cons_cons (key next : Block) (keys : List Block) (b : Block) :
    rounds (key :: next :: keys) b =
      rounds (next :: keys) ((b.scramble.map Column.mix).add key) := rfl

theorem unrounds_singleton (last b : Block) : unrounds [last] b = (b.add last).unscramble := rfl

theorem unrounds_cons_cons (key next : Block) (keys : List Block) (b : Block) :
    unrounds (key :: next :: keys) b =
      (((unrounds (next :: keys) b).add key).map Column.unmix).unscramble := rfl

theorem unrounds_rounds (keys : List Block) (b : Block) : unrounds keys (rounds keys b) = b := by
  -- For every block at once: a round hands another block to the rounds behind it.
  induction keys generalizing b with
  | nil => rfl
  | cons key keys ih =>
      -- The last round does not mix the columns.
      rcases keys with _ | ⟨next, keys⟩
      · rw [rounds_singleton, unrounds_singleton, Block.add_add_cancel, Block.unscramble_scramble]
      · rw [unrounds_cons_cons, rounds_cons_cons, ih, Block.add_add_cancel,
          Block.map_map_cancel Column.unmix_mix, Block.unscramble_scramble]

theorem rounds_unrounds (keys : List Block) (b : Block) : rounds keys (unrounds keys b) = b := by
  induction keys generalizing b with
  | nil => rfl
  | cons key keys ih =>
      -- Here the last round is the first one undone.
      rcases keys with _ | ⟨next, keys⟩
      · rw [unrounds_singleton, rounds_singleton, Block.scramble_unscramble, Block.add_add_cancel]
      · rw [unrounds_cons_cons, rounds_cons_cons, Block.scramble_unscramble,
          Block.map_map_cancel Column.mix_unmix, Block.add_add_cancel, ih]

/-- Decryption undoes encryption under the same schedule. -/
theorem decrypt_encrypt_block (schedule : Schedule) (b : Block) :
    decrypt schedule (encrypt schedule b) = b := by
  rw [decrypt, encrypt, unrounds_rounds, Block.add_add_cancel]

/-- Encryption undoes decryption under the same schedule. -/
theorem encrypt_decrypt_block (schedule : Schedule) (b : Block) :
    encrypt schedule (decrypt schedule b) = b := by
  rw [decrypt, encrypt, Block.add_add_cancel, rounds_unrounds]

theorem encrypt_injective (schedule : Schedule) : Function.Injective (encrypt schedule) :=
  Function.LeftInverse.injective (decrypt_encrypt_block schedule)

theorem decrypt_injective (schedule : Schedule) : Function.Injective (decrypt schedule) :=
  Function.LeftInverse.injective (encrypt_decrypt_block schedule)

end SealedMail.Aes
