import SealedMail.Bytes.Basic

/-!
# Hexadecimal text

Two digits a byte, the high half first. Writing uses lower case; reading takes both cases and
works on the UTF-8 bytes of the text, so that a failure names the first byte that is no digit.
-/

namespace SealedMail.Hex

/-- The lower-case digit of a half byte. -/
def digit (half : Nat) : Char :=
  Char.ofNat (if half < 10 then 48 + half else 87 + half)

/-- The two digits of a byte. -/
def ofByte (byte : UInt8) : List Char := [digit (byte.toNat / 16), digit (byte.toNat % 16)]

/-- The digits of a byte string. -/
def encode (bytes : Bytes) : String := String.ofList (bytes.flatMap ofByte)

/-- The value of a digit given as an ASCII byte, in either case. -/
def digit? (byte : UInt8) : Option Nat :=
  if 48 ≤ byte ∧ byte ≤ 57 then some (byte.toNat - 48)
  else if 97 ≤ byte ∧ byte ≤ 102 then some (byte.toNat - 87)
  else if 65 ≤ byte ∧ byte ≤ 70 then some (byte.toNat - 55)
  else none

/-- The first byte that is no digit, with its offset in bytes. -/
structure BadDigit where
  byte : UInt8
  position : Nat
  deriving DecidableEq

/-- Read the digit at `position`. -/
def digitAt (position : Nat) (byte : UInt8) : Except BadDigit Nat :=
  match digit? byte with
  | some half => .ok half
  | none => .error ⟨byte, position⟩

/-- Read pairs of digits from `position` on. A digit without a partner is left out; callers check
the length first. -/
def decodeFrom (position : Nat) : Bytes → Except BadDigit Bytes
  | high :: low :: rest => do
      let h ← digitAt position high
      let l ← digitAt (position + 1) low
      let tail ← decodeFrom (position + 2) rest
      return UInt8.ofNat (16 * h + l) :: tail
  | _ => .ok []

/-- Read the digits of a text of even length. -/
def decode (text : Bytes) : Except BadDigit Bytes := decodeFrom 0 text

theorem length_of_decodeFrom {position : Nat} {text bytes : Bytes}
    (h : decodeFrom position text = .ok bytes) : bytes.length = text.length / 2 := by
  fun_induction decodeFrom position text generalizing bytes with
  | case1 position high low rest ih =>
      cases hh : digitAt position high <;> cases hl : digitAt (position + 1) low <;>
        cases ht : decodeFrom (position + 2) rest <;>
        simp only [hh, hl, ht, bind, Except.bind, pure, Except.pure, reduceCtorEq,
          Except.ok.injEq] at h
      subst h
      simp [ih ht]
      omega
  | case2 text _ hne =>
      match text, hne with
      | [], _ => cases h; rfl
      | [_], _ => cases h; simp
      | high :: low :: rest, hne => exact (hne high low rest rfl).elim

end SealedMail.Hex
