import SealedMail.Bytes.Basic

/-!
# Random sources

A source of random bytes is an endless stream together with the number of bytes already handed
out. Drawing hands out the next bytes of the stream and advances the count, so consecutive draws
read adjacent stretches.

Main statements: `skip_skip`, `peek_skip_ofBytes`.
-/

namespace SealedMail

/-- An endless byte stream and how much of it has been handed out. -/
structure RandomSource where
  byteAt : Nat → UInt8
  taken : Nat

namespace RandomSource

/-- The source that hands out `supply` and then the byte one for ever. -/
def ofBytes (supply : Bytes) : RandomSource :=
  let stored := supply.toArray
  ⟨fun offset => stored.getD offset 1, 0⟩

/-- The next `count` bytes. -/
def peek (source : RandomSource) (count : Nat) : Bytes :=
  (List.range count).map fun offset => source.byteAt (source.taken + offset)

/-- The source after the next `count` bytes have been handed out. -/
def skip (source : RandomSource) (count : Nat) : RandomSource :=
  { source with taken := source.taken + count }

/-- Hand out the next `count` bytes. -/
def draw (source : RandomSource) (count : Nat) : Bytes × RandomSource :=
  (source.peek count, source.skip count)

/-- Overwrite a buffer with the next bytes, as many as it holds. -/
def fill (source : RandomSource) (buffer : Bytes) : Bytes × RandomSource :=
  source.draw buffer.length

@[simp] theorem length_peek (source : RandomSource) (count : Nat) :
    (source.peek count).length = count := by
  simp [peek]

@[simp] theorem skip_zero (source : RandomSource) : source.skip 0 = source := rfl

@[simp] theorem skip_skip (source : RandomSource) (a b : Nat) :
    (source.skip a).skip b = source.skip (a + b) := by
  simp [skip, Nat.add_assoc]

/-- The next `count` bytes with their length. -/
def peekOctets (source : RandomSource) (count : Nat) : Octets count :=
  ⟨source.peek count, source.length_peek count⟩

/-- Past its supply, a source made from bytes hands out ones. -/
theorem peek_skip_ofBytes {supply : Bytes} {offset : Nat} (h : supply.length ≤ offset)
    (count : Nat) : ((ofBytes supply).skip offset).peek count = List.replicate count 1 := by
  apply List.ext_getElem
  · simp
  · intro i hi _
    have hi' : supply.length ≤ offset + i := by omega
    simp [peek, skip, ofBytes, hi']

end RandomSource

end SealedMail
