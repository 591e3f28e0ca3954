import SealedMail.Text.Combining
import SealedMail.Text.Unassigned

/-!
# Characters without a mark of their own

Quoted text shows a character by its code point if nothing would be seen of it, or nothing apart
from the character before it. These are control and format characters, separators other than the
space, fillers, characters for private use, combining marks, and code points without a character.
-/

namespace SealedMail.Text

/-- Control, format and filler characters, separators other than the space, and characters for
private use, as closed ranges in increasing order. -/
def blankRanges : List (Nat × Nat) :=
  [(0x0, 0x1f), (0x7f, 0xa0), (0xad, 0xad), (0x600, 0x605), (0x61c, 0x61c), (0x6dd, 0x6dd),
   (0x70f, 0x70f), (0x890, 0x891), (0x8e2, 0x8e2), (0x115f, 0x1160), (0x1680, 0x1680),
   (0x180e, 0x180e), (0x2000, 0x200f), (0x2028, 0x202f), (0x205f, 0x2064), (0x2066, 0x206f),
   (0x3000, 0x3000), (0x3164, 0x3164), (0xe000, 0xf8ff), (0xfeff, 0xfeff), (0xffa0, 0xffa0),
   (0xfff9, 0xfffb), (0x110bd, 0x110bd), (0x110cd, 0x110cd), (0x13430, 0x1343f), (0x1bca0, 0x1bca3),
   (0x1d173, 0x1d17a), (0xe0001, 0xe0001), (0xe0020, 0xe007f), (0xf0000, 0xffffd),
   (0x100000, 0x10fffd)]

/-- The code point of a character lies in one of the ranges. -/
def inRanges (c : Char) (ranges : List (Nat × Nat)) : Bool :=
  ranges.any fun range => range.1 ≤ c.toNat && c.toNat ≤ range.2

/-- A character without a mark of its own. -/
def isInvisible (c : Char) : Bool :=
  inRanges c blankRanges || inRanges c combiningRanges || inRanges c unassignedRanges

end SealedMail.Text
