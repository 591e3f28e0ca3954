import SealedMail.Derivation.DerivationError

/-!
# Derivation paths

A path lists the steps from the root of a key tree, at most 255 of them. A step has an index below
`2³¹`, may be hardened, and may carry a label. Labels are for readers: only the child numbers, the
indices with the hardened bit, decide which key a path leads to. The order of paths by prefix
compares child numbers and nothing else.
-/

namespace SealedMail

/-- The first child number of a hardened step. -/
def Segment.hardenedOffset : Nat := 0x80000000

/-- The greatest number of steps in a path. -/
def Path.maxDepth : Nat := 255

/-- One step of a path. The label is a name for readers; a hardened step needs the private key. The
index leaves room for the hardened bit. -/
structure Segment where
  label : Option String
  index : Nat
  hardened : Bool
  index_lt : index < Segment.hardenedOffset
  deriving DecidableEq

namespace Segment

/-- A step without a label. An index that has the hardened bit is refused. -/
def ofIndex (index : Nat) (hardened : Bool) : Except DerivationError Segment :=
  if h : index < hardenedOffset then .ok ⟨none, index, hardened, h⟩
  else .error (.noChild index)

/-- The same step under a label. Any text is taken. -/
def withLabel (segment : Segment) (label : String) : Segment :=
  { segment with label := some label }

/-- The index with the hardened bit. -/
def childNumber (segment : Segment) : Nat :=
  if segment.hardened then segment.index + hardenedOffset else segment.index

end Segment

/-- Steps from the root, not more than the tree is deep. -/
structure Path where
  segments : List Segment
  depth_le : segments.length ≤ Path.maxDepth
  deriving DecidableEq

namespace Path

/-- The path of the root. -/
def root : Path := ⟨[], Nat.zero_le _⟩

/-- The number of steps. -/
def depth (path : Path) : Nat := path.segments.length

/-- Some step is hardened. -/
def hasHardened (path : Path) : Bool := path.segments.any Segment.hardened

/-- The child numbers of the steps, which decide the key. -/
def childNumbers (path : Path) : List Nat := path.segments.map Segment.childNumber

/-- The path with one more step, if the tree is deep enough. -/
def child (path : Path) (segment : Segment) : Except DerivationError Path :=
  if h : path.segments.length < maxDepth then
    .ok ⟨path.segments ++ [segment], by
      rw [List.length_append, List.length_singleton]; exact h⟩
  else .error (.tooDeep maxDepth)

/-- The other path starts with the child numbers of this one. -/
def isPrefixOf (path other : Path) : Bool := path.childNumbers.isPrefixOf other.childNumbers

/-- The steps of the other path below this one, if this one is a prefix. -/
def suffixIn (path other : Path) : Option (List Segment) :=
  if path.isPrefixOf other then some (other.segments.drop path.depth) else none

end Path

end SealedMail
