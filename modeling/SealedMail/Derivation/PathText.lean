import SealedMail.Derivation.Path

/-!
# Paths as text

A path is written as `m` followed by a slash and a segment for each step. A segment is a label and
a colon, if there is a label, then the index in decimal, then an apostrophe if the step is hardened.
Reading also takes leading zeros and the letters `h` and `H` for the apostrophe, and is strict about
everything else.

Main statements: `length_readSegments`.
-/

namespace SealedMail

namespace Segment

/-- The characters of a segment. -/
def chars (segment : Segment) : List Char :=
  (match segment.label with
    | some label => label.toList ++ [':']
    | none => []) ++
  Nat.toDigits 10 segment.index ++ (if segment.hardened then ['\''] else [])

/-- The text of a segment. -/
def text (segment : Segment) : String := String.ofList segment.chars

/-- A character that may stand in a label. -/
def isLabelChar (c : Char) : Bool := c.isAlphanum || c == '_' || c == '-'

/-- A character that marks a hardened step. -/
def isMarker (c : Char) : Bool := c == '\'' || c == 'h' || c == 'H'

/-- Split off the label, up to the first colon. -/
def readLabel (part : List Char) : Except PathFault (Option String × List Char) :=
  match part.span (· != ':') with
  | (_, []) => .ok (none, part)
  | (label, _ :: rest) =>
      if label.isEmpty then .error .emptyLabel
      else if label.all isLabelChar then .ok (some (String.ofList label), rest)
      else .error (.badLabel (String.ofList label))

/-- Split off one marker from the end. -/
def splitMarker (rest : List Char) : List Char × Bool :=
  match rest.getLast? with
  | some c => if isMarker c then (rest.dropLast, true) else (rest, false)
  | none => (rest, false)

/-- Read the digits of an index; `rest` is what a message shows if they are none. -/
def readIndex (rest digits : List Char) : Except PathFault (Fin hardenedOffset) :=
  if digits.isEmpty || !digits.all Char.isDigit then .error (.badIndex (String.ofList rest))
  else
    let index := Nat.ofDigitChars 10 digits 0
    if 0x100000000 ≤ index then .error (.oversizedIndex (String.ofList digits))
    else if h : index < hardenedOffset then .ok ⟨index, h⟩
    else .error (.indexOutOfRange index)

/-- Read a segment. -/
def read (part : List Char) : Except PathFault Segment :=
  if part.isEmpty then .error .emptySegment
  else
    match readLabel part with
    | .error fault => .error fault
    | .ok (label, rest) =>
        let (digits, hardened) := splitMarker rest
        match readIndex rest digits with
        | .error fault => .error fault
        | .ok index => .ok ⟨label, index.val, hardened, index.isLt⟩

end Segment

namespace Path

/-- The characters of a path. -/
def chars (path : Path) : List Char :=
  'm' :: path.segments.flatMap fun segment => '/' :: segment.chars

/-- The text of a path. -/
def text (path : Path) : String := String.ofList path.chars

/-- Read the segments between slashes while there is room for more. -/
def readSegments (path : String) :
    (room : Nat) → List (List Char) → Except DerivationError (List Segment)
  | _, [] => .ok []
  -- The part after the last possible step is not looked at.
  | 0, _ :: _ => .error (.tooDeep maxDepth)
  | room + 1, part :: parts =>
      match Segment.read part with
      | .error fault => .error (.malformedPath path fault)
      | .ok segment => (readSegments path room parts).map (segment :: ·)

theorem length_readSegments {path : String} {room : Nat} {parts : List (List Char)}
    {segments : List Segment} (h : readSegments path room parts = .ok segments) :
    segments.length ≤ room := by
  fun_induction readSegments path room parts generalizing segments with
  | case1 => cases h; exact Nat.zero_le _
  | case2 => cases h
  | case3 => cases h
  | case4 room part parts segment hs ih =>
      cases ho : readSegments path room parts with
      | error e => rw [ho] at h; cases h
      | ok others => rw [ho] at h; cases h; exact Nat.succ_le_succ (ih ho)

/-- Read a path. -/
def parse (path : String) : Except DerivationError Path :=
  match path.toList with
  | ['m'] => .ok root
  | 'm' :: '/' :: rest =>
      match h : readSegments path maxDepth (rest.splitOn '/') with
      | .ok segments => .ok ⟨segments, length_readSegments h⟩
      | .error e => .error e
  | 'm' :: _ => .error (.malformedPath path .noSlash)
  | _ => .error (.malformedPath path .noRoot)

end Path

end SealedMail
