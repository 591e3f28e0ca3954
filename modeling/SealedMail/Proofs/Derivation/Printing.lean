import SealedMail.Proofs.Derivation.Grammar

/-!
# Reading printed paths

The text of a path with grammatical labels spells the path (`Path.spells_chars`), so it is read back
from its text, labels included (`Path.parse_text`). Reading a path gives grammatical labels only
(`Path.isGrammatical_of_parse`).
-/

namespace SealedMail

namespace Segment

/-- The characters in front of the digits. -/
def labelChars : Option String → List Char
  | none => []
  | some label => label.toList ++ [':']

/-- The characters behind the digits. -/
def markerChars : Bool → List Char
  | false => []
  | true => ['\'']

theorem chars_eq (segment : Segment) :
    segment.chars = labelChars segment.label ++
      (Nat.toDigits 10 segment.index ++ markerChars segment.hardened) := by
  rw [chars, List.append_assoc]
  cases segment.label <;> cases segment.hardened <;> rfl

theorem spellsMarker_markerChars (hardened : Bool) :
    SpellsMarker (markerChars hardened) hardened := by
  cases hardened with
  | false => exact .unmarked
  | true => exact .marked (by simp)

/-- The characters of a segment with a grammatical label spell it. -/
theorem spells_chars {segment : Segment} (h : segment.isGrammatical = true) :
    Spells segment.chars segment := by
  have decimal : ∀ c ∈ Nat.toDigits 10 segment.index, c.isDigit = true := fun c hc =>
    Nat.isDigit_of_mem_toDigits (by decide) (by decide) hc
  rw [chars_eq]
  refine .intro ?_ Nat.toDigits_ne_nil decimal Nat.ofDigitChars_ten_toDigits segment.index_lt
    (spellsMarker_markerChars _)
  cases hlabel : segment.label with
  | none => exact .unlabelled
  | some label =>
      have grammatical : isGrammaticalLabel label = true := by
        simpa [isGrammatical, hlabel] using h
      obtain ⟨nonempty, allowed⟩ := isGrammaticalLabel_iff.1 grammatical
      exact .labelled nonempty allowed

end Segment

namespace Path

/-- Every label is grammatical. -/
def isGrammatical (path : Path) : Bool := path.segments.all Segment.isGrammatical

theorem isGrammatical_iff {path : Path} :
    path.isGrammatical = true ↔ ∀ segment ∈ path.segments, segment.isGrammatical = true :=
  List.all_eq_true

theorem intercalate_cons (first : List Char) (parts : List (List Char)) :
    ['/'].intercalate (first :: parts) = first ++ parts.flatMap ('/' :: ·) := by
  induction parts generalizing first with
  | nil => simp
  | cons next parts ih =>
      rw [List.intercalate_cons_cons, ih, List.flatMap_cons]
      simp

/-- A path is printed as the name of the root and its segments, with slashes between them. -/
theorem chars_eq_intercalate (path : Path) :
    path.chars = ['/'].intercalate (['m'] :: path.segments.map Segment.chars) := by
  rw [intercalate_cons, List.flatMap_map]
  rfl

/-- The characters of a path with grammatical labels spell its steps. -/
theorem spells_chars {path : Path} (h : path.isGrammatical = true) :
    Spells path.chars path.segments := by
  rw [isGrammatical_iff] at h
  rw [chars_eq_intercalate]
  obtain ⟨segments, depth_le⟩ := path
  cases segments with
  | nil => exact .root
  | cons segment segments =>
      have each : List.Forall₂ Segment.Spells ((segment :: segments).map Segment.chars)
          (segment :: segments) := by
        rw [List.forall₂_map_left_iff, List.forall₂_same]
        exact fun other hmem => Segment.spells_chars (h other hmem)
      have fits : ((segment :: segments).map Segment.chars).length ≤ maxDepth := by
        rwa [List.length_map]
      exact .below (by simp) fits each

/-- A path with grammatical labels is read back from its text. -/
theorem parse_text {path : Path} (h : path.isGrammatical = true) : parse path.text = .ok path := by
  rw [parse_eq_ok_iff, text, String.toList_ofList]
  exact spells_chars h

/-- A path that is read has grammatical labels. -/
theorem isGrammatical_of_parse {text : String} {path : Path} (h : parse text = .ok path) :
    path.isGrammatical = true :=
  isGrammatical_iff.2 (parse_eq_ok_iff.1 h).isGrammatical

end Path

end SealedMail
