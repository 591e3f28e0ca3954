import Mathlib
import SealedMail.Derivation.Path

/-!
# Prefixes of paths

A path is a prefix of another exactly if its child numbers are (`Path.isPrefixOf_iff`), whatever the
labels. The child numbers of a path below a prefix are those of the prefix and those of the path's
own last steps (`Path.childNumbers_of_isPrefixOf`); a place in between divides these steps into two
stages (`Path.numbers_between`). A child number also tells whether its step is hardened.
-/

namespace SealedMail

/-- A step is made for an index with room for the hardened bit. -/
theorem Segment.exists_ofIndex_iff {index : ℕ} {hardened : Bool} :
    (∃ step, ofIndex index hardened = .ok step) ↔ index < 2 ^ 31 := by
  change _ ↔ index < hardenedOffset
  unfold ofIndex
  split <;> simp_all

/-- A child number fits in four bytes. -/
theorem Segment.childNumber_lt (segment : Segment) : segment.childNumber < 256 ^ 4 := by
  have index_lt : segment.index < 0x80000000 := segment.index_lt
  unfold childNumber hardenedOffset
  split <;> omega

theorem Segment.hardened_eq_of_childNumber_eq {segment other : Segment}
    (h : segment.childNumber = other.childNumber) : segment.hardened = other.hardened := by
  have hs := segment.index_lt
  have ho := other.index_lt
  unfold childNumber at h
  -- The indices are below the hardened numbers, so the two kinds do not meet.
  cases hsegment : segment.hardened <;> cases hother : other.hardened <;>
    simp only [hsegment, hother, if_true, Bool.false_eq_true, if_false] at h ⊢
  · omega
  · omega

namespace Path

/-! ## Prefixes -/

theorem isPrefixOf_iff {path other : Path} :
    path.isPrefixOf other = true ↔ path.childNumbers <+: other.childNumbers :=
  List.isPrefixOf_iff_prefix

theorem isPrefixOf_trans {a b c : Path} (hab : a.isPrefixOf b = true)
    (hbc : b.isPrefixOf c = true) : a.isPrefixOf c = true :=
  isPrefixOf_iff.2 ((isPrefixOf_iff.1 hab).trans (isPrefixOf_iff.1 hbc))

theorem length_childNumbers (path : Path) : path.childNumbers.length = path.depth :=
  List.length_map _

theorem suffixIn_of_isPrefixOf {path other : Path} (h : path.isPrefixOf other = true) :
    path.suffixIn other = some (other.segments.drop path.depth) := by
  rw [suffixIn, if_pos h]

theorem suffixIn_of_not_isPrefixOf {path other : Path} (h : path.isPrefixOf other = false) :
    path.suffixIn other = none := by
  simp [suffixIn, h]

theorem depth_le_of_isPrefixOf {path other : Path} (h : path.isPrefixOf other = true) :
    path.depth ≤ other.depth := by
  have length := (isPrefixOf_iff.1 h).length_le
  rwa [length_childNumbers, length_childNumbers] at length

/-- A path below a prefix has the prefix's child numbers and those of its own last steps. -/
theorem childNumbers_of_isPrefixOf {path other : Path} (h : path.isPrefixOf other = true) :
    other.childNumbers =
      path.childNumbers ++ (other.segments.drop path.depth).map Segment.childNumber := by
  obtain ⟨rest, hrest⟩ := isPrefixOf_iff.1 h
  rw [← hrest, List.map_drop]
  change _ = _ ++ other.childNumbers.drop path.depth
  rw [← hrest, ← length_childNumbers, List.drop_left]

theorem isPrefixOf_of_segments {path other : Path} {steps : List Segment}
    (h : other.segments = path.segments ++ steps) : path.isPrefixOf other = true := by
  rw [isPrefixOf_iff, childNumbers, childNumbers, h, List.map_append]
  exact List.prefix_append _ _

theorem drop_of_segments {path other : Path} {steps : List Segment}
    (h : other.segments = path.segments ++ steps) : other.segments.drop path.depth = steps := by
  rw [h]
  exact List.drop_left

/-- The steps to a target have the numbers of those to a place in between and from there on. -/
theorem numbers_between {path middle target : Path}
    (hmiddle : path.isPrefixOf middle = true) (htarget : middle.isPrefixOf target = true) :
    (target.segments.drop path.depth).map Segment.childNumber =
      (middle.segments.drop path.depth ++ target.segments.drop middle.depth).map
        Segment.childNumber := by
  have whole := childNumbers_of_isPrefixOf (isPrefixOf_trans hmiddle htarget)
  have stages := childNumbers_of_isPrefixOf htarget
  rw [childNumbers_of_isPrefixOf hmiddle, whole, List.append_assoc] at stages
  rw [List.map_append]
  exact List.append_cancel_left stages

/-- The steps of a target below a prefix fit below it. -/
theorem depth_add_length_drop {path other : Path} (h : path.isPrefixOf other = true) :
    path.depth + (other.segments.drop path.depth).length ≤ maxDepth := by
  have hle := depth_le_of_isPrefixOf h
  have hmax := other.depth_le
  rw [List.length_drop]
  simp only [depth] at hle ⊢
  omega

/-! ## Children -/

theorem child_of_lt {path : Path} (segment : Segment) (h : path.depth < maxDepth) :
    ∃ longer, path.child segment = .ok longer ∧ longer.segments = path.segments ++ [segment] := by
  have h' : path.segments.length < maxDepth := h
  exact ⟨_, by rw [child, dif_pos h'], rfl⟩

/-- A step is added to a path that is not as deep as the tree. -/
theorem exists_child_iff {path : Path} {step : Segment} :
    (∃ longer, path.child step = .ok longer) ↔ path.depth < 255 := by
  change _ ↔ path.segments.length < maxDepth
  unfold child
  split <;> simp_all

/-- No step is added to a path that is as deep as the tree. -/
theorem not_lt_of_child_eq_error {path : Path} {step : Segment} {e : DerivationError}
    (h : path.child step = .error e) : ¬ path.depth < 255 := by
  intro room
  obtain ⟨longer, found⟩ := exists_child_iff.2 room
  rw [h] at found
  cases found

theorem segments_of_child {path longer : Path} {segment : Segment}
    (h : path.child segment = .ok longer) : longer.segments = path.segments ++ [segment] := by
  unfold child at h
  split at h <;> cases h
  rfl

end Path

end SealedMail
