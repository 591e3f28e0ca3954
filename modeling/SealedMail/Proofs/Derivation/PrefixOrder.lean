import SealedMail.Proofs.Derivation.Prefix
import SealedMail.Proofs.Sequencing

/-!
# The order of paths by prefix

A child number holds the index of its step and whether the step is hardened, and nothing else
(`Segment.childNumber_eq_iff`), so a prefix agrees with the front of a path step by step up to
labels (`Path.isPrefixOf_iff_forall₂`). The prefix relation is a preorder whose equivalence is to
have the same child numbers (`Path.isPrefixOf_antisymm_iff`). The steps below a prefix lead from the
prefix to the child numbers of the whole, one child at a time (`Path.exists_foldlM_child_suffixIn`),
and the steps below a prefix of a prefix are made of two such stages (`Path.numbers_suffixIn`). Main
statement: `Path.prefix_preorder`.
-/

namespace SealedMail

/-- The hardened bit is set on top of the index. -/
theorem Segment.childNumber_eq_lor (segment : Segment) :
    segment.childNumber =
      if segment.hardened then segment.index ||| hardenedOffset else segment.index := by
  have disjoint : 2 ^ 31 * 1 + segment.index = 2 ^ 31 * 1 ||| segment.index :=
    Nat.two_pow_add_eq_or_of_lt segment.index_lt 1
  rw [childNumber, Nat.add_comm, Nat.or_comm]
  exact congrArg (fun number => if segment.hardened then number else segment.index) disjoint

/-- Steps have one child number exactly if they differ in their labels only. -/
theorem Segment.childNumber_eq_iff {segment other : Segment} :
    segment.childNumber = other.childNumber ↔
      segment.index = other.index ∧ segment.hardened = other.hardened := by
  constructor
  · intro same
    have kind := hardened_eq_of_childNumber_eq same
    refine ⟨?_, kind⟩
    unfold childNumber at same
    rw [kind] at same
    split at same
    · exact Nat.add_right_cancel same
    · exact same
  · rintro ⟨index, kind⟩
    rw [childNumber, childNumber, index, kind]

namespace Path

/-! ## A preorder -/

theorem isPrefixOf_refl (path : Path) : path.isPrefixOf path = true :=
  isPrefixOf_iff.2 (List.prefix_refl _)

/-- A prefix agrees with the front of the path, step by step and up to labels. -/
theorem isPrefixOf_iff_forall₂ {path other : Path} :
    path.isPrefixOf other = true ↔
      List.Forall₂ (fun step step' => step.index = step'.index ∧ step.hardened = step'.hardened)
        path.segments (other.segments.take path.depth) := by
  simp only [← Segment.childNumber_eq_iff]
  rw [isPrefixOf_iff, List.prefix_iff_eq_take, length_childNumbers, childNumbers, childNumbers,
    ← List.map_take, ← List.forall₂_eq_eq_eq, List.forall₂_map_left_iff, List.forall₂_map_right_iff]

/-- Prefixes of each other have the same child numbers. -/
theorem isPrefixOf_antisymm_iff {path other : Path} :
    path.isPrefixOf other = true ∧ other.isPrefixOf path = true ↔
      path.childNumbers = other.childNumbers := by
  rw [isPrefixOf_iff, isPrefixOf_iff]
  constructor
  · rintro ⟨below, above⟩
    exact below.eq_of_length_le above.length_le
  · intro same
    rw [same]
    exact ⟨List.prefix_refl _, List.prefix_refl _⟩

/-! ## The steps below a prefix -/

theorem suffixIn_eq_some_iff {path other : Path} {steps : List Segment} :
    path.suffixIn other = some steps ↔
      path.isPrefixOf other = true ∧ other.segments.drop path.depth = steps := by
  cases below : path.isPrefixOf other with
  | false => simp [suffixIn_of_not_isPrefixOf below]
  | true => simp [suffixIn_of_isPrefixOf below]

/-- Steps that fit below a path can be taken one at a time. -/
theorem exists_foldlM_child {path : Path} {steps : List Segment}
    (room : path.depth + steps.length ≤ maxDepth) :
    ∃ longer, steps.foldlM child path = .ok longer ∧
      longer.segments = path.segments ++ steps := by
  induction steps generalizing path with
  | nil => exact ⟨path, rfl, (List.append_nil _).symm⟩
  | cons step steps ih =>
      rw [List.length_cons] at room
      have lt : path.depth < maxDepth := by omega
      obtain ⟨next, hnext, hsegments⟩ := child_of_lt step lt
      -- The next path is one step deeper, and one step fewer is left.
      have depth : next.depth = path.depth + 1 := by
        rw [Path.depth, hsegments, List.length_append, List.length_singleton, Path.depth]
      have room' : next.depth + steps.length ≤ maxDepth := by omega
      obtain ⟨longer, hlonger, hsegments'⟩ := ih room'
      refine ⟨longer, ?_, ?_⟩
      · rw [List.foldlM_cons, hnext, ok_bind, hlonger]
      · rw [hsegments', hsegments, List.append_assoc, List.singleton_append]

/-- From a prefix, the steps below it lead to the child numbers of the whole path. -/
theorem exists_foldlM_child_suffixIn {path other : Path} {steps : List Segment}
    (h : path.suffixIn other = some steps) :
    ∃ longer, steps.foldlM child path = .ok longer ∧
      longer.segments = path.segments ++ steps ∧ longer.childNumbers = other.childNumbers := by
  obtain ⟨below, rfl⟩ := suffixIn_eq_some_iff.1 h
  obtain ⟨longer, hlonger, hsegments⟩ := exists_foldlM_child (depth_add_length_drop below)
  refine ⟨longer, hlonger, hsegments, ?_⟩
  rw [childNumbers_of_isPrefixOf below, childNumbers, hsegments, List.map_append, childNumbers]

/-- The steps below a prefix are the last ones of the path. -/
theorem suffix_of_suffixIn {path other : Path} {steps : List Segment}
    (h : path.suffixIn other = some steps) :
    steps <:+ other.segments ∧ path.depth + steps.length = other.depth := by
  obtain ⟨below, rfl⟩ := suffixIn_eq_some_iff.1 h
  refine ⟨List.drop_suffix _ _, ?_⟩
  rw [List.length_drop]
  exact Nat.add_sub_cancel' (depth_le_of_isPrefixOf below)

/-- By way of a place in between, the steps have the same numbers. -/
theorem numbers_suffixIn {path middle target : Path} {first second whole : List Segment}
    (hfirst : path.suffixIn middle = some first) (hsecond : middle.suffixIn target = some second)
    (hwhole : path.suffixIn target = some whole) :
    whole.map Segment.childNumber =
      first.map Segment.childNumber ++ second.map Segment.childNumber := by
  obtain ⟨hmiddle, rfl⟩ := suffixIn_eq_some_iff.1 hfirst
  obtain ⟨htarget, rfl⟩ := suffixIn_eq_some_iff.1 hsecond
  obtain ⟨-, rfl⟩ := suffixIn_eq_some_iff.1 hwhole
  rw [← List.map_append]
  exact numbers_between hmiddle htarget

/-- The order of paths. A child number is the index with the hardened bit set on top, so it tells
index and kind apart: a hardened step is never taken for a normal one. A prefix agrees with the
front of the path up to labels. The relation is reflexive and transitive, and two paths are prefixes
of each other exactly if they have the same child numbers, which paths that differ in labels may
have. Steps below a path are given exactly where it is a prefix; they are the other path's own last
steps, as many as the depths differ by, and taken one at a time from the prefix they fit into the
tree and lead to the child numbers of the other path. By way of a prefix in between, the steps have
the same child numbers. -/
theorem prefix_preorder :
    (∀ step : Segment, step.childNumber =
      if step.hardened then step.index ||| 0x80000000 else step.index) ∧
    (∀ step other : Segment, step.childNumber = other.childNumber ↔
      step.index = other.index ∧ step.hardened = other.hardened) ∧
    (∀ a b : Path, a.isPrefixOf b = true ↔
      List.Forall₂ (fun step other => step.index = other.index ∧ step.hardened = other.hardened)
        a.segments (b.segments.take a.depth)) ∧
    (∀ a : Path, a.isPrefixOf a = true) ∧
    (∀ a b c : Path, a.isPrefixOf b = true → b.isPrefixOf c = true → a.isPrefixOf c = true) ∧
    (∀ a b : Path, a.isPrefixOf b = true ∧ b.isPrefixOf a = true ↔
      a.childNumbers = b.childNumbers) ∧
    (∃ a b : Path, a.childNumbers = b.childNumbers ∧ a ≠ b) ∧
    (∀ a b : Path, (∃ steps, a.suffixIn b = some steps) ↔ a.isPrefixOf b = true) ∧
    (∀ (a b : Path) steps, a.suffixIn b = some steps →
      steps <:+ b.segments ∧ a.depth + steps.length = b.depth ∧
      ∃ longer, steps.foldlM child a = .ok longer ∧ longer.segments = a.segments ++ steps ∧
        longer.childNumbers = b.childNumbers) ∧
    ∀ (a b c : Path) first second whole, a.suffixIn b = some first → b.suffixIn c = some second →
      a.suffixIn c = some whole →
        whole.map Segment.childNumber =
          first.map Segment.childNumber ++ second.map Segment.childNumber := by
  refine ⟨Segment.childNumber_eq_lor, fun _ _ => Segment.childNumber_eq_iff,
    fun _ _ => isPrefixOf_iff_forall₂, isPrefixOf_refl, fun _ _ _ => isPrefixOf_trans,
    fun _ _ => isPrefixOf_antisymm_iff, ?_, ?_, ?_, fun _ _ _ _ _ _ => numbers_suffixIn⟩
  · let labelled : Path := ⟨[⟨some "a", 1, false, by decide⟩], by decide⟩
    let plain : Path := ⟨[⟨none, 1, false, by decide⟩], by decide⟩
    exact ⟨labelled, plain, rfl, by decide⟩
  · intro a b
    simp only [suffixIn_eq_some_iff, exists_and_left, exists_eq', and_true]
  · intro a b steps h
    obtain ⟨last, depth⟩ := suffix_of_suffixIn h
    exact ⟨last, depth, exists_foldlM_child_suffixIn h⟩

/-- The path `m/a:1'`, a longer one under another label, and one below that. -/
theorem prefix_preorder_under_labels :
    let a : Path := ⟨[⟨some "a", 1, true, by decide⟩], by decide⟩
    let b : Path := ⟨[⟨some "b", 1, true, by decide⟩, ⟨some "c", 2, false, by decide⟩], by decide⟩
    let c : Path :=
      ⟨[⟨none, 1, true, by decide⟩, ⟨none, 2, false, by decide⟩, ⟨none, 2, true, by decide⟩],
        by decide⟩
    a.suffixIn b = some [⟨some "c", 2, false, by decide⟩] ∧
    b.suffixIn c = some [⟨none, 2, true, by decide⟩] ∧
    a.suffixIn c = some [⟨none, 2, false, by decide⟩, ⟨none, 2, true, by decide⟩] ∧
    a.isPrefixOf c = true ∧ [2, 0x80000002] = [2] ++ [0x80000002] ∧
    ∃ longer, [⟨some "c", 2, false, by decide⟩].foldlM child a = .ok longer ∧
      longer.childNumbers = b.childNumbers ∧ longer ≠ b := by
  intro a b c
  have first : a.suffixIn b = some [⟨some "c", 2, false, by decide⟩] := by decide
  have second : b.suffixIn c = some [⟨none, 2, true, by decide⟩] := by decide
  have whole : a.suffixIn c =
      some [⟨none, 2, false, by decide⟩, ⟨none, 2, true, by decide⟩] := by decide
  obtain ⟨-, -, -, -, trans, -, -, given_iff, below, stages⟩ := prefix_preorder
  have ab := (given_iff a b).1 ⟨_, first⟩
  have bc := (given_iff b c).1 ⟨_, second⟩
  obtain ⟨-, -, longer, hlonger, hsegments, numbers⟩ := below a b _ first
  refine ⟨first, second, whole, trans a b c ab bc, stages a b c _ _ _ first second whole, longer,
    hlonger, numbers, ?_⟩
  -- The longer path keeps the label of the prefix.
  intro same
  rw [same] at hsegments
  exact absurd hsegments (by decide)

end Path

end SealedMail
