import SealedMail.Derivation.KeyTree
import SealedMail.Proofs.Curve.Encoding
import SealedMail.Proofs.Derivation.Prefix
import SealedMail.Proofs.Sequencing

/-!
# Descending a key tree

What a step and a whole descent do to an extended private key. A child is found or the child number
is refused (`ExtendedPrivateKey.child_cases`); a descent below a prefix runs the steps of the target
below it (`result_descend_of_isPrefixOf`), never runs out of depth, and so fails at a refused child
number only (`exists_noChild_of_foldlM_child`). The copy that a descent without steps gives out is
the key itself (`copy_eq`), so a descent reports its steps exactly if it arrives (`descend_cases`).
The key tree below an extended key holds what its descents find (`KeyTree.result_below`) and reports
what they report (`KeyTree.events_below`).
-/

namespace SealedMail

namespace ExtendedPrivateKey

/-- With depth left, a step gives the child or refuses its number. -/
theorem child_cases {parent : ExtendedPrivateKey} (segment : Segment)
    (room : parent.path.depth < Path.maxDepth) :
    (∃ key, parent.child segment = .ok key ∧
      key.path.segments = parent.path.segments ++ [segment]) ∨
    parent.child segment = .error (.noChild segment.childNumber) := by
  obtain ⟨path, hpath, hsegments⟩ := Path.child_of_lt segment room
  simp only [child, hpath, bind, Except.bind]
  cases parent.key.offsetBy
      (Split.ofHash parent.chainCode.bytes (parent.childMessage segment)).tweak with
  | ok key => exact Or.inl ⟨_, rfl, hsegments⟩
  | error e => exact Or.inr rfl

/-- Steps that fit below a key fail at a refused child number only. -/
theorem exists_noChild_of_foldlM_child {steps : List Segment} {parent : ExtendedPrivateKey}
    {e : DerivationError} (room : parent.path.depth + steps.length ≤ Path.maxDepth)
    (h : steps.foldlM child parent = .error e) :
    ∃ step ∈ steps, e = .noChild step.childNumber := by
  induction steps generalizing parent with
  | nil => cases h
  | cons step steps ih =>
      -- The room left shrinks with the steps left, so it is there for every step.
      have hlt : parent.path.depth < Path.maxDepth := by
        rw [List.length_cons] at room
        omega
      rw [List.foldlM_cons] at h
      rcases child_cases step hlt with ⟨key, hkey, hsegments⟩ | hrefused
      · rw [hkey] at h
        have room' : key.path.depth + steps.length ≤ Path.maxDepth := by
          rw [Path.depth, hsegments, List.length_append, List.length_singleton]
          rw [Path.depth, List.length_cons] at room
          omega
        obtain ⟨other, hmem, he⟩ := ih room' h
        exact ⟨other, List.mem_cons_of_mem _ hmem, he⟩
      · rw [hrefused] at h
        cases h
        exact ⟨step, List.mem_cons_self, rfl⟩

theorem copy_eq (key : ExtendedPrivateKey) : key.copy = .ok key := by
  rw [copy, PrivateKey.ofBytes_bytes]

theorem result_descend_of_isPrefixOf {key : ExtendedPrivateKey} {target : Path}
    (h : key.path.isPrefixOf target = true) :
    (key.descend target).result = (target.segments.drop key.path.depth).foldlM child key := by
  rw [descend, Path.suffixIn_of_isPrefixOf h]
  cases hfold : (target.segments.drop key.path.depth).foldlM child key <;> simp [hfold, copy_eq]

theorem result_descend_of_not_isPrefixOf {key : ExtendedPrivateKey} {target : Path}
    (h : key.path.isPrefixOf target = false) :
    (key.descend target).result = .error (.unreachable key.path.text target.text) := by
  rw [descend, Path.suffixIn_of_not_isPrefixOf h]
  rfl

/-- A descent that arrives reports the depth of its target and its steps; one that fails reports
nothing. -/
theorem descend_cases (key : ExtendedPrivateKey) (target : Path) :
    (∃ steps descendant, target.depth = key.path.depth + steps ∧
      key.descend target = ⟨[.derived target.depth steps], .ok descendant⟩) ∨
    ∃ e, key.descend target = ⟨[], .error e⟩ := by
  cases hprefix : key.path.isPrefixOf target with
  | false =>
      rw [descend, Path.suffixIn_of_not_isPrefixOf hprefix]
      exact Or.inr ⟨_, rfl⟩
  | true =>
      have hdepth : target.depth =
          key.path.depth + (target.segments.drop key.path.depth).length := by
        rw [List.length_drop]
        exact (Nat.add_sub_cancel' (Path.depth_le_of_isPrefixOf hprefix)).symm
      rw [descend, Path.suffixIn_of_isPrefixOf hprefix]
      generalize target.segments.drop key.path.depth = steps at hdepth
      -- The event stands before the copy is made, and making a copy does not fail.
      simp only [copy_eq, ite_self]
      cases steps.foldlM child key with
      | error e => exact Or.inr ⟨e, rfl⟩
      | ok descendant => exact Or.inl ⟨steps.length, descendant, hdepth, rfl⟩

end ExtendedPrivateKey

theorem KeyTree.result_below (root : ExtendedPrivateKey) (target : Path) :
    (below root target).result = (root.descend target).result.map ExtendedPrivateKey.key := by
  rw [below, Traced.result_bind]
  cases (root.descend target).result <;> rfl

/-- A tree reports what the descent reports. -/
theorem KeyTree.events_below (root : ExtendedPrivateKey) (target : Path) :
    (below root target).events = (root.descend target).events := by
  rcases root.descend_cases target with ⟨steps, key, -, h⟩ | ⟨e, h⟩
  · rw [below, h]
    rfl
  · rw [below, h]
    rfl

/-- At the place of its root, under any labels, a tree holds the root. -/
theorem KeyTree.result_below_of_childNumbers_eq {root : ExtendedPrivateKey} {target : Path}
    (h : root.path.childNumbers = target.childNumbers) :
    (below root target).result = .ok root.key := by
  have here : root.path.isPrefixOf target = true := Path.isPrefixOf_iff.2 (h ▸ List.prefix_refl _)
  have depth : target.segments.length = root.path.depth := by
    simpa [Path.childNumbers, Path.depth] using (congrArg List.length h).symm
  rw [result_below, ExtendedPrivateKey.result_descend_of_isPrefixOf here, ← depth, List.drop_length]
  rfl

end SealedMail
