import SealedMail.Derivation.KeyTree
import SealedMail.Proofs.Derivation.Lineage

/-!
# Labels take no part in derivation

Two extended keys are the same up to labels if they have the same content and stand at the same
child numbers. Descents from such keys to targets with the same child numbers agree
(`SameUpToLabels.agree_descend`), so a key tree below an extended key finds the same key at paths
with the same child numbers (`KeyTree.ignoresLabels_below`). Labels only reach the path of what is
found. Main statement: `descend_ignores_labels`.
-/

namespace SealedMail

/-- Paths with the same child numbers lead to the same key. -/
def KeyTree.IgnoresLabels (keys : KeyTree) : Prop :=
  ∀ path other receiver, path.childNumbers = other.childNumbers →
    (keys path).result = .ok receiver → (keys other).result = .ok receiver

namespace ExtendedPrivateKey

/-- The same key and chain code, at a place with the same child numbers. -/
structure SameUpToLabels (a b : ExtendedPrivateKey) : Prop where
  key_eq : a.key = b.key
  chainCode_eq : a.chainCode = b.chainCode
  childNumbers_eq : a.path.childNumbers = b.path.childNumbers

namespace SameUpToLabels

variable {a b : ExtendedPrivateKey} {target target' : Path}

theorem refl (a : ExtendedPrivateKey) : a.SameUpToLabels a := ⟨rfl, rfl, rfl⟩

theorem depth_eq (h : a.SameUpToLabels b) : a.path.depth = b.path.depth := by
  rw [← Path.length_childNumbers, h.childNumbers_eq, Path.length_childNumbers]

/-- Both targets are below the keys or neither is. -/
theorem isPrefixOf_eq (h : a.SameUpToLabels b)
    (numbers : target.childNumbers = target'.childNumbers) :
    a.path.isPrefixOf target = b.path.isPrefixOf target' := by
  rw [Path.isPrefixOf, Path.isPrefixOf, h.childNumbers_eq, numbers]

/-- Below keys that are the same up to labels, the same child numbers lead to the same content or
are refused at the same number. -/
theorem agree_descend (h : a.SameUpToLabels b)
    (numbers : target.childNumbers = target'.childNumbers)
    (below : a.path.isPrefixOf target = true) :
    lineage.Agree (a.descend target).result (b.descend target').result := by
  have content : lineage.content a = lineage.content b := Prod.ext h.key_eq h.chainCode_eq
  have steps : (target.segments.drop a.path.depth).map Segment.childNumber =
      (target'.segments.drop b.path.depth).map Segment.childNumber := by
    rw [List.map_drop, List.map_drop, ← h.depth_eq]
    exact congrArg (List.drop a.path.depth) numbers
  have room := Path.depth_add_length_drop below
  rw [result_descend_of_isPrefixOf below,
    result_descend_of_isPrefixOf (h.isPrefixOf_eq numbers ▸ below)]
  exact Lineage.agree_foldlM_child (fun _ _ => trivial) content room (h.depth_eq ▸ room) steps

end SameUpToLabels

end ExtendedPrivateKey

/-- The tree below an extended key ignores labels. -/
theorem KeyTree.ignoresLabels_below (root : ExtendedPrivateKey) : (below root).IgnoresLabels := by
  intro path other receiver numbers h
  rw [result_below] at h ⊢
  obtain ⟨found, hfound, rfl⟩ := map_eq_ok_iff.1 h
  have below : root.path.isPrefixOf path = true :=
    (ExtendedPrivateKey.lineage.below_of_descend hfound).1
  rcases (ExtendedPrivateKey.SameUpToLabels.refl root).agree_descend numbers below with
    ⟨key, key', hkey, hkey', content⟩ | ⟨number, hrefused, -⟩
  · obtain rfl := Except.ok.inj (hfound.symm.trans hkey)
    rw [hkey', map_ok]
    exact congrArg Except.ok (Prod.mk.inj content).1.symm
  · cases hfound.symm.trans hrefused

namespace ExtendedPrivateKey

/-- Labels take no part in derivation. From keys that are the same up to labels, descents to targets
with the same child numbers find the same key and chain code, or are both off the path, or are both
refused at the same child number. What is found stands at the steps of the start followed by exactly
the steps of the target below it, and so at the child numbers and the depth of the target. A descent
fails for no other cause than these: it runs neither out of depth nor into an unreadable key. -/
theorem descend_ignores_labels (start : ExtendedPrivateKey) (target : Path) :
    (∀ (other : ExtendedPrivateKey) (target' : Path), start.SameUpToLabels other →
      target.childNumbers = target'.childNumbers →
        (∃ key key', (start.descend target).result = .ok key ∧
          (other.descend target').result = .ok key' ∧ key.SameUpToLabels key') ∨
        ((start.descend target).result = .error (.unreachable start.path.text target.text) ∧
          (other.descend target').result = .error (.unreachable other.path.text target'.text)) ∨
        ∃ number, (start.descend target).result = .error (.noChild number) ∧
          (other.descend target').result = .error (.noChild number)) ∧
    (∀ key, (start.descend target).result = .ok key →
      key.path.segments = start.path.segments ++ target.segments.drop start.path.depth ∧
        key.path.childNumbers = target.childNumbers ∧ key.path.depth = target.depth) ∧
    ∀ e, (start.descend target).result = .error e →
      start.path.isPrefixOf target = false ∧ e = .unreachable start.path.text target.text ∨
        start.path.isPrefixOf target = true ∧
          ∃ step ∈ target.segments.drop start.path.depth, e = .noChild step.childNumber := by
  refine ⟨fun other target' same numbers => ?_, fun key found => ?_, fun e refused => ?_⟩
  · cases below : start.path.isPrefixOf target with
    | false =>
        have off := same.isPrefixOf_eq numbers ▸ below
        exact Or.inr (Or.inl ⟨result_descend_of_not_isPrefixOf below,
          result_descend_of_not_isPrefixOf off⟩)
    | true =>
        rcases same.agree_descend numbers below with
          ⟨key, key', hkey, hkey', content⟩ | ⟨number, hrefused, hrefused'⟩
        · obtain ⟨key_eq, chainCode_eq⟩ := Prod.mk.inj content
          -- Each of the two stands at the child numbers of its own target.
          have place : key.path.childNumbers = target.childNumbers :=
            lineage.childNumbers_descend hkey
          have place' : key'.path.childNumbers = target'.childNumbers :=
            lineage.childNumbers_descend hkey'
          exact Or.inl ⟨key, key', hkey, hkey', key_eq, chainCode_eq, by
            rw [place, place', numbers]⟩
        · exact Or.inr (Or.inr ⟨number, hrefused, hrefused'⟩)
  · have found' : lineage.descend start target = .ok key := found
    exact ⟨lineage.segments_descend found', lineage.childNumbers_descend found',
      lineage.depth_descend found'⟩
  · cases below : start.path.isPrefixOf target with
    | false =>
        rw [result_descend_of_not_isPrefixOf below] at refused
        exact Or.inl ⟨rfl, (Except.error.inj refused).symm⟩
    | true =>
        rw [result_descend_of_isPrefixOf below] at refused
        have room := Path.depth_add_length_drop below
        exact Or.inr ⟨rfl, exists_noChild_of_foldlM_child room refused⟩

/-- The key `7` at `m/a:1'` and at `m/1'`, with targets one hardened step below that are labelled in
other places, and a target off the path. -/
theorem descend_ignores_labels_of_other_labels :
    let start : ExtendedPrivateKey :=
      ⟨⟨⟨7, by decide⟩⟩, .ofNat 32 5, ⟨[⟨some "a", 1, true, by decide⟩], by decide⟩⟩
    let other : ExtendedPrivateKey :=
      ⟨⟨⟨7, by decide⟩⟩, .ofNat 32 5, ⟨[⟨none, 1, true, by decide⟩], by decide⟩⟩
    let target : Path :=
      ⟨[⟨some "b", 1, true, by decide⟩, ⟨some "1/x", 2, true, by decide⟩], by decide⟩
    let target' : Path := ⟨[⟨none, 1, true, by decide⟩, ⟨none, 2, true, by decide⟩], by decide⟩
    let aside : Path := ⟨[⟨some "a", 1, false, by decide⟩], by decide⟩
    start.SameUpToLabels other ∧ target.childNumbers = target'.childNumbers ∧
    (∃ key key', (start.descend target).result = .ok key ∧
      (other.descend target').result = .ok key' ∧ key.SameUpToLabels key' ∧
      key.path.segments =
        [⟨some "a", 1, true, by decide⟩, ⟨some "1/x", 2, true, by decide⟩]) ∧
    (start.descend aside).result = .error (.unreachable "m/a:1'" "m/a:1") ∧
    start.path.isPrefixOf aside = false := by
  intro start other target target' aside
  have same : start.SameUpToLabels other := ⟨rfl, rfl, by decide⟩
  have numbers : target.childNumbers = target'.childNumbers := by decide
  have succeeds : (start.descend target).result.toOption.isSome = true := by decide +kernel
  obtain ⟨key, hkey⟩ := exists_eq_ok_of_isSome succeeds
  obtain ⟨two_runs, places, -⟩ := descend_ignores_labels start target
  have off : (start.descend aside).result = .error (.unreachable "m/a:1'" "m/a:1") := by
    decide +kernel
  obtain ⟨-, -, causes⟩ := descend_ignores_labels start aside
  refine ⟨same, numbers, ?_, off, ?_⟩
  · rcases two_runs other target' same numbers with
      ⟨found, found', hfound, hfound', agree⟩ | ⟨hoff, -⟩ | ⟨number, hrefused, -⟩
    · exact ⟨found, found', hfound, hfound', agree, (places found hfound).1⟩
    · cases hkey.symm.trans hoff
    · cases hkey.symm.trans hrefused
  · rcases causes _ off with ⟨outside, -⟩ | ⟨-, step, -, hstep⟩
    · exact outside
    · cases hstep

end ExtendedPrivateKey

end SealedMail
