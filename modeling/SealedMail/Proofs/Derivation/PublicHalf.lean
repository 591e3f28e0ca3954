import SealedMail.Proofs.Curve.Tweaks
import SealedMail.Proofs.Derivation.Descent

/-!
# Descending with the public half

The public half of an extended private key finds the public halves of its normal descendants. One
normal step commutes with taking the public half (`child_toPublic`), failures included, so a whole
descent does (`foldlM_child_toPublic`). Main statement: `descend_toPublic`, which also says what the
public half answers off the path and below a hardened step.
-/

namespace SealedMail.ExtendedPrivateKey

/-- A normal step commutes with taking the public half. -/
theorem child_toPublic {parent : ExtendedPrivateKey} {segment : Segment}
    (normal : segment.hardened = false) :
    parent.toPublic.child segment = (parent.child segment).map toPublic := by
  simp only [ExtendedPublicKey.child, child, toPublic, childMessage, normal]
  cases parent.path.child segment with
  | error e => rfl
  | ok path =>
      -- A tweak is accepted on both sides or refused on both.
      rcases parent.key.offsetBy_cases (Split.ofHash parent.chainCode.bytes
        (normalMessage parent.key.publicKey segment.childNumber)).tweak with
        ⟨-, hprivate, hpublic⟩ | ⟨-, -, hprivate, hpublic⟩ | ⟨sum, -, -, hprivate, hpublic⟩
      · simp [hprivate, hpublic]
      · simp [hprivate, hpublic]
      · simp [hprivate, hpublic, toPublic]

/-- Normal steps commute with taking the public half. -/
theorem foldlM_child_toPublic {steps : List Segment} {parent : ExtendedPrivateKey}
    (normal : ∀ step ∈ steps, step.hardened = false) :
    steps.foldlM ExtendedPublicKey.child parent.toPublic =
      (steps.foldlM child parent).map toPublic := by
  induction steps generalizing parent with
  | nil => rfl
  | cons step steps ih =>
      have hstep := normal step List.mem_cons_self
      have hsteps : ∀ other ∈ steps, other.hardened = false := by
        intro other hmem
        exact normal other (List.mem_cons_of_mem _ hmem)
      rw [List.foldlM_cons, List.foldlM_cons, child_toPublic hstep]
      cases parent.child step with
      | error e => rfl
      | ok key => exact ih hsteps

/-- What the public half finds at a target, against what the private key finds there. Off the path
both fail alike. Through normal steps the public half finds the public half of what the private key
finds, or fails at the same child number. Below a hardened step it fails for that reason, whatever
comes before the step. -/
theorem descend_toPublic (key : ExtendedPrivateKey) (target : Path) :
    (key.path.isPrefixOf target = false →
      key.toPublic.descend target = .error (.unreachable key.path.text target.text) ∧
        (key.descend target).result = .error (.unreachable key.path.text target.text)) ∧
    (key.path.isPrefixOf target = true →
      (∀ step ∈ target.segments.drop key.path.depth, step.hardened = false) →
        key.toPublic.descend target = (key.descend target).result.map toPublic ∧
          ∀ e, (key.descend target).result = .error e →
            ∃ step ∈ target.segments.drop key.path.depth, e = .noChild step.childNumber) ∧
    (key.path.isPrefixOf target = true →
      (∃ step ∈ target.segments.drop key.path.depth, step.hardened = true) →
        key.toPublic.descend target = .error (.hardenedChild target.text)) := by
  refine ⟨?_, ?_, ?_⟩
  · intro off
    have off' : key.toPublic.path.suffixIn target = none := Path.suffixIn_of_not_isPrefixOf off
    refine ⟨?_, result_descend_of_not_isPrefixOf off⟩
    rw [ExtendedPublicKey.descend, off']
    rfl
  · intro below normal
    have found : key.toPublic.path.suffixIn target =
        some (target.segments.drop key.path.depth) := Path.suffixIn_of_isPrefixOf below
    have none_hardened : (target.segments.drop key.path.depth).any Segment.hardened = false := by
      simpa using normal
    constructor
    · rw [ExtendedPublicKey.descend, found, result_descend_of_isPrefixOf below]
      simp only [none_hardened]
      exact foldlM_child_toPublic normal
    · -- The target is within the depth limit, so no other failure is left.
      intro e he
      rw [result_descend_of_isPrefixOf below] at he
      exact exists_noChild_of_foldlM_child (Path.depth_add_length_drop below) he
  · intro below hardened
    have found : key.toPublic.path.suffixIn target =
        some (target.segments.drop key.path.depth) := Path.suffixIn_of_isPrefixOf below
    have some_hardened : (target.segments.drop key.path.depth).any Segment.hardened = true :=
      List.any_eq_true.2 hardened
    rw [ExtendedPublicKey.descend, found]
    simp only [some_hardened, if_true]

/-- From the key `7` at `m/1'`: a normal grandchild, and a hardened step below a normal one. -/
theorem descend_toPublic_below_hardened_path :
    let key : ExtendedPrivateKey :=
      ⟨⟨⟨7, by decide⟩⟩, .ofNat 32 5, ⟨[⟨none, 1, true, by decide⟩], by decide⟩⟩
    let grandchild : Path :=
      ⟨[⟨some "a", 1, true, by decide⟩, ⟨none, 0, false, by decide⟩, ⟨none, 2, false, by decide⟩],
        by decide⟩
    let hardened : Path :=
      ⟨[⟨none, 1, true, by decide⟩, ⟨none, 0, false, by decide⟩, ⟨none, 2, true, by decide⟩],
        by decide⟩
    (key.path.isPrefixOf grandchild = true ∧
      (∀ step ∈ grandchild.segments.drop key.path.depth, step.hardened = false) ∧
      key.toPublic.descend grandchild = (key.descend grandchild).result.map toPublic) ∧
    (key.path.isPrefixOf hardened = true ∧
      (∃ step ∈ hardened.segments.drop key.path.depth, step.hardened = true) ∧
      key.toPublic.descend hardened = .error (.hardenedChild hardened.text)) := by
  intro key grandchild hardened
  have below : key.path.isPrefixOf grandchild = true := by decide
  have normal : ∀ step ∈ grandchild.segments.drop key.path.depth, step.hardened = false := by
    decide
  have below' : key.path.isPrefixOf hardened = true := by decide
  have some_hardened : ∃ step ∈ hardened.segments.drop key.path.depth, step.hardened = true := by
    decide
  exact ⟨⟨below, normal, ((descend_toPublic key grandchild).2.1 below normal).1⟩,
    ⟨below', some_hardened, (descend_toPublic key hardened).2.2 below' some_hardened⟩⟩

end SealedMail.ExtendedPrivateKey
