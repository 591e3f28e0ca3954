import SealedMail.Proofs.Derivation.Descent

/-!
# Runs of derivations

Extended private keys and extended public keys derive alike. What a step does is stated once for
both, as a `Lineage`: a child stands one step below its parent, and its content, the key and the
chain code, follows from the content of the parent and the child number. What children have from
their parents, descendants have (`Lineage.of_descend`). A run of derivations, each to a child or to
a descendant, is one descent (`Lineage.descend_of_reaches`), and a descent by way of a place in
between agrees with the descent at once (`Lineage.agree_descend`): the labels differ on the two
ways, the child numbers do not (`Lineage.agree_foldlM_child`). Main statement:
`descend_path_independent`.
-/

namespace SealedMail

/-- What the extended keys of one kind have in common. A key has a place in the tree and a content,
and `Allows` says which steps such keys can take, whatever the label. With depth left, the content
of a child follows from that of the parent and the number, and only a refused number is in the way.
A descent runs the steps of the target below the key, and nothing else is one. -/
structure Lineage (κ ν : Type) where
  path : κ → Path
  content : κ → ν
  child : κ → Segment → Except DerivationError κ
  descend : κ → Path → Except DerivationError κ
  Allows : Segment → Prop
  allows_congr {step step' : Segment} : step.childNumber = step'.childNumber →
    Allows step → Allows step'
  segments_child {parent key : κ} {step : Segment} : child parent step = .ok key →
    Allows step ∧ (path key).segments = (path parent).segments ++ [step]
  content_child {a b : κ} {step step' : Segment} : Allows step →
    (path a).depth < Path.maxDepth → (path b).depth < Path.maxDepth →
    content a = content b → step.childNumber = step'.childNumber →
      (child a step).map content = (child b step').map content
  child_error {parent : κ} {step : Segment} {e : DerivationError} : Allows step →
    (path parent).depth < Path.maxDepth → child parent step = .error e →
      e = .noChild step.childNumber
  descend_eq {key : κ} {target : Path} : (path key).isPrefixOf target = true →
    (∀ step ∈ target.segments.drop (path key).depth, Allows step) →
      descend key target = (target.segments.drop (path key).depth).foldlM child key
  below_of_descend {key found : κ} {target : Path} : descend key target = .ok found →
    (path key).isPrefixOf target = true ∧
      ∀ step ∈ target.segments.drop (path key).depth, Allows step

namespace Lineage

variable {κ ν : Type} (kind : Lineage κ ν)

/-- One derivation from a key, of a child or of a descendant. -/
inductive Step (parent key : κ) : Prop where
  | child (segment : Segment) (h : kind.child parent segment = .ok key)
  | descend (target : Path) (h : kind.descend parent target = .ok key)

/-- A finite run of derivations ends in a key. -/
abbrev Reaches : κ → κ → Prop := Relation.ReflTransGen kind.Step

/-- Both results are keys with the same content, or both are the refusal of the same number. -/
def Agree (first second : Except DerivationError κ) : Prop :=
  (∃ key key', first = .ok key ∧ second = .ok key' ∧ kind.content key = kind.content key') ∨
    ∃ number, first = .error (.noChild number) ∧ second = .error (.noChild number)

variable {kind}

/-! ## Steps one after another -/

theorem depth_child {parent key : κ} {step : Segment} (h : kind.child parent step = .ok key) :
    (kind.path key).depth = (kind.path parent).depth + 1 := by
  rw [Path.depth, (kind.segments_child h).2, List.length_append, List.length_singleton, Path.depth]

theorem segments_foldlM_child {steps : List Segment} {parent key : κ}
    (h : steps.foldlM kind.child parent = .ok key) :
    (∀ step ∈ steps, kind.Allows step) ∧
      (kind.path key).segments = (kind.path parent).segments ++ steps := by
  induction steps generalizing parent with
  | nil =>
      cases h
      simp
  | cons step steps ih =>
      rw [List.foldlM_cons] at h
      obtain ⟨next, hnext, h⟩ := bind_eq_ok_iff.1 h
      obtain ⟨allowed, hsegments⟩ := kind.segments_child hnext
      obtain ⟨allowed', hsegments'⟩ := ih h
      refine ⟨List.forall_mem_cons.2 ⟨allowed, allowed'⟩, ?_⟩
      rw [hsegments', hsegments, List.append_assoc, List.singleton_append]

/-- Steps with the same numbers lead from the same content to the same content, or stop at the same
number. -/
theorem agree_foldlM_child {steps steps' : List Segment} {a b : κ}
    (allowed : ∀ step ∈ steps, kind.Allows step) (content : kind.content a = kind.content b)
    (room : (kind.path a).depth + steps.length ≤ Path.maxDepth)
    (room' : (kind.path b).depth + steps.length ≤ Path.maxDepth)
    (numbers : steps.map Segment.childNumber = steps'.map Segment.childNumber) :
    kind.Agree (steps.foldlM kind.child a) (steps'.foldlM kind.child b) := by
  -- On the steps of both runs at once; equal contents carry over from one child to the next.
  induction steps generalizing steps' a b with
  | nil =>
      obtain rfl : steps' = [] := by simpa using numbers.symm
      exact Or.inl ⟨a, b, rfl, rfl, content⟩
  | cons step steps ih =>
      rcases steps' with _ | ⟨step', steps'⟩
      · simp at numbers
      · obtain ⟨number, numbers⟩ := List.cons.inj numbers
        obtain ⟨hallowed, allowed⟩ := List.forall_mem_cons.1 allowed
        rw [List.length_cons] at room room'
        have same := kind.content_child hallowed (by omega) (by omega) content number
        rw [List.foldlM_cons, List.foldlM_cons]
        cases ha : kind.child a step with
        | error e =>
            -- The only failure left is the refused number, which is the same for both.
            obtain rfl := kind.child_error hallowed (by omega) ha
            cases hb : kind.child b step' with
            | ok d => simp [ha, hb] at same
            | error e =>
                simp only [ha, hb, map_error, Except.error.injEq] at same
                subst same
                exact Or.inr ⟨_, rfl, rfl⟩
        | ok c =>
            cases hb : kind.child b step' with
            | error e => simp [ha, hb] at same
            | ok d =>
                simp only [ha, hb, map_ok, Except.ok.injEq] at same
                have hc := depth_child ha
                have hd := depth_child hb
                exact ih allowed same (by omega) (by omega) numbers

/-! ## Runs -/

/-- Steps that succeed are the descent to the place that they lead to. -/
theorem descend_of_foldlM_child {steps : List Segment} {parent key : κ}
    (h : steps.foldlM kind.child parent = .ok key) :
    kind.descend parent (kind.path key) = .ok key := by
  obtain ⟨allowed, hsegments⟩ := segments_foldlM_child h
  have below := Path.drop_of_segments hsegments
  rw [kind.descend_eq (Path.isPrefixOf_of_segments hsegments) (below.symm ▸ allowed), below, h]

theorem exists_steps_of_step {parent key : κ} (h : kind.Step parent key) :
    ∃ steps : List Segment, steps.foldlM kind.child parent = .ok key := by
  cases h with
  | child segment h => exact ⟨[segment], by rw [List.foldlM_cons, h]; rfl⟩
  | descend target h =>
      obtain ⟨below, allowed⟩ := kind.below_of_descend h
      exact ⟨_, (kind.descend_eq below allowed).symm.trans h⟩

/-- A run takes steps one after another. -/
theorem exists_steps_of_reaches {start key : κ} (h : kind.Reaches start key) :
    ∃ steps : List Segment, steps.foldlM kind.child start = .ok key := by
  induction h with
  | refl => exact ⟨[], rfl⟩
  | tail _ hstep ih =>
      obtain ⟨steps, hsteps⟩ := ih
      obtain ⟨more, hmore⟩ := exists_steps_of_step hstep
      exact ⟨steps ++ more, by rw [List.foldlM_append, hsteps, ok_bind, hmore]⟩

theorem of_foldlM_child {P : κ → Prop}
    (kept : ∀ {parent step key}, P parent → kind.child parent step = .ok key → P key)
    {steps : List Segment} {start key : κ} (hstart : P start)
    (h : steps.foldlM kind.child start = .ok key) : P key := by
  induction steps generalizing start with
  | nil =>
      cases h
      exact hstart
  | cons step steps ih =>
      rw [List.foldlM_cons] at h
      obtain ⟨next, hnext, h⟩ := bind_eq_ok_iff.1 h
      exact ih (kept hstart hnext) h

/-- What every child has from its parent, every descendant has. -/
theorem of_descend (kind : Lineage κ ν) {P : κ → Prop}
    (kept : ∀ {parent step key}, P parent → kind.child parent step = .ok key → P key)
    {start key : κ} {target : Path} (hstart : P start)
    (h : kind.descend start target = .ok key) : P key := by
  obtain ⟨steps, hsteps⟩ := exists_steps_of_step (.descend target h)
  exact of_foldlM_child kept hstart hsteps

/-- The end of a run is one descent away from the start. -/
theorem descend_of_reaches {start key : κ} (h : kind.Reaches start key) :
    kind.descend start (kind.path key) = .ok key := by
  obtain ⟨steps, hsteps⟩ := exists_steps_of_reaches h
  exact descend_of_foldlM_child hsteps

/-! ## Descents in two stages -/

theorem allows_of_numbers {steps steps' : List Segment}
    (numbers : steps.map Segment.childNumber = steps'.map Segment.childNumber)
    (allowed : ∀ step ∈ steps, kind.Allows step) : ∀ step ∈ steps', kind.Allows step := by
  intro step hmem
  have number : step.childNumber ∈ steps.map Segment.childNumber :=
    numbers ▸ List.mem_map_of_mem hmem
  obtain ⟨other, hother, same⟩ := List.mem_map.1 number
  exact kind.allows_congr same (allowed other hother)

theorem segments_descend {start key : κ} {target : Path} (h : kind.descend start target = .ok key) :
    (kind.path key).segments =
      (kind.path start).segments ++ target.segments.drop (kind.path start).depth := by
  obtain ⟨below, allowed⟩ := kind.below_of_descend h
  rw [kind.descend_eq below allowed] at h
  exact (segments_foldlM_child h).2

/-- A descent ends at the child numbers of its target, under labels of its own. -/
theorem childNumbers_descend {start key : κ} {target : Path}
    (h : kind.descend start target = .ok key) :
    (kind.path key).childNumbers = target.childNumbers := by
  rw [Path.childNumbers_of_isPrefixOf (kind.below_of_descend h).1, Path.childNumbers,
    segments_descend h, List.map_append, Path.childNumbers]

theorem depth_descend {start key : κ} {target : Path} (h : kind.descend start target = .ok key) :
    (kind.path key).depth = target.depth := by
  rw [← Path.length_childNumbers, childNumbers_descend h, Path.length_childNumbers]

/-- A descent by way of a place in between takes the steps to that place and then those from there
to the target. -/
theorem descend_bind_descend {start : κ} {middle target : Path}
    (hmiddle : (kind.path start).isPrefixOf middle = true)
    (htarget : middle.isPrefixOf target = true)
    (allowed : ∀ step ∈ target.segments.drop (kind.path start).depth, kind.Allows step) :
    (kind.descend start middle >>= fun key => kind.descend key target) =
      (middle.segments.drop (kind.path start).depth ++
        target.segments.drop middle.depth).foldlM kind.child start := by
  have allowed' := allows_of_numbers (Path.numbers_between hmiddle htarget) allowed
  obtain ⟨front, back⟩ := List.forall_mem_append.1 allowed'
  rw [List.foldlM_append, ← kind.descend_eq hmiddle front]
  cases hfront : kind.descend start middle with
  | error e => rfl
  | ok key =>
      have depth := depth_descend hfront
      have below : (kind.path key).isPrefixOf target = true := by
        rw [Path.isPrefixOf, childNumbers_descend hfront]
        exact htarget
      rw [ok_bind, ok_bind, ← depth]
      exact kind.descend_eq below (depth ▸ back)

/-- A descent at once and a descent in two stages agree. -/
theorem agree_descend {start : κ} {middle target : Path}
    (hmiddle : (kind.path start).isPrefixOf middle = true)
    (htarget : middle.isPrefixOf target = true)
    (allowed : ∀ step ∈ target.segments.drop (kind.path start).depth, kind.Allows step) :
    kind.Agree (kind.descend start target)
      (kind.descend start middle >>= fun key => kind.descend key target) := by
  have below := Path.isPrefixOf_trans hmiddle htarget
  have room := Path.depth_add_length_drop below
  rw [kind.descend_eq below allowed, descend_bind_descend hmiddle htarget allowed]
  exact agree_foldlM_child allowed rfl room room (Path.numbers_between hmiddle htarget)

end Lineage

/-! ## The two kinds -/

namespace ExtendedPrivateKey

/-- A child has its parent's key with a tweak added and one more step. -/
theorem of_child {parent key : ExtendedPrivateKey} {step : Segment}
    (h : parent.child step = .ok key) :
    (∃ tweak, parent.key.offsetBy tweak = .ok key.key) ∧
      parent.path.child step = .ok key.path := by
  obtain ⟨path, hpath, h⟩ := bind_eq_ok_iff.1 h
  dsimp only at h
  split at h <;> cases h
  exact ⟨⟨_, ‹_›⟩, hpath⟩

theorem segments_of_child {parent key : ExtendedPrivateKey} {step : Segment}
    (h : parent.child step = .ok key) :
    key.path.segments = parent.path.segments ++ [step] :=
  Path.segments_of_child (of_child h).2

theorem map_content_child {a b : ExtendedPrivateKey} {step step' : Segment}
    (room : a.path.depth < Path.maxDepth) (room' : b.path.depth < Path.maxDepth)
    (content : (a.key, a.chainCode) = (b.key, b.chainCode))
    (number : step.childNumber = step'.childNumber) :
    (a.child step).map (fun key => (key.key, key.chainCode)) =
      (b.child step').map fun key => (key.key, key.chainCode) := by
  obtain ⟨path, hpath, -⟩ := Path.child_of_lt step room
  obtain ⟨path', hpath', -⟩ := Path.child_of_lt step' room'
  obtain ⟨hkey, hchainCode⟩ := Prod.mk.inj content
  have message : a.childMessage step = b.childMessage step' := by
    rw [childMessage, childMessage, Segment.hardened_eq_of_childNumber_eq number, hkey, number]
  simp only [child, hpath, hpath', ok_bind, message, hkey, hchainCode, number]
  cases b.key.offsetBy (Split.ofHash b.chainCode.bytes (b.childMessage step')).tweak <;> rfl

/-- Private keys take every step. -/
def lineage : Lineage ExtendedPrivateKey (PrivateKey × Octets 32) where
  path := path
  content key := (key.key, key.chainCode)
  child := child
  descend key target := (key.descend target).result
  Allows _ := True
  allows_congr _ _ := trivial
  segments_child h := ⟨trivial, segments_of_child h⟩
  content_child _ := map_content_child
  child_error {parent step e} _ room h := by
    rcases child_cases step room with ⟨key, hkey, -⟩ | hrefused
    · simp [hkey] at h
    · rw [hrefused] at h
      exact (Except.error.inj h).symm
  descend_eq below _ := result_descend_of_isPrefixOf below
  below_of_descend {key found target} h := by
    refine ⟨?_, fun _ _ => trivial⟩
    by_contra off
    rw [result_descend_of_not_isPrefixOf (Bool.eq_false_iff.2 off)] at h
    cases h

end ExtendedPrivateKey

namespace ExtendedPublicKey

/-- A child is normal, and has its parent's key with a tweak added and one more step. -/
theorem of_child {parent key : ExtendedPublicKey} {step : Segment}
    (h : parent.child step = .ok key) :
    step.hardened = false ∧ (∃ tweak, parent.key.offsetBy tweak = .ok key.key) ∧
      parent.path.child step = .ok key.path := by
  obtain ⟨path, hpath, h⟩ := bind_eq_ok_iff.1 h
  split at h
  · cases h
  · rename_i normal
    dsimp only at h
    split at h <;> cases h
    exact ⟨Bool.eq_false_iff.2 normal, ⟨_, ‹_›⟩, hpath⟩

theorem child_eq_ok {parent key : ExtendedPublicKey} {step : Segment}
    (h : parent.child step = .ok key) :
    step.hardened = false ∧ key.path.segments = parent.path.segments ++ [step] := by
  obtain ⟨normal, -, hpath⟩ := of_child h
  exact ⟨normal, Path.segments_of_child hpath⟩

theorem map_content_child {a b : ExtendedPublicKey} {step step' : Segment}
    (normal : step.hardened = false)
    (room : a.path.depth < Path.maxDepth) (room' : b.path.depth < Path.maxDepth)
    (content : (a.key, a.chainCode) = (b.key, b.chainCode))
    (number : step.childNumber = step'.childNumber) :
    (a.child step).map (fun key => (key.key, key.chainCode)) =
      (b.child step').map fun key => (key.key, key.chainCode) := by
  obtain ⟨path, hpath, -⟩ := Path.child_of_lt step room
  obtain ⟨path', hpath', -⟩ := Path.child_of_lt step' room'
  obtain ⟨hkey, hchainCode⟩ := Prod.mk.inj content
  have normal' : step'.hardened = false :=
    Segment.hardened_eq_of_childNumber_eq number ▸ normal
  simp only [child, hpath, hpath', ok_bind, normal, normal', hkey, hchainCode, number]
  cases b.key.offsetBy
    (Split.ofHash b.chainCode.bytes (normalMessage b.key step'.childNumber)).tweak <;> simp

/-- Public keys take the normal steps. -/
def lineage : Lineage ExtendedPublicKey (PublicKey × Octets 32) where
  path := path
  content key := (key.key, key.chainCode)
  child := child
  descend := descend
  Allows step := step.hardened = false
  allows_congr number normal := Segment.hardened_eq_of_childNumber_eq number ▸ normal
  segments_child := child_eq_ok
  content_child := map_content_child
  child_error {parent step e} normal room h := by
    obtain ⟨path, hpath, -⟩ := Path.child_of_lt step room
    simp only [child, hpath, ok_bind, normal, Bool.false_eq_true, if_false] at h
    split at h <;> cases h
    rfl
  descend_eq {key target} below normal := by
    have none_hardened : (target.segments.drop key.path.depth).any Segment.hardened = false := by
      simpa using normal
    rw [descend, Path.suffixIn_of_isPrefixOf below]
    simp [none_hardened]
  below_of_descend {key found target} h := by
    unfold descend at h
    split at h
    · cases h
    · rename_i steps hsteps
      split_ifs at h with hhardened
      unfold Path.suffixIn at hsteps
      split at hsteps <;> cases hsteps
      exact ⟨‹_›, by simpa using hhardened⟩

end ExtendedPublicKey

/-! ## Path independence -/

/-- What is found below an extended key does not depend on the way. A run of derivations ends in
exactly the key that one descent to its place finds. A descent by way of any place in between agrees
with the descent at once: the same key and chain code, or the same refused child number. This holds
for private keys, and for public keys over normal steps. -/
theorem descend_path_independent :
    (∀ start key : ExtendedPrivateKey, ExtendedPrivateKey.lineage.Reaches start key →
      (start.descend key.path).result = .ok key) ∧
    (∀ (start : ExtendedPrivateKey) (middle target : Path),
      start.path.isPrefixOf middle = true → middle.isPrefixOf target = true →
        ExtendedPrivateKey.lineage.Agree (start.descend target).result
          ((start.descend middle).result >>= fun key => (key.descend target).result)) ∧
    (∀ start key : ExtendedPublicKey, ExtendedPublicKey.lineage.Reaches start key →
      start.descend key.path = .ok key) ∧
    (∀ (start : ExtendedPublicKey) (middle target : Path),
      start.path.isPrefixOf middle = true → middle.isPrefixOf target = true →
      (∀ step ∈ target.segments.drop start.path.depth, step.hardened = false) →
        ExtendedPublicKey.lineage.Agree (start.descend target)
          (start.descend middle >>= fun key => key.descend target)) := by
  refine ⟨?_, ?_, ?_, ?_⟩
  · intro start key run
    exact Lineage.descend_of_reaches run
  · intro start middle target hmiddle htarget
    exact Lineage.agree_descend hmiddle htarget fun _ _ => trivial
  · intro start key run
    exact Lineage.descend_of_reaches run
  · intro start middle target hmiddle htarget normal
    exact Lineage.agree_descend hmiddle htarget normal

/-- From the key `7` at `m/a:1'`: a hardened child, a descendant of it, and that key once more under
other labels. From the generator at the root: a normal child. -/
theorem descend_path_independent_below_labels :
    let start : ExtendedPrivateKey :=
      ⟨⟨⟨7, by decide⟩⟩, .ofNat 32 5, ⟨[⟨some "a", 1, true, by decide⟩], by decide⟩⟩
    let half : ExtendedPublicKey := ⟨PublicKey.generator, .ofNat 32 5, Path.root⟩
    let middle : Path :=
      ⟨[⟨none, 1, true, by decide⟩, ⟨some "b", 2, true, by decide⟩], by decide⟩
    let target : Path := ⟨[⟨some "c", 1, true, by decide⟩, ⟨none, 2, true, by decide⟩,
      ⟨none, 3, true, by decide⟩], by decide⟩
    let account : Path := ⟨[⟨some "d", 4, false, by decide⟩], by decide⟩
    let address : Path := ⟨[⟨none, 4, false, by decide⟩, ⟨none, 0, false, by decide⟩], by decide⟩
    (∃ key, ExtendedPrivateKey.lineage.Reaches start key ∧ key.path.depth = 3 ∧
      (start.descend key.path).result = .ok key) ∧
    (start.path.isPrefixOf middle = true ∧ middle.isPrefixOf target = true ∧
      ExtendedPrivateKey.lineage.Agree (start.descend target).result
        ((start.descend middle).result >>= fun key => (key.descend target).result)) ∧
    (∃ key, ExtendedPublicKey.lineage.Reaches half key ∧ key.path.depth = 1 ∧
      half.descend key.path = .ok key) ∧
    (half.path.isPrefixOf account = true ∧ account.isPrefixOf address = true ∧
      (∀ step ∈ address.segments.drop half.path.depth, step.hardened = false) ∧
      ExtendedPublicKey.lineage.Agree (half.descend address)
        (half.descend account >>= fun key => key.descend address)) := by
  intro start half middle target account address
  let step : Segment := ⟨some "b", 2, true, by decide⟩
  have run : (start.child step >>= fun first => (first.descend target).result >>= fun second =>
      (second.descend target).result).toOption.map (fun key => key.path.depth) = some 3 := by
    decide +kernel
  have account_found :
      (half.descend account).toOption.map (fun key => key.path.depth) = some 1 := by
    decide +kernel
  obtain ⟨key, hrun, hdepth⟩ := exists_eq_ok_of_map_eq_some run
  obtain ⟨first, hfirst, hrun⟩ := bind_eq_ok_iff.1 hrun
  obtain ⟨second, hsecond, hkey⟩ := bind_eq_ok_iff.1 hrun
  obtain ⟨found, hfound, hdepth'⟩ := exists_eq_ok_of_map_eq_some account_found
  have reached : ExtendedPrivateKey.lineage.Reaches start key :=
    ((Relation.ReflTransGen.single (.child step hfirst)).tail (.descend target hsecond)).tail
      (.descend target hkey)
  have reached' : ExtendedPublicKey.lineage.Reaches half found :=
    Relation.ReflTransGen.single (.descend account hfound)
  have hmiddle : start.path.isPrefixOf middle = true := by decide
  have htarget : middle.isPrefixOf target = true := by decide
  have haccount : half.path.isPrefixOf account = true := by decide
  have haddress : account.isPrefixOf address = true := by decide
  have normal : ∀ step ∈ address.segments.drop half.path.depth, step.hardened = false := by decide
  obtain ⟨runs, stages, public_runs, public_stages⟩ := descend_path_independent
  exact ⟨⟨key, reached, hdepth, runs _ _ reached⟩,
    ⟨hmiddle, htarget, stages _ _ _ hmiddle htarget⟩,
    ⟨found, reached', hdepth', public_runs _ _ reached'⟩,
    ⟨haccount, haddress, normal, public_stages _ _ _ haccount haddress normal⟩⟩

end SealedMail
