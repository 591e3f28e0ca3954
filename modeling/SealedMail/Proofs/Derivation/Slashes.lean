import SealedMail.Derivation.KeyTree
import SealedMail.Derivation.PathDocument
import SealedMail.Message.Sealer
import SealedMail.Proofs.Derivation.Lineage
import SealedMail.Proofs.Derivation.Spelling

/-!
# Slashes in labels

A step takes any text as its label, and the label is printed as it is. A printed segment spells no
segment but itself (`Segment.eq_of_spells_chars`), so a label without a slash is either refused by
the reader or read back. A slash in a label starts another segment: a path that is read has as many
steps as its text has slashes (`Path.depth_of_parse`), more than the path that was printed
(`Path.count_slash_chars`). Main statement: `Path.parse_text_of_slashes`.
-/

namespace SealedMail

namespace Segment

/-- The slashes in the label. -/
def slashes (segment : Segment) : ℕ := (labelChars segment.label).count '/'

theorem labelChars_injective {a b : Option String} (h : labelChars a = labelChars b) : a = b := by
  cases a with
  | none => cases b <;> simp_all [labelChars]
  | some a =>
      cases b with
      | none => simp [labelChars] at h
      | some b => rw [String.toList_inj.1 (List.append_cancel_right h)]

theorem slashes_eq_zero_iff {segment : Segment} :
    segment.slashes = 0 ↔ ∀ label ∈ segment.label, '/' ∉ label.toList := by
  rw [slashes, List.count_eq_zero]
  cases segment.label <;> simp [labelChars]

theorem count_slash_chars (segment : Segment) : segment.chars.count '/' = segment.slashes := by
  have behind : '/' ∉ Nat.toDigits 10 segment.index ++ markerChars segment.hardened :=
    not_mem_of_decimal rfl rfl (isCut_chars segment).decimal (spellsMarker_markerChars _)
  rw [chars_eq, List.count_append, List.count_eq_zero.2 behind, slashes, Nat.add_zero]

theorem SpellsMarker.eq_of_markerChars {printed hardened : Bool}
    (h : SpellsMarker (markerChars printed) hardened) : hardened = printed := by
  cases printed with
  | false =>
      cases h
      rfl
  | true =>
      cases h
      rfl

/-- A printed segment spells no other segment, whatever its label. -/
theorem eq_of_spells_chars {segment found : Segment} (h : Spells segment.chars found) :
    found = segment := by
  obtain ⟨digits, back, cut, value, marker⟩ := h.exists_isCut
  obtain ⟨hlabel, rfl, rfl⟩ := (isCut_chars segment).unique cut
  have label : found.label = segment.label := labelChars_injective hlabel.symm
  have index : found.index = segment.index := by rw [← value, Nat.ofDigitChars_ten_toDigits]
  have hardened : found.hardened = segment.hardened := marker.eq_of_markerChars
  obtain ⟨label₁, index₁, hardened₁, _⟩ := found
  obtain ⟨label₂, index₂, hardened₂, _⟩ := segment
  cases label
  cases index
  cases hardened
  rfl

end Segment

namespace Path

/-- The slashes in all labels. -/
def slashes (path : Path) : ℕ := (path.segments.map Segment.slashes).sum

/-- No label has a slash. -/
def IsUnslashed (path : Path) : Prop :=
  ∀ segment ∈ path.segments, ∀ label ∈ segment.label, '/' ∉ label.toList

theorem slashes_eq_zero_iff {path : Path} : path.slashes = 0 ↔ path.IsUnslashed := by
  rw [slashes, List.sum_eq_zero_iff, List.forall_mem_map]
  exact forall₂_congr fun segment _ => Segment.slashes_eq_zero_iff

/-- A path is printed with a slash for each step, and those in the labels. -/
theorem count_slash_chars (path : Path) : path.chars.count '/' = path.depth + path.slashes := by
  rw [chars_eq_intercalate, intercalate_cons, List.count_append, depth, slashes]
  induction path.segments with
  | nil => rfl
  | cons segment segments ih =>
      simp only [List.map_cons, List.flatMap_cons, List.count_append, List.count_cons_self,
        Segment.count_slash_chars, List.length_cons, List.sum_cons] at ih ⊢
      omega

theorem length_splitOn (c : Char) (chars : List Char) :
    (chars.splitOn c).length = chars.count c + 1 := by
  induction chars with
  | nil => rfl
  | cons first chars ih =>
      rw [List.splitOn_cons_eq_if_modifyHead, List.count_cons]
      split_ifs with hfirst
      · rw [List.length_cons, ih]
      · rw [List.length_modifyHead, ih, Nat.add_zero]

/-- A path that is read has a step for each slash of the text. -/
theorem depth_of_parse {text : String} {path : Path} (h : parse text = .ok path) :
    path.depth = text.toList.count '/' := by
  obtain ⟨parts, hsplit, each⟩ := (parse_eq_ok_iff.1 h).exists_parts
  have length := length_splitOn '/' text.toList
  rw [hsplit, List.length_cons, each.length_eq] at length
  exact Nat.succ.inj length

/-- A path is printed and read back one step deeper for each slash in a label. -/
theorem depth_of_parse_text {path found : Path} (h : parse path.text = .ok found) :
    found.depth = path.depth + path.slashes := by
  rw [depth_of_parse h, text, String.toList_ofList, count_slash_chars]

/-- Without slashes in its labels, a path is read back from its text or refused. -/
theorem eq_of_parse_text {path found : Path} (unslashed : path.IsUnslashed)
    (h : parse path.text = .ok found) : found = path := by
  have whole : ∀ segment ∈ path.segments, '/' ∉ segment.chars := by
    intro segment hmem
    rw [← List.count_eq_zero, Segment.count_slash_chars]
    exact Segment.slashes_eq_zero_iff.2 (unslashed segment hmem)
  obtain ⟨parts, hsplit, each⟩ := (parse_eq_ok_iff.1 h).exists_parts
  rw [text, String.toList_ofList, splitOn_chars whole] at hsplit
  obtain rfl := (List.cons.inj hsplit).2
  rw [List.forall₂_map_left_iff] at each
  have same : List.Forall₂ (fun segment other => segment = other) path.segments found.segments :=
    each.imp fun _ _ spells => (Segment.eq_of_spells_chars spells).symm
  exact segments_injective (List.forall₂_eq_eq_eq ▸ same).symm

/-- Where a printed path leads. A path that is read back from its text has the child numbers of the
path that was printed exactly if no label has a slash, and then it is that path; otherwise it is
deeper. The same holds for the value of a path in a document. Without slashes in the labels of its
place, the text that addresses a key derived from a root is refused or leads the root to that
key. -/
theorem parse_text_of_slashes (path : Path) :
    (∀ found, parse path.text = .ok found →
      (found.childNumbers = path.childNumbers ↔ path.IsUnslashed) ∧
      (found = path ↔ path.IsUnslashed) ∧ found.depth = path.depth + path.slashes) ∧
    (∀ found, ofDocument path.toDocument = .ok found →
      (found.childNumbers = path.childNumbers ↔ path.IsUnslashed)) ∧
    (∀ (sender : PrivateKey) (root key : ExtendedPrivateKey) (found : Path),
      ExtendedPrivateKey.lineage.Reaches root key → key.path = path → path.IsUnslashed →
      parse (Sealer.forExtended sender key.toPublic).receiverPath = .ok found →
        (KeyTree.below root found).result = .ok key.key) := by
  -- Each slash adds a segment, so equal child numbers leave room for none.
  have numbers {found : Path} (h : parse path.text = .ok found) :
      found.childNumbers = path.childNumbers ↔ path.IsUnslashed := by
    constructor
    · intro same
      have depth := depth_of_parse_text h
      rw [← length_childNumbers, same, length_childNumbers] at depth
      exact slashes_eq_zero_iff.1 (by omega)
    · intro unslashed
      rw [eq_of_parse_text unslashed h]
  refine ⟨fun found h => ⟨numbers h, ?_, depth_of_parse_text h⟩, ?_, ?_⟩
  · constructor
    · rintro rfl
      exact (numbers h).1 rfl
    · intro unslashed
      exact eq_of_parse_text unslashed h
  · intro found h
    exact numbers (mapError_eq_ok_iff.1 h)
  · rintro sender root key found run rfl unslashed h
    have reached : (root.descend key.path).result = .ok key := Lineage.descend_of_reaches run
    rw [eq_of_parse_text unslashed h, KeyTree.result_below, reached, map_ok]

/-- A label with a slash, and the key of a labelled child of the key `5`. -/
theorem parse_text_of_slashes_in_label :
    let path : Path := ⟨[⟨some "1/x", 5, false, by decide⟩], by decide⟩
    let found : Path := ⟨[⟨none, 1, false, by decide⟩, ⟨some "x", 5, false, by decide⟩], by decide⟩
    let sender : PrivateKey := ⟨⟨7, by decide⟩⟩
    let root : ExtendedPrivateKey := ⟨⟨⟨5, by decide⟩⟩, .ofNat 32 0, Path.root⟩
    parse path.text = .ok found ∧ path.slashes = 1 ∧ found.depth = path.depth + path.slashes ∧
      found.childNumbers ≠ path.childNumbers ∧ ofDocument path.toDocument = .ok found ∧
      ∃ key place, ExtendedPrivateKey.lineage.Reaches root key ∧ key.path.IsUnslashed ∧
        key.path.text = "m/a:5'" ∧
        parse (Sealer.forExtended sender key.toPublic).receiverPath = .ok place ∧
        (KeyTree.below root place).result = .ok key.key := by
  intro path found sender root
  obtain ⟨texts, documents, -⟩ := parse_text_of_slashes path
  have parsed : parse path.text = .ok found := by decide +kernel
  have stored : ofDocument path.toDocument = .ok found := by decide +kernel
  have slashed : path.slashes = 1 := by decide +kernel
  have astray : ¬ path.IsUnslashed := fun h => by
    rw [slashes_eq_zero_iff.2 h] at slashed
    cases slashed
  have run : (root.child ⟨some "a", 5, true, by decide⟩).toOption.map (fun key => key.path.text) =
      some "m/a:5'" := by
    decide +kernel
  obtain ⟨key, hkey, htext⟩ := exists_eq_ok_of_map_eq_some run
  have reached : ExtendedPrivateKey.lineage.Reaches root key := .single (.child _ hkey)
  have unslashed : key.path.IsUnslashed := by
    have segments := ExtendedPrivateKey.segments_of_child hkey
    simp [IsUnslashed, segments, root, Path.root]
  have place : parse key.path.text = .ok ⟨[⟨some "a", 5, true, by decide⟩], by decide⟩ := by
    rw [htext]
    decide +kernel
  obtain ⟨-, -, keys⟩ := parse_text_of_slashes key.path
  exact ⟨parsed, slashed, (texts _ parsed).2.2, fun h => astray ((documents _ stored).1 h), stored,
    key, _, reached, unslashed, htext, place, keys sender root key _ reached rfl unslashed place⟩

/-- The printed place of a child of the key `5` is read as the place of another key. -/
theorem parse_text_leads_astray :
    let root : ExtendedPrivateKey := ⟨⟨⟨5, by decide⟩⟩, .ofNat 32 0, Path.root⟩
    ∃ step key found other, (Segment.ofIndex 5 false).map (·.withLabel "1/x") = .ok step ∧
      root.child step = .ok key ∧ key.path.childNumbers = [5] ∧
      parse key.path.text = .ok found ∧ found.childNumbers = [1, 5] ∧
      (KeyTree.below root found).result = .ok other ∧ other ≠ key.key := by
  intro root
  let found : Path := ⟨[⟨none, 1, false, by decide⟩, ⟨some "x", 5, false, by decide⟩], by decide⟩
  have run : ((root.child ⟨some "1/x", 5, false, by decide⟩) >>= fun key =>
      (KeyTree.below root found).result.map fun other => (key, other)).toOption.map
        (fun pair => (pair.1.path.childNumbers, parse pair.1.path.text, pair.2 == pair.1.key)) =
      some ([5], .ok found, false) := by
    decide +kernel
  obtain ⟨⟨key, other⟩, hrun, hpair⟩ := exists_eq_ok_of_map_eq_some run
  obtain ⟨key', hkey, hfound⟩ := bind_eq_ok_iff.1 hrun
  obtain ⟨other', hother, same⟩ := map_eq_ok_iff.1 hfound
  obtain ⟨rfl, rfl⟩ := Prod.mk.inj same
  obtain ⟨numbers, hpair⟩ := Prod.mk.inj hpair
  obtain ⟨parsed, different⟩ := Prod.mk.inj hpair
  exact ⟨_, key', found, other', rfl, hkey, numbers, parsed, rfl, hother, by simpa using different⟩

end Path

end SealedMail
