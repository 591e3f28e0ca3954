import Mathlib
import SealedMail.Derivation.PathText
import SealedMail.Proofs.Sequencing

/-!
# The grammar of path texts

How a path may be spelled, said without the reader. A segment is an optional label with a colon,
decimal digits, and an optional marker (`Segment.Spells`). A path is `m` alone, or `m`, a slash and
at most 255 segments with slashes between them (`Path.Spells`). A label is grammatical if it is not
empty and consists of label characters (`Segment.isGrammaticalLabel`).

Exactly the spelled texts are read, as the steps that they spell (`Segment.read_eq_ok_iff`,
`Path.readSegments_eq_ok_iff`). The depth is checked before the next part is looked at, so a text is
too deep exactly if its first 255 parts are spelled and another part follows, whatever that is
(`Path.readSegments_eq_tooDeep_iff`). Main statement: `Path.parse_grammar`.
-/

namespace SealedMail

namespace Segment

/-- A label that is not empty and consists of label characters. -/
def isGrammaticalLabel (label : String) : Bool :=
  !label.toList.isEmpty && label.toList.all isLabelChar

/-- The label, if there is one, is grammatical. -/
def isGrammatical (segment : Segment) : Bool := segment.label.all isGrammaticalLabel

/-- What stands before the digits: nothing, or a label of letters, digits, `_` and `-` and then a
colon. -/
inductive SpellsLabel : List Char → Option String → Prop
  | unlabelled : SpellsLabel [] none
  | labelled {label : String} (nonempty : label.toList ≠ [])
      (allowed : ∀ c ∈ label.toList, c.isAlphanum = true ∨ c = '_' ∨ c = '-') :
      SpellsLabel (label.toList ++ [':']) (some label)

/-- What stands behind the digits: nothing, or one of the markers of a hardened step. -/
inductive SpellsMarker : List Char → Bool → Prop
  | unmarked : SpellsMarker [] false
  | marked {c : Char} (marker : c ∈ ['\'', 'h', 'H']) : SpellsMarker [c] true

/-- The characters spell the step: its label, its index below `2³¹` in decimal with any number of
leading zeros, and its marker. -/
inductive Spells : List Char → Segment → Prop
  | intro {front digits back : List Char} {segment : Segment}
      (label : SpellsLabel front segment.label) (nonempty : digits ≠ [])
      (decimal : ∀ c ∈ digits, c.isDigit = true)
      (value : Nat.ofDigitChars 10 digits 0 = segment.index) (small : segment.index < 2 ^ 31)
      (marker : SpellsMarker back segment.hardened) :
      Spells (front ++ (digits ++ back)) segment

/-! ## The parts of a segment -/

theorem isGrammaticalLabel_iff {label : String} :
    isGrammaticalLabel label = true ↔
      label.toList ≠ [] ∧ ∀ c ∈ label.toList, c.isAlphanum = true ∨ c = '_' ∨ c = '-' := by
  simp [isGrammaticalLabel, isLabelChar, or_assoc]

theorem isMarker_iff {c : Char} : isMarker c = true ↔ c ∈ ['\'', 'h', 'H'] := by
  simp [isMarker, or_assoc]

theorem SpellsLabel.isGrammaticalLabel {front : List Char} {label : Option String}
    (h : SpellsLabel front label) : label.all isGrammaticalLabel = true := by
  cases h with
  | unlabelled => rfl
  | labelled nonempty allowed => exact isGrammaticalLabel_iff.2 ⟨nonempty, allowed⟩

theorem SpellsLabel.slash_not_mem {front : List Char} {label : Option String}
    (h : SpellsLabel front label) : '/' ∉ front := by
  cases h with
  | unlabelled => simp
  | labelled nonempty allowed =>
      intro hslash
      rcases List.mem_append.1 hslash with hmem | hmem
      · exact absurd (allowed _ hmem) (by decide)
      · simp at hmem

theorem SpellsMarker.isMarker {back : List Char} {hardened : Bool}
    (h : SpellsMarker back hardened) : ∀ c ∈ back, isMarker c = true := by
  cases h with
  | unmarked => simp
  | marked marker => simpa using isMarker_iff.2 marker

/-- Neither digits nor markers separate anything. -/
theorem not_mem_of_decimal {c : Char} {digits back : List Char} {hardened : Bool}
    (hdigit : c.isDigit = false) (hmarker : Segment.isMarker c = false)
    (decimal : ∀ c ∈ digits, c.isDigit = true) (marker : SpellsMarker back hardened) :
    c ∉ digits ++ back := by
  intro h
  rcases List.mem_append.1 h with h | h
  · cases hdigit.symm.trans (decimal c h)
  · cases hmarker.symm.trans (marker.isMarker c h)

theorem spellsLabel_of_readLabel {part rest : List Char} {label : Option String}
    (h : readLabel part = .ok (label, rest)) :
    ∃ front, SpellsLabel front label ∧ part = front ++ rest := by
  have cut : part.takeWhile (· != ':') ++ part.dropWhile (· != ':') = part :=
    List.takeWhile_append_dropWhile
  rw [readLabel, List.span_eq_takeWhile_dropWhile] at h
  split at h
  · cases h
    exact ⟨[], .unlabelled, rfl⟩
  · rename_i front c behind hspan
    obtain ⟨rfl, hbehind⟩ := Prod.mk.inj hspan
    -- What stops the label is a colon.
    have colon : c = ':' := by
      have := List.head_dropWhile_not (· != ':') (l := part) (by simp [hbehind])
      simpa [hbehind] using this
    split_ifs at h with hempty hall
    cases h
    subst colon
    have grammatical : isGrammaticalLabel (String.ofList (part.takeWhile (· != ':'))) = true := by
      simp [isGrammaticalLabel, hempty, hall]
    obtain ⟨nonempty, allowed⟩ := isGrammaticalLabel_iff.1 grammatical
    refine ⟨_, .labelled nonempty allowed, ?_⟩
    rw [String.toList_ofList, List.append_assoc, List.singleton_append, ← hbehind, cut]

theorem readLabel_of_spellsLabel {front rest : List Char} {label : Option String}
    (h : SpellsLabel front label) (hrest : ':' ∉ rest) :
    readLabel (front ++ rest) = .ok (label, rest) := by
  have other {c : Char} (hc : c ≠ ':') : (c != ':') = true := by simpa using hc
  cases h with
  | unlabelled =>
      have all : ∀ c ∈ rest, (c != ':') = true := fun c hc => other (ne_of_mem_of_not_mem hc hrest)
      rw [List.nil_append, readLabel, List.span_eq_takeWhile_dropWhile,
        List.takeWhile_eq_self_iff.2 all, List.dropWhile_eq_nil_iff.2 all]
  | @labelled label nonempty allowed =>
      have before : ∀ c ∈ label.toList, (c != ':') = true := by
        intro c hc
        apply other
        rintro rfl
        exact absurd (allowed _ hc) (by decide)
      have all : label.toList.all isLabelChar = true := by
        simpa [isLabelChar, or_assoc] using allowed
      rw [List.append_assoc, List.singleton_append, readLabel, List.span_eq_takeWhile_dropWhile,
        List.takeWhile_append_of_pos before, List.dropWhile_append_of_pos before]
      simp [nonempty, all]

theorem spellsMarker_of_splitMarker {rest digits : List Char} {hardened : Bool}
    (h : splitMarker rest = (digits, hardened)) :
    ∃ back, SpellsMarker back hardened ∧ rest = digits ++ back := by
  unfold splitMarker at h
  split at h
  · rename_i c hlast
    split_ifs at h with marker <;> cases h
    · exact ⟨[c], .marked (isMarker_iff.1 marker), (List.dropLast_append_getLast? c hlast).symm⟩
    · exact ⟨[], .unmarked, (List.append_nil rest).symm⟩
  · cases h
    exact ⟨[], .unmarked, (List.append_nil rest).symm⟩

theorem isMarker_of_isDigit {c : Char} (h : c.isDigit = true) : isMarker c = false := by
  by_contra hmarker
  have marker : c ∈ ['\'', 'h', 'H'] := isMarker_iff.1 (by simpa using hmarker)
  simp only [List.mem_cons, List.not_mem_nil, or_false] at marker
  rcases marker with rfl | rfl | rfl <;> cases h

theorem splitMarker_of_spellsMarker {digits back : List Char} {hardened : Bool}
    (h : SpellsMarker back hardened) (nonempty : digits ≠ [])
    (decimal : ∀ c ∈ digits, c.isDigit = true) :
    splitMarker (digits ++ back) = (digits, hardened) := by
  cases h with
  | unmarked =>
      have unmarked := isMarker_of_isDigit (decimal _ (List.getLast_mem nonempty))
      simp [splitMarker, List.getLast?_eq_some_getLast nonempty, unmarked]
  | marked marker => simp [splitMarker, isMarker_iff.2 marker]

/-- An index is read exactly from digits with its value. -/
theorem readIndex_eq_ok_iff {rest digits : List Char} {index : Fin hardenedOffset} :
    readIndex rest digits = .ok index ↔
      digits ≠ [] ∧ (∀ c ∈ digits, c.isDigit = true) ∧ Nat.ofDigitChars 10 digits 0 = index := by
  have hlt := index.isLt
  have digits_iff : (digits.isEmpty || !digits.all Char.isDigit) = false ↔
      digits ≠ [] ∧ ∀ c ∈ digits, c.isDigit = true := by simp
  unfold readIndex
  cases hdigits : digits.isEmpty || !digits.all Char.isDigit with
  | true =>
      simp only [if_true, reduceCtorEq, false_iff]
      rintro ⟨nonempty, decimal, -⟩
      cases hdigits.symm.trans (digits_iff.2 ⟨nonempty, decimal⟩)
  | false =>
      obtain ⟨nonempty, decimal⟩ := digits_iff.1 hdigits
      have small : (index : ℕ) < 0x100000000 := hlt.trans (by decide)
      simp only [Bool.false_eq_true, if_false]
      -- A value of more than 32 bits, one of 32 bits, and one that is an index.
      split_ifs with hlarge hfits
      · refine iff_of_false (by simp) ?_
        rintro ⟨-, -, value⟩
        omega
      · rw [Except.ok.injEq, Fin.ext_iff]
        exact ⟨fun value => ⟨nonempty, decimal, value⟩, fun h => h.2.2⟩
      · refine iff_of_false (by simp) ?_
        rintro ⟨-, -, value⟩
        exact hfits (value ▸ hlt)

/-- Exactly the characters that spell a segment are read as that segment. -/
theorem read_eq_ok_iff {part : List Char} {segment : Segment} :
    read part = .ok segment ↔ Spells part segment := by
  constructor
  · -- Of the branches of the reader only the last one accepts.
    intro h
    unfold read at h
    split at h
    · cases h
    split at h
    · cases h
    rename_i label rest hlabel
    rcases hsplit : splitMarker rest with ⟨digits, hardened⟩
    simp only [hsplit] at h
    split at h
    · cases h
    rename_i index hindex
    cases h
    obtain ⟨front, hfront, rfl⟩ := spellsLabel_of_readLabel hlabel
    obtain ⟨back, hback, rfl⟩ := spellsMarker_of_splitMarker hsplit
    obtain ⟨nonempty, decimal, value⟩ := readIndex_eq_ok_iff.1 hindex
    exact .intro hfront nonempty decimal value index.isLt hback
  · intro h
    cases h with
    | @intro front digits back _ label nonempty decimal value small marker =>
      have unseparated : ':' ∉ digits ++ back := not_mem_of_decimal rfl rfl decimal marker
      have index : readIndex (digits ++ back) digits = .ok ⟨segment.index, segment.index_lt⟩ :=
        readIndex_eq_ok_iff.2 ⟨nonempty, decimal, value⟩
      simp [read, nonempty, readLabel_of_spellsLabel label unseparated,
        splitMarker_of_spellsMarker marker nonempty decimal, index]

theorem Spells.isGrammatical {part : List Char} {segment : Segment} (h : Spells part segment) :
    segment.isGrammatical = true := by
  cases h with
  | intro label => exact label.isGrammaticalLabel

theorem Spells.slash_not_mem {part : List Char} {segment : Segment} (h : Spells part segment) :
    '/' ∉ part := by
  cases h with
  | intro label nonempty decimal value small marker =>
    rw [List.mem_append, not_or]
    exact ⟨label.slash_not_mem, not_mem_of_decimal rfl rfl decimal marker⟩

end Segment

namespace Path

/-- The characters spell the steps of a path. -/
inductive Spells : List Char → List Segment → Prop
  | root : Spells ['m'] []
  | below {parts : List (List Char)} {segments : List Segment} (nonempty : parts ≠ [])
      (fits : parts.length ≤ 255) (each : List.Forall₂ Segment.Spells parts segments) :
      Spells ('m' :: '/' :: ['/'].intercalate parts) segments

/-- The characters spell 255 steps, as many as a path can have, and go on with another part. -/
inductive Overflows : List Char → Prop
  | intro {parts : List (List Char)} (separated : ∀ part ∈ parts, '/' ∉ part)
      (deep : 255 < parts.length)
      (each : ∀ part ∈ parts.take 255, ∃ segment, Segment.Spells part segment) :
      Overflows ('m' :: '/' :: ['/'].intercalate parts)

/-! ## Parts between slashes -/

theorem not_mem_of_mem_splitOn {c : Char} {chars part : List Char} (h : part ∈ chars.splitOn c) :
    c ∉ part := by
  induction chars generalizing part with
  | nil =>
      obtain rfl : part = [] := by simpa using h
      simp
  | cons first chars ih =>
      rw [List.splitOn_eq_splitOnP, List.splitOnP_cons_eq_if_modifyHead,
        ← List.splitOn_eq_splitOnP] at h
      split_ifs at h with hfirst
      · rcases List.mem_cons.1 h with rfl | h
        · simp
        · exact ih h
      · -- The first part grows by a character that does not separate.
        obtain ⟨head, others, hcut⟩ := List.exists_cons_of_ne_nil (List.splitOn_ne_nil c chars)
        rw [hcut, List.modifyHead_cons] at h
        rcases List.mem_cons.1 h with rfl | h
        · have hhead : c ∉ head := ih (hcut ▸ List.mem_cons_self)
          have hne : c ≠ first := fun e => hfirst (by simp [e])
          simp [hne, hhead]
        · exact ih (hcut ▸ List.mem_cons_of_mem _ h)

theorem splitOn_intercalate_of_forall₂ {parts : List (List Char)} {segments : List Segment}
    (h : List.Forall₂ Segment.Spells parts segments) (nonempty : parts ≠ []) :
    (['/'].intercalate parts).splitOn '/' = parts := by
  apply List.splitOn_intercalate _ _ nonempty
  intro part hpart
  induction h with
  | nil => cases hpart
  | cons hspells _ ih =>
      rcases List.mem_cons.1 hpart with rfl | hpart
      · exact hspells.slash_not_mem
      · exact ih (List.ne_nil_of_mem hpart) hpart

theorem readSegments_eq_ok_iff {path : String} {room : ℕ} {parts : List (List Char)}
    {segments : List Segment} :
    readSegments path room parts = .ok segments ↔
      parts.length ≤ room ∧ List.Forall₂ Segment.Spells parts segments := by
  -- The parts are read from the left, and each of them takes one step of the room.
  fun_induction readSegments path room parts generalizing segments with
  | case1 room => simp [eq_comm]
  | case2 part parts => simp
  | case3 room part parts fault hread =>
      have unread : ∀ segment, ¬ Segment.Spells part segment := by
        intro segment h
        cases hread.symm.trans (Segment.read_eq_ok_iff.2 h)
      refine iff_of_false (by simp) ?_
      rintro ⟨-, h⟩
      cases h with
      | cons hspells => exact unread _ hspells
  | case4 room part parts segment hread ih =>
      have spells : Segment.Spells part segment := Segment.read_eq_ok_iff.1 hread
      constructor
      · intro h
        obtain ⟨others, hothers, rfl⟩ := map_eq_ok_iff.1 h
        obtain ⟨fits, each⟩ := ih.1 hothers
        exact ⟨Nat.succ_le_succ fits, .cons spells each⟩
      · rintro ⟨fits, h⟩
        cases h with
        | @cons _ found _ others hspells each =>
          obtain rfl : segment = found :=
            Except.ok.inj (hread.symm.trans (Segment.read_eq_ok_iff.2 hspells))
          rw [ih.2 ⟨Nat.le_of_succ_le_succ fits, each⟩, map_ok]

/-- The depth is exceeded exactly by one part too many, behind as many segments as fit. -/
theorem readSegments_eq_tooDeep_iff {path : String} {room : ℕ} {parts : List (List Char)} :
    readSegments path room parts = .error (.tooDeep maxDepth) ↔
      room < parts.length ∧ ∀ part ∈ parts.take room, ∃ segment, Segment.Spells part segment := by
  fun_induction readSegments path room parts with
  | case1 room => simp
  | case2 part parts => simp
  | case3 room part parts fault hread =>
      refine iff_of_false (by simp) ?_
      rintro ⟨-, each⟩
      obtain ⟨segment, h⟩ := each part (by simp)
      cases hread.symm.trans (Segment.read_eq_ok_iff.2 h)
  | case4 room part parts segment hread ih =>
      have spells : Segment.Spells part segment := Segment.read_eq_ok_iff.1 hread
      rw [map_eq_error_iff, ih, List.take_succ_cons, List.forall_mem_cons, List.length_cons]
      simp only [Nat.succ_lt_succ_iff]
      exact ⟨fun h => ⟨h.1, ⟨segment, spells⟩, h.2⟩, fun h => ⟨h.1, h.2.2⟩⟩

/-- Segments are read, or there are too many, or one of them is malformed. -/
theorem readSegments_cases (path : String) (room : ℕ) (parts : List (List Char)) :
    (∃ segments, readSegments path room parts = .ok segments) ∨
      readSegments path room parts = .error (.tooDeep maxDepth) ∨
      ∃ fault, readSegments path room parts = .error (.malformedPath path fault) := by
  fun_induction readSegments path room parts with
  | case1 room => exact Or.inl ⟨[], rfl⟩
  | case2 part parts => exact Or.inr (Or.inl rfl)
  | case3 room part parts fault hread => exact Or.inr (Or.inr ⟨fault, rfl⟩)
  | case4 room part parts segment hread ih =>
      rcases ih with ⟨segments, h⟩ | h | ⟨fault, h⟩
      · exact Or.inl ⟨segment :: segments, by rw [h, map_ok]⟩
      · exact Or.inr (Or.inl (by rw [h, map_error]))
      · exact Or.inr (Or.inr ⟨fault, by rw [h, map_error]⟩)

/-! ## Paths -/

theorem spells_below_iff {rest : List Char} {steps : List Segment} :
    Spells ('m' :: '/' :: rest) steps ↔
      (rest.splitOn '/').length ≤ maxDepth ∧
        List.Forall₂ Segment.Spells (rest.splitOn '/') steps := by
  constructor
  · generalize htext : 'm' :: '/' :: rest = chars
    intro h
    cases h with
    | root => cases htext
    | below nonempty fits each =>
        cases htext
        rw [splitOn_intercalate_of_forall₂ each nonempty]
        exact ⟨fits, each⟩
  · rintro ⟨fits, each⟩
    have spells := Spells.below (List.splitOn_ne_nil '/' rest) fits each
    rwa [List.intercalate_splitOn] at spells

theorem overflows_below_iff {rest : List Char} :
    Overflows ('m' :: '/' :: rest) ↔
      maxDepth < (rest.splitOn '/').length ∧
        ∀ part ∈ (rest.splitOn '/').take maxDepth, ∃ segment, Segment.Spells part segment := by
  constructor
  · generalize htext : 'm' :: '/' :: rest = chars
    intro h
    cases h with
    | @intro parts separated deep each =>
        cases htext
        have nonempty : parts ≠ [] := List.ne_nil_of_length_pos (Nat.zero_lt_of_lt deep)
        rw [List.splitOn_intercalate _ separated nonempty]
        exact ⟨deep, each⟩
  · rintro ⟨deep, each⟩
    have overflows := Overflows.intro (fun _ => not_mem_of_mem_splitOn) deep each
    rwa [List.intercalate_splitOn] at overflows

/-- A text is that of the root, or it goes on behind a slash, or it is malformed. -/
theorem parse_cases (text : String) :
    (text.toList = ['m'] ∧ parse text = .ok root) ∨
    (∃ rest, text.toList = 'm' :: '/' :: rest ∧
      (parse text).map segments = readSegments text maxDepth (rest.splitOn '/')) ∨
    (text.toList ≠ ['m'] ∧ (∀ rest, text.toList ≠ 'm' :: '/' :: rest) ∧
      ∃ fault, parse text = .error (.malformedPath text fault)) := by
  unfold parse
  split
  · rename_i hroot
    exact Or.inl ⟨hroot, rfl⟩
  · rename_i rest hrest
    refine Or.inr (Or.inl ⟨rest, hrest, ?_⟩)
    split <;> rename_i hread
    · exact hread.symm
    · exact hread.symm
  · rename_i tail more noSlash htail
    refine Or.inr (Or.inr ⟨?_, ?_, _, rfl⟩)
    · intro h
      exact more (List.cons.inj (htail.symm.trans h)).2
    · intro rest h
      exact noSlash rest (List.cons.inj (htail.symm.trans h)).2
  · rename_i noRoot
    refine Or.inr (Or.inr ⟨fun h => noRoot _ h, fun rest h => noRoot _ h, _, rfl⟩)

/-- Exactly the texts that spell steps are read, as the path with these steps. -/
theorem map_segments_parse_eq_ok_iff {text : String} {steps : List Segment} :
    (parse text).map segments = .ok steps ↔ Spells text.toList steps := by
  rcases parse_cases text with ⟨hroot, hparse⟩ | ⟨rest, hrest, hparse⟩ |
    ⟨notRoot, notBelow, fault, hparse⟩
  · rw [hroot, hparse, map_ok, Except.ok.injEq]
    constructor
    · rintro rfl
      exact .root
    · intro h
      cases h
      rfl
  · rw [hrest, hparse, readSegments_eq_ok_iff, spells_below_iff]
  · rw [hparse]
    refine iff_of_false (by simp) ?_
    generalize htext : text.toList = chars
    intro h
    cases h with
    | root => exact notRoot htext
    | below => exact notBelow _ htext

/-- Spelled labels are grammatical. -/
theorem Spells.isGrammatical {chars : List Char} {steps : List Segment} (h : Spells chars steps) :
    ∀ step ∈ steps, step.isGrammatical = true := by
  cases h with
  | root => simp
  | below nonempty fits each =>
      clear nonempty fits
      induction each with
      | nil => simp
      | cons spells _ ih => exact List.forall_mem_cons.2 ⟨spells.isGrammatical, ih⟩

theorem segments_injective {a b : Path} (h : a.segments = b.segments) : a = b := by
  cases a
  cases b
  cases h
  rfl

theorem parse_eq_ok_iff {text : String} {path : Path} :
    parse text = .ok path ↔ Spells text.toList path.segments := by
  rw [← map_segments_parse_eq_ok_iff, map_eq_ok_iff]
  constructor
  · intro h
    exact ⟨path, h, rfl⟩
  · rintro ⟨found, h, same⟩
    rw [h, segments_injective same]

theorem Overflows.exists_below {chars : List Char} (h : Overflows chars) :
    ∃ rest, chars = 'm' :: '/' :: rest := by
  cases h with
  | intro => exact ⟨_, rfl⟩

theorem parse_eq_tooDeep_iff {text : String} :
    parse text = .error (.tooDeep maxDepth) ↔ Overflows text.toList := by
  rcases parse_cases text with ⟨hroot, hparse⟩ | ⟨rest, hrest, hparse⟩ |
    ⟨notRoot, notBelow, fault, hparse⟩
  · rw [hroot, hparse]
    refine iff_of_false (by simp) ?_
    intro h
    obtain ⟨rest, hrest⟩ := h.exists_below
    cases hrest
  · rw [hrest, overflows_below_iff, ← readSegments_eq_tooDeep_iff, ← hparse, map_eq_error_iff]
  · rw [hparse]
    refine iff_of_false (by simp) ?_
    intro h
    obtain ⟨rest, hrest⟩ := h.exists_below
    exact notBelow rest hrest

/-- A text is read, or it is too deep, or it is malformed and the failure quotes it. -/
theorem parse_outcomes (text : String) :
    (∃ path, parse text = .ok path) ∨ parse text = .error (.tooDeep maxDepth) ∨
      ∃ fault, parse text = .error (.malformedPath text fault) := by
  rcases parse_cases text with ⟨-, hparse⟩ | ⟨rest, -, hparse⟩ | ⟨-, -, fault, hparse⟩
  · exact Or.inl ⟨root, hparse⟩
  · rcases readSegments_cases text maxDepth (rest.splitOn '/') with ⟨steps, hread⟩ | hread |
      ⟨fault, hread⟩
    · obtain ⟨path, hpath, -⟩ := map_eq_ok_iff.1 (hparse.trans hread)
      exact Or.inl ⟨path, hpath⟩
    · exact Or.inr (Or.inl (map_eq_error_iff.1 (hparse.trans hread)))
    · exact Or.inr (Or.inr ⟨fault, map_eq_error_iff.1 (hparse.trans hread)⟩)
  · exact Or.inr (Or.inr ⟨fault, hparse⟩)

/-- The grammar of paths. A text is read exactly if it spells steps, and then it is the path with
these steps. It is too deep exactly if its first 255 parts spell steps and another part follows.
Every other text is malformed, and the failure quotes it. -/
theorem parse_grammar (text : String) :
    (∀ steps, (∃ path, parse text = .ok path ∧ path.segments = steps) ↔
      Spells text.toList steps) ∧
    (parse text = .error (.tooDeep 255) ↔ Overflows text.toList) ∧
    ((∃ path, parse text = .ok path) ∨ parse text = .error (.tooDeep 255) ∨
      ∃ fault, parse text = .error (.malformedPath text fault)) := by
  refine ⟨fun steps => ?_, parse_eq_tooDeep_iff, parse_outcomes text⟩
  rw [← map_segments_parse_eq_ok_iff, map_eq_ok_iff]

/-- Labels, leading zeros and the letters for the marker are read. -/
example : (parse "m/inbox:007h/0").map segments =
    .ok [⟨some "inbox", 7, true, by decide⟩, ⟨none, 0, false, by decide⟩] := by decide +kernel

end Path

end SealedMail
