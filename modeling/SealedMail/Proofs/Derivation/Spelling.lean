import SealedMail.Proofs.Derivation.Printing

/-!
# Plain and other spellings

A path has one printed text and may have many spellings. What stands before, in and behind the
digits of a segment is settled by its characters, whatever the label (`Segment.IsCut.unique`). A
segment is spelled plainly if its index has no superfluous leading zero and its marker is an
apostrophe (`Segment.IsPlain`), and a text is plain if every part between slashes is
(`Path.IsPlain`). Printing the digits that were read leaves out leading zeros and nothing else
(`toDigits_ofDigitChars_suffix`), so the printed text of a path is its plain spelling, and no other
spelling is shorter. Main statement: `Path.parse_text_plain`.
-/

namespace SealedMail

/-! ## Decimal digits -/

/-- A zero stands in front of another digit. -/
def HasSpareZero (digits : List Char) : Prop := ∃ digit more, digits = '0' :: digit :: more

theorem exists_digitChar_eq {c : Char} (h : c.isDigit = true) : ∃ d < 10, Nat.digitChar d = c := by
  have range : 48 ≤ c.toNat ∧ c.toNat ≤ 57 := by
    simpa [Char.isDigit, UInt32.le_iff_toNat_le] using h
  have small : c.toNat - 48 < 10 := by omega
  refine ⟨c.toNat - 48, small, Char.toNat_inj.1 ?_⟩
  rw [Nat.toNat_digitChar_of_lt_ten small]
  omega

/-- Digits behind a number other than zero are printed as they were read. -/
theorem toDigits_ofDigitChars_of_pos {digits : List Char} {start : ℕ} (hstart : 0 < start)
    (decimal : ∀ c ∈ digits, c.isDigit = true) :
    Nat.toDigits 10 (Nat.ofDigitChars 10 digits start) = Nat.toDigits 10 start ++ digits := by
  -- The number read so far is the start for the rest, and it stays positive.
  induction digits generalizing start with
  | nil => rw [Nat.ofDigitChars_nil, List.append_nil]
  | cons c digits ih =>
      obtain ⟨hc, others⟩ := List.forall_mem_cons.1 decimal
      obtain ⟨d, hd, rfl⟩ := exists_digitChar_eq hc
      rw [Nat.ofDigitChars_cons_digitChar_of_lt_ten hd, ih (by omega) others,
        ← Nat.toDigits_append_toDigits (by decide) hstart hd, Nat.toDigits_of_lt_base hd,
        List.append_assoc, List.singleton_append]

/-- A leading zero is not printed; digits behind another digit are all printed. -/
theorem toDigits_ofDigitChars_cons {c : Char} {digits : List Char}
    (decimal : ∀ d ∈ c :: digits, d.isDigit = true) :
    Nat.toDigits 10 (Nat.ofDigitChars 10 (c :: digits) 0) =
      if c = '0' then Nat.toDigits 10 (Nat.ofDigitChars 10 digits 0) else c :: digits := by
  obtain ⟨hc, others⟩ := List.forall_mem_cons.1 decimal
  obtain ⟨d, hd, rfl⟩ := exists_digitChar_eq hc
  rw [Nat.ofDigitChars_cons_digitChar_of_lt_ten hd, Nat.mul_zero, Nat.zero_add]
  rcases Nat.eq_zero_or_pos d with rfl | hpos
  · rfl
  · have nonzero : Nat.digitChar d ≠ '0' := by
      rw [ne_eq, Nat.digitChar_eq_zero]
      omega
    rw [if_neg nonzero, toDigits_ofDigitChars_of_pos hpos others, Nat.toDigits_of_lt_base hd,
      List.singleton_append]

/-- Printing the number that digits spell leaves out leading zeros. -/
theorem toDigits_ofDigitChars_suffix {digits : List Char} (nonempty : digits ≠ [])
    (decimal : ∀ c ∈ digits, c.isDigit = true) :
    Nat.toDigits 10 (Nat.ofDigitChars 10 digits 0) <:+ digits := by
  induction digits with
  | nil => exact absurd rfl nonempty
  | cons c digits ih =>
      rw [toDigits_ofDigitChars_cons decimal]
      split_ifs with hzero
      · subst hzero
        rcases digits with _ | ⟨next, digits⟩
        · exact List.suffix_rfl
        · have printed := ih (List.cons_ne_nil _ _) (List.forall_mem_cons.1 decimal).2
          exact printed.trans (List.suffix_cons _ _)
      · exact List.suffix_rfl

/-- Digits are printed as they were read exactly if they have no superfluous leading zero. -/
theorem toDigits_ofDigitChars_eq_iff {digits : List Char} (nonempty : digits ≠ [])
    (decimal : ∀ c ∈ digits, c.isDigit = true) :
    Nat.toDigits 10 (Nat.ofDigitChars 10 digits 0) = digits ↔ ¬ HasSpareZero digits := by
  rcases digits with _ | ⟨c, digits⟩
  · exact absurd rfl nonempty
  rw [toDigits_ofDigitChars_cons decimal]
  split_ifs with hzero
  · subst hzero
    rcases digits with _ | ⟨next, digits⟩
    · simp [HasSpareZero]
    · -- Without the zero there are fewer digits, and printing gives no more than those.
      have shorter := (toDigits_ofDigitChars_suffix (List.cons_ne_nil next digits)
        (List.forall_mem_cons.1 decimal).2).length_le
      refine iff_of_false ?_ (not_not.2 ⟨next, digits, rfl⟩)
      intro same
      rw [same, List.length_cons] at shorter
      omega
  · refine iff_of_true rfl ?_
    rintro ⟨next, more, same⟩
    exact hzero (List.cons.inj same).1

theorem not_hasSpareZero_toDigits (number : ℕ) : ¬ HasSpareZero (Nat.toDigits 10 number) := by
  rw [← toDigits_ofDigitChars_eq_iff Nat.toDigits_ne_nil
    fun c hc => Nat.isDigit_of_mem_toDigits (by decide) (by decide) hc]
  rw [Nat.ofDigitChars_ten_toDigits]

namespace Segment

/-! ## The pieces of a segment -/

/-- The characters are cut into nothing or something up to a colon, then decimal digits, then
nothing or a marker. -/
structure IsCut (part front digits back : List Char) : Prop where
  part_eq : part = front ++ (digits ++ back)
  front_eq : front = [] ∨ ∃ label, front = label ++ [':']
  nonempty : digits ≠ []
  decimal : ∀ c ∈ digits, c.isDigit = true
  marker : ∃ hardened, SpellsMarker back hardened

theorem SpellsLabel.front_eq {front : List Char} {label : Option String}
    (h : SpellsLabel front label) : front = labelChars label := by
  cases h with
  | unlabelled => rfl
  | labelled => rfl

theorem SpellsMarker.markerChars_eq_iff {back : List Char} {hardened : Bool}
    (h : SpellsMarker back hardened) : markerChars hardened = back ↔ ∀ c ∈ back, c = '\'' := by
  cases h with
  | unmarked => simp [markerChars]
  | marked => simp [markerChars, eq_comm]

/-- The cut of a printed segment, whatever its label. -/
theorem isCut_chars (segment : Segment) :
    IsCut segment.chars (labelChars segment.label) (Nat.toDigits 10 segment.index)
      (markerChars segment.hardened) where
  part_eq := chars_eq segment
  front_eq := by
    cases segment.label with
    | none => exact Or.inl rfl
    | some label => exact Or.inr ⟨label.toList, rfl⟩
  nonempty := Nat.toDigits_ne_nil
  decimal _ hc := Nat.isDigit_of_mem_toDigits (by decide) (by decide) hc
  marker := ⟨_, spellsMarker_markerChars _⟩

theorem Spells.exists_isCut {part : List Char} {segment : Segment} (h : Spells part segment) :
    ∃ digits back, IsCut part (labelChars segment.label) digits back ∧
      Nat.ofDigitChars 10 digits 0 = segment.index ∧ SpellsMarker back segment.hardened := by
  cases h with
  | @intro front digits back _ label nonempty decimal value small marker =>
      refine ⟨digits, back, ⟨?_, ?_, nonempty, decimal, _, marker⟩, value, marker⟩
      · rw [label.front_eq]
      · exact (isCut_chars segment).front_eq

/-- The digits and the marker are what follows the last colon. -/
theorem IsCut.behind_eq {part front digits back : List Char} (h : IsCut part front digits back) :
    digits ++ back = (part.reverse.takeWhile (· != ':')).reverse := by
  -- Only the front has a colon, and if it is not empty it ends in one.
  obtain ⟨hardened, marker⟩ := h.marker
  have unseparated : ':' ∉ digits ++ back := not_mem_of_decimal rfl rfl h.decimal marker
  have before : ∀ c ∈ (digits ++ back).reverse, (c != ':') = true := by
    intro c hc
    simpa using ne_of_mem_of_not_mem (List.mem_reverse.1 hc) unseparated
  have stop : front.reverse.takeWhile (· != ':') = [] := by
    rcases h.front_eq with rfl | ⟨label, rfl⟩ <;> simp
  rw [h.part_eq, List.reverse_append, List.takeWhile_append_of_pos before, stop, List.append_nil,
    List.reverse_reverse]

theorem IsCut.digits_eq {part front digits back : List Char} (h : IsCut part front digits back) :
    digits = (digits ++ back).takeWhile Char.isDigit := by
  obtain ⟨hardened, marker⟩ := h.marker
  have stop : back.takeWhile Char.isDigit = [] := by
    cases marker with
    | unmarked => rfl
    | marked hmem =>
        rw [List.takeWhile_cons_of_neg]
        intro hdigit
        cases (isMarker_of_isDigit hdigit).symm.trans (isMarker_iff.2 hmem)
  rw [List.takeWhile_append_of_pos h.decimal, stop, List.append_nil]

/-- The characters settle how they are cut. -/
theorem IsCut.unique {part front digits back front' digits' back' : List Char}
    (h : IsCut part front digits back) (h' : IsCut part front' digits' back') :
    front = front' ∧ digits = digits' ∧ back = back' := by
  have behind : digits ++ back = digits' ++ back' := h.behind_eq.trans h'.behind_eq.symm
  have hfront : front = front' := by
    have same := h.part_eq.symm.trans h'.part_eq
    rwa [behind, List.append_cancel_right_eq] at same
  have hdigits : digits = digits' := by rw [h.digits_eq, behind, ← h'.digits_eq]
  rw [hdigits, List.append_cancel_left_eq] at behind
  exact ⟨hfront, hdigits, behind⟩

/-! ## Plain segments -/

/-- The index has no superfluous leading zero, and the marker is an apostrophe if there is one. -/
def IsPlain (part : List Char) : Prop :=
  ∀ front digits back, IsCut part front digits back →
    ¬ HasSpareZero digits ∧ ∀ c ∈ back, c = '\''

theorem isPlain_chars (segment : Segment) : IsPlain segment.chars := by
  intro front digits back h
  obtain ⟨-, rfl, rfl⟩ := (isCut_chars segment).unique h
  exact ⟨not_hasSpareZero_toDigits _,
    (spellsMarker_markerChars segment.hardened).markerChars_eq_iff.1 rfl⟩

/-- A segment is printed as it was spelled exactly if it was spelled plainly. -/
theorem Spells.chars_eq_iff {part : List Char} {segment : Segment} (h : Spells part segment) :
    segment.chars = part ↔ IsPlain part := by
  constructor
  · rintro rfl
    exact isPlain_chars segment
  · intro plain
    obtain ⟨digits, back, cut, value, marker⟩ := h.exists_isCut
    obtain ⟨spare, apostrophe⟩ := plain _ _ _ cut
    rw [chars_eq, cut.part_eq, ← value,
      (toDigits_ofDigitChars_eq_iff cut.nonempty cut.decimal).2 spare,
      marker.markerChars_eq_iff.2 apostrophe]

/-! ## Sizes -/

/-- The number of bytes of the characters. -/
def size (chars : List Char) : ℕ := (String.ofList chars).utf8ByteSize

@[simp] theorem size_append (a b : List Char) : size (a ++ b) = size a + size b := by
  rw [size, String.ofList_append, String.utf8ByteSize_append, size, size]

theorem SpellsMarker.size_markerChars {back : List Char} {hardened : Bool}
    (h : SpellsMarker back hardened) : size (markerChars hardened) = size back := by
  cases h with
  | unmarked => rfl
  | @marked c marker =>
      simp only [List.mem_cons, List.not_mem_nil, or_false] at marker
      rcases marker with rfl | rfl | rfl <;> rfl

/-- No spelling of a segment is shorter than the printed one. -/
theorem Spells.size_chars_le {part : List Char} {segment : Segment} (h : Spells part segment) :
    size segment.chars ≤ size part := by
  obtain ⟨digits, back, cut, value, marker⟩ := h.exists_isCut
  obtain ⟨zeros, hzeros⟩ := toDigits_ofDigitChars_suffix cut.nonempty cut.decimal
  have shorter : size (Nat.toDigits 10 (Nat.ofDigitChars 10 digits 0)) ≤ size digits := by
    rw [← congrArg size hzeros, size_append]
    exact Nat.le_add_left _ _
  rw [chars_eq, cut.part_eq, ← value]
  simp only [size_append, marker.size_markerChars]
  omega

end Segment

namespace Path

open Segment (size size_append)

/-- Every part between slashes is plain. -/
def IsPlain (text : String) : Prop := ∀ part ∈ text.toList.splitOn '/', Segment.IsPlain part

/-- The parts of a spelled text are the name of the root and a spelling of each step. -/
theorem Spells.exists_parts {chars : List Char} {steps : List Segment} (h : Spells chars steps) :
    ∃ parts, chars.splitOn '/' = ['m'] :: parts ∧ List.Forall₂ Segment.Spells parts steps := by
  cases h with
  | root => exact ⟨[], rfl, .nil⟩
  | @below parts _ nonempty fits each =>
      refine ⟨parts, ?_, each⟩
      have root : '/' ∉ ['m'] := by simp
      change (['m'] ++ '/' :: ['/'].intercalate parts).splitOn '/' = _
      rw [List.splitOn_append_cons_self_of_not_mem root,
        splitOn_intercalate_of_forall₂ each nonempty]

/-- A printed path is cut at its slashes into its segments if these contain none. -/
theorem splitOn_chars {path : Path} (h : ∀ segment ∈ path.segments, '/' ∉ segment.chars) :
    path.chars.splitOn '/' = ['m'] :: path.segments.map Segment.chars := by
  rw [chars_eq_intercalate]
  apply List.splitOn_intercalate _ _ (List.cons_ne_nil _ _)
  rw [List.forall_mem_cons, List.forall_mem_map]
  exact ⟨by simp, h⟩

theorem isPlain_root : Segment.IsPlain ['m'] := by
  intro front digits back h
  obtain ⟨c, hc⟩ := List.exists_mem_of_ne_nil digits h.nonempty
  have hmem : c ∈ ['m'] := by
    rw [h.part_eq]
    simp [hc]
  obtain rfl := List.mem_singleton.1 hmem
  exact absurd (h.decimal _ hc) (by decide)

theorem map_chars_eq_iff {parts : List (List Char)} {steps : List Segment}
    (h : List.Forall₂ Segment.Spells parts steps) :
    steps.map Segment.chars = parts ↔ ∀ part ∈ parts, Segment.IsPlain part := by
  induction h with
  | nil => simp
  | cons spells _ ih =>
      rw [List.map_cons, List.cons.injEq, spells.chars_eq_iff, ih, List.forall_mem_cons]

/-- A path is printed as it was spelled exactly if it was spelled plainly. -/
theorem text_eq_iff {text : String} {path : Path} (h : Spells text.toList path.segments) :
    path.text = text ↔ IsPlain text := by
  obtain ⟨parts, hsplit, each⟩ := h.exists_parts
  have plain : IsPlain text ↔ ∀ part ∈ parts, Segment.IsPlain part := by
    rw [IsPlain, hsplit, List.forall_mem_cons]
    exact and_iff_right isPlain_root
  have unslashed : ∀ segment ∈ path.segments, '/' ∉ segment.chars := fun segment hmem =>
    (Segment.spells_chars (h.isGrammatical segment hmem)).slash_not_mem
  -- Both texts are cut at their slashes and compared part by part.
  rw [plain, ← map_chars_eq_iff each]
  constructor
  · rintro rfl
    rw [Path.text, String.toList_ofList, splitOn_chars unslashed] at hsplit
    exact (List.cons.inj hsplit).2
  · intro same
    rw [Path.text, chars_eq_intercalate, same, ← hsplit, List.intercalate_splitOn,
      String.ofList_toList]

theorem size_flatMap_le {parts : List (List Char)} {steps : List Segment}
    (h : List.Forall₂ Segment.Spells parts steps) :
    size ((steps.map Segment.chars).flatMap ('/' :: ·)) ≤ size (parts.flatMap ('/' :: ·)) := by
  induction h with
  | nil => exact le_rfl
  | @cons part step _ _ spells _ ih =>
      have first := spells.size_chars_le
      rw [List.map_cons, List.flatMap_cons, List.flatMap_cons, size_append, size_append]
      change size (['/'] ++ step.chars) + _ ≤ size (['/'] ++ part) + _
      rw [size_append, size_append]
      omega

/-- No spelling of a path is shorter than the printed one. -/
theorem utf8ByteSize_text_le {text : String} {path : Path} (h : Spells text.toList path.segments) :
    path.text.utf8ByteSize ≤ text.utf8ByteSize := by
  obtain ⟨parts, hsplit, each⟩ := h.exists_parts
  have joined : text.toList = ['/'].intercalate (['m'] :: parts) := by
    rw [← hsplit, List.intercalate_splitOn]
  have size_text : text.utf8ByteSize = size text.toList := by rw [size, String.ofList_toList]
  rw [size_text, joined]
  change size path.chars ≤ _
  rw [chars_eq_intercalate, intercalate_cons, intercalate_cons, size_append, size_append]
  exact Nat.add_le_add_left (size_flatMap_le each) _

/-- A path is read back from its text, labels included, exactly if every label is grammatical. A
path that is read from any text is read back from its own, which is no longer, and which is the text
it was read from exactly if that has no superfluous leading zero and no marker but the
apostrophe. -/
theorem parse_text_plain :
    (∀ path : Path, parse path.text = .ok path ↔
      ∀ segment ∈ path.segments, ∀ label ∈ segment.label,
        label ≠ "" ∧ ∀ c ∈ label.toList, c.isAlphanum = true ∨ c = '_' ∨ c = '-') ∧
    (∀ text path, parse text = .ok path →
      parse path.text = .ok path ∧ path.text.utf8ByteSize ≤ text.utf8ByteSize ∧
        (path.text = text ↔ IsPlain text)) := by
  constructor
  · intro path
    have read_back : parse path.text = .ok path ↔ path.isGrammatical = true :=
      ⟨isGrammatical_of_parse, parse_text⟩
    rw [read_back, isGrammatical_iff]
    simp only [Segment.isGrammatical, Option.all_eq_true, Segment.isGrammaticalLabel_iff,
      ne_eq, String.toList_eq_nil_iff]
    rfl
  · intro text path h
    have spells := parse_eq_ok_iff.1 h
    exact ⟨parse_text (isGrammatical_of_parse h), utf8ByteSize_text_le spells, text_eq_iff spells⟩

/-- A text with leading zeros and a letter for the marker, and the text that is printed for it. A
label with a space is not read back. -/
theorem parse_text_plain_of_leading_zeros :
    let path : Path :=
      ⟨[⟨some "a", 7, true, by decide⟩, ⟨none, 0, false, by decide⟩], by decide⟩
    let spaced : Path := ⟨[⟨some "a b", 7, true, by decide⟩], by decide⟩
    parse "m/a:007h/0" = .ok path ∧ parse path.text = .ok path ∧ path.text = "m/a:7'/0" ∧
      path.text.utf8ByteSize ≤ "m/a:007h/0".utf8ByteSize ∧ ¬ IsPlain "m/a:007h/0" ∧
      IsPlain "m/a:7'/0" ∧ parse spaced.text ≠ .ok spaced := by
  intro path spaced
  have parsed : parse "m/a:007h/0" = .ok path := by decide +kernel
  have printed : path.text = "m/a:7'/0" := by decide +kernel
  have other : path.text ≠ "m/a:007h/0" := by decide +kernel
  have space : ' ' ∈ "a b".toList := by decide +kernel
  obtain ⟨labels, spellings⟩ := parse_text_plain
  obtain ⟨back, size, plain⟩ := spellings _ _ parsed
  obtain ⟨-, -, plain'⟩ := spellings _ _ back
  have printed_plain : IsPlain path.text := plain'.1 rfl
  rw [printed] at printed_plain
  refine ⟨parsed, back, printed, size, fun h => other (plain.2 h), printed_plain, ?_⟩
  intro h
  exact absurd (((labels spaced).1 h _ List.mem_cons_self "a b" rfl).2 ' ' space) (by decide)

end Path

end SealedMail
