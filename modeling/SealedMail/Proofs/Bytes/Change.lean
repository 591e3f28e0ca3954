import Mathlib

/-!
# One changed item, one changed block

Two lists of the same length that differ at one place only (`OneChange`). The relation is kept by
what surrounds the place, and a change of an append is a change of one of its parts
(`OneChange.of_append`). The coarser relation `BlockChange` allows any number of places inside one
block of a given size; the block is the first one, or the change is behind the first block
(`BlockChange.cases`).
-/

namespace SealedMail

variable {α β : Type}

/-- The second list is the first one with another item at one place. -/
def OneChange (before after : List α) : Prop :=
  ∃ front old new back, before = front ++ old :: back ∧ after = front ++ new :: back ∧ old ≠ new

namespace OneChange

theorem of_ne {old new : α} (h : old ≠ new) (front back : List α) :
    OneChange (front ++ old :: back) (front ++ new :: back) :=
  ⟨front, old, new, back, rfl, rfl, h⟩

/-- Replacing an item by a different one is a change. -/
theorem set {items : List α} {position : ℕ} (hposition : position < items.length) {new : α}
    (h : items[position] ≠ new) : OneChange items (items.set position new) := by
  refine ⟨items.take position, items[position], new, items.drop (position + 1), ?_, ?_, h⟩
  · rw [List.getElem_cons_drop, List.take_append_drop]
  · rw [List.set_eq_take_append_cons_drop, if_pos hposition]

theorem length_eq {before after : List α} (h : OneChange before after) :
    after.length = before.length := by
  rcases h with ⟨front, old, new, back, rfl, rfl, -⟩
  simp

theorem ne {before after : List α} (h : OneChange before after) : before ≠ after := by
  rcases h with ⟨front, old, new, back, rfl, rfl, hne⟩
  simpa using hne

theorem append_left {before after : List α} (h : OneChange before after) (front : List α) :
    OneChange (front ++ before) (front ++ after) := by
  rcases h with ⟨start, old, new, back, rfl, rfl, hne⟩
  rw [← List.append_assoc, ← List.append_assoc]
  exact of_ne hne _ _

theorem append_right {before after : List α} (h : OneChange before after) (back : List α) :
    OneChange (before ++ back) (after ++ back) := by
  rcases h with ⟨front, old, new, rest, rfl, rfl, hne⟩
  rw [List.append_assoc, List.append_assoc, List.cons_append, List.cons_append]
  exact of_ne hne _ _

/-- A change of an append is a change of one of its parts. -/
theorem of_append {left right after : List α} (h : OneChange (left ++ right) after) :
    (∃ left', OneChange left left' ∧ after = left' ++ right) ∨
      ∃ right', OneChange right right' ∧ after = left ++ right' := by
  rcases h with ⟨front, old, new, back, hbefore, rfl, hne⟩
  rcases List.append_eq_append_iff.1 hbefore with ⟨middle, rfl, rfl⟩ | ⟨middle, rfl, hmiddle⟩
  · -- The left part ends before the place.
    exact Or.inr ⟨_, of_ne hne middle back, by rw [List.append_assoc]⟩
  · rcases middle with _ | ⟨item, middle⟩
    · obtain rfl : right = old :: back := hmiddle.symm
      exact Or.inr ⟨_, of_ne hne [] back, by simp⟩
    · obtain ⟨rfl, rfl⟩ := List.cons.inj hmiddle
      exact Or.inl ⟨_, of_ne hne front middle, by simp⟩

end OneChange

/-! ## Blocks -/

/-- Two lists of one length that differ, and only at places of one block. Blocks of `size` items are
counted from the front, and the last one may be shorter. -/
structure BlockChange (size : ℕ) (before after : List α) : Prop where
  length_eq : after.length = before.length
  ne : before ≠ after
  exists_block : ∃ block, ∀ i, i / size ≠ block → after[i]? = before[i]?

theorem OneChange.blockChange {before after : List α} (h : OneChange before after) (size : ℕ) :
    BlockChange size before after where
  length_eq := h.length_eq
  ne := h.ne
  exists_block := by
    rcases h with ⟨front, old, new, back, rfl, rfl, -⟩
    refine ⟨front.length / size, fun i outside => ?_⟩
    have other : i ≠ front.length := by
      rintro rfl
      exact outside rfl
    rcases lt_or_gt_of_ne other with before | behind
    · rw [List.getElem?_append_left before, List.getElem?_append_left before]
    · obtain ⟨k, rfl⟩ := Nat.exists_eq_add_of_lt behind
      rw [Nat.add_assoc, List.getElem?_append_right (Nat.le_add_right _ _),
        List.getElem?_append_right (Nat.le_add_right _ _), Nat.add_sub_cancel_left,
        List.getElem?_cons_succ, List.getElem?_cons_succ]

namespace BlockChange

variable {size : ℕ} {before after : List α}

/-- A list that is no longer than a block has one block. -/
theorem of_length_le (hsize : before.length ≤ size) (hlength : after.length = before.length)
    (hne : before ≠ after) : BlockChange size before after where
  length_eq := hlength
  ne := hne
  exists_block := by
    refine ⟨0, fun i outside => ?_⟩
    have far : size ≤ i := by
      by_contra near
      exact outside (Nat.div_eq_of_lt (not_le.1 near))
    rw [List.getElem?_eq_none (by omega), List.getElem?_eq_none (by omega)]

/-- The change is in the first block, or behind it. -/
theorem cases (hsize : 0 < size) (h : BlockChange size before after) :
    (before.take size ≠ after.take size ∧ after.drop size = before.drop size) ∨
      (after.take size = before.take size ∧
        BlockChange size (before.drop size) (after.drop size)) := by
  obtain ⟨block, same⟩ := h.exists_block
  by_cases first : after.take size = before.take size
  · right
    refine ⟨first, by simp [h.length_eq], fun rest => h.ne ?_, block - 1, fun i outside => ?_⟩
    · rw [← List.take_append_drop size before, ← List.take_append_drop size after, first, rest]
    · rw [List.getElem?_drop, List.getElem?_drop]
      apply same
      rw [Nat.add_div_left i hsize]
      rintro rfl
      exact outside rfl
  · left
    refine ⟨Ne.symm first, List.ext_getElem? fun i => ?_⟩
    -- Some place before the end of the first block differs, so the block is the first one.
    have zero : block = 0 := by
      by_contra later
      apply first
      refine List.ext_getElem? fun i => ?_
      rw [List.getElem?_take, List.getElem?_take]
      split
      · rename_i inside
        apply same
        rw [Nat.div_eq_of_lt inside]
        exact Ne.symm later
      · rfl
    rw [List.getElem?_drop, List.getElem?_drop]
    apply same
    rw [Nat.add_div_left i hsize, zero]
    exact Nat.succ_ne_zero _

end BlockChange

end SealedMail
