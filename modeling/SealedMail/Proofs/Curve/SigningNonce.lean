import SealedMail.Curve.SigningNonce
import SealedMail.Proofs.Bytes.Positional

/-!
# The search for a signing nonce

A generator is spelled by its 64 bytes, and up to the first candidate that can be used no generator
comes twice: what follows a generator depends on it alone, so the candidate would have come as much
earlier. Hence the first candidate, if there is one, comes within as many steps as there are states
(`SigningNonce.Generator.IsFirst.lt_states`). The bound on the search therefore hides nothing: the
search gives the first candidate wherever that is (`SigningNonce.search_eq_some_iff`), and gives the
same under every larger bound (`SigningNonce.searchWithin_of_states_le`).
-/

namespace SealedMail.SigningNonce

open Curve

variable {nonce : NonzeroScalar}

namespace Generator

/-- The number that the bytes of a generator spell. -/
def number (g : Generator) : ℕ := Bytes.value (g.key.bytes ++ g.value.bytes)

theorem number_lt (g : Generator) : g.number < states := by
  have bound := Bytes.value_lt (g.key.bytes ++ g.value.bytes)
  rwa [List.length_append, g.key.length_eq, g.value.length_eq] at bound

theorem number_injective : Function.Injective number := by
  rintro ⟨⟨key, key_length⟩, ⟨value, value_length⟩⟩ ⟨⟨key', key_length'⟩, ⟨value', value_length'⟩⟩ h
  have joined : key ++ value = key' ++ value' := by
    refine Bytes.value_injective ?_ h
    rw [List.length_append, List.length_append, key_length, value_length, key_length',
      value_length']
  obtain ⟨rfl, rfl⟩ := List.append_inj joined (key_length.trans key_length'.symm)
  rfl

theorem rejected_add (g : Generator) (count more : ℕ) :
    (g.rejected count).rejected more = g.rejected (count + more) := by
  induction count generalizing g with
  | zero => rw [rejected, Nat.zero_add]
  | succ count ih => rw [rejected, ih, Nat.succ_add, rejected]

variable {g : Generator} {count : ℕ}

theorem isFirst_zero_iff : g.IsFirst 0 nonce ↔ g.candidate? = some nonce := by
  simp [IsFirst, rejected]

theorem isFirst_succ_iff :
    g.IsFirst (count + 1) nonce ↔ g.candidate? = none ∧ g.reject.IsFirst count nonce := by
  constructor
  · rintro ⟨accepted, unusable⟩
    exact ⟨unusable 0 (Nat.succ_pos count), accepted, fun earlier before =>
      unusable (earlier + 1) (Nat.succ_lt_succ before)⟩
  · rintro ⟨here, accepted, unusable⟩
    refine ⟨accepted, fun earlier before => ?_⟩
    cases earlier with
    | zero => exact here
    | succ earlier => exact unusable earlier (Nat.lt_of_succ_lt_succ before)

/-- No generator comes twice before the first candidate that can be used. -/
theorem IsFirst.ne_of_lt (h : g.IsFirst count nonce) {early late : ℕ} (lt : early < late)
    (le : late ≤ count) : g.rejected early ≠ g.rejected late := by
  intro same
  -- As many steps behind the early one as the candidate is behind the late one.
  have again : g.rejected (early + (count - late)) = g.rejected count := by
    rw [← rejected_add, same, rejected_add, Nat.add_sub_cancel' le]
  have unusable := h.2 (early + (count - late)) (by omega)
  rw [again, h.1] at unusable
  cases unusable

theorem IsFirst.lt_states (h : g.IsFirst count nonce) : count < states := by
  let state (step : Fin (count + 1)) : Fin states := ⟨(g.rejected step).number, number_lt _⟩
  have distinct : Function.Injective state := by
    refine Function.Injective.of_lt_imp_ne fun early late lt same => ?_
    exact h.ne_of_lt lt (Nat.le_of_lt_succ late.isLt) (number_injective (Fin.mk.inj same))
  have few := Fintype.card_le_of_injective state distinct
  rw [Fintype.card_fin, Fintype.card_fin] at few
  exact Nat.lt_of_succ_le few

end Generator

variable {g : Generator} {limit : ℕ}

/-- A search that is given up finds the first candidate that can be used, if that is in reach. -/
theorem searchWithin_eq_some_iff :
    searchWithin limit g = some nonce ↔ ∃ count < limit, g.IsFirst count nonce := by
  induction limit generalizing g with
  | zero => simp [searchWithin]
  | succ limit ih =>
      rw [searchWithin]
      cases found : g.candidate? with
      | some first =>
          constructor
          · rintro ⟨⟩
            exact ⟨0, Nat.succ_pos limit, Generator.isFirst_zero_iff.2 found⟩
          · rintro ⟨count, -, h⟩
            cases count with
            | zero => rw [← found, Generator.isFirst_zero_iff.1 h]
            | succ count => cases found.symm.trans (Generator.isFirst_succ_iff.1 h).1
      | none =>
          constructor
          · intro h
            obtain ⟨count, within, first⟩ := ih.1 h
            exact ⟨count + 1, Nat.succ_lt_succ within, Generator.isFirst_succ_iff.2 ⟨found, first⟩⟩
          · rintro ⟨count, within, h⟩
            cases count with
            | zero => cases found.symm.trans (Generator.isFirst_zero_iff.1 h)
            | succ count =>
                exact ih.2 ⟨count, Nat.lt_of_succ_lt_succ within,
                  (Generator.isFirst_succ_iff.1 h).2⟩

/-- With as many steps as there are states, the first candidate is always in reach. -/
theorem searchWithin_eq_some_iff_of_states_le (h : Generator.states ≤ limit) :
    searchWithin limit g = some nonce ↔ ∃ count, g.IsFirst count nonce := by
  rw [searchWithin_eq_some_iff]
  constructor
  · rintro ⟨count, -, first⟩
    exact ⟨count, first⟩
  · rintro ⟨count, first⟩
    exact ⟨count, first.lt_states.trans_le h, first⟩

/-- The search gives the first candidate that can be used, and nothing else. -/
theorem search_eq_some_iff : search g = some nonce ↔ ∃ count, g.IsFirst count nonce :=
  searchWithin_eq_some_iff_of_states_le le_rfl

/-- No larger bound changes what the search gives. -/
theorem searchWithin_of_states_le (h : Generator.states ≤ limit) :
    searchWithin limit g = search g := by
  refine Option.ext fun nonce => ?_
  rw [search_eq_some_iff, searchWithin_eq_some_iff_of_states_le h]

end SealedMail.SigningNonce
