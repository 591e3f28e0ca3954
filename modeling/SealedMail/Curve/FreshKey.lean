import SealedMail.Curve.PrivateKey
import SealedMail.Random.Source

/-!
# Fresh keys

A fresh private key is the first 32-byte window of a random source that spells a number between one
and the group order. The search for it has no bound of its own, so it needs a source that offers
such a window (`RandomSource.OffersScalar`); a source made from a finite byte string always does,
at every position. The search recurses on the number of windows still in front of the first good
one.

Main statements: `generate_of_some`, `generate_of_none`, `endless_ofBytes`, `endless_generate`.
-/

namespace SealedMail

namespace RandomSource

/-- The key that the next 32 bytes spell, if they do. -/
def key? (source : RandomSource) : Option PrivateKey :=
  PrivateKey.ofOctets? (source.peekOctets 32)

/-- Some window of 32 bytes, at a multiple of 32 from here, spells a private key. -/
def OffersScalar (source : RandomSource) : Prop :=
  ∃ windows, ((source.skip (32 * windows)).key?).isSome

/-- The window that ends the search: it spells a key and no earlier one does. -/
def IsFirstKey (source : RandomSource) (windows : Nat) : Prop :=
  ((source.skip (32 * windows)).key?).isSome ∧
    ∀ earlier < windows, (source.skip (32 * earlier)).key? = none

theorem OffersScalar.exists_first {source : RandomSource} (h : source.OffersScalar) :
    ∃ windows, source.IsFirstKey windows := by
  obtain ⟨windows, hw⟩ := h
  induction windows using Nat.strongRecOn with
  | ind windows ih =>
      -- Either no earlier window spells a key, or the search ends at one of those.
      by_cases hall : ∀ earlier < windows, (source.skip (32 * earlier)).key? = none
      · exact ⟨windows, hw, hall⟩
      · obtain ⟨earlier, hlt⟩ := Classical.not_forall.1 hall
        obtain ⟨hlt, hne⟩ := Classical.not_imp.1 hlt
        exact ih earlier hlt (Option.isSome_iff_ne_none.2 hne)

theorem IsFirstKey.le {source : RandomSource} {first windows : Nat} (h : source.IsFirstKey first)
    (found : ((source.skip (32 * windows)).key?).isSome) : first ≤ windows := by
  refine Nat.le_of_not_lt fun earlier => ?_
  rw [h.2 windows earlier] at found
  cases found

theorem IsFirstKey.unique {source : RandomSource} {a b : Nat} (ha : source.IsFirstKey a)
    (hb : source.IsFirstKey b) : a = b :=
  Nat.le_antisymm (ha.le hb.1) (hb.le ha.1)

/-- The windows behind the first one are the windows from there. -/
theorem skip_skip_windows (source : RandomSource) (windows : Nat) :
    (source.skip 32).skip (32 * windows) = source.skip (32 * (windows + 1)) := by
  rw [skip_skip, Nat.mul_succ, Nat.add_comm]

theorem IsFirstKey.skip {source : RandomSource} {windows : Nat}
    (h : source.IsFirstKey (windows + 1)) : (source.skip 32).IsFirstKey windows := by
  refine ⟨?_, fun earlier hlt => ?_⟩
  · rw [skip_skip_windows]; exact h.1
  · rw [skip_skip_windows]; exact h.2 (earlier + 1) (by omega)

theorem OffersScalar.skip {source : RandomSource} (h : source.OffersScalar)
    (none_here : source.key? = none) : (source.skip 32).OffersScalar := by
  obtain ⟨windows, hw⟩ := h.exists_first
  cases windows with
  | zero => have := hw.1; simp [none_here] at this
  | succ windows => exact ⟨windows, hw.skip.1⟩

/-- The number of windows before the first that spells a key. -/
noncomputable def OffersScalar.windows {source : RandomSource} (h : source.OffersScalar) : Nat :=
  Classical.choose h.exists_first

theorem OffersScalar.isFirstKey_windows {source : RandomSource} (h : source.OffersScalar) :
    source.IsFirstKey h.windows :=
  Classical.choose_spec h.exists_first

theorem OffersScalar.windows_skip_lt {source : RandomSource} (h : source.OffersScalar)
    (none_here : source.key? = none) : (h.skip none_here).windows < h.windows := by
  have first := h.isFirstKey_windows
  cases hw : h.windows with
  | zero =>
      rw [hw] at first
      have := first.1
      simp [none_here] at this
  | succ windows =>
      rw [hw] at first
      have := first.skip.unique (h.skip none_here).isFirstKey_windows
      omega

/-- Every later position of the stream still offers a scalar. -/
def Endless (source : RandomSource) : Prop := ∀ count, (source.skip count).OffersScalar

theorem Endless.offersScalar {source : RandomSource} (h : source.Endless) :
    source.OffersScalar := h 0

theorem Endless.skip {source : RandomSource} (h : source.Endless) (count : Nat) :
    (source.skip count).Endless := fun more => by
  rw [skip_skip]
  exact h (count + more)

theorem key?_ones :
    (PrivateKey.ofOctets? ⟨List.replicate 32 1, List.length_replicate⟩).isSome = true := by
  decide +kernel

/-- Past its supply, a source made from bytes offers a key at every position. -/
theorem isSome_key?_skip_ofBytes {supply : Bytes} {offset : Nat} (h : supply.length ≤ offset) :
    ((ofBytes supply).skip offset).key?.isSome = true := by
  have hpeek : ((ofBytes supply).skip offset).peek 32 = List.replicate 32 1 :=
    peek_skip_ofBytes h 32
  have hoctets : ((ofBytes supply).skip offset).peekOctets 32 =
      ⟨List.replicate 32 1, List.length_replicate⟩ := by
    simp only [peekOctets, hpeek]
  rw [key?, hoctets]
  exact key?_ones

theorem endless_ofBytes (supply : Bytes) : (ofBytes supply).Endless := fun count => by
  -- One window for each supplied byte is more than enough to get past the supply.
  refine ⟨supply.length, ?_⟩
  rw [skip_skip]
  exact isSome_key?_skip_ofBytes (by omega)

end RandomSource

namespace PrivateKey

/-- Draw a key: the first window of 32 bytes that spells one. -/
def generate (source : RandomSource) (h : source.OffersScalar) : PrivateKey × RandomSource :=
  match found : source.key? with
  | some key => (key, source.skip 32)
  | none => generate (source.skip 32) (h.skip found)
termination_by h.windows
decreasing_by exact h.windows_skip_lt found

theorem generate_of_some {source : RandomSource} (h : source.OffersScalar) {key : PrivateKey}
    (found : source.key? = some key) : generate source h = (key, source.skip 32) := by
  rw [generate]
  split <;> simp_all

theorem generate_of_none {source : RandomSource} (h : source.OffersScalar)
    (found : source.key? = none) :
    generate source h = generate (source.skip 32) (h.skip found) := by
  rw [generate]
  split <;> simp_all

/-- Drawing a key advances the source. -/
theorem exists_skip_generate (source : RandomSource) (h : source.OffersScalar) :
    ∃ count, (generate source h).2 = source.skip count := by
  fun_induction generate source h with
  | case1 source h key found => exact ⟨32, rfl⟩
  | case2 source h found ih =>
      obtain ⟨count, hc⟩ := ih
      exact ⟨32 + count, by rw [hc, RandomSource.skip_skip]⟩

theorem endless_generate {source : RandomSource} (h : source.OffersScalar)
    (endless : source.Endless) : (generate source h).2.Endless := by
  obtain ⟨count, hc⟩ := exists_skip_generate source h
  rw [hc]
  exact endless.skip count

end PrivateKey

end SealedMail
