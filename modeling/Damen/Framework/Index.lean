import Mathlib.Data.List.Basic

/-!
# A map and its index by a field

Values are kept under keys, and an index leads from a field of a value back to its key.  Both are
lookup functions here, so that the results apply to any kind of map.

* `Matches.congr`: values may change as long as their fields do not;
* `matches_put_iff`: writing a value under a key and the key into the index keeps the two in step
  exactly if no value is left behind, neither under the key nor in the field.
-/

namespace Index

variable {K V A : Type*}

/-- Every entry of the index leads to a value with that field, and every value is where the entry
for its field leads. -/
structure Matches (field : V → A) (m : K → Option V) (i : A → Option K) : Prop where
  fwd : ∀ a k, i a = some k → ∃ v, m k = some v ∧ field v = a
  bwd : ∀ k v, m k = some v → i (field v) = some k

variable {field : V → A} {m m' : K → Option V} {i i' : A → Option K}

lemma Matches.congr (h : Matches field m i) (hm : ∀ k, (m' k).map field = (m k).map field) :
    Matches field m' i where
  fwd a k hk := by
    obtain ⟨v, hv, hfield⟩ := h.fwd a k hk
    have hmap := hm k
    rw [hv, Option.map_some, Option.map_eq_some_iff] at hmap
    obtain ⟨v', hv', hsame⟩ := hmap
    exact ⟨v', hv', hsame.trans hfield⟩
  bwd k v' hv' := by
    have hmap := hm k
    rw [hv', Option.map_some, eq_comm, Option.map_eq_some_iff] at hmap
    obtain ⟨v, hv, hsame⟩ := hmap
    rw [← hsame]
    exact h.bwd k v hv

/-- The index may dangle at the field that is written. -/
lemma matches_put_iff [DecidableEq K] [DecidableEq A] {k : K} {v : V}
    (hfwd : ∀ a k', a ≠ field v → i a = some k' → ∃ v', m k' = some v' ∧ field v' = a)
    (hbwd : ∀ k' v', m k' = some v' → i (field v') = some k')
    (hm : ∀ x, m' x = if x = k then some v else m x)
    (hix : ∀ a, i' a = if a = field v then some k else i a) :
    Matches field m' i' ↔ (∀ old, m k = some old → field old = field v) ∧
      ∀ k' v', m k' = some v' → field v' = field v → k' = k := by
  constructor
  · intro h
    refine ⟨fun old hold => ?_, fun k' v' hv' hfield => ?_⟩
    · by_contra hne
      have hentry : i' (field old) = some k := by rw [hix, if_neg hne, hbwd k old hold]
      obtain ⟨w, hw, hfield⟩ := h.fwd _ _ hentry
      rw [hm, if_pos rfl, Option.some.injEq] at hw
      exact hne (hfield.symm.trans (congrArg field hw.symm))
    · by_contra hne
      have hentry := h.bwd k' v' (by rw [hm, if_neg hne, hv'])
      rw [hix, if_pos hfield, Option.some.injEq] at hentry
      exact hne hentry.symm
  · rintro ⟨hkey, hfield⟩
    refine ⟨fun a k' hentry => ?_, fun k' v' hv' => ?_⟩
    · rw [hix] at hentry
      split_ifs at hentry with ha
      · obtain rfl := Option.some.inj hentry
        exact ⟨v, by rw [hm, if_pos rfl], ha.symm⟩
      · obtain ⟨v', hv', hsame⟩ := hfwd a k' ha hentry
        have hne : k' ≠ k := by
          rintro rfl
          exact ha (hsame.symm.trans (hkey v' hv'))
        exact ⟨v', by rw [hm, if_neg hne, hv'], hsame⟩
    · rw [hm] at hv'
      split_ifs at hv' with hk
      · obtain rfl := Option.some.inj hv'
        rw [hix, if_pos rfl, hk]
      · have hne : field v' ≠ field v := fun hsame => hk (hfield k' v' hv' hsame)
        rw [hix, if_neg hne, hbwd k' v' hv']

end Index
