import Mathlib.Algebra.BigOperators.Group.List.Basic
import Mathlib.Algebra.GroupWithZero.Nat

/-!
# Updates of ordered maps

Lookups after an update of an `ExtTreeMap` whose comparison decides equality, with the condition
stated as an equality of keys, when an update of a map or a set changes nothing, what an update does
to a sum over all values, and what is left by a loop that erases entries or adds new ones.
-/

namespace OrderedMap

open Std

variable {α β : Type*} {cmp : α → α → Ordering} [TransCmp cmp] [LawfulEqCmp cmp]

lemma getElem?_insert [DecidableEq α] (m : ExtTreeMap α β cmp) (k x : α) (v : β) :
    (m.insert k v)[x]? = if x = k then some v else m[x]? := by
  rw [ExtTreeMap.getElem?_insert]
  by_cases h : x = k
  · rw [if_pos h, if_pos (LawfulEqCmp.compare_eq_iff_eq.mpr h.symm)]
  · rw [if_neg h, if_neg fun hc => h (LawfulEqCmp.compare_eq_iff_eq.mp hc).symm]

lemma getElem?_erase [DecidableEq α] (m : ExtTreeMap α β cmp) (k x : α) :
    (m.erase k)[x]? = if x = k then none else m[x]? := by
  rw [ExtTreeMap.getElem?_erase]
  by_cases h : x = k
  · rw [if_pos h, if_pos (LawfulEqCmp.compare_eq_iff_eq.mpr h.symm)]
  · rw [if_neg h, if_neg fun hc => h (LawfulEqCmp.compare_eq_iff_eq.mp hc).symm]

variable {m : ExtTreeMap α β cmp} {k : α}

lemma mem_of_mem_toList {e : α × β} (h : e ∈ m.toList) : e.1 ∈ m :=
  of_getElem?_eq_some (ExtTreeMap.mem_toList_iff_getElem?_eq_some.mp h)

/-- A map with one entry. -/
lemma toList_eq_singleton [DecidableEq α] {v : β}
    (h : ∀ x, m[x]? = if x = k then some v else none) : m.toList = [(k, v)] := by
  have hmem : ∀ e : α × β, e ∈ m.toList ↔ e = (k, v) := by
    intro e
    rw [ExtTreeMap.mem_toList_iff_getElem?_eq_some, h]
    constructor
    · intro he
      split_ifs at he with hk
      exact Prod.ext hk (Option.some.inj he).symm
    · rintro rfl
      exact if_pos rfl
  have hnodup : m.toList.Nodup :=
    ExtTreeMap.distinct_keys_toList.imp fun hne heq =>
      hne (LawfulEqCmp.compare_eq_iff_eq.mpr (congrArg Prod.fst heq))
  refine List.perm_singleton.mp
    ((List.perm_ext_iff_of_nodup hnodup (List.pairwise_singleton _ _)).mpr fun e => ?_)
  rw [hmem, List.mem_singleton]

/-! ## Updates without effect -/

lemma insert_eq_self_iff {v : β} : m.insert k v = m ↔ m[k]? = some v := by
  classical
  constructor
  · intro h
    rw [← h, getElem?_insert, if_pos rfl]
  · intro h
    refine ExtTreeMap.ext_getElem? fun x => ?_
    rw [getElem?_insert]
    split
    · next heq => rw [heq, h]
    · rfl

lemma insertIfNew_eq_self_iff {v : β} : m.insertIfNew k v = m ↔ k ∈ m := by
  constructor
  · intro h
    rw [← h]
    exact ExtTreeMap.mem_insertIfNew_self
  · intro h
    refine ExtTreeMap.ext_getElem? fun x => ?_
    rw [ExtTreeMap.getElem?_insertIfNew, if_neg]
    rintro ⟨heq, hnot⟩
    exact hnot h

lemma erase_eq_self_iff : m.erase k = m ↔ k ∉ m := by
  classical
  constructor
  · intro h hmem
    rw [← h, ExtTreeMap.mem_iff_isSome_getElem?, getElem?_erase, if_pos rfl] at hmem
    exact absurd hmem (by simp)
  · intro h
    refine ExtTreeMap.ext_getElem? fun x => ?_
    rw [getElem?_erase]
    split
    · next heq => rw [heq, ExtTreeMap.getElem?_eq_none h]
    · rfl

lemma set_insert_eq_self_iff {s : ExtTreeSet α cmp} {a : α} : s.insert a = s ↔ a ∈ s := by
  constructor
  · intro h
    rw [← h]
    exact ExtTreeSet.mem_insert_self
  · intro h
    refine ExtTreeSet.ext_mem fun x => ?_
    rw [ExtTreeSet.mem_insert]
    constructor
    · rintro (heq | hx)
      · exact LawfulEqCmp.compare_eq_iff_eq.mp heq ▸ h
      · exact hx
    · exact Or.inr

/-! ## Sums over all values -/

lemma nodup_toList (m : ExtTreeMap α β cmp) : m.toList.Nodup := by
  refine m.distinct_keys_toList.imp fun {a b} h heq => h ?_
  rw [heq]
  exact ReflCmp.compare_self

/-- An entry stands somewhere in the list of all, and the others are the rest. -/
lemma toList_perm_cons_erase {v : β} (h : m[k]? = some v) :
    m.toList.Perm ((k, v) :: (m.erase k).toList) := by
  classical
  have hnot : (k, v) ∉ (m.erase k).toList := by
    rw [ExtTreeMap.mem_toList_iff_getElem?_eq_some, getElem?_erase, if_pos rfl]
    simp
  rw [List.perm_ext_iff_of_nodup (nodup_toList m) (List.nodup_cons.mpr ⟨hnot, nodup_toList _⟩)]
  rintro ⟨x, w⟩
  rw [List.mem_cons, ExtTreeMap.mem_toList_iff_getElem?_eq_some,
    ExtTreeMap.mem_toList_iff_getElem?_eq_some, getElem?_erase, Prod.mk.injEq]
  by_cases hx : x = k
  · subst hx
    simp [h, eq_comm]
  · simp [hx]

/-- Replacing a value, in a sum over all entries. -/
lemma sum_toList_insert (f : β → ℕ) (m : ExtTreeMap α β cmp) (k : α) (v : β) :
    ((m.insert k v).toList.map fun e => f e.2).sum + (m[k]?.elim 0 f) =
      f v + (m.toList.map fun e => f e.2).sum := by
  classical
  have herase : (m.insert k v).erase k = m.erase k := by
    refine ExtTreeMap.ext_getElem? fun x => ?_
    simp only [getElem?_erase, getElem?_insert]
    split <;> rfl
  have hnew := (toList_perm_cons_erase (m := m.insert k v) (k := k) (v := v)
    (by rw [getElem?_insert, if_pos rfl])).map (fun e => f e.2)
  rw [hnew.sum_eq, herase, List.map_cons, List.sum_cons]
  cases hk : m[k]? with
  | none =>
      have hnot : k ∉ m := fun hmem => by
        rw [ExtTreeMap.mem_iff_isSome_getElem?, hk] at hmem
        exact Bool.false_ne_true hmem
      rw [erase_eq_self_iff.mpr hnot]
      rfl
  | some w =>
      have hold := (toList_perm_cons_erase hk).map (fun e => f e.2)
      rw [hold.sum_eq, List.map_cons, List.sum_cons]
      simp only [Option.elim]
      omega

/-! ## Loops over all entries -/

lemma getElem?_foldl_erase [DecidableEq α] (c : α × β → Prop) [DecidablePred c] (l : List (α × β))
    (m : ExtTreeMap α β cmp) (k : α) :
    (l.foldl (fun m e => if c e then m.erase e.1 else m) m)[k]? =
      if ∃ e ∈ l, e.1 = k ∧ c e then none else m[k]? := by
  induction l generalizing m with
  | nil => simp
  | cons e l ih =>
      rw [List.foldl_cons, ih]
      simp only [List.exists_mem_cons_iff]
      by_cases he : c e
      · rw [if_pos he, getElem?_erase]
        by_cases hk : e.1 = k
        · rw [if_pos hk.symm, ite_self, if_pos (Or.inl ⟨hk, he⟩)]
        · simp only [hk, Ne.symm hk, false_and, false_or, if_false]
      · rw [if_neg he]
        simp only [he, and_false, false_or]

/-- A loop that erases the entries which meet a condition. -/
lemma getElem?_eraseAll [DecidableEq α] (c : α × β → Prop) [DecidablePred c]
    (m : ExtTreeMap α β cmp) (k : α) :
    (m.toList.foldl (fun m e => if c e then m.erase e.1 else m) m)[k]? =
      m[k]?.filter fun v => ¬ c (k, v) := by
  have hmem : (∃ e ∈ m.toList, e.1 = k ∧ c e) ↔ ∃ v, m[k]? = some v ∧ c (k, v) := by
    constructor
    · rintro ⟨⟨_, v⟩, he, rfl, hc⟩
      exact ⟨v, ExtTreeMap.mem_toList_iff_getElem?_eq_some.mp he, hc⟩
    · rintro ⟨v, hv, hc⟩
      exact ⟨(k, v), ExtTreeMap.mem_toList_iff_getElem?_eq_some.mpr hv, rfl, hc⟩
  rw [getElem?_foldl_erase]
  simp only [hmem]
  cases hk : m[k]? with
  | none => simp
  | some v => by_cases hc : c (k, v) <;> simp [Option.filter, hc]

/-! ## The size after a loop -/

/-- A loop that notes the keys which do not meet a condition, with a value that does not replace an
old one. -/
lemma size_foldl_insertIfNew (c : α → Prop) [DecidablePred c] (v : β) {l : List α} (hl : l.Nodup)
    (m : ExtTreeMap α β cmp) :
    (l.foldl (fun m k => if c k then m else m.insertIfNew k v) m).size =
      m.size + (l.filter fun k => ¬ c k ∧ k ∉ m).length := by
  induction l generalizing m with
  | nil => rfl
  | cons k l ih =>
      obtain ⟨hk, hl⟩ := List.nodup_cons.mp hl
      rw [List.foldl_cons, ih hl]
      by_cases hc : c k
      · rw [if_pos hc, List.filter_cons_of_neg (by simp [hc])]
      · rw [if_neg hc, ExtTreeMap.size_insertIfNew]
        -- The rest of the list does not see the new key.
        have hrest : (l.filter fun x => ¬ c x ∧ x ∉ m.insertIfNew k v) =
            l.filter fun x => ¬ c x ∧ x ∉ m := by
          refine List.filter_congr fun x hx => ?_
          have hne : k ≠ x := fun heq => hk (heq ▸ hx)
          simp only [ExtTreeMap.mem_insertIfNew, LawfulEqCmp.compare_eq_iff_eq, hne, false_or]
        rw [hrest]
        by_cases hm : k ∈ m
        · rw [if_pos hm, List.filter_cons_of_neg (by simp [hm])]
        · rw [if_neg hm, List.filter_cons_of_pos (by simp [hc, hm]), List.length_cons]
          omega

omit [LawfulEqCmp cmp] in
/-- A loop that erases some of the entries. -/
lemma size_foldl_erase {l : List (α × β)} (hl : l.Pairwise fun a b => ¬ cmp a.1 b.1 = .eq)
    (hm : ∀ e ∈ l, e.1 ∈ m) : (l.foldl (fun m e => m.erase e.1) m).size + l.length = m.size := by
  induction l generalizing m with
  | nil => rfl
  | cons e l ih =>
      obtain ⟨he, hl⟩ := List.pairwise_cons.mp hl
      have hmem : e.1 ∈ m := hm e List.mem_cons_self
      have hpos : m.size ≠ 0 := fun h0 =>
        ExtTreeMap.not_mem_empty (ExtTreeMap.eq_empty_iff_size_eq_zero.mpr h0 ▸ hmem)
      have hrest := ih hl (m := m.erase e.1) fun x hx =>
        ExtTreeMap.mem_erase.mpr ⟨he x hx, hm x (List.mem_cons_of_mem e hx)⟩
      rw [ExtTreeMap.size_erase, if_pos (ExtTreeMap.contains_iff_mem.mpr hmem)] at hrest
      rw [List.foldl_cons, List.length_cons]
      omega

end OrderedMap
