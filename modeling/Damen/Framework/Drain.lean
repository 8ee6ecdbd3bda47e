import Mathlib.Algebra.Group.Nat.Defs
import Mathlib.Data.List.Basic
import Mathlib.Logic.Function.Iterate

/-!
# Draining a run of successors from a set

Receivers keep the items that arrived early in an ordered set next to a cursor, and advance the
cursor over as many of them as follow it directly:
`while (set.contains(a)) { set.erase(a); a = succ(a); }`.

`drain` is that loop.  Every round removes an element, so the size of the set bounds the number
of rounds; `drain_spec` says what the loop computes once it has that much fuel.

A cursor of 32 bits wraps; the last section has its successor below the last number.
-/

namespace Drain

open Std

variable {α : Type*} {cmp : α → α → Ordering} [TransCmp cmp]

/-- At most `fuel` rounds of the loop. -/
def drain (succ : α → α) : ℕ → ExtTreeSet α cmp → α → ExtTreeSet α cmp × α
  | 0, s, a => (s, a)
  | fuel + 1, s, a => if a ∈ s then drain succ fuel (s.erase a) (succ a) else (s, a)

/-- A cursor outside the set does not move. -/
lemma drain_of_notMem (succ : α → α) (fuel : ℕ) {s : ExtTreeSet α cmp} {a : α} (h : a ∉ s) :
    drain succ fuel s a = (s, a) := by
  cases fuel with
  | zero => rfl
  | succ fuel => rw [drain, if_neg h]

variable [LawfulEqCmp cmp]

/-- The cursor stops `k` successors further on, at the first one that is not in the set, and
exactly the elements it passed are gone. -/
lemma drain_spec (succ : α → α) (fuel : ℕ) (s : ExtTreeSet α cmp) (a : α) (h : s.size ≤ fuel) :
    ∃ k, (drain succ fuel s a).2 = succ^[k] a ∧ (∀ i < k, succ^[i] a ∈ s) ∧
      (drain succ fuel s a).2 ∉ (drain succ fuel s a).1 ∧
      ∀ x, x ∈ (drain succ fuel s a).1 ↔ x ∈ s ∧ ∀ i < k, x ≠ succ^[i] a := by
  induction fuel generalizing s a with
  | zero =>
      have hempty : ∀ x, x ∉ s := by
        rw [ExtTreeSet.eq_empty_iff_size_eq_zero.mpr (Nat.le_zero.mp h)]
        exact fun x => ExtTreeSet.not_mem_empty
      exact ⟨0, rfl, fun i hi => absurd hi (Nat.not_lt_zero i), hempty a,
        fun x => ⟨fun hx => absurd hx (hempty x), And.left⟩⟩
  | succ fuel ih =>
      by_cases ha : a ∈ s
      · have hsize : (s.erase a).size ≤ fuel := by
          rw [ExtTreeSet.size_erase, if_pos (ExtTreeSet.mem_iff_contains.mp ha)]
          omega
        obtain ⟨k, hcur, hpassed, hstop, hmem⟩ := ih (s.erase a) (succ a) hsize
        simp only [drain, if_pos ha]
        refine ⟨k + 1, hcur, ?_, hstop, fun x => ?_⟩
        · rintro (_ | i) hi
          · exact ha
          · exact (ExtTreeSet.mem_erase.mp (hpassed i (by omega))).2
        · rw [hmem, ExtTreeSet.mem_erase, ne_eq, LawfulEqCmp.compare_eq_iff_eq]
          constructor
          · rintro ⟨⟨hne, hx⟩, hrest⟩
            refine ⟨hx, ?_⟩
            rintro (_ | i) hi
            · exact Ne.symm hne
            · exact hrest i (by omega)
          · rintro ⟨hx, hall⟩
            exact ⟨⟨Ne.symm (hall 0 (by omega)), hx⟩, fun i hi => hall (i + 1) (by omega)⟩
      · simp only [drain, if_neg ha]
        exact ⟨0, rfl, fun i hi => absurd hi (Nat.not_lt_zero i), ha,
          fun x => ⟨fun hx => ⟨hx, fun i hi => absurd hi (Nat.not_lt_zero i)⟩, And.left⟩⟩

/-! ## Cursors of 32 bits -/

lemma toNat_succ {n : UInt32} (h : n.toNat < 2 ^ 32 - 1) : (n + 1).toNat = n.toNat + 1 := by
  rw [UInt32.toNat_add]
  exact Nat.mod_eq_of_lt (show n.toNat + 1 < 2 ^ 32 by omega)

lemma lt_succ_iff {n k : UInt32} (h : n.toNat < 2 ^ 32 - 1) : k < n + 1 ↔ k ≤ n := by
  rw [UInt32.lt_iff_toNat_lt, UInt32.le_iff_toNat_le, toNat_succ h, Nat.lt_succ_iff]

lemma succ_le_iff {n k : UInt32} (h : n.toNat < 2 ^ 32 - 1) : n + 1 ≤ k ↔ n < k := by
  rw [UInt32.lt_iff_toNat_lt, UInt32.le_iff_toNat_le, toNat_succ h, Nat.succ_le_iff]

end Drain
