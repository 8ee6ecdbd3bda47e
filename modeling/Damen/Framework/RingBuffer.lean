import Mathlib.Data.List.Basic
import Mathlib.Algebra.Order.Group.Nat

/-!
# A ring that keeps the last entries

A sliding window of the last `n` entries in `n` cells: an entry is written to the cell at `pos`,
which then moves on and wraps, and `count` says how many cells have been written.  `Keeps` relates
the ring to all entries so far; `Keeps.write` keeps it, and `Keeps.mem_take_iff` says that the cells
that have been written hold the last entries, in some order.
-/

namespace RingBuffer

variable {α : Type*} {n pos count : ℕ} {cells history : List α}

/-- The ring after the entries of `history`: entry `j` is in cell `j % n`, as long as it is one of
the last `n`. -/
structure Keeps (n : ℕ) (cells : List α) (pos count : ℕ) (history : List α) : Prop where
  length : cells.length = n
  pos : pos = history.length % n
  count : count = min n history.length
  cell : ∀ j, history.length ≤ j + n → j < history.length → cells[j % n]? = history[j]?

lemma keeps_nil (h : cells.length = n) : Keeps n cells 0 0 [] where
  length := h
  pos := (Nat.zero_mod n).symm
  count := (Nat.min_zero n).symm
  cell := fun j _ hj => absurd hj (Nat.not_lt_zero j)

/-- Two of `n` successive numbers have different remainders. -/
lemma mod_ne_mod {j k : ℕ} (hlt : j < k) (hle : k < j + n) : j % n ≠ k % n := by
  intro heq
  have hzero := Nat.sub_mod_eq_zero_of_mod_eq heq.symm
  rw [Nat.mod_eq_of_lt (by omega)] at hzero
  omega

lemma Keeps.write (h : Keeps n cells pos count history) (hn : 0 < n) (x : α) :
    Keeps n (cells.set pos x) ((pos + 1) % n) (if count < n then count + 1 else count)
      (history ++ [x]) where
  length := by rw [List.length_set, h.length]
  pos := by rw [h.pos, List.length_append, List.length_singleton, Nat.mod_add_mod]
  count := by
    have hcount := h.count
    rw [List.length_append, List.length_singleton]
    split <;> omega
  cell := by
    intro j hle hlt
    rw [List.length_append, List.length_singleton] at hle hlt
    rcases Nat.lt_succ_iff_lt_or_eq.mp hlt with hlt | rfl
    · rw [h.pos, List.getElem?_set_ne (mod_ne_mod hlt hle).symm, List.getElem?_append_left hlt]
      exact h.cell j (by omega) hlt
    · rw [List.getElem?_concat_length, h.pos, List.getElem?_set_self]
      rw [h.length]
      exact Nat.mod_lt _ hn

/-- A cell that has been written holds one of the last entries. -/
lemma Keeps.exists_entry (h : Keeps n cells pos count history) (hn : 0 < n) {i : ℕ}
    (hi : i < count) :
    ∃ j, history.length ≤ j + n ∧ j < history.length ∧ j % n = i := by
  have hcount := h.count
  -- the last number below the length with this remainder
  have hdiv := Nat.div_add_mod (history.length - 1 - i) n
  have hmod := Nat.mod_lt (history.length - 1 - i) hn
  refine ⟨i + n * ((history.length - 1 - i) / n), by omega, by omega, ?_⟩
  rw [Nat.add_mul_mod_self_left]
  exact Nat.mod_eq_of_lt (by omega)

lemma Keeps.mem_take_iff (h : Keeps n cells pos count history) (hn : 0 < n) {x : α} :
    x ∈ cells.take count ↔ x ∈ history.drop (history.length - n) := by
  have hcount := h.count
  rw [List.mem_iff_getElem?, List.mem_iff_getElem?]
  constructor
  · rintro ⟨i, hi⟩
    rw [List.getElem?_take] at hi
    split at hi
    · next hlt =>
      obtain ⟨j, hle, hj, rfl⟩ := h.exists_entry hn hlt
      refine ⟨j - (history.length - n), ?_⟩
      rw [List.getElem?_drop, Nat.add_sub_cancel' (by omega), ← h.cell j hle hj]
      exact hi
    · exact absurd hi (by simp)
  · rintro ⟨i, hi⟩
    rw [List.getElem?_drop] at hi
    have hlt := (List.getElem?_eq_some_iff.mp hi).1
    refine ⟨(history.length - n + i) % n, ?_⟩
    have hmod : (history.length - n + i) % n < count := by
      have hlt' := Nat.mod_lt (history.length - n + i) hn
      have hle := Nat.mod_le (history.length - n + i) n
      omega
    rw [List.getElem?_take, if_pos hmod, h.cell _ (by omega) hlt]
    exact hi

end RingBuffer
