import Mathlib.Data.List.Basic

/-!
# Texts in blocks of one size

A hash that reads its text block by block is a fold of a function over the full blocks (`blocks`).
A streaming implementation sees the text in pieces: it holds the fold over the blocks that are
complete and the part after them (`Absorbed`).  A piece makes that part longer (`Absorbed.append`),
a part as long as a block is folded in (`Absorbed.fold`), and when nothing is left over the state is
the fold over the blocks of the whole text (`Absorbed.eq_foldl`).
-/

namespace BlockStream

variable {α σ : Type*} {n : ℕ}

/-- The full blocks of a text in order; what is left after the last one is not part of it. -/
def blocks (n : ℕ) (m : List α) : List (List α) :=
  (List.range (m.length / n)).map fun i => (m.drop (n * i)).take n

lemma blocks_nil (n : ℕ) : blocks n ([] : List α) = [] := by
  rw [blocks, List.length_nil, Nat.zero_div, List.range_zero, List.map_nil]

lemma blocks_cons (hn : 0 < n) {b : List α} (hb : b.length = n) (m : List α) :
    blocks n (b ++ m) = b :: blocks n m := by
  have hcount : (b ++ m).length / n = m.length / n + 1 := by
    rw [List.length_append, hb, Nat.add_div_left _ hn]
  have hrest : ∀ i, (b ++ m).drop (n * (i + 1)) = m.drop (n * i) := by
    intro i
    rw [show n * (i + 1) = b.length + n * i by rw [hb, Nat.mul_succ, Nat.add_comm],
      List.drop_length_add_append]
  rw [blocks, hcount, List.range_succ_eq_map, List.map_cons, List.map_map, Nat.mul_zero,
    List.drop_zero, List.take_left' hb]
  exact congrArg _ (List.map_congr_left fun i _ => congrArg _ (hrest i))

lemma blocks_flatten_append (hn : 0 < n) {bs : List (List α)} (hbs : ∀ b ∈ bs, b.length = n)
    (m : List α) : blocks n (bs.flatten ++ m) = bs ++ blocks n m := by
  induction bs with
  | nil => rfl
  | cons b bs ih =>
      obtain ⟨hb, hbs⟩ := List.forall_mem_cons.mp hbs
      rw [List.flatten_cons, List.append_assoc, blocks_cons hn hb, ih hbs, List.cons_append]

lemma blocks_append (hn : 0 < n) {a : List α} (ha : n ∣ a.length) (m : List α) :
    blocks n (a ++ m) = blocks n a ++ blocks n m := by
  obtain ⟨q, hq⟩ := ha
  induction q generalizing a with
  | zero =>
      obtain rfl := List.eq_nil_of_length_eq_zero hq
      rw [List.nil_append, blocks_nil, List.nil_append]
  | succ q ih =>
      have hlen : n ≤ a.length := by
        rw [hq]
        exact Nat.le_mul_of_pos_right n (Nat.succ_pos q)
      have hfirst : (a.take n).length = n := List.length_take_of_le hlen
      have hrest : (a.drop n).length = n * q := by
        rw [List.length_drop, hq, Nat.mul_succ, Nat.add_sub_cancel]
      rw [← List.take_append_drop n a, List.append_assoc, blocks_cons hn hfirst,
        blocks_cons hn hfirst, ih hrest, List.cons_append]

variable {f : σ → List α → σ} {s t : σ} {m tail : List α}

/-- After the text `m` the fold that began at `s` is at `t`, and `tail` has not been folded in. -/
def Absorbed (n : ℕ) (f : σ → List α → σ) (s : σ) (m : List α) (t : σ) (tail : List α) : Prop :=
  ∃ bs : List (List α), (∀ b ∈ bs, b.length = n) ∧ m = bs.flatten ++ tail ∧ t = bs.foldl f s

lemma Absorbed.nil : Absorbed n f s [] s [] := ⟨[], by simp, rfl, rfl⟩

lemma Absorbed.append (h : Absorbed n f s m t tail) (piece : List α) :
    Absorbed n f s (m ++ piece) t (tail ++ piece) := by
  obtain ⟨bs, hbs, rfl, rfl⟩ := h
  exact ⟨bs, hbs, List.append_assoc _ _ _, rfl⟩

lemma Absorbed.fold (h : Absorbed n f s m t tail) (htail : tail.length = n) :
    Absorbed n f s m (f t tail) [] := by
  obtain ⟨bs, hbs, rfl, rfl⟩ := h
  refine ⟨bs ++ [tail], ?_, by simp, by rw [List.foldl_append]; rfl⟩
  intro b hb
  rcases List.mem_append.mp hb with hb | hb
  · exact hbs b hb
  · rw [List.mem_singleton.mp hb, htail]

/-- The part left over is as long as the text, up to full blocks. -/
lemma Absorbed.length_mod (h : Absorbed n f s m t tail) : m.length % n = tail.length % n := by
  obtain ⟨bs, hbs, rfl, rfl⟩ := h
  have hlengths : bs.map List.length = List.replicate bs.length n :=
    List.map_eq_replicate_iff.mpr hbs
  rw [List.length_append, List.length_flatten, hlengths, List.sum_replicate_nat, Nat.mul_add_mod']

/-- With nothing left over the state is the fold over the blocks of the text. -/
lemma Absorbed.eq_foldl (hn : 0 < n) (h : Absorbed n f s m t []) : t = (blocks n m).foldl f s := by
  obtain ⟨bs, hbs, rfl, rfl⟩ := h
  rw [blocks_flatten_append hn hbs, blocks_nil, List.append_nil]

end BlockStream
