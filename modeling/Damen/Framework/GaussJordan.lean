import Mathlib.Algebra.BigOperators.GroupWithZero.Action
import Mathlib.Algebra.Module.BigOperators
import Mathlib.Algebra.Module.Pi
import Mathlib.LinearAlgebra.Matrix.ToLinearEquiv
import Mathlib.LinearAlgebra.Vandermonde
import Mathlib.Tactic.Abel

/-!
# Gauss–Jordan elimination with right-hand sides in a module

A square system over a field `K` whose unknowns live in a `K`-module `V`: the coefficients are
`A : Fin m → Fin m → K`, the right-hand sides `s : Fin m → V`, and `Solves A s x` says that `x`
satisfies every equation.  Erasure decoders solve such systems one column at a time, with whole
blocks of data as unknowns, so the right-hand side is kept abstract.

One column of the sweep is `pivotCoef`/`pivotRhs`: swap the chosen row into place, scale it to a
unit pivot, subtract it from all the others.  Three facts carry every use of it:

* `solves_pivot_iff` — a step with a nonzero pivot changes no solution;
* `reduced_pivot` — it extends the reduced columns by one;
* `exists_pivot` — a system with trivial kernel always offers a nonzero pivot.

When all columns are reduced the right-hand side is the solution (`eq_of_reduced_solves`).  Systems
of powers of distinct points are regular (`regular_of_pow_progression`); a regular system has
neither a zero column nor two equal ones, and its determinant is not zero
(`regular_iff_det_ne_zero`).
-/

namespace GaussJordan

variable {K V : Type*} [Field K] [AddCommGroup V] [Module K V] {m : ℕ}

/-- `x` satisfies every equation of the system `(A, s)`. -/
def Solves (A : Fin m → Fin m → K) (s : Fin m → V) (x : Fin m → V) : Prop :=
  ∀ r, ∑ c, A r c • x c = s r

/-- Only the zero vector is annihilated by every row. -/
def Regular (A : Fin m → Fin m → K) : Prop :=
  ∀ y : Fin m → K, Solves A 0 y → y = 0

/-- The columns below `col` are unit columns. -/
def Reduced (col : ℕ) (A : Fin m → Fin m → K) : Prop :=
  ∀ r c : Fin m, c.val < col → A r c = if r = c then 1 else 0

/-! ## One column of the sweep -/

/-- Rows `p` and `q` exchanged. -/
def swapRows {W : Type*} (p q : Fin m) (f : Fin m → W) : Fin m → W :=
  fun r => f (Equiv.swap p q r)

/-- The coefficients after pivoting on row `p` in column `col`. -/
def pivotCoef (col p : Fin m) (A : Fin m → Fin m → K) : Fin m → Fin m → K :=
  fun r c =>
    if r = col then A p c * (A p col)⁻¹
    else swapRows p col A r c - swapRows p col A r col * (A p c * (A p col)⁻¹)

/-- The right-hand sides after pivoting on row `p` in column `col`. -/
def pivotRhs (col p : Fin m) (A : Fin m → Fin m → K) (s : Fin m → V) : Fin m → V :=
  fun r =>
    if r = col then (A p col)⁻¹ • s p
    else swapRows p col s r - swapRows p col A r col • ((A p col)⁻¹ • s p)

variable {A : Fin m → Fin m → K} {s : Fin m → V} {col : Fin m}

lemma solves_swapRows_iff {x : Fin m → V} (p q : Fin m) :
    Solves (swapRows p q A) (swapRows p q s) x ↔ Solves A s x := by
  constructor
  · intro h r
    simpa [swapRows] using h (Equiv.swap p q r)
  · intro h r
    exact h (Equiv.swap p q r)

/-- The dot product with the pivoted row, in terms of the rows before the step. -/
lemma sum_pivotCoef_pivot (col p : Fin m) (A : Fin m → Fin m → K) (x : Fin m → V) :
    ∑ c, pivotCoef col p A col c • x c = (A p col)⁻¹ • ∑ c, A p c • x c := by
  rw [Finset.smul_sum]
  refine Finset.sum_congr rfl (fun c _ => ?_)
  rw [pivotCoef, if_pos rfl, smul_smul, mul_comm]

lemma sum_pivotCoef_of_ne {r : Fin m} (hr : r ≠ col) (p : Fin m) (A : Fin m → Fin m → K)
    (x : Fin m → V) :
    ∑ c, pivotCoef col p A r c • x c =
      ∑ c, swapRows p col A r c • x c
        - swapRows p col A r col • ((A p col)⁻¹ • ∑ c, A p c • x c) := by
  rw [← sum_pivotCoef_pivot, Finset.smul_sum, ← Finset.sum_sub_distrib]
  refine Finset.sum_congr rfl (fun c _ => ?_)
  simp only [pivotCoef, if_neg hr, if_true, sub_smul, smul_smul]

/-- A pivoting step with a nonzero pivot has exactly the solutions of the system it started
from. -/
lemma solves_pivot_iff {x : Fin m → V} {p : Fin m} (hp : A p col ≠ 0) :
    Solves (pivotCoef col p A) (pivotRhs col p A s) x ↔ Solves A s x := by
  rw [← solves_swapRows_iff (A := A) (s := s) p col]
  have hswap : swapRows p col A col = A p := by simp [swapRows]
  have hswaps : swapRows p col s col = s p := by simp [swapRows]
  constructor
  · intro h
    -- Row `col` gives back the unscaled pivot equation, and then every other row its own.
    have hpivot : ∑ c, A p c • x c = s p := by
      have hcol := h col
      rw [sum_pivotCoef_pivot, pivotRhs, if_pos rfl] at hcol
      rwa [inv_smul_eq_iff₀ hp, smul_inv_smul₀ hp] at hcol
    intro r
    by_cases hr : r = col
    · rw [hr, hswap, hswaps, hpivot]
    · have hrow := h r
      rw [sum_pivotCoef_of_ne hr, pivotRhs, if_neg hr, hpivot] at hrow
      exact sub_left_injective hrow
  · intro h
    have hpivot : ∑ c, A p c • x c = s p := by
      have hcol := h col
      rwa [hswap, hswaps] at hcol
    intro r
    by_cases hr : r = col
    · rw [hr, sum_pivotCoef_pivot, hpivot, pivotRhs, if_pos rfl]
    · rw [sum_pivotCoef_of_ne hr, hpivot, h r, pivotRhs, if_neg hr]

lemma pivotRhs_zero (col p : Fin m) (A : Fin m → Fin m → K) :
    pivotRhs col p A (0 : Fin m → V) = 0 := by
  funext r
  by_cases hr : r = col <;> simp [pivotRhs, swapRows, hr]

lemma regular_pivot_iff {p : Fin m} (hp : A p col ≠ 0) :
    Regular (pivotCoef col p A) ↔ Regular A := by
  refine forall_congr' fun y => ?_
  rw [← solves_pivot_iff hp, pivotRhs_zero]

/-! ## Progress of the sweep -/

/-- The row that is swapped in is zero in every column already reduced. -/
lemma Reduced.eq_zero {r c : Fin m} (h : Reduced col A) (hr : col ≤ r) (hc : c < col) :
    A r c = 0 := by
  rw [h r c hc, if_neg]
  rintro rfl
  exact absurd hr (not_le.mpr hc)

lemma reduced_pivot {p : Fin m} (h : Reduced col A) (hcol : col ≤ p) (hp : A p col ≠ 0) :
    Reduced (col + 1) (pivotCoef col p A) := by
  intro r c hc
  rcases Nat.lt_succ_iff_lt_or_eq.mp hc with hlt | heq
  · -- An old column: the pivot row is zero there, so no row changes.
    have hzero : A p c = 0 := h.eq_zero hcol hlt
    have hcol0 : A col c = 0 := h.eq_zero le_rfl hlt
    by_cases hr : r = col
    · subst hr
      rw [pivotCoef, if_pos rfl, hzero, zero_mul, if_neg (Fin.ne_of_gt hlt)]
    · rw [pivotCoef, if_neg hr, hzero, zero_mul, mul_zero, sub_zero, swapRows]
      by_cases hrp : r = p
      · subst hrp
        rw [Equiv.swap_apply_left, hcol0, if_neg]
        rintro rfl
        exact absurd hcol (not_le.mpr hlt)
      · rw [Equiv.swap_apply_of_ne_of_ne hrp hr, h r c hlt]
  · -- The new column: scaled to one in the pivot row, cleared elsewhere.
    have hceq : c = col := Fin.ext heq
    subst hceq
    by_cases hr : r = c
    · rw [pivotCoef, if_pos hr, if_pos hr, mul_inv_cancel₀ hp]
    · rw [pivotCoef, if_neg hr, if_neg hr, mul_inv_cancel₀ hp, mul_one, sub_self]

/-- The kernel vector read off a column without pivots: `1` at `col`, the negated column above
it, zero below. -/
def kernelVector (col : Fin m) (A : Fin m → Fin m → K) : Fin m → K :=
  fun c => if c < col then -A c col else if c = col then 1 else 0

lemma solves_kernelVector (h : Reduced col A) (hzero : ∀ r, col ≤ r → A r col = 0) :
    Solves A 0 (kernelVector col A) := by
  intro r
  have hterm : ∀ c, A r c • kernelVector col A c =
      (if c = r then (if r < col then -A r col else 0) else 0)
        + (if c = col then A r col else 0) := by
    intro c
    by_cases hc : c < col
    · rw [kernelVector, if_pos hc, h r c hc, if_neg (ne_of_lt hc), add_zero, smul_eq_mul]
      by_cases hrc : r = c
      · subst hrc
        simp [hc]
      · rw [if_neg hrc, if_neg (Ne.symm hrc), zero_mul]
    · by_cases hceq : c = col
      · subst hceq
        rw [kernelVector, if_neg hc, if_pos rfl, smul_eq_mul, mul_one, if_pos rfl]
        by_cases hrc : c = r
        · subst hrc
          simp
        · rw [if_neg hrc, zero_add]
      · rw [kernelVector, if_neg hc, if_neg hceq, smul_zero, if_neg hceq, add_zero]
        by_cases hrc : c = r
        · subst hrc
          rw [if_pos rfl, if_neg hc]
        · rw [if_neg hrc]
  rw [Finset.sum_congr rfl (fun c _ => hterm c), Finset.sum_add_distrib,
    Finset.sum_ite_eq' Finset.univ r, Finset.sum_ite_eq' Finset.univ col]
  by_cases hr : r < col
  · simp [hr]
  · simp [hr, hzero r (not_lt.mp hr)]

/-- A system with trivial kernel always offers a pivot in the next column. -/
lemma exists_pivot (col : Fin m) (h : Reduced col A) (hreg : Regular A) :
    ∃ p, col ≤ p ∧ A p col ≠ 0 := by
  by_contra hnone
  push Not at hnone
  have hker := hreg _ (solves_kernelVector h hnone)
  have hone : kernelVector col A col = 1 := by simp [kernelVector]
  rw [hker] at hone
  exact zero_ne_one hone

/-- Once every column is reduced, the right-hand sides are the solution. -/
lemma eq_of_reduced_solves {x : Fin m → V} (h : Reduced m A) (hx : Solves A s x) : x = s := by
  funext r
  rw [← hx r]
  simp [h r _ (Fin.isLt _)]

lemma regular_of_reduced (h : Reduced m A) : Regular A :=
  fun _ hy => eq_of_reduced_solves h hy

/-! ## What a regular system rules out -/

lemma sum_smul_single (A : Fin m → Fin m → K) (r c : Fin m) :
    ∑ i, A r i • Pi.single c (1 : K) i = A r c := by
  simp [Pi.single_apply]

/-- No column is zero. -/
lemma Regular.exists_ne_zero (h : Regular A) (c : Fin m) : ∃ r, A r c ≠ 0 := by
  by_contra hnone
  push Not at hnone
  have hker := h (Pi.single c 1) fun r => by
    rw [sum_smul_single, hnone r]
    rfl
  have hat := congrFun hker c
  rw [Pi.single_eq_same] at hat
  exact one_ne_zero hat

/-- No two columns are the same. -/
lemma Regular.injective_columns (h : Regular A) : Function.Injective fun c r => A r c := by
  intro c c' hcols
  by_contra hne
  have hker := h (Pi.single c 1 - Pi.single c' 1) fun r => by
    simp only [Pi.sub_apply, smul_sub, Finset.sum_sub_distrib, sum_smul_single]
    exact sub_eq_zero.mpr (congrFun hcols r)
  have hat := congrFun hker c
  rw [Pi.sub_apply, Pi.single_eq_same, Pi.single_eq_of_ne hne, sub_zero] at hat
  exact one_ne_zero hat

lemma regular_iff_det_ne_zero : Regular A ↔ (Matrix.of A).det ≠ 0 := by
  have hsolves : ∀ y : Fin m → K, Solves A 0 y ↔ (Matrix.of A).mulVec y = 0 :=
    fun y => funext_iff.symm
  rw [ne_eq, ← Matrix.exists_mulVec_eq_zero_iff]
  constructor
  · rintro h ⟨y, hne, hy⟩
    exact hne (h y ((hsolves y).mpr hy))
  · intro h y hy
    by_contra hne
    exact h ⟨y, hne, (hsolves y).mp hy⟩

/-! ## Vandermonde systems -/

/-- Powers of distinct points along an arithmetic progression of exponents form a regular
system.  A point may be zero if the exponents start at zero. -/
lemma regular_of_pow_progression {x : Fin m → K} {a d : ℕ} (hx : ∀ c, x c ^ a ≠ 0)
    (hinj : Function.Injective fun c => x c ^ d) (hA : ∀ r c, A r c = x c ^ (a + d * r.val)) :
    Regular A := by
  intro y hy
  have hzero : (fun c => x c ^ a * y c) = 0 := by
    refine Matrix.eq_zero_of_forall_pow_sum_mul_pow_eq_zero hinj fun r => ?_
    refine Eq.trans (Finset.sum_congr rfl fun c _ => ?_) (hy r)
    rw [hA, smul_eq_mul, pow_add, pow_mul]
    ring
  funext c
  exact (mul_eq_zero.mp (congrFun hzero c)).resolve_left (hx c)

end GaussJordan
