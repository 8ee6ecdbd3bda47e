import Mathlib.Algebra.CharP.Two
import Mathlib.Algebra.Field.ZMod
import Mathlib.RingTheory.AdjoinRoot

/-!
# Words as polynomials

A word of `n` bits stands for a polynomial over the field with two elements, bit `i` being the
coefficient of `X ^ i`.  Exclusive or is addition (`poly_xor`).  Modulo `X ^ n + low` a word is
determined by its residue (`mk_poly_injective`), and a shift to the left that adds `low` when a one
falls out is multiplication by `X` (`mk_poly_shift`).  Every residue is that of a word
(`mk_poly_surjective`).
-/

namespace BitPolynomial

open Polynomial

variable {n : ℕ}

/-- The word whose bit `i` is `b i`. -/
def word (n : ℕ) (b : ℕ → Bool) : BitVec n :=
  (BitVec.ofBoolListLE ((List.range n).map b)).cast (by rw [List.length_map, List.length_range])

lemma getLsbD_word (b : ℕ → Bool) {i : ℕ} (hi : i < n) : (word n b).getLsbD i = b i := by
  rw [word, BitVec.getLsbD_cast, BitVec.getLsbD_ofBoolListLE]
  simp [hi]

/-- A bit as an element of the field. -/
def coefficient (b : Bool) : ZMod 2 := if b then 1 else 0

lemma coefficient_xor (a b : Bool) : coefficient (a ^^ b) = coefficient a + coefficient b := by
  cases a <;> cases b <;> decide

lemma coefficient_injective : Function.Injective coefficient := by
  intro a b
  cases a <;> cases b <;> decide

/-- The polynomial of a word. -/
noncomputable def poly (a : BitVec n) : (ZMod 2)[X] :=
  ∑ i ∈ Finset.range n, monomial i (coefficient (a.getLsbD i))

lemma coeff_poly (a : BitVec n) (i : ℕ) : (poly a).coeff i = coefficient (a.getLsbD i) := by
  simp only [poly, finsetSum_coeff, coeff_monomial]
  rw [Finset.sum_ite_eq' (Finset.range n) i fun i => coefficient (a.getLsbD i)]
  split
  · rfl
  · next hi =>
    rw [BitVec.getLsbD_of_ge a i (not_lt.mp (mt Finset.mem_range.mpr hi))]
    rfl

lemma poly_xor (a b : BitVec n) : poly (a ^^^ b) = poly a + poly b := by
  ext i
  rw [coeff_add, coeff_poly, coeff_poly, coeff_poly, BitVec.getLsbD_xor, coefficient_xor]

lemma poly_injective : Function.Injective (poly (n := n)) := by
  intro a b h
  apply BitVec.eq_of_getLsbD_eq
  intro i _
  apply coefficient_injective
  rw [← coeff_poly, ← coeff_poly, h]

lemma degree_poly_lt (a : BitVec n) : (poly a).degree < n := by
  rw [degree_lt_iff_coeff_zero]
  intro i hi
  rw [coeff_poly, BitVec.getLsbD_of_ge a i hi]
  rfl

/-- The bit that falls out of a shift is the coefficient that is taken away. -/
lemma poly_shiftLeft_one (a : BitVec (n + 1)) :
    poly (a <<< 1) + monomial (n + 1) (coefficient a.msb) = X * poly a := by
  ext i
  cases i with
  | zero =>
      rw [coeff_add, coeff_poly, coeff_monomial, coeff_X_mul_zero, if_neg (Nat.succ_ne_zero n)]
      simp [coefficient]
  | succ i =>
      rw [coeff_add, coeff_poly, coeff_monomial, coeff_X_mul, coeff_poly,
        BitVec.msb_eq_getLsbD_last, Nat.add_sub_cancel, BitVec.getLsbD_shiftLeft,
        Nat.add_sub_cancel]
      rcases lt_trichotomy i n with hlt | rfl | hgt
      · rw [if_neg (by omega), add_zero]
        simp [hlt]
      · rw [if_pos rfl]
        simp [coefficient]
      · rw [if_neg (by omega), BitVec.getLsbD_of_ge a i hgt]
        simp [coefficient]

section Quotient

variable {f : (ZMod 2)[X]} {low : BitVec n}

lemma mk_poly_injective (hf : f = X ^ n + poly low) :
    Function.Injective fun a : BitVec n => AdjoinRoot.mk f (poly a) := by
  intro a b h
  have hdvd : f ∣ poly a - poly b := AdjoinRoot.mk_eq_mk.mp h
  have hmonic : f.Monic := hf ▸ monic_X_pow_add (degree_poly_lt low)
  have hlow : (poly low).degree < (X ^ n : (ZMod 2)[X]).degree := by
    rw [degree_X_pow]
    exact degree_poly_lt low
  have hdegree : (poly a - poly b).degree < f.degree := by
    rw [hf, degree_add_eq_left_of_degree_lt hlow, degree_X_pow]
    exact (degree_sub_le _ _).trans_lt (max_lt (degree_poly_lt a) (degree_poly_lt b))
  by_contra hne
  refine hmonic.not_dvd_of_degree_lt (fun hzero => hne ?_) hdegree hdvd
  exact poly_injective (sub_eq_zero.mp hzero)

end Quotient

variable {low : BitVec (n + 1)}

/-- A shift to the left with reduction is multiplication by the residue of `X`. -/
lemma mk_poly_shift {f : (ZMod 2)[X]} (hf : f = X ^ (n + 1) + poly low) (a : BitVec (n + 1)) :
    AdjoinRoot.mk f (poly (if a.msb then (a <<< 1) ^^^ low else a <<< 1)) =
      AdjoinRoot.root f * AdjoinRoot.mk f (poly a) := by
  have hmul : AdjoinRoot.root f * AdjoinRoot.mk f (poly a) = AdjoinRoot.mk f (X * poly a) := by
    rw [map_mul, AdjoinRoot.mk_X]
  rw [hmul, ← poly_shiftLeft_one, map_add]
  cases a.msb with
  | false => simp [coefficient]
  | true =>
      -- Modulo `f` the top power is `low`, since `1 + 1 = 0`.
      have htop : AdjoinRoot.mk f (monomial (n + 1) 1) = AdjoinRoot.mk f (poly low) := by
        rw [AdjoinRoot.mk_eq_mk, CharTwo.sub_eq_add, monomial_one_right_eq_X_pow, hf]
      rw [show coefficient true = 1 from rfl, htop, if_pos rfl, poly_xor, map_add]

lemma poly_zero : poly 0#n = 0 := by
  ext i
  rw [coeff_poly, coeff_zero, BitVec.getLsbD_zero]
  rfl

lemma poly_one : poly 1#(n + 1) = 1 := by
  ext i
  rw [coeff_poly, coeff_one, BitVec.getLsbD_one]
  by_cases hi : i = 0 <;> simp [coefficient, hi]

/-- Every residue is that of a word: the words reach the powers of `X` by shifts and the rest by
sums. -/
lemma mk_poly_surjective {f : (ZMod 2)[X]} (hf : f = X ^ (n + 1) + poly low) :
    Function.Surjective fun a : BitVec (n + 1) => AdjoinRoot.mk f (poly a) := by
  intro y
  obtain ⟨p, rfl⟩ := AdjoinRoot.mk_surjective y
  induction p using Polynomial.induction_on' with
  | add p q hp hq =>
      obtain ⟨a, ha⟩ := hp
      obtain ⟨b, hb⟩ := hq
      refine ⟨a ^^^ b, ?_⟩
      simp only [poly_xor, map_add] at ha hb ⊢
      rw [ha, hb]
  | monomial k c =>
      have hpower : ∃ a : BitVec (n + 1), AdjoinRoot.mk f (poly a) = AdjoinRoot.mk f (X ^ k) := by
        induction k with
        | zero => exact ⟨1#(n + 1), by rw [poly_one, pow_zero]⟩
        | succ k ih =>
            obtain ⟨a, ha⟩ := ih
            exact ⟨_, by rw [mk_poly_shift hf a, ha, pow_succ', map_mul, AdjoinRoot.mk_X]⟩
      rcases (by decide : ∀ c : ZMod 2, c = 0 ∨ c = 1) c with rfl | rfl
      · exact ⟨0#(n + 1), by simp only [poly_zero, monomial_zero_right]⟩
      · rw [monomial_one_right_eq_X_pow]
        exact hpower

end BitPolynomial
