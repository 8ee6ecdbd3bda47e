import Mathlib.Algebra.Field.Defs
import Mathlib.Algebra.Group.Hom.Basic
import Mathlib.Logic.Function.Iterate

/-!
# Fields presented by a discrete logarithm

A finite field is often implemented by two tables: the powers of a generator and the
logarithms of the nonzero elements.  This file says what such a pair of tables has to satisfy
for the result to be a field, over an arbitrary additive commutative group.

`CyclicPresentation A` is the datum: an additive map `shift` (multiplication by the
generator), a unit `one` that `shift` brings back after `period` applications, and a `log`
with `shift^[log a] one = a` for every `a ≠ 0`.  Nothing is assumed about products.  The
product `a * b` is then `shift^[log a] b`, and the field laws follow from one observation,
`iterate_congr`: an iterate of `shift` is determined by its value at `one`.

`CyclicPresentation.field` packages the result on the given additive group, so additions of
the field are definitionally those of the group.  `map_mul'` compares it with another ring.
-/

/-- A generator-and-logarithm presentation of multiplication on an additive group. -/
structure CyclicPresentation (A : Type*) [AddCommGroup A] where
  /-- Multiplication by the generator. -/
  shift : A →+ A
  /-- The unit, the zeroth power of the generator. -/
  one : A
  /-- A positive number of shifts that returns the unit to itself. -/
  period : ℕ
  /-- The exponent of a nonzero element. -/
  log : A → ℕ
  one_ne_zero : one ≠ 0
  period_pos : 0 < period
  shift_period : shift^[period] one = one
  shift_log : ∀ a, a ≠ 0 → shift^[log a] one = a

namespace CyclicPresentation

variable {A : Type*} [AddCommGroup A] (P : CyclicPresentation A)

/-! ## Iterates of the shift -/

lemma iterate_zero_arg (k : ℕ) : P.shift^[k] 0 = 0 :=
  Function.iterate_fixed (map_zero P.shift) k

lemma iterate_add_arg (k : ℕ) (a b : A) :
    P.shift^[k] (a + b) = P.shift^[k] a + P.shift^[k] b := by
  induction k generalizing a b with
  | zero => rfl
  | succ k ih => rw [Function.iterate_succ_apply, map_add, ih, ← Function.iterate_succ_apply,
      ← Function.iterate_succ_apply]

/-- An iterate of the shift is determined by its value at the unit. -/
lemma iterate_congr {j k : ℕ} (h : P.shift^[j] P.one = P.shift^[k] P.one) (c : A) :
    P.shift^[j] c = P.shift^[k] c := by
  by_cases hc : c = 0
  · rw [hc, P.iterate_zero_arg, P.iterate_zero_arg]
  · rw [← P.shift_log c hc, ← Function.iterate_add_apply, ← Function.iterate_add_apply,
      Nat.add_comm j, Nat.add_comm k, Function.iterate_add_apply, Function.iterate_add_apply, h]

lemma iterate_period_mul (k : ℕ) : P.shift^[P.period * k] P.one = P.one := by
  rw [Function.iterate_mul]
  exact Function.iterate_fixed P.shift_period k

/-- No power of the generator vanishes: it would stay zero up to the next multiple of the
period, where the power is the unit. -/
lemma iterate_one_ne_zero (k : ℕ) : P.shift^[k] P.one ≠ 0 := by
  intro h
  apply P.one_ne_zero
  have hle : k ≤ P.period * k := Nat.le_mul_of_pos_left k P.period_pos
  rw [← P.iterate_period_mul k, ← Nat.sub_add_cancel hle, Function.iterate_add_apply, h,
    P.iterate_zero_arg]

/-! ## The product and the inverse -/

section Operations

variable [DecidableEq A]

/-- The product: shift the right factor by the logarithm of the left one. -/
def mul (a b : A) : A := if a = 0 then 0 else P.shift^[P.log a] b

/-- The inverse: the power that completes the logarithm to a multiple of the period. -/
def inv (a : A) : A := if a = 0 then 0 else P.shift^[P.period * P.log a - P.log a] P.one

lemma zero_mul' (b : A) : P.mul 0 b = 0 := if_pos rfl

lemma mul_of_ne_zero {a : A} (ha : a ≠ 0) (b : A) : P.mul a b = P.shift^[P.log a] b :=
  if_neg ha

lemma mul_zero' (a : A) : P.mul a 0 = 0 := by
  by_cases ha : a = 0
  · rw [ha, P.zero_mul']
  · rw [P.mul_of_ne_zero ha, P.iterate_zero_arg]

/-- Any exponent of the left factor may be used in place of its logarithm. -/
lemma mul_of_iterate {a : A} {k : ℕ} (h : P.shift^[k] P.one = a) (b : A) :
    P.mul a b = P.shift^[k] b := by
  have ha : a ≠ 0 := h ▸ P.iterate_one_ne_zero k
  rw [P.mul_of_ne_zero ha]
  exact P.iterate_congr ((P.shift_log a ha).trans h.symm) b

lemma mul_iterate_iterate (j k : ℕ) :
    P.mul (P.shift^[j] P.one) (P.shift^[k] P.one) = P.shift^[j + k] P.one := by
  rw [P.mul_of_iterate rfl, Function.iterate_add_apply]

lemma mul_comm' (a b : A) : P.mul a b = P.mul b a := by
  by_cases ha : a = 0
  · rw [ha, P.zero_mul', P.mul_zero']
  · by_cases hb : b = 0
    · rw [hb, P.zero_mul', P.mul_zero']
    · rw [← P.shift_log a ha, ← P.shift_log b hb, P.mul_iterate_iterate, P.mul_iterate_iterate,
        Nat.add_comm]

lemma one_mul' (a : A) : P.mul P.one a = a :=
  P.mul_of_iterate (k := 0) rfl a

lemma mul_add' (a b c : A) : P.mul a (b + c) = P.mul a b + P.mul a c := by
  by_cases ha : a = 0
  · rw [ha, P.zero_mul', P.zero_mul', P.zero_mul', add_zero]
  · rw [P.mul_of_ne_zero ha, P.mul_of_ne_zero ha, P.mul_of_ne_zero ha, P.iterate_add_arg]

lemma mul_assoc' (a b c : A) : P.mul (P.mul a b) c = P.mul a (P.mul b c) := by
  by_cases ha : a = 0
  · rw [ha, P.zero_mul', P.zero_mul', P.zero_mul']
  · by_cases hb : b = 0
    · rw [hb, P.mul_zero', P.zero_mul', P.mul_zero']
    · rw [← P.shift_log a ha, ← P.shift_log b hb, P.mul_iterate_iterate, P.mul_of_iterate rfl,
        P.mul_of_iterate rfl, P.mul_of_iterate rfl, Function.iterate_add_apply]

lemma mul_inv' {a : A} (ha : a ≠ 0) : P.mul a (P.inv a) = P.one := by
  have hle : P.log a ≤ P.period * P.log a := Nat.le_mul_of_pos_left _ P.period_pos
  rw [P.mul_of_ne_zero ha, inv, if_neg ha, ← Function.iterate_add_apply, Nat.add_sub_cancel' hle,
    P.iterate_period_mul]

/-- An additive map that turns the shift into multiplication by an element turns products into
products. -/
lemma map_mul' {R : Type*} [CommRing R] (f : A →+ R) (r : R) (hone : f P.one = 1)
    (hshift : ∀ a, f (P.shift a) = r * f a) (a b : A) : f (P.mul a b) = f a * f b := by
  have hiterate : ∀ k c, f (P.shift^[k] c) = r ^ k * f c := by
    intro k
    induction k with
    | zero => exact fun c => by rw [Function.iterate_zero_apply, pow_zero, one_mul]
    | succ k ih =>
        exact fun c => by rw [Function.iterate_succ_apply', hshift, ih, pow_succ', mul_assoc]
  by_cases ha : a = 0
  · rw [ha, P.zero_mul', map_zero, zero_mul]
  · have hlog := hiterate (P.log a) P.one
    rw [P.shift_log a ha, hone, mul_one] at hlog
    rw [P.mul_of_ne_zero ha, hiterate, hlog]

/-- The field presented by `P`, on the additive group it was given over. -/
abbrev field : Field A where
  mul := P.mul
  one := P.one
  inv := P.inv
  left_distrib := P.mul_add'
  right_distrib a b c := by
    show P.mul (a + b) c = P.mul a c + P.mul b c
    rw [P.mul_comm', P.mul_add', P.mul_comm' c a, P.mul_comm' c b]
  zero_mul := P.zero_mul'
  mul_zero := P.mul_zero'
  mul_assoc := P.mul_assoc'
  one_mul := P.one_mul'
  mul_one a := (P.mul_comm' a P.one).trans (P.one_mul' a)
  mul_comm := P.mul_comm'
  exists_pair_ne := ⟨P.one, 0, P.one_ne_zero⟩
  mul_inv_cancel _ ha := P.mul_inv' ha
  inv_zero := if_pos rfl
  sub_eq_add_neg := sub_eq_add_neg
  zsmul := (· • ·)
  zsmul_zero' := SubNegMonoid.zsmul_zero'
  zsmul_succ' := SubNegMonoid.zsmul_succ'
  zsmul_neg' := SubNegMonoid.zsmul_neg'
  neg_add_cancel := neg_add_cancel
  nnqsmul := _
  nnqsmul_def := fun _ _ => rfl
  qsmul := _
  qsmul_def := fun _ _ => rfl

end Operations

end CyclicPresentation
