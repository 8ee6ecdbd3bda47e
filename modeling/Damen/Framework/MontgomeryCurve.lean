import Mathlib.AlgebraicGeometry.EllipticCurve.Affine.Point
import Mathlib.Tactic.FieldSimp
import Mathlib.Tactic.LinearCombination

/-!
# Arithmetic of x-coordinates on a Montgomery curve

The curve `y² = x³ + A x² + x` over a field in which `2` and `A² - 4` are not zero; it is a
Weierstrass curve, and its group is that of Mathlib.  A pair `(X : Z)` represents the x-coordinate
of a point (`Represents`): `X / Z` for a point in the plane, `X / 0` for the point at infinity.

* `Represents.double`: the x-coordinate of twice a point.
* `Represents.add`: the x-coordinate of a sum, from that of the difference.
* `xCoord`: the x-coordinate as an element of the field, zero at infinity.  It is what a pair stands
  for (`Represents.div_eq`).
-/

namespace Montgomery

open WeierstrassCurve.Affine

variable {F : Type} [Field F]

/-- `y² = x³ + A x² + x`. -/
def curve (A : F) : WeierstrassCurve.Affine F where
  a₁ := 0
  a₂ := A
  a₃ := 0
  a₄ := 1
  a₆ := 0

variable {A x y : F}

lemma negY_eq : (curve A).negY x y = -y := by
  simp [curve, negY]

lemma equation_iff_eq : (curve A).Equation x y ↔ y ^ 2 = x ^ 3 + A * x ^ 2 + x := by
  simp [equation_iff, curve]

/-- The assumptions under which the curve is smooth. -/
structure Smooth (A : F) : Prop where
  two_ne_zero : (2 : F) ≠ 0
  sq_ne_four : A ^ 2 ≠ 4

/-- Every solution is a point. -/
lemma Smooth.nonsingular (hA : Smooth A) (h : y ^ 2 = x ^ 3 + A * x ^ 2 + x) :
    (curve A).Nonsingular x y := by
  refine (equation_iff_nonsingular_of_Δ_ne_zero ?_).mp (equation_iff_eq.mpr h)
  have hΔ : (curve A).Δ = 2 ^ 4 * (A ^ 2 - 4) := by
    simp only [curve, WeierstrassCurve.Δ, WeierstrassCurve.b₂, WeierstrassCurve.b₄,
      WeierstrassCurve.b₆, WeierstrassCurve.b₈]
    ring
  rw [hΔ]
  exact mul_ne_zero (pow_ne_zero 4 hA.two_ne_zero) (sub_ne_zero.mpr hA.sq_ne_four)

/-- `(X : Z)` is the x-coordinate of the point. -/
def Represents (X Z : F) (P : (curve A).Point) : Prop :=
  ∃ c, c ≠ 0 ∧ X = c * P.xRep 0 ∧ Z = c * P.xRep 1

variable {X Z : F} {P : (curve A).Point}

lemma represents_zero_iff : Represents X Z (0 : (curve A).Point) ↔ X ≠ 0 ∧ Z = 0 := by
  constructor
  · rintro ⟨c, hc, rfl, rfl⟩
    simpa using hc
  · rintro ⟨hX, rfl⟩
    exact ⟨X, hX, by simp⟩

lemma represents_some_iff {h : (curve A).Nonsingular x y} :
    Represents X Z (Point.some x y h) ↔ Z ≠ 0 ∧ X = x * Z := by
  constructor
  · rintro ⟨c, hc, rfl, rfl⟩
    simpa [mul_comm] using hc
  · rintro ⟨hZ, rfl⟩
    exact ⟨Z, hZ, by simp [mul_comm]⟩

lemma Represents.eq_zero (h : Represents X 0 P) : P = 0 := by
  cases P with
  | zero => rfl
  | some x y hP => exact absurd rfl (represents_some_iff.mp h).1

lemma represents_neg_iff : Represents X Z (-P) ↔ Represents X Z P := by
  rw [Represents, Represents, Point.xRep_neg]

/-- A point with vertical tangent does not have the x-coordinate one or minus one. -/
lemma Smooth.sq_ne_one_of_root (hA : Smooth A) (hroot : x ^ 3 + A * x ^ 2 + x = 0) : x ^ 2 ≠ 1 := by
  intro hone
  have hlin : 2 + A * x = 0 := by
    linear_combination x * hroot - (x ^ 2 + A * x + 2) * hone
  apply hA.sq_ne_four
  linear_combination (A * x - 2) * hlin - A ^ 2 * hone

lemma Smooth.four_mul_sq_ne_zero (hA : Smooth A) (hx : x ≠ 0) : 4 * x ^ 2 ≠ 0 := by
  have hsq : 4 * x ^ 2 = (2 * x) ^ 2 := by ring
  rw [hsq]
  exact pow_ne_zero 2 (mul_ne_zero hA.two_ne_zero hx)

/-- The point at infinity has the pair `(X' : 0)`. -/
lemma Represents.add_infinity (hA : Smooth A) {X' : F} {hD : (curve A).Nonsingular x y}
    (h : Represents X Z (Point.some x y hD)) (hX' : X' ≠ 0) (hx : x ≠ 0) :
    Represents (4 * (X * X') ^ 2) (x * (4 * (Z * X') ^ 2)) (Point.some x y hD) := by
  obtain ⟨hZ, rfl⟩ := represents_some_iff.mp h
  refine represents_some_iff.mpr ⟨?_, by ring⟩
  exact mul_ne_zero hx (hA.four_mul_sq_ne_zero (mul_ne_zero hZ hX'))

lemma ne_negY (hy : 2 * y ≠ 0) : y ≠ (curve A).negY x y := by
  rw [negY_eq]
  intro h
  exact hy (by linear_combination h)

/-! ## Doubling -/

section Group

variable [DecidableEq F]

/-- The x-coordinate of twice a point that is not its own negative. -/
lemma addX_self (hy : 2 * y ≠ 0) (heq : y ^ 2 = x ^ 3 + A * x ^ 2 + x) :
    (curve A).addX x x ((curve A).slope x x y y) * (4 * y ^ 2) = (x ^ 2 - 1) ^ 2 := by
  have hslope : (curve A).slope x x y y * (2 * y) = 3 * x ^ 2 + 2 * A * x + 1 := by
    have hden : y - -y = 2 * y := by ring
    rw [slope_of_Y_ne rfl (ne_negY hy), negY_eq, hden, div_mul_cancel₀ _ hy]
    simp only [curve]
    ring
  rw [addX]
  generalize (curve A).slope x x y y = ℓ at hslope ⊢
  simp only [curve]
  linear_combination (ℓ * (2 * y) + (3 * x ^ 2 + 2 * A * x + 1)) * hslope + (-4 * A - 8 * x) * heq

variable {P : (curve A).Point} {hD : (curve A).Nonsingular x y}

/-- From the pair of a point to that of twice the point. -/
lemma Represents.double (hA : Smooth A) {X Z : F} (h : Represents X Z P) :
    Represents ((X ^ 2 - Z ^ 2) ^ 2) (4 * X * Z * (X ^ 2 + A * X * Z + Z ^ 2)) (P + P) := by
  cases P with
  | zero =>
      obtain ⟨hX, rfl⟩ := represents_zero_iff.mp h
      rw [← Point.zero_def, add_zero, represents_zero_iff]
      exact ⟨by simpa using hX, by ring⟩
  | some x y hP =>
      obtain ⟨hZ, rfl⟩ := represents_some_iff.mp h
      have heq := equation_iff_eq.mp hP.1
      by_cases hy : 2 * y = 0
      · -- the tangent is vertical, and twice the point is the point at infinity
        have hy0 : y = 0 := (mul_eq_zero.mp hy).resolve_left hA.two_ne_zero
        have hroot : x ^ 3 + A * x ^ 2 + x = 0 := by
          rw [← heq, hy0]
          ring
        rw [Point.add_self_of_Y_eq (by rw [negY_eq, hy0, neg_zero]), represents_zero_iff]
        constructor
        · have hfactor : ((x * Z) ^ 2 - Z ^ 2) ^ 2 = (Z ^ 2 * (x ^ 2 - 1)) ^ 2 := by ring
          rw [hfactor]
          exact pow_ne_zero 2 (mul_ne_zero (pow_ne_zero 2 hZ)
            (sub_ne_zero.mpr (hA.sq_ne_one_of_root hroot)))
        · linear_combination 4 * Z ^ 4 * hroot
      · rw [Point.add_self_of_Y_ne (ne_negY hy), represents_some_iff]
        have hX := addX_self hy heq
        have hZ' : 4 * (x * Z) * Z * ((x * Z) ^ 2 + A * (x * Z) * Z + Z ^ 2) =
            Z ^ 4 * (2 * y) ^ 2 := by
          linear_combination -4 * Z ^ 4 * heq
        rw [hZ']
        refine ⟨mul_ne_zero (pow_ne_zero 4 hZ) (pow_ne_zero 2 hy), ?_⟩
        linear_combination -Z ^ 4 * hX

/-! ## Differential addition -/

/-- The x-coordinates of sum and difference of two points, multiplied. -/
lemma addX_mul_addX {x' y' : F} (hne : x ≠ x') (heq : y ^ 2 = x ^ 3 + A * x ^ 2 + x)
    (heq' : y' ^ 2 = x' ^ 3 + A * x' ^ 2 + x') :
    (curve A).addX x x' ((curve A).slope x x' y y') *
        (curve A).addX x x' ((curve A).slope x x' y (-y')) * (x - x') ^ 2 = (x * x' - 1) ^ 2 := by
  have hd : x - x' ≠ 0 := sub_ne_zero.mpr hne
  have hsum : (curve A).slope x x' y y' * (x - x') = y - y' := by
    rw [slope_of_X_ne hne, div_mul_cancel₀ _ hd]
  have hdiff : (curve A).slope x x' y (-y') * (x - x') = y + y' := by
    rw [slope_of_X_ne hne, div_mul_cancel₀ _ hd, sub_neg_eq_add]
  generalize (curve A).slope x x' y y' = ℓ at hsum ⊢
  generalize (curve A).slope x x' y (-y') = ℓ' at hdiff ⊢
  simp only [addX, curve]
  -- both slopes occur squared only, and their squares are known up to the square of `x - x'`
  have hsq : ℓ ^ 2 * (x - x') ^ 2 = (y - y') ^ 2 := by rw [← mul_pow, hsum]
  have hsq' : ℓ' ^ 2 * (x - x') ^ 2 = (y + y') ^ 2 := by rw [← mul_pow, hdiff]
  have hcross : (y - y') ^ 2 * (y + y') ^ 2 = (y ^ 2 - y' ^ 2) ^ 2 := by ring
  rw [heq, heq'] at hcross
  apply mul_right_cancel₀ (pow_ne_zero 2 hd)
  linear_combination (ℓ' ^ 2 - (A + x + x')) * (x - x') ^ 2 * hsq + hcross +
    ((y - y') ^ 2 - (A + x + x') * (x - x') ^ 2) * hsq' - 2 * (A + x + x') *
      (x - x') ^ 2 * (heq + heq')

/-- The sum of two points with different x-coordinates, from that of their difference. -/
lemma represents_add_of_ne (hA : Smooth A) {x₁ y₁ x₂ y₂ Z Z' : F} {h₁ : (curve A).Nonsingular x₁ y₁}
    {h₂ : (curve A).Nonsingular x₂ y₂} (hZ : Z ≠ 0) (hZ' : Z' ≠ 0) (hne : x₁ ≠ x₂)
    (hdiff : Point.some x₁ y₁ h₁ - Point.some x₂ y₂ h₂ = Point.some x y hD) (hx : x ≠ 0) :
    Represents (4 * (x₁ * Z * (x₂ * Z') - Z * Z') ^ 2) (x * (4 * (x₁ * Z * Z' - Z * (x₂ * Z')) ^ 2))
      (Point.some x₁ y₁ h₁ + Point.some x₂ y₂ h₂) := by
  rw [sub_eq_add_neg, Point.neg_some, Point.add_of_X_ne hne, Point.some.injEq, negY_eq] at hdiff
  have hprod := addX_mul_addX hne (equation_iff_eq.mp h₁.1) (equation_iff_eq.mp h₂.1)
  rw [hdiff.1] at hprod
  have hd : x₁ - x₂ ≠ 0 := sub_ne_zero.mpr hne
  have hscale : x * (4 * (x₁ * Z * Z' - Z * (x₂ * Z')) ^ 2) =
      x * (4 * (Z * Z' * (x₁ - x₂)) ^ 2) := by ring
  rw [Point.add_of_X_ne hne, represents_some_iff, hscale]
  refine ⟨mul_ne_zero hx (hA.four_mul_sq_ne_zero (mul_ne_zero (mul_ne_zero hZ hZ') hd)), ?_⟩
  linear_combination -4 * (Z * Z') ^ 2 * hprod

/-- A point and its negative, when the difference is known: the sum is at infinity. -/
lemma represents_add_neg (hA : Smooth A) {x₁ y₁ Z Z' : F} {h₁ : (curve A).Nonsingular x₁ y₁}
    (hZ : Z ≠ 0) (hZ' : Z' ≠ 0)
    (hdouble : Point.some x₁ y₁ h₁ + Point.some x₁ y₁ h₁ = Point.some x y hD) (hx : x ≠ 0) :
    Represents (4 * (x₁ * Z * (x₁ * Z') - Z * Z') ^ 2) (x * (4 * (x₁ * Z * Z' - Z * (x₁ * Z')) ^ 2))
      (0 : (curve A).Point) := by
  have hpair : Represents x₁ 1 (Point.some x₁ y₁ h₁) :=
    represents_some_iff.mpr ⟨one_ne_zero, by ring⟩
  have htwice := hpair.double hA
  rw [hdouble, represents_some_iff] at htwice
  have hprod := mul_ne_zero hx htwice.1
  rw [← htwice.2] at hprod
  have hne : x₁ ^ 2 - 1 ≠ 0 := by simpa using hprod
  rw [represents_zero_iff]
  constructor
  · have hfactor : x₁ * Z * (x₁ * Z') - Z * Z' = Z * Z' * (x₁ ^ 2 - 1) := by ring
    rw [hfactor]
    exact hA.four_mul_sq_ne_zero (mul_ne_zero (mul_ne_zero hZ hZ') hne)
  · ring

/-- From the pairs of two points to that of their sum, when the x-coordinate of their difference is
known and not zero. -/
lemma Represents.add (hA : Smooth A) {X Z X' Z' : F} {Q : (curve A).Point} (h : Represents X Z P)
    (h' : Represents X' Z' Q) (hdiff : P - Q = Point.some x y hD) (hx : x ≠ 0) :
    Represents (4 * (X * X' - Z * Z') ^ 2) (x * (4 * (X * Z' - Z * X') ^ 2)) (P + Q) := by
  cases Q with
  | zero =>
      rw [← Point.zero_def, sub_zero] at hdiff
      rw [← Point.zero_def, represents_zero_iff] at h'
      obtain ⟨hX', rfl⟩ := h'
      rw [hdiff] at h
      rw [← Point.zero_def, add_zero, hdiff]
      convert h.add_infinity hA hX' hx using 1 <;> ring
  | some x₂ y₂ h₂ =>
      cases P with
      | zero =>
          rw [← Point.zero_def, zero_sub] at hdiff
          rw [← Point.zero_def, represents_zero_iff] at h
          obtain ⟨hX, rfl⟩ := h
          rw [← represents_neg_iff, hdiff] at h'
          rw [← Point.zero_def, zero_add, ← represents_neg_iff, hdiff]
          convert h'.add_infinity hA hX hx using 1 <;> ring
      | some x₁ y₁ h₁ =>
          obtain ⟨hZ, rfl⟩ := represents_some_iff.mp h
          obtain ⟨hZ', rfl⟩ := represents_some_iff.mp h'
          by_cases hne : x₁ = x₂
          · -- the points are not equal, because their difference is not zero
            rcases Point.X_eq_iff.mp hne with hsame | hneg
            · rw [hsame, sub_self] at hdiff
              exact absurd hdiff.symm (Point.some_ne_zero hD)
            · have hneg' : Point.some x₂ y₂ h₂ = -Point.some x₁ y₁ h₁ := by rw [hneg, neg_neg]
              rw [hneg', sub_neg_eq_add] at hdiff
              rw [hneg', add_neg_cancel, ← hne]
              exact represents_add_neg hA hZ hZ' hdiff hx
          · exact represents_add_of_ne hA hZ hZ' hne hdiff hx

end Group

/-! ## The x-coordinate as an element of the field -/

/-- The x-coordinate, and zero at infinity. -/
noncomputable def xCoord (P : (curve A).Point) : F := P.xRep 0 / P.xRep 1

lemma xCoord_zero : xCoord (0 : (curve A).Point) = 0 := by
  simp [xCoord]

lemma xCoord_some (h : (curve A).Nonsingular x y) : xCoord (Point.some x y h) = x := by
  simp [xCoord]

/-- Twice a point with the x-coordinate zero is the point at infinity. -/
lemma two_nsmul_of_xCoord_eq_zero [DecidableEq F] (h : xCoord P = 0) : 2 • P = 0 := by
  cases P with
  | zero => exact smul_zero 2
  | some x y hP =>
      rw [xCoord_some] at h
      subst h
      have hy : y = 0 := by
        have heq := equation_iff_eq.mp hP.1
        simpa using heq
      rw [two_nsmul, Point.add_self_of_Y_eq (by rw [negY_eq, hy, neg_zero])]

lemma Represents.div_eq (h : Represents X Z P) : X / Z = xCoord P := by
  obtain ⟨c, hc, rfl, rfl⟩ := h
  rw [mul_div_mul_left _ _ hc, xCoord]

end Montgomery
