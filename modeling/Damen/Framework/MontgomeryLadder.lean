import Damen.Framework.MontgomeryCurve
import Damen.Framework.Rfc7748
import Mathlib.FieldTheory.IsAlgClosed.AlgebraicClosure

/-!
# The ladder multiplies points

The ladder of RFC 7748 over a field in which the curve `y² = x³ + 486662 x² + x` is smooth.  Its two
pairs represent consecutive multiples of the point it starts from (`At`), so it ends with the
x-coordinate of the multiple by the scalar (`ladderX_xCoord`).

Every element of a field is the x-coordinate of a point over the algebraic closure.  Multiplication
by one scalar after another is commutative there, hence so is the ladder (`ladderX_comm`).
-/

namespace Rfc7748

open Montgomery WeierstrassCurve.Affine

/-- The coefficient of the curve. -/
def curveA (F : Type) [CommRing F] : F := (4 * a24 + 2 : ℕ)

section Ladder

variable {F : Type}

/-- The swaps of two steps in one. -/
lemma Ladder.cswap_cswap (s : Ladder F) (a b : Bool) : (s.cswap a).cswap b = s.cswap (a ^^ b) := by
  cases a <;> cases b <;> rfl

variable [Field F]

/-! ## One step -/

/-- The pairs of the ladder represent two points. -/
structure Pairs (s : Ladder F) (Q P : (curve (curveA F)).Point) : Prop where
  fst : Represents s.x2 s.z2 Q
  snd : Represents s.x3 s.z3 P

variable {s : Ladder F} {Q P : (curve (curveA F)).Point}

lemma Pairs.advance [DecidableEq F] (hA : Smooth (curveA F)) (h : Pairs s Q P) {x y : F}
    {hD : (curve (curveA F)).Nonsingular x y} (hdiff : P - Q = Point.some x y hD) (hx : x ≠ 0) :
    Pairs (s.advance x) (Q + Q) (P + Q) := by
  have hdouble := h.fst.double hA
  have hadd := h.snd.add hA h.fst hdiff hx
  constructor
  · convert hdouble using 1
    · simp only [Ladder.advance]
      ring
    · simp only [Ladder.advance, curveA]
      push_cast
      ring
  · convert hadd using 1
    · simp only [Ladder.advance]
      ring
    · simp only [Ladder.advance]
      ring

lemma Pairs.swapped (h : Pairs s Q P) : Pairs (s.cswap true) P Q :=
  ⟨h.snd, h.fst⟩

/-- Behind the swap that is still to be done, the ladder is at the multiples by `n` and `n + 1`. -/
def At [DecidableEq F] (P : (curve (curveA F)).Point) (n : ℕ) (s : Ladder F) : Prop :=
  Pairs (s.cswap s.swap) (n • P) ((n + 1) • P)

section Point

variable [DecidableEq F] {x y : F} {hD : (curve (curveA F)).Nonsingular x y}
  {P : (curve (curveA F)).Point}

/-- A step reads one more bit of the multiple. -/
lemma At.step (hA : Smooth (curveA F)) (hP : P = Point.some x y hD) (hx : x ≠ 0) {n : ℕ}
    {s : Ladder F} (h : At P n s) (bit : Bool) :
    At P (2 * n + bit.toNat) (Ladder.step x s bit) := by
  have hsucc : (n + 1) • P - n • P = P := by
    rw [succ_nsmul, add_sub_cancel_left]
  have hmiddle : (n + 1) • P + n • P = (2 * n + 1) • P := by
    rw [← add_nsmul]
    congr 1
    omega
  unfold At at h ⊢
  unfold Ladder.step
  rw [← Ladder.cswap_cswap]
  generalize s.cswap s.swap = t at h
  cases bit with
  | false =>
      have hnext := h.advance hA (hsucc.trans hP) hx
      rw [hmiddle, ← two_nsmul, ← mul_nsmul'] at hnext
      exact ⟨hnext.fst, hnext.snd⟩
  | true =>
      -- the pairs are swapped, so their difference changes its sign
      have hneg : n • P - (n + 1) • P =
          Point.some x ((curve (curveA F)).negY x y) ((nonsingular_neg ..).mpr hD) := by
        rw [← neg_sub, hsucc, hP, Point.neg_some]
      have hnext := h.swapped.advance hA hneg hx
      rw [add_comm (n • _), hmiddle, ← two_nsmul, ← mul_nsmul'] at hnext
      exact ⟨hnext.snd, hnext.fst⟩

/-- The bits from `m - 1` down. -/
lemma At.foldl (hA : Smooth (curveA F)) (hP : P = Point.some x y hD) (hx : x ≠ 0) (k m : ℕ) {n : ℕ}
    {s : Ladder F} (h : At P n s) : At P (n * 2 ^ m + k % 2 ^ m)
      ((List.range m).reverse.foldl (fun s t => Ladder.step x s (k.testBit t)) s) := by
  induction m generalizing n s with
  | zero => simpa [Nat.mod_one] using h
  | succ m ih =>
      rw [List.range_succ, List.reverse_append, List.reverse_singleton, List.singleton_append,
        List.foldl_cons]
      have hrest := ih (h.step hA hP hx (k.testBit m))
      have hvalue : (2 * n + (k.testBit m).toNat) * 2 ^ m + k % 2 ^ m =
          n * 2 ^ (m + 1) + k % 2 ^ (m + 1) := by
        rw [Nat.mod_pow_succ, Nat.toNat_testBit]
        ring
      rw [hvalue] at hrest
      exact hrest

/-- The ladder ends with the multiple of the point by the low 255 bits of the scalar. -/
lemma ladder_represents (hA : Smooth (curveA F)) (hP : (curve (curveA F)).Nonsingular x y)
    (hx : x ≠ 0) (k : ℕ) :
    Represents (ladder k x).x2 (ladder k x).z2 ((k % 2 ^ 255) • Point.some x y hP) := by
  have hstart : At (Point.some x y hP) 0 (⟨1, 0, x, 1, false⟩ : Ladder F) := by
    unfold At
    rw [zero_nsmul, zero_add, one_nsmul]
    exact ⟨represents_zero_iff.mpr ⟨one_ne_zero, rfl⟩,
      represents_some_iff.mpr ⟨one_ne_zero, (mul_one x).symm⟩⟩
  have hend := hstart.foldl hA rfl hx k 255
  rw [zero_mul, zero_add] at hend
  exact hend.fst

end Point

/-! ## The point of order two -/

/-- One coordinate of each pair is zero. -/
structure Vanishing (s : Ladder F) : Prop where
  fst : s.x2 * s.z2 = 0
  snd : s.x3 * s.z3 = 0

lemma Vanishing.cswap (h : Vanishing s) (b : Bool) : Vanishing (s.cswap b) := by
  cases b with
  | false => exact h
  | true => exact ⟨h.snd, h.fst⟩

/-- From the x-coordinate zero the ladder does not get away. -/
lemma Vanishing.step (h : Vanishing s) (bit : Bool) : Vanishing (Ladder.step 0 s bit) := by
  have hswapped := (h.cswap (s.swap ^^ bit)).fst
  unfold Ladder.step
  generalize s.cswap (s.swap ^^ bit) = t at hswapped
  constructor
  · simp only [Ladder.advance]
    linear_combination 4 * (((t.x2 + t.z2) * (t.x2 - t.z2)) ^ 2 *
      ((t.x2 + t.z2) ^ 2 + a24 * ((t.x2 + t.z2) ^ 2 - (t.x2 - t.z2) ^ 2))) * hswapped
  · simp only [Ladder.advance]
    ring

lemma ladder_zero (k : ℕ) : (ladder k (0 : F)).x2 * (ladder k (0 : F)).z2 = 0 := by
  have hfold : ∀ (ts : List ℕ) (s : Ladder F), Vanishing s →
      Vanishing (ts.foldl (fun s t => Ladder.step 0 s (k.testBit t)) s) := by
    intro ts
    induction ts with
    | nil => exact fun s h => h
    | cons t ts ih => exact fun s h => ih _ (h.step _)
  have hend := hfold (List.range 255).reverse ⟨1, 0, 0, 1, false⟩ ⟨mul_zero 1, zero_mul 1⟩
  exact (hend.cswap _).fst

/-! ## The ladder as multiplication -/

/-- The x-coordinate the ladder ends with. -/
def ladderX (k : ℕ) (x1 : F) : F := (ladder k x1).x2 / (ladder k x1).z2

lemma ladderX_zero (k : ℕ) : ladderX k (0 : F) = 0 := by
  rcases mul_eq_zero.mp (ladder_zero (F := F) k) with h | h
  · rw [ladderX, h, zero_div]
  · rw [ladderX, h, div_zero]

/-- The ladder multiplies a point given by its x-coordinate. -/
lemma ladderX_xCoord [DecidableEq F] (hA : Smooth (curveA F)) (k : ℕ)
    (P : (curve (curveA F)).Point) : ladderX k (xCoord P) = xCoord ((k % 2 ^ 255) • P) := by
  cases P with
  | zero => rw [← Point.zero_def, smul_zero, xCoord_zero, ladderX_zero]
  | some x y hP =>
      rw [xCoord_some]
      by_cases hx : x = 0
      · -- twice the point is zero, so a multiple is zero or the point itself
        subst hx
        have hsame := xCoord_some hP
        have htwo := two_nsmul_of_xCoord_eq_zero hsame
        rw [ladderX_zero, ← Nat.div_add_mod (k % 2 ^ 255) 2, add_nsmul, mul_nsmul, htwo, smul_zero,
          zero_add]
        rcases Nat.mod_two_eq_zero_or_one (k % 2 ^ 255) with h | h
        · rw [h, zero_nsmul, xCoord_zero]
        · rw [h, one_nsmul, hsame]
      · exact (ladder_represents hA hP hx k).div_eq

/-- Over an algebraically closed field every element is an x-coordinate. -/
lemma exists_nonsingular [IsAlgClosed F] (hA : Smooth (curveA F)) (x : F) :
    ∃ y, (curve (curveA F)).Nonsingular x y := by
  obtain ⟨y, hy⟩ := IsAlgClosed.exists_pow_nat_eq (x ^ 3 + curveA F * x ^ 2 + x) (Nat.succ_pos 1)
  exact ⟨y, hA.nonsingular hy⟩

/-! ## From one field to another -/

variable {K : Type} [Field K] (f : F →+* K)

/-- The ladder over another field. -/
def Ladder.map (s : Ladder F) : Ladder K := ⟨f s.x2, f s.z2, f s.x3, f s.z3, s.swap⟩

lemma Ladder.map_cswap (s : Ladder F) (b : Bool) : (s.cswap b).map f = (s.map f).cswap b := by
  cases b <;> rfl

lemma Ladder.map_step (x1 : F) (s : Ladder F) (bit : Bool) :
    (Ladder.step x1 s bit).map f = Ladder.step (f x1) (s.map f) bit := by
  unfold Ladder.step
  rw [show (s.map f).swap = s.swap from rfl, ← Ladder.map_cswap]
  generalize s.cswap (s.swap ^^ bit) = t
  simp [Ladder.map, Ladder.advance]

lemma map_ladder (k : ℕ) (x1 : F) : (ladder k x1).map f = ladder k (f x1) := by
  have hfold : ∀ (ts : List ℕ) (s : Ladder F),
      (ts.foldl (fun s t => Ladder.step x1 s (k.testBit t)) s).map f =
        ts.foldl (fun s t => Ladder.step (f x1) s (k.testBit t)) (s.map f) := by
    intro ts
    induction ts with
    | nil => exact fun _ => rfl
    | cons t ts ih =>
        intro s
        rw [List.foldl_cons, List.foldl_cons, ih, Ladder.map_step]
  have hstart : (⟨1, 0, x1, 1, false⟩ : Ladder F).map f = ⟨1, 0, f x1, 1, false⟩ := by
    simp [Ladder.map]
  unfold ladder
  rw [Ladder.map_cswap, hfold, hstart]
  rfl

lemma map_ladderX (k : ℕ) (x1 : F) : f (ladderX k x1) = ladderX k (f x1) := by
  rw [ladderX, ladderX, map_div₀, ← map_ladder]
  rfl

lemma map_curveA : f (curveA F) = curveA K := by
  rw [curveA, curveA, map_natCast]

include f in
lemma smooth_map (hA : Smooth (curveA F)) : Smooth (curveA K) := by
  constructor
  · intro h
    apply hA.two_ne_zero
    apply f.injective
    rw [map_ofNat, map_zero, h]
  · intro h
    apply hA.sq_ne_four
    apply f.injective
    rw [map_pow, map_curveA, map_ofNat, h]

/-- Two scalars, in either order. -/
theorem ladderX_comm (hA : Smooth (curveA F)) (k l : ℕ) (x : F) :
    ladderX k (ladderX l x) = ladderX l (ladderX k x) := by
  classical
  let f := algebraMap F (AlgebraicClosure F)
  have hA' : Smooth (curveA (AlgebraicClosure F)) := smooth_map f hA
  obtain ⟨y, hP⟩ := exists_nonsingular hA' (f x)
  apply f.injective
  rw [map_ladderX, map_ladderX, map_ladderX, map_ladderX, ← xCoord_some hP]
  simp only [ladderX_xCoord hA', smul_smul]
  rw [Nat.mul_comm]

end Ladder
end Rfc7748
