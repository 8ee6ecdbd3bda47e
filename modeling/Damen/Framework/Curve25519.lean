import Damen.Framework.MontgomeryLadder
import Mathlib.FieldTheory.Finite.Basic
import Mathlib.GroupTheory.OrderOfElement
import Mathlib.NumberTheory.LucasPrimality
import Mathlib.Tactic.NormNum.Prime

/-!
# The curve of RFC 7748

`p = 2 ^ 255 - 19` is prime, so the integers modulo `p` are a field, the curve is smooth over it,
and the power the X25519 function ends with is a division (`pow_sub_two_eq_inv`).  The base point
has the prime order `order`, so a product of scalars that are not multiples of it does not lead to
the point at infinity (`ladderX_base_ne_zero`).

Both numbers are proved prime by Lucas's test, with the primes below them proved in the same way.
-/

namespace Rfc7748

open Montgomery WeierstrassCurve.Affine

/-! ## Primes -/

lemma npowBinRec_eq_pow {M : Type} [Monoid M] (e : ℕ) (x : M) : npowBinRec e x = x ^ e := by
  induction e with
  | zero => rw [npowBinRec_zero, pow_zero]
  | succ e ih => rw [npowBinRec_succ, ih, pow_succ]

/-- A number, an element of the order `n - 1` modulo it, and the prime factors of `n - 1`. -/
structure Certificate where
  n : ℕ
  a : ℕ
  factors : List ℕ

/-- What Lucas's test asks for, with powers that are fast to evaluate. -/
def Certificate.Valid (c : Certificate) : Prop :=
  c.factors.prod = c.n - 1 ∧ npowBinRec (c.n - 1) (c.a : ZMod c.n) = 1 ∧
    ∀ q ∈ c.factors, npowBinRec ((c.n - 1) / q) (c.a : ZMod c.n) ≠ 1

instance (c : Certificate) : Decidable c.Valid := inferInstanceAs (Decidable (_ ∧ _ ∧ _))

lemma Certificate.Valid.prime {c : Certificate} (h : c.Valid) (hprime : ∀ q ∈ c.factors, q.Prime) :
    c.n.Prime := by
  obtain ⟨hprod, hone, hne⟩ := h
  simp only [npowBinRec_eq_pow] at hone hne
  refine lucas_primality c.n c.a hone fun q hq hdvd => ?_
  rw [← hprod] at hdvd
  obtain ⟨r, hr, hdvd⟩ := (Prime.dvd_prod_iff hq.prime).mp hdvd
  obtain rfl : q = r := (Nat.prime_dvd_prime_iff_eq hq (hprime r hr)).mp hdvd
  exact hne q hr

/-- Every certificate is valid and uses known primes and the numbers in front of it. -/
def Certified (known : List ℕ) : List Certificate → Prop
  | [] => True
  | c :: cs => (c.Valid ∧ ∀ q ∈ c.factors, q ∈ known) ∧ Certified (c.n :: known) cs

instance Certified.decidable : ∀ known cs, Decidable (Certified known cs)
  | _, [] => isTrue trivial
  | known, c :: cs =>
      have := Certified.decidable (c.n :: known) cs
      inferInstanceAs (Decidable (_ ∧ _))

lemma Certified.prime {known : List ℕ} {cs : List Certificate} (h : Certified known cs)
    (hknown : ∀ q ∈ known, q.Prime) : ∀ c ∈ cs, c.n.Prime := by
  induction cs generalizing known with
  | nil => exact List.forall_mem_nil _
  | cons c cs ih =>
      have hc : c.n.Prime := h.1.1.prime fun q hq => hknown q (h.1.2 q hq)
      exact List.forall_mem_cons.mpr ⟨hc, ih h.2 (List.forall_mem_cons.mpr ⟨hc, hknown⟩)⟩

def smallPrimes : List ℕ :=
  [2, 3, 5, 7, 11, 13, 19, 23, 31, 41, 43, 47, 73, 107, 127, 223, 269, 307, 353, 1361, 2437,
    2851, 4153, 5879, 30703, 57467, 65147, 75707, 82163, 132049, 132667, 137849, 430751, 531581,
    569003, 1224481, 1923133, 8574133, 58964693]

lemma prime_of_mem_smallPrimes : ∀ q ∈ smallPrimes, q.Prime := by
  norm_num [smallPrimes]

/-- The order of the base point. -/
def order : ℕ := 2 ^ 252 + 27742317777372353535851937790883648493

/-- The certificates of `p` and of `order`. -/
def certificates : List Certificate :=
  [ ⟨2773320623, 5, [2, 2437, 569003]⟩,
    ⟨72106336199, 7, [2, 13, 2773320623]⟩,
    ⟨31757755568855353, 10, [2, 2, 2, 3, 31, 107, 223, 4153, 430751]⟩,
    ⟨1919519569386763, 2, [2, 3, 7, 19, 47, 47, 127, 8574133]⟩,
    ⟨75445702479781427272750846543864801, 7,
      [2, 2, 2, 2, 2, 3, 3, 5, 5, 75707, 72106336199, 1919519569386763]⟩,
    ⟨74058212732561358302231226437062788676166966415465897661863160754340907, 2,
      [2, 3, 353, 57467, 132049, 1923133, 31757755568855353,
       75445702479781427272750846543864801]⟩,
    ⟨p, 2,
      [2, 2, 3, 65147, 74058212732561358302231226437062788676166966415465897661863160754340907]⟩,
    ⟨3044861653679985063343, 5, [2, 3, 11, 30703, 82163, 132667, 137849]⟩,
    ⟨198211423230930754013084525763697, 5, [2, 2, 2, 2, 3, 23, 58964693, 3044861653679985063343]⟩,
    ⟨1257559732178653, 2, [2, 2, 3, 7, 23, 531581, 1224481]⟩,
    ⟨4434155615661930479, 17, [2, 41, 43, 1257559732178653]⟩,
    ⟨172054593956031949258510691, 2, [2, 5, 1361, 2851, 4434155615661930479]⟩,
    ⟨292386187, 2, [2, 3, 3, 3, 3, 307, 5879]⟩,
    ⟨213441916511, 13, [2, 5, 73, 292386187]⟩,
    ⟨19757330305831588566944191468367130476339, 2,
      [2, 269, 172054593956031949258510691, 213441916511]⟩,
    ⟨276602624281642239937218680557139826668747, 2,
      [2, 7, 19757330305831588566944191468367130476339]⟩,
    ⟨order, 2,
      [2, 2, 3, 11, 198211423230930754013084525763697,
       276602624281642239937218680557139826668747]⟩ ]

lemma prime_of_mem_certificates {n : ℕ} (h : n ∈ certificates.map Certificate.n) : n.Prime := by
  have hall : Certified smallPrimes certificates := by decide +kernel
  obtain ⟨c, hc, rfl⟩ := List.mem_map.mp h
  exact hall.prime prime_of_mem_smallPrimes c hc

lemma prime_p : p.Prime := prime_of_mem_certificates (by decide +kernel)

lemma prime_order : order.Prime := prime_of_mem_certificates (by decide +kernel)

scoped instance : Fact p.Prime := ⟨prime_p⟩

/-! ## The field -/

/-- The power at the end of the X25519 function is the inverse, which is zero for zero. -/
lemma pow_sub_two_eq_inv (z : ZMod p) : z ^ (p - 2) = z⁻¹ := by
  by_cases hz : z = 0
  · rw [hz, inv_zero, zero_pow (by decide)]
  · have hone : z ^ (p - 2) * z = 1 := by
      rw [← pow_succ]
      exact ZMod.pow_card_sub_one_eq_one hz
    exact eq_inv_of_mul_eq_one_left hone

lemma smooth_zmod : Smooth (curveA (ZMod p)) := ⟨by decide +kernel, by decide +kernel⟩

/-! ## The base point -/

lemma z2_ladder_order : (ladder order (9 : ZMod p)).z2 = 0 := by decide +kernel

/-- The base point has the order `order`, in every field that contains the one modulo `p`. -/
lemma addOrderOf_base {K : Type} [Field K] [DecidableEq K] (f : ZMod p →+* K) {y : K}
    (hB : (curve (curveA K)).Nonsingular 9 y) : addOrderOf (Point.some 9 y hB) = order := by
  have := Fact.mk prime_order
  have hnine : (9 : K) ≠ 0 := by
    rw [← map_ofNat f]
    exact (map_ne_zero f).mpr (by decide +kernel)
  have hz : (ladder order (9 : K)).z2 = 0 := by
    have hmap : (ladder order (9 : ZMod p)).map f = ladder order (9 : K) := by
      rw [map_ladder, map_ofNat]
    rw [← hmap, Ladder.map, z2_ladder_order, map_zero]
  have hmod : order % 2 ^ 255 = order := by decide +kernel
  have hrep := ladder_represents (smooth_map f smooth_zmod) hB hnine order
  rw [hz, hmod] at hrep
  exact addOrderOf_eq_prime hrep.eq_zero (Point.some_ne_zero hB)

/-- Scalars that are not multiples of the order do not lead from the base point to zero. -/
lemma ladderX_base_ne_zero {k l : ℕ} (hk : ¬ order ∣ k % 2 ^ 255) (hl : ¬ order ∣ l % 2 ^ 255) :
    ladderX k (ladderX l (9 : ZMod p)) ≠ 0 := by
  classical
  let f := algebraMap (ZMod p) (AlgebraicClosure (ZMod p))
  have hA := smooth_map f smooth_zmod
  obtain ⟨y, hB⟩ := exists_nonsingular hA 9
  intro hzero
  have hclosed := congrArg f hzero
  rw [map_ladderX, map_ladderX, map_ofNat, map_zero, ← xCoord_some hB, ladderX_xCoord hA,
    ladderX_xCoord hA] at hclosed
  have htwice := two_nsmul_of_xCoord_eq_zero hclosed
  rw [smul_smul, smul_smul] at htwice
  have hdvd : order ∣ 2 * (k % 2 ^ 255) * (l % 2 ^ 255) := by
    rw [← addOrderOf_base f hB]
    exact addOrderOf_dvd_of_nsmul_eq_zero htwice
  rcases prime_order.dvd_mul.mp hdvd with h | h
  · rcases prime_order.dvd_mul.mp h with h | h
    · exact absurd h (by decide +kernel)
    · exact hk h
  · exact hl h

end Rfc7748
