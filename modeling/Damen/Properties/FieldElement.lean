import Damen.Framework.Rfc7748
import Damen.Model.X25519
import Mathlib.Tactic.LinearCombination

/-!
# Arithmetic of field elements

An element stands for the residue of its `value` modulo `p` (`Fe.elem`).  Two bounds on the limbs
carry all of the arithmetic: `Tight`, which products have, and `Loose`, which sums and differences
of tight elements have and which a product accepts.  Under them nothing wraps, and each operation
does to the residues what its name says.
-/

namespace Damen
namespace Crypto

open Wrapping Wrapping.Marked
open Rfc7748 (p)

/-! ## Values and bounds -/

/-- The number in the limbs. -/
def Fe.value (f : Fe) : ℕ :=
  f.h0.toNat + 2 ^ 51 * f.h1.toNat + 2 ^ 102 * f.h2.toNat + 2 ^ 153 * f.h3.toNat +
    2 ^ 204 * f.h4.toNat

/-- The residue an element stands for. -/
def Fe.elem (f : Fe) : ZMod p := f.value

/-- The limbs of a product: 51 bits, and a last carry in the second one. -/
structure Tight (f : Fe) : Prop where
  h0 : f.h0.toNat < 2 ^ 51
  h1 : f.h1.toNat < 2 ^ 51 + 2 ^ 13
  h2 : f.h2.toNat < 2 ^ 51
  h3 : f.h3.toNat < 2 ^ 51
  h4 : f.h4.toNat < 2 ^ 51

/-- The limbs of a sum or a difference. -/
structure Loose (f : Fe) : Prop where
  h0 : f.h0.toNat < 2 ^ 53
  h1 : f.h1.toNat < 2 ^ 53
  h2 : f.h2.toNat < 2 ^ 53
  h3 : f.h3.toNat < 2 ^ 53
  h4 : f.h4.toNat < 2 ^ 53

variable {f : Fe}

lemma Tight.loose (h : Tight f) : Loose f :=
  ⟨by have := h.h0; omega, by have := h.h1; omega, by have := h.h2; omega, by have := h.h3; omega,
    by have := h.h4; omega⟩

/-- `2 ^ 255` is 19 modulo `p`. -/
lemma pow_limbs : ((2 : ZMod p) ^ 51) ^ 5 = 19 := by
  have hnat : p + 19 = (2 ^ 51) ^ 5 := by norm_num [p]
  have hcast := congrArg (fun n : ℕ => (n : ZMod p)) hnat
  simp only [Nat.cast_add, ZMod.natCast_self, zero_add, Nat.cast_pow, Nat.cast_ofNat] at hcast
  exact hcast.symm

/-- An element whose value differs from a number by a multiple of `p`. -/
lemma elem_of_value {n c : ℕ} (h : f.value + p * c = n) : f.elem = (n : ZMod p) := by
  rw [← h, Nat.cast_add, Nat.cast_mul, ZMod.natCast_self, zero_mul, add_zero, Fe.elem]

lemma toNat_kMask51 : kMask51.toNat = 2 ^ 51 - 1 := rfl

lemma and_kMask51 (n : ℕ) : n &&& kMask51.toNat = n % 2 ^ 51 := by
  rw [toNat_kMask51, Nat.and_two_pow_sub_one_eq_mod]

/-! ## The carry chain of products -/

lemma carryChain_yields {r0 r1 r2 r3 r4 : ℕ} (h0 : r0 < 2 ^ 114) (h1 : r1 < 2 ^ 114)
    (h2 : r2 < 2 ^ 114)
    (h3 : r3 < 2 ^ 114) (h4 : r4 < 2 ^ 110) :
    (carryChain r0 r1 r2 r3 r4).Yields fun h => Tight h ∧
      ∃ c, h.value + p * c = r0 + 2 ^ 51 * r1 + 2 ^ 102 * r2 + 2 ^ 153 * r3 + 2 ^ 204 * r4 := by
  unfold carryChain
  simp only [and_kMask51, Nat.shiftRight_eq_div_pow]
  refine (low64_yields (by omega)).bind fun c0 hc0 => ?_
  refine (u128_yields (by omega)).bind fun s1 hs1 => ?_
  refine (low64_yields (by omega)).bind fun c1 hc1 => ?_
  refine (u128_yields (by omega)).bind fun s2 hs2 => ?_
  refine (low64_yields (by omega)).bind fun c2 hc2 => ?_
  refine (u128_yields (by omega)).bind fun s3 hs3 => ?_
  refine (low64_yields (by omega)).bind fun c3 hc3 => ?_
  refine (u128_yields (by omega)).bind fun s4 hs4 => ?_
  refine (low64_yields (by omega)).bind fun c4 hc4 => ?_
  refine (mul64_yields (by rw [hc4]; change 19 * _ < _; omega)).bind fun t ht => ?_
  replace ht : t.toNat = 19 * c4.toNat := ht
  refine (u128_yields (by omega)).bind fun s0 hs0 => ?_
  refine (low64_yields (by omega)).bind fun c5 hc5 => ?_
  refine (u128_yields (by omega)).bind fun s1' hs1' => ?_
  refine (low64_yields (by omega)).bind fun l0 hl0 => ?_
  refine (low64_yields (by omega)).bind fun l1 hl1 => ?_
  refine (low64_yields (by omega)).bind fun l2 hl2 => ?_
  refine (low64_yields (by omega)).bind fun l3 hl3 => ?_
  refine (low64_yields (by omega)).bind fun l4 hl4 =>
    yields_pure ⟨⟨?_, ?_, ?_, ?_, ?_⟩, c4.toNat, ?_⟩
  · rw [hl0]
    omega
  · rw [hl1]
    omega
  · rw [hl2]
    omega
  · rw [hl3]
    omega
  · rw [hl4]
    omega
  · rw [Fe.value, hl0, hl1, hl2, hl3, hl4, p]
    omega

/-! ## Sums and differences -/

lemma feAdd_yields {g : Fe} (hf : Tight f) (hg : Tight g) :
    (feAdd f g).Yields fun h => Loose h ∧ h.elem = f.elem + g.elem := by
  obtain ⟨hf0, hf1, hf2, hf3, hf4⟩ := hf
  obtain ⟨hg0, hg1, hg2, hg3, hg4⟩ := hg
  unfold feAdd
  refine (add64_yields (by omega)).bind fun l0 hl0 => ?_
  refine (add64_yields (by omega)).bind fun l1 hl1 => ?_
  refine (add64_yields (by omega)).bind fun l2 hl2 => ?_
  refine (add64_yields (by omega)).bind fun l3 hl3 => ?_
  refine (add64_yields (by omega)).bind fun l4 hl4 => yields_pure ⟨⟨?_, ?_, ?_, ?_, ?_⟩, ?_⟩
  · rw [hl0]
    omega
  · rw [hl1]
    omega
  · rw [hl2]
    omega
  · rw [hl3]
    omega
  · rw [hl4]
    omega
  · rw [Fe.elem, Fe.elem, Fe.elem, ← Nat.cast_add]
    congr 1
    simp only [Fe.value, hl0, hl1, hl2, hl3, hl4]
    ring

lemma feSub_yields {g : Fe} (hf : Tight f) (hg : Tight g) :
    (feSub f g).Yields fun h => Loose h ∧ h.elem = f.elem - g.elem := by
  obtain ⟨hf0, hf1, hf2, hf3, hf4⟩ := hf
  obtain ⟨hg0, hg1, hg2, hg3, hg4⟩ := hg
  have hlow : (0xFFFFFFFFFFFDA : UInt64).toNat = 2 ^ 52 - 38 := rfl
  have hhigh : (0xFFFFFFFFFFFFE : UInt64).toNat = 2 ^ 52 - 2 := rfl
  unfold feSub
  refine (add64_yields (by omega)).bind fun a0 ha0 => ?_
  refine (sub64_yields (by omega)).bind fun l0 hl0 => ?_
  refine (add64_yields (by omega)).bind fun a1 ha1 => ?_
  refine (sub64_yields (by omega)).bind fun l1 hl1 => ?_
  refine (add64_yields (by omega)).bind fun a2 ha2 => ?_
  refine (sub64_yields (by omega)).bind fun l2 hl2 => ?_
  refine (add64_yields (by omega)).bind fun a3 ha3 => ?_
  refine (sub64_yields (by omega)).bind fun l3 hl3 => ?_
  refine (add64_yields (by omega)).bind fun a4 ha4 => ?_
  refine (sub64_yields (by omega)).bind fun l4 hl4 => yields_pure ⟨⟨?_, ?_, ?_, ?_, ?_⟩, ?_⟩
  · show l0.toNat < 2 ^ 53
    omega
  · show l1.toNat < 2 ^ 53
    omega
  · show l2.toNat < 2 ^ 53
    omega
  · show l3.toNat < 2 ^ 53
    omega
  · show l4.toNat < 2 ^ 53
    omega
  · have hvalue : (⟨l0, l1, l2, l3, l4⟩ : Fe).value + g.value = f.value + p * 2 := by
      simp only [Fe.value, p]
      omega
    have hcast := congrArg (fun n : ℕ => (n : ZMod p)) hvalue
    simp only [Nat.cast_add, Nat.cast_mul, ZMod.natCast_self, zero_mul, add_zero] at hcast
    exact eq_sub_of_add_eq hcast

/-! ## Products -/

/-- A product of limbs of loose elements. -/
lemma mul_limbs_lt {a b : ℕ} (ha : a < 2 ^ 53) (hb : b < 2 ^ 53) : a * b < 2 ^ 106 :=
  (Nat.mul_lt_mul'' ha hb).trans_eq (by norm_num)

/-- An accumulator: five products, of which those that were folded count 19 times. -/
lemma accumulate_lt {m0 m1 m2 m3 m4 : ℕ} (h0 : m0 < 2 ^ 106) (h1 : m1 < 2 ^ 106) (h2 : m2 < 2 ^ 106)
    (h3 : m3 < 2 ^ 106) (h4 : m4 < 2 ^ 106) :
    19 * (m0 + m1 + m2 + m3 + m4) < 2 ^ 114 ∧ m0 + m1 + m2 + m3 + m4 < 2 ^ 110 := by
  omega

lemma feMul_yields {g : Fe} (hf : Loose f) (hg : Loose g) :
    (feMul f g).Yields fun h => Tight h ∧ h.elem = f.elem * g.elem := by
  obtain ⟨hf0, hf1, hf2, hf3, hf4⟩ := hf
  obtain ⟨hg0, hg1, hg2, hg3, hg4⟩ := hg
  have b0 := (accumulate_lt (mul_limbs_lt hf0 hg0) (mul_limbs_lt hf1 hg4) (mul_limbs_lt hf2 hg3)
    (mul_limbs_lt hf3 hg2) (mul_limbs_lt hf4 hg1)).1
  have b1 := (accumulate_lt (mul_limbs_lt hf0 hg1) (mul_limbs_lt hf1 hg0) (mul_limbs_lt hf2 hg4)
    (mul_limbs_lt hf3 hg3) (mul_limbs_lt hf4 hg2)).1
  have b2 := (accumulate_lt (mul_limbs_lt hf0 hg2) (mul_limbs_lt hf1 hg1) (mul_limbs_lt hf2 hg0)
    (mul_limbs_lt hf3 hg4) (mul_limbs_lt hf4 hg3)).1
  have b3 := (accumulate_lt (mul_limbs_lt hf0 hg3) (mul_limbs_lt hf1 hg2) (mul_limbs_lt hf2 hg1)
    (mul_limbs_lt hf3 hg0) (mul_limbs_lt hf4 hg4)).1
  have b4 := (accumulate_lt (mul_limbs_lt hf0 hg4) (mul_limbs_lt hf1 hg3) (mul_limbs_lt hf2 hg2)
    (mul_limbs_lt hf3 hg1) (mul_limbs_lt hf4 hg0)).2
  unfold feMul
  refine (u128_yields (by omega)).bind fun r0 hr0 => ?_
  refine (u128_yields (by omega)).bind fun r1 hr1 => ?_
  refine (u128_yields (by omega)).bind fun r2 hr2 => ?_
  refine (u128_yields (by omega)).bind fun r3 hr3 => ?_
  refine (u128_yields (by omega)).bind fun r4 hr4 => ?_
  refine (carryChain_yields (by omega) (by omega) (by omega) (by omega) (by omega)).mono ?_
  rintro h ⟨htight, c, hvalue⟩
  refine ⟨htight, ?_⟩
  rw [elem_of_value hvalue, hr0, hr1, hr2, hr3, hr4, Fe.elem, Fe.elem, Fe.value, Fe.value]
  push_cast
  -- what was folded is a multiple of `2 ^ 255 - 19`
  linear_combination
    (-(f.h1.toNat * g.h4.toNat + f.h2.toNat * g.h3.toNat + f.h3.toNat * g.h2.toNat +
    f.h4.toNat * g.h1.toNat : ZMod p)
    - 2 ^ 51 * (f.h2.toNat * g.h4.toNat + f.h3.toNat * g.h3.toNat + f.h4.toNat * g.h2.toNat)
    - 2 ^ 102 * (f.h3.toNat * g.h4.toNat + f.h4.toNat * g.h3.toNat)
    - 2 ^ 153 * (f.h4.toNat * g.h4.toNat)) * pow_limbs

lemma feSq_yields (hf : Loose f) : (feSq f).Yields fun h => Tight h ∧ h.elem = f.elem ^ 2 := by
  refine (feMul_yields hf hf).mono fun h hh => ?_
  rw [sq]
  exact hh

lemma feMulScalar_yields {s : UInt64} (hf : Loose f) (hs : s.toNat < 2 ^ 53) :
    (feMulScalar f s).Yields fun h => Tight h ∧ h.elem = s.toNat * f.elem := by
  obtain ⟨hf0, hf1, hf2, hf3, hf4⟩ := hf
  have b0 := mul_limbs_lt hf0 hs
  have b1 := mul_limbs_lt hf1 hs
  have b2 := mul_limbs_lt hf2 hs
  have b3 := mul_limbs_lt hf3 hs
  have b4 := mul_limbs_lt hf4 hs
  unfold feMulScalar
  refine (u128_yields (by omega)).bind fun r0 hr0 => ?_
  refine (u128_yields (by omega)).bind fun r1 hr1 => ?_
  refine (u128_yields (by omega)).bind fun r2 hr2 => ?_
  refine (u128_yields (by omega)).bind fun r3 hr3 => ?_
  refine (u128_yields (by omega)).bind fun r4 hr4 => ?_
  refine (carryChain_yields (by omega) (by omega) (by omega) (by omega) (by omega)).mono ?_
  rintro h ⟨htight, c, hvalue⟩
  refine ⟨htight, ?_⟩
  rw [elem_of_value hvalue, hr0, hr1, hr2, hr3, hr4, Fe.elem, Fe.value]
  push_cast
  ring

/-! ## Powers -/

lemma feSqN_yields (hf : Tight f) (n : ℕ) :
    (feSqN f n).Yields fun h => Tight h ∧ h.elem = f.elem ^ 2 ^ n := by
  have hloop : (feSqN f n).Yields fun h =>
      Tight h ∧ h.elem = (List.range n).foldl (fun e _ => e ^ 2) f.elem :=
    yields_foldlM (R := fun (e : ZMod p) h => Tight h ∧ h.elem = e)
      (fun e h _ _ hh => (feSq_yields hh.1.loose).mono fun h' hh' => ⟨hh'.1, by rw [hh'.2, hh.2]⟩)
      ⟨hf, rfl⟩
  have hpow : ∀ n, (List.range n).foldl (fun (e : ZMod p) _ => e ^ 2) f.elem = f.elem ^ 2 ^ n := by
    intro n
    induction n with
    | zero => exact (pow_one _).symm
    | succ n ih =>
        rw [List.range_succ, List.foldl_append, ih, List.foldl_cons, List.foldl_nil, ← pow_mul,
          ← pow_succ]
  rw [hpow] at hloop
  exact hloop

/-- Products of powers of one element. -/
lemma feMul_pow_yields {g : Fe} {e : ZMod p} {m n : ℕ} (hf : Tight f ∧ f.elem = e ^ m)
    (hg : Tight g ∧ g.elem = e ^ n) :
    (feMul f g).Yields fun h => Tight h ∧ h.elem = e ^ (m + n) := by
  refine (feMul_yields hf.1.loose hg.1.loose).mono fun h hh => ⟨hh.1, ?_⟩
  rw [hh.2, hf.2, hg.2, pow_add]

lemma feSqN_pow_yields {e : ZMod p} {m : ℕ} (hf : Tight f ∧ f.elem = e ^ m) (n : ℕ) :
    (feSqN f n).Yields fun h => Tight h ∧ h.elem = e ^ (m * 2 ^ n) := by
  refine (feSqN_yields hf.1 n).mono fun h hh => ⟨hh.1, ?_⟩
  rw [hh.2, hf.2, pow_mul]

/-- The addition chain of the inversion ends at `p - 2`. -/
lemma feInv_yields {z : Fe} (hz : Tight z) :
    (feInv z).Yields fun h => Tight h ∧ h.elem = z.elem ^ (p - 2) := by
  have hz1 : Tight z ∧ z.elem = z.elem ^ 1 := ⟨hz, (pow_one _).symm⟩
  unfold feInv
  refine (feMul_pow_yields hz1 hz1).bind fun z2 hz2 => ?_
  refine (feSqN_pow_yields hz2 2).bind fun z8 hz8 => ?_
  refine (feMul_pow_yields hz1 hz8).bind fun z9 hz9 => ?_
  refine (feMul_pow_yields hz2 hz9).bind fun z11 hz11 => ?_
  refine (feMul_pow_yields hz11 hz11).bind fun z22 hz22 => ?_
  refine (feMul_pow_yields hz9 hz22).bind fun z5 hz5 => ?_
  refine (feSqN_pow_yields hz5 5).bind fun t5 ht5 => ?_
  refine (feMul_pow_yields ht5 hz5).bind fun z10 hz10 => ?_
  refine (feSqN_pow_yields hz10 10).bind fun t10 ht10 => ?_
  refine (feMul_pow_yields ht10 hz10).bind fun z20 hz20 => ?_
  refine (feSqN_pow_yields hz20 20).bind fun t20 ht20 => ?_
  refine (feMul_pow_yields ht20 hz20).bind fun z40 hz40 => ?_
  refine (feSqN_pow_yields hz40 10).bind fun t40 ht40 => ?_
  refine (feMul_pow_yields ht40 hz10).bind fun z50 hz50 => ?_
  refine (feSqN_pow_yields hz50 50).bind fun t50 ht50 => ?_
  refine (feMul_pow_yields ht50 hz50).bind fun z100 hz100 => ?_
  refine (feSqN_pow_yields hz100 100).bind fun t100 ht100 => ?_
  refine (feMul_pow_yields ht100 hz100).bind fun z200 hz200 => ?_
  refine (feSqN_pow_yields hz200 50).bind fun t200 ht200 => ?_
  refine (feMul_pow_yields ht200 hz50).bind fun z250 hz250 => ?_
  refine (feSqN_pow_yields hz250 5).bind fun t250 ht250 => ?_
  refine (feMul_pow_yields ht250 hz11).mono fun h hh => ⟨hh.1, hh.2.trans ?_⟩
  congr 1

end Crypto
end Damen
