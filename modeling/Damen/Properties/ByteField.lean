import Damen.Framework.CyclicField
import Damen.Model.Fec
import Mathlib.Dynamics.PeriodicPts.Defs
import Mathlib.NumberTheory.Divisors

/-!
# The code's table arithmetic is a field

`GF256` is the byte type with exclusive or as addition.  Multiplication by the generator is
`xtime`, and the 255 iterates of `xtime` at `1` run through all nonzero bytes, so
`CyclicPresentation.field` makes `GF256` a field.  The results the rest of the development
uses say that the table lookups of `fec.cpp` compute in it:

* `gfMul_eq_mul`, `gfInv_eq_inv` and `gfPow_eq_pow` for the scalar operations;
* `coef_eq_pow`, the encoder's weight of a data fragment;
* `getD_gfMulAdd`, one byte of the accumulate loop.

The tables are not evaluated: `filled_range` and `exp_repeat` are the invariants of the two loops
that fill them, and rest on the order of the generator (`minimalPeriod_xtime`).
-/

namespace Damen

/-- Bytes as elements of GF(2⁸). -/
def GF256 : Type := UInt8

namespace GF256

open GfTables

instance : DecidableEq GF256 := inferInstanceAs (DecidableEq UInt8)

/-! ## The additive group -/

instance : Add GF256 := ⟨UInt8.xor⟩
instance : Zero GF256 := ⟨(0 : UInt8)⟩
instance : Neg GF256 := ⟨id⟩

instance : AddCommGroup GF256 where
  add_assoc a b c := UInt8.xor_assoc a b c
  zero_add a := UInt8.zero_xor
  add_zero a := UInt8.xor_zero
  add_comm a b := UInt8.xor_comm a b
  neg_add_cancel a := UInt8.xor_self
  nsmul := nsmulRec
  zsmul := zsmulRec

/-- A byte read as a field element. -/
def ofByte (b : UInt8) : GF256 := b

lemma ofByte_injective : Function.Injective ofByte := fun _ _ h => h

@[simp] lemma ofByte_zero : ofByte 0 = 0 := rfl

lemma ofByte_eq_zero_iff {b : UInt8} : ofByte b = 0 ↔ b = 0 := Iff.rfl

@[simp] lemma ofByte_xor (a b : UInt8) : ofByte (a ^^^ b) = ofByte a + ofByte b := rfl

lemma neg_eq (a : GF256) : -a = a := rfl

lemma sub_eq_add (a b : GF256) : a - b = a + b := by
  rw [sub_eq_add_neg, neg_eq]

/-! ## Multiplication by the generator -/

/-- Multiplication by `x` modulo `x⁸ + x⁴ + x³ + x² + 1`. -/
def xtime (b : UInt8) : UInt8 :=
  if b.toBitVec.msb then (b <<< 1) ^^^ 0x1D else b <<< 1

lemma xtime_xor (a b : UInt8) : xtime (a ^^^ b) = xtime a ^^^ xtime b := by
  have hmsb : (a ^^^ b).toBitVec.msb = (a.toBitVec.msb ^^ b.toBitVec.msb) := by
    rw [UInt8.toBitVec_xor, BitVec.msb_xor]
  have hcancel : ∀ u v : UInt8, u ^^^ 0x1D ^^^ (v ^^^ 0x1D) = u ^^^ v := by
    intro u v
    rw [UInt8.xor_comm v, ← UInt8.xor_assoc, UInt8.xor_assoc u, UInt8.xor_self, UInt8.xor_zero]
  unfold xtime
  rw [hmsb, UInt8.shiftLeft_xor]
  cases a.toBitVec.msb <;> cases b.toBitVec.msb
  · rfl
  · exact UInt8.xor_assoc ..
  · exact (UInt8.xor_assoc ..).trans
      ((congrArg _ (UInt8.xor_comm ..)).trans (UInt8.xor_assoc ..).symm)
  · exact (hcancel ..).symm

/-! ## The generator has order 255

`255 = 3 · 5 · 17`, so it is enough that the 255th iterate returns to `1` and that none of the
iterates `85`, `51` and `15` does. -/

lemma minimalPeriod_xtime : Function.minimalPeriod xtime 1 = 255 := by
  have hdvd : Function.minimalPeriod xtime 1 ∣ 255 :=
    Function.IsPeriodicPt.minimalPeriod_dvd (show xtime^[255] 1 = 1 by decide +kernel)
  have hnot : ∀ k, xtime^[k] 1 ≠ 1 → ¬ Function.minimalPeriod xtime 1 ∣ k :=
    fun k hk h => hk ((Function.isPeriodicPt_minimalPeriod xtime 1).trans_dvd h)
  have h85 := hnot 85 (by decide +kernel)
  have h51 := hnot 51 (by decide +kernel)
  have h15 := hnot 15 (by decide +kernel)
  have hmem : Function.minimalPeriod xtime 1 ∈ Nat.divisors 255 :=
    Nat.mem_divisors.mpr ⟨hdvd, by decide⟩
  have hdiv : Nat.divisors 255 = {1, 3, 5, 15, 17, 51, 85, 255} := by decide +kernel
  rw [hdiv] at hmem
  simp only [Finset.mem_insert, Finset.mem_singleton] at hmem
  rcases hmem with h | h | h | h | h | h | h | h <;> rw [h] at h85 h51 h15 <;> first
    | exact h
    | exact absurd (by decide) h85
    | exact absurd (by decide) h51
    | exact absurd (by decide) h15

variable {i : ℕ} {a : UInt8}

lemma xtime_iterate_inj {j : ℕ} (hi : i < 255) (hj : j < 255) (h : xtime^[i] 1 = xtime^[j] 1) :
    i = j :=
  Function.iterate_injOn_Iio_minimalPeriod (f := xtime) (x := (1 : UInt8))
    (by rw [minimalPeriod_xtime]; exact hi) (by rw [minimalPeriod_xtime]; exact hj) h

lemma xtime_ne_zero {b : UInt8} (hb : b ≠ 0) : xtime b ≠ 0 := by
  have hkernel : ∀ i : Fin 256, UInt8.ofNat i ≠ 0 → xtime (UInt8.ofNat i) ≠ 0 := by
    decide +kernel
  have hbyte := hkernel ⟨b.toNat, b.toNat_lt⟩
  rw [UInt8.ofNat_toNat] at hbyte
  exact hbyte hb

lemma xtime_iterate_ne_zero (i : ℕ) : xtime^[i] 1 ≠ 0 := by
  induction i with
  | zero => decide
  | succ i ih =>
      rw [Function.iterate_succ_apply']
      exact xtime_ne_zero ih

/-- Every nonzero byte is a power of the generator: with zero, the 255 distinct powers fill the
byte range. -/
lemma exists_iterate_eq (ha : a ≠ 0) : ∃ i < 255, xtime^[i] 1 = a := by
  let byteAt : Fin 256 → UInt8 := fun i => if i.val = 255 then 0 else xtime^[i.val] 1
  have hinj : Function.Injective fun i => (byteAt i).toFin := by
    intro i j h
    have hbyte : byteAt i = byteAt j := UInt8.toFin_inj.mp h
    simp only [byteAt] at hbyte
    split at hbyte <;> split at hbyte
    · omega
    · exact absurd hbyte.symm (xtime_iterate_ne_zero _)
    · exact absurd hbyte (xtime_iterate_ne_zero _)
    · exact Fin.ext (xtime_iterate_inj (by omega) (by omega) hbyte)
  obtain ⟨i, hi⟩ := Finite.surjective_of_injective hinj a.toFin
  have hbyte : byteAt i = a := UInt8.toFin_inj.mp hi
  simp only [byteAt] at hbyte
  split at hbyte
  · exact absurd hbyte.symm ha
  · exact ⟨i, by omega, hbyte⟩

/-! ## The tables -/

lemma double_toUInt16 (b : UInt8) : double b.toUInt16 = (xtime b).toUInt16 := by
  have hkernel : ∀ i : Fin 256,
      double (UInt8.ofNat i).toUInt16 = (xtime (UInt8.ofNat i)).toUInt16 := by
    decide +kernel
  have hbyte := hkernel ⟨b.toNat, b.toNat_lt⟩
  rwa [UInt8.ofNat_toNat] at hbyte

/-- What the first loop has established before turn `n`. -/
structure Filled (n : ℕ) (s : UInt16 × GfTables) : Prop where
  next : s.1 = (xtime^[n] 1).toUInt16
  length_exp : s.2.exp.length = 512
  length_log : s.2.log.length = 256
  exp : ∀ i < n, s.2.exp.getD i 0 = xtime^[i] 1
  log : ∀ i < n, s.2.log.getD (xtime^[i] 1).toNat 0 = UInt8.ofNat i

lemma filled_step {n : ℕ} {s : UInt16 × GfTables} (hn : n < 255) (h : Filled n s) :
    Filled (n + 1) (fillStep s n) where
  next := by
    rw [fillStep, h.next, double_toUInt16, Function.iterate_succ_apply']
  length_exp := by rw [fillStep, List.length_set, h.length_exp]
  length_log := by rw [fillStep, List.length_set, h.length_log]
  exp i hi := by
    simp only [fillStep, List.getD_eq_getElem?_getD, List.getElem?_set, h.length_exp]
    rcases Nat.lt_succ_iff_lt_or_eq.mp hi with hlt | heq
    · rw [if_neg (by omega), ← List.getD_eq_getElem?_getD, h.exp i hlt]
    · rw [heq, if_pos rfl, if_pos (by omega), Option.getD_some, h.next, UInt8.toUInt8_toUInt16]
  log i hi := by
    have hnat : s.1.toNat = (xtime^[n] 1).toNat := by rw [h.next, UInt8.toNat_toUInt16]
    simp only [fillStep, List.getD_eq_getElem?_getD, List.getElem?_set, h.length_log, hnat]
    rcases Nat.lt_succ_iff_lt_or_eq.mp hi with hlt | heq
    · -- The powers below 255 are distinct, so an entry once written stays.
      have hne : (xtime^[n] 1).toNat ≠ (xtime^[i] 1).toNat := by
        intro hcontra
        have := xtime_iterate_inj hn (by omega) (UInt8.toNat_inj.mp hcontra)
        omega
      rw [if_neg hne, ← List.getD_eq_getElem?_getD, h.log i hlt]
    · rw [heq, if_pos rfl, if_pos (UInt8.toNat_lt _), Option.getD_some]

lemma filled_range : ∀ n ≤ 255, Filled n ((List.range n).foldl fillStep
    (1, ⟨List.replicate 512 0, List.replicate 256 0⟩)) := by
  intro n
  induction n with
  | zero =>
      intro _
      exact ⟨rfl, List.length_replicate, List.length_replicate,
        fun _ h => absurd h (Nat.not_lt_zero _), fun _ h => absurd h (Nat.not_lt_zero _)⟩
  | succ n ih =>
      intro hn
      rw [List.range_succ, List.foldl_append]
      exact filled_step (by omega) (ih (by omega))

/-- The second loop repeats the powers: after `n` turns the entries below `255 + n` are right,
and the logarithms are those of the first loop. -/
lemma repeated_range {t : GfTables} (hlen : t.exp.length = 512)
    (hexp : ∀ i < 255, t.exp.getD i 0 = xtime^[i] 1) : ∀ n ≤ 257,
    ((List.range' 255 n).foldl repeatStep t).exp.length = 512 ∧
    ((List.range' 255 n).foldl repeatStep t).log = t.log ∧
    ∀ i < 255 + n, ((List.range' 255 n).foldl repeatStep t).exp.getD i 0 = xtime^[i % 255] 1 := by
  intro n
  induction n with
  | zero =>
      intro _
      refine ⟨hlen, rfl, fun i hi => ?_⟩
      rw [Nat.mod_eq_of_lt hi]
      exact hexp i hi
  | succ n ih =>
      intro hn
      obtain ⟨hlen', hlog, hexp'⟩ := ih (by omega)
      rw [List.range'_1_concat, List.foldl_append, List.foldl_cons, List.foldl_nil]
      refine ⟨(List.length_set ..).trans hlen', hlog, fun i hi => ?_⟩
      simp only [repeatStep, List.getD_eq_getElem?_getD, List.getElem?_set, hlen']
      by_cases heq : i = 255 + n
      · rw [if_pos heq.symm, if_pos (by omega), Option.getD_some, ← List.getD_eq_getElem?_getD,
          hexp' _ (by omega), heq, show (255 + n - 255) % 255 = (255 + n) % 255 from by omega]
      · rw [if_neg (Ne.symm heq), ← List.getD_eq_getElem?_getD, hexp' i (by omega)]

/-- The tables come from a completed first loop. -/
lemma gf_eq : ∃ s, Filled 255 s ∧ gf = (List.range' 255 257).foldl repeatStep s.2 :=
  ⟨_, filled_range 255 le_rfl, rfl⟩

lemma gfExp_eq (h : i < 512) : gfExp i = xtime^[i % 255] 1 := by
  obtain ⟨s, hs, hgf⟩ := gf_eq
  rw [gfExp, hgf]
  exact (repeated_range hs.length_exp hs.exp 257 le_rfl).2.2 i h

lemma gfLog_iterate (h : i < 255) : gfLog (xtime^[i] 1) = i := by
  obtain ⟨s, hs, hgf⟩ := gf_eq
  rw [gfLog, hgf, (repeated_range hs.length_exp hs.exp 257 le_rfl).2.1, hs.log i h]
  exact UInt8.toNat_ofNat_of_lt' (Nat.lt_succ_of_lt h)

lemma xtime_iterate_log (ha : a ≠ 0) : xtime^[gfLog a] 1 = a := by
  obtain ⟨i, hi, rfl⟩ := exists_iterate_eq ha
  rw [gfLog_iterate hi]

lemma gfLog_lt (ha : a ≠ 0) : gfLog a < 255 := by
  obtain ⟨i, hi, rfl⟩ := exists_iterate_eq ha
  rw [gfLog_iterate hi]
  exact hi

/-! ## The field -/

lemma xtime_iterate_period : xtime^[255] 1 = 1 := by
  have hperiod := Function.iterate_minimalPeriod (f := xtime) (x := (1 : UInt8))
  rwa [minimalPeriod_xtime] at hperiod

/-- GF(2⁸) presented by the generator `2` and the code's own logarithm table. -/
def presentation : CyclicPresentation GF256 where
  shift := { toFun := xtime, map_zero' := rfl, map_add' := xtime_xor }
  one := (1 : UInt8)
  period := 255
  log := gfLog
  one_ne_zero := show (1 : UInt8) ≠ 0 by decide
  period_pos := by decide
  shift_period := xtime_iterate_period
  shift_log _ ha := xtime_iterate_log ha

instance : Field GF256 := presentation.field

@[simp] lemma ofByte_one : ofByte 1 = 1 := rfl

lemma xtime_iterate_mod (i : ℕ) : xtime^[i % 255] 1 = xtime^[i] 1 := by
  have hperiod : xtime^[255 * (i / 255)] 1 = 1 := presentation.iterate_period_mul (i / 255)
  conv_rhs => rw [← Nat.mod_add_div i 255, Function.iterate_add_apply, hperiod]

lemma gfExp_eq_iterate (h : i < 512) : ofByte (gfExp i) = presentation.shift^[i] 1 := by
  rw [gfExp_eq h, xtime_iterate_mod]
  rfl

/-! ## The scalar operations -/

lemma gfMul_eq_mul (a b : UInt8) : ofByte (gfMul a b) = ofByte a * ofByte b := by
  by_cases ha : a = 0
  · rw [gfMul, if_pos (Or.inl ha), ha, ofByte_zero, zero_mul]
  · by_cases hb : b = 0
    · rw [gfMul, if_pos (Or.inr hb), hb, ofByte_zero, mul_zero]
    · have hsum : gfLog a + gfLog b < 512 := by
        have := gfLog_lt ha
        have := gfLog_lt hb
        omega
      have hprod := presentation.mul_iterate_iterate (gfLog a) (gfLog b)
      rw [gfMul, if_neg (not_or.mpr ⟨ha, hb⟩), gfExp_eq_iterate hsum]
      refine hprod.symm.trans ?_
      have ha' : presentation.shift^[gfLog a] presentation.one = ofByte a := xtime_iterate_log ha
      have hb' : presentation.shift^[gfLog b] presentation.one = ofByte b := xtime_iterate_log hb
      rw [ha', hb']
      rfl

lemma pow_iterate (k e : ℕ) :
    (presentation.shift^[k] (1 : GF256)) ^ e = presentation.shift^[k * e] 1 := by
  induction e with
  | zero => rfl
  | succ e ih =>
      have hmul := presentation.mul_iterate_iterate (k * e) k
      rw [pow_succ, ih, Nat.mul_succ]
      exact hmul

lemma gfPow_eq_pow (a : UInt8) (e : ℕ) : ofByte (gfPow a e) = ofByte a ^ e := by
  by_cases he : e = 0
  · rw [gfPow, if_pos he, he, pow_zero, ofByte_one]
  · by_cases ha : a = 0
    · rw [gfPow, if_neg he, if_pos ha, ha, ofByte_zero, zero_pow he]
    · have hlt : gfLog a * e % 255 < 512 := by omega
      have hbase : presentation.shift^[gfLog a] (1 : GF256) = ofByte a := xtime_iterate_log ha
      rw [gfPow, if_neg he, if_neg ha, gfExp_eq_iterate hlt, ← hbase, pow_iterate]
      exact xtime_iterate_mod (gfLog a * e)

lemma gfInv_eq_inv (ha : a ≠ 0) : ofByte (gfInv a) = (ofByte a)⁻¹ := by
  have hlt := gfLog_lt ha
  have hbase : presentation.shift^[gfLog a] (1 : GF256) = ofByte a := xtime_iterate_log ha
  have hprod := presentation.mul_iterate_iterate (255 - gfLog a) (gfLog a)
  rw [Nat.sub_add_cancel hlt.le] at hprod
  apply eq_inv_of_mul_eq_one_left
  rw [gfInv, gfExp_eq_iterate (by omega), ← hbase]
  exact hprod.trans xtime_iterate_period

/-- The encoder's weight is a power of the fragment's evaluation point. -/
lemma coef_eq_pow (p j : ℕ) : ofByte (coef p j) = ofByte (UInt8.ofNat (j + 1)) ^ p :=
  gfPow_eq_pow _ p

/-! ## The accumulate loop -/

lemma length_gfMulAdd (dst src : Bytes) (c : UInt8) (width : ℕ) :
    (gfMulAdd dst src c width).length = dst.length := by
  unfold gfMulAdd
  split
  · rfl
  · simp only
    split <;> rw [List.length_mapIdx]

/-- One byte of `dst ^= c * src`: the bytes below `width` accumulate the product, a byte past
the end of `src` counting as zero. -/
lemma getD_gfMulAdd {dst : Bytes} {width : ℕ} (src : Bytes) (c : UInt8) (hi : i < dst.length)
    (hw : i < width) :
    ofByte ((gfMulAdd dst src c width).getD i 0) =
      ofByte (dst.getD i 0) + ofByte c * ofByte (src.getD i 0) := by
  unfold gfMulAdd
  split
  · next hskip =>
    have hzero : ofByte c * ofByte (src.getD i 0) = 0 := by
      rcases hskip with hc | hsrc
      · rw [hc, ofByte_zero, zero_mul]
      · rw [List.length_eq_zero_iff.mp hsrc]
        exact mul_zero _
    rw [hzero, add_zero]
  · have hmap : ∀ g : ℕ → UInt8 → UInt8, (dst.mapIdx g).getD i 0 = g i (dst.getD i 0) := by
      intro g
      simp [List.getD_eq_getElem?_getD, List.getElem?_mapIdx, List.getElem?_eq_getElem hi]
    have hpast : ¬ i < min dst.length (min src.length width) → src.getD i 0 = 0 := by
      intro h
      rw [List.getD_eq_getElem?_getD, List.getElem?_eq_none (by omega), Option.getD_none]
    simp only
    split
    · next hc =>
      rw [hmap]
      split
      · rw [ofByte_xor, hc, ofByte_one, one_mul]
      · next hn => rw [hpast hn, ofByte_zero, mul_zero, add_zero]
    · rw [hmap]
      split
      · next hc hb =>
        -- The lookup is the product of two nonzero bytes.
        have hne : ¬ (c = 0 ∨ src.getD i 0 = 0) := by
          rintro (h | h)
          · exact ‹¬ (c = 0 ∨ _)› (Or.inl h)
          · exact hb.2 h
        rw [ofByte_xor, ← gfMul_eq_mul, gfMul, if_neg hne]
      · next hb =>
        have hzero : src.getD i 0 = 0 := by
          by_contra hne
          exact hne (hpast (fun h => hb ⟨h, hne⟩))
        rw [hzero, ofByte_zero, mul_zero, add_zero]

end GF256

end Damen
