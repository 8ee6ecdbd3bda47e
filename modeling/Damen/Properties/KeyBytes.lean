import Damen.Properties.FieldElement
import Mathlib.Data.List.GetD

/-!
# Field elements and bytes

`feFrombytes` reads the number in 32 little-endian bytes without its topmost bit, and `feTobytes`
writes the canonical representative of an element: two rounds of carries bring every limb below
`2 ^ 51`, a third has nothing left to do, and one conditional subtraction of `p` follows.
-/

namespace Damen
namespace Crypto

open Wrapping Wrapping.Marked
open Rfc7748 (p decodeLittleEndian decodeUCoordinate encodeUCoordinate)

/-! ## Little-endian numbers -/

lemma map_toNat_lt (b : Bytes) : ∀ d ∈ b.map UInt8.toNat, d < 256 := by
  intro d hd
  obtain ⟨x, -, rfl⟩ := List.mem_map.mp hd
  exact x.toNat_lt

lemma decodeLittleEndian_nil : decodeLittleEndian [] = 0 := rfl

lemma decodeLittleEndian_cons (x : UInt8) (b : Bytes) :
    decodeLittleEndian (x :: b) = x.toNat + 256 * decodeLittleEndian b := by
  rw [decodeLittleEndian, List.map_cons, Nat.ofDigits_cons]
  rfl

lemma decodeLittleEndian_append (b c : Bytes) :
    decodeLittleEndian (b ++ c) = decodeLittleEndian b + 256 ^ b.length * decodeLittleEndian c := by
  rw [decodeLittleEndian, List.map_append, Nat.ofDigits_append, List.length_map]
  rfl

lemma decodeLittleEndian_lt (b : Bytes) : decodeLittleEndian b < 256 ^ b.length := by
  have h := Nat.ofDigits_lt_base_pow_length (by norm_num) (map_toNat_lt b)
  rwa [List.length_map] at h

lemma decodeLittleEndian_drop (b : Bytes) (i : ℕ) :
    decodeLittleEndian (b.drop i) = decodeLittleEndian b / 256 ^ i := by
  rw [decodeLittleEndian, List.map_drop]
  exact (Nat.ofDigits_div_pow_eq_ofDigits_drop i (by norm_num) _ (map_toNat_lt b)).symm

/-- Byte `i` of a number. -/
lemma toNat_getD (b : Bytes) (i : ℕ) :
    (b.getD i 0).toNat = decodeLittleEndian b / 256 ^ i % 256 := by
  rw [← decodeLittleEndian_drop]
  cases hdrop : b.drop i with
  | nil =>
      rw [List.getD_eq_default _ _ (List.drop_eq_nil_iff.mp hdrop)]
      rfl
  | cons x rest =>
      have hget : b.getD i 0 = x := by
        rw [List.getD_eq_getElem?_getD, ← List.head?_drop, hdrop]
        rfl
      rw [hget, decodeLittleEndian_cons, Nat.add_mul_mod_self_left, Nat.mod_eq_of_lt x.toNat_lt]

/-- Numbers of as many bytes are equal only if the bytes are. -/
lemma eq_of_decodeLittleEndian {b c : Bytes} (hlen : b.length = c.length)
    (h : decodeLittleEndian b = decodeLittleEndian c) : b = c := by
  have hdigits := Nat.ofDigits_inj_of_len_eq (by norm_num)
    (show (b.map UInt8.toNat).length = (c.map UInt8.toNat).length by simp [hlen])
    (map_toNat_lt b) (map_toNat_lt c) h
  exact List.map_injective_iff.mpr (fun _ _ => UInt8.toNat_inj.mp) hdigits

/-! ## Reading -/

/-- The loop of `load_le64` adds one byte on top of the others. -/
lemma toNat_load (b : Bytes) {k : ℕ} (hk : k ≤ 8) :
    ((List.range k).foldl (fun v i => v ||| (b.getD i 0).toUInt64 <<< UInt64.ofNat (i * 8))
      0).toNat =
      decodeLittleEndian b % 256 ^ k := by
  induction k with
  | zero => exact (Nat.mod_one _).symm
  | succ k ih =>
      have hpow : (256 : ℕ) ^ k = 2 ^ (k * 8) := by
        rw [Nat.mul_comm, pow_mul]
        rfl
      have hlt : decodeLittleEndian b % 256 ^ k < 2 ^ (k * 8) := by
        rw [← hpow]
        exact Nat.mod_lt _ (by positivity)
      have hshift : (UInt64.ofNat (k * 8)).toNat % 64 = k * 8 := by
        rw [UInt64.toNat_ofNat_of_lt' (show k * 8 < 2 ^ 64 by omega)]
        omega
      have hbyte : (b.getD k 0).toNat <<< (k * 8) < 2 ^ 64 := by
        rw [Nat.shiftLeft_eq]
        calc (b.getD k 0).toNat * 2 ^ (k * 8) < 2 ^ 8 * 2 ^ (k * 8) :=
              Nat.mul_lt_mul_of_pos_right (UInt8.toNat_lt _) (by positivity)
          _ = 2 ^ (8 + k * 8) := (pow_add 2 8 (k * 8)).symm
          _ ≤ 2 ^ 64 := Nat.pow_le_pow_right (by norm_num) (by omega)
      rw [List.range_succ, List.foldl_append, List.foldl_cons, List.foldl_nil, UInt64.toNat_or,
        ih (by omega), UInt64.toNat_shiftLeft, UInt8.toNat_toUInt64, hshift, Nat.mod_eq_of_lt hbyte,
        Nat.or_comm, ← Nat.shiftLeft_add_eq_or_of_lt hlt, Nat.shiftLeft_eq, toNat_getD, ← hpow,
        Nat.mod_pow_succ]
      ring

lemma toNat_loadLe64 (s : Bytes) (i : ℕ) :
    (loadLe64 (s.drop i)).toNat = decodeLittleEndian s / 256 ^ i % 2 ^ 64 := by
  rw [loadLe64, toNat_load _ le_rfl, decodeLittleEndian_drop]
  rfl

lemma toNat_and_kMask51 (x : UInt64) : (x &&& kMask51).toNat = x.toNat % 2 ^ 51 := by
  rw [UInt64.toNat_and, and_kMask51]

/-- The topmost bit does not count. -/
lemma decodeUCoordinate_eq {u : Bytes} (hu : u.length = 32) :
    decodeUCoordinate u = decodeLittleEndian u % 2 ^ 255 := by
  obtain ⟨x, hx⟩ : ∃ x, u.drop 31 = [x] := by
    rw [← List.length_eq_one_iff, List.length_drop, hu]
  have hlen : (u.take 31).length = 31 := by
    rw [List.length_take]
    omega
  have hfront := decodeLittleEndian_lt (u.take 31)
  rw [hlen] at hfront
  have hsplit := decodeLittleEndian_append (u.take 31) [x]
  rw [← hx, List.take_append_drop, hx, hlen] at hsplit
  have hone : ∀ y : UInt8, decodeLittleEndian [y] = y.toNat := fun _ => Nat.ofDigits_singleton
  have hmask : (x &&& 127).toNat = x.toNat % 128 := by
    rw [UInt8.toNat_and]
    exact Nat.and_two_pow_sub_one_eq_mod _ 7
  rw [decodeUCoordinate, List.modify_eq_take_drop, hx, List.modifyHead_cons,
    decodeLittleEndian_append, hlen, hone, hmask, hsplit, hone]
  have hxlt := x.toNat_lt
  omega

lemma feFrombytes_spec {u : Bytes} (hu : u.length = 32) :
    Tight (feFrombytes u) ∧ (feFrombytes u).value = decodeUCoordinate u := by
  have hlimb : ∀ (i : ℕ) (k : UInt64), ((loadLe64 (u.drop i) >>> k) &&& kMask51).toNat =
      decodeLittleEndian u / 256 ^ i % 2 ^ 64 / 2 ^ (k.toNat % 64) % 2 ^ 51 := by
    intro i k
    rw [toNat_and_kMask51, UInt64.toNat_shiftRight, Nat.shiftRight_eq_div_pow, toNat_loadLe64]
  have h0 : (feFrombytes u).h0.toNat = decodeLittleEndian u % 2 ^ 64 % 2 ^ 51 := by
    have hload := toNat_loadLe64 u 0
    rw [List.drop_zero, pow_zero, Nat.div_one] at hload
    rw [feFrombytes, toNat_and_kMask51, hload]
  have h1 : (feFrombytes u).h1.toNat = decodeLittleEndian u / 256 ^ 6 % 2 ^ 64 / 2 ^ 3 % 2 ^ 51 :=
    hlimb 6 3
  have h2 : (feFrombytes u).h2.toNat = decodeLittleEndian u / 256 ^ 12 % 2 ^ 64 / 2 ^ 6 % 2 ^ 51 :=
    hlimb 12 6
  have h3 : (feFrombytes u).h3.toNat = decodeLittleEndian u / 256 ^ 19 % 2 ^ 64 / 2 ^ 1 % 2 ^ 51 :=
    hlimb 19 1
  have h4 : (feFrombytes u).h4.toNat = decodeLittleEndian u / 256 ^ 24 % 2 ^ 64 / 2 ^ 12 % 2 ^ 51 :=
    hlimb 24 12
  refine ⟨⟨by omega, by omega, by omega, by omega, by omega⟩, ?_⟩
  rw [Fe.value, decodeUCoordinate_eq hu, h0, h1, h2, h3, h4]
  omega

/-! ## Carries -/

/-- What a round of carries leaves: the limbs add up to the same modulo `p`. -/
lemma carryPass_yields {h : Fe} (h0 : h.h0.toNat < 2 ^ 52) (h1 : h.h1.toNat < 2 ^ 52)
    (h2 : h.h2.toNat < 2 ^ 52) (h3 : h.h3.toNat < 2 ^ 52) (h4 : h.h4.toNat < 2 ^ 52) :
    (carryPass h).Yields fun h' => ∃ c1 c2 c3 c4 c5 : ℕ,
      h'.value + p * c5 = h.value ∧ c1 = h.h0.toNat / 2 ^ 51 ∧ c2 = (h.h1.toNat + c1) / 2 ^ 51 ∧
        c3 = (h.h2.toNat + c2) / 2 ^ 51 ∧ c4 = (h.h3.toNat + c3) / 2 ^ 51 ∧
        c5 = (h.h4.toNat + c4) / 2 ^ 51 ∧ h'.h0.toNat = h.h0.toNat % 2 ^ 51 + 19 * c5 ∧
        h'.h1.toNat < 2 ^ 51 ∧ h'.h2.toNat < 2 ^ 51 ∧ h'.h3.toNat < 2 ^ 51 ∧
          h'.h4.toNat < 2 ^ 51 := by
  have hshr : ∀ x : UInt64, (x >>> 51).toNat = x.toNat / 2 ^ 51 := fun x => by
    rw [UInt64.toNat_shiftRight, Nat.shiftRight_eq_div_pow]
    rfl
  unfold carryPass
  refine (add64_yields (by rw [hshr]; omega)).bind fun s1 hs1 => ?_
  rw [hshr] at hs1
  refine (add64_yields (by rw [hshr]; omega)).bind fun s2 hs2 => ?_
  rw [hshr] at hs2
  refine (add64_yields (by rw [hshr]; omega)).bind fun s3 hs3 => ?_
  rw [hshr] at hs3
  refine (add64_yields (by rw [hshr]; omega)).bind fun s4 hs4 => ?_
  rw [hshr] at hs4
  refine (mul64_yields (by rw [hshr]; change 19 * _ < _; omega)).bind fun t ht => ?_
  replace ht : t.toNat = 19 * (s4.toNat / 2 ^ 51) := by
    rw [ht, hshr]
    rfl
  refine (add64_yields (by rw [toNat_and_kMask51]; omega)).bind fun s0 hs0 => yields_pure ?_
  rw [toNat_and_kMask51] at hs0
  refine ⟨_, _, _, _, _, ?_, rfl, rfl, rfl, rfl, rfl, ?_⟩
  · simp only [Fe.value, p, toNat_and_kMask51]
    omega
  · simp only [toNat_and_kMask51]
    omega

/-- Every limb has 51 bits. -/
structure Packed (f : Fe) : Prop where
  h0 : f.h0.toNat < 2 ^ 51
  h1 : f.h1.toNat < 2 ^ 51
  h2 : f.h2.toNat < 2 ^ 51
  h3 : f.h3.toNat < 2 ^ 51
  h4 : f.h4.toNat < 2 ^ 51

variable {f : Fe}

/-- After a first round only the lowest limb can be above 51 bits, by less than 20. -/
lemma carryPass_first (hf : Tight f) :
    (carryPass f).Yields fun h => (∃ c, h.value + p * c = f.value) ∧ h.h0.toNat < 2 ^ 51 + 19 ∧
      h.h1.toNat < 2 ^ 51 ∧ h.h2.toNat < 2 ^ 51 ∧ h.h3.toNat < 2 ^ 51 ∧ h.h4.toNat < 2 ^ 51 := by
  obtain ⟨hf0, hf1, hf2, hf3, hf4⟩ := hf
  refine (carryPass_yields (by omega) (by omega) (by omega) (by omega) (by omega)).mono ?_
  rintro h ⟨c1, c2, c3, c4, c5, hvalue, hc1, hc2, hc3, hc4, hc5, hh0, hhigh⟩
  exact ⟨⟨c5, hvalue⟩, by omega, hhigh⟩

/-- If the lowest limb carries, less than 19 is left of it, so a second round ends below `2 ^
51`. -/
lemma carryPass_again (hf0 : f.h0.toNat < 2 ^ 51 + 19) (hf1 : f.h1.toNat < 2 ^ 51)
    (hf2 : f.h2.toNat < 2 ^ 51) (hf3 : f.h3.toNat < 2 ^ 51) (hf4 : f.h4.toNat < 2 ^ 51) :
    (carryPass f).Yields fun h => (∃ c, h.value + p * c = f.value) ∧ Packed h := by
  refine (carryPass_yields (by omega) (by omega) (by omega) (by omega) (by omega)).mono ?_
  rintro h ⟨c1, c2, c3, c4, c5, hvalue, hc1, hc2, hc3, hc4, hc5, hh0, hh1, hh2, hh3, hh4⟩
  exact ⟨⟨c5, hvalue⟩, by omega, hh1, hh2, hh3, hh4⟩

lemma Packed.value_lt (h : Packed f) : f.value < 2 ^ 255 := by
  obtain ⟨h0, h1, h2, h3, h4⟩ := h
  rw [Fe.value]
  omega

/-! ## The conditional subtraction -/

lemma toInt_toInt64 {x : UInt64} (h : x.toNat < 2 ^ 51) : x.toInt64.toInt = x.toNat :=
  BitVec.toInt_eq_toNat_of_lt (show 2 * x.toNat < 2 ^ 64 by omega)

/-- Borrows are zero or one. -/
def borrowOf (b : Bool) : Int64 := if b then 1 else 0

/-- A limb of the difference, and the borrow it passes on. -/
lemma subLimb_spec {h q : UInt64} (hh : h.toNat < 2 ^ 51) (hq : q.toNat < 2 ^ 51) (b : Bool) :
    ∃ m b', subLimb h q (borrowOf b) = (m, borrowOf b') ∧ m.toNat < 2 ^ 51 ∧
      m.toNat + q.toNat + b.toNat = h.toNat + 2 ^ 51 * b'.toNat := by
  have hborrow : (borrowOf b).toInt = b.toNat ∧ (borrowOf b).toUInt64.toNat = b.toNat := by
    cases b <;> exact ⟨rfl, rfl⟩
  have hb : b.toNat ≤ 1 := Bool.toNat_le b
  generalize ht : h.toInt64 - q.toInt64 - borrowOf b = t
  have hvalue : t.toInt = (h.toNat : ℤ) - q.toNat - b.toNat := by
    have hfirst : (h.toInt64 - q.toInt64).toInt = (h.toNat : ℤ) - q.toNat := by
      rw [Int64.toInt_sub, toInt_toInt64 hh, toInt_toInt64 hq,
        Int.bmod_eq_of_le (by omega) (by omega)]
    rw [← ht, Int64.toInt_sub, hfirst, hborrow.1, Int.bmod_eq_of_le (by omega) (by omega)]
  have hword : t.toUInt64.toNat = (2 ^ 64 - b.toNat + (2 ^ 64 - q.toNat + h.toNat) % 2 ^ 64)
      % 2 ^ 64 := by
    rw [← ht, Int64.toUInt64_sub, Int64.toUInt64_sub, UInt64.toUInt64_toInt64,
      UInt64.toUInt64_toInt64, UInt64.toNat_sub, UInt64.toNat_sub, hborrow.2]
  have hneg : t < 0 ↔ h.toNat < q.toNat + b.toNat := by
    rw [Int64.lt_iff_toInt_lt, hvalue]
    change (h.toNat : ℤ) - q.toNat - b.toNat < 0 ↔ _
    omega
  refine ⟨t.toUInt64 &&& kMask51, decide (t < 0), ?_, ?_, ?_⟩
  · have hout : borrowOf (decide (t < 0)) = if t < 0 then 1 else 0 := by
      simp only [borrowOf, decide_eq_true_eq]
    unfold subLimb
    simp only [ht, hout]
  · rw [toNat_and_kMask51]
    omega
  · rw [toNat_and_kMask51, hword]
    by_cases hlt : t < 0
    · rw [decide_eq_true hlt]
      have hcmp := hneg.mp hlt
      simp only [Bool.toNat_true]
      omega
    · rw [decide_eq_false hlt]
      have hcmp := mt hneg.mpr hlt
      simp only [Bool.toNat_false]
      omega

/-- Everything is kept or replaced. -/
lemma select_limb (b : Bool) (h m : UInt64) :
    ((-borrowOf b).toUInt64 &&& h) ||| (~~~(-borrowOf b).toUInt64 &&& m) = if b then h else m := by
  cases b with
  | false =>
      have hmask : (-borrowOf false).toUInt64 = 0 := by decide
      rw [hmask]
      simp
  | true =>
      have hmask : (-borrowOf true).toUInt64 = -1 := by decide
      rw [hmask]
      simp

lemma subModulus_spec {h : Fe} (hh : Packed h) :
    Packed (subModulus h) ∧ (subModulus h).value = h.value % p := by
  obtain ⟨hh0, hh1, hh2, hh3, hh4⟩ := hh
  have hlow : (kMask51 - 18).toNat = 2 ^ 51 - 19 := rfl
  have hmask : kMask51.toNat = 2 ^ 51 - 1 := rfl
  obtain ⟨m0, b0, hs0, hm0, he0⟩ :=
    subLimb_spec hh0 (by omega : (kMask51 - 18).toNat < 2 ^ 51) false
  obtain ⟨m1, b1, hs1, hm1, he1⟩ := subLimb_spec hh1 (by omega : kMask51.toNat < 2 ^ 51) b0
  obtain ⟨m2, b2, hs2, hm2, he2⟩ := subLimb_spec hh2 (by omega : kMask51.toNat < 2 ^ 51) b1
  obtain ⟨m3, b3, hs3, hm3, he3⟩ := subLimb_spec hh3 (by omega : kMask51.toNat < 2 ^ 51) b2
  obtain ⟨m4, b4, hs4, hm4, he4⟩ := subLimb_spec hh4 (by omega : kMask51.toNat < 2 ^ 51) b3
  have hsub : subModulus h = if b4 then h else ⟨m0, m1, m2, m3, m4⟩ := by
    unfold subModulus
    have hzero : (0 : Int64) = borrowOf false := rfl
    simp only [hzero, hs0, hs1, hs2, hs3, hs4, select_limb]
    cases b4 <;> rfl
  have hm : Packed ⟨m0, m1, m2, m3, m4⟩ := ⟨hm0, hm1, hm2, hm3, hm4⟩
  have hmlt := hm.value_lt
  have hlt : h.value < 2 ^ 255 := Packed.value_lt ⟨hh0, hh1, hh2, hh3, hh4⟩
  have hfalse : false.toNat = 0 := rfl
  have hsum : (⟨m0, m1, m2, m3, m4⟩ : Fe).value + p = h.value + 2 ^ 255 * b4.toNat := by
    simp only [Fe.value, p]
    omega
  cases b4 with
  | false =>
      rw [if_neg Bool.false_ne_true] at hsub
      rw [Bool.toNat_false, Nat.mul_zero, Nat.add_zero] at hsum
      rw [hsub, ← hsum, Nat.add_mod_right, Nat.mod_eq_of_lt]
      · exact ⟨hm, rfl⟩
      · rw [p] at hsum ⊢
        omega
  | true =>
      rw [if_pos rfl] at hsub
      rw [Bool.toNat_true, Nat.mul_one] at hsum
      rw [hsub, Nat.mod_eq_of_lt (by omega)]
      exact ⟨⟨hh0, hh1, hh2, hh3, hh4⟩, rfl⟩

/-! ## Writing -/

lemma toNat_shr (x k : UInt64) : (x >>> k).toNat = x.toNat / 2 ^ (k.toNat % 64) := by
  rw [UInt64.toNat_shiftRight, Nat.shiftRight_eq_div_pow]

/-- A byte with the last bits of one limb and the first ones of the next. -/
lemma toNat_seam (x y j k : UInt64) (hk : k.toNat < 64)
    (hx : x.toNat / 2 ^ (j.toNat % 64) < 2 ^ k.toNat) :
    (x >>> j ||| y <<< k).toUInt8.toNat =
      (x.toNat / 2 ^ (j.toNat % 64) + 2 ^ k.toNat * y.toNat) % 2 ^ 8 := by
  rw [UInt64.toNat_toUInt8, UInt64.toNat_or, toNat_shr, UInt64.toNat_shiftLeft, Nat.mod_eq_of_lt hk,
    Nat.or_mod_two_pow, Nat.mod_mod_of_dvd _ (by decide : 2 ^ 8 ∣ 2 ^ 64), ← Nat.or_mod_two_pow,
    Nat.or_comm, ← Nat.shiftLeft_add_eq_or_of_lt hx, Nat.shiftLeft_eq, Nat.add_comm, Nat.mul_comm]

/-- A byte of a limb, in front of the rest of the limb and what comes behind it. -/
lemma byte_add (n k t : ℕ) :
    n / 2 ^ k % 2 ^ 8 + 256 * (n / 2 ^ (k + 8) + t) = n / 2 ^ k + 256 * t := by
  rw [pow_add, ← Nat.div_div_eq_div_mul]
  omega

/-- A byte with the end `x` of one limb, in front of the rest of the next one. -/
lemma seam_add {x j k : ℕ} (n t : ℕ) (hx : x < 2 ^ j) (hj : j + k = 8) :
    (x + 2 ^ j * n) % 2 ^ 8 + 256 * (n / 2 ^ k + t) = x + (2 ^ j * n + 256 * t) := by
  have hsplit : 2 ^ j * (n % 2 ^ k) + 2 ^ 8 * (n / 2 ^ k) = 2 ^ j * n := by
    rw [← hj, pow_add, Nat.mul_assoc, ← Nat.mul_add, Nat.mod_add_div]
  have hlt : x + 2 ^ j * (n % 2 ^ k) < 2 ^ 8 := by
    have hmod : n % 2 ^ k + 1 ≤ 2 ^ k := Nat.mod_lt _ (by positivity)
    calc x + 2 ^ j * (n % 2 ^ k) < 2 ^ j + 2 ^ j * (n % 2 ^ k) := Nat.add_lt_add_right hx _
      _ = 2 ^ j * (n % 2 ^ k + 1) := by ring
      _ ≤ 2 ^ j * 2 ^ k := Nat.mul_le_mul_left _ hmod
      _ = 2 ^ 8 := by rw [← pow_add, hj]
  omega

lemma decode_packBytes (hf : Packed f) : decodeLittleEndian (packBytes f).toList = f.value := by
  obtain ⟨h0, h1, h2, h3, h4⟩ := hf
  have hbyte : ∀ x k : UInt64, (x >>> k).toUInt8.toNat = x.toNat / 2 ^ (k.toNat % 64) % 2 ^ 8 :=
    fun x k => by rw [UInt64.toNat_toUInt8, toNat_shr]
  have s0 := toNat_seam f.h0 f.h1 48 3 (by decide) (show f.h0.toNat / 2 ^ 48 < 2 ^ 3 by omega)
  have s1 := toNat_seam f.h1 f.h2 45 6 (by decide) (show f.h1.toNat / 2 ^ 45 < 2 ^ 6 by omega)
  have s2 := toNat_seam f.h2 f.h3 50 1 (by decide) (show f.h2.toNat / 2 ^ 50 < 2 ^ 1 by omega)
  have s3 := toNat_seam f.h3 f.h4 47 4 (by decide) (show f.h3.toNat / 2 ^ 47 < 2 ^ 4 by omega)
  unfold packBytes
  simp only [Vector.toList_mk, decodeLittleEndian_cons, s0, s1, s2, s3, hbyte, UInt64.toNat_toUInt8,
    UInt64.reduceToNat, Nat.reduceMod, decodeLittleEndian_nil, Fe.value]
  -- from the last byte to the first
  have hlast : f.h4.toNat / 2 ^ 44 % 2 ^ 8 + 256 * 0 = f.h4.toNat / 2 ^ 44 + 0 := by omega
  have hfirst : ∀ n t : ℕ, n % 2 ^ 8 + 256 * (n / 2 ^ 8 + t) = n + 256 * t := fun n t => by omega
  rw [hlast, byte_add _ 36, byte_add _ 28, byte_add _ 20, byte_add _ 12, byte_add _ 4,
    seam_add _ _ (show f.h3.toNat / 2 ^ 47 < 2 ^ 4 by omega) rfl,
    byte_add _ 39, byte_add _ 31, byte_add _ 23, byte_add _ 15, byte_add _ 7,
    seam_add _ _ (show f.h2.toNat / 2 ^ 50 < 2 ^ 1 by omega) rfl,
    byte_add _ 42, byte_add _ 34, byte_add _ 26, byte_add _ 18, byte_add _ 10, byte_add _ 2,
    seam_add _ _ (show f.h1.toNat / 2 ^ 45 < 2 ^ 6 by omega) rfl,
    byte_add _ 37, byte_add _ 29, byte_add _ 21, byte_add _ 13, byte_add _ 5,
    seam_add _ _ (show f.h0.toNat / 2 ^ 48 < 2 ^ 3 by omega) rfl,
    byte_add _ 40, byte_add _ 32, byte_add _ 24, byte_add _ 16, byte_add _ 8,
    hfirst]
  ring

lemma length_encodeUCoordinate (n : ℕ) : (encodeUCoordinate n).length = 32 := by
  rw [encodeUCoordinate, List.length_map, List.length_range]

/-- The first `k` bytes of a number. -/
lemma decode_bytes (n k : ℕ) :
    decodeLittleEndian ((List.range k).map fun i => UInt8.ofNat (n >>> (8 * i))) = n % 256 ^ k := by
  induction k with
  | zero => exact (Nat.mod_one n).symm
  | succ k ih =>
      have hbyte : decodeLittleEndian [UInt8.ofNat (n >>> (8 * k))] = n / 256 ^ k % 256 := by
        rw [decodeLittleEndian_cons, decodeLittleEndian_nil, Nat.shiftRight_eq_div_pow, pow_mul]
        exact UInt8.toNat_ofNat'
      rw [List.range_succ, List.map_append, decodeLittleEndian_append, ih, List.length_map,
        List.length_range, List.map_singleton, hbyte, Nat.mod_pow_succ]

lemma packBytes_eq (hf : Packed f) : (packBytes f).toList = encodeUCoordinate f.value := by
  refine eq_of_decodeLittleEndian ?_ ?_
  · rw [length_encodeUCoordinate, Vector.length_toList]
  · have hlt := hf.value_lt
    rw [decode_packBytes hf, encodeUCoordinate, decode_bytes, Nat.mod_eq_of_lt]
    omega

/-- The bytes that are written are those of the canonical representative. -/
lemma feTobytes_yields (hf : Tight f) :
    (feTobytes f).Yields fun s => s.toList = encodeUCoordinate f.elem.val := by
  unfold feTobytes
  refine (carryPass_first hf).bind fun g1 hg1 => ?_
  obtain ⟨⟨c1, hv1⟩, hl0, hl1, hl2, hl3, hl4⟩ := hg1
  refine (carryPass_again hl0 hl1 hl2 hl3 hl4).bind fun g2 hg2 => ?_
  obtain ⟨⟨c2, hv2⟩, hp0, hp1, hp2, hp3, hp4⟩ := hg2
  refine (carryPass_again (by omega) hp1 hp2 hp3 hp4).bind fun g3 hg3 => ?_
  obtain ⟨⟨c3, hv3⟩, hpacked⟩ := hg3
  obtain ⟨hout, hvalue⟩ := subModulus_spec hpacked
  refine yields_pure ?_
  rw [packBytes_eq hout, hvalue, Fe.elem, ZMod.val_natCast, ← hv1, ← hv2, ← hv3]
  simp only [Nat.add_mul_mod_self_left]

end Crypto
end Damen
