import Damen.Framework.Sp80038D
import Damen.Properties.WordBytes

/-!
# GHASH

`ghash_mul` is the product of blocks of SP 800-38D (`ghashMul_eq_mul`): the loop adds a multiple of
one factor for every bit of the other, and `shiftReduce` multiplies by `x` in between.
-/

namespace Damen
namespace Crypto

open BigEndian BitPolynomial Sp80038D

/-! ## Bits of a block -/

lemma testBit_eq_getMsbD (b : UInt8) {r : ℕ} (hr : r < 8) :
    decide ((b >>> UInt8.ofNat (7 - r)) &&& 1 ≠ 0) = b.toBitVec.getMsbD r := by
  have hshift : (UInt8.ofNat (7 - r)).toNat % 8 = 7 - r := by
    rw [UInt8.toNat_ofNat_of_lt' (show 7 - r < 2 ^ 8 by omega)]
    omega
  have hvalue : ((b >>> UInt8.ofNat (7 - r)) &&& 1).toNat = b.toNat / 2 ^ (7 - r) % 2 := by
    rw [UInt8.toNat_and, UInt8.toNat_shiftRight, hshift, Nat.shiftRight_eq_div_pow]
    exact Nat.and_one_is_mod _
  have hbit : b.toBitVec.getMsbD r = decide (b.toNat / 2 ^ (7 - r) % 2 = 1) := by
    rw [BitVec.getMsbD_eq_getLsbD, decide_eq_true hr, Bool.true_and,
      ← Nat.testBit_eq_decide_div_mod_eq]
    rfl
  rw [hbit, decide_eq_decide, ne_eq, ← UInt8.toNat_inj, hvalue]
  exact Nat.mod_two_ne_zero

lemma blockBit_eq (x : Block) (i : ℕ) : blockBit x i = bit x i :=
  testBit_eq_getMsbD _ (Nat.mod_lt _ (by decide))

lemma getMsbD_shiftRight_one (b : UInt8) {r : ℕ} (hr : r < 8) :
    (b >>> 1).toBitVec.getMsbD r = (decide (0 < r) && b.toBitVec.getMsbD (r - 1)) := by
  rw [UInt8.toBitVec_shiftRight]
  change (b.toBitVec >>> 1).getMsbD r = _
  rw [BitVec.getMsbD_ushiftRight, decide_eq_true hr]
  cases r <;> simp

lemma getMsbD_shiftLeft_seven (b : UInt8) {r : ℕ} (hr : r < 8) :
    (b <<< 7).toBitVec.getMsbD r = (decide (r = 0) && b.toBitVec.getMsbD 7) := by
  rw [UInt8.toBitVec_shiftLeft]
  change (b.toBitVec <<< 7).getMsbD r = _
  rw [BitVec.getMsbD_shiftLeft]
  by_cases hzero : r = 0
  · simp [hzero]
  · rw [BitVec.getMsbD_of_ge _ _ (by omega)]
    simp [hzero]

/-! ## Multiplication by `x` -/

lemma getD_eq_getElem (v : Block) {j : ℕ} (hj : j < 16) : v.getD j 0 = v[j] :=
  by simp [Vector.getD, hj]

lemma lastBit_iff (v : Block) : v.getD 15 0 &&& 1 ≠ 0 ↔ bit v 127 = true := by
  have h := testBit_eq_getMsbD (v.getD 15 0) (by decide : 7 < 8)
  rw [show UInt8.ofNat (7 - 7) = 0 from rfl, UInt8.shiftRight_zero] at h
  rw [bit, show 127 / 8 = 15 from rfl, show 127 % 8 = 7 from rfl, ← h, decide_eq_true_iff]

lemma getD_shiftReduce (v : Block) {j : ℕ} (hj : j < 16) :
    (shiftReduce v).getD j 0 =
      (if j = 0 then v.getD 0 0 >>> 1 else (v.getD j 0 >>> 1) ||| (v.getD (j - 1) 0 <<< 7)) ^^^
        (if j = 0 ∧ bit v 127 then 0xE1 else 0) := by
  have hlastByte := getD_eq_getElem v (by decide : 15 < 16)
  rw [getD_eq_getElem _ hj, shiftReduce, Vector.getElem_ofFn, ← hlastByte]
  rcases Nat.eq_zero_or_pos j with rfl | hpos
  · rw [if_pos rfl, getD_eq_getElem v hj]
    by_cases hlast : bit v 127
    · simp [hlast, (lastBit_iff v).mpr hlast]
    · simp [hlast, mt (lastBit_iff v).mp hlast]
  · have hne : (⟨j, hj⟩ : Fin 16) ≠ 0 := Fin.ne_of_val_ne hpos.ne'
    rw [if_neg (fun h => hne h.1), if_neg hne, if_neg hpos.ne', if_neg (fun h => hpos.ne' h.1),
      UInt8.xor_zero, getD_eq_getElem v hj]
    rfl

/-- The bits move up by one, and the last of them decides on the reduction. -/
lemma bit_shiftReduce (v : Block) {i : ℕ} (hi : i < 128) :
    bit (shiftReduce v) i =
      ((decide (0 < i) && bit v (i - 1)) ^^ (bit v 127 && (0x87#128).getLsbD i)) := by
  have hr : i % 8 < 8 := Nat.mod_lt _ (by decide)
  rw [bit, getD_shiftReduce v (by omega), UInt8.toBitVec_xor, BitVec.getMsbD_xor]
  congr 1
  · rcases Nat.eq_zero_or_pos (i / 8) with hfirst | hlater
    · rw [if_pos hfirst, getMsbD_shiftRight_one _ hr, Nat.mod_eq_of_lt (by omega)]
      rcases Nat.eq_zero_or_pos i with rfl | hpos
      · rfl
      · rw [bit, Nat.div_eq_of_lt (by omega : i - 1 < 8), Nat.mod_eq_of_lt (by omega : i - 1 < 8)]
    · rw [if_neg hlater.ne', UInt8.toBitVec_or, BitVec.getMsbD_or, getMsbD_shiftRight_one _ hr,
        getMsbD_shiftLeft_seven _ hr, decide_eq_true (by omega : 0 < i), Bool.true_and, bit]
      rcases Nat.eq_zero_or_pos (i % 8) with hzero | hpos
      · rw [hzero, show (i - 1) / 8 = i / 8 - 1 by omega, show (i - 1) % 8 = 7 by omega]
        simp
      · rw [show (i - 1) / 8 = i / 8 by omega, show (i - 1) % 8 = i % 8 - 1 by omega]
        simp [hpos, hpos.ne']
  · rcases lt_or_ge i 8 with hfirst | hlater
    · rw [Nat.div_eq_of_lt hfirst, Nat.mod_eq_of_lt hfirst]
      cases bit v 127 with
      | false => simp
      | true => interval_cases i <;> rfl
    · have hnone : (0x87#128).getLsbD i = false := by
        have hlt : 0x87 < 2 ^ i :=
          lt_of_lt_of_le (by decide) (Nat.pow_le_pow_right (by decide) hlater)
        rw [BitVec.getLsbD_ofNat, Nat.testBit_lt_two_pow hlt, Bool.and_false]
      rw [hnone, if_neg (by omega), Bool.and_false]
      simp

lemma bits_shiftReduce (v : Block) :
    bits (shiftReduce v) = if (bits v).msb then (bits v <<< 1) ^^^ 0x87#128 else bits v <<< 1 := by
  have hmsb : (bits v).msb = bit v 127 := by
    rw [BitVec.msb_eq_getLsbD_last, bits, getLsbD_word _ (by decide)]
  have hshift : ∀ i < 128, (bits v <<< 1).getLsbD i = (decide (0 < i) && bit v (i - 1)) := by
    intro i hi
    rw [BitVec.getLsbD_shiftLeft, decide_eq_true hi]
    cases i with
    | zero => simp
    | succ i =>
        rw [bits, getLsbD_word _ (by omega)]
        simp
  apply BitVec.eq_of_getLsbD_eq
  intro i hi
  rw [hmsb, bits, getLsbD_word _ hi, bit_shiftReduce v hi]
  cases bit v 127 with
  | false =>
      rw [if_neg (by decide), hshift i hi]
      simp
  | true =>
      rw [if_pos rfl, BitVec.getLsbD_xor, hshift i hi]
      simp

lemma residue_shiftReduce (v : Block) :
    residue (shiftReduce v) = AdjoinRoot.root modulus * residue v := by
  rw [residue, bits_shiftReduce]
  exact mk_poly_shift modulus_eq (bits v)

/-! ## The product -/

/-- After `k` bits of the first factor the sum is that part of the product, and the second factor
has been shifted `k` times. -/
lemma residue_ghashMul_loop (x y : Block) (k : ℕ) :
    let s := (List.range k).foldl
      (fun (s : Block × Block) i => (if blockBit x i then xorBlock s.1 s.2 else s.1,
        shiftReduce s.2))
      (Vector.replicate 16 0, y)
    residue s.1 =
      (∑ i ∈ Finset.range k, if bit x i then AdjoinRoot.root modulus ^ i else 0) * residue y ∧
      residue s.2 = AdjoinRoot.root modulus ^ k * residue y := by
  induction k with
  | zero => exact ⟨by simp [← zero.eq_1, residue_zero], by simp⟩
  | succ k ih =>
      obtain ⟨hsum, hshifted⟩ := ih
      simp only [List.range_succ, List.foldl_append, List.foldl_cons, List.foldl_nil,
        blockBit_eq] at hsum hshifted ⊢
      rw [Finset.sum_range_succ, add_mul, ← hsum, residue_shiftReduce, hshifted,
        pow_succ', mul_assoc]
      refine ⟨?_, rfl⟩
      cases bit x k with
      | false => simp
      | true =>
          simp only [if_true]
          rw [← hshifted]
          exact residue_xor _ _

theorem ghashMul_eq_mul (x y : Block) : ghashMul x y = mul x y := by
  apply eq_mul
  rw [ghashMul, (residue_ghashMul_loop x y 128).1, ← residue_eq_sum]

/-! ## Texts and their lengths -/

/-- A partial block at the end of the data is padded like a full text. -/
lemma ghashLoop_eq (h : Block) {fuel : ℕ} (x : Block) {data : Bytes} (hfuel : data.length ≤ fuel) :
    ghashLoop h fuel x data = (toBlocks (zeroPad data)).foldl
      (fun y b => mul (Sp80038D.xor y b) h) x := by
  induction fuel generalizing x data with
  | zero =>
      obtain rfl := List.eq_nil_of_length_eq_zero (Nat.le_zero.mp hfuel)
      rfl
  | succ fuel ih =>
      rw [ghashLoop]
      split_ifs with hnil
      · rw [hnil]
        rfl
      · have hpos := List.length_pos_iff.mpr hnil
        have hrest : (data.drop 16).length ≤ fuel := by
          rw [List.length_drop]
          omega
        rw [ih _ hrest, ghashMul_eq_mul, toBlocks_zeroPad hnil, List.foldl_cons]
        rfl

lemma encode_bits (len : ℕ) : encode 8 (UInt64.ofNat len * 8).toNat = encode 8 (8 * len) := by
  rw [UInt64.toNat_mul, UInt64.toNat_ofNat', Nat.mod_mul_mod, Nat.mul_comm]
  exact encode_mod 8 (8 * len)

lemma toList_lenBlock (aadLen ctLen : ℕ) :
    (lenBlock aadLen ctLen).toList = encode 8 (8 * aadLen) ++ encode 8 (8 * ctLen) := by
  rw [← encode_bits aadLen, ← encode_bits ctLen, ← lenBytes_eq, ← lenBytes_eq, lenBlock,
    Vector.toList_ofFn]
  rfl

/-- The additional data, the ciphertext and the lengths, each from a block boundary on. -/
lemma ghashUpdate_eq_ghash (h : Block) (aad ct : Bytes) :
    ghashUpdate (ghashUpdate (ghashUpdate zero h aad) h ct) h
      (lenBlock aad.length ct.length).toList =
      ghash h (toBlocks (zeroPad aad ++ zeroPad ct ++
        (encode 8 (8 * aad.length) ++ encode 8 (8 * ct.length)))) := by
  have hboth : 16 ∣ (zeroPad aad ++ zeroPad ct).length := by
    rw [List.length_append]
    exact Nat.dvd_add (dvd_length_zeroPad aad) (dvd_length_zeroPad ct)
  have hfull : zeroPad (lenBlock aad.length ct.length).toList =
      (lenBlock aad.length ct.length).toList := by
    rw [zeroPad, Vector.length_toList]
    exact List.append_nil _
  rw [ghashUpdate, ghashUpdate, ghashUpdate, ghashLoop_eq h _ le_rfl, ghashLoop_eq h _ le_rfl,
    ghashLoop_eq h _ le_rfl, hfull, toList_lenBlock, ghash, toBlocks_append hboth,
    toBlocks_append (dvd_length_zeroPad aad), List.foldl_append, List.foldl_append]

end Crypto
end Damen
