import Damen.Model.Wire
import Mathlib.Tactic.SplitIfs

/-!
# Fields survive the wire

Byte swapping is an involution and `memcpy` out undoes `memcpy` in, so a 32-bit field that `put32`
wrote is what `get32` reads (`get32_put32`), wherever it stands in a buffer, and a field that
`get32` reads is written back byte for byte (`put32_get32`); likewise for 16 and 64 bits.
-/

namespace Damen

/-- Byte swapping takes each bit from the same place in the opposite byte. -/
lemma getLsbD_toBe32 (v : UInt32) {i : ℕ} (hi : i < 32) :
    (toBe32 v).toBitVec.getLsbD i = v.toBitVec.getLsbD (8 * (3 - i / 8) + i % 8) := by
  have h0 : ∀ j < 32, (0x000000FF#32).getLsbD j = decide (j < 8) := by decide
  have h1 : ∀ j < 32, (0x0000FF00#32).getLsbD j = decide (8 ≤ j ∧ j < 16) := by decide
  have h2 : ∀ j < 32, (0x00FF0000#32).getLsbD j = decide (16 ≤ j ∧ j < 24) := by decide
  have h3 : ∀ j < 32, (0xFF000000#32).getLsbD j = decide (24 ≤ j) := by decide
  simp only [toBe32, UInt32.toBitVec_or, UInt32.toBitVec_and, UInt32.toBitVec_shiftLeft,
    UInt32.toBitVec_shiftRight, UInt32.toBitVec_ofNat, BitVec.getLsbD_or, BitVec.getLsbD_and,
    BitVec.shiftLeft_eq', BitVec.ushiftRight_eq', BitVec.getLsbD_shiftLeft,
    BitVec.getLsbD_ushiftRight, BitVec.toNat_umod, BitVec.toNat_ofNat]
  -- The masks decide by the byte of the bit.
  rcases (by omega : i < 8 ∨ (8 ≤ i ∧ i < 16) ∨ (16 ≤ i ∧ i < 24) ∨ 24 ≤ i) with
    h | ⟨h, h'⟩ | ⟨h, h'⟩ | h
  all_goals grind

lemma toBe32_toBe32 (v : UInt32) : toBe32 (toBe32 v) = v := by
  apply UInt32.eq_of_toBitVec_eq
  apply BitVec.eq_of_getLsbD_eq
  intro i hi
  rw [getLsbD_toBe32 _ hi, getLsbD_toBe32 _ (by omega)]
  congr 1
  omega

lemma getLsbD_toBe16 (v : UInt16) {i : ℕ} (hi : i < 16) :
    (toBe16 v).toBitVec.getLsbD i = v.toBitVec.getLsbD (8 * (1 - i / 8) + i % 8) := by
  have h0 : ∀ j < 16, (0x00FF#16).getLsbD j = decide (j < 8) := by decide
  have h1 : ∀ j < 16, (0xFF00#16).getLsbD j = decide (8 ≤ j) := by decide
  simp only [toBe16, UInt16.toBitVec_or, UInt16.toBitVec_and, UInt16.toBitVec_shiftLeft,
    UInt16.toBitVec_shiftRight, UInt16.toBitVec_ofNat, BitVec.getLsbD_or, BitVec.getLsbD_and,
    BitVec.shiftLeft_eq', BitVec.ushiftRight_eq', BitVec.getLsbD_shiftLeft,
    BitVec.getLsbD_ushiftRight, BitVec.toNat_umod, BitVec.toNat_ofNat]
  rcases (by omega : i < 8 ∨ 8 ≤ i) with h | h
  all_goals grind

lemma toBe16_toBe16 (v : UInt16) : toBe16 (toBe16 v) = v := by
  apply UInt16.eq_of_toBitVec_eq
  apply BitVec.eq_of_getLsbD_eq
  intro i hi
  rw [getLsbD_toBe16 _ hi, getLsbD_toBe16 _ (by omega)]
  congr 1
  omega

lemma loadLe32_storeLe32 (v : UInt32) (rest : Bytes) : loadLe32 (storeLe32 v ++ rest) 0 = v := by
  apply UInt32.eq_of_toBitVec_eq
  apply BitVec.eq_of_getLsbD_eq
  intro i hi
  simp only [loadLe32, storeLe32, List.cons_append, List.getD_cons_zero, List.getD_cons_succ,
    List.nil_append, zero_add, UInt32.toBitVec_or, UInt32.toBitVec_shiftLeft,
    UInt32.toBitVec_shiftRight, UInt8.toBitVec_toUInt32, UInt32.toBitVec_toUInt8,
    UInt32.toBitVec_ofNat, BitVec.getLsbD_or, BitVec.shiftLeft_eq', BitVec.ushiftRight_eq',
    BitVec.getLsbD_shiftLeft, BitVec.getLsbD_ushiftRight, BitVec.getLsbD_setWidth,
    BitVec.toNat_umod, BitVec.toNat_ofNat]
  -- Bit `i` comes out of byte `i / 8`.
  rcases (by omega : i < 8 ∨ (8 ≤ i ∧ i < 16) ∨ (16 ≤ i ∧ i < 24) ∨ 24 ≤ i) with
    h | ⟨h, h'⟩ | ⟨h, h'⟩ | h
  all_goals grind

lemma loadLe16_storeLe16 (v : UInt16) (rest : Bytes) : loadLe16 (storeLe16 v ++ rest) 0 = v := by
  apply UInt16.eq_of_toBitVec_eq
  apply BitVec.eq_of_getLsbD_eq
  intro i hi
  simp only [loadLe16, storeLe16, List.cons_append, List.getD_cons_zero, List.getD_cons_succ,
    List.nil_append, zero_add, UInt16.toBitVec_or, UInt16.toBitVec_shiftLeft,
    UInt16.toBitVec_shiftRight, UInt8.toBitVec_toUInt16, UInt16.toBitVec_toUInt8,
    UInt16.toBitVec_ofNat, BitVec.getLsbD_or, BitVec.shiftLeft_eq', BitVec.ushiftRight_eq',
    BitVec.getLsbD_shiftLeft, BitVec.getLsbD_ushiftRight, BitVec.getLsbD_setWidth,
    BitVec.toNat_umod, BitVec.toNat_ofNat]
  rcases (by omega : i < 8 ∨ 8 ≤ i) with h | h
  all_goals grind

lemma getD_append_length (pre suf : Bytes) (k : ℕ) :
    (pre ++ suf).getD (pre.length + k) 0 = suf.getD k 0 := by
  rw [List.getD_eq_getElem?_getD, List.getElem?_append_right (by omega), Nat.add_sub_cancel_left,
    List.getD_eq_getElem?_getD]

/-- A 32-bit field reads back, behind whatever was written before it. -/
lemma get32_put32 (pre rest : Bytes) (v : UInt32) :
    get32 (pre ++ (put32 v ++ rest)) pre.length = v := by
  have hload : loadLe32 (pre ++ (put32 v ++ rest)) pre.length = loadLe32 (put32 v ++ rest) 0 := by
    have hzero := getD_append_length pre (put32 v ++ rest) 0
    simp only [add_zero] at hzero
    simp only [loadLe32, hzero, getD_append_length, zero_add]
  rw [get32, hload, put32, loadLe32_storeLe32, toBe32_toBe32]

lemma get16_put16 (pre rest : Bytes) (v : UInt16) :
    get16 (pre ++ (put16 v ++ rest)) pre.length = v := by
  have hload : loadLe16 (pre ++ (put16 v ++ rest)) pre.length = loadLe16 (put16 v ++ rest) 0 := by
    have hzero := getD_append_length pre (put16 v ++ rest) 0
    simp only [add_zero] at hzero
    simp only [loadLe16, hzero, getD_append_length, zero_add]
  rw [get16, hload, put16, loadLe16_storeLe16, toBe16_toBe16]

lemma length_put32 (v : UInt32) : (put32 v).length = 4 := rfl

lemma length_put16 (v : UInt16) : (put16 v).length = 2 := rfl

lemma length_put64 (v : UInt64) : (put64 v).length = 8 := rfl

/-! ## Reading, then writing -/

/-- The bytes of a word are the bytes it was put together from. -/
lemma storeLe32_word (b₀ b₁ b₂ b₃ : UInt8) :
    storeLe32 (b₀.toUInt32 ||| (b₁.toUInt32 <<< 8) ||| (b₂.toUInt32 <<< 16)
      ||| (b₃.toUInt32 <<< 24)) = [b₀, b₁, b₂, b₃] := by
  simp only [storeLe32, List.cons.injEq, and_true]
  refine ⟨?_, ?_, ?_, ?_⟩ <;>
  · apply UInt8.eq_of_toBitVec_eq
    apply BitVec.eq_of_getLsbD_eq
    intro i hi
    simp only [UInt32.toBitVec_toUInt8, UInt32.toBitVec_or, UInt32.toBitVec_shiftLeft,
      UInt32.toBitVec_shiftRight, UInt8.toBitVec_toUInt32, UInt32.toBitVec_ofNat,
      BitVec.getLsbD_or, BitVec.shiftLeft_eq', BitVec.ushiftRight_eq', BitVec.getLsbD_shiftLeft,
      BitVec.getLsbD_ushiftRight, BitVec.getLsbD_setWidth, BitVec.toNat_umod, BitVec.toNat_ofNat]
    grind

lemma storeLe16_word (b₀ b₁ : UInt8) :
    storeLe16 (b₀.toUInt16 ||| (b₁.toUInt16 <<< 8)) = [b₀, b₁] := by
  simp only [storeLe16, List.cons.injEq, and_true]
  refine ⟨?_, ?_⟩ <;>
  · apply UInt8.eq_of_toBitVec_eq
    apply BitVec.eq_of_getLsbD_eq
    intro i hi
    simp only [UInt16.toBitVec_toUInt8, UInt16.toBitVec_or, UInt16.toBitVec_shiftLeft,
      UInt16.toBitVec_shiftRight, UInt8.toBitVec_toUInt16, UInt16.toBitVec_ofNat,
      BitVec.getLsbD_or, BitVec.shiftLeft_eq', BitVec.ushiftRight_eq', BitVec.getLsbD_shiftLeft,
      BitVec.getLsbD_ushiftRight, BitVec.getLsbD_setWidth, BitVec.toNat_umod, BitVec.toNat_ofNat]
    grind

variable {off : ℕ}

lemma take_drop_succ (p : Bytes) {n : ℕ} (h : off < p.length) :
    (p.drop off).take (n + 1) = p.getD off 0 :: (p.drop (off + 1)).take n := by
  rw [List.drop_eq_getElem_cons h, List.take_succ_cons, List.getD_eq_getElem?_getD,
    List.getElem?_eq_getElem h, Option.getD_some]

/-- A 32-bit field that was read is written back as it stood in the buffer. -/
lemma put32_get32 {p : Bytes} (h : off + 4 ≤ p.length) :
    put32 (get32 p off) = (p.drop off).take 4 := by
  rw [put32, get32, toBe32_toBe32, loadLe32, storeLe32_word, take_drop_succ p (by omega),
    take_drop_succ p (by omega), take_drop_succ p (by omega), take_drop_succ p (by omega),
    List.take_zero]

lemma put16_get16 {p : Bytes} (h : off + 2 ≤ p.length) :
    put16 (get16 p off) = (p.drop off).take 2 := by
  rw [put16, get16, toBe16_toBe16, loadLe16, storeLe16_word, take_drop_succ p (by omega),
    take_drop_succ p (by omega), List.take_zero]

/-! ## 64 bits -/

/-- The bits of a word that is put together from two halves. -/
lemma getLsbD_halves (hi lo : UInt32) (i : ℕ) :
    ((hi.toUInt64 <<< 32) ||| lo.toUInt64).toBitVec.getLsbD i =
      if i < 32 then lo.toBitVec.getLsbD i else hi.toBitVec.getLsbD (i - 32) := by
  simp only [UInt64.toBitVec_or, UInt64.toBitVec_shiftLeft, UInt32.toBitVec_toUInt64,
    UInt64.toBitVec_ofNat, BitVec.getLsbD_or, BitVec.shiftLeft_eq', BitVec.getLsbD_shiftLeft,
    BitVec.getLsbD_setWidth, BitVec.toNat_umod, BitVec.toNat_ofNat]
  split
  · grind
  · grind

lemma getLsbD_low (v : UInt64) {i : ℕ} (hi : i < 32) :
    v.toUInt32.toBitVec.getLsbD i = v.toBitVec.getLsbD i := by
  rw [UInt64.toBitVec_toUInt32, BitVec.getLsbD_setWidth, decide_eq_true hi, Bool.true_and]

lemma getLsbD_high (v : UInt64) {i : ℕ} (hi : i < 32) :
    (v >>> 32).toUInt32.toBitVec.getLsbD i = v.toBitVec.getLsbD (32 + i) := by
  rw [getLsbD_low _ hi, UInt64.toBitVec_shiftRight, BitVec.ushiftRight_eq',
    BitVec.getLsbD_ushiftRight]
  rfl

lemma low_word (hi lo : UInt32) : ((hi.toUInt64 <<< 32) ||| lo.toUInt64).toUInt32 = lo := by
  apply UInt32.eq_of_toBitVec_eq
  apply BitVec.eq_of_getLsbD_eq
  intro i hi
  rw [getLsbD_low _ hi, getLsbD_halves, if_pos hi]

lemma high_word (hi lo : UInt32) :
    (((hi.toUInt64 <<< 32) ||| lo.toUInt64) >>> 32).toUInt32 = hi := by
  apply UInt32.eq_of_toBitVec_eq
  apply BitVec.eq_of_getLsbD_eq
  intro i hi
  rw [getLsbD_high _ hi, getLsbD_halves, if_neg (by omega), Nat.add_sub_cancel_left]

lemma words_eq (v : UInt64) :
    ((v >>> 32).toUInt32.toUInt64 <<< 32) ||| v.toUInt32.toUInt64 = v := by
  apply UInt64.eq_of_toBitVec_eq
  apply BitVec.eq_of_getLsbD_eq
  intro i hi
  rw [getLsbD_halves]
  split
  · next hlow => exact getLsbD_low v hlow
  · next hhigh =>
    have hlt : i - 32 < 32 := by
      change i < 64 at hi
      omega
    rw [getLsbD_high v hlt, show 32 + (i - 32) = i by omega]

lemma and_low_mask (v : UInt64) : (v &&& 0xFFFFFFFF).toUInt32 = v.toUInt32 := by
  rw [UInt64.toUInt32_and]
  exact UInt32.and_neg_one

/-- `to_be64` keeps the places of the halves, so the low word travels first. -/
lemma put64_eq (v : UInt64) : put64 v = put32 v.toUInt32 ++ put32 (v >>> 32).toUInt32 := by
  rw [put64, toBe64, storeLe64, low_word, high_word, and_low_mask, and_low_mask]
  rfl

lemma get64_put64 (pre rest : Bytes) (v : UInt64) :
    get64 (pre ++ (put64 v ++ rest)) pre.length = v := by
  have hhigh : get32 (pre ++ (put64 v ++ rest)) (pre.length + 4) = (v >>> 32).toUInt32 := by
    have h := get32_put32 (pre ++ put32 v.toUInt32) rest (v >>> 32).toUInt32
    rwa [List.length_append, length_put32, List.append_assoc,
      ← List.append_assoc (put32 v.toUInt32), ← put64_eq] at h
  rw [get64, hhigh, put64_eq, List.append_assoc, get32_put32, words_eq]

lemma put64_get64 {p : Bytes} (h : off + 8 ≤ p.length) :
    put64 (get64 p off) = (p.drop off).take 8 := by
  rw [put64_eq, get64, low_word, high_word, put32_get32 (by omega), put32_get32 (by omega),
    ← List.drop_drop, ← List.take_add]

/-! ## What a field depends on -/

lemma get16_congr {p q : Bytes} (h : ∀ i, off ≤ i → i < off + 2 → p.getD i 0 = q.getD i 0) :
    get16 p off = get16 q off := by
  rw [get16, get16, loadLe16, loadLe16, h off (by omega) (by omega),
    h (off + 1) (by omega) (by omega)]

lemma get32_congr {p q : Bytes} (h : ∀ i, off ≤ i → i < off + 4 → p.getD i 0 = q.getD i 0) :
    get32 p off = get32 q off := by
  rw [get32, get32, loadLe32, loadLe32, h off (by omega) (by omega),
    h (off + 1) (by omega) (by omega), h (off + 2) (by omega) (by omega),
    h (off + 3) (by omega) (by omega)]

end Damen
