import Damen.Framework.BigEndian
import Damen.Model.Gcm

/-!
# Words and their bytes

The primitives of `crypto.cpp` take words apart and put them together with shifts and masks.  Here
these are the big-endian digits of the numbers.
-/

namespace Damen
namespace Crypto

open BigEndian

/-! ## Bytes of a word -/

lemma toUInt8_shiftRight_and (w s : UInt32) (hs : s.toNat < 32) :
    ((w >>> s) &&& 0xFF).toUInt8 = UInt8.ofNat (w.toNat / 2 ^ s.toNat) := by
  apply UInt8.toNat_inj.mp
  rw [UInt32.toNat_toUInt8, UInt32.toNat_and, UInt32.toNat_shiftRight, Nat.mod_eq_of_lt hs,
    Nat.shiftRight_eq_div_pow, show (0xFF : UInt32).toNat = 2 ^ 8 - 1 from rfl,
    Nat.and_two_pow_sub_one_eq_mod, Nat.mod_mod, UInt8.toNat_ofNat']

lemma toUInt8_shiftRight_and64 (w s : UInt64) (hs : s.toNat < 64) :
    ((w >>> s) &&& 0xFF).toUInt8 = UInt8.ofNat (w.toNat / 2 ^ s.toNat) := by
  apply UInt8.toNat_inj.mp
  rw [UInt64.toNat_toUInt8, UInt64.toNat_and, UInt64.toNat_shiftRight, Nat.mod_eq_of_lt hs,
    Nat.shiftRight_eq_div_pow, show (0xFF : UInt64).toNat = 2 ^ 8 - 1 from rfl,
    Nat.and_two_pow_sub_one_eq_mod, Nat.mod_mod, UInt8.toNat_ofNat']

lemma wordBytes_eq (w : UInt32) :
    [wordByte w 0, wordByte w 1, wordByte w 2, wordByte w 3] = encode 4 w.toNat := by
  have hbyte : ∀ i < 4, wordByte w i = UInt8.ofNat (w.toNat / 256 ^ (3 - i)) := by
    intro i hi
    have hshift : (UInt32.ofNat (24 - 8 * i)).toNat = 8 * (3 - i) := by
      rw [UInt32.toNat_ofNat_of_lt' (show 24 - 8 * i < 2 ^ 32 by omega)]
      omega
    rw [wordByte, toUInt8_shiftRight_and _ _ (by omega), hshift, pow_mul]
    rfl
  rw [hbyte 0 (by decide), hbyte 1 (by decide), hbyte 2 (by decide), hbyte 3 (by decide)]
  rfl

/-- The eight bytes of a 64-bit number. -/
lemma lenBytes_eq (v : UInt64) :
    ((List.range 8).map fun i => ((v >>> UInt64.ofNat (56 - i * 8)) &&& 0xFF).toUInt8) =
      encode 8 v.toNat := by
  have hbyte : ∀ i < 8, ((v >>> UInt64.ofNat (56 - i * 8)) &&& 0xFF).toUInt8 =
      UInt8.ofNat (v.toNat / 256 ^ (7 - i)) := by
    intro i hi
    have hshift : (UInt64.ofNat (56 - i * 8)).toNat = 8 * (7 - i) := by
      rw [UInt64.toNat_ofNat_of_lt' (show 56 - i * 8 < 2 ^ 64 by omega)]
      omega
    rw [toUInt8_shiftRight_and64 _ _ (by omega), hshift, pow_mul]
    rfl
  rw [List.map_congr_left fun i hi => hbyte i (List.mem_range.mp hi)]
  rfl

/-! ## A word from its bytes -/

lemma toNat_toUInt32_shiftLeft (b : UInt8) (k : UInt32) (hk : k.toNat ≤ 24) :
    (b.toUInt32 <<< k).toNat = b.toNat <<< k.toNat := by
  have hb : b.toNat <<< k.toNat < 2 ^ 32 := by
    rw [Nat.shiftLeft_eq]
    calc b.toNat * 2 ^ k.toNat < 2 ^ 8 * 2 ^ k.toNat :=
          Nat.mul_lt_mul_of_pos_right (UInt8.toNat_lt _) (by positivity)
      _ = 2 ^ (8 + k.toNat) := (pow_add 2 8 _).symm
      _ ≤ 2 ^ 32 := Nat.pow_le_pow_right (by norm_num) (by omega)
  rw [UInt32.toNat_shiftLeft, UInt8.toNat_toUInt32, Nat.mod_eq_of_lt (by omega : k.toNat < 32),
    Nat.mod_eq_of_lt hb]

lemma wordOf_eq (b₀ b₁ b₂ b₃ : UInt8) :
    wordOf b₀ b₁ b₂ b₃ = UInt32.ofNat (decode [b₀, b₁, b₂, b₃]) := by
  have h₁ := b₁.toNat_lt
  have h₂ := b₂.toNat_lt
  have h₃ := b₃.toNat_lt
  have hlow : b₂.toNat <<< 8 + b₃.toNat < 2 ^ 16 := by
    rw [Nat.shiftLeft_eq]
    omega
  have hmid : b₁.toNat <<< 16 + (b₂.toNat <<< 8 + b₃.toNat) < 2 ^ 24 := by
    rw [Nat.shiftLeft_eq b₁.toNat]
    omega
  have hsum : (wordOf b₀ b₁ b₂ b₃).toNat =
      b₀.toNat <<< 24 + (b₁.toNat <<< 16 + (b₂.toNat <<< 8 + b₃.toNat)) := by
    rw [wordOf, UInt32.toNat_or, UInt32.toNat_or, UInt32.toNat_or, UInt8.toNat_toUInt32,
      toNat_toUInt32_shiftLeft _ 24 (by decide), toNat_toUInt32_shiftLeft _ 16 (by decide),
      toNat_toUInt32_shiftLeft _ 8 (by decide), Nat.or_assoc, Nat.or_assoc]
    change b₀.toNat <<< 24 ||| (b₁.toNat <<< 16 ||| (b₂.toNat <<< 8 ||| b₃.toNat)) = _
    rw [← Nat.shiftLeft_add_eq_or_of_lt h₃, ← Nat.shiftLeft_add_eq_or_of_lt hlow,
      ← Nat.shiftLeft_add_eq_or_of_lt hmid]
  have hdecode : decode [b₀, b₁, b₂, b₃] = (wordOf b₀ b₁ b₂ b₃).toNat := by
    rw [hsum, decode_four]
    simp only [Nat.shiftLeft_eq]
    omega
  rw [hdecode, UInt32.ofNat_toNat]

lemma take_four_drop {l : Bytes} {j : ℕ} (hj : j + 4 ≤ l.length) :
    (l.drop j).take 4 = [l.getD j 0, l.getD (j + 1) 0, l.getD (j + 2) 0, l.getD (j + 3) 0] := by
  have hget : ∀ k, l.getD (j + k) 0 = (l.drop j).getD k 0 := by
    intro k
    rw [List.getD_eq_getElem?_getD, List.getD_eq_getElem?_getD, List.getElem?_drop]
  have hlen : 4 ≤ (l.drop j).length := by
    rw [List.length_drop]
    omega
  rw [hget 1, hget 2, hget 3, show l.getD j 0 = (l.drop j).getD 0 0 from hget 0]
  match l.drop j, hlen with
  | _ :: _ :: _ :: _ :: _, _ => rfl

end Crypto
end Damen
