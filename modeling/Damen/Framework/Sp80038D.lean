import Damen.Framework.BigEndian
import Damen.Framework.BitPolynomial
import Damen.Framework.BlockStream

/-!
# Galois/Counter Mode

SP 800-38D over any block cipher of 128 bits, for texts that are byte strings and an initialization
vector of 96 bits.

A block stands for a residue modulo `x¹²⁸ + x⁷ + x² + x + 1`, its leftmost bit being the coefficient
of 1 (`residue`).  Blocks and residues correspond one to one (`residue_bijective`), so there is a
product of blocks (`mul`).
-/

namespace Sp80038D

open Polynomial BitPolynomial BlockStream BigEndian

abbrev Block := Vector UInt8 16

/-- The bytes of a text in front of zeros. -/
def toBlock (b : List UInt8) : Block := Vector.ofFn fun i => b.getD i 0

lemma toBlock_toList (x : Block) : toBlock x.toList = x := by
  apply Vector.ext
  intro j hj
  simp [toBlock]

lemma toList_toBlock {b : List UInt8} (hb : b.length = 16) : (toBlock b).toList = b := by
  apply List.ext_getElem
  · rw [Vector.length_toList, hb]
  · intro j _ hj
    simp [toBlock, hj]

def zero : Block := Vector.replicate 16 0

def xor (x y : Block) : Block := Vector.zipWith (· ^^^ ·) x y

/-! ## Multiplication of blocks -/

/-- Bit `i` of a block, from the leftmost one. -/
def bit (x : Block) (i : ℕ) : Bool := (x.getD (i / 8) 0).toBitVec.getMsbD (i % 8)

/-- A block as the word whose bit `i` belongs to `x ^ i`. -/
def bits (x : Block) : BitVec 128 := word 128 (bit x)

lemma bits_injective : Function.Injective bits := by
  intro x y h
  have hbit : ∀ i < 128, bit x i = bit y i := by
    intro i hi
    rw [← getLsbD_word (bit x) hi, ← getLsbD_word (bit y) hi]
    exact congrArg (BitVec.getLsbD · i) h
  apply Vector.ext
  intro j hj
  apply UInt8.eq_of_toBitVec_eq
  apply BitVec.eq_of_getMsbD_eq
  intro r hr
  have hjr := hbit (8 * j + r) (by omega)
  rw [bit, bit, show (8 * j + r) / 8 = j by omega, show (8 * j + r) % 8 = r by omega] at hjr
  simpa [Vector.getD, hj] using hjr

lemma bits_surjective : Function.Surjective bits := by
  intro a
  let byte : ℕ → BitVec 8 := fun j => (word 8 fun r => a.getLsbD (8 * j + r)).reverse
  refine ⟨Vector.ofFn fun j => ⟨byte j⟩, BitVec.eq_of_getLsbD_eq fun i hi => ?_⟩
  have hj : i / 8 < 16 := by omega
  have hr : i % 8 < 8 := Nat.mod_lt _ (by decide)
  rw [bits, getLsbD_word _ hi, bit]
  simp only [Vector.getD, Vector.toArray_ofFn, Array.getD_eq_getD_getElem?, Array.getElem?_ofFn, hj,
    dif_pos, Option.getD_some, byte, BitVec.getMsbD_reverse, getLsbD_word _ hr, Nat.div_add_mod]

noncomputable def modulus : (ZMod 2)[X] := X ^ 128 + X ^ 7 + X ^ 2 + X + 1

lemma poly_low : poly 0x87#128 = X ^ 7 + X ^ 2 + X + 1 := by
  ext i
  simp only [coeff_poly, coeff_add, coeff_X_pow, coeff_X, coeff_one]
  rcases lt_or_ge i 8 with hi | hi
  · interval_cases i <;> decide
  · have hlt : 0x87 < 2 ^ i := lt_of_lt_of_le (by decide) (Nat.pow_le_pow_right (by decide) hi)
    rw [BitVec.getLsbD_ofNat, Nat.testBit_lt_two_pow hlt, Bool.and_false, if_neg (by omega),
      if_neg (by omega), if_neg (by omega), if_neg (by omega)]
    decide

/-- The width is written as a successor, since the shift lemmas are about such words. -/
lemma modulus_eq : modulus = X ^ (127 + 1) + poly 0x87#(127 + 1) := by
  have hwidth : 127 + 1 = 128 := rfl
  rw [hwidth, poly_low]
  unfold modulus
  simp only [add_assoc]

noncomputable def residue (x : Block) : AdjoinRoot modulus := AdjoinRoot.mk modulus (poly (bits x))

lemma residue_bijective : Function.Bijective residue := by
  constructor
  · intro x y h
    exact bits_injective (mk_poly_injective modulus_eq h)
  · intro r
    obtain ⟨a, ha⟩ := mk_poly_surjective modulus_eq r
    obtain ⟨x, rfl⟩ := bits_surjective a
    exact ⟨x, ha⟩

lemma residue_eq_sum (x : Block) :
    residue x = ∑ i ∈ Finset.range 128, if bit x i then AdjoinRoot.root modulus ^ i else 0 := by
  rw [residue, poly, map_sum]
  apply Finset.sum_congr rfl
  intro i hi
  rw [bits, getLsbD_word _ (Finset.mem_range.mp hi)]
  cases bit x i with
  | false => simp [coefficient]
  | true =>
      rw [show coefficient true = 1 from rfl, monomial_one_right_eq_X_pow, map_pow,
      AdjoinRoot.mk_X, if_pos rfl]

lemma getD_xor (x y : Block) (j : ℕ) : (xor x y).getD j 0 = x.getD j 0 ^^^ y.getD j 0 := by
  rcases lt_or_ge j 16 with hj | hj
  · simp [xor, Vector.getD, hj]
  · simp [Vector.getD, hj]

lemma bits_xor (x y : Block) : bits (xor x y) = bits x ^^^ bits y := by
  apply BitVec.eq_of_getLsbD_eq
  intro i hi
  rw [BitVec.getLsbD_xor, bits, bits, bits, getLsbD_word _ hi, getLsbD_word _ hi, getLsbD_word _ hi,
    bit, bit, bit, getD_xor, UInt8.toBitVec_xor, BitVec.getMsbD_xor]

lemma residue_xor (x y : Block) : residue (xor x y) = residue x + residue y := by
  rw [residue, bits_xor, poly_xor, map_add, residue, residue]

lemma residue_zero : residue zero = 0 := by
  have hself : xor zero zero = zero := by
    apply Vector.ext
    intro j hj
    simp [xor, zero]
  have hsum := residue_xor zero zero
  rw [hself] at hsum
  exact left_eq_add.mp hsum

/-- The block whose residue is the product. -/
noncomputable def mul (x y : Block) : Block :=
  (Equiv.ofBijective residue residue_bijective).symm (residue x * residue y)

lemma eq_mul {x y z : Block} (h : residue z = residue x * residue y) : z = mul x y :=
  ((Equiv.ofBijective residue residue_bijective).symm_apply_eq.mpr h.symm).symm

/-- `GHASH`. -/
noncomputable def ghash (h : Block) (xs : List Block) : Block :=
  xs.foldl (fun y x => mul (xor y x) h) zero

/-! ## Counter mode -/

/-- The last 32 bits count, the others stay. -/
def inc32 (x : Block) : Block :=
  toBlock (x.toList.take 12 ++ encode 4 (decode (x.toList.drop 12) + 1))

/-- The key stream for `n` blocks. -/
def keystream (ciph : Block → Block) (icb : Block) (n : ℕ) : List UInt8 :=
  (List.range n).flatMap fun i => (ciph (inc32^[i] icb)).toList

/-- `GCTR`; the last block of the key stream is cut to what is left of the text. -/
def gctr (ciph : Block → Block) (icb : Block) (x : List UInt8) : List UInt8 :=
  List.zipWith (· ^^^ ·) x (keystream ciph icb ((x.length + 15) / 16))

lemma keystream_succ (ciph : Block → Block) (icb : Block) (n : ℕ) :
    keystream ciph icb (n + 1) = (ciph icb).toList ++ keystream ciph (inc32 icb) n := by
  rw [keystream, List.range_succ_eq_map, List.flatMap_cons, List.flatMap_map]
  rfl

lemma length_keystream (ciph : Block → Block) (icb : Block) (n : ℕ) :
    (keystream ciph icb n).length = 16 * n := by
  induction n generalizing icb with
  | zero => rfl
  | succ n ih =>
      rw [keystream_succ, List.length_append, Vector.length_toList, ih, Nat.mul_succ, Nat.add_comm]

lemma length_gctr (ciph : Block → Block) (icb : Block) (x : List UInt8) :
    (gctr ciph icb x).length = x.length := by
  rw [gctr, List.length_zipWith, length_keystream]
  omega

lemma zipWith_xor_zipWith_xor {x k : List UInt8} (h : x.length ≤ k.length) :
    List.zipWith (· ^^^ ·) (List.zipWith (· ^^^ ·) x k) k = x := by
  induction x generalizing k with
  | nil => rfl
  | cons b x ih =>
      cases k with
      | nil => exact absurd h (by simp)
      | cons c k =>
          rw [List.zipWith_cons_cons, List.zipWith_cons_cons, ih (Nat.le_of_succ_le_succ h),
            UInt8.xor_assoc, UInt8.xor_self, UInt8.xor_zero]

/-- The key stream depends on the counter alone, so a second pass takes it away again. -/
lemma gctr_gctr (ciph : Block → Block) (icb : Block) (x : List UInt8) :
    gctr ciph icb (gctr ciph icb x) = x := by
  rw [gctr, length_gctr, gctr]
  apply zipWith_xor_zipWith_xor
  rw [length_keystream]
  omega

/-- One block at a time. -/
lemma gctr_eq (ciph : Block → Block) (icb : Block) {x : List UInt8} (hx : x ≠ []) :
    gctr ciph icb x =
      List.zipWith (· ^^^ ·) (x.take 16) (ciph icb).toList ++ gctr ciph (inc32 icb)
        (x.drop 16) := by
  have hpos := List.length_pos_iff.mpr hx
  have hcount : (x.length + 15) / 16 = ((x.drop 16).length + 15) / 16 + 1 := by
    rw [List.length_drop]
    omega
  rw [gctr, gctr, hcount, keystream_succ]
  rcases le_or_gt 16 x.length with hfull | hshort
  · have hfirst : (x.take 16).length = (ciph icb).toList.length := by
      rw [List.length_take_of_le hfull, Vector.length_toList]
    nth_rewrite 1 [← List.take_append_drop 16 x]
    exact List.zipWith_append hfirst
  · have hnone : keystream ciph (inc32 icb) ((([] : List UInt8).length + 15) / 16) = [] := rfl
    rw [List.drop_of_length_le hshort.le, List.take_of_length_le hshort.le, hnone, List.append_nil,
      List.zipWith_nil_left, List.append_nil]

lemma gctr_block (ciph : Block → Block) (icb s : Block) :
    gctr ciph icb s.toList = (xor s (ciph icb)).toList := by
  have hlen : s.toList.length = 16 := Vector.length_toList
  have hne : s.toList ≠ [] := List.ne_nil_of_length_pos (by omega)
  rw [gctr_eq _ _ hne, List.take_of_length_le hlen.le, List.drop_of_length_le hlen.le, xor,
    Vector.toList_zipWith]
  exact List.append_nil _

/-! ## Authenticated encryption -/

/-- A text with the least number of zeros behind it that makes full blocks. -/
def zeroPad (x : List UInt8) : List UInt8 :=
  x ++ List.replicate (16 * ((x.length + 15) / 16) - x.length) 0

def toBlocks (x : List UInt8) : List Block := (blocks 16 x).map toBlock

lemma dvd_length_zeroPad (x : List UInt8) : 16 ∣ (zeroPad x).length := by
  rw [zeroPad, List.length_append, List.length_replicate]
  omega

lemma toBlocks_append {x : List UInt8} (hx : 16 ∣ x.length) (y : List UInt8) :
    toBlocks (x ++ y) = toBlocks x ++ toBlocks y := by
  rw [toBlocks, blocks_append (by decide) hx, List.map_append]
  rfl

lemma toBlocks_of_length {x : List UInt8} (hx : x.length = 16) : toBlocks x = [toBlock x] := by
  have hcons := blocks_cons (by decide) hx ([] : List UInt8)
  rw [List.append_nil, blocks_nil] at hcons
  rw [toBlocks, hcons, List.map_singleton]

/-- A last block that is not full has its zeros already. -/
lemma toBlock_append_replicate (x : List UInt8) (k : ℕ) :
    toBlock (x ++ List.replicate k 0) = toBlock x := by
  apply Vector.ext
  intro j hj
  rw [toBlock, toBlock, Vector.getElem_ofFn, Vector.getElem_ofFn, List.getD_eq_getElem?_getD,
    List.getD_eq_getElem?_getD]
  rcases lt_or_ge j x.length with hlt | hge
  · rw [List.getElem?_append_left hlt]
  · rw [List.getElem?_append_right hge, List.getElem?_eq_none hge, List.getElem?_replicate]
    split <;> rfl

/-- One block at a time. -/
lemma toBlocks_zeroPad {x : List UInt8} (hx : x ≠ []) :
    toBlocks (zeroPad x) = toBlock (x.take 16) :: toBlocks (zeroPad (x.drop 16)) := by
  have hpos := List.length_pos_iff.mpr hx
  rcases le_or_gt 16 x.length with hfull | hshort
  · have hfirst : (x.take 16).length = 16 := List.length_take_of_le hfull
    have hpad : zeroPad x = x.take 16 ++ zeroPad (x.drop 16) := by
      rw [zeroPad, zeroPad, ← List.append_assoc, List.take_append_drop, List.length_drop]
      congr 2
      omega
    rw [hpad, toBlocks_append (by rw [hfirst]), toBlocks_of_length hfirst]
    rfl
  · have hpad : 16 * ((x.length + 15) / 16) - x.length = 16 - x.length := by omega
    rw [List.drop_of_length_le hshort.le, List.take_of_length_le hshort.le, zeroPad, hpad,
      toBlocks_of_length (by rw [List.length_append, List.length_replicate]; omega),
      toBlock_append_replicate]
    rfl

/-- `J₀` for an initialization vector of 96 bits. -/
def preCounter (iv : List UInt8) : Block := toBlock (iv ++ [0, 0, 0, 1])

/-- The tag over the additional data and the ciphertext. -/
noncomputable def tag (ciph : Block → Block) (iv a c : List UInt8) : List UInt8 :=
  let s := ghash (ciph zero)
    (toBlocks (zeroPad a ++ zeroPad c ++ (encode 8 (8 * a.length) ++ encode 8 (8 * c.length))))
  gctr ciph (preCounter iv) s.toList

/-- Ciphertext and tag. -/
noncomputable def encrypt (ciph : Block → Block) (iv p a : List UInt8) : List UInt8 × List UInt8 :=
  let c := gctr ciph (inc32 (preCounter iv)) p
  (c, tag ciph iv a c)

/-- The plaintext, if the tag is the one of the ciphertext. -/
noncomputable def decrypt (ciph : Block → Block) (iv c a t : List UInt8) : Option (List UInt8) :=
  if t = tag ciph iv a c then some (gctr ciph (inc32 (preCounter iv)) c) else none

lemma decrypt_eq_some_iff (ciph : Block → Block) (iv c a t p : List UInt8) :
    decrypt ciph iv c a t = some p ↔ encrypt ciph iv p a = (c, t) := by
  rw [decrypt, encrypt]
  constructor
  · intro h
    split at h
    · next ht =>
      rw [← Option.some.inj h, gctr_gctr, ht]
    · exact absurd h (by simp)
  · intro h
    obtain ⟨hc, ht⟩ := Prod.mk.inj h
    rw [← hc, gctr_gctr, if_pos ht.symm]

end Sp80038D
