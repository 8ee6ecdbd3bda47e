import Damen.Framework.BitPolynomial
import Mathlib.Algebra.GroupWithZero.Units.Basic

/-!
# AES-256

FIPS 197 for 256-bit keys.  A byte is an element of the field of section 4, a residue modulo
`x⁸ + x⁴ + x³ + x + 1`; products, inverses and the powers in the round constants are taken there.
The state is an array of four rows and four columns (section 3.4), and a word is four bytes.

`eq_byte` and `eq_inv` recognise the results of a byte-wise computation, and `residue_double` is the
step of one: a shift to the left with reduction.
-/

namespace Fips197

open BitPolynomial Polynomial

/-! ## Bytes -/

noncomputable def modulus : (ZMod 2)[X] := X ^ 8 + X ^ 4 + X ^ 3 + X + 1

lemma modulus_eq : modulus = X ^ (7 + 1) + poly 0x1B#(7 + 1) := by
  have hbits : poly 0x1B#(7 + 1) = monomial 0 1 + monomial 1 1 + monomial 3 1 + monomial 4 1 := by
    simp [poly, coefficient, Finset.sum_range_succ]
  rw [hbits, modulus]
  simp only [monomial_one_right_eq_X_pow]
  ring

noncomputable def residue (b : UInt8) : AdjoinRoot modulus :=
  AdjoinRoot.mk modulus (poly b.toBitVec)

lemma residue_bijective : Function.Bijective residue := by
  constructor
  · intro a b h
    exact UInt8.eq_of_toBitVec_eq (mk_poly_injective modulus_eq h)
  · intro r
    obtain ⟨a, ha⟩ := mk_poly_surjective modulus_eq r
    exact ⟨⟨a⟩, ha⟩

lemma residue_xor (a b : UInt8) : residue (a ^^^ b) = residue a + residue b := by
  rw [residue, UInt8.toBitVec_xor, poly_xor, map_add]
  rfl

lemma residue_zero : residue 0 = 0 := by
  rw [residue, UInt8.toBitVec_zero, poly_zero, map_zero]

lemma residue_one : residue 1 = 1 := by
  rw [residue, UInt8.toBitVec_one, poly_one, map_one]

/-- The byte of a residue. -/
noncomputable def byte (r : AdjoinRoot modulus) : UInt8 :=
  (Equiv.ofBijective residue residue_bijective).symm r

lemma eq_byte {b : UInt8} {r : AdjoinRoot modulus} (h : residue b = r) : b = byte r :=
  ((Equiv.ofBijective residue residue_bijective).symm_apply_eq.mpr h.symm).symm

lemma residue_byte (r : AdjoinRoot modulus) : residue (byte r) = r :=
  (Equiv.ofBijective residue residue_bijective).apply_symm_apply r

/-- A shift to the left with reduction is the product with `{02}`. -/
lemma residue_double {a b : UInt8} (h : b.toBitVec =
    if a.toBitVec.msb then (a.toBitVec <<< 1) ^^^ 0x1B#8 else a.toBitVec <<< 1) :
    residue b = AdjoinRoot.root modulus * residue a := by
  rw [residue, h]
  exact mk_poly_shift modulus_eq a.toBitVec

noncomputable def mul (a b : UInt8) : UInt8 := byte (residue a * residue b)

lemma mul_swap (a b : UInt8) : mul a b = mul b a := by
  rw [mul, mul, mul_comm]

lemma unit_mul (b : UInt8) : mul 1 b = b :=
  (eq_byte (by rw [residue_one, one_mul])).symm

noncomputable def power (e : ℕ) : UInt8 := byte (AdjoinRoot.root modulus ^ e)

/-- The multiplicative inverse; `{00}` is mapped to itself. -/
noncomputable def inv (a : UInt8) : UInt8 := byte (Ring.inverse (residue a))

lemma eq_inv {a b : UInt8} (h : a ≠ 0 → residue a * residue b = 1) (hzero : a = 0 → b = 0) :
    b = inv a := by
  refine eq_byte ?_
  by_cases ha : a = 0
  · rw [ha, hzero ha, residue_zero, Ring.inverse_zero]
  · have hunit : IsUnit (residue a) := IsUnit.of_mul_eq_one _ (h ha)
    rw [← one_mul (residue b), ← Ring.inverse_mul_cancel _ hunit, mul_assoc, h ha, mul_one]

/-! ## The S-box -/

/-- The affine transformation of section 5.1.1. -/
def affine (b : UInt8) : UInt8 :=
  ⟨word 8 fun i => b.toBitVec.getLsbD i ^^ b.toBitVec.getLsbD ((i + 4) % 8) ^^
    b.toBitVec.getLsbD ((i + 5) % 8) ^^ b.toBitVec.getLsbD ((i + 6) % 8) ^^
    b.toBitVec.getLsbD ((i + 7) % 8) ^^ (0x63#8).getLsbD i⟩

noncomputable def sbox (b : UInt8) : UInt8 := affine (inv b)

/-! ## The cipher -/

/-- Four bytes. -/
abbrev Word := Fin 4 → UInt8

/-- The byte in row `r` and column `c` is `s r c`. -/
abbrev State := Fin 4 → Fin 4 → UInt8

/-- The state of an input block. -/
def state (block : Vector UInt8 16) : State := fun r c => block.getD (r + 4 * c) 0

/-- The output block of a state. -/
def output (s : State) : Vector UInt8 16 :=
  Vector.ofFn fun i => s (Fin.ofNat 4 i) (Fin.ofNat 4 (i / 4))

lemma output_state (block : Vector UInt8 16) : output (state block) = block := by
  refine Vector.ext fun i hi => ?_
  have hcolumn : i / 4 % 4 = i / 4 := Nat.mod_eq_of_lt (by omega)
  simp [output, state, hcolumn, Nat.mod_add_div, Vector.getD, hi]

noncomputable def subBytes (s : State) : State := fun r c => sbox (s r c)

def shiftRows (s : State) : State := fun r c => s r (c + r)

/-- Each column as a polynomial, times `{03}x³ + {01}x² + {01}x + {02}` modulo `x⁴ + 1`. -/
noncomputable def mixColumns (s : State) : State := fun r c =>
  let a : Word := ![2, 1, 1, 3]
  mul (a r) (s 0 c) ^^^ mul (a (r - 1)) (s 1 c) ^^^ mul (a (r - 2)) (s 2 c) ^^^
    mul (a (r - 3)) (s 3 c)

/-- The columns are words of the key schedule. -/
def addRoundKey (w : ℕ → Word) (round : ℕ) (s : State) : State :=
  fun r c => s r c ^^^ w (4 * round + c) r

noncomputable def subWord (w : Word) : Word := fun i => sbox (w i)

def rotWord (w : Word) : Word := fun i => w (i + 1)

noncomputable def rcon (j : ℕ) : Word := ![power (j - 1), 0, 0, 0]

def xorWord (v w : Word) : Word := fun i => v i ^^^ w i

/-- Section 5.2, for keys of eight words. -/
noncomputable def keyExpansion (key : Vector UInt8 32) (i : ℕ) : Word :=
  if i < 8 then fun j => key.getD (4 * i + j) 0
  else
    let temp := keyExpansion key (i - 1)
    let temp := if i % 8 = 0 then xorWord (subWord (rotWord temp)) (rcon (i / 8))
      else if i % 8 = 4 then subWord temp else temp
    xorWord (keyExpansion key (i - 8)) temp

/-- The state behind the rounds `1` to `n`. -/
noncomputable def rounds (w : ℕ → Word) (s : State) (n : ℕ) : State :=
  (List.range' 1 n).foldl
    (fun s round => addRoundKey w round (mixColumns (shiftRows (subBytes s)))) (addRoundKey w 0 s)

noncomputable def cipher (w : ℕ → Word) (s : State) : State :=
  addRoundKey w 14 (shiftRows (subBytes (rounds w s 13)))

noncomputable def aes256 (key : Vector UInt8 32) (block : Vector UInt8 16) : Vector UInt8 16 :=
  output (cipher (keyExpansion key) (state block))

end Fips197
