import Damen.Framework.Fips197
import Damen.Properties.WordBytes
import Mathlib.Data.List.GetD

/-!
# The block cipher

`Aes256` is the cipher of FIPS 197 (`aes256_refines`).  `aes_mul` is the product of the field, bit
by bit, and `aes_inv` the power 254, which is the inverse since the powers of `{03}` are all bytes
but zero.  The key schedule goes over lists of words, and the invariant of its loop is `Expanded`.
-/

namespace Damen
namespace Crypto

open Fips197 (residue mul inv byte power Word state keyExpansion modulus residue_zero residue_one
  residue_xor residue_byte eq_byte eq_inv unit_mul mul_swap subBytes shiftRows subWord
    rotWord xorWord)

/-! ## The field -/

lemma forall_byte {P : UInt8 → Prop} (h : ∀ n < 256, P (UInt8.ofNat n)) (b : UInt8) : P b := by
  have hb := h b.toNat b.toNat_lt
  rwa [UInt8.ofNat_toNat] at hb

/-- The factor of the next round of `aes_mul`. -/
def double (a : UInt8) : UInt8 := (a <<< 1) ^^^ (if a &&& 0x80 ≠ 0 then 0x1B else 0)

lemma residue_double (a : UInt8) : residue (double a) = AdjoinRoot.root modulus * residue a := by
  refine Fips197.residue_double ?_
  revert a
  exact forall_byte (by decide +kernel)

lemma residue_halves (b : UInt8) :
    residue b = residue (b &&& 1) + AdjoinRoot.root modulus * residue (b >>> 1) := by
  rw [← residue_double, ← residue_xor]
  refine congrArg residue ?_
  revert b
  exact forall_byte (by decide +kernel)

lemma lowBit (b : UInt8) : b &&& 1 = if b &&& 1 ≠ 0 then 1 else 0 := by
  revert b
  exact forall_byte (by decide +kernel)

/-- The rounds that are left add the product of the factors that are left. -/
lemma residue_aesMulLoop (fuel : ℕ) : ∀ a b r : UInt8, b.toNat < 2 ^ fuel →
    residue (aesMulLoop fuel a b r) = residue r + residue a * residue b := by
  induction fuel with
  | zero =>
      intro a b r hb
      obtain rfl : b = 0 := UInt8.toNat_inj.mp (by simpa using hb)
      rw [residue_zero, mul_zero, add_zero, aesMulLoop]
  | succ fuel ih =>
      intro a b r hb
      rw [aesMulLoop]
      split
      · next hzero => rw [hzero, residue_zero, mul_zero, add_zero]
      · have hhalf : (b >>> 1).toNat < 2 ^ fuel := by
          rw [UInt8.toNat_shiftRight]
          change b.toNat >>> 1 < 2 ^ fuel
          rw [Nat.shiftRight_one]
          omega
        have hstep := ih (double a) (b >>> 1) (if b &&& 1 ≠ 0 then r ^^^ a else r) hhalf
        refine hstep.trans ?_
        rw [residue_double, residue_halves b]
        by_cases hbit : b &&& 1 ≠ 0
        · rw [if_pos hbit, residue_xor, (lowBit b).trans (if_pos hbit), residue_one]
          ring
        · rw [if_neg hbit, not_not.mp hbit, residue_zero]
          ring

lemma residue_aesMul (a b : UInt8) : residue (aesMul a b) = residue a * residue b := by
  rw [aesMul, residue_aesMulLoop 8 a b 0 b.toNat_lt, residue_zero, zero_add]

lemma aesMul_eq (a b : UInt8) : aesMul a b = mul a b := eq_byte (residue_aesMul a b)

/-- Every byte but zero is a power of `{03}`, and the powers repeat after 255 of them. -/
lemma residue_pow_order {a : UInt8} (ha : a ≠ 0) : residue a ^ 255 = 1 := by
  let triple : UInt8 → UInt8 := fun b => double b ^^^ b
  have hpower : ∀ k, residue (triple^[k] 1) = (AdjoinRoot.root modulus + 1) ^ k := by
    intro k
    induction k with
    | zero => exact residue_one
    | succ k ih =>
        rw [Function.iterate_succ_apply', pow_succ, ← ih, residue_xor, residue_double]
        ring
  have hlist : ∀ n < 256, n ≠ 0 → n ∈ (List.iterate triple 1 255).map UInt8.toNat := by
    decide +kernel
  obtain ⟨b, hb, hab⟩ :=
    List.mem_map.mp (hlist a.toNat a.toNat_lt fun h => ha (UInt8.toNat_inj.mp h))
  obtain ⟨k, -, rfl⟩ := List.mem_iterate.mp (UInt8.toNat_inj.mp hab ▸ hb)
  have horder : triple^[255] 1 = 1 := by decide +kernel
  rw [hpower, ← pow_mul, Nat.mul_comm, pow_mul, ← hpower, horder, residue_one, one_pow]

lemma residue_aesInvLoop (fuel : ℕ) : ∀ (result base : UInt8) (e : ℕ), e < 2 ^ fuel →
    residue (aesInvLoop fuel result base e) = residue result * residue base ^ e := by
  induction fuel with
  | zero =>
      intro result base e he
      rw [aesInvLoop, show e = 0 by omega, pow_zero, mul_one]
  | succ fuel ih =>
      intro result base e he
      rw [aesInvLoop]
      split
      · next hzero => rw [hzero, pow_zero, mul_one]
      · rw [ih _ _ _ (by omega), residue_aesMul]
        rcases Nat.mod_two_eq_zero_or_one e with heven | hodd
        · rw [if_neg (by omega), ← pow_two, ← pow_mul, show 2 * (e / 2) = e by omega]
        · rw [if_pos hodd, residue_aesMul, mul_assoc, ← pow_two, ← pow_mul, ← pow_succ',
            show 2 * (e / 2) + 1 = e by omega]

lemma aesInv_eq (a : UInt8) : aesInv a = inv a := by
  refine eq_inv (fun ha => ?_) fun ha => by rw [ha]; rfl
  rw [aesInv, if_neg ha, residue_aesInvLoop 8 1 a 254 (by decide), residue_one, one_mul,
    ← pow_succ', residue_pow_order ha]

lemma sbox_eq (x : UInt8) : sbox x = Fips197.sbox x := by
  rw [Fips197.sbox, ← aesInv_eq, sbox]
  generalize aesInv x = y
  revert y
  exact forall_byte (by decide +kernel)

/-! ## Rounds -/

lemma state_xorBlock (x y : Block) (r c : Fin 4) :
    state (xorBlock x y) r c = state x r c ^^^ state y r c := by
  have hi : r.val + 4 * c.val < 16 := by omega
  simp [state, xorBlock, Vector.getD, hi]

lemma state_subShift (s : Block) :
    state (subShift s) = shiftRows (subBytes (state s)) := by
  funext r c
  fin_cases r <;> fin_cases c <;>
    simp [state, subShift, shiftRows, subBytes, sbox_eq, Vector.getD]

lemma state_mixColumns (s : Block) : state (mixColumns s) = Fips197.mixColumns (state s) := by
  funext r c
  fin_cases r <;> fin_cases c <;>
    simp [state, mixColumns, Fips197.mixColumns, mixRow, aesMul_eq, unit_mul, mul_swap _ 2,
      mul_swap _ 3, Vector.getD]

lemma state_roundKey (w : List UInt32) (round : ℕ) (r c : Fin 4) :
    state (roundKey w round) r c = wordByte (w.getD (4 * round + c) 0) r := by
  have hi : r.val + 4 * c.val < 16 := by omega
  have hdiv : (r.val + 4 * c.val) / 4 = c := by omega
  have hmod : (r.val + 4 * c.val) % 4 = r := by omega
  simp [state, roundKey, Vector.getD, hi, hdiv, hmod, Nat.mul_comm round]

/-! ## The key schedule -/

/-- The bytes of a word. -/
def toWord (v : UInt32) : Word := fun i => wordByte v i

lemma toWord_xor (v w : UInt32) : toWord (v ^^^ w) = xorWord (toWord v) (toWord w) := by
  funext i
  apply UInt8.eq_of_toBitVec_eq
  apply BitVec.eq_of_getLsbD_eq
  intro k hk
  simp only [toWord, xorWord, wordByte, UInt32.shiftRight_xor]
  simp [hk, Bool.and_xor_distrib_right]

lemma toWord_wordOf (a b c d : UInt8) : toWord (wordOf a b c d) = ![a, b, c, d] := by
  have ha := a.toNat_lt
  have hb := b.toNat_lt
  have hc := c.toNat_lt
  have hd := d.toNat_lt
  have hbytes : [wordByte (wordOf a b c d) 0, wordByte (wordOf a b c d) 1,
      wordByte (wordOf a b c d) 2, wordByte (wordOf a b c d) 3] = [a, b, c, d] := by
    rw [wordBytes_eq, wordOf_eq, BigEndian.decode_four,
      UInt32.toNat_ofNat_of_lt' (show _ < 2 ^ 32 by omega), BigEndian.encode_four]
    simp only [List.cons.injEq, and_true, ← UInt8.toNat_inj, UInt8.toNat_ofNat']
    omega
  simp only [List.cons.injEq, and_true] at hbytes
  funext i
  fin_cases i <;> simp [toWord, hbytes]

/-- The words before place `i`, and the round constant that comes next. -/
structure Expanded (key : Vector UInt8 32) (i : ℕ) (s : List UInt32 × UInt32) : Prop where
  length : s.1.length = i
  words : ∀ j < i, toWord (s.1.getD j 0) = keyExpansion key j
  rcon : s.2 = wordOf (power ((i - 1) / 8)) 0 0 0

lemma power_succ (e : ℕ) : aesMul (power e) 2 = power (e + 1) := by
  have htwo : residue 2 = AdjoinRoot.root modulus := by
    rw [show (2 : UInt8) = double 1 from rfl, residue_double, residue_one, mul_one]
  refine eq_byte ?_
  rw [aesMul_eq, mul, residue_byte, htwo, power, residue_byte, pow_succ]

/-- A round constant is a word with three zero bytes. -/
lemma wordOf_first (b : UInt8) :
    ((wordOf b 0 0 0) >>> 24).toUInt8 = b ∧ b.toUInt32 <<< 24 = wordOf b 0 0 0 := by
  revert b
  exact forall_byte (by decide +kernel)

section

variable {key : Vector UInt8 32} {i : ℕ}

variable {s : List UInt32 × UInt32}

lemma Expanded.push (h : Expanded key i s) {v rcon : UInt32} (hv : toWord v = keyExpansion key i)
    (hrcon : rcon = wordOf (power (i / 8)) 0 0 0) :
    Expanded key (i + 1) (s.1 ++ [v], rcon) where
  length := by rw [List.length_append, h.length, List.length_singleton]
  words j hj := by
    rcases Nat.lt_succ_iff_lt_or_eq.mp hj with hlt | rfl
    · rw [List.getD_append _ _ _ _ (h.length.symm ▸ hlt)]
      exact h.words j hlt
    · rw [List.getD_append_right _ _ _ _ h.length.le, h.length, Nat.sub_self]
      exact hv
  rcon := hrcon

lemma subWord_toWord (t : UInt32) :
    toWord (wordOf (sbox (wordByte t 0)) (sbox (wordByte t 1)) (sbox (wordByte t 2))
      (sbox (wordByte t 3))) =
      subWord (toWord t) := by
  rw [toWord_wordOf]
  funext k
  fin_cases k <;> exact sbox_eq _

lemma subRotWord_toWord (t : UInt32) :
    toWord (wordOf (sbox (wordByte t 1)) (sbox (wordByte t 2)) (sbox (wordByte t 3))
      (sbox (wordByte t 0))) =
      subWord (rotWord (toWord t)) := by
  rw [toWord_wordOf]
  funext k
  fin_cases k <;> exact sbox_eq _

lemma expandRound_expanded (hi : 8 ≤ i) (h : Expanded key i s) :
    Expanded key (i + 1) (expandRound s i) := by
  have hback := h.words (i - 8) (by omega)
  have hlast := h.words (i - 1) (by omega)
  have hword := Fips197.keyExpansion.eq_1 key i
  rw [if_neg (by omega)] at hword
  unfold expandRound
  simp only
  split
  · next hzero =>
    refine h.push ?_ ?_
    · rw [hword, toWord_xor, toWord_xor, subRotWord_toWord, hback, hlast, h.rcon, toWord_wordOf]
      simp only [if_pos hzero, Fips197.rcon]
      rw [show (i - 1) / 8 = i / 8 - 1 by omega]
    · rw [h.rcon, (wordOf_first _).1, (wordOf_first _).2, power_succ,
        show (i - 1) / 8 + 1 = i / 8 by omega]
  · next hzero =>
    have hrcon : s.2 = wordOf (power (i / 8)) 0 0 0 := by
      rw [h.rcon, show (i - 1) / 8 = i / 8 by omega]
    split
    · next hfour =>
      refine h.push ?_ hrcon
      rw [hword, toWord_xor, subWord_toWord, hback, hlast]
      simp only [if_neg hzero, if_pos hfour]
    · next hfour =>
      refine h.push ?_ hrcon
      rw [hword, toWord_xor, hback, hlast]
      simp only [if_neg hzero, if_neg hfour]

lemma expandKey_eq (key : Vector UInt8 32) {j : ℕ} (hj : j < 60) :
    toWord ((expandKey key.toList).getD j 0) = keyExpansion key j := by
  have hloop : ∀ n s, Expanded key 8 s →
      Expanded key (8 + n) ((List.range' 8 n).foldl expandRound s) := by
    intro n s h
    induction n with
    | zero => exact h
    | succ n ih =>
        rw [List.range'_1_concat, List.foldl_append]
        exact expandRound_expanded (Nat.le_add_right 8 n) ih
  refine (hloop 52 _ ⟨rfl, fun j hj => ?_, ?_⟩).words j hj
  · have hword := Fips197.keyExpansion.eq_1 key j
    rw [if_pos hj] at hword
    rw [hword, List.getD_eq_getElem?_getD, List.getElem?_map, List.getElem?_range hj,
      Option.map_some, Option.getD_some, toWord_wordOf]
    funext k
    fin_cases k <;> simp [Nat.mul_comm j, Vector.getD]
  · have hone : power 0 = 1 := (eq_byte (by rw [residue_one, pow_zero])).symm
    change (0x01000000 : UInt32) = wordOf (power 0) 0 0 0
    rw [hone]
    decide

end

/-! ## The cipher -/

lemma state_addRoundKey (key : Vector UInt8 32) {round : ℕ} (hround : round ≤ 14) (x : Block) :
    state (xorBlock x (roundKey (expandKey key.toList) round)) =
      Fips197.addRoundKey (keyExpansion key) round (state x) := by
  funext r c
  rw [state_xorBlock, state_roundKey, Fips197.addRoundKey, ← expandKey_eq key (by omega)]
  rfl

lemma state_rounds (key : Vector UInt8 32) (block : Block) {n : ℕ} (hn : n ≤ 13) :
    state ((List.range' 1 n).foldl (fun s round =>
      xorBlock (mixColumns (subShift s)) (roundKey (expandKey key.toList) round))
        (xorBlock block (roundKey (expandKey key.toList) 0))) =
      Fips197.rounds (keyExpansion key) (state block) n := by
  induction n with
  | zero => exact state_addRoundKey key (by decide) block
  | succ n ih =>
      rw [Fips197.rounds, List.range'_1_concat, List.foldl_append, List.foldl_append,
        List.foldl_cons, List.foldl_cons, List.foldl_nil, List.foldl_nil,
        state_addRoundKey key (by omega), state_mixColumns, state_subShift, ih (by omega)]
      rfl

/-- `Aes256` is the block cipher of FIPS 197 for every key. -/
theorem aes256_refines (key : Vector UInt8 32) :
    encryptBlock (expandKey key.toList) = Fips197.aes256 key := by
  funext block
  rw [← Fips197.output_state (encryptBlock _ block), encryptBlock, state_addRoundKey key le_rfl,
    state_subShift, state_rounds key block le_rfl]
  rfl

end Crypto
end Damen
