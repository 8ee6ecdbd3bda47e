import Damen.Framework.BigEndian
import Damen.Framework.BlockStream
import Mathlib.Analysis.SpecialFunctions.Pow.Real
import Mathlib.Data.Nat.Prime.Nth

/-!
# SHA-256

FIPS 180-4 for messages that are byte strings.  The constants are what sections 4.2.2 and 5.3.3 say
they are, the first 32 bits of the fractional parts of roots of primes; `rootFraction_eq` is how a
number is recognised as one.  The number of zero bytes of the padding is the least one that fills
the last block (section 5.1.1); `zeroBytes_eq` finds it.

`hmac` and `hkdf` are the keyed hash and the key derivation over this hash.
-/

namespace Fips180

/-! ## Functions on words -/

/-- `ROTR`. -/
def rotr (n : ℕ) (x : UInt32) : UInt32 := ⟨x.toBitVec.rotateRight n⟩

def ch (x y z : UInt32) : UInt32 := (x &&& y) ^^^ (~~~x &&& z)

def maj (x y z : UInt32) : UInt32 := (x &&& y) ^^^ (x &&& z) ^^^ (y &&& z)

/-- `Σ₀`. -/
def bigSigma0 (x : UInt32) : UInt32 := rotr 2 x ^^^ rotr 13 x ^^^ rotr 22 x

/-- `Σ₁`. -/
def bigSigma1 (x : UInt32) : UInt32 := rotr 6 x ^^^ rotr 11 x ^^^ rotr 25 x

/-- `σ₀`. -/
def smallSigma0 (x : UInt32) : UInt32 := rotr 7 x ^^^ rotr 18 x ^^^ (x >>> 3)

/-- `σ₁`. -/
def smallSigma1 (x : UInt32) : UInt32 := rotr 17 x ^^^ rotr 19 x ^^^ (x >>> 10)

/-! ## Constants -/

/-- The first 32 bits of the fractional part of the `k`-th root of `p`. -/
noncomputable def rootFraction (k p : ℕ) : UInt32 :=
  UInt32.ofNat ⌊(2 : ℝ) ^ 32 * Int.fract ((p : ℝ) ^ (k : ℝ)⁻¹)⌋₊

/-- Scaled by `2 ^ 32` the root lies between `q * 2 ^ 32 + c` and the next number. -/
lemma rootFraction_eq {k p q c : ℕ} (hk : k ≠ 0) (hc : c < 2 ^ 32)
    (hle : (q * 2 ^ 32 + c) ^ k ≤ p * (2 ^ 32) ^ k)
    (hlt : p * (2 ^ 32) ^ k < (q * 2 ^ 32 + c + 1) ^ k) : rootFraction k p = UInt32.ofNat c := by
  set x : ℝ := (p : ℝ) ^ (k : ℝ)⁻¹ with hx
  have hx₀ : 0 ≤ x := Real.rpow_nonneg (Nat.cast_nonneg p) _
  have hscaled : (2 ^ 32 * x) ^ k = (p : ℝ) * (2 ^ 32) ^ k := by
    rw [mul_pow, hx, Real.rpow_inv_natCast_pow (Nat.cast_nonneg p) hk, mul_comm]
  have hlow : (q * 2 ^ 32 + c : ℝ) ≤ 2 ^ 32 * x := by
    rw [← pow_le_pow_iff_left₀ (by positivity) (by positivity) hk, hscaled]
    exact_mod_cast hle
  have hhigh : 2 ^ 32 * x < q * 2 ^ 32 + c + 1 := by
    rw [← pow_lt_pow_iff_left₀ (by positivity) (by positivity) hk, hscaled]
    exact_mod_cast hlt
  have hcR : (c : ℝ) + 1 ≤ 2 ^ 32 := by exact_mod_cast hc
  have hfloor : ⌊x⌋ = (q : ℤ) := by
    rw [Int.floor_eq_iff, Int.cast_natCast]
    constructor <;> nlinarith [(Nat.cast_nonneg c : (0 : ℝ) ≤ c)]
  have hfract : Int.fract x = x - q := by rw [Int.fract, hfloor, Int.cast_natCast]
  have hbits : ⌊(2 : ℝ) ^ 32 * Int.fract x⌋₊ = c := by
    rw [hfract, Nat.floor_eq_iff (by nlinarith [(Nat.cast_nonneg c : (0 : ℝ) ≤ c)])]
    constructor <;> linarith
  rw [rootFraction, hbits]

noncomputable def K (t : ℕ) : UInt32 := rootFraction 3 (Nat.nth Nat.Prime t)

noncomputable def H₀ (i : ℕ) : UInt32 := rootFraction 2 (Nat.nth Nat.Prime i)

/-- The numbers with a property in order, from the list of those below a bound. -/
lemma nth_eq_getD_filter (p : ℕ → Prop) [DecidablePred p] {n i : ℕ}
    (hi : i < ((List.range n).filter p).length) :
    Nat.nth p i = ((List.range n).filter p).getD i 0 := by
  induction n with
  | zero => simp at hi
  | succ n ih =>
      have hcount : ((List.range n).filter p).length = Nat.count p n :=
        List.countP_eq_length_filter.symm
      rw [List.range_succ, List.filter_append] at hi ⊢
      rcases lt_or_ge i ((List.range n).filter p).length with hlt | hge
      · rw [List.getD_append _ _ _ _ hlt]
        exact ih hlt
      · by_cases hp : p n
        · have hsingle : [n].filter p = [n] := by simp [hp]
          rw [hsingle, List.length_append, List.length_singleton] at hi
          obtain rfl : i = Nat.count p n := by omega
          rw [hsingle, List.getD_append_right _ _ _ _ hge, hcount, Nat.sub_self, Nat.nth_count hp]
          rfl
        · have hnone : [n].filter p = [] := by simp [hp]
          rw [hnone, List.append_nil] at hi
          omega

/-! ## The hash computation -/

/-- Eight words: a hash value, or the working variables. -/
structure Words where
  a : UInt32
  b : UInt32
  c : UInt32
  d : UInt32
  e : UInt32
  f : UInt32
  g : UInt32
  h : UInt32

def Words.add (x y : Words) : Words :=
  ⟨x.a + y.a, x.b + y.b, x.c + y.c, x.d + y.d, x.e + y.e, x.f + y.f, x.g + y.g, x.h + y.h⟩

/-- The initial hash value. -/
noncomputable def initial : Words := ⟨H₀ 0, H₀ 1, H₀ 2, H₀ 3, H₀ 4, H₀ 5, H₀ 6, H₀ 7⟩

/-- The message schedule of a block. -/
def schedule (block : List UInt8) (t : ℕ) : UInt32 :=
  if h : t < 16 then UInt32.ofNat (BigEndian.decode ((block.drop (4 * t)).take 4))
  else
    smallSigma1 (schedule block (t - 2)) + schedule block (t - 7) +
      smallSigma0 (schedule block (t - 15)) + schedule block (t - 16)

noncomputable def round (block : List UInt8) (v : Words) (t : ℕ) : Words :=
  let t₁ := v.h + bigSigma1 v.e + ch v.e v.f v.g + K t + schedule block t
  let t₂ := bigSigma0 v.a + maj v.a v.b v.c
  ⟨t₁ + t₂, v.a, v.b, v.c, v.d + t₁, v.e, v.f, v.g⟩

/-- The next hash value from the one before it and a block. -/
noncomputable def compress (v : Words) (block : List UInt8) : Words :=
  ((List.range 64).foldl (round block) v).add v

/-! ## Padding -/

/-- The least number of zero bytes for which marker, zeros and the eight bytes of the length fill
the last block. -/
noncomputable def zeroBytes (len : ℕ) : ℕ := sInf {k | 64 ∣ len + 1 + k + 8}

lemma zeroBytes_eq {len k : ℕ} (hk : k < 64) (hfill : (len + 1 + k) % 64 = 56) :
    zeroBytes len = k := by
  have hleast : IsLeast {k | 64 ∣ len + 1 + k + 8} k := by
    refine ⟨by rw [Set.mem_ofPred_eq]; omega, fun j hj => ?_⟩
    rw [Set.mem_ofPred_eq] at hj
    omega
  exact hleast.csInf_eq

noncomputable def pad (m : List UInt8) : List UInt8 :=
  m ++ [0x80] ++ List.replicate (zeroBytes m.length) 0 ++ BigEndian.encode 8 (8 * m.length)

def Words.toBytes (v : Words) : List UInt8 :=
  [v.a, v.b, v.c, v.d, v.e, v.f, v.g, v.h].flatMap fun w => BigEndian.encode 4 w.toNat

/-- The digest of a message of fewer than `2 ^ 61` bytes. -/
noncomputable def sha256 (m : List UInt8) : List UInt8 :=
  ((BlockStream.blocks 64 (pad m)).foldl compress initial).toBytes

lemma Words.length_toBytes (v : Words) : v.toBytes.length = 32 := by
  simp [Words.toBytes, BigEndian.length_encode]

lemma length_sha256 (m : List UInt8) : (sha256 m).length = 32 := Words.length_toBytes _

/-! ## Keyed hashing and key derivation -/

/-- The key of one block: a long key is hashed, a short one filled up with zeros. -/
noncomputable def hmacBlock (key : List UInt8) : List UInt8 :=
  let k := if 64 < key.length then sha256 key else key
  k ++ List.replicate (64 - k.length) 0

noncomputable def hmac (key m : List UInt8) : List UInt8 :=
  sha256 ((hmacBlock key).map (· ^^^ 0x5C) ++ sha256 ((hmacBlock key).map (· ^^^ 0x36) ++ m))

/-- Extract and expand, for one block of output; without a salt it is as many zeros as a digest is
long. -/
noncomputable def hkdf (ikm salt info : List UInt8) : List UInt8 :=
  hmac (hmac (if salt = [] then List.replicate 32 0 else salt) ikm) (info ++ [1])

end Fips180
