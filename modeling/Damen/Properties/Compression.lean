import Damen.Framework.Fips180
import Damen.Model.Sha256
import Damen.Properties.WordBytes

/-!
# The compression function

`compress` computes the function of the standard (`words_compress`): the table of constants holds
the roots it is said to hold (`kSha256K_eq`, `words_init`), the loop over the words of a block fills
the message schedule (`messageSchedule_eq`), and a round of the loop is a round of the standard
(`words_compressRound`).
-/

namespace Damen
namespace Crypto

open BigEndian

/-! ## Constants -/

/-- The primes below 312, the first 64. -/
def firstPrimes : List ℕ :=
  [2, 3, 5, 7, 11, 13, 17, 19, 23, 29, 31, 37, 41, 43, 47, 53, 59, 61, 67, 71, 73, 79,
    83, 89, 97, 101, 103, 107, 109, 113, 127, 131, 137, 139, 149, 151, 157, 163, 167, 173, 179, 181,
    191, 193, 197, 199, 211, 223, 227, 229, 233, 239, 241, 251, 257, 263, 269, 271, 277, 281, 283,
    293, 307, 311]

/-- Trial division up to the root.  Decided in this form, the list takes a fraction of the time. -/
lemma prime_iff_small {n : ℕ} (hn : n < 18 ^ 2) :
    n.Prime ↔ 2 ≤ n ∧ ∀ d < 18, 2 ≤ d → d < n → ¬d ∣ n := by
  constructor
  · intro h
    refine ⟨h.two_le, fun d _ hd hdn hdvd => ?_⟩
    rcases (Nat.dvd_prime h).mp hdvd with rfl | rfl <;> omega
  · rintro ⟨h2, h⟩
    refine Nat.prime_def_le_sqrt.mpr ⟨h2, fun d hd hsqrt => ?_⟩
    have hd18 : d < 18 := hsqrt.trans_lt (Nat.sqrt_lt'.mpr hn)
    exact h d hd18 hd (hsqrt.trans_lt (Nat.sqrt_lt_self h2))

lemma filter_prime_eq : (List.range 312).filter Nat.Prime = firstPrimes := by
  have hdivision : (List.range 312).filter (fun n => 2 ≤ n ∧ ∀ d < 18, 2 ≤ d → d < n → ¬d ∣ n) =
      firstPrimes := by
    decide +kernel
  rw [← hdivision]
  apply List.filter_congr
  intro n hn
  rw [decide_eq_decide]
  exact prime_iff_small ((List.mem_range.mp hn).trans (by norm_num))

variable {i : ℕ}

lemma nth_prime_eq (hi : i < 64) : Nat.nth Nat.Prime i = firstPrimes.getD i 0 := by
  rw [← filter_prime_eq]
  apply Fips180.nth_eq_getD_filter
  rw [filter_prime_eq]
  exact hi

/-- Scaled by `2 ^ 32` the root of the prime with number `i` lies between `q * 2 ^ 32 + w` and the
next number. -/
def ApproximatesRoot (k i q : ℕ) (w : UInt32) : Prop :=
  (q * 2 ^ 32 + w.toNat) ^ k ≤ firstPrimes.getD i 0 * (2 ^ 32) ^ k ∧
    firstPrimes.getD i 0 * (2 ^ 32) ^ k < (q * 2 ^ 32 + w.toNat + 1) ^ k

instance (k i q : ℕ) (w : UInt32) : Decidable (ApproximatesRoot k i q w) :=
  inferInstanceAs (Decidable (_ ∧ _))

lemma ApproximatesRoot.eq {k q : ℕ} {w : UInt32} (h : ApproximatesRoot k i q w) (hk : k ≠ 0)
    (hi : i < 64) : w = Fips180.rootFraction k (Nat.nth Nat.Prime i) := by
  rw [nth_prime_eq hi, Fips180.rootFraction_eq hk (UInt32.toNat_lt _) h.1 h.2, UInt32.ofNat_toNat]

lemma kSha256K_eq (hi : i < 64) : kSha256K.getD i 0 = Fips180.K i := by
  have htable : ∀ i < 64, ∃ q < 7, ApproximatesRoot 3 i q (kSha256K.getD i 0) := by decide +kernel
  obtain ⟨q, -, h⟩ := htable i hi
  exact h.eq (by decide) hi

/-- The words of an array as the standard names them. -/
def words (h : Vector UInt32 8) : Fips180.Words :=
  ⟨h.get 0, h.get 1, h.get 2, h.get 3, h.get 4, h.get 5, h.get 6, h.get 7⟩

lemma words_init (buf : Vector UInt8 64) : words (Sha256Ctx.init buf).h = Fips180.initial := by
  have htable : ∀ i < 8, ∃ q < 5, ApproximatesRoot 2 i q ((Sha256Ctx.init scratch).h.getD i 0) := by
    decide +kernel
  have hroot : ∀ i < 8, (Sha256Ctx.init scratch).h.getD i 0 = Fips180.H₀ i := by
    intro i hi
    obtain ⟨q, -, h⟩ := htable i hi
    exact h.eq (by decide) (by omega)
  rw [Fips180.initial, ← hroot 0 (by decide), ← hroot 1 (by decide), ← hroot 2 (by decide),
    ← hroot 3 (by decide), ← hroot 4 (by decide), ← hroot 5 (by decide), ← hroot 6 (by decide),
    ← hroot 7 (by decide)]
  rfl

/-! ## Functions on words -/

lemma rotr32_eq (x n : UInt32) (hn : n.toNat < 32) (hpos : 0 < n.toNat) :
    rotr32 x n = Fips180.rotr n.toNat x := by
  apply UInt32.toBitVec_inj.mp
  have hsub : (32 - n).toNat = 32 - n.toNat := by
    rw [UInt32.toNat_sub_of_le _ _ (UInt32.le_iff_toNat_le.mpr hn.le)]
    rfl
  have hright : (n.toBitVec % 32).toNat = n.toNat := Nat.mod_eq_of_lt hn
  have hleft : ((32 - n).toBitVec % 32).toNat = 32 - n.toNat := by
    rw [BitVec.toNat_umod, UInt32.toNat_toBitVec, hsub]
    exact Nat.mod_eq_of_lt (Nat.sub_lt (by decide) hpos)
  rw [rotr32, Fips180.rotr, UInt32.toBitVec_or, UInt32.toBitVec_shiftRight,
    UInt32.toBitVec_shiftLeft, BitVec.ushiftRight_eq', BitVec.shiftLeft_eq', hright, hleft,
    BitVec.rotateRight_def, Nat.mod_eq_of_lt hn]

lemma smallSigma0_eq (x : UInt32) :
    rotr32 x 7 ^^^ rotr32 x 18 ^^^ (x >>> 3) = Fips180.smallSigma0 x := by
  rw [rotr32_eq x 7 (by decide) (by decide), rotr32_eq x 18 (by decide) (by decide)]
  rfl

lemma smallSigma1_eq (x : UInt32) :
    rotr32 x 17 ^^^ rotr32 x 19 ^^^ (x >>> 10) = Fips180.smallSigma1 x := by
  rw [rotr32_eq x 17 (by decide) (by decide), rotr32_eq x 19 (by decide) (by decide)]
  rfl

lemma bigSigma0_eq (x : UInt32) :
    rotr32 x 2 ^^^ rotr32 x 13 ^^^ rotr32 x 22 = Fips180.bigSigma0 x := by
  rw [rotr32_eq x 2 (by decide) (by decide), rotr32_eq x 13 (by decide) (by decide),
    rotr32_eq x 22 (by decide) (by decide)]
  rfl

lemma bigSigma1_eq (x : UInt32) :
    rotr32 x 6 ^^^ rotr32 x 11 ^^^ rotr32 x 25 = Fips180.bigSigma1 x := by
  rw [rotr32_eq x 6 (by decide) (by decide), rotr32_eq x 11 (by decide) (by decide),
    rotr32_eq x 25 (by decide) (by decide)]
  rfl

/-! ## The message schedule -/

lemma getD_map_range (f : ℕ → UInt32) {n : ℕ} (hi : i < n) :
    ((List.range n).map f).getD i 0 = f i := by
  simp [hi]

lemma getD_toList {n : ℕ} (b : Vector UInt8 n) (i : ℕ) : b.getD i 0 = b.toList.getD i 0 := by
  simp [Vector.getD]

/-- Four bytes of a block, read one by one. -/
lemma wordOf_getD (block : Vector UInt8 64) (hi : i < 16) :
    wordOf (block.getD (i * 4) 0) (block.getD (i * 4 + 1) 0) (block.getD (i * 4 + 2) 0)
      (block.getD (i * 4 + 3) 0) = Fips180.schedule block.toList i := by
  have hlen : i * 4 + 4 ≤ block.toList.length := by
    rw [Vector.length_toList]
    omega
  rw [Fips180.schedule, dif_pos hi, Nat.mul_comm 4 i, take_four_drop hlen, wordOf_eq, getD_toList,
    getD_toList, getD_toList, getD_toList]

lemma scheduleWord_eq (block : List UInt8) (hi : 16 ≤ i) :
    scheduleWord ((List.range i).map (Fips180.schedule block)) i = Fips180.schedule block i := by
  rw [Fips180.schedule, dif_neg (not_lt.mpr hi)]
  simp only [scheduleWord, getD_map_range _ (by omega : i - 15 < i),
    getD_map_range _ (by omega : i - 2 < i), getD_map_range _ (by omega : i - 16 < i),
    getD_map_range _ (by omega : i - 7 < i), smallSigma0_eq, smallSigma1_eq]
  ac_rfl

lemma messageSchedule_eq (block : Vector UInt8 64) :
    messageSchedule block = (List.range 64).map (Fips180.schedule block.toList) := by
  have hloop : ∀ k, (List.range' 16 k).foldl (fun w i => w ++ [scheduleWord w i])
      ((List.range 16).map (Fips180.schedule block.toList)) =
        (List.range (16 + k)).map (Fips180.schedule block.toList) := by
    intro k
    induction k with
    | zero => rfl
    | succ k ih =>
        rw [List.range'_concat, List.foldl_append, ih, List.foldl_cons, List.foldl_nil, Nat.one_mul,
          scheduleWord_eq _ (Nat.le_add_right 16 k), ← Nat.add_assoc, List.range_succ,
          List.map_append, List.map_cons, List.map_nil]
  rw [messageSchedule, ← hloop 48]
  congr 1
  exact List.map_congr_left fun i hi => wordOf_getD block (List.mem_range.mp hi)

/-! ## The rounds -/

def Working.words (v : Working) : Fips180.Words := ⟨v.a, v.b, v.c, v.d, v.e, v.f, v.g, v.hh⟩

lemma words_compressRound (block : List UInt8) (v : Working) (hi : i < 64) :
    (compressRound ((List.range 64).map (Fips180.schedule block)) v i).words =
      Fips180.round block v.words i := by
  simp only [compressRound, getD_map_range _ hi, kSha256K_eq hi, bigSigma0_eq, bigSigma1_eq]
  rfl

/-- `compress` is the function of the standard. -/
theorem words_compress (h : Vector UInt32 8) (block : Vector UInt8 64) :
    words (compress h block) = Fips180.compress (words h) block.toList := by
  have hrounds : ((List.range 64).foldl (compressRound (messageSchedule block))
      ⟨h[0], h[1], h[2], h[3], h[4], h[5], h[6], h[7]⟩).words =
        (List.range 64).foldl (Fips180.round block.toList) (words h) := by
    rw [messageSchedule_eq]
    have hstep : ∀ i ∈ List.range 64, ∀ v w, v.words = w →
        (compressRound ((List.range 64).map (Fips180.schedule block.toList)) v i).words =
          Fips180.round block.toList w i := by
      rintro i hi v w rfl
      exact words_compressRound _ v (List.mem_range.mp hi)
    exact List.foldl_rel (r := fun (v : Working) w => v.words = w) rfl hstep
  rw [Fips180.compress, ← hrounds, Fips180.Words.add]
  simp only [compress, words, Working.words, Fips180.Words.mk.injEq]
  refine ⟨?_, ?_, ?_, ?_, ?_, ?_, ?_, ?_⟩ <;> exact UInt32.add_comm _ _

end Crypto
end Damen
