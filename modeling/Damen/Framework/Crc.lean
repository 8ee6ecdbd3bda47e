import Mathlib.Data.Nat.Notation
import Mathlib.Logic.Function.Iterate
import Mathlib.Order.Nat
import Mathlib.Tactic.Common

/-!
# Cyclic redundancy checks

A register of `w` bits divides its input by a polynomial over the field with two elements, with the
bits in reflected order: a step shifts the register down by one and adds the polynomial if a one
falls out (`bit`).  A symbol of `k` bits is added to the low end and clocked through in `k` steps
(`feed`).

Steps are linear (`bit_xor`), and injective if the polynomial has its highest bit (`bit_injective`),
so the register after a message determines the register before it.  A step undoes a shift to the
left as long as nothing falls out, so symbols that fit into the register together can be added at
once (`read_eq_pack`).  Hence two messages of one length that differ in at most `w` consecutive bits
leave different registers behind (`eq_of_read_eq`).
-/

namespace Crc

variable {w k : ℕ} (poly : BitVec w)

/-- One step of the division. -/
def bit (c : BitVec w) : BitVec w := if c.getLsbD 0 then poly ^^^ (c >>> 1) else c >>> 1

lemma getLsbD_bit (c : BitVec w) (i : ℕ) :
    (bit poly c).getLsbD i = ((c.getLsbD 0 && poly.getLsbD i) ^^ c.getLsbD (1 + i)) := by
  unfold bit
  cases c.getLsbD 0 <;> simp

lemma bit_xor (a b : BitVec w) : bit poly (a ^^^ b) = bit poly a ^^^ bit poly b := by
  apply BitVec.eq_of_getLsbD_eq
  intro i _
  simp only [BitVec.getLsbD_xor, getLsbD_bit]
  grind

variable {poly}

/-- The bit that falls out comes back at the high end. -/
lemma bit_injective (hpoly : poly.msb = true) : Function.Injective (bit poly) := by
  intro a b hab
  have hbits : ∀ i, (bit poly a).getLsbD i = (bit poly b).getLsbD i := fun i => by rw [hab]
  simp only [getLsbD_bit] at hbits
  rw [BitVec.msb_eq_getLsbD_last] at hpoly
  have hlow : a.getLsbD 0 = b.getLsbD 0 := by
    have hlast := hbits (w - 1)
    have hw : w ≤ 1 + (w - 1) := by omega
    rw [hpoly, BitVec.getLsbD_of_ge a _ hw, BitVec.getLsbD_of_ge b _ hw] at hlast
    simpa only [Bool.and_true, Bool.xor_false] using hlast
  apply BitVec.eq_of_getLsbD_eq
  intro i _
  cases i with
  | zero => exact hlow
  | succ i =>
      have hnext := hbits i
      rw [hlow, Nat.add_comm 1 i] at hnext
      simpa using hnext

variable (poly)

lemma bits_xor (n : ℕ) (a b : BitVec w) :
    (bit poly)^[n] (a ^^^ b) = (bit poly)^[n] a ^^^ (bit poly)^[n] b := by
  induction n generalizing a b with
  | zero => rfl
  | succ n ih => rw [Function.iterate_succ_apply, bit_xor, ih]; rfl

/-- As long as zeros fall out, the register is shifted and nothing else. -/
lemma bits_of_low_zero {n : ℕ} {c : BitVec w} (h : ∀ i < n, c.getLsbD i = false) :
    (bit poly)^[n] c = c >>> n := by
  induction n with
  | zero => simp
  | succ n ih =>
      rw [Function.iterate_succ_apply', ih fun i hi => h i (by omega)]
      have hlow : (c >>> n).getLsbD 0 = false := by
        rw [BitVec.getLsbD_ushiftRight]
        exact h n (by omega)
      rw [bit, hlow, if_neg (by simp), BitVec.shiftRight_add]

/-- The low `n` bits are divided, the others shifted. -/
lemma bits_split (n : ℕ) (c : BitVec w) :
    (bit poly)^[n] c = (bit poly)^[n] ((c.setWidth n).setWidth w) ^^^ (c >>> n) := by
  have hsplit : c = (c.setWidth n).setWidth w ^^^ ((c >>> n) <<< n) := by
    apply BitVec.eq_of_getLsbD_eq
    intro i hi
    simp only [BitVec.getLsbD_xor, BitVec.getLsbD_setWidth, BitVec.getLsbD_shiftLeft,
      BitVec.getLsbD_ushiftRight]
    by_cases hin : i < n
    · simp [hin, hi]
    · simp [hin, hi, Nat.add_sub_cancel' (not_lt.mp hin)]
  have hshift : ((c >>> n) <<< n) >>> n = c >>> n := by
    apply BitVec.eq_of_getLsbD_eq
    intro i hi
    simp only [BitVec.getLsbD_shiftLeft, BitVec.getLsbD_ushiftRight]
    by_cases hin : n + i < w
    · simp [hin]
    · have hfalse : c.getLsbD (n + i) = false := BitVec.getLsbD_of_ge c (n + i) (not_lt.mp hin)
      simp [hin, hfalse]
  conv_lhs => rw [hsplit, bits_xor, bits_of_low_zero poly (c := (c >>> n) <<< n)
    (fun i hi => by simp [hi]), hshift]

/-! ## Messages -/

/-- A symbol is added to the register and clocked through. -/
def feed (c : BitVec w) (b : BitVec k) : BitVec w := (bit poly)^[k] (c ^^^ b.setWidth w)

/-- The register after a message. -/
def read (c : BitVec w) (bs : List (BitVec k)) : BitVec w := bs.foldl (feed poly) c

lemma read_append (c : BitVec w) (bs bs' : List (BitVec k)) :
    read poly c (bs ++ bs') = read poly (read poly c bs) bs' :=
  List.foldl_append

variable {poly}

lemma read_injective (hpoly : poly.msb = true) (bs : List (BitVec k)) :
    Function.Injective fun c => read poly c bs := by
  induction bs with
  | nil => exact fun _ _ h => h
  | cons b bs ih =>
      intro c c' h
      have hfeed : feed poly c b = feed poly c' b := ih h
      exact (BitVec.xor_left_inj _).mp ((bit_injective hpoly).iterate k hfeed)

/-- The symbols side by side, the first one lowest. -/
def pack (w : ℕ) : List (BitVec k) → BitVec w
  | [] => 0
  | b :: bs => b.setWidth w ^^^ (pack w bs <<< k)

variable {bs bs' : List (BitVec k)}

lemma getLsbD_pack_of_le {i : ℕ} (h : k * bs.length ≤ i) : (pack w bs).getLsbD i = false := by
  induction bs generalizing i with
  | nil => simp [pack]
  | cons b bs ih =>
      rw [List.length_cons, Nat.mul_succ] at h
      rw [pack, BitVec.getLsbD_xor, BitVec.getLsbD_setWidth, BitVec.getLsbD_shiftLeft,
        ih (by omega), BitVec.getLsbD_of_ge b i (by omega)]
      simp

/-- Room for one more symbol below. -/
lemma pack_shift (h : k * (bs.length + 1) ≤ w) : (pack w bs <<< k) >>> k = pack w bs := by
  rw [Nat.mul_succ] at h
  apply BitVec.eq_of_getLsbD_eq
  intro i _
  rw [BitVec.getLsbD_ushiftRight, BitVec.getLsbD_shiftLeft]
  by_cases hi : k + i < w
  · simp [hi]
  · rw [getLsbD_pack_of_le (show k * bs.length ≤ i by omega)]
    simp [hi]

/-- Symbols that fit into the register together can be added together. -/
lemma read_eq_pack (c : BitVec w) (h : k * bs.length ≤ w) :
    read poly c bs = (bit poly)^[k * bs.length] (c ^^^ pack w bs) := by
  induction bs generalizing c with
  | nil => simp [read, pack]
  | cons b bs ih =>
      rw [List.length_cons] at h
      have hrest : pack w bs = (bit poly)^[k] (pack w bs <<< k) := by
        rw [bits_of_low_zero poly (fun i hi => by simp [hi]), pack_shift h]
      calc read poly c (b :: bs)
          = read poly (feed poly c b) bs := rfl
        _ = (bit poly)^[k * bs.length] (feed poly c b ^^^ pack w bs) :=
            ih _ (le_trans (Nat.mul_le_mul_left k (Nat.le_succ _)) h)
        _ = (bit poly)^[k * bs.length] ((bit poly)^[k] (c ^^^ pack w (b :: bs))) := by
            conv_lhs => rw [hrest, feed, ← bits_xor, BitVec.xor_assoc]
            rfl
        _ = (bit poly)^[k * (b :: bs).length] (c ^^^ pack w (b :: bs)) := by
            rw [← Function.iterate_add_apply, List.length_cons, Nat.mul_succ]

lemma pack_injective (hlen : bs.length = bs'.length) (hw : k * bs.length ≤ w)
    (h : pack w bs = pack w bs') : bs = bs' := by
  induction bs generalizing bs' with
  | nil => exact (List.length_eq_zero_iff.mp hlen.symm).symm
  | cons b bs ih =>
      obtain ⟨b', bs', rfl⟩ := List.exists_cons_of_length_eq_add_one hlen.symm
      have hlen' : bs.length = bs'.length := Nat.succ.inj hlen
      rw [List.length_cons] at hw
      have hk : k ≤ w := le_trans (Nat.le_mul_of_pos_right k (Nat.succ_pos _)) hw
      have hbits : ∀ i, (pack w (b :: bs)).getLsbD i = (pack w (b' :: bs')).getLsbD i :=
        fun i => by rw [h]
      simp only [pack, BitVec.getLsbD_xor, BitVec.getLsbD_setWidth, BitVec.getLsbD_shiftLeft]
        at hbits
      have hhead : b = b' := by
        apply BitVec.eq_of_getLsbD_eq
        intro i hi
        have hbit := hbits i
        simpa [hi, lt_of_lt_of_le hi hk] using hbit
      have htail : pack w bs = pack w bs' := by
        rw [pack, pack, hhead, BitVec.xor_right_inj] at h
        rw [← pack_shift hw, h, pack_shift (hlen' ▸ hw)]
      rw [hhead, ih hlen' (le_trans (Nat.mul_le_mul_left k (Nat.le_succ _)) hw) htail]

/-- Every burst that is no longer than the register changes it. -/
lemma eq_of_read_eq (hpoly : poly.msb = true) {c : BitVec w} {pre suf : List (BitVec k)}
    (hlen : bs.length = bs'.length) (hw : k * bs.length ≤ w)
    (h : read poly c (pre ++ bs ++ suf) = read poly c (pre ++ bs' ++ suf)) : bs = bs' := by
  rw [read_append, read_append poly c (pre ++ bs')] at h
  have hburst : read poly c (pre ++ bs) = read poly c (pre ++ bs') := read_injective hpoly suf h
  have hw' : k * bs'.length ≤ w := hlen ▸ hw
  rw [read_append, read_append, read_eq_pack _ hw, read_eq_pack _ hw', hlen] at hburst
  exact pack_injective hlen hw
    ((BitVec.xor_right_inj _).mp ((bit_injective hpoly).iterate _ hburst))

end Crc
