import Damen.Framework.Sp80038D
import Damen.Model.Gcm

/-!
# Counter mode

`aes256_gcm_crypt` is `GCTR` of SP 800-38D with the block cipher of the source
(`aes256GcmCrypt_eq`).  The carry that runs through the last four bytes of the counter is addition
modulo `2 ^ 32` (`nextCounter_eq`).
-/

namespace Damen
namespace Crypto

open BigEndian Sp80038D

lemma add_one_eq_zero_iff (b : UInt8) : b + 1 = 0 ↔ b.toNat = 255 := by
  have hlt := b.toNat_lt
  rw [← UInt8.toNat_inj, UInt8.toNat_add]
  change (b.toNat + 1) % 256 = 0 ↔ _
  omega

lemma toNat_add_one (b : UInt8) : (b + 1).toNat = (b.toNat + 1) % 256 := UInt8.toNat_add b 1

/-- Addition of one in four bytes: the carry goes on while a byte becomes zero. -/
lemma encode_decode_succ (a b c d : UInt8) :
    encode 4 (decode [a, b, c, d] + 1) =
      if d + 1 ≠ 0 then [a, b, c, d + 1]
      else if c + 1 ≠ 0 then [a, b, c + 1, d + 1]
      else if b + 1 ≠ 0 then [a, b + 1, c + 1, d + 1]
      else [a + 1, b + 1, c + 1, d + 1] := by
  have ha := a.toNat_lt
  have hb := b.toNat_lt
  have hc := c.toNat_lt
  have hd := d.toNat_lt
  rw [encode_four, decode_four]
  simp only [ne_eq, add_one_eq_zero_iff]
  split_ifs <;>
  · simp only [List.cons.injEq, and_true, ← UInt8.toNat_inj, UInt8.toNat_ofNat', toNat_add_one]
    omega

lemma nextCounter_eq (ctr : Block) : nextCounter ctr = inc32 ctr := by
  obtain ⟨⟨l⟩, hl⟩ := ctr
  match l, hl with
  | [x₀, x₁, x₂, x₃, x₄, x₅, x₆, x₇, x₈, x₉, x₁₀, x₁₁, a, b, c, d], _ =>
      have hinc : inc32 #v[x₀, x₁, x₂, x₃, x₄, x₅, x₆, x₇, x₈, x₉, x₁₀, x₁₁, a, b, c, d] =
          toBlock ([x₀, x₁, x₂, x₃, x₄, x₅, x₆, x₇, x₈, x₉, x₁₀, x₁₁] ++
            encode 4 (decode [a, b, c, d] + 1)) :=
        rfl
      have hnext : nextCounter #v[x₀, x₁, x₂, x₃, x₄, x₅, x₆, x₇, x₈, x₉, x₁₀, x₁₁, a, b, c, d] =
          if d + 1 ≠ 0 then #v[x₀, x₁, x₂, x₃, x₄, x₅, x₆, x₇, x₈, x₉, x₁₀, x₁₁, a, b, c, d + 1]
          else if c + 1 ≠ 0 then #v[x₀, x₁, x₂, x₃, x₄, x₅, x₆, x₇, x₈, x₉, x₁₀, x₁₁, a,
            b, c + 1, d + 1]
          else if b + 1 ≠ 0 then #v[x₀, x₁, x₂, x₃, x₄, x₅, x₆, x₇, x₈, x₉, x₁₀, x₁₁, a,
            b + 1, c + 1, d + 1]
          else #v[x₀, x₁, x₂, x₃, x₄, x₅, x₆, x₇, x₈, x₉, x₁₀, x₁₁, a + 1, b + 1,
            c + 1, d + 1] := by
        simp [nextCounter, increment]
      refine hnext.trans (Eq.trans ?_ hinc.symm)
      rw [encode_decode_succ]
      split_ifs <;> exact (toBlock_toList _).symm

/-- `GCTR` begins with the counter block behind `J₀`. -/
lemma gcmCryptLoop_eq (w : List UInt32) {fuel : ℕ} (ctr : Block) {text : Bytes}
    (hfuel : text.length ≤ fuel) :
    gcmCryptLoop w fuel ctr text = gctr (encryptBlock w) (inc32 ctr) text := by
  induction fuel generalizing ctr text with
  | zero =>
      obtain rfl := List.eq_nil_of_length_eq_zero (Nat.le_zero.mp hfuel)
      rfl
  | succ fuel ih =>
      rw [gcmCryptLoop]
      split_ifs with hnil
      · rw [hnil]
        rfl
      · have hpos := List.length_pos_iff.mpr hnil
        have hrest : (text.drop 16).length ≤ fuel := by
          rw [List.length_drop]
          omega
        simp only [nextCounter_eq, ih _ hrest]
        rw [gctr_eq _ _ hnil]

theorem aes256GcmCrypt_eq (w : List UInt32) (j0 : Block) (text : Bytes) :
    aes256GcmCrypt w j0 text = gctr (encryptBlock w) (inc32 j0) text :=
  gcmCryptLoop_eq w j0 le_rfl

end Crypto
end Damen
