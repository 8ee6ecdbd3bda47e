import Mathlib.Data.Nat.Digits.Lemmas

/-!
# Numbers as bytes, most significant first

`encode` writes the last digits of a number to the base 256 and `decode` reads a number back.
-/

namespace BigEndian

/-- The last `width` digits of a number to the base 256, the most significant one first. -/
def encode (width v : ℕ) : List UInt8 :=
  (List.range width).reverse.map fun k => UInt8.ofNat (v / 256 ^ k)

/-- The number whose digits to the base 256 are the bytes, the most significant one first. -/
def decode (b : List UInt8) : ℕ := Nat.ofDigits 256 (b.reverse.map UInt8.toNat)

lemma length_encode (width v : ℕ) : (encode width v).length = width := by
  rw [encode, List.length_map, List.length_reverse, List.length_range]

/-- More significant digits do not matter. -/
lemma encode_mod (width v : ℕ) : encode width (v % 256 ^ width) = encode width v := by
  apply List.map_congr_left
  intro k hk
  have hlt : k < width := List.mem_range.mp (List.mem_reverse.mp hk)
  obtain ⟨m, rfl⟩ := Nat.exists_eq_add_of_lt hlt
  have hpow : 256 ^ (k + m + 1) = 256 ^ k * (256 * 256 ^ m) := by ring
  apply UInt8.toNat_inj.mp
  rw [UInt8.toNat_ofNat', UInt8.toNat_ofNat', hpow, Nat.mod_mul_right_div_self,
    Nat.mod_mul_right_mod]

lemma decode_four (a b c d : UInt8) :
    decode [a, b, c, d] = 16777216 * a.toNat + 65536 * b.toNat + 256 * c.toNat + d.toNat := by
  simp only [decode, List.reverse_cons, List.reverse_nil, List.nil_append, List.cons_append,
    List.map_cons, List.map_nil, Nat.ofDigits_cons, Nat.ofDigits_nil]
  omega

lemma encode_four (v : ℕ) : encode 4 v =
    [UInt8.ofNat (v / 16777216), UInt8.ofNat (v / 65536), UInt8.ofNat (v / 256),
      UInt8.ofNat (v / 1)] := rfl

end BigEndian
