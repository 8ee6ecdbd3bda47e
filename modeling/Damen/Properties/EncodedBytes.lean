import Damen.Framework.BitPolynomial
import Damen.Properties.CheckedErasure

/-!
# The bytes of a parity fragment

`encode_into` computes with tables, in buffers that hold what an earlier message left there.  Here
its output is compared with the field it is meant to compute in: polynomials over the field with two
elements modulo `x⁸ + x⁴ + x³ + x² + 1`, a byte standing for the polynomial of its bits (`residue`).

`residueHom` says that the table arithmetic is that of the quotient: the tables are presented by
`xtime`, and `xtime` is multiplication by the residue of `x`.  `encode_into_bytes` reads the parity
fragments off `vec_encodeRow`, byte by byte.
-/

namespace Damen

open Polynomial BitPolynomial

namespace GF256

/-! ## The quotient -/

/-- `x⁸ + x⁴ + x³ + x² + 1`. -/
noncomputable def gfPoly : (ZMod 2)[X] := X ^ 8 + X ^ 4 + X ^ 3 + X ^ 2 + 1

/-- The residue that a byte stands for. -/
noncomputable def residue (b : UInt8) : AdjoinRoot gfPoly := AdjoinRoot.mk gfPoly (poly b.toBitVec)

lemma gfPoly_eq : gfPoly = X ^ 8 + poly (0x1D : BitVec 8) := by
  have hbits : poly (0x1D : BitVec 8) = monomial 0 1 + monomial 2 1 + monomial 3 1 +
      monomial 4 1 := by
    simp [poly, coefficient, Finset.sum_range_succ]
  rw [hbits, gfPoly]
  simp only [monomial_one_right_eq_X_pow]
  ring

lemma residue_injective : Function.Injective residue := fun _ _ h =>
  UInt8.eq_of_toBitVec_eq (mk_poly_injective gfPoly_eq h)

lemma residue_xtime (b : UInt8) :
    residue (xtime b) = AdjoinRoot.root gfPoly * residue b := by
  rw [residue, residue, ← mk_poly_shift gfPoly_eq, xtime]
  cases b.toBitVec.msb <;> rfl

lemma residue_xor (a b : UInt8) : residue (a ^^^ b) = residue a + residue b := by
  rw [residue, UInt8.toBitVec_xor, poly_xor, map_add]
  rfl

lemma residue_zero : residue 0 = 0 := by
  have hzero := residue_xor 0 0
  rw [UInt8.xor_self] at hzero
  exact left_eq_add.mp hzero

lemma residue_one : residue 1 = 1 := by
  have hbits : poly (UInt8.toBitVec 1) = 1 := by
    simp [poly, coefficient, Finset.sum_range_succ]
  rw [residue, hbits, map_one]

/-- The field of the tables in the quotient. -/
noncomputable def residueHom : GF256 →+* AdjoinRoot gfPoly :=
  let add : GF256 →+ AdjoinRoot gfPoly :=
    { toFun := residue
      map_zero' := residue_zero
      map_add' := residue_xor }
  { add with
    map_one' := residue_one
    map_mul' := presentation.map_mul' add (AdjoinRoot.root gfPoly) residue_one residue_xtime }

lemma residueHom_ofByte (b : UInt8) : residueHom (ofByte b) = residue b := rfl

end GF256

namespace ReedSolomon

open GF256

/-! ## The parity fragments -/

/-- A byte of the weighted sum, in the quotient. -/
lemma residue_paritySum (frags : List Bytes) (p width : ℕ) (i : Fin width) :
    residueHom (paritySum width frags p i) =
      ∑ j ∈ Finset.range frags.length,
        residue (UInt8.ofNat (j + 1)) ^ p * residue ((frags.getD j []).getD i 0) := by
  have hterm : ∀ j, residueHom ((ofByte (coef p j) • vec width (frags.getD j [])) i) =
      residue (UInt8.ofNat (j + 1)) ^ p * residue ((frags.getD j []).getD i 0) := by
    intro j
    rw [Pi.smul_apply, smul_eq_mul, map_mul, coef_eq_pow, map_pow, vec, residueHom_ofByte,
      residueHom_ofByte]
  rw [paritySum, Pi.list_sum_apply, map_list_sum, List.map_map, List.map_map]
  simp only [Function.comp_def, hterm]
  rfl

/-- Fragments may be padded with zeros before they are encoded. -/
lemma paritySum_pad (frags : List Bytes) (p width : ℕ) (k : Bytes → ℕ) :
    paritySum width (frags.map fun b => b ++ List.replicate (k b) 0) p =
      paritySum width frags p := by
  rw [paritySum, paritySum, List.length_map]
  refine congrArg List.sum (List.map_congr_left fun j hj => ?_)
  have hj := List.mem_range.mp hj
  rw [List.getD_eq_getElem _ _ (by rwa [List.length_map]), List.getElem_map, vec_append_replicate,
    List.getD_eq_getElem _ _ hj]

lemma length_encodeRow (frags : List Bytes) (p width : ℕ) (buf : Bytes) :
    (encodeRow frags p width buf).length = (clearBuffer buf width).length :=
  length_accumulate _ _ _ _ _

/-- After `encode_into`, whatever the buffers held before, the first `width` bytes of parity
fragment `p` are those of the sum over `j` of `(j + 1) ^ p` times span `j`, computed modulo
`x⁸ + x⁴ + x³ + x² + 1`, and the same as when the spans are padded with zeros and encoded into a
fresh buffer. -/
theorem encode_into_bytes (spans : List Bytes) (parityCount width : ℕ)
    (hcount : parityCount ≤ 2 ^ 16) (out : List Bytes) :
    Function.Injective residue ∧
      ∃ out' fresh, encodeIntoInt spans parityCount width out = some out' ∧
        encodeInt (spans.map fun b => b ++ List.replicate (width - b.length) 0) parityCount width =
          some fresh ∧
        ∀ p < parityCount, width ≤ (out'.getD p []).length ∧
          (∀ i < width, residue ((out'.getD p []).getD i 0) =
            ∑ j ∈ Finset.range spans.length,
              residue (UInt8.ofNat (j + 1)) ^ p * residue ((spans.getD j []).getD i 0)) ∧
          (out'.getD p []).take width = fresh.getD p [] := by
  have hin : ∀ n, CoefsInRange n parityCount := fun n => coefsInRange_of_le (by omega)
  refine ⟨residue_injective, _, _, encodeIntoInt_eq_some_iff.mpr ⟨hin _, rfl⟩,
    encodeIntoInt_eq_some_iff.mpr ⟨hin _, rfl⟩, fun p hp => ?_⟩
  rw [getD_encodeInto _ _ _ hp, getD_encodeInto _ _ _ hp]
  have hlen : width ≤ (encodeRow spans p width (out.getD p [])).length := by
    rw [length_encodeRow]
    exact length_clearBuffer _ _
  refine ⟨hlen, fun i hi => ?_, ?_⟩
  · rw [← residue_paritySum spans p width ⟨i, hi⟩, ← vec_encodeRow spans p width (out.getD p []),
      vec, residueHom_ofByte]
  · refine eq_of_vec_eq (List.length_take_of_le hlen) ?_ ?_
    · rw [length_encodeRow, clearBuffer, List.getD_nil]
      split
      · exact List.length_replicate
      · rw [List.drop_nil, List.append_nil, List.length_replicate]
    · rw [vec_take, vec_encodeRow, vec_encodeRow, paritySum_pad]

/-- Two spans, the shorter one empty, into one buffer that is too long and one that is missing. -/
theorem encode_into_bytes_two :
    ∃ out', encodeIntoInt [[7], []] 2 1 [[5, 6]] = some out' ∧
      (∀ p < 2, residue ((out'.getD p []).getD 0 0) =
        ∑ j ∈ Finset.range 2,
          residue (UInt8.ofNat (j + 1)) ^ p * residue (([[7], []].getD j []).getD 0 0)) := by
  obtain ⟨-, out', _, hout', -, hbytes⟩ := encode_into_bytes [[7], []] 2 1 (by decide) [[5, 6]]
  exact ⟨out', hout', fun p hp => (hbytes p hp).2.1 0 (by decide)⟩

end ReedSolomon
end Damen
