import Damen.Framework.Curve25519
import Damen.Properties.KeyAgreement

/-!
# Both ends compute the same secret

The X25519 function is the ladder between two encodings (`x25519_eq_ladderX`), so it takes two
scalars in either order (`x25519_comm`).  A clamped scalar is a multiple of eight below `8 * order`,
hence not a multiple of the order of the base point, and the result for two generated keys is not
the all-zero one that `x25519` reports as a failure.
-/

namespace Damen
namespace Crypto

open Wrapping Wrapping.Marked
open scoped Rfc7748
open Rfc7748 (p order ladderX clampScalar decodeUCoordinate decodeScalar25519 encodeUCoordinate)

/-! ## The function between bytes -/

lemma x25519_eq_ladderX (k u : Bytes) : Rfc7748.x25519 k u =
    encodeUCoordinate (ladderX (decodeScalar25519 k) (decodeUCoordinate u : ZMod p)).val := by
  unfold Rfc7748.x25519 ladderX
  simp only [Rfc7748.pow_sub_two_eq_inv, div_eq_mul_inv]

lemma decode_encode_val (x : ZMod p) :
    (decodeUCoordinate (encodeUCoordinate x.val) : ZMod p) = x := by
  have hlt : x.val < 2 ^ 255 := (ZMod.val_lt x).trans (by decide)
  rw [decodeUCoordinate_eq (length_encodeUCoordinate _), encodeUCoordinate, decode_bytes,
    Nat.mod_eq_of_lt (hlt.trans (by decide)), Nat.mod_eq_of_lt hlt, ZMod.natCast_zmod_val]

lemma x25519_comm (k l u : Bytes) :
    Rfc7748.x25519 k (Rfc7748.x25519 l u) = Rfc7748.x25519 l (Rfc7748.x25519 k u) := by
  simp only [x25519_eq_ladderX, decode_encode_val]
  rw [Rfc7748.ladderX_comm Rfc7748.smooth_zmod]

/-! ## Clamped scalars -/

variable {k : Bytes}

/-- A clamped scalar is a multiple of eight with the topmost bit 254. -/
lemma decodeScalar25519_spec (hk : k.length = 32) :
    decodeScalar25519 k % 8 = 0 ∧ 2 ^ 254 ≤ decodeScalar25519 k ∧
      decodeScalar25519 k < 2 ^ 255 := by
  have hlow : (clampScalar k).getD 0 0 = k.getD 0 0 &&& 248 := by simp [clampScalar, hk]
  have hhigh : (clampScalar k).getD 31 0 = (k.getD 31 0 &&& 127) ||| 64 := by simp [clampScalar, hk]
  have hlength : (clampScalar k).length = 32 := by simp [clampScalar, hk]
  have hbound := decodeLittleEndian_lt (clampScalar k)
  have hfirst := toNat_getD (clampScalar k) 0
  have hlast := toNat_getD (clampScalar k) 31
  have hmask : (k.getD 0 0 &&& 248).toNat % 2 ^ 3 = 0 := by
    rw [UInt8.toNat_and, Nat.and_mod_two_pow]
    exact Nat.and_zero _
  have hset : 64 ≤ ((k.getD 31 0 &&& 127) ||| 64).toNat := by
    rw [UInt8.toNat_or]
    exact Nat.right_le_or
  have hclear : ((k.getD 31 0 &&& 127) ||| 64).toNat < 2 ^ 7 := by
    rw [UInt8.toNat_or, UInt8.toNat_and]
    exact Nat.or_lt_two_pow (Nat.and_lt_two_pow _ (by decide)) (by decide)
  rw [hlength] at hbound
  rw [hlow] at hfirst
  rw [hhigh] at hlast
  unfold decodeScalar25519
  omega

lemma not_order_dvd (hk : k.length = 32) : ¬ order ∣ decodeScalar25519 k % 2 ^ 255 := by
  obtain ⟨height, hle, hlt⟩ := decodeScalar25519_spec hk
  rw [Nat.mod_eq_of_lt hlt]
  intro hdvd
  have hboth : 8 * order ∣ decodeScalar25519 k :=
    Nat.Coprime.mul_dvd_of_dvd_of_dvd (by decide +kernel) (Nat.dvd_of_mod_eq_zero height) hdvd
  have hbig : 2 ^ 255 < 8 * order := by decide +kernel
  have := Nat.le_of_dvd (by omega) hboth
  omega

/-- The base point. -/
def nine : Bytes := 9 :: List.replicate 31 0

lemma x25519_nine_ne_zero {l : Bytes} (hk : k.length = 32) (hl : l.length = 32) :
    Rfc7748.x25519 k (Rfc7748.x25519 l nine) ≠ List.replicate 32 0 := by
  have hbase : (decodeUCoordinate nine : ZMod p) = 9 := by decide +kernel
  intro hzero
  apply Rfc7748.ladderX_base_ne_zero (not_order_dvd hk) (not_order_dvd hl)
  rw [x25519_eq_ladderX, x25519_eq_ladderX l, decode_encode_val, hbase] at hzero
  rw [← decode_encode_val (ladderX _ _), hzero]
  decide +kernel

/-! ## The code -/

lemma x25519_yields (privateKey peerPublicKey : Vector UInt8 32) :
    (x25519 privateKey peerPublicKey).Yields fun r =>
      r.1.toList = Rfc7748.x25519 privateKey.toList peerPublicKey.toList ∧
        (r.2 = false ↔ r.1.toList = List.replicate 32 0) := by
  obtain ⟨htight, hvalue⟩ := feFrombytes_spec (u := peerPublicKey.toList) Vector.length_toList
  have hx1 : StandsFor (feFrombytes peerPublicKey.toList)
      (decodeUCoordinate peerPublicKey.toList : ZMod p) := ⟨htight, by rw [Fe.elem, hvalue]⟩
  unfold x25519
  refine (ladderLoop_yields hx1 _).bind fun v hv => ?_
  have hfinal := stands_cswap_swap hv
  refine (feInv_yields hfinal.z2.1).bind fun i hi => ?_
  refine (feMul_yields hfinal.x2.1.loose hi.1.loose).bind fun r hr => ?_
  refine (feTobytes_yields hr.1).bind fun out hout => yields_pure ⟨?_, ?_⟩
  · rw [hout, hr.2, hi.2, hfinal.x2.2, hfinal.z2.2]
    rfl
  · rw [bne_eq_false_iff_eq, foldl_or_eq_zero, List.eq_replicate_iff]
    simp

lemma x25519Generate_yields (privateKey : Vector UInt8 32) :
    (x25519Generate privateKey).Yields fun r =>
      r.1 = privateKey ∧ r.2.toList = Rfc7748.x25519 privateKey.toList nine :=
  (x25519_yields privateKey _).bind fun _ h => yields_pure ⟨rfl, h.1⟩

lemma x25519_generated (a b : Vector UInt8 32) :
    (x25519 a (x25519Generate b).val.2).val = (x25519 b (x25519Generate a).val.2).val ∧
      (x25519 a (x25519Generate b).val.2).val.2 = true := by
  obtain ⟨-, -, hpublicA⟩ := x25519Generate_yields a
  obtain ⟨-, -, hpublicB⟩ := x25519Generate_yields b
  obtain ⟨-, hbytes, hflag⟩ := x25519_yields a (x25519Generate b).val.2
  obtain ⟨-, hbytes', hflag'⟩ := x25519_yields b (x25519Generate a).val.2
  have hsame : (x25519 a (x25519Generate b).val.2).val.1.toList =
      (x25519 b (x25519Generate a).val.2).val.1.toList := by
    rw [hbytes, hbytes', hpublicA, hpublicB, x25519_comm]
  have hnonzero : (x25519 a (x25519Generate b).val.2).val.1.toList ≠ List.replicate 32 0 := by
    rw [hbytes, hpublicB]
    exact x25519_nine_ne_zero Vector.length_toList Vector.length_toList
  have hok := Bool.eq_true_of_not_eq_false (mt hflag.mp hnonzero)
  have hok' := Bool.eq_true_of_not_eq_false (mt hflag'.mp (hsame ▸ hnonzero))
  exact ⟨Prod.ext (Vector.toList_inj.mp hsame) (hok.trans hok'.symm), hok⟩

/-- Two ends that generate a key pair each and send each other the public key compute the same
secret, which for neither is the one that is refused, and no operation on the way wraps. -/
theorem shared_secret_agrees (a b : Vector UInt8 32) :
    (x25519 a (x25519Generate b).val.2).val = (x25519 b (x25519Generate a).val.2).val ∧
      (x25519 a (x25519Generate b).val.2).val.2 = true ∧ (x25519Generate a).wrapped = false ∧
      (x25519 a (x25519Generate b).val.2).wrapped = false := by
  obtain ⟨hsame, hok⟩ := x25519_generated a b
  exact ⟨hsame, hok, (x25519Generate_yields a).1, (x25519_yields a _).1⟩

end Crypto
end Damen
