import Damen.Properties.KeyBytes

/-!
# The key agreement is X25519

`Stands s v` says that the variables `v` of the ladder are tight and stand for the state `s` of the
ladder of RFC 7748.  A conditional swap and the arithmetic of one turn keep it (`stands_cswap`,
`advance_yields`), so all 255 turns do, and with inversion and encoding `x25519_refines` follows:
the bytes of the standard, `false` exactly for the all-zero result, and nothing wrapped on the way.
-/

namespace Damen
namespace Crypto

open Wrapping Wrapping.Marked
open Rfc7748 (p Ladder decodeLittleEndian)

/-! ## Conditional swaps -/

/-- A bit as a word. -/
def bitWord (b : Bool) : UInt64 := if b then 1 else 0

lemma cswapLimb_eq (b : Bool) (f g : UInt64) :
    cswapLimb (0 - bitWord b) f g = if b then (g, f) else (f, g) := by
  cases b with
  | false =>
      have hmask : 0 - bitWord false = 0 := by decide
      rw [hmask, cswapLimb]
      simp
  | true =>
      have hmask : 0 - bitWord true = -1 := by decide
      have hcancel : f ^^^ (f ^^^ g) = g := by
        rw [← UInt64.xor_assoc, UInt64.xor_self, UInt64.zero_xor]
      have hcancel' : g ^^^ (f ^^^ g) = f := by
        rw [UInt64.xor_comm f g, ← UInt64.xor_assoc, UInt64.xor_self, UInt64.zero_xor]
      rw [hmask, cswapLimb]
      simp only [UInt64.neg_one_and, hcancel, hcancel', if_true]

lemma feCswap_eq (b : Bool) (f g : Fe) :
    feCswap f g (bitWord b) = if b then (g, f) else (f, g) := by
  unfold feCswap
  simp only [cswapLimb_eq]
  cases b <;> rfl

lemma bitWord_xor (a b : Bool) : bitWord a ^^^ bitWord b = bitWord (a ^^ b) := by
  cases a <;> cases b <;> decide

/-! ## The scalar -/

/-- A bit of a byte is a bit of the number. -/
lemma testBit_getD (e : Bytes) (t : ℕ) :
    (e.getD (t / 8) 0).toNat.testBit (t % 8) = (decodeLittleEndian e).testBit t := by
  have hpow : (256 : ℕ) ^ (t / 8) = 2 ^ (8 * (t / 8)) := by
    rw [pow_mul]
    rfl
  have hbyte : (256 : ℕ) = 2 ^ 8 := rfl
  rw [toNat_getD, hpow, hbyte, Nat.testBit_mod_two_pow, decide_eq_true (Nat.mod_lt t (by norm_num)),
    Bool.true_and, Nat.testBit_div_two_pow, Nat.mod_add_div]

lemma scalarBit_eq (e : Bytes) (t : ℕ) :
    ((e.getD (t / 8) 0 >>> UInt8.ofNat (t % 8)) &&& 1).toUInt64 =
      bitWord ((decodeLittleEndian e).testBit t) := by
  have hshift : (UInt8.ofNat (t % 8)).toNat % 8 = t % 8 := by
    rw [UInt8.toNat_ofNat_of_lt' (show t % 8 < 2 ^ 8 by omega)]
    omega
  apply UInt64.toNat_inj.mp
  rw [UInt8.toNat_toUInt64, UInt8.toNat_and, UInt8.toNat_shiftRight, hshift, ← testBit_getD]
  have hone : (e.getD (t / 8) 0).toNat >>> (t % 8) &&& (1 : UInt8).toNat =
      ((e.getD (t / 8) 0).toNat.testBit (t % 8)).toNat := by
    rw [Nat.toNat_testBit, Nat.shiftRight_eq_div_pow]
    exact Nat.and_one_is_mod _
  rw [hone]
  cases (e.getD (t / 8) 0).toNat.testBit (t % 8) <;> rfl

/-! ## The ladder -/

/-- The element is tight and stands for the residue. -/
def StandsFor (f : Fe) (x : ZMod p) : Prop := Tight f ∧ f.elem = x

/-- The variables stand for a state of the ladder. -/
structure Stands (s : Ladder (ZMod p)) (v : LadderVars) : Prop where
  x2 : StandsFor v.x2 s.x2
  z2 : StandsFor v.z2 s.z2
  x3 : StandsFor v.x3 s.x3
  z3 : StandsFor v.z3 s.z3
  swap : v.swap = bitWord s.swap

variable {s : Ladder (ZMod p)} {v : LadderVars} {x1 : ZMod p}

lemma stands_cswap (h : Stands s v) (b : Bool) : Stands (s.cswap b) (v.cswap (bitWord b)) := by
  unfold LadderVars.cswap Ladder.cswap Rfc7748.cswap
  simp only [feCswap_eq]
  cases b with
  | false => exact ⟨h.x2, h.z2, h.x3, h.z3, h.swap⟩
  | true => exact ⟨h.x3, h.z3, h.x2, h.z2, h.swap⟩

/-- The swap after the loop. -/
lemma stands_cswap_swap (h : Stands s v) : Stands (s.cswap s.swap) (v.cswap v.swap) := by
  rw [h.swap]
  exact stands_cswap h s.swap

lemma advance_yields {f1 : Fe} (h : Stands s v) (h1 : StandsFor f1 x1) :
    (v.advance f1).Yields fun v' => Stands (s.advance x1) v' := by
  obtain ⟨⟨hx2, ex2⟩, ⟨hz2, ez2⟩, ⟨hx3, ex3⟩, ⟨hz3, ez3⟩, hswap⟩ := h
  obtain ⟨hf1, ef1⟩ := h1
  have ha24 : ((121665 : UInt64).toNat : ZMod p) = (Rfc7748.a24 : ZMod p) := rfl
  unfold LadderVars.advance
  refine (feAdd_yields hx2 hz2).bind fun a ⟨ha, ea⟩ => ?_
  refine (feSq_yields ha).bind fun aa ⟨haa, eaa⟩ => ?_
  refine (feSub_yields hx2 hz2).bind fun b ⟨hb, eb⟩ => ?_
  refine (feSq_yields hb).bind fun bb ⟨hbb, ebb⟩ => ?_
  refine (feSub_yields haa hbb).bind fun e2 ⟨he2, ee2⟩ => ?_
  refine (feAdd_yields hx3 hz3).bind fun c ⟨hc, ec⟩ => ?_
  refine (feSub_yields hx3 hz3).bind fun d ⟨hd, ed⟩ => ?_
  refine (feMul_yields hd ha).bind fun da ⟨hda, eda⟩ => ?_
  refine (feMul_yields hc hb).bind fun cb ⟨hcb, ecb⟩ => ?_
  refine (feAdd_yields hda hcb).bind fun daCb ⟨hsum, esum⟩ => ?_
  refine (feSub_yields hda hcb).bind fun daCb2 ⟨hdiff, ediff⟩ => ?_
  refine (feSq_yields hsum).bind fun x3 ⟨hx3', ex3'⟩ => ?_
  refine (feSq_yields hdiff).bind fun sq ⟨hsq, esq⟩ => ?_
  refine (feMul_yields hf1.loose hsq.loose).bind fun z3 ⟨hz3', ez3'⟩ => ?_
  refine (feMul_yields haa.loose hbb.loose).bind fun x2 ⟨hx2', ex2'⟩ => ?_
  refine (feMulScalar_yields he2 (by decide)).bind fun m ⟨hm, em⟩ => ?_
  refine (feAdd_yields haa hm).bind fun n ⟨hn, en⟩ => ?_
  refine (feMul_yields he2 hn).bind fun z2 ⟨hz2', ez2'⟩ => yields_pure ⟨⟨hx2', ?_⟩, ⟨hz2', ?_⟩,
    ⟨hx3', ?_⟩, ⟨hz3', ?_⟩, hswap⟩
  · rw [ex2', eaa, ebb, ea, eb, ex2, ez2]
    rfl
  · rw [ez2', en, em, ee2, eaa, ebb, ea, eb, ex2, ez2, ha24]
    rfl
  · rw [ex3', esum, eda, ecb, ec, ed, ea, eb, ex2, ez2, ex3, ez3]
    rfl
  · rw [ez3', esq, ediff, eda, ecb, ec, ed, ea, eb, ex2, ez2, ex3, ez3, ef1]
    rfl

/-- One turn of the loop is one step of the ladder. -/
lemma ladderStep_yields {f1 : Fe} (h : Stands s v) (h1 : StandsFor f1 x1) (e : Bytes) (t : ℕ) :
    (ladderStep e f1 v t).Yields fun v' =>
      Stands (Ladder.step x1 s ((decodeLittleEndian e).testBit t)) v' := by
  unfold ladderStep
  simp only [scalarBit_eq, h.swap, bitWord_xor]
  refine (advance_yields (stands_cswap h _) h1).bind fun v' hv' => yields_pure ?_
  exact ⟨hv'.x2, hv'.z2, hv'.x3, hv'.z3, rfl⟩

lemma value_one : StandsFor ⟨1, 0, 0, 0, 0⟩ 1 :=
  ⟨⟨by decide, by decide, by decide, by decide, by decide⟩, Nat.cast_one⟩

lemma value_zero : StandsFor ⟨0, 0, 0, 0, 0⟩ 0 :=
  ⟨⟨by decide, by decide, by decide, by decide, by decide⟩, Nat.cast_zero⟩

/-- The loop of the code is the loop of the ladder. -/
lemma ladderLoop_yields {f1 : Fe} (h1 : StandsFor f1 x1) (e : Bytes) :
    ((List.range 255).reverse.foldlM (ladderStep e f1)
      ⟨⟨1, 0, 0, 0, 0⟩, ⟨0, 0, 0, 0, 0⟩, f1, ⟨1, 0, 0, 0, 0⟩, 0⟩).Yields fun v =>
        Stands ((List.range 255).reverse.foldl
          (fun s t => Ladder.step x1 s ((decodeLittleEndian e).testBit t)) ⟨1, 0, x1, 1, false⟩)
            v := by
  have hstart : Stands ⟨1, 0, x1, 1, false⟩
      ⟨⟨1, 0, 0, 0, 0⟩, ⟨0, 0, 0, 0, 0⟩, f1, ⟨1, 0, 0, 0, 0⟩, 0⟩ :=
    ⟨value_one, value_zero, h1, value_one, rfl⟩
  exact yields_foldlM (R := Stands) (fun s v t _ h => ladderStep_yields h h1 e t) hstart

/-! ## The whole function -/

lemma foldl_or_eq_zero {l : List UInt8} {a : UInt8} :
    l.foldl (· ||| ·) a = 0 ↔ a = 0 ∧ ∀ b ∈ l, b = 0 := by
  induction l generalizing a with
  | nil => simp
  | cons b l ih => rw [List.foldl_cons, ih, UInt8.or_eq_zero_iff, List.forall_mem_cons, and_assoc]

/-- `x25519` computes the X25519 function, returns `false` exactly when the result is all zero, and
no operation on the way wraps. -/
theorem x25519_refines (privateKey peerPublicKey : Vector UInt8 32) :
    (x25519 privateKey peerPublicKey).wrapped = false ∧
      (x25519 privateKey peerPublicKey).val.1.toList =
        Rfc7748.x25519 privateKey.toList peerPublicKey.toList ∧
      ((x25519 privateKey peerPublicKey).val.2 = false ↔
        Rfc7748.x25519 privateKey.toList peerPublicKey.toList = List.replicate 32 0) := by
  obtain ⟨htight, hvalue⟩ := feFrombytes_spec (u := peerPublicKey.toList) Vector.length_toList
  have hx1 : StandsFor (feFrombytes peerPublicKey.toList)
      (Rfc7748.decodeUCoordinate peerPublicKey.toList : ZMod p) := ⟨htight, by rw [Fe.elem, hvalue]⟩
  have hyields : (x25519 privateKey peerPublicKey).Yields fun r =>
      r.1.toList = Rfc7748.x25519 privateKey.toList peerPublicKey.toList ∧
        r.2 = (r.1.toList.foldl (· ||| ·) 0 != 0) := by
    unfold x25519
    refine (ladderLoop_yields hx1 _).bind fun v hv => ?_
    have hfinal := stands_cswap_swap hv
    refine (feInv_yields hfinal.z2.1).bind fun i hinv => ?_
    obtain ⟨hi, ei⟩ := hinv
    refine (feMul_yields hfinal.x2.1.loose hi.loose).bind fun r hmul => ?_
    obtain ⟨hr, er⟩ := hmul
    refine (feTobytes_yields hr).bind fun out hout => yields_pure ⟨?_, rfl⟩
    rw [hout, er, ei, hfinal.x2.2, hfinal.z2.2]
    rfl
  obtain ⟨hwrapped, hbytes, hflag⟩ := hyields
  refine ⟨hwrapped, hbytes, ?_⟩
  rw [hflag, ← hbytes, bne_eq_false_iff_eq, foldl_or_eq_zero, List.eq_replicate_iff]
  simp

end Crypto
end Damen
