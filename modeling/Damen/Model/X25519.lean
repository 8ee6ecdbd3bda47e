import Damen.Framework.Wrapping
import Damen.Model.Wire

/-!
# X25519

The key agreement of `tight/src/crypto.cpp`: elements of GF(2²⁵⁵ − 19) in five limbs of 51 bits,
reduced lazily, the Montgomery ladder and the final inversion.  Every addition, subtraction, product
and narrowing of the field arithmetic is an operation of `Wrapping`, so the result comes with a mark
that says whether any of them left its width; the value is the wrapped one in any case.

`unsigned __int128` is a natural number reduced by `u128`.  The two functions that end in the carry
chain of products share it as `carryChain`.
-/

namespace Damen
namespace Crypto

open Wrapping

/-- An element of the field, `std::array<std::uint64_t, 5>`. -/
structure Fe where
  h0 : UInt64
  h1 : UInt64
  h2 : UInt64
  h3 : UInt64
  h4 : UInt64

def kMask51 : UInt64 := ((1 : UInt64) <<< 51) - 1

/-! ## Bytes -/

def loadLe64 (b : Bytes) : UInt64 :=
  (List.range 8).foldl (fun v i => v ||| (b.getD i 0).toUInt64 <<< UInt64.ofNat (i * 8)) 0

def feFrombytes (s : Bytes) : Fe where
  h0 := loadLe64 s &&& kMask51
  h1 := (loadLe64 (s.drop 6) >>> 3) &&& kMask51
  h2 := (loadLe64 (s.drop 12) >>> 6) &&& kMask51
  h3 := (loadLe64 (s.drop 19) >>> 1) &&& kMask51
  h4 := (loadLe64 (s.drop 24) >>> 12) &&& kMask51

/-- One round of carries of `fe_tobytes`. -/
def carryPass (h : Fe) : Marked Fe := do
  let h1 ← add64 h.h1 (h.h0 >>> 51)
  let h2 ← add64 h.h2 (h1 >>> 51)
  let h3 ← add64 h.h3 (h2 >>> 51)
  let h4 ← add64 h.h4 (h3 >>> 51)
  let h0 ← add64 (h.h0 &&& kMask51) (← mul64 19 (h4 >>> 51))
  return ⟨h0, h1 &&& kMask51, h2 &&& kMask51, h3 &&& kMask51, h4 &&& kMask51⟩

/-- One turn of the subtraction of `p` in `fe_tobytes`: limb and borrow.  The operands are below
`2⁵²`, so the signed difference does not overflow. -/
def subLimb (h p : UInt64) (borrow : Int64) : UInt64 × Int64 :=
  let t := h.toInt64 - p.toInt64 - borrow
  (t.toUInt64 &&& kMask51, if t < 0 then 1 else 0)

/-- The conditional subtraction of `p`: the difference is taken when there is no borrow. -/
def subModulus (h : Fe) : Fe :=
  let (m0, borrow) := subLimb h.h0 (kMask51 - 18) 0
  let (m1, borrow) := subLimb h.h1 kMask51 borrow
  let (m2, borrow) := subLimb h.h2 kMask51 borrow
  let (m3, borrow) := subLimb h.h3 kMask51 borrow
  let (m4, borrow) := subLimb h.h4 kMask51 borrow
  let keep := (-borrow).toUInt64
  ⟨(keep &&& h.h0) ||| (~~~keep &&& m0), (keep &&& h.h1) ||| (~~~keep &&& m1),
    (keep &&& h.h2) ||| (~~~keep &&& m2), (keep &&& h.h3) ||| (~~~keep &&& m3),
    (keep &&& h.h4) ||| (~~~keep &&& m4)⟩

/-- The limbs packed into 32 bytes. -/
def packBytes (out : Fe) : Vector UInt8 32 :=
  #v[out.h0.toUInt8, (out.h0 >>> 8).toUInt8, (out.h0 >>> 16).toUInt8, (out.h0 >>> 24).toUInt8,
    (out.h0 >>> 32).toUInt8, (out.h0 >>> 40).toUInt8, ((out.h0 >>> 48) ||| (out.h1 <<< 3)).toUInt8,
    (out.h1 >>> 5).toUInt8, (out.h1 >>> 13).toUInt8, (out.h1 >>> 21).toUInt8,
    (out.h1 >>> 29).toUInt8, (out.h1 >>> 37).toUInt8, ((out.h1 >>> 45) ||| (out.h2 <<< 6)).toUInt8,
    (out.h2 >>> 2).toUInt8, (out.h2 >>> 10).toUInt8, (out.h2 >>> 18).toUInt8,
    (out.h2 >>> 26).toUInt8, (out.h2 >>> 34).toUInt8, (out.h2 >>> 42).toUInt8,
    ((out.h2 >>> 50) ||| (out.h3 <<< 1)).toUInt8, (out.h3 >>> 7).toUInt8, (out.h3 >>> 15).toUInt8,
    (out.h3 >>> 23).toUInt8, (out.h3 >>> 31).toUInt8, (out.h3 >>> 39).toUInt8,
    ((out.h3 >>> 47) ||| (out.h4 <<< 4)).toUInt8, (out.h4 >>> 4).toUInt8, (out.h4 >>> 12).toUInt8,
    (out.h4 >>> 20).toUInt8, (out.h4 >>> 28).toUInt8, (out.h4 >>> 36).toUInt8,
    (out.h4 >>> 44).toUInt8]

def feTobytes (h : Fe) : Marked (Vector UInt8 32) := do
  let h ← carryPass h
  let h ← carryPass h
  let h ← carryPass h
  return packBytes (subModulus h)

/-! ## Arithmetic -/

def feAdd (f g : Fe) : Marked Fe := do
  return ⟨← add64 f.h0 g.h0, ← add64 f.h1 g.h1, ← add64 f.h2 g.h2, ← add64 f.h3 g.h3,
    ← add64 f.h4 g.h4⟩

/-- `f + 2p - g`. -/
def feSub (f g : Fe) : Marked Fe := do
  return ⟨← sub64 (← add64 f.h0 0xFFFFFFFFFFFDA) g.h0, ← sub64 (← add64 f.h1 0xFFFFFFFFFFFFE) g.h1,
    ← sub64 (← add64 f.h2 0xFFFFFFFFFFFFE) g.h2, ← sub64 (← add64 f.h3 0xFFFFFFFFFFFFE) g.h3,
    ← sub64 (← add64 f.h4 0xFFFFFFFFFFFFE) g.h4⟩

/-- The carries at the end of `fe_mul` and `fe_mul_scalar`, and the narrowing to 64 bits. -/
def carryChain (r0 r1 r2 r3 r4 : ℕ) : Marked Fe := do
  let mask := kMask51.toNat
  let c ← low64 (r0 >>> 51)
  let r0 := r0 &&& mask
  let r1 ← u128 (r1 + c.toNat)
  let c ← low64 (r1 >>> 51)
  let r1 := r1 &&& mask
  let r2 ← u128 (r2 + c.toNat)
  let c ← low64 (r2 >>> 51)
  let r2 := r2 &&& mask
  let r3 ← u128 (r3 + c.toNat)
  let c ← low64 (r3 >>> 51)
  let r3 := r3 &&& mask
  let r4 ← u128 (r4 + c.toNat)
  let c ← low64 (r4 >>> 51)
  let r4 := r4 &&& mask
  let t ← mul64 19 c
  let r0 ← u128 (r0 + t.toNat)
  let c ← low64 (r0 >>> 51)
  let r0 := r0 &&& mask
  let r1 ← u128 (r1 + c.toNat)
  return ⟨← low64 r0, ← low64 r1, ← low64 r2, ← low64 r3, ← low64 r4⟩

def feMul (f g : Fe) : Marked Fe := do
  let f0 := f.h0.toNat
  let f1 := f.h1.toNat
  let f2 := f.h2.toNat
  let f3 := f.h3.toNat
  let f4 := f.h4.toNat
  let g0 := g.h0.toNat
  let g1 := g.h1.toNat
  let g2 := g.h2.toNat
  let g3 := g.h3.toNat
  let g4 := g.h4.toNat
  -- 2²⁵⁵ is 19 modulo p
  let r0 ← u128 (f0 * g0 + 19 * (f1 * g4 + f2 * g3 + f3 * g2 + f4 * g1))
  let r1 ← u128 (f0 * g1 + f1 * g0 + 19 * (f2 * g4 + f3 * g3 + f4 * g2))
  let r2 ← u128 (f0 * g2 + f1 * g1 + f2 * g0 + 19 * (f3 * g4 + f4 * g3))
  let r3 ← u128 (f0 * g3 + f1 * g2 + f2 * g1 + f3 * g0 + 19 * (f4 * g4))
  let r4 ← u128 (f0 * g4 + f1 * g3 + f2 * g2 + f3 * g1 + f4 * g0)
  carryChain r0 r1 r2 r3 r4

def feSq (f : Fe) : Marked Fe := feMul f f

def feMulScalar (f : Fe) (s : UInt64) : Marked Fe := do
  let r0 ← u128 (f.h0.toNat * s.toNat)
  let r1 ← u128 (f.h1.toNat * s.toNat)
  let r2 ← u128 (f.h2.toNat * s.toNat)
  let r3 ← u128 (f.h3.toNat * s.toNat)
  let r4 ← u128 (f.h4.toNat * s.toNat)
  carryChain r0 r1 r2 r3 r4

def feSqN (f : Fe) (n : ℕ) : Marked Fe := (List.range n).foldlM (fun f _ => feSq f) f

/-- `z^(p-2)`. -/
def feInv (z : Fe) : Marked Fe := do
  let z2 ← feSq z
  let z8 ← feSqN z2 2
  let z9 ← feMul z z8
  let z11 ← feMul z2 z9
  let z22 ← feSq z11
  let z_5_0 ← feMul z9 z22
  let z_10_0 ← feMul (← feSqN z_5_0 5) z_5_0
  let z_20_0 ← feMul (← feSqN z_10_0 10) z_10_0
  let z_40_0 ← feMul (← feSqN z_20_0 20) z_20_0
  let z_50_0 ← feMul (← feSqN z_40_0 10) z_10_0
  let z_100_0 ← feMul (← feSqN z_50_0 50) z_50_0
  let z_200_0 ← feMul (← feSqN z_100_0 100) z_100_0
  let z_250_0 ← feMul (← feSqN z_200_0 50) z_50_0
  feMul (← feSqN z_250_0 5) z11

/-- One limb of `fe_cswap`; the mask is all ones or zero. -/
def cswapLimb (mask f g : UInt64) : UInt64 × UInt64 :=
  let t := mask &&& (f ^^^ g)
  (f ^^^ t, g ^^^ t)

def feCswap (f g : Fe) (swap : UInt64) : Fe × Fe :=
  let mask := 0 - swap
  let (f0, g0) := cswapLimb mask f.h0 g.h0
  let (f1, g1) := cswapLimb mask f.h1 g.h1
  let (f2, g2) := cswapLimb mask f.h2 g.h2
  let (f3, g3) := cswapLimb mask f.h3 g.h3
  let (f4, g4) := cswapLimb mask f.h4 g.h4
  (⟨f0, f1, f2, f3, f4⟩, ⟨g0, g1, g2, g3, g4⟩)

/-! ## The ladder -/

/-- The variables of the ladder. -/
structure LadderVars where
  x2 : Fe
  z2 : Fe
  x3 : Fe
  z3 : Fe
  swap : UInt64

/-- Both calls of `fe_cswap`. -/
def LadderVars.cswap (s : LadderVars) (swap : UInt64) : LadderVars :=
  let (x2, x3) := feCswap s.x2 s.x3 swap
  let (z2, z3) := feCswap s.z2 s.z3 swap
  { s with x2, x3, z2, z3 }

/-- The field arithmetic of one turn. -/
def LadderVars.advance (x1 : Fe) (s : LadderVars) : Marked LadderVars := do
  let a ← feAdd s.x2 s.z2
  let aa ← feSq a
  let b ← feSub s.x2 s.z2
  let bb ← feSq b
  let e2 ← feSub aa bb
  let c ← feAdd s.x3 s.z3
  let d ← feSub s.x3 s.z3
  let da ← feMul d a
  let cb ← feMul c b
  let daCb ← feAdd da cb
  let daCb2 ← feSub da cb
  let x3 ← feSq daCb
  let z3 ← feMul x1 (← feSq daCb2)
  let x2 ← feMul aa bb
  let z2 ← feMul e2 (← feAdd aa (← feMulScalar e2 121665))
  return { s with x2, z2, x3, z3 }

/-- One turn of the loop, for bit `t` of the scalar. -/
def ladderStep (e : Bytes) (x1 : Fe) (s : LadderVars) (t : ℕ) : Marked LadderVars := do
  let kt := ((e.getD (t / 8) 0 >>> UInt8.ofNat (t % 8)) &&& 1).toUInt64
  let s ← (s.cswap (s.swap ^^^ kt)).advance x1
  return { s with swap := kt }

/-- The scalar with its fixed bits set. -/
def clamp (privateKey : Bytes) : Bytes :=
  ((privateKey.modify 0 (· &&& 248)).modify 31 (· &&& 127)).modify 31 (· ||| 64)

/-- `x25519`: the output and the return value, which is `false` when the output is all zero. -/
def x25519 (privateKey peerPublicKey : Vector UInt8 32) : Marked (Vector UInt8 32 × Bool) := do
  let e := clamp privateKey.toList
  let x1 := feFrombytes peerPublicKey.toList
  let s ← (List.range 255).reverse.foldlM (ladderStep e x1)
    ⟨⟨1, 0, 0, 0, 0⟩, ⟨0, 0, 0, 0, 0⟩, x1, ⟨1, 0, 0, 0, 0⟩, 0⟩
  let s := s.cswap s.swap
  let out ← feTobytes (← feMul s.x2 (← feInv s.z2))
  let acc := out.toList.foldl (· ||| ·) 0
  return (out, acc != 0)

/-- `x25519_generate`, behind the generator: private and public key. -/
def x25519Generate (privateKey : Vector UInt8 32) : Marked (Vector UInt8 32 × Vector UInt8 32) := do
  let base := (Vector.replicate 32 0).set 0 9
  let (publicKey, _) ← x25519 privateKey base
  return (privateKey, publicKey)

end Crypto
end Damen
