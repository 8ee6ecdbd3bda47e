import Mathlib.Data.Nat.Digits.Lemmas
import Mathlib.Data.ZMod.Basic

/-!
# The X25519 function

RFC 7748, section 5, with exact arithmetic modulo `p = 2 ^ 255 - 19`: decoding of scalar and
coordinate, the Montgomery ladder with its conditional swaps, the final division by a power, and the
encoding.

The ladder is over any commutative ring; nothing here needs `p` to be prime.
-/

namespace Rfc7748

def p : ℕ := 2 ^ 255 - 19

def a24 : ℕ := 121665

/-! ## Bytes -/

def decodeLittleEndian (b : List UInt8) : ℕ := Nat.ofDigits 256 (b.map UInt8.toNat)

/-- The coordinate without its unused topmost bit.  It need not be below `p`. -/
def decodeUCoordinate (u : List UInt8) : ℕ := decodeLittleEndian (u.modify 31 (· &&& 127))

def clampScalar (k : List UInt8) : List UInt8 :=
  ((k.modify 0 (· &&& 248)).modify 31 (· &&& 127)).modify 31 (· ||| 64)

def decodeScalar25519 (k : List UInt8) : ℕ := decodeLittleEndian (clampScalar k)

def encodeUCoordinate (u : ℕ) : List UInt8 :=
  (List.range 32).map fun i => UInt8.ofNat (u >>> (8 * i))

/-! ## The ladder -/

section Ladder

variable {F : Type} [CommRing F]

structure Ladder (F : Type) where
  x2 : F
  z2 : F
  x3 : F
  z3 : F
  swap : Bool

def cswap (swap : Bool) (x y : F) : F × F := if swap then (y, x) else (x, y)

/-- Both pairs, swapped or not. -/
def Ladder.cswap (s : Ladder F) (swap : Bool) : Ladder F :=
  { s with
    x2 := (Rfc7748.cswap swap s.x2 s.x3).1
    x3 := (Rfc7748.cswap swap s.x2 s.x3).2
    z2 := (Rfc7748.cswap swap s.z2 s.z3).1
    z3 := (Rfc7748.cswap swap s.z2 s.z3).2 }

/-- The arithmetic of one step. -/
def Ladder.advance (x1 : F) (s : Ladder F) : Ladder F :=
  let a := s.x2 + s.z2
  let aa := a ^ 2
  let b := s.x2 - s.z2
  let bb := b ^ 2
  let e := aa - bb
  let c := s.x3 + s.z3
  let d := s.x3 - s.z3
  let da := d * a
  let cb := c * b
  { s with
    x3 := (da + cb) ^ 2
    z3 := x1 * (da - cb) ^ 2
    x2 := aa * bb
    z2 := e * (aa + a24 * e) }

/-- The step for one bit of the scalar. -/
def Ladder.step (x1 : F) (s : Ladder F) (kt : Bool) : Ladder F :=
  { (s.cswap (s.swap ^^ kt)).advance x1 with swap := kt }

/-- The bits from the 254th down. -/
def ladder (k : ℕ) (x1 : F) : Ladder F :=
  let s := (List.range 255).reverse.foldl (fun s t => Ladder.step x1 s (k.testBit t))
    ⟨1, 0, x1, 1, false⟩
  s.cswap s.swap

end Ladder

/-- The X25519 function. -/
def x25519 (k u : List UInt8) : List UInt8 :=
  let s := ladder (decodeScalar25519 k) (decodeUCoordinate u : ZMod p)
  encodeUCoordinate (s.x2 * s.z2 ^ (p - 2)).val

end Rfc7748
