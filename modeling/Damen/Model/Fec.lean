import Damen.Model.Wire

/-!
# The Reed–Solomon erasure code

`tight/src/fec.cpp`: arithmetic in GF(2⁸) by exponent and logarithm tables, the encoder, and the
decoder that solves for the missing fragments by Gauss–Jordan elimination.

Exponents are natural numbers here; the source computes them in `int`s, and `coefInt` says when that
has a result.  `encodeIntoInt` and `decodeInt` are the entry points with those weights, and have no
result where one of them has none.  Vectors are lists.  `decode` reports `false` as `none`; it
writes the recovered fragments only after the elimination has succeeded, so on `none` the caller's
vector is the one it passed in.
-/

namespace Damen

/-! ## Field tables -/

/-- `GfTables`: powers of the generator `2` (twice over, to spare a reduction) and logarithms. -/
structure GfTables where
  exp : List UInt8
  log : List UInt8

namespace GfTables

/-- The next power of the generator, reduced by `x⁸ + x⁴ + x³ + x² + 1`. -/
def double (x : UInt16) : UInt16 :=
  let x := x <<< 1
  if x &&& 0x100 ≠ 0 then x ^^^ 0x11D else x

/-- Turn `i` of the constructor's first loop: the power, its logarithm, the next power. -/
def fillStep (s : UInt16 × GfTables) (i : ℕ) : UInt16 × GfTables :=
  (double s.1, ⟨s.2.exp.set i s.1.toUInt8, s.2.log.set s.1.toNat (UInt8.ofNat i)⟩)

/-- Turn `i` of the second loop, which repeats the powers from entry `255` on. -/
def repeatStep (t : GfTables) (i : ℕ) : GfTables :=
  ⟨t.exp.set i (t.exp.getD (i - 255) 0), t.log⟩

/-- The constructor. -/
def build : GfTables :=
  (List.range' 255 257).foldl repeatStep
    ((List.range 255).foldl fillStep (1, ⟨List.replicate 512 0, List.replicate 256 0⟩)).2

end GfTables

/-- The tables every field operation reads. -/
def gf : GfTables := GfTables.build

def gfExp (i : ℕ) : UInt8 := gf.exp.getD i 0
def gfLog (a : UInt8) : ℕ := (gf.log.getD a.toNat 0).toNat

def gfMul (a b : UInt8) : UInt8 :=
  if a = 0 ∨ b = 0 then 0 else gfExp (gfLog a + gfLog b)

def gfPow (a : UInt8) (e : ℕ) : UInt8 :=
  if e = 0 then 1 else if a = 0 then 0 else gfExp (gfLog a * e % 255)

def gfInv (a : UInt8) : UInt8 := gfExp (255 - gfLog a)

/-- The weight of data fragment `dataIndex` in parity fragment `parityIndex`. -/
def coef (parityIndex dataIndex : ℕ) : UInt8 := gfPow (UInt8.ofNat (dataIndex + 1)) parityIndex

/-- `gf_pow` with the `int`s of the source: there is no result if the product does not fit, or if it
is negative and the table would be read in front of its start. -/
def gfPowInt (a : UInt8) (e : ℤ) : Option UInt8 :=
  if e = 0 then some 1
  else if a = 0 then some 0
  else
    let product := gfLog a * e
    if product < -2 ^ 31 ∨ 2 ^ 31 ≤ product ∨ product.tmod 255 < 0 then none
    else some (gfExp (product.tmod 255).toNat)

/-- `coef` with the cast of the parity index to an `int`. -/
def coefInt (parityIndex dataIndex : ℕ) : Option UInt8 :=
  gfPowInt (UInt8.ofNat (dataIndex + 1)) ((parityIndex : ℤ).bmod (2 ^ 32))

/-- Every weight of `parityCount` parity fragments over `dataCount` data fragments has a result. -/
def CoefsInRange (dataCount parityCount : ℕ) : Prop :=
  ∀ p < parityCount, ∀ j < dataCount, (coefInt p j).isSome

instance (dataCount parityCount : ℕ) : Decidable (CoefsInRange dataCount parityCount) :=
  inferInstanceAs (Decidable (∀ p < parityCount, ∀ j < dataCount, (coefInt p j).isSome))

/-- `dst ^= c * src` on the first `width` bytes; a short `src` counts as padded with zeros. -/
def gfMulAdd (dst src : Bytes) (c : UInt8) (width : ℕ) : Bytes :=
  if c = 0 ∨ src.length = 0 then dst
  else
    let n := min dst.length (min src.length width)
    if c = 1 then
      dst.mapIdx fun i d => if i < n then d ^^^ src.getD i 0 else d
    else
      dst.mapIdx fun i d =>
        if i < n ∧ src.getD i 0 ≠ 0 then d ^^^ gfExp (gfLog c + gfLog (src.getD i 0)) else d

namespace ReedSolomon

/-! ## Encoding -/

/-- The first `width` bytes of a reused output buffer cleared, or a fresh buffer of zeros. -/
def clearBuffer (buf : Bytes) (width : ℕ) : Bytes :=
  if buf.length < width then List.replicate width 0
  else List.replicate width 0 ++ buf.drop width

/-- One parity fragment, accumulated over all data fragments. -/
def encodeRow (fragments : List Bytes) (p width : ℕ) (buf : Bytes) : Bytes :=
  (List.range fragments.length).foldl
    (fun acc j => gfMulAdd acc (fragments.getD j []) (coef p j) width) (clearBuffer buf width)

/-- `encode_into`: the first `parityCount` buffers of `out` receive the parity fragments. -/
def encodeInto (fragments : List Bytes) (parityCount width : ℕ) (out : List Bytes) : List Bytes :=
  (out ++ List.replicate (parityCount - out.length) []).mapIdx fun p buf =>
    if p < parityCount then encodeRow fragments p width buf else buf

def encode (fragments : List Bytes) (parityCount width : ℕ) : List Bytes :=
  encodeInto fragments parityCount width []

/-- `encodeRow` with the weights of the source. -/
def encodeRowInt (fragments : List Bytes) (p width : ℕ) (buf : Bytes) : Option Bytes :=
  (List.range fragments.length).foldlM
    (fun acc j => (coefInt p j).map fun c => gfMulAdd acc (fragments.getD j []) c width)
    (clearBuffer buf width)

/-- `encodeInto` with the weights of the source. -/
def encodeIntoInt (fragments : List Bytes) (parityCount width : ℕ) (out : List Bytes) :
    Option (List Bytes) :=
  (out ++ List.replicate (parityCount - out.length) []).zipIdx.mapM fun (e : Bytes × ℕ) =>
    if e.2 < parityCount then encodeRowInt fragments e.2 width e.1 else some e.1

def encodeInt (fragments : List Bytes) (parityCount width : ℕ) : Option (List Bytes) :=
  encodeIntoInt fragments parityCount width []

/-! ## Decoding -/

/-- The linear system `a · x = syn` the decoder works on. -/
structure LinearSystem where
  a : List (List UInt8)
  syn : List Bytes

/-- `std::swap(v[i], v[j])`. -/
def swapAt {α : Type} [Inhabited α] (v : List α) (i j : ℕ) : List α :=
  (v.set i (v.getD j default)).set j (v.getD i default)

/-- `b.resize(width, 0)`. -/
def resize (b : Bytes) (width : ℕ) : Bytes :=
  b.take width ++ List.replicate (width - b.length) 0

def entry (a : List (List UInt8)) (r c : ℕ) : UInt8 := (a.getD r []).getD c 0

/-- The first row from `col` on with a nonzero entry in column `col`, or `m`. -/
def findPivot (a : List (List UInt8)) (col m : ℕ) : ℕ :=
  ((List.range' col (m - col)).find? fun r => entry a r col != 0).getD m

/-- Exchanges the pivot row with row `col` and scales it to a unit pivot. -/
def normalizePivot (pivot col : ℕ) (s : LinearSystem) : LinearSystem :=
  let a := if pivot ≠ col then swapAt s.a pivot col else s.a
  let syn := if pivot ≠ col then swapAt s.syn pivot col else s.syn
  let inv := gfInv (entry a col col)
  { a := a.mapIdx fun r row =>
      if r = col then row.mapIdx fun j x => if col ≤ j then gfMul x inv else x else row
    syn := syn.mapIdx fun r b => if r = col then b.map (gfMul · inv) else b }

/-- Clears column `col` in every row but the pivot row. -/
def clearColumn (col width : ℕ) (s : LinearSystem) : LinearSystem :=
  { a := s.a.mapIdx fun r row =>
      if r = col ∨ entry s.a r col = 0 then row
      else row.mapIdx fun j x =>
        if col ≤ j then x ^^^ gfMul (entry s.a r col) (entry s.a col j) else x
    syn := s.syn.mapIdx fun r b =>
      if r = col ∨ entry s.a r col = 0 then b
      else gfMulAdd b (s.syn.getD col []) (entry s.a r col) width }

/-- One column of the elimination; `none` when the matrix is singular. -/
def eliminateColumn (m width : ℕ) (s : LinearSystem) (col : ℕ) : Option LinearSystem :=
  let pivot := findPivot s.a col m
  if pivot = m then none else some (clearColumn col width (normalizePivot pivot col s))

/-- The indices of the missing data fragments, in increasing order. -/
def missingIndices (data : List (Option Bytes)) : List ℕ :=
  (List.range data.length).filter fun i => (data.getD i none).isNone

/-- The syndrome of one parity fragment: what is left of it after the present data fragments
are taken out. -/
def syndrome (data : List (Option Bytes)) (p : ℕ × Bytes) (width : ℕ) : Bytes :=
  (List.range data.length).foldl
    (fun acc j => match data.getD j none with
      | some b => gfMulAdd acc b (coef p.1 j) width
      | none => acc)
    (resize p.2 width)

/-- The system for the missing fragments, one row for each parity fragment used. -/
def initialSystem (data : List (Option Bytes)) (parity : List (ℕ × Bytes)) (missing : List ℕ)
    (width : ℕ) : LinearSystem where
  a := (parity.take missing.length).map fun p => missing.map fun j => coef p.1 j
  syn := (parity.take missing.length).map fun p => syndrome data p width

/-- Writes the recovered fragments back to their places. -/
def backfill (data : List (Option Bytes)) (missing : List ℕ) (syn : List Bytes) :
    List (Option Bytes) :=
  (missing.zip syn).foldl (fun d e => d.set e.1 (some e.2)) data

def decode (data : List (Option Bytes)) (parity : List (ℕ × Bytes)) (width : ℕ) :
    Option (List (Option Bytes)) :=
  let missing := missingIndices data
  if missing = [] then some data
  else if parity.length < missing.length then none
  else do
    let s ← (List.range missing.length).foldlM (eliminateColumn missing.length width)
      (initialSystem data parity missing width)
    return backfill data missing s.syn

/-- `syndrome` with the weights of the source. -/
def syndromeInt (data : List (Option Bytes)) (p : ℕ × Bytes) (width : ℕ) : Option Bytes :=
  (List.range data.length).foldlM
    (fun acc j => match data.getD j none with
      | some b => (coefInt p.1 j).map fun c => gfMulAdd acc b c width
      | none => some acc)
    (resize p.2 width)

/-- `initialSystem` with the weights of the source. -/
def initialSystemInt (data : List (Option Bytes)) (parity : List (ℕ × Bytes)) (missing : List ℕ)
    (width : ℕ) : Option LinearSystem := do
  let a ← (parity.take missing.length).mapM fun p => missing.mapM fun j => coefInt p.1 j
  let syn ← (parity.take missing.length).mapM fun p => syndromeInt data p width
  return ⟨a, syn⟩

/-- `decode` with the weights of the source: the answer, and what is in `data` afterwards. -/
def decodeInt (data : List (Option Bytes)) (parity : List (ℕ × Bytes)) (width : ℕ) :
    Option (Bool × List (Option Bytes)) :=
  let missing := missingIndices data
  if missing = [] then some (true, data)
  else if parity.length < missing.length then some (false, data)
  else
    match initialSystemInt data parity missing width with
    | none => none
    | some s =>
        match (List.range missing.length).foldlM (eliminateColumn missing.length width) s with
        | none => some (false, data)
        | some s => some (true, backfill data missing s.syn)

end ReedSolomon

end Damen
