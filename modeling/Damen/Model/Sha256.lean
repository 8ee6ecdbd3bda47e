import Damen.Model.Gcm

/-!
# SHA-256

The first part of `tight/src/crypto.cpp`: the streaming context with its buffer of one block, and
the functions over it, HMAC and the key derivation.  The constructor leaves the buffer
uninitialised, so a context is made from whatever bytes are there (`Sha256Ctx.init`).

`update` and the padding of `finish` are loops; `updateLoop` is bounded by the length of the data
and `padLoop` by the size of the buffer.
-/

namespace Damen
namespace Crypto

def kSha256K : Vector UInt32 64 :=
  #v[0x428a2f98, 0x71374491, 0xb5c0fbcf, 0xe9b5dba5, 0x3956c25b, 0x59f111f1,
    0x923f82a4, 0xab1c5ed5, 0xd807aa98, 0x12835b01, 0x243185be, 0x550c7dc3,
    0x72be5d74, 0x80deb1fe, 0x9bdc06a7, 0xc19bf174, 0xe49b69c1, 0xefbe4786,
    0x0fc19dc6, 0x240ca1cc, 0x2de92c6f, 0x4a7484aa, 0x5cb0a9dc, 0x76f988da,
    0x983e5152, 0xa831c66d, 0xb00327c8, 0xbf597fc7, 0xc6e00bf3, 0xd5a79147,
    0x06ca6351, 0x14292967, 0x27b70a85, 0x2e1b2138, 0x4d2c6dfc, 0x53380d13,
    0x650a7354, 0x766a0abb, 0x81c2c92e, 0x92722c85, 0xa2bfe8a1, 0xa81a664b,
    0xc24b8b70, 0xc76c51a3, 0xd192e819, 0xd6990624, 0xf40e3585, 0x106aa070,
    0x19a4c116, 0x1e376c08, 0x2748774c, 0x34b0bcb5, 0x391c0cb3, 0x4ed8aa4a,
    0x5b9cca4f, 0x682e6ff3, 0x748f82ee, 0x78a5636f, 0x84c87814, 0x8cc70208,
    0x90befffa, 0xa4506ceb, 0xbef9a3f7, 0xc67178f2]

def rotr32 (x n : UInt32) : UInt32 := (x >>> n) ||| (x <<< (32 - n))

/-! ## The compression function -/

/-- `w[i]` for `i ≥ 16`, from the words before it. -/
def scheduleWord (w : List UInt32) (i : ℕ) : UInt32 :=
  let w₁₅ := w.getD (i - 15) 0
  let w₂ := w.getD (i - 2) 0
  let s0 := rotr32 w₁₅ 7 ^^^ rotr32 w₁₅ 18 ^^^ (w₁₅ >>> 3)
  let s1 := rotr32 w₂ 17 ^^^ rotr32 w₂ 19 ^^^ (w₂ >>> 10)
  w.getD (i - 16) 0 + s0 + w.getD (i - 7) 0 + s1

/-- The two loops that fill `w[64]`. -/
def messageSchedule (block : Vector UInt8 64) : List UInt32 :=
  let w := (List.range 16).map fun i =>
    wordOf (block.getD (i * 4) 0) (block.getD (i * 4 + 1) 0) (block.getD (i * 4 + 2) 0)
      (block.getD (i * 4 + 3) 0)
  (List.range' 16 48).foldl (fun w i => w ++ [scheduleWord w i]) w

/-- The local variables `a` to `hh`. -/
structure Working where
  a : UInt32
  b : UInt32
  c : UInt32
  d : UInt32
  e : UInt32
  f : UInt32
  g : UInt32
  hh : UInt32

def compressRound (w : List UInt32) (v : Working) (i : ℕ) : Working :=
  let s1 := rotr32 v.e 6 ^^^ rotr32 v.e 11 ^^^ rotr32 v.e 25
  let ch := (v.e &&& v.f) ^^^ (~~~v.e &&& v.g)
  let t1 := v.hh + s1 + ch + kSha256K.getD i 0 + w.getD i 0
  let s0 := rotr32 v.a 2 ^^^ rotr32 v.a 13 ^^^ rotr32 v.a 22
  let maj := (v.a &&& v.b) ^^^ (v.a &&& v.c) ^^^ (v.b &&& v.c)
  let t2 := s0 + maj
  ⟨t1 + t2, v.a, v.b, v.c, v.d + t1, v.e, v.f, v.g⟩

/-- `Sha256Ctx::compress`: the new `h`. -/
def compress (h : Vector UInt32 8) (block : Vector UInt8 64) : Vector UInt32 8 :=
  let v := (List.range 64).foldl (compressRound (messageSchedule block))
    ⟨h[0], h[1], h[2], h[3], h[4], h[5], h[6], h[7]⟩
  #v[h[0] + v.a, h[1] + v.b, h[2] + v.c, h[3] + v.d, h[4] + v.e, h[5] + v.f,
    h[6] + v.g, h[7] + v.hh]

/-! ## The context -/

/-- Between calls the buffer is never full. -/
structure Sha256Ctx where
  h : Vector UInt32 8
  buf : Vector UInt8 64
  bufLen : ℕ
  totalLen : UInt64
  bufLen_lt : bufLen < 64

/-- The constructor, with the bytes that lie in the buffer. -/
def Sha256Ctx.init (buf : Vector UInt8 64) : Sha256Ctx where
  h :=
    #v[0x6a09e667, 0xbb67ae85, 0x3c6ef372, 0xa54ff53a, 0x510e527f, 0x9b05688c,
    0x1f83d9ab, 0x5be0cd19]
  buf
  bufLen := 0
  totalLen := 0
  bufLen_lt := by decide

/-- `memcpy(buf + pos, data, data.size())`. -/
def copyInto (buf : Vector UInt8 64) (pos : ℕ) (data : Bytes) : Vector UInt8 64 :=
  Vector.ofFn fun i => if pos ≤ i ∧ i < pos + data.length then data.getD (i - pos) 0 else buf[i]

/-- `take`: what fits into the buffer. -/
def Sha256Ctx.takeLen (ctx : Sha256Ctx) (data : Bytes) : ℕ := min (64 - ctx.bufLen) data.length

/-- One pass of the loop of `update`. -/
def Sha256Ctx.takePiece (ctx : Sha256Ctx) (data : Bytes) : Sha256Ctx :=
  let buf := copyInto ctx.buf ctx.bufLen (data.take (ctx.takeLen data))
  if hfull : ctx.bufLen + ctx.takeLen data = 64 then
    { ctx with h := compress ctx.h buf, buf, bufLen := 0, bufLen_lt := by decide }
  else
    { ctx with
      buf
      bufLen := ctx.bufLen + ctx.takeLen data
      bufLen_lt := by
        have := ctx.bufLen_lt
        have : ctx.takeLen data ≤ 64 - ctx.bufLen := Nat.min_le_left _ _
        omega }

/-- `while (len > 0)` of `update`. -/
def Sha256Ctx.updateLoop : ℕ → Sha256Ctx → Bytes → Sha256Ctx
  | 0, ctx, _ => ctx
  | fuel + 1, ctx, data =>
      if data = [] then ctx
      else updateLoop fuel (ctx.takePiece data) (data.drop (ctx.takeLen data))

def Sha256Ctx.update (ctx : Sha256Ctx) (data : Bytes) : Sha256Ctx :=
  updateLoop data.length { ctx with totalLen := ctx.totalLen + UInt64.ofNat data.length } data

/-- `while (buf_len != 56) update(&zero, 1);`. -/
def Sha256Ctx.padLoop : ℕ → Sha256Ctx → Sha256Ctx
  | 0, ctx => ctx
  | fuel + 1, ctx => if ctx.bufLen = 56 then ctx else padLoop fuel (ctx.update [0])

/-- The eight bytes of `len_be`. -/
def lenBe (bitLen : UInt64) : Bytes :=
  (List.range 8).map fun i => ((bitLen >>> UInt64.ofNat (56 - i * 8)) &&& 0xFF).toUInt8

/-- The bytes written to `out32`. -/
def Sha256Ctx.out32 (ctx : Sha256Ctx) : Bytes :=
  ctx.h.toList.flatMap fun w => [wordByte w 0, wordByte w 1, wordByte w 2, wordByte w 3]

def Sha256Ctx.finish (ctx : Sha256Ctx) : Bytes :=
  let bitLen := ctx.totalLen * 8
  let ctx := ctx.update [0x80]
  let ctx := padLoop 64 ctx
  let ctx := ctx.update (lenBe bitLen)
  ctx.out32

/-! ## The functions over it -/

/-- A buffer of which nothing is known; zeros stand for it. -/
def scratch : Vector UInt8 64 := Vector.replicate 64 0

def sha256 (data : Bytes) : Bytes := ((Sha256Ctx.init scratch).update data).finish

/-- `k0`: the key, or its digest, in front of zeros. -/
def hmacKey (key : Bytes) : Vector UInt8 64 :=
  copyInto (Vector.replicate 64 0) 0 (if 64 < key.length then sha256 key else key)

def hmacSha256 (key msg : Bytes) : Bytes :=
  let k0 := hmacKey key
  let ipad := k0.map (· ^^^ 0x36)
  let opad := k0.map (· ^^^ 0x5C)
  let innerOut := (((Sha256Ctx.init scratch).update ipad.toList).update msg).finish
  (((Sha256Ctx.init scratch).update opad.toList).update innerOut).finish

def hkdfSha256 (ikm salt info : Bytes) : Bytes :=
  let salt := if salt = [] then List.replicate 32 0 else salt
  let prk := hmacSha256 salt ikm
  hmacSha256 prk (info ++ [0x01])

end Crypto
end Damen
