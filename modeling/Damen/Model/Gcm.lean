import Damen.Model.Session

/-!
# AES-256-GCM

The last third of `tight/src/crypto.cpp`: the block cipher with its run-time S-box, GHASH, and the
two functions the transport calls.  A buffer of 16 bytes is a `Block`, so its length is part of its
type; texts of any length are byte lists, and the loops over them are bounded by their length.

`CryptoSuite.ofGcm` is the suite with these functions; the key exchange stays a parameter.
-/

namespace Damen
namespace Crypto

/-- `std::uint8_t[16]`. -/
abbrev Block := Vector UInt8 16

/-- `for (i < 16) out[i] = a[i] ^ b[i]`. -/
def xorBlock (a b : Block) : Block := Vector.zipWith (· ^^^ ·) a b

/-! ## The block cipher -/

/-- `while (b)` of `aes_mul`: the factor loses a bit in every round. -/
def aesMulLoop : ℕ → UInt8 → UInt8 → UInt8 → UInt8
  | 0, _, _, r => r
  | fuel + 1, a, b, r =>
      if b = 0 then r
      else
        aesMulLoop fuel ((a <<< 1) ^^^ (if a &&& 0x80 ≠ 0 then 0x1B else 0)) (b >>> 1)
          (if b &&& 1 ≠ 0 then r ^^^ a else r)

def aesMul (a b : UInt8) : UInt8 := aesMulLoop 8 a b 0

/-- `while (e)` of `aes_inv`, square and multiply. -/
def aesInvLoop : ℕ → UInt8 → UInt8 → ℕ → UInt8
  | 0, result, _, _ => result
  | fuel + 1, result, base, e =>
      if e = 0 then result
      else aesInvLoop fuel (if e % 2 = 1 then aesMul result base else result)
        (aesMul base base) (e / 2)

/-- The inverse `a ^ 254`, zero for zero. -/
def aesInv (a : UInt8) : UInt8 := if a = 0 then 0 else aesInvLoop 8 1 a 254

def rotl (y : UInt8) (n : UInt8) : UInt8 := (y <<< n) ||| (y >>> (8 - n))

/-- `AesTables::sbox`. -/
def sbox (x : UInt8) : UInt8 :=
  let y := aesInv x
  0x63 ^^^ y ^^^ rotl y 1 ^^^ rotl y 2 ^^^ rotl y 3 ^^^ rotl y 4

/-- Byte `i` of a word, from the most significant one. -/
def wordByte (w : UInt32) (i : ℕ) : UInt8 := ((w >>> UInt32.ofNat (24 - 8 * i)) &&& 0xFF).toUInt8

/-- Four bytes as a word, the first one most significant. -/
def wordOf (b₀ b₁ b₂ b₃ : UInt8) : UInt32 :=
  (b₀.toUInt32 <<< 24) ||| (b₁.toUInt32 <<< 16) ||| (b₂.toUInt32 <<< 8) ||| b₃.toUInt32

/-- One round of the key schedule: the words so far and the round constant. -/
def expandRound (s : List UInt32 × UInt32) (i : ℕ) : List UInt32 × UInt32 :=
  let (w, rcon) := s
  let t := w.getD (i - 1) 0
  let (t, rcon) :=
    if i % 8 = 0 then
      (wordOf (sbox (wordByte t 1)) (sbox (wordByte t 2)) (sbox (wordByte t 3))
        (sbox (wordByte t 0))
        ^^^ rcon, (aesMul (rcon >>> 24).toUInt8 2).toUInt32 <<< 24)
    else if i % 8 = 4 then
      (wordOf (sbox (wordByte t 0)) (sbox (wordByte t 1)) (sbox (wordByte t 2))
        (sbox (wordByte t 3)), rcon)
    else (t, rcon)
  (w ++ [w.getD (i - 8) 0 ^^^ t], rcon)

/-- The 60 words of the key schedule. -/
def expandKey (key : Bytes) : List UInt32 :=
  let w := (List.range 8).map fun i =>
    wordOf (key.getD (i * 4) 0) (key.getD (i * 4 + 1) 0) (key.getD (i * 4 + 2) 0)
      (key.getD (i * 4 + 3) 0)
  ((List.range' 8 52).foldl expandRound (w, 0x01000000)).1

/-- `rk[round]`. -/
def roundKey (w : List UInt32) (round : ℕ) : Block :=
  Vector.ofFn fun i => wordByte (w.getD (round * 4 + i / 4) 0) (i % 4)

/-- `sub_shift`: the S-box and the rotation of the rows; the state is stored by columns. -/
def subShift (s : Block) : Block :=
  #v[s[0], s[5], s[10], s[15], s[4], s[9], s[14], s[3], s[8], s[13], s[2], s[7], s[12], s[1], s[6],
    s[11]].map sbox

/-- Row `r` of the mixed column `a₀ a₁ a₂ a₃`. -/
def mixRow (a₀ a₁ a₂ a₃ : UInt8) : ℕ → UInt8
  | 0 => aesMul a₀ 2 ^^^ aesMul a₁ 3 ^^^ a₂ ^^^ a₃
  | 1 => a₀ ^^^ aesMul a₁ 2 ^^^ aesMul a₂ 3 ^^^ a₃
  | 2 => a₀ ^^^ a₁ ^^^ aesMul a₂ 2 ^^^ aesMul a₃ 3
  | _ => aesMul a₀ 3 ^^^ a₁ ^^^ a₂ ^^^ aesMul a₃ 2

def mixColumns (s : Block) : Block :=
  Vector.ofFn fun i =>
    let c := i / 4 * 4
    mixRow (s.getD c 0) (s.getD (c + 1) 0) (s.getD (c + 2) 0) (s.getD (c + 3) 0) (i % 4)

/-- `Aes256::encrypt_block` with the words of the key schedule. -/
def encryptBlock (w : List UInt32) (block : Block) : Block :=
  let s := xorBlock block (roundKey w 0)
  let s := (List.range' 1 13).foldl
    (fun s round => xorBlock (mixColumns (subShift s)) (roundKey w round)) s
  xorBlock (subShift s) (roundKey w 14)

/-! ## GHASH -/

/-- `v >> 1` over the 16 bytes, reduced when the last bit falls out. -/
def shiftReduce (v : Block) : Block :=
  let lsb := v[15] &&& 1 ≠ 0
  Vector.ofFn fun j =>
    let b := if j = 0 then v[j] >>> 1 else (v[j] >>> 1) ||| (v.getD (j - 1) 0 <<< 7)
    if j = 0 ∧ lsb then b ^^^ 0xE1 else b

/-- Bit `i` of a block, from the most significant bit of the first byte. -/
def blockBit (x : Block) (i : ℕ) : Bool :=
  (x.getD (i / 8) 0 >>> UInt8.ofNat (7 - i % 8)) &&& 1 ≠ 0

def ghashMul (x y : Block) : Block :=
  ((List.range 128).foldl
    (fun (s : Block × Block) i => (if blockBit x i then xorBlock s.1 s.2 else s.1, shiftReduce s.2))
    (Vector.replicate 16 0, y)).1

/-- Up to 16 bytes in front of zeros. -/
def blockOf (data : Bytes) : Block := Vector.ofFn fun i => data.getD i 0

def ghashLoop (h : Block) : ℕ → Block → Bytes → Block
  | 0, x, _ => x
  | fuel + 1, x, data =>
      if data = [] then x
      else ghashLoop h fuel (ghashMul (xorBlock x (blockOf (data.take 16))) h) (data.drop 16)

def ghashUpdate (x h : Block) (data : Bytes) : Block := ghashLoop h data.length x data

/-- The lengths of both texts in bits, eight bytes each, most significant byte first. -/
def lenBlock (aadLen ctLen : ℕ) : Block :=
  Vector.ofFn fun i =>
    let bits := UInt64.ofNat (if i.val < 8 then aadLen else ctLen) * 8
    ((bits >>> UInt64.ofNat (56 - i % 8 * 8)) &&& 0xFF).toUInt8

def gcmComputeTag (w : List UInt32) (j0 : Block) (aad ct : Bytes) : Block :=
  let h := encryptBlock w (Vector.replicate 16 0)
  let x := ghashUpdate (Vector.replicate 16 0) h aad
  let x := ghashUpdate x h ct
  let x := ghashUpdate x h (lenBlock aad.length ct.length).toList
  xorBlock x (encryptBlock w j0)

/-! ## Counter mode -/

/-- `if (++ctr[i] != 0) break;` for the given places in turn. -/
def increment (ctr : Block) : List (Fin 16) → Block
  | [] => ctr
  | i :: rest =>
      let ctr := ctr.set i (ctr[i] + 1)
      if ctr[i] ≠ 0 then ctr else increment ctr rest

/-- The last four bytes count, most significant first. -/
def nextCounter (ctr : Block) : Block := increment ctr [15, 14, 13, 12]

def gcmCryptLoop (w : List UInt32) : ℕ → Block → Bytes → Bytes
  | 0, _, _ => []
  | fuel + 1, ctr, text =>
      if text = [] then []
      else
        let ctr := nextCounter ctr
        let ks := encryptBlock w ctr
        List.zipWith (· ^^^ ·) (text.take 16) ks.toList ++ gcmCryptLoop w fuel ctr (text.drop 16)

/-- `aes256_gcm_crypt`, for both directions. -/
def aes256GcmCrypt (w : List UInt32) (j0 : Block) (text : Bytes) : Bytes :=
  gcmCryptLoop w text.length j0 text

/-- `nonce || 0x00000001`. -/
def initialCounter (nonce : Bytes) : Block :=
  Vector.ofFn fun i => if i.val < 12 then nonce.getD i 0 else if i.val = 15 then 1 else 0

/-- Ciphertext and tag. -/
def aes256GcmEncrypt (key nonce aad plaintext : Bytes) : Bytes × Bytes :=
  let w := expandKey key
  let j0 := initialCounter nonce
  let ciphertext := aes256GcmCrypt w j0 plaintext
  (ciphertext, (gcmComputeTag w j0 aad ciphertext).toList)

/-- The comparison in constant time: the differences are collected. -/
def tagDiff (expect tag : Bytes) : UInt8 :=
  (List.range 16).foldl (fun diff i => diff ||| (expect.getD i 0 ^^^ tag.getD i 0)) 0

def aes256GcmDecrypt (key nonce aad ciphertext tag : Bytes) : Option Bytes :=
  let w := expandKey key
  let j0 := initialCounter nonce
  if tagDiff (gcmComputeTag w j0 aad ciphertext).toList tag ≠ 0 then none
  else some (aes256GcmCrypt w j0 ciphertext)

end Crypto

namespace Transport

/-- The suite with the AES-256-GCM of `crypto.cpp`. -/
def CryptoSuite.ofGcm (x25519 : Bytes → Bytes → Option Bytes)
    (hkdfSha256 : Bytes → Bytes → Bytes → Bytes) : CryptoSuite where
  x25519
  hkdfSha256
  aes256GcmEncrypt := Crypto.aes256GcmEncrypt
  aes256GcmDecrypt := Crypto.aes256GcmDecrypt

end Transport
end Damen
