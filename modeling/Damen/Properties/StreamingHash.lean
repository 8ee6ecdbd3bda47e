import Damen.Properties.Compression

/-!
# SHA-256 in pieces

A context that has read a text holds the fold of `compress` over its full blocks, the rest of it in
the buffer, and its length (`Sha256Ctx.HasRead`).  `update` keeps that (`Sha256Ctx.HasRead.update`),
however the text is cut.  The padding goes through the same `update`, so it is text like any other:
the loop of zeros ends after the least number of bytes that leaves room for the length
(`Sha256Ctx.padLoop_eq`), and the length fills the last block.

`streaming_digest` is the result; `hmacSha256_eq` and `hkdfSha256_eq` say what it gives for the
functions over the hash.
-/

namespace Damen
namespace Crypto

open BlockStream

/-! ## Reading a piece -/

lemma toList_copyInto (buf : Vector UInt8 64) {pos : ℕ} {data : Bytes}
    (hfit : pos + data.length ≤ 64) :
    (copyInto buf pos data).toList =
      buf.toList.take pos ++ data ++ buf.toList.drop (pos + data.length) := by
  have hpos : (buf.toList.take pos).length = pos := by
    rw [List.length_take, Vector.length_toList]
    omega
  have hend : (buf.toList.take pos ++ data).length = pos + data.length := by
    rw [List.length_append, hpos]
  apply List.ext_getElem
  · rw [List.length_append, hend, List.length_drop, Vector.length_toList, Vector.length_toList]
    omega
  · intro i hi _
    rw [Vector.length_toList] at hi
    simp only [copyInto, Vector.toList_ofFn, List.getElem_ofFn]
    rcases lt_or_ge i (pos + data.length) with hlt | hge
    · rw [List.getElem_append_left (by omega)]
      rcases lt_or_ge i pos with hbefore | hin
      · rw [if_neg (by omega), List.getElem_append_left (by omega), List.getElem_take,
          Vector.getElem_toList]
        rfl
      · rw [if_pos (by omega), List.getElem_append_right (by omega),
          List.getD_eq_getElem _ _ (by omega)]
        simp only [hpos]
    · rw [if_neg (by omega), List.getElem_append_right (by omega), List.getElem_drop,
        Vector.getElem_toList]
      simp only [hend, Nat.add_sub_of_le hge]
      rfl

namespace Sha256Ctx

variable {ctx : Sha256Ctx} {s : Fips180.Words} {m data : Bytes}

/-- The bytes in the buffer that wait for a full block. -/
def pending (ctx : Sha256Ctx) : Bytes := ctx.buf.toList.take ctx.bufLen

lemma length_pending (ctx : Sha256Ctx) : ctx.pending.length = ctx.bufLen := by
  have hlt := ctx.bufLen_lt
  rw [pending, List.length_take, Vector.length_toList]
  omega

@[simp] lemma totalLen_takePiece : (ctx.takePiece data).totalLen = ctx.totalLen := by
  rw [takePiece]
  split <;> rfl

lemma length_take_takeLen : (data.take (ctx.takeLen data)).length = ctx.takeLen data := by
  rw [List.length_take, takeLen]
  omega

lemma takePiece_absorbed (h : Absorbed 64 Fips180.compress s m (words ctx.h) ctx.pending)
    (data : Bytes) :
    Absorbed 64 Fips180.compress s (m ++ data.take (ctx.takeLen data))
      (words (ctx.takePiece data).h)
      (ctx.takePiece data).pending := by
  have hfit : ctx.bufLen + (data.take (ctx.takeLen data)).length ≤ 64 := by
    have hlt := ctx.bufLen_lt
    rw [length_take_takeLen, takeLen]
    omega
  have hcopied : (copyInto ctx.buf ctx.bufLen (data.take (ctx.takeLen data))).toList.take
      (ctx.bufLen + ctx.takeLen data) = ctx.pending ++ data.take (ctx.takeLen data) := by
    rw [toList_copyInto ctx.buf hfit]
    exact List.take_left'
      (by rw [List.length_append, ← pending, length_pending, length_take_takeLen])
  have hread := h.append (data.take (ctx.takeLen data))
  rw [← hcopied] at hread
  rw [takePiece]
  split
  · next hfull =>
    have hbuf : ∀ buf : Vector UInt8 64, buf.toList.take 64 = buf.toList := by
      intro buf
      exact List.take_of_length_le (Vector.length_toList ..).le
    rw [hfull, hbuf] at hread
    rw [words_compress]
    exact hread.fold (Vector.length_toList ..)
  · exact hread

lemma updateLoop_absorbed {fuel : ℕ} (hfuel : data.length ≤ fuel)
    (h : Absorbed 64 Fips180.compress s m (words ctx.h) ctx.pending) :
    Absorbed 64 Fips180.compress s (m ++ data) (words (updateLoop fuel ctx data).h)
      (updateLoop fuel ctx data).pending := by
  induction fuel generalizing ctx data m with
  | zero =>
      obtain rfl := List.eq_nil_of_length_eq_zero (Nat.le_zero.mp hfuel)
      rw [List.append_nil]
      exact h
  | succ fuel ih =>
      rw [updateLoop]
      split_ifs with hnil
      · rw [hnil, List.append_nil]
        exact h
      · have hpos := List.length_pos_iff.mpr hnil
        have hlt := ctx.bufLen_lt
        have hrest : (data.drop (ctx.takeLen data)).length ≤ fuel := by
          rw [List.length_drop, takeLen]
          omega
        have hread := ih hrest (takePiece_absorbed h data)
        rwa [List.append_assoc, List.take_append_drop] at hread

lemma totalLen_updateLoop (fuel : ℕ) (ctx : Sha256Ctx) (data : Bytes) :
    (updateLoop fuel ctx data).totalLen = ctx.totalLen := by
  induction fuel generalizing ctx data with
  | zero => rfl
  | succ fuel ih =>
      rw [updateLoop]
      split_ifs
      · rfl
      · rw [ih, totalLen_takePiece]

/-- The text `m` has gone into the context. -/
structure HasRead (ctx : Sha256Ctx) (m : Bytes) : Prop where
  absorbed : Absorbed 64 Fips180.compress Fips180.initial m (words ctx.h) ctx.pending
  totalLen : ctx.totalLen = UInt64.ofNat m.length

lemma hasRead_init (buf : Vector UInt8 64) : (init buf).HasRead [] where
  absorbed := by
    rw [words_init]
    exact Absorbed.nil
  totalLen := rfl

lemma HasRead.update (h : ctx.HasRead m) (data : Bytes) :
    (ctx.update data).HasRead (m ++ data) where
  absorbed := updateLoop_absorbed le_rfl h.absorbed
  totalLen := by
    rw [Sha256Ctx.update, totalLen_updateLoop, h.totalLen, List.length_append, UInt64.ofNat_add]

/-- However the text is cut. -/
lemma HasRead.foldl_update (h : ctx.HasRead m) (pieces : List Bytes) :
    (pieces.foldl Sha256Ctx.update ctx).HasRead (m ++ pieces.flatten) := by
  induction pieces generalizing ctx m with
  | nil =>
      rw [List.flatten_nil, List.append_nil]
      exact h
  | cons piece pieces ih =>
      rw [List.foldl_cons, List.flatten_cons, ← List.append_assoc]
      exact ih (h.update piece)

/-! ## Padding -/

/-- The fill of the buffer after a piece, in whatever state the context is. -/
lemma bufLen_update (ctx : Sha256Ctx) (data : Bytes) :
    (ctx.update data).bufLen = (ctx.bufLen + data.length) % 64 := by
  have hstart : Absorbed 64 Fips180.compress (words ctx.h) ctx.pending (words ctx.h) ctx.pending :=
    Absorbed.nil.append ctx.pending
  have hread : Absorbed 64 Fips180.compress (words ctx.h) (ctx.pending ++ data)
      (words (ctx.update data).h) (ctx.update data).pending :=
    updateLoop_absorbed le_rfl hstart
  have hmod := hread.length_mod
  rw [List.length_append, length_pending, length_pending] at hmod
  exact (Nat.mod_eq_of_lt (ctx.update data).bufLen_lt).symm.trans hmod.symm

lemma bufLen_iterate (ctx : Sha256Ctx) (k : ℕ) :
    ((update · [0])^[k] ctx).bufLen = (ctx.bufLen + k) % 64 := by
  induction k with
  | zero => exact (Nat.mod_eq_of_lt ctx.bufLen_lt).symm
  | succ k ih =>
      rw [Function.iterate_succ_apply', bufLen_update, ih, List.length_singleton]
      omega

/-- The zero bytes that bring the fill of the buffer to 56. -/
def zerosNeeded (ctx : Sha256Ctx) : ℕ := (120 - ctx.bufLen) % 64

lemma padLoop_eq {fuel : ℕ} (hfuel : ctx.zerosNeeded ≤ fuel) :
    padLoop fuel ctx = (update · [0])^[ctx.zerosNeeded] ctx := by
  have hlt := ctx.bufLen_lt
  induction fuel generalizing ctx with
  | zero =>
      rw [Nat.le_zero.mp hfuel]
      rfl
  | succ fuel ih =>
      rw [padLoop]
      split_ifs with hfull
      · rw [zerosNeeded, hfull]
        rfl
      · have hnext : (ctx.update [0]).zerosNeeded + 1 = ctx.zerosNeeded := by
          rw [zerosNeeded, zerosNeeded, bufLen_update, List.length_singleton]
          omega
        rw [← hnext, Function.iterate_succ_apply]
        exact ih (by omega) (ctx.update [0]).bufLen_lt

lemma zerosNeeded_lt (ctx : Sha256Ctx) : ctx.zerosNeeded < 64 := Nat.mod_lt _ (by decide)

lemma bufLen_padLoop (ctx : Sha256Ctx) : (padLoop 64 ctx).bufLen = 56 := by
  have hlt := ctx.bufLen_lt
  rw [padLoop_eq ctx.zerosNeeded_lt.le, bufLen_iterate, zerosNeeded]
  omega

lemma HasRead.iterate (h : ctx.HasRead m) (k : ℕ) :
    ((Sha256Ctx.update · [0])^[k] ctx).HasRead (m ++ List.replicate k 0) := by
  induction k with
  | zero =>
      rw [List.replicate_zero, List.append_nil]
      exact h
  | succ k ih =>
      rw [Function.iterate_succ_apply', List.replicate_succ', ← List.append_assoc]
      exact ih.update [0]

lemma lenBe_eq (bitLen : UInt64) : lenBe bitLen = BigEndian.encode 8 bitLen.toNat :=
  lenBytes_eq bitLen

lemma out32_eq (ctx : Sha256Ctx) : ctx.out32 = (words ctx.h).toBytes := by
  have hlist : ctx.h.toList = (List.finRange 8).map ctx.h.get :=
    List.ext_getElem (by simp) fun i _ _ => by simp [Vector.get]
  simp only [out32, wordBytes_eq, hlist]
  rfl

/-- The digest of the text a context has read. -/
lemma HasRead.finish (h : ctx.HasRead m) (hm : m.length < 2 ^ 61) :
    ctx.finish = Fips180.sha256 m := by
  have hfill : (ctx.update [0x80]).bufLen = (m.length + 1) % 64 := by
    have hmod := h.absorbed.length_mod
    rw [bufLen_update, ← length_pending, List.length_singleton, Nat.add_mod, ← hmod, ← Nat.add_mod]
  have hzeros : (ctx.update [0x80]).zerosNeeded = Fips180.zeroBytes m.length := by
    rw [Fips180.zeroBytes_eq (Nat.mod_lt _ (by decide))]
    rw [zerosNeeded, hfill]
    omega
  have hlen : lenBe (ctx.totalLen * 8) = BigEndian.encode 8 (8 * m.length) := by
    rw [lenBe_eq, h.totalLen, UInt64.toNat_mul, UInt64.toNat_ofNat_of_lt' (hm.trans (by decide)),
      Nat.mul_comm, Nat.mod_eq_of_lt]
    · rfl
    · change 8 * m.length < 2 ^ 64
      omega
  have hread := ((h.update [0x80]).iterate (ctx.update [0x80]).zerosNeeded).update
    (lenBe (ctx.totalLen * 8))
  rw [← padLoop_eq (ctx.update [0x80]).zerosNeeded_lt.le, hzeros, hlen] at hread
  -- The length is what the last block lacks, so nothing waits in the buffer.
  have hnone :
      ((padLoop 64 (ctx.update [0x80])).update (BigEndian.encode 8 (8 * m.length))).pending =
      [] := by
    apply List.eq_nil_of_length_eq_zero
    rw [length_pending, bufLen_update, bufLen_padLoop, BigEndian.length_encode]
  have habsorbed := hread.absorbed
  rw [hnone] at habsorbed
  rw [Sha256Ctx.finish, hlen, out32_eq, habsorbed.eq_foldl (by decide), Fips180.sha256, Fips180.pad]

end Sha256Ctx

/-- Whatever lies in the buffer at first and however a text of fewer than `2 ^ 61` bytes is cut, the
digest is that of the standard.  The padding loop ends in every state of the context. -/
theorem streaming_digest :
    (∀ (buf : Vector UInt8 64) (pieces : List Bytes), pieces.flatten.length < 2 ^ 61 →
      (pieces.foldl Sha256Ctx.update (Sha256Ctx.init buf)).finish = Fips180.sha256 pieces.flatten) ∧
    ∀ ctx : Sha256Ctx, ∃ n < 64,
      Sha256Ctx.padLoop 64 ctx = (Sha256Ctx.update · [0])^[n] ctx ∧
      ((Sha256Ctx.update · [0])^[n] ctx).bufLen = 56 ∧
      ∀ k < n, ((Sha256Ctx.update · [0])^[k] ctx).bufLen ≠ 56 := by
  constructor
  · intro buf pieces hlen
    exact ((Sha256Ctx.hasRead_init buf).foldl_update pieces).finish hlen
  · intro ctx
    have hlt := ctx.bufLen_lt
    refine ⟨ctx.zerosNeeded, ctx.zerosNeeded_lt, Sha256Ctx.padLoop_eq ctx.zerosNeeded_lt.le, ?_, ?_⟩
    · rw [← Sha256Ctx.padLoop_eq ctx.zerosNeeded_lt.le, Sha256Ctx.bufLen_padLoop]
    · intro k hk
      rw [Sha256Ctx.zerosNeeded] at hk
      rw [Sha256Ctx.bufLen_iterate]
      omega

theorem streaming_digest_abc :
    ([[97], [], [98, 99]].foldl Sha256Ctx.update (Sha256Ctx.init scratch)).finish =
      Fips180.sha256 [97, 98, 99] :=
  streaming_digest.1 scratch [[97], [], [98, 99]] (by decide)

/-! ## The functions over the hash -/

lemma sha256_eq {data : Bytes} (hlen : data.length < 2 ^ 61) : sha256 data = Fips180.sha256 data :=
  ((Sha256Ctx.hasRead_init scratch).update data).finish hlen

lemma toList_hmacKey {key : Bytes} (hlen : key.length < 2 ^ 61) :
    (hmacKey key).toList = Fips180.hmacBlock key := by
  rw [hmacKey, Fips180.hmacBlock, sha256_eq hlen]
  have hfit : (if 64 < key.length then Fips180.sha256 key else key).length ≤ 64 := by
    split
    · rw [Fips180.length_sha256]
      decide
    · omega
  rw [toList_copyInto _ (by omega), List.take_zero, List.nil_append, Vector.toList_replicate,
    List.drop_replicate, Nat.zero_add]

/-- Two pieces go into each of the two digests. -/
theorem hmacSha256_eq {key msg : Bytes} (hkey : key.length < 2 ^ 61)
    (hmsg : 64 + msg.length < 2 ^ 61) :
    hmacSha256 key msg = Fips180.hmac key msg := by
  have hpair : ∀ (k : Vector UInt8 64) (m : Bytes), 64 + m.length < 2 ^ 61 →
      (((Sha256Ctx.init scratch).update k.toList).update m).finish =
        Fips180.sha256 (k.toList ++ m) := by
    intro k m hm
    refine (((Sha256Ctx.hasRead_init scratch).update k.toList).update m).finish ?_
    rw [List.nil_append, List.length_append, Vector.length_toList]
    exact hm
  rw [hmacSha256, hpair _ _ hmsg, hpair _ _ (by rw [Fips180.length_sha256]; decide),
    Vector.toList_map, Vector.toList_map, toList_hmacKey hkey]
  rfl

theorem hkdfSha256_eq {ikm salt info : Bytes} (hikm : 64 + ikm.length < 2 ^ 61)
    (hsalt : salt.length < 2 ^ 61) (hinfo : 64 + info.length + 1 < 2 ^ 61) :
    hkdfSha256 ikm salt info = Fips180.hkdf ikm salt info := by
  have hsalt' : (if salt = [] then List.replicate 32 0 else salt).length < 2 ^ 61 := by
    split
    · rw [List.length_replicate]
      decide
    · exact hsalt
  rw [hkdfSha256, hmacSha256_eq hsalt' hikm, hmacSha256_eq, Fips180.hkdf]
  · rw [Fips180.hmac, Fips180.length_sha256]
    decide
  · rw [List.length_append, List.length_singleton]
    exact hinfo

end Crypto
end Damen
