import Damen.Properties.CounterMode
import Damen.Properties.Ghash
import Mathlib.Data.List.GetD

/-!
# AES-256-GCM follows SP 800-38D

Around its block cipher `aes256_gcm_encrypt` is the authenticated encryption of the standard, and
`aes256_gcm_decrypt` its inverse (`gcm_follows_standard`).  Nothing bounds the lengths: the counter
and the lengths in the last block wrap in the source as they do in the functions of the standard, so
the result covers all texts the standard admits.
-/

namespace Damen
namespace Crypto

open Sp80038D

variable {nonce : Bytes}

lemma initialCounter_eq (hnonce : nonce.length = 12) : initialCounter nonce = preCounter nonce := by
  apply Vector.ext
  intro j hj
  simp only [initialCounter, preCounter, toBlock, Vector.getElem_ofFn]
  rcases lt_or_ge j 12 with hlt | hge
  · rw [if_pos hlt, List.getD_append _ _ _ _ (by omega)]
  · rw [if_neg (by omega), List.getD_append_right _ _ _ _ (by omega), hnonce]
    interval_cases j <;> rfl

/-- The first counter block of the text. -/
lemma inc32_preCounter (hnonce : nonce.length = 12) :
    inc32 (preCounter nonce) = toBlock (nonce ++ [0, 0, 0, 2]) := by
  have hbytes : (preCounter nonce).toList = nonce ++ [0, 0, 0, 1] :=
    toList_toBlock (by rw [List.length_append, hnonce]; rfl)
  rw [inc32, hbytes, List.take_left' hnonce, List.drop_left' hnonce]
  rfl

lemma toList_gcmComputeTag (w : List UInt32) (hnonce : nonce.length = 12) (aad ct : Bytes) :
    (gcmComputeTag w (initialCounter nonce) aad ct).toList = tag (encryptBlock w) nonce aad ct := by
  rw [tag, gctr_block, ← ghashUpdate_eq_ghash, ← initialCounter_eq hnonce]
  rfl

lemma foldl_or_eq_zero_iff (f : ℕ → UInt8) (l : List ℕ) (diff : UInt8) :
    l.foldl (fun diff i => diff ||| f i) diff = 0 ↔ diff = 0 ∧ ∀ i ∈ l, f i = 0 := by
  induction l generalizing diff with
  | nil => simp
  | cons i l ih => rw [List.foldl_cons, ih, UInt8.or_eq_zero_iff, List.forall_mem_cons, and_assoc]

lemma tagDiff_self (t : Bytes) : tagDiff t t = 0 :=
  (foldl_or_eq_zero_iff _ _ _).mpr ⟨rfl, fun _ _ => UInt8.xor_self⟩

/-- Differences are only collected, so they do not cancel. -/
lemma tagDiff_eq_zero_iff {expect t : Bytes} (he : expect.length = 16) (ht : t.length = 16) :
    tagDiff expect t = 0 ↔ t = expect := by
  constructor
  · intro hdiff
    have h := ((foldl_or_eq_zero_iff _ _ _).mp hdiff).2
    apply List.ext_getElem (ht.trans he.symm)
    intro i hi hi'
    have hbyte := UInt8.xor_eq_zero_iff.mp (h i (List.mem_range.mpr (by omega)))
    rw [List.getD_eq_getElem _ _ hi', List.getD_eq_getElem _ _ hi] at hbyte
    exact hbyte.symm
  · rintro rfl
    exact tagDiff_self t

theorem gcm_follows_standard (key nonce aad : Bytes) (hnonce : nonce.length = 12) :
    (∀ plaintext, aes256GcmEncrypt key nonce aad plaintext =
      Sp80038D.encrypt (encryptBlock (expandKey key)) nonce plaintext aad) ∧
    (∀ ciphertext t, t.length = 16 →
      aes256GcmDecrypt key nonce aad ciphertext t =
        Sp80038D.decrypt (encryptBlock (expandKey key)) nonce ciphertext aad t) ∧
    (∀ ciphertext t plaintext, t.length = 16 →
      (aes256GcmDecrypt key nonce aad ciphertext t = some plaintext ↔
        Sp80038D.encrypt (encryptBlock (expandKey key)) nonce plaintext aad = (ciphertext, t))) ∧
    inc32 (preCounter nonce) = toBlock (nonce ++ [0, 0, 0, 2]) := by
  have hdecrypt : ∀ ciphertext t, t.length = 16 →
      aes256GcmDecrypt key nonce aad ciphertext t =
        Sp80038D.decrypt (encryptBlock (expandKey key)) nonce ciphertext aad t := by
    intro ciphertext t ht
    have hlen :
        (gcmComputeTag (expandKey key) (initialCounter nonce) aad ciphertext).toList.length = 16 :=
      Vector.length_toList
    simp only [aes256GcmDecrypt, ne_eq, tagDiff_eq_zero_iff hlen ht, aes256GcmCrypt_eq, ite_not]
    rw [toList_gcmComputeTag _ hnonce, initialCounter_eq hnonce]
    rfl
  refine ⟨?_, hdecrypt, ?_, inc32_preCounter hnonce⟩
  · intro plaintext
    simp only [aes256GcmEncrypt, aes256GcmCrypt_eq]
    rw [toList_gcmComputeTag _ hnonce, initialCounter_eq hnonce]
    rfl
  · intro ciphertext t plaintext ht
    rw [hdecrypt ciphertext t ht, decrypt_eq_some_iff]

theorem gcm_follows_standard_zeros :
    aes256GcmEncrypt (List.replicate 32 0) (List.replicate 12 0) [7] [1, 2, 3] =
      Sp80038D.encrypt (encryptBlock (expandKey (List.replicate 32 0))) (List.replicate 12 0)
        [1, 2, 3] [7] ∧
    (aes256GcmDecrypt (List.replicate 32 0) (List.replicate 12 0) [7] [1, 2, 3]
      (List.replicate 16 0) =
        some [4, 5, 6] ↔
      Sp80038D.encrypt (encryptBlock (expandKey (List.replicate 32 0))) (List.replicate 12 0)
        [4, 5, 6] [7] =
        ([1, 2, 3], List.replicate 16 0)) :=
  have h := gcm_follows_standard (List.replicate 32 0) (List.replicate 12 0) [7] rfl
  ⟨h.1 _, h.2.2.1 _ _ _ rfl⟩

end Crypto
end Damen
