import Damen.Properties.Elimination
import Mathlib.Algebra.BigOperators.Fin
import Mathlib.Tactic.LinearCombination

/-!
# The erasure code recovers what was lost

Parity fragment `p` carries `∑ j, (j + 1) ^ p • fragment j` (`vec_encodeRow`).  The decoder takes
the fragments that arrived out of it and is left with a linear system for the missing ones
(`solves_initialSystem`), which `Elimination` solves.

* `decode_sound`: a decoder that answers gives back the original fragments, padded to the width;
* `decode_complete`: with at most 255 data fragments and parities numbered below 3, it answers
  as soon as there are as many parities as holes;
* `decode_isSome`: whatever its input, an answer has no hole left.

The bound 255 keeps the points `j + 1` distinct and nonzero as bytes.  Larger messages have
fragments with the same point, and one in 256 has the point zero, which every parity but the first
multiplies by zero; `fec_recovers_iff` says which losses are then still recovered.

With parities numbered from 3 on it is not enough that there are as many as holes.
`fec_promise_iff` decides it by the determinant of their weights, and `fec_fails_without_parity_two`
has three of them that fail.
-/

namespace Damen
namespace ReedSolomon

open GF256

/-! ## Accumulated sums -/

lemma add_self {width : ℕ} (v : Fin width → GF256) : v + v = 0 := by
  funext i
  exact (sub_eq_add (v i) (v i)).symm.trans (sub_self (v i))

lemma length_accumulate (g : ℕ → Bytes) (c : ℕ → UInt8) (width : ℕ) (l : List ℕ) (init : Bytes) :
    (l.foldl (fun acc j => gfMulAdd acc (g j) (c j) width) init).length = init.length := by
  induction l generalizing init with
  | nil => rfl
  | cons j l ih => rw [List.foldl_cons, ih, length_gfMulAdd]

lemma vec_accumulate {width : ℕ} (g : ℕ → Bytes) (c : ℕ → UInt8) (l : List ℕ) {init : Bytes}
    (hinit : width ≤ init.length) :
    vec width (l.foldl (fun acc j => gfMulAdd acc (g j) (c j) width) init) =
      vec width init + (l.map fun j => ofByte (c j) • vec width (g j)).sum := by
  induction l generalizing init with
  | nil => simp
  | cons j l ih =>
      rw [List.foldl_cons, ih (by rwa [length_gfMulAdd]), vec_gfMulAdd _ _ hinit, List.map_cons,
        List.sum_cons, add_assoc]

lemma length_resize (b : Bytes) (width : ℕ) : (resize b width).length = width := by
  rw [resize, List.length_append, List.length_take, List.length_replicate]
  omega

lemma getD_append_replicate {α : Type} (l : List α) (k i : ℕ) (a : α) :
    (l ++ List.replicate k a).getD i a = l.getD i a := by
  rcases Nat.lt_or_ge i l.length with hi | hi
  · exact List.getD_append _ _ _ _ hi
  · rw [List.getD_append_right _ _ _ _ hi, List.getD_eq_getElem?_getD,
      List.getElem?_getD_replicate_default_eq, List.getD_eq_default _ _ hi]

lemma vec_take (width : ℕ) (b : Bytes) : vec width (b.take width) = vec width b := by
  funext i
  simp only [vec, List.getD_eq_getElem?_getD, List.getElem?_take_of_lt i.isLt]

/-- Zeros at the end do not show. -/
lemma vec_append_replicate (b : Bytes) (k width : ℕ) :
    vec width (b ++ List.replicate k 0) = vec width b := by
  funext i
  rw [vec, getD_append_replicate]
  rfl

lemma vec_resize (b : Bytes) (width : ℕ) : vec width (resize b width) = vec width b := by
  rw [resize, vec_append_replicate, vec_take]

/-- The weighted sum of the fragments that parity `p` carries. -/
def paritySum (width : ℕ) (frags : List Bytes) (p : ℕ) : Fin width → GF256 :=
  ((List.range frags.length).map fun j => ofByte (coef p j) • vec width (frags.getD j [])).sum

lemma length_clearBuffer (buf : Bytes) (width : ℕ) : width ≤ (clearBuffer buf width).length := by
  rw [clearBuffer]
  split
  · rw [List.length_replicate]
  · rw [List.length_append, List.length_replicate]
    omega

lemma vec_clearBuffer (buf : Bytes) (width : ℕ) : vec width (clearBuffer buf width) = 0 := by
  funext i
  have hbyte : (clearBuffer buf width).getD i 0 = 0 := by
    rw [clearBuffer]
    split
    · simp [List.getD_eq_getElem?_getD]
    · rw [List.getD_append _ _ _ _ (by rw [List.length_replicate]; exact i.isLt)]
      simp [List.getD_eq_getElem?_getD]
  exact congrArg ofByte hbyte

/-- A parity fragment, whatever buffer it was written to. -/
lemma vec_encodeRow (frags : List Bytes) (p width : ℕ) (buf : Bytes) :
    vec width (encodeRow frags p width buf) = paritySum width frags p := by
  rw [encodeRow, vec_accumulate _ _ _ (length_clearBuffer buf width), vec_clearBuffer, zero_add,
    paritySum]

/-- A parity fragment is accumulated in its buffer, or in an empty one if there was none. -/
lemma getD_encodeInto (frags : List Bytes) {parityCount p : ℕ} (width : ℕ) (out : List Bytes)
    (hp : p < parityCount) :
    (encodeInto frags parityCount width out).getD p [] =
      encodeRow frags p width (out.getD p []) := by
  have hlen : p < (out ++ List.replicate (parityCount - out.length) []).length := by
    rw [List.length_append, List.length_replicate]
    omega
  rw [encodeInto, getD_mapIdx _ hlen, if_pos hp, getD_append_replicate]

/-! ## The system for the missing fragments -/

lemma gfMulAdd_nil (dst : Bytes) (c : UInt8) (width : ℕ) : gfMulAdd dst [] c width = dst := by
  rw [gfMulAdd, if_pos (Or.inr List.length_nil)]

/-- A missing fragment contributes to a syndrome like an empty one. -/
lemma syndrome_eq_accumulate (data : List (Option Bytes)) (p : ℕ × Bytes) (width : ℕ) :
    syndrome data p width = (List.range data.length).foldl
      (fun acc j => gfMulAdd acc ((data.getD j none).getD []) (coef p.1 j) width)
      (resize p.2 width) := by
  unfold syndrome
  congr 1
  funext acc j
  cases data.getD j none with
  | none => exact (gfMulAdd_nil acc _ width).symm
  | some b => rfl

lemma length_syndrome (data : List (Option Bytes)) (p : ℕ × Bytes) (width : ℕ) :
    (syndrome data p width).length = width := by
  rw [syndrome_eq_accumulate, length_accumulate, length_resize]

variable {parity : List (ℕ × Bytes)} {missing : List ℕ} {frags : List Bytes}
  {data data' : List (Option Bytes)} {j : ℕ}

lemma shaped_initialSystem (data : List (Option Bytes)) (width : ℕ)
    (h : missing.length ≤ parity.length) :
    Shaped missing.length width (initialSystem data parity missing width) where
  length_a := by simp [initialSystem, h]
  length_row r hr := by simp [initialSystem, hr, Nat.lt_of_lt_of_le hr h]
  length_syn := by simp [initialSystem, h]
  length_syn_row r hr := by simp [initialSystem, hr, Nat.lt_of_lt_of_le hr h, length_syndrome]

/-- Every fragment that is present agrees with the original one. -/
def Present (width : ℕ) (frags : List Bytes) (data : List (Option Bytes)) : Prop :=
  data.length = frags.length ∧
    ∀ j b, data.getD j none = some b → vec width b = vec width (frags.getD j [])

lemma sum_map_filter {M : Type*} [AddCommMonoid M] (l : List ℕ) (q : ℕ → Bool) (f g : ℕ → M)
    (hin : ∀ j, q j = true → f j = g j) (hout : ∀ j, q j = false → f j = 0) :
    (l.map f).sum = ((l.filter q).map g).sum := by
  induction l with
  | nil => rfl
  | cons j l ih =>
      cases hq : q j with
      | true => simp [hq, ih, hin j hq]
      | false => simp [hq, ih, hout j hq]

/-- What is left of an honest parity fragment is the part of the missing fragments. -/
lemma vec_syndrome {width : ℕ} {p : ℕ × Bytes} (hdata : Present width frags data)
    (hp : vec width p.2 = paritySum width frags p.1) :
    vec width (syndrome data p width) =
      ((missingIndices data).map fun j => ofByte (coef p.1 j) • vec width (frags.getD j [])).sum
    := by
  rw [syndrome_eq_accumulate, vec_accumulate _ _ _ (length_resize p.2 width).ge, vec_resize, hp,
    paritySum, hdata.1, ← List.sum_map_add, missingIndices, hdata.1]
  refine sum_map_filter _ _ _ _ ?_ ?_
  · intro j hj
    rw [Option.isNone_iff_eq_none.mp hj]
    have hnil : vec width ((none : Option Bytes).getD []) = 0 := rfl
    rw [hnil, smul_zero, add_zero]
  · intro j hj
    obtain ⟨b, hb⟩ := Option.isSome_iff_exists.mp (Option.isNone_eq_false_iff.mp hj)
    rw [hb, Option.getD_some, hdata.2 j b hb, add_self]

/-- The missing fragments, as unknowns of the system. -/
def unknowns (width : ℕ) (frags : List Bytes) (missing : List ℕ) :
    Fin missing.length → Fin width → GF256 :=
  fun c => vec width (frags.getD (missing.get c) [])

lemma solves_initialSystem {width : ℕ} (hdata : Present width frags data)
    (hparity : ∀ p ∈ parity, vec width p.2 = paritySum width frags p.1)
    (hlen : (missingIndices data).length ≤ parity.length) :
    GaussJordan.Solves
      (toCoef _ (initialSystem data parity (missingIndices data) width))
      (toRhs _ width (initialSystem data parity (missingIndices data) width))
      (unknowns width frags (missingIndices data)) := by
  intro r
  have hr : r.val < parity.length := lt_of_lt_of_le r.isLt hlen
  have hrhs : toRhs _ width (initialSystem data parity (missingIndices data) width) r =
      vec width (syndrome data parity[r.val] width) := by
    simp [toRhs, initialSystem, hr]
  have hcoef : ∀ c, toCoef _ (initialSystem data parity (missingIndices data) width) r c =
      ofByte (coef parity[r.val].1 ((missingIndices data).get c)) := by
    intro c
    simp [toCoef, entry, initialSystem, hr]
  rw [hrhs, vec_syndrome hdata (hparity _ (List.getElem_mem hr)), ← Fin.sum_univ_fun_getElem]
  exact Finset.sum_congr rfl fun c _ => by rw [hcoef]; rfl

/-! ## Filling the holes -/

lemma length_backfill (data : List (Option Bytes)) (missing : List ℕ) (syn : List Bytes) :
    (backfill data missing syn).length = data.length := by
  unfold backfill
  generalize missing.zip syn = l
  induction l generalizing data with
  | nil => rfl
  | cons e l ih => rw [List.foldl_cons, ih, List.length_set]

lemma getD_backfill_of_notMem (syn : List Bytes) (hj : j ∉ missing) :
    (backfill data missing syn).getD j none = data.getD j none := by
  unfold backfill
  induction missing generalizing data syn with
  | nil => rfl
  | cons i missing ih =>
      obtain ⟨hne, hj⟩ := not_or.mp (mt List.mem_cons.mpr hj)
      cases syn with
      | nil => rfl
      | cons b syn =>
          rw [List.zip_cons_cons, List.foldl_cons, ih _ hj]
          simp only [List.getD_eq_getElem?_getD, List.getElem?_set_ne (Ne.symm hne)]

lemma getD_backfill_get {syn : List Bytes} (hnodup : missing.Nodup)
    (hlt : ∀ j ∈ missing, j < data.length) (hlen : syn.length = missing.length)
    (c : Fin missing.length) :
    (backfill data missing syn).getD (missing.get c) none = some (syn.getD c []) := by
  induction missing generalizing data syn with
  | nil => exact c.elim0
  | cons i missing ih =>
      obtain ⟨hi, hnodup⟩ := List.nodup_cons.mp hnodup
      cases syn with
      | nil => exact absurd hlen (by simp)
      | cons b syn =>
          have hstep : backfill data (i :: missing) (b :: syn) =
              backfill (data.set i (some b)) missing syn := rfl
          rw [hstep]
          refine Fin.cases ?_ (fun c => ?_) c
          · rw [List.get_cons_zero, getD_backfill_of_notMem syn hi, List.getD_eq_getElem?_getD,
              List.getElem?_set_self (hlt i List.mem_cons_self)]
            rfl
          · refine ih hnodup (fun j hj => ?_) (by simpa using hlen) c
            rw [List.length_set]
            exact hlt j (List.mem_cons_of_mem i hj)

lemma mem_missingIndices : j ∈ missingIndices data ↔ j < data.length ∧ data.getD j none = none := by
  rw [missingIndices, List.mem_filter, List.mem_range, Option.isNone_iff_eq_none]

lemma sorted_missingIndices (data : List (Option Bytes)) : (missingIndices data).Pairwise (· < ·) :=
  List.pairwise_lt_range.filter _

lemma nodup_missingIndices (data : List (Option Bytes)) : (missingIndices data).Nodup :=
  List.nodup_range.filter _

/-! ## The decoder -/

lemma decode_eq {width : ℕ} (hne : missingIndices data ≠ [])
    (hlen : (missingIndices data).length ≤ parity.length) :
    decode data parity width =
      (eliminateUpto (missingIndices data).length width
        (initialSystem data parity (missingIndices data) width) (missingIndices data).length).map
        fun s => backfill data (missingIndices data) s.syn := by
  unfold decode
  simp only
  rw [if_neg hne, if_neg (not_lt.mpr hlen), ← eliminateUpto]
  cases eliminateUpto _ _ _ _ <;> rfl

/-- A decoder that answers had enough parities, or nothing to do. -/
lemma decode_cases {width : ℕ} (h : decode data parity width = some data') :
    (missingIndices data = [] ∧ data' = data) ∨
      ((missingIndices data).length ≤ parity.length ∧
        ∃ s, eliminateUpto (missingIndices data).length width
          (initialSystem data parity (missingIndices data) width) (missingIndices data).length =
            some s ∧ data' = backfill data (missingIndices data) s.syn) := by
  by_cases hne : missingIndices data = []
  · left
    refine ⟨hne, ?_⟩
    unfold decode at h
    simp only [if_pos hne] at h
    exact (Option.some.inj h).symm
  · by_cases hlen : (missingIndices data).length ≤ parity.length
    · right
      rw [decode_eq hne hlen] at h
      obtain ⟨s, hs, rfl⟩ := Option.map_eq_some_iff.mp h
      exact ⟨hlen, s, hs, rfl⟩
    · unfold decode at h
      simp only [if_neg hne, if_pos (not_le.mp hlen)] at h
      exact absurd h (by simp)

/-- Whatever the input, an answer has as many fragments as were asked for and no hole. -/
theorem decode_isSome {width : ℕ} (h : decode data parity width = some data') :
    data'.length = data.length ∧ ∀ j < data.length, (data'.getD j none).isSome := by
  rcases decode_cases h with ⟨hnil, rfl⟩ | ⟨hlen, s, hs, rfl⟩
  · refine ⟨rfl, fun j hj => Option.isSome_iff_ne_none.mpr fun hnone => ?_⟩
    have hmem := mem_missingIndices.mpr ⟨hj, hnone⟩
    rw [hnil] at hmem
    exact absurd hmem List.not_mem_nil
  · refine ⟨length_backfill .., fun j hj => ?_⟩
    have hshape := (eliminateUpto_spec (shaped_initialSystem data width hlen) _ le_rfl s hs).1
    by_cases hmem : j ∈ missingIndices data
    · obtain ⟨c, rfl⟩ := List.get_of_mem hmem
      rw [getD_backfill_get (nodup_missingIndices data)
        (fun i hi => (mem_missingIndices.mp hi).1) hshape.length_syn]
      rfl
    · rw [getD_backfill_of_notMem _ hmem]
      exact Option.isSome_iff_ne_none.mpr fun hnone => hmem (mem_missingIndices.mpr ⟨hj, hnone⟩)

/-- An answer computed from honest fragments consists of the original fragments: those present
are kept, the others come back padded to the width. -/
theorem decode_sound {width : ℕ} (hdata : Present width frags data)
    (hparity : ∀ p ∈ parity, vec width p.2 = paritySum width frags p.1)
    (h : decode data parity width = some data') (hj : j < frags.length) :
    data'.getD j none =
      some ((data.getD j none).getD (resize (frags.getD j []) width)) := by
  have hj' : j < data.length := hdata.1 ▸ hj
  by_cases hmem : j ∈ missingIndices data
  · rcases decode_cases h with ⟨hnil, -⟩ | ⟨hlen, s, hs, rfl⟩
    · rw [hnil] at hmem
      exact absurd hmem List.not_mem_nil
    · obtain ⟨hshape, hx⟩ := eliminate_sound (shaped_initialSystem data width hlen)
        (solves_initialSystem hdata hparity hlen) hs
      rw [(mem_missingIndices.mp hmem).2, Option.getD_none]
      obtain ⟨c, rfl⟩ := List.get_of_mem hmem
      rw [getD_backfill_get (nodup_missingIndices data)
        (fun i hi => (mem_missingIndices.mp hi).1) hshape.length_syn]
      refine congrArg some (eq_of_vec_eq (hshape.length_syn_row c c.isLt) (length_resize ..) ?_)
      rw [vec_resize]
      exact congrFun hx c
  · have hpresent : data.getD j none ≠ none := fun h0 => hmem (mem_missingIndices.mpr ⟨hj', h0⟩)
    obtain ⟨b, hb⟩ := Option.ne_none_iff_exists'.mp hpresent
    rw [hb, Option.getD_some]
    rcases decode_cases h with ⟨-, rfl⟩ | ⟨-, s, -, rfl⟩
    · exact hb
    · rw [getD_backfill_of_notMem _ hmem, hb]

/-! ## Enough parities suffice -/

lemma sq_injective : Function.Injective fun x : GF256 => x ^ 2 := by
  intro x y hxy
  have hprod : (x - y) * (x - y) = 0 := by
    calc (x - y) * (x - y) = (x - y) * (x + y) := by rw [sub_eq_add]
      _ = x ^ 2 - y ^ 2 := by ring
      _ = 0 := sub_eq_zero.mpr hxy
  exact sub_eq_zero.mp (mul_self_eq_zero.mp hprod)

/-- The evaluation point of a data fragment. -/
def point (j : ℕ) : GF256 := ofByte (UInt8.ofNat (j + 1))

/-- Points repeat every 256 fragments. -/
lemma point_eq_iff {i : ℕ} : point i = point j ↔ i % 256 = j % 256 := by
  have hnat : ∀ k : ℕ, (UInt8.ofNat k).toNat = k % 256 := fun _ => UInt8.toNat_ofNat'
  rw [point, point, ofByte_injective.eq_iff, ← UInt8.toNat_inj, hnat, hnat]
  omega

/-- The point of every 256th fragment is zero. -/
lemma point_eq_zero_iff : point j = 0 ↔ j % 256 = 255 := by
  have hzero : (0 : GF256) = point 255 := (ofByte_eq_zero_iff.mpr rfl).symm
  rw [hzero, point_eq_iff]

/-- Up to three increasing numbers below three are in arithmetic progression. -/
lemma exists_progression {m : ℕ} {p : Fin m → ℕ} (hmono : StrictMono p) (hlt : ∀ r, p r < 3) :
    ∃ a d, (d = 1 ∨ d = 2) ∧ ∀ r, p r = a + d * r.val := by
  have hcard : m ≤ 3 := by
    have hinj : Function.Injective fun r => (⟨p r, hlt r⟩ : Fin 3) :=
      fun r s h => hmono.injective (Fin.mk.inj h)
    simpa using Fintype.card_le_of_injective _ hinj
  match m, p, hmono, hlt, hcard with
  | 0, _, _, _, _ => exact ⟨0, 1, Or.inl rfl, fun r => r.elim0⟩
  | 1, p, _, _, _ =>
      refine ⟨p 0, 1, Or.inl rfl, fun r => ?_⟩
      rw [Subsingleton.elim r 0]
      rfl
  | 2, p, hmono, hlt, _ =>
      have h01 : p 0 < p 1 := hmono (by decide)
      have h1 := hlt 1
      refine ⟨p 0, p 1 - p 0, by omega, fun r => ?_⟩
      fin_cases r
      · simp
      · simp only [Fin.mk_one, Fin.isValue]
        omega
  | 3, p, hmono, hlt, _ =>
      have h01 : p 0 < p 1 := hmono (by decide)
      have h12 : p 1 < p 2 := hmono (by decide)
      have h2 := hlt 2
      refine ⟨0, 1, Or.inl rfl, fun r => ?_⟩
      fin_cases r <;> simp <;> omega

/-- The missing fragments have different points, and if one of these is zero, the parity fragment
that does not multiply by it is among those used. -/
def Recoverable (missing rows : List ℕ) : Prop :=
  missing.Pairwise (fun i j => i % 256 ≠ j % 256) ∧ (0 ∈ rows ∨ ∀ j ∈ missing, j % 256 ≠ 255)

lemma recoverable_of_le (rows : List ℕ) (hnodup : missing.Nodup) (hlt : ∀ j ∈ missing, j < 255) :
    Recoverable missing rows := by
  refine ⟨?_, Or.inr fun j hj => ?_⟩
  · refine hnodup.imp_of_mem fun {i j} hi hj hne => ?_
    have hi := hlt i hi
    have hj := hlt j hj
    omega
  · have hj := hlt j hj
    omega

section Regularity

variable {data : List (Option Bytes)} {parity : List (ℕ × Bytes)}

lemma toCoef_initialSystem (width : ℕ) (hlen : (missingIndices data).length ≤ parity.length)
    (r c : Fin (missingIndices data).length) :
    toCoef _ (initialSystem data parity (missingIndices data) width) r c =
      point ((missingIndices data).get c) ^ (parity.get ⟨r, lt_of_lt_of_le r.isLt hlen⟩).1 := by
  have hentry : toCoef _ (initialSystem data parity (missingIndices data) width) r c =
      ofByte (coef (parity.get ⟨r, lt_of_lt_of_le r.isLt hlen⟩).1
        ((missingIndices data).get c)) := by
    simp [toCoef, entry, initialSystem, lt_of_lt_of_le r.isLt hlen]
  rw [hentry, coef_eq_pow]
  rfl

/-- The numbers of the parity fragments that are used. -/
lemma mem_rows {k : ℕ} (hlen : (missingIndices data).length ≤ parity.length) :
    k ∈ (parity.take (missingIndices data).length).map Prod.fst ↔
      ∃ r : Fin (missingIndices data).length,
        (parity.get ⟨r, lt_of_lt_of_le r.isLt hlen⟩).1 = k := by
  rw [List.mem_map]
  constructor
  · rintro ⟨p, hp, rfl⟩
    obtain ⟨i, hi, rfl⟩ := List.mem_take_iff_getElem.mp hp
    exact ⟨⟨i, lt_of_lt_of_le hi (min_le_left _ _)⟩, rfl⟩
  · rintro ⟨r, rfl⟩
    exact ⟨_, List.mem_take_iff_getElem.mpr ⟨r, by omega, rfl⟩, rfl⟩

/-- The decoder's matrix has trivial kernel for the recoverable losses, and for no others. -/
lemma regular_initialSystem_iff (width : ℕ) (hsorted : parity.Pairwise fun p q => p.1 < q.1)
    (hlt : ∀ p ∈ parity, p.1 < 3) (hlen : (missingIndices data).length ≤ parity.length) :
    GaussJordan.Regular
        (toCoef (missingIndices data).length
          (initialSystem data parity (missingIndices data) width)) ↔
      Recoverable (missingIndices data) ((parity.take (missingIndices data).length).map
        Prod.fst) := by
  have hcoef := toCoef_initialSystem width hlen
  rw [Recoverable, mem_rows hlen]
  constructor
  · intro hreg
    constructor
    · rw [List.pairwise_iff_get]
      intro c c' hlt' hmod
      refine absurd (hreg.injective_columns ?_) (ne_of_lt hlt')
      funext r
      simp only [hcoef, point_eq_iff.mpr hmod]
    · by_contra hnot
      push Not at hnot
      obtain ⟨hzero, j, hj, hmod⟩ := hnot
      obtain ⟨c, rfl⟩ := List.get_of_mem hj
      obtain ⟨r, hr⟩ := hreg.exists_ne_zero c
      rw [hcoef, point_eq_zero_iff.mpr hmod, zero_pow (hzero r)] at hr
      exact hr rfl
  · rintro ⟨hpairwise, hzero⟩
    obtain ⟨a, d, hd, hprog⟩ := exists_progression
      (p := fun r : Fin (missingIndices data).length =>
        (parity.get ⟨r, lt_of_lt_of_le r.isLt hlen⟩).1)
      (fun r s hrs => List.pairwise_iff_get.mp hsorted _ _ hrs) (fun r => hlt _ (List.get_mem _ _))
    refine GaussJordan.regular_of_pow_progression (a := a) (d := d)
      (x := fun c => point ((missingIndices data).get c)) (fun c => ?_) ?_ ?_
    · rcases hzero with ⟨r, hr⟩ | hne
      · -- the exponents start at zero
        have ha : a = 0 := by
          have hval := (hprog r).symm.trans hr
          omega
        rw [ha, pow_zero]
        exact one_ne_zero
      · exact pow_ne_zero a (mt point_eq_zero_iff.mp (hne _ (List.get_mem _ c)))
    · intro c c' h
      have hpoint : point ((missingIndices data).get c) = point ((missingIndices data).get c') := by
        rcases hd with rfl | rfl
        · simpa using h
        · exact sq_injective h
      by_contra hne
      rcases lt_or_gt_of_ne hne with hlt' | hlt'
      · exact List.pairwise_iff_get.mp hpairwise _ _ hlt' (point_eq_iff.mp hpoint)
      · exact List.pairwise_iff_get.mp hpairwise _ _ hlt' (point_eq_iff.mp hpoint).symm
    · intro r c
      rw [hcoef]
      exact congrArg _ (hprog r)

/-- The decoder answers exactly if its matrix has trivial kernel. -/
lemma decode_iff_regular (width : ℕ) (hlen : (missingIndices data).length ≤ parity.length) :
    (∃ data', decode data parity width = some data') ↔ GaussJordan.Regular
      (toCoef (missingIndices data).length
        (initialSystem data parity (missingIndices data) width)) := by
  by_cases hne : missingIndices data = []
  · refine iff_of_true ⟨data, by unfold decode; simp only [if_pos hne]⟩ fun y _ =>
      funext fun c => ?_
    exact absurd c.isLt (by simp [hne])
  · rw [← eliminate_iff (shaped_initialSystem data width hlen), decode_eq hne hlen]
    simp only [Option.map_eq_some_iff]
    constructor
    · rintro ⟨-, s, hs, -⟩
      exact ⟨s, hs⟩
    · rintro ⟨s, hs⟩
      exact ⟨_, s, hs, rfl⟩

/-- The decoder answers on exactly the recoverable losses. -/
lemma decode_iff (width : ℕ) (hsorted : parity.Pairwise fun p q => p.1 < q.1)
    (hlt : ∀ p ∈ parity, p.1 < 3) (hlen : (missingIndices data).length ≤ parity.length) :
    (∃ data', decode data parity width = some data') ↔
      Recoverable (missingIndices data) ((parity.take (missingIndices data).length).map
        Prod.fst) := by
  rw [decode_iff_regular width hlen, regular_initialSystem_iff width hsorted hlt hlen]

end Regularity

/-- As many parities as holes are enough, whichever they are. -/
theorem decode_complete (data : List (Option Bytes)) (parity : List (ℕ × Bytes)) (width : ℕ)
    (hcount : data.length ≤ 255) (hsorted : parity.Pairwise fun p q => p.1 < q.1)
    (hlt : ∀ p ∈ parity, p.1 < 3) (hlen : (missingIndices data).length ≤ parity.length) :
    ∃ data', decode data parity width = some data' := by
  rw [decode_iff width hsorted hlt hlen]
  exact recoverable_of_le _ (nodup_missingIndices data) fun j hj =>
    lt_of_lt_of_le (mem_missingIndices.mp hj).1 hcount

/-! ## Which losses are recovered -/

section Strength

variable {frags : List Bytes} {width p : ℕ} {lost : Finset ℕ} {rows : List ℕ}

/-- The data fragments without the lost ones. -/
def lose (frags : List Bytes) (lost : Finset ℕ) : List (Option Bytes) :=
  frags.mapIdx fun j b => if j ∈ lost then none else some b

/-- The data fragments with the lost ones back, padded to the width. -/
def regained (frags : List Bytes) (lost : Finset ℕ) (width : ℕ) : List (Option Bytes) :=
  frags.mapIdx fun j b => some (if j ∈ lost then resize b width else b)

/-- The parity fragments with the given numbers, out of `p` encoded ones. -/
def parities (frags : List Bytes) (p width : ℕ) (rows : List ℕ) : List (ℕ × Bytes) :=
  rows.map fun r => (r, (encode frags p width).getD r [])

lemma length_lose (frags : List Bytes) (lost : Finset ℕ) :
    (lose frags lost).length = frags.length :=
  List.length_mapIdx

lemma getD_lose {j : ℕ} (hj : j < frags.length) :
    (lose frags lost).getD j none = if j ∈ lost then none else some (frags.getD j []) := by
  rw [lose, List.getD_eq_getElem _ _ (by rwa [List.length_mapIdx]), List.getElem_mapIdx,
    List.getD_eq_getElem _ _ hj]

lemma present_lose : Present width frags (lose frags lost) := by
  refine ⟨length_lose frags lost, fun j b hb => ?_⟩
  by_cases hj : j < frags.length
  · rw [getD_lose hj] at hb
    split at hb
    · exact absurd hb (by simp)
    · rw [Option.some.inj hb]
  · rw [List.getD_eq_default _ _ (by rw [length_lose]; exact not_lt.mp hj)] at hb
    exact absurd hb (by simp)

lemma mem_missingIndices_lose (hlost : ∀ j ∈ lost, j < frags.length) {j : ℕ} :
    j ∈ missingIndices (lose frags lost) ↔ j ∈ lost := by
  rw [mem_missingIndices, length_lose]
  constructor
  · rintro ⟨hj, hnone⟩
    by_contra hnot
    rw [getD_lose hj, if_neg hnot] at hnone
    exact absurd hnone (by simp)
  · intro hj
    exact ⟨hlost j hj, by rw [getD_lose (hlost j hj), if_pos hj]⟩

lemma length_missingIndices_lose (hlost : ∀ j ∈ lost, j < frags.length) :
    (missingIndices (lose frags lost)).length = lost.card := by
  rw [← List.toFinset_card_of_nodup (nodup_missingIndices _)]
  congr 1
  ext j
  rw [List.mem_toFinset, mem_missingIndices_lose hlost]

lemma recoverable_lose_iff (hlost : ∀ j ∈ lost, j < frags.length) :
    Recoverable (missingIndices (lose frags lost)) rows ↔
      (∀ i ∈ lost, ∀ j ∈ lost, i % 256 = j % 256 → i = j) ∧
        (0 ∈ rows ∨ ∀ j ∈ lost, j % 256 ≠ 255) := by
  unfold Recoverable
  simp only [mem_missingIndices_lose hlost]
  refine and_congr_left' ?_
  constructor
  · intro h i hi j hj hmod
    by_contra hne
    have hsymm : Std.Symm fun i j : ℕ => i % 256 ≠ j % 256 := ⟨fun _ _ => Ne.symm⟩
    exact h.forall ((mem_missingIndices_lose hlost).mpr hi)
      ((mem_missingIndices_lose hlost).mpr hj) hne
      hmod
  · intro h
    refine (nodup_missingIndices _).imp_of_mem fun {i j} hi hj hne hmod => hne ?_
    exact h i ((mem_missingIndices_lose hlost).mp hi) j ((mem_missingIndices_lose hlost).mp hj) hmod

lemma vec_parities (hrows : ∀ r ∈ rows, r < p) :
    ∀ q ∈ parities frags p width rows, vec width q.2 = paritySum width frags q.1 := by
  intro q hq
  obtain ⟨r, hr, rfl⟩ := List.mem_map.mp hq
  rw [encode, getD_encodeInto frags width [] (hrows r hr), vec_encodeRow]

/-- An answer has the lost fragments back. -/
lemma decode_lose_eq {data' : List (Option Bytes)} (hrows : ∀ r ∈ rows, r < p)
    (h : decode (lose frags lost) (parities frags p width rows) width = some data') :
    data' = regained frags lost width := by
  have hlength := (decode_isSome h).1
  rw [length_lose] at hlength
  apply List.ext_getElem (by rw [hlength, regained, List.length_mapIdx])
  intro j hj hj'
  rw [hlength] at hj
  have hsound := decode_sound present_lose (vec_parities hrows) h hj
  rw [List.getD_eq_getElem _ _ (by rwa [hlength]), getD_lose hj] at hsound
  rw [hsound]
  simp only [regained, List.getElem_mapIdx, List.getD_eq_getElem _ _ hj]
  split <;> rfl

lemma decode_lose_iff (hp : p ≤ 3) (hlost : ∀ j ∈ lost, j < frags.length)
    (hsorted : rows.Pairwise (· < ·)) (hrows : ∀ r ∈ rows, r < p)
    (hcard : rows.length = lost.card) :
    (∃ data', decode (lose frags lost) (parities frags p width rows) width = some data') ↔
      (∀ i ∈ lost, ∀ j ∈ lost, i % 256 = j % 256 → i = j) ∧
        (0 ∈ rows ∨ ∀ j ∈ lost, j % 256 ≠ 255) := by
  have hlength : (missingIndices (lose frags lost)).length =
      (parities frags p width rows).length := by
    rw [length_missingIndices_lose hlost, parities, List.length_map, hcard]
  have hfst : (parities frags p width rows).map Prod.fst = rows := by
    rw [parities, List.map_map]
    exact List.map_id rows
  have hpairwise : (parities frags p width rows).Pairwise fun q q' => q.1 < q'.1 :=
    List.pairwise_map.mpr hsorted
  have hlt : ∀ q ∈ parities frags p width rows, q.1 < 3 := by
    intro q hq
    obtain ⟨r, hr, rfl⟩ := List.mem_map.mp hq
    exact lt_of_lt_of_le (hrows r hr) hp
  rw [decode_iff width hpairwise hlt hlength.le, hlength, List.take_length, hfst,
    recoverable_lose_iff hlost]

/-- As many parity fragments as were lost bring the lost ones back exactly when the indices of these
differ modulo 256 and none of them is 255 modulo 256, unless parity fragment 0 is there. -/
theorem fec_recovers_iff (frags : List Bytes) (width p : ℕ) (lost : Finset ℕ) (rows : List ℕ)
    (hp : p ≤ 3) (hlost : ∀ j ∈ lost, j < frags.length) (hsorted : rows.Pairwise (· < ·))
    (hrows : ∀ r ∈ rows, r < p) (hcard : rows.length = lost.card) :
    decode (lose frags lost) (parities frags p width rows) width =
        some (regained frags lost width) ↔
      (∀ i ∈ lost, ∀ j ∈ lost, i % 256 = j % 256 → i = j) ∧
        (0 ∈ rows ∨ ∀ j ∈ lost, j % 256 ≠ 255) := by
  rw [← decode_lose_iff hp hlost hsorted hrows hcard]
  constructor
  · exact fun h => ⟨_, h⟩
  · rintro ⟨data', h⟩
    rw [h, decode_lose_eq hrows h]

/-- Two of three fragments come back from two parities. -/
theorem fec_recovers_two :
    decode (lose [[1], [2], [3]] {0, 2}) (parities [[1], [2], [3]] 2 1 [0, 1]) 1 =
      some (regained [[1], [2], [3]] {0, 2} 1) :=
  (fec_recovers_iff [[1], [2], [3]] 1 2 {0, 2} [0, 1] (by decide) (by decide)
    (by decide) (by decide)
    (by decide)).mpr ⟨by decide, Or.inl (by decide)⟩

/-- Fragments 0 and 256 have the same point: with both lost, two parities do not bring them back. -/
theorem fec_fails_at_distance_256 :
    decode (lose (List.replicate 257 [7]) {0, 256})
      (parities (List.replicate 257 [7]) 2 1 [0, 1]) 1 = none := by
  refine Option.eq_none_iff_forall_ne_some.mpr fun data' h => ?_
  obtain ⟨hdistinct, -⟩ := (decode_lose_iff (by decide) (by rw [List.length_replicate]; decide)
    (by decide) (by decide) (by decide)).mp ⟨data', h⟩
  exact absurd (hdistinct 0 (by decide) 256 (by decide) (by decide)) (by decide)

/-! ## Any parities -/

/-- The weights of the lost fragments in the parity fragments with the given numbers. -/
def lossMatrix (lost : Finset ℕ) (rows : List ℕ) (h : lost.card = rows.length) :
    Matrix (Fin rows.length) (Fin rows.length) GF256 :=
  Matrix.of fun r c => point (lost.orderEmbOfFin h c) ^ rows.get r

lemma length_parities : (parities frags p width rows).length = rows.length := List.length_map _

/-- The missing fragments in increasing order. -/
lemma get_missingIndices_lose (hlost : ∀ j ∈ lost, j < frags.length) {m : ℕ} (hcard : lost.card = m)
    (hm : (missingIndices (lose frags lost)).length = m) (c : Fin m) :
    (missingIndices (lose frags lost)).get (c.cast hm.symm) = lost.orderEmbOfFin hcard c := by
  refine congrFun (Finset.orderEmbOfFin_unique hcard
    (f := fun c => (missingIndices (lose frags lost)).get (c.cast hm.symm))
    (fun c => ?_) fun c c' hlt => ?_) c
  · exact (mem_missingIndices_lose hlost).mp (List.get_mem _ _)
  · exact List.pairwise_iff_get.mp (sorted_missingIndices _) _ _ hlt

/-- Whichever parity fragments are used: the decoder answers exactly if their weights of the lost
fragments have a nonzero determinant. -/
lemma decode_lose_iff_det (hlost : ∀ j ∈ lost, j < frags.length) (hcard : lost.card = rows.length) :
    (∃ data', decode (lose frags lost) (parities frags p width rows) width = some data') ↔
      (lossMatrix lost rows hcard).det ≠ 0 := by
  have hm : (missingIndices (lose frags lost)).length = rows.length :=
    (length_missingIndices_lose hlost).trans hcard
  have hlen : (missingIndices (lose frags lost)).length ≤ (parities frags p width rows).length := by
    rw [hm, length_parities]
  have hmatrix : (lossMatrix lost rows hcard).submatrix (finCongr hm) (finCongr hm) =
      Matrix.of (toCoef _ (initialSystem (lose frags lost) (parities frags p width rows)
        (missingIndices (lose frags lost)) width)) := by
    ext r c
    rw [Matrix.submatrix_apply, Matrix.of_apply, toCoef_initialSystem width hlen, lossMatrix,
      Matrix.of_apply, ← get_missingIndices_lose hlost hcard hm]
    simp [parities]
  rw [decode_iff_regular width hlen, GaussJordan.regular_iff_det_ne_zero, ← hmatrix,
    Matrix.det_submatrix_equiv_self]

/-- A relation between the weights of the lost fragments leaves the decoder without an answer. -/
lemma decode_lose_eq_none (hlost : ∀ j ∈ lost, j < frags.length) (hcard : lost.card = rows.length)
    {y : ℕ → GF256} (hne : ∃ j ∈ lost, y j ≠ 0)
    (hy : ∀ r ∈ rows, ∑ j ∈ lost, point j ^ r * y j = 0) :
    decode (lose frags lost) (parities frags p width rows) width = none := by
  refine Option.eq_none_iff_forall_ne_some.mpr fun data' h => ?_
  refine (decode_lose_iff_det hlost hcard).mp ⟨data', h⟩ (Matrix.exists_mulVec_eq_zero_iff.mp ?_)
  refine ⟨fun c => y (lost.orderEmbOfFin hcard c), fun hzero => ?_, funext fun r => ?_⟩
  · obtain ⟨j, hj, hyj⟩ := hne
    obtain ⟨c, rfl⟩ : ∃ c, lost.orderEmbOfFin hcard c = j := by
      rwa [← Set.mem_range, Finset.range_orderEmbOfFin, Finset.mem_coe]
    exact hyj (congrFun hzero c)
  · have hsum : ∀ f : ℕ → GF256, ∑ c, f (lost.orderEmbOfFin hcard c) = ∑ j ∈ lost, f j := by
      intro f
      rw [← Finset.sum_coe_sort lost, ← (lost.orderIsoOfFin hcard).toEquiv.sum_comp]
      rfl
    exact (hsum fun j => point j ^ rows.get r * y j).trans (hy _ (List.get_mem rows r))

lemma two_eq_zero : (2 : GF256) = 0 := by
  rw [← one_add_one_eq_two, ← sub_eq_add, sub_self]

/-- The second and the fourth parity fragment bring back any two data fragments. -/
lemma det_lossMatrix_pair_ne_zero (hlost : ∀ j ∈ lost, j < 255) (hcard : lost.card = 2) :
    (lossMatrix lost [1, 3] hcard).det ≠ 0 := by
  have hlt : ∀ c : Fin 2, lost.orderEmbOfFin hcard c < 255 := fun c =>
    hlost _ (Finset.orderEmbOfFin_mem lost hcard c)
  have hmono := (lost.orderEmbOfFin hcard).strictMono (show (0 : Fin 2) < 1 by decide)
  have hdet : (lossMatrix lost [1, 3] hcard).det =
      point (lost.orderEmbOfFin hcard 0) ^ 1 * point (lost.orderEmbOfFin hcard 1) ^ 3 -
        point (lost.orderEmbOfFin hcard 1) ^ 1 * point (lost.orderEmbOfFin hcard 0) ^ 3 :=
    Matrix.det_fin_two (lossMatrix lost [1, 3] hcard)
  have hlt₀ := hlt 0
  have hlt₁ := hlt 1
  rw [hdet]
  generalize lost.orderEmbOfFin hcard 0 = i at *
  generalize lost.orderEmbOfFin hcard 1 = j at *
  have hi : point i ≠ 0 := fun h => by
    have := point_eq_zero_iff.mp h
    omega
  have hj : point j ≠ 0 := fun h => by
    have := point_eq_zero_iff.mp h
    omega
  have hne : point j - point i ≠ 0 := sub_ne_zero.mpr fun h => by
    have := point_eq_iff.mp h
    omega
  have hfactor : point i ^ 1 * point j ^ 3 - point j ^ 1 * point i ^ 3 =
      point i * point j * (point j - point i) ^ 2 := by
    linear_combination (point i * point j) * (point i * point j - point i ^ 2) * two_eq_zero
  rw [hfactor]
  exact mul_ne_zero (mul_ne_zero hi hj) (pow_ne_zero 2 hne)

lemma gfPowInt_natCast {a : UInt8} {e : ℕ} (h : (gfPowInt a e).isSome) :
    gfPowInt a e = some (gfPow a e) := by
  have hindex : ((gfLog a * e : ℕ) : ℤ).tmod 255 = ((gfLog a * e % 255 : ℕ) : ℤ) :=
    (Int.ofNat_tmod _ 255).symm
  unfold gfPowInt gfPow at *
  by_cases he : e = 0
  · simp [he]
  by_cases ha : a = 0
  · simp [he, ha]
  simp only [Nat.cast_eq_zero, he, ha, if_false] at h ⊢
  rw [← Nat.cast_mul, hindex] at h ⊢
  split at h
  · exact absurd h (by simp)
  · next hfits => rw [if_neg hfits, Int.toNat_natCast]

/-- In the range of `int` the weights are those of the source. -/
lemma coefInt_eq {dataCount j : ℕ} (h : CoefsInRange dataCount p) {r : ℕ} (hr : r < p)
    (hj : j < dataCount) : coefInt r j = some (coef r j) := by
  by_cases hone : dataCount = 1
  · -- the only point is one, and so are its powers
    obtain rfl : j = 0 := by omega
    have hlog : gfLog 1 = 0 := gfLog_iterate (i := 0) (by decide)
    have hexp : gfExp 0 = 1 := gfExp_eq (i := 0) (by decide)
    simp [coefInt, gfPowInt, coef, gfPow, hlog, hexp]
  · -- the weight of the second fragment fails at the first number that is no `int`
    have hp : p ≤ 2 ^ 31 := by
      by_contra hlarge
      have hlog : gfLog 2 = 1 := gfLog_iterate (i := 1) (by decide)
      have hsome := h (2 ^ 31) (not_le.mp hlarge) 1 (by omega)
      have hcast : ((2 ^ 31 : ℕ) : ℤ).bmod (2 ^ 32) = -2 ^ 31 := by decide
      have hnone : gfPowInt 2 (-2 ^ 31) = none := by
        simp [gfPowInt, hlog]
      rw [coefInt, hcast] at hsome
      exact absurd hsome (by rw [show UInt8.ofNat (1 + 1) = 2 from rfl, hnone]; simp)
    have hcast : (r : ℤ).bmod (2 ^ 32) = r := Int.bmod_eq_of_le (by omega) (by omega)
    have hsome := h r hr j hj
    rw [coefInt, hcast] at hsome ⊢
    exact gfPowInt_natCast hsome

/-- Logarithms are below 255, so the product fits up to this number of parity fragments. -/
lemma coefsInRange_of_le {dataCount : ℕ} (hp : p ≤ 8454661) : CoefsInRange dataCount p := by
  intro r hr j _
  have hcast : (r : ℤ).bmod (2 ^ 32) = r := Int.bmod_eq_of_le (by omega) (by omega)
  rw [coefInt, hcast]
  generalize UInt8.ofNat (j + 1) = a
  unfold gfPowInt
  by_cases hr0 : r = 0
  · simp [hr0]
  by_cases ha : a = 0
  · simp [hr0, ha]
  have hlog := gfLog_lt ha
  have hproduct : gfLog a * r ≤ 254 * 8454660 := Nat.mul_le_mul (by omega) (by omega)
  simp only [Nat.cast_eq_zero, hr0, ha, if_false]
  rw [← Nat.cast_mul, Int.tmod_eq_emod_of_nonneg (Int.natCast_nonneg _), if_neg (by omega)]
  rfl

/-- The parity fragments that are used bring back what was lost exactly if the weights have a
nonzero determinant, as long as the encoder computes within the range of `int`. -/
theorem fec_promise_iff (frags : List Bytes) (width parityCount : ℕ) (lost : Finset ℕ)
    (rows : List ℕ) (hlost : ∀ j ∈ lost, j < frags.length) (hrows : ∀ r ∈ rows, r < parityCount)
    (hcard : lost.card = rows.length) :
    (CoefsInRange frags.length parityCount ∧
        decode (lose frags lost) (parities frags parityCount width rows) width =
          some (regained frags lost width)) ↔
      CoefsInRange frags.length parityCount ∧ (lossMatrix lost rows hcard).det ≠ 0 := by
  have hdecode : (∃ data', decode (lose frags lost) (parities frags parityCount width rows) width =
      some data') ↔ (lossMatrix lost rows hcard).det ≠ 0 := decode_lose_iff_det hlost hcard
  rw [← hdecode]
  refine and_congr_right fun _ => ?_
  constructor
  · exact fun h => ⟨_, h⟩
  · rintro ⟨data', h⟩
    rw [h, decode_lose_eq hrows h]

/-- Two of three data fragments are lost. -/
theorem fec_promise_two :
    decode (lose [[1, 7], [2], [4, 9]] {0, 2}) (parities [[1, 7], [2], [4, 9]] 4 2 [1, 3]) 2 =
      some (regained [[1, 7], [2], [4, 9]] {0, 2} 2) :=
  ((fec_promise_iff [[1, 7], [2], [4, 9]] 2 4 {0, 2} [1, 3] (by decide) (by decide) (by decide)).mpr
    ⟨coefsInRange_of_le (by decide), det_lossMatrix_pair_ne_zero (by decide) (by decide)⟩).2

/-- Parity fragments 0, 1 and 3 do not bring back the first three data fragments. -/
theorem fec_fails_without_parity_two :
    CoefsInRange 3 4 ∧
      decode (lose [[1], [2], [4]] {0, 1, 2}) (parities [[1], [2], [4]] 4 1 [0, 1, 3]) 1 =
        none := by
  refine ⟨coefsInRange_of_le (by decide), decode_lose_eq_none (by decide) (by decide) (y := point)
    ⟨0, by decide, by decide⟩ ?_⟩
  -- the points add up to zero, and so do their squares and fourth powers
  have hsum : point 0 + point 1 + point 2 = 0 := by decide
  have hsq : point 0 ^ 2 + point 1 ^ 2 + point 2 ^ 2 = 0 := by
    linear_combination (point 0 + point 1 + point 2) * hsum -
      (point 0 * point 1 + point 0 * point 2 + point 1 * point 2) * two_eq_zero
  have hfourth : point 0 ^ 4 + point 1 ^ 4 + point 2 ^ 4 = 0 := by
    linear_combination (point 0 ^ 2 + point 1 ^ 2 + point 2 ^ 2) * hsq -
      (point 0 ^ 2 * point 1 ^ 2 + point 0 ^ 2 * point 2 ^ 2 + point 1 ^ 2 * point 2 ^ 2) *
        two_eq_zero
  have hsplit : ∀ f : ℕ → GF256, ∑ j ∈ {0, 1, 2}, f j = f 0 + f 1 + f 2 := by
    intro f
    rw [Finset.sum_insert (by decide), Finset.sum_insert (by decide),
      Finset.sum_singleton, add_assoc]
  simp only [List.forall_mem_cons, hsplit]
  refine ⟨?_, ?_, ?_, List.forall_mem_nil _⟩
  · linear_combination hsum
  · linear_combination hsq
  · linear_combination hfourth

end Strength

end ReedSolomon
end Damen
