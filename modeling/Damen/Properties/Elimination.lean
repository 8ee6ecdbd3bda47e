import Damen.Framework.GaussJordan
import Damen.Properties.ByteField
import Mathlib.Data.List.GetD

/-!
# The decoder's elimination refines Gauss–Jordan

`ReedSolomon.eliminateColumn` works on lists of bytes and touches only the columns from the
current one on.  Read through `toCoef` and `toRhs` — coefficients in `GF256`, right-hand sides in
`Fin width → GF256` — one of its columns is one step of `GaussJordan` (`eliminateColumn_spec`):
the columns it leaves out are zero in the pivot row, because they were reduced before.

`eliminate_sound` and `eliminate_complete` are the two facts about the whole loop: a run that
succeeds ends with the solution as right-hand side, and a system with trivial kernel always
succeeds; no other system does (`eliminate_iff`).
-/

namespace Damen
namespace ReedSolomon

open GF256

/-! ## Bytes as vectors over the field -/

/-- The first `width` bytes as a vector, zero past the end. -/
def vec (width : ℕ) (b : Bytes) : Fin width → GF256 := fun i => ofByte (b.getD i 0)

lemma vec_gfMulAdd {width : ℕ} {dst : Bytes} (src : Bytes) (c : UInt8)
    (hdst : width ≤ dst.length) :
    vec width (gfMulAdd dst src c width) = vec width dst + ofByte c • vec width src := by
  funext i
  exact getD_gfMulAdd src c (lt_of_lt_of_le i.isLt hdst) i.isLt

/-- Byte vectors of length `width` are determined by their field vectors. -/
lemma eq_of_vec_eq {width : ℕ} {b b' : Bytes} (hb : b.length = width) (hb' : b'.length = width)
    (h : vec width b = vec width b') : b = b' := by
  apply List.ext_getElem (hb.trans hb'.symm)
  intro i hi hi'
  have hbyte : b.getD i 0 = b'.getD i 0 := ofByte_injective (congrFun h ⟨i, hb ▸ hi⟩)
  rwa [List.getD_eq_getElem _ _ hi, List.getD_eq_getElem _ _ hi'] at hbyte

/-- The matrix of a system, over the field. -/
def toCoef (m : ℕ) (s : LinearSystem) : Fin m → Fin m → GF256 := fun r c => ofByte (entry s.a r c)

/-- The right-hand sides of a system, over the field. -/
def toRhs (m width : ℕ) (s : LinearSystem) : Fin m → Fin width → GF256 :=
  fun r => vec width (s.syn.getD r [])

/-- An `m × m` system with syndromes of `width` bytes. -/
structure Shaped (m width : ℕ) (s : LinearSystem) : Prop where
  length_a : s.a.length = m
  length_row : ∀ r < m, (s.a.getD r []).length = m
  length_syn : s.syn.length = m
  length_syn_row : ∀ r < m, (s.syn.getD r []).length = width

/-! ## Reading the list operations entry by entry -/

lemma getD_mapIdx {α : Type} {l : List α} {d : α} {r : ℕ} (f : ℕ → α → α) (hr : r < l.length) :
    (l.mapIdx f).getD r d = f r (l.getD r d) := by
  rw [List.getD_eq_getElem _ _ (by simpa using hr), List.getElem_mapIdx,
    List.getD_eq_getElem _ _ hr]

lemma length_swapAt {α : Type} [Inhabited α] (v : List α) (i j : ℕ) :
    (swapAt v i j).length = v.length := by
  rw [swapAt, List.length_set, List.length_set]

lemma getD_swapAt {α : Type} [Inhabited α] {v : List α} {i j r : ℕ} (hi : i < v.length)
    (hj : j < v.length) :
    (swapAt v i j).getD r default =
      v.getD (if r = i then j else if r = j then i else r) default := by
  simp only [swapAt, List.getD_eq_getElem?_getD, List.getElem?_set, List.length_set]
  by_cases hrj : j = r
  · subst hrj
    by_cases hri : j = i
    · subst hri
      simp [hj]
    · simp [hj, hri]
  · by_cases hri : i = r
    · subst hri
      simp [hrj, hi]
    · simp [hrj, hri, Ne.symm hrj, Ne.symm hri]

variable {m : ℕ} {a : List (List UInt8)} {s s' : LinearSystem}

/-- Whether or not the pivot is already in place, the exchange permutes the rows. -/
lemma getD_exchange {α : Type} [Inhabited α] {v : List α} (hv : v.length = m) (p col r : Fin m) :
    ((if p.val ≠ col.val then swapAt v p col else v).getD r default) =
      v.getD (Equiv.swap p col r).val default := by
  by_cases hpc : p = col
  · subst hpc
    simp
  · rw [if_pos (fun h => hpc (Fin.ext h)),
      getD_swapAt (hv ▸ p.isLt) (hv ▸ col.isLt), Equiv.swap_apply_def]
    by_cases hrp : r = p
    · simp [hrp]
    · have hrp' : r.val ≠ p.val := fun h => hrp (Fin.ext h)
      by_cases hrc : r = col
      · subst hrc
        rw [if_neg hrp', if_pos rfl, if_neg hrp, if_pos rfl]
      · have hrc' : r.val ≠ col.val := fun h => hrc (Fin.ext h)
        simp [hrp, hrc, hrp', hrc']

lemma length_exchange {α : Type} [Inhabited α] (v : List α) (p col : ℕ) :
    (if p ≠ col then swapAt v p col else v).length = v.length := by
  split
  · exact length_swapAt v p col
  · rfl

/-! ## The two phases of a column -/

section Column

variable {m width : ℕ} {s : LinearSystem} {col p : Fin m}

lemma shaped_normalizePivot (p col : Fin m) (h : Shaped m width s) :
    Shaped m width (normalizePivot p col s) where
  length_a := by rw [normalizePivot, List.length_mapIdx, length_exchange, h.length_a]
  length_row r hr := by
    rw [normalizePivot, getD_mapIdx _ (by rw [length_exchange, h.length_a]; exact hr)]
    have hrow := getD_exchange (v := s.a) h.length_a p col ⟨r, hr⟩
    have hlen : ((if p.val ≠ col.val then swapAt s.a p col else s.a).getD r []).length = m :=
      (congrArg List.length hrow).trans (h.length_row _ (Fin.isLt _))
    split
    · rw [List.length_mapIdx, hlen]
    · exact hlen
  length_syn := by rw [normalizePivot, List.length_mapIdx, length_exchange, h.length_syn]
  length_syn_row r hr := by
    rw [normalizePivot, getD_mapIdx _ (by rw [length_exchange, h.length_syn]; exact hr)]
    have hrow := getD_exchange (v := s.syn) h.length_syn p col ⟨r, hr⟩
    have hlen : ((if p.val ≠ col.val then swapAt s.syn p col else s.syn).getD r []).length =
        width := (congrArg List.length hrow).trans (h.length_syn_row _ (Fin.isLt _))
    split
    · rw [List.length_map, hlen]
    · exact hlen

lemma entry_exchange (p col : Fin m) (h : Shaped m width s) (r : Fin m) (c : ℕ) :
    entry (if p.val ≠ col.val then swapAt s.a p col else s.a) r c =
      entry s.a (Equiv.swap p col r).val c :=
  congrArg (fun row : List UInt8 => row.getD c 0) (getD_exchange h.length_a p col r)

/-- The factor of the scaling is the inverse of the pivot. -/
lemma ofByte_gfInv_pivot (h : Shaped m width s) (hp : toCoef m s p col ≠ 0) :
    ofByte (gfInv (entry (if p.val ≠ col.val then swapAt s.a p col else s.a) col col)) =
      (toCoef m s p col)⁻¹ := by
  rw [entry_exchange p col h, Equiv.swap_apply_right]
  exact gfInv_eq_inv hp

/-- The matrix after the exchange and the scaling. -/
lemma toCoef_normalizePivot (h : Shaped m width s) (hred : GaussJordan.Reduced col (toCoef m s))
    (hcol : col ≤ p) (hp : toCoef m s p col ≠ 0) (r c : Fin m) :
    toCoef m (normalizePivot p col s) r c =
      if r = col then toCoef m s p c * (toCoef m s p col)⁻¹
      else GaussJordan.swapRows p col (toCoef m s) r c := by
  have hinv := ofByte_gfInv_pivot h hp
  have hlen : (if p.val ≠ col.val then swapAt s.a p col else s.a).length = m :=
    (length_exchange ..).trans h.length_a
  have hentry := entry_exchange p col h r c
  have hrowlen : ((if p.val ≠ col.val then swapAt s.a p col else s.a).getD r []).length = m :=
    (congrArg List.length (getD_exchange (v := s.a) h.length_a p col r)).trans
      (h.length_row _ (Fin.isLt _))
  by_cases hr : r = col
  · subst hr
    rw [if_pos rfl]
    rw [Equiv.swap_apply_right] at hentry
    simp only [toCoef, normalizePivot, entry] at hentry hinv ⊢
    rw [getD_mapIdx _ (by rw [hlen]; exact r.isLt), if_pos rfl,
      getD_mapIdx _ (by rw [hrowlen]; exact c.isLt)]
    split
    · rw [gfMul_eq_mul, hentry, hinv]
    · next hlt =>
      -- A column that was reduced before: the pivot row is zero there.
      have hzero : toCoef m s p c = 0 := hred.eq_zero hcol (not_le.mp hlt)
      rw [hentry]
      exact hzero.trans ((congrArg (· * _) hzero).trans (zero_mul _)).symm
  · rw [if_neg hr]
    simp only [toCoef, normalizePivot, entry, GaussJordan.swapRows] at hentry ⊢
    rw [getD_mapIdx _ (by rw [hlen]; exact r.isLt), if_neg (fun h => hr (Fin.ext h)), hentry]

lemma toRhs_normalizePivot (h : Shaped m width s) (hp : toCoef m s p col ≠ 0) (r : Fin m) :
    toRhs m width (normalizePivot p col s) r =
      if r = col then (toCoef m s p col)⁻¹ • toRhs m width s p
      else GaussJordan.swapRows p col (toRhs m width s) r := by
  have hinv := ofByte_gfInv_pivot h hp
  have hlen : (if p.val ≠ col.val then swapAt s.syn p col else s.syn).length = m :=
    (length_exchange ..).trans h.length_syn
  have hrow := getD_exchange (v := s.syn) h.length_syn p col r
  by_cases hr : r = col
  · subst hr
    rw [if_pos rfl]
    rw [Equiv.swap_apply_right] at hrow
    funext i
    simp only [toRhs, normalizePivot, vec, Pi.smul_apply, smul_eq_mul]
    rw [getD_mapIdx _ (by rw [hlen]; exact r.isLt), if_pos rfl]
    have hmap : ∀ (b : Bytes) (k : UInt8),
        ofByte ((b.map (gfMul · k)).getD i 0) = ofByte (b.getD i 0) * ofByte k := by
      intro b k
      by_cases hi : i.val < b.length
      · rw [List.getD_eq_getElem _ _ (by simpa using hi), List.getElem_map, gfMul_eq_mul,
          List.getD_eq_getElem _ _ hi]
      · rw [List.getD_eq_getElem?_getD, List.getD_eq_getElem?_getD,
          List.getElem?_eq_none (by simpa using hi), List.getElem?_eq_none (by simpa using hi)]
        exact (zero_mul _).symm
    rw [hmap, hinv, mul_comm]
    exact congrArg (fun b : Bytes => _ * ofByte (b.getD i 0)) hrow
  · rw [if_neg hr]
    funext i
    simp only [toRhs, normalizePivot, vec, GaussJordan.swapRows]
    rw [getD_mapIdx _ (by rw [hlen]; exact r.isLt), if_neg (fun h => hr (Fin.ext h))]
    exact congrArg (fun b : Bytes => ofByte (b.getD i 0)) hrow

lemma shaped_clearColumn (col : Fin m) (h : Shaped m width s) :
    Shaped m width (clearColumn col width s) where
  length_a := by rw [clearColumn, List.length_mapIdx, h.length_a]
  length_row r hr := by
    rw [clearColumn, getD_mapIdx _ (by rw [h.length_a]; exact hr)]
    split
    · exact h.length_row r hr
    · rw [List.length_mapIdx, h.length_row r hr]
  length_syn := by rw [clearColumn, List.length_mapIdx, h.length_syn]
  length_syn_row r hr := by
    rw [clearColumn, getD_mapIdx _ (by rw [h.length_syn]; exact hr)]
    split
    · exact h.length_syn_row r hr
    · rw [length_gfMulAdd, h.length_syn_row r hr]

/-- The matrix after clearing column `col`, when the pivot row is zero before it. -/
lemma toCoef_clearColumn (h : Shaped m width s) (hzero : ∀ c < col, toCoef m s col c = 0)
    (r c : Fin m) :
    toCoef m (clearColumn col width s) r c =
      if r = col then toCoef m s r c
      else toCoef m s r c - toCoef m s r col * toCoef m s col c := by
  by_cases hr : r = col
  · rw [if_pos hr]
    simp only [toCoef, clearColumn]
    rw [entry, getD_mapIdx _ (by rw [h.length_a]; exact r.isLt),
      if_pos (Or.inl (congrArg Fin.val hr))]
    rfl
  · rw [if_neg hr]
    by_cases hf : entry s.a r col = 0
    · have hcoef : toCoef m s r col = 0 := hf
      rw [hcoef, zero_mul, sub_zero]
      simp only [toCoef, clearColumn]
      rw [entry, getD_mapIdx _ (by rw [h.length_a]; exact r.isLt), if_pos (Or.inr hf)]
      rfl
    · have hguard : ¬ (r.val = col.val ∨ entry s.a r col = 0) :=
        not_or.mpr ⟨fun h => hr (Fin.ext h), hf⟩
      simp only [toCoef, clearColumn]
      rw [entry, getD_mapIdx _ (by rw [h.length_a]; exact r.isLt), if_neg hguard,
        getD_mapIdx _ (by rw [h.length_row r r.isLt]; exact c.isLt)]
      split
      · rw [ofByte_xor, gfMul_eq_mul, sub_eq_add]
        rfl
      · next hlt =>
        have hpivot : ofByte (entry s.a col c) = 0 := hzero c (not_le.mp hlt)
        rw [hpivot, mul_zero, sub_zero]
        rfl

lemma toRhs_clearColumn (h : Shaped m width s) (r : Fin m) :
    toRhs m width (clearColumn col width s) r =
      if r = col then toRhs m width s r
      else toRhs m width s r - toCoef m s r col • toRhs m width s col := by
  by_cases hr : r = col
  · rw [if_pos hr]
    simp only [toRhs, clearColumn]
    rw [getD_mapIdx _ (by rw [h.length_syn]; exact r.isLt),
      if_pos (Or.inl (congrArg Fin.val hr))]
  · rw [if_neg hr]
    by_cases hf : entry s.a r col = 0
    · have hcoef : toCoef m s r col = 0 := hf
      rw [hcoef, zero_smul, sub_zero]
      simp only [toRhs, clearColumn]
      rw [getD_mapIdx _ (by rw [h.length_syn]; exact r.isLt), if_pos (Or.inr hf)]
    · have hguard : ¬ (r.val = col.val ∨ entry s.a r col = 0) :=
        not_or.mpr ⟨fun h => hr (Fin.ext h), hf⟩
      simp only [toRhs, clearColumn]
      rw [getD_mapIdx _ (by rw [h.length_syn]; exact r.isLt), if_neg hguard,
        vec_gfMulAdd _ _ (h.length_syn_row r r.isLt).ge]
      funext i
      exact (sub_eq_add _ _).symm

end Column

/-! ## One column is one step of Gauss–Jordan -/

lemma findPivot_spec {col : ℕ} (h : findPivot a col m ≠ m) :
    col ≤ findPivot a col m ∧ findPivot a col m < m ∧ entry a (findPivot a col m) col ≠ 0 := by
  unfold findPivot at h ⊢
  cases hfind : (List.range' col (m - col)).find? fun r => entry a r col != 0 with
  | none => rw [hfind] at h; exact absurd rfl h
  | some r =>
      have hmem := List.mem_range'_1.mp (List.mem_of_find?_eq_some hfind)
      have hne : (entry a r col != 0) = true := by simpa using List.find?_some hfind
      exact ⟨hmem.1, by rw [Option.getD_some]; omega, by simpa using hne⟩

lemma findPivot_ne {col r : ℕ} (hcol : col ≤ r) (hr : r < m) (hne : entry a r col ≠ 0) :
    findPivot a col m ≠ m := by
  unfold findPivot
  cases hfind : (List.range' col (m - col)).find? fun r => entry a r col != 0 with
  | none =>
      have hnone := List.find?_eq_none.mp hfind r (List.mem_range'_1.mpr ⟨hcol, by omega⟩)
      exact absurd (by simpa using hnone) hne
  | some q =>
      have hmem := List.mem_range'_1.mp (List.mem_of_find?_eq_some hfind)
      rw [Option.getD_some]
      omega

/-- A column of the decoder's elimination is a pivoting step of `GaussJordan`. -/
lemma eliminateColumn_spec {width : ℕ} (col : Fin m) (h : Shaped m width s)
    (hred : GaussJordan.Reduced col (toCoef m s))
    (hstep : eliminateColumn m width s col = some s') :
    Shaped m width s' ∧ ∃ p : Fin m, col ≤ p ∧ toCoef m s p col ≠ 0 ∧
      toCoef m s' = GaussJordan.pivotCoef col p (toCoef m s) ∧
      toRhs m width s' = GaussJordan.pivotRhs col p (toCoef m s) (toRhs m width s) := by
  unfold eliminateColumn at hstep
  simp only at hstep
  split at hstep
  · exact absurd hstep (by simp)
  · next hne =>
    obtain ⟨hcol, hlt, hentry⟩ := findPivot_spec hne
    obtain rfl := Option.some.inj hstep
    let p : Fin m := ⟨findPivot s.a col m, hlt⟩
    have hp : toCoef m s p col ≠ 0 := fun h0 => hentry (ofByte_eq_zero_iff.mp h0)
    have hnorm : Shaped m width (normalizePivot p col s) := shaped_normalizePivot p col h
    have hcoef := toCoef_normalizePivot h hred (p := p) hcol hp
    have hrhs := toRhs_normalizePivot h hp
    have hzero : ∀ c < col, toCoef m (normalizePivot p col s) col c = 0 := by
      intro c hc
      rw [hcoef, if_pos rfl, hred.eq_zero (r := p) hcol hc, zero_mul]
    refine ⟨shaped_clearColumn col hnorm, p, hcol, hp, ?_, ?_⟩
    · funext r c
      rw [toCoef_clearColumn hnorm hzero, GaussJordan.pivotCoef]
      by_cases hr : r = col
      · rw [if_pos hr, if_pos hr, hcoef, if_pos hr]
      · rw [if_neg hr, if_neg hr, hcoef, if_neg hr, hcoef, if_neg hr, hcoef, if_pos rfl]
    · funext r
      rw [toRhs_clearColumn hnorm, GaussJordan.pivotRhs]
      by_cases hr : r = col
      · rw [if_pos hr, if_pos hr, hrhs, if_pos hr]
      · rw [if_neg hr, if_neg hr, hrhs, if_neg hr, hrhs, if_pos rfl, hcoef, if_neg hr]

/-! ## The whole loop -/

/-- The columns below `k` of the elimination loop. -/
def eliminateUpto (m width : ℕ) (s : LinearSystem) (k : ℕ) : Option LinearSystem :=
  (List.range k).foldlM (eliminateColumn m width) s

lemma eliminateUpto_succ (m width : ℕ) (s : LinearSystem) (k : ℕ) :
    eliminateUpto m width s (k + 1) =
      (eliminateUpto m width s k).bind fun s' => eliminateColumn m width s' k := by
  rw [eliminateUpto, List.range_succ, List.foldlM_append]
  simp only [List.foldlM_cons, List.foldlM_nil, Option.bind_eq_bind]
  congr 1
  funext s'
  cases eliminateColumn m width s' k <;> rfl

/-- What a successful run over the columns below `k` keeps and establishes. -/
lemma eliminateUpto_spec {width : ℕ} (h : Shaped m width s) :
    ∀ k ≤ m, ∀ s', eliminateUpto m width s k = some s' →
      Shaped m width s' ∧ GaussJordan.Reduced k (toCoef m s') ∧
      (∀ x, GaussJordan.Solves (toCoef m s) (toRhs m width s) x →
        GaussJordan.Solves (toCoef m s') (toRhs m width s') x) ∧
      (GaussJordan.Regular (toCoef m s) ↔ GaussJordan.Regular (toCoef m s')) := by
  intro k
  induction k with
  | zero =>
      intro _ s' hs'
      obtain rfl := Option.some.inj hs'
      exact ⟨h, fun _ _ hc => absurd hc (Nat.not_lt_zero _), fun _ hx => hx, Iff.rfl⟩
  | succ k ih =>
      intro hk s' hs'
      rw [eliminateUpto_succ] at hs'
      obtain ⟨t, ht, hstep⟩ := Option.bind_eq_some_iff.mp hs'
      obtain ⟨hshape, hred, hsol, hreg⟩ := ih (by omega) t ht
      obtain ⟨hshape', p, hcol, hp, hcoef, hrhs⟩ :=
        eliminateColumn_spec ⟨k, hk⟩ hshape hred hstep
      refine ⟨hshape', ?_, ?_, ?_⟩
      · rw [hcoef]
        exact GaussJordan.reduced_pivot hred hcol hp
      · intro x hx
        rw [hcoef, hrhs, GaussJordan.solves_pivot_iff hp]
        exact hsol x hx
      · rw [hcoef, GaussJordan.regular_pivot_iff hp]
        exact hreg

/-- A successful elimination ends with the solution as right-hand sides. -/
lemma eliminate_sound {width : ℕ} (h : Shaped m width s) {x : Fin m → Fin width → GF256}
    (hx : GaussJordan.Solves (toCoef m s) (toRhs m width s) x)
    (hs' : eliminateUpto m width s m = some s') : Shaped m width s' ∧ toRhs m width s' = x := by
  obtain ⟨hshape, hred, hsol, -⟩ := eliminateUpto_spec h m le_rfl s' hs'
  exact ⟨hshape, (GaussJordan.eq_of_reduced_solves hred (hsol x hx)).symm⟩

/-- A system with trivial kernel is never reported singular. -/
lemma eliminate_complete {width : ℕ} (h : Shaped m width s)
    (hreg : GaussJordan.Regular (toCoef m s)) :
    ∀ k ≤ m, ∃ s', eliminateUpto m width s k = some s' := by
  intro k
  induction k with
  | zero => exact fun _ => ⟨s, rfl⟩
  | succ k ih =>
      intro hk
      obtain ⟨t, ht⟩ := ih (by omega)
      obtain ⟨-, hred, -, hreg'⟩ := eliminateUpto_spec h k (by omega) t ht
      obtain ⟨p, hcol, hp⟩ := GaussJordan.exists_pivot ⟨k, hk⟩ hred (hreg'.mp hreg)
      have hpivot : findPivot t.a k m ≠ m :=
        findPivot_ne hcol p.isLt (fun h0 => hp (ofByte_eq_zero_iff.mpr h0))
      exact ⟨_, by rw [eliminateUpto_succ, ht, Option.bind_some, eliminateColumn, if_neg hpivot]⟩

/-- The elimination succeeds on exactly the systems with trivial kernel. -/
lemma eliminate_iff {width : ℕ} (h : Shaped m width s) :
    (∃ s', eliminateUpto m width s m = some s') ↔ GaussJordan.Regular (toCoef m s) := by
  refine ⟨?_, fun hreg => eliminate_complete h hreg m le_rfl⟩
  rintro ⟨s', hs'⟩
  obtain ⟨-, hred, -, hreg⟩ := eliminateUpto_spec h m le_rfl s' hs'
  exact hreg.mpr (GaussJordan.regular_of_reduced hred)

end ReedSolomon
end Damen
