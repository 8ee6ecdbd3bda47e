import Damen.Properties.Erasure

/-!
# The erasure code with the weights of the source

`gf_pow` multiplies in `int`s, so for very large parity numbers a weight has no result.  `encode`
and `decode` need the same weights: where the encoder has a result (`encodeIntoInt_eq_some_iff`) the
decoder has one on any of its parity fragments (`decodeInt_eq`), and both agree with the field
arithmetic.

`decode_encoded` puts this together with the soundness of the elimination: whatever was lost and
whatever parity fragments are at hand, the decoder answers with the original fragments or leaves the
data alone.
-/

namespace Damen
namespace ReedSolomon

/-! ## Loops whose steps may have no result -/

section Loops

variable {α β σ : Type}

variable {l : List α}

lemma foldlM_eq_some {step : σ → α → Option σ} {pureStep : σ → α → σ}
    (h : ∀ s, ∀ x ∈ l, step s x = some (pureStep s x)) (s : σ) :
    l.foldlM step s = some (l.foldl pureStep s) := by
  induction l generalizing s with
  | nil => rfl
  | cons x l ih =>
      rw [List.foldlM_cons, h s x List.mem_cons_self, List.foldl_cons]
      exact ih (fun s y hy => h s y (List.mem_cons_of_mem x hy)) _

/-- A loop that came to its end had a result in every turn. -/
lemma forall_of_foldlM {step : σ → α → Option σ} {d : α → Prop}
    (hd : ∀ s x s', step s x = some s' → d x) {s t : σ} (h : l.foldlM step s = some t) :
    ∀ x ∈ l, d x := by
  induction l generalizing s with
  | nil => exact fun x hx => absurd hx List.not_mem_nil
  | cons x l ih =>
      rw [List.foldlM_cons] at h
      obtain ⟨s', hs', hrest⟩ := Option.bind_eq_some_iff.mp h
      exact List.forall_mem_cons.mpr ⟨hd s x s' hs', ih hrest⟩

lemma mapM_eq_some {f : α → Option β} {g : α → β} (h : ∀ x ∈ l, f x = some (g x)) :
    l.mapM f = some (l.map g) := by
  induction l with
  | nil => rfl
  | cons x l ih =>
      rw [List.mapM_cons, h x List.mem_cons_self, ih fun y hy => h y (List.mem_cons_of_mem x hy)]
      rfl

lemma forall_of_mapM {f : α → Option β} {t : List β} (h : l.mapM f = some t) :
    ∀ x ∈ l, ∃ y, f x = some y := by
  induction l generalizing t with
  | nil => exact fun x hx => absurd hx List.not_mem_nil
  | cons x l ih =>
      rw [List.mapM_cons] at h
      obtain ⟨y, hy, hrest⟩ := Option.bind_eq_some_iff.mp h
      obtain ⟨ys, hys, -⟩ := Option.bind_eq_some_iff.mp hrest
      exact List.forall_mem_cons.mpr ⟨⟨y, hy⟩, ih hys⟩

end Loops

/-! ## Encoding -/

lemma encodeRowInt_eq {fragments : List Bytes} {p width : ℕ} {buf : Bytes}
    (h : ∀ j < fragments.length, coefInt p j = some (coef p j)) :
    encodeRowInt fragments p width buf = some (encodeRow fragments p width buf) := by
  refine foldlM_eq_some (fun acc j hj => ?_) _
  rw [h j (List.mem_range.mp hj), Option.map_some]

lemma coefInt_of_encodeRowInt {fragments : List Bytes} {p width : ℕ} {buf row : Bytes}
    (h : encodeRowInt fragments p width buf = some row) :
    ∀ j < fragments.length, (coefInt p j).isSome := by
  intro j hj
  refine forall_of_foldlM (d := fun j => (coefInt p j).isSome = true)
    (fun acc j acc' hacc => ?_) h j
    (List.mem_range.mpr hj)
  obtain ⟨c, hc, -⟩ := Option.map_eq_some_iff.mp hacc
  rw [hc]
  rfl

/-- The encoder has a result exactly if all its weights have one, and then it is that of the
field. -/
lemma encodeIntoInt_eq_some_iff {fragments out out' : List Bytes} {parityCount width : ℕ} :
    encodeIntoInt fragments parityCount width out = some out' ↔
      CoefsInRange fragments.length parityCount ∧
        encodeInto fragments parityCount width out = out' := by
  have hrange : encodeIntoInt fragments parityCount width out = some out' →
      CoefsInRange fragments.length parityCount := by
    intro h p hp j hj
    have hlen : p < (out ++ List.replicate (parityCount - out.length) []).length := by
      rw [List.length_append, List.length_replicate]
      omega
    obtain ⟨row, hrow⟩ := forall_of_mapM h (_, p)
      (List.mk_mem_zipIdx_iff_getElem?.mpr (List.getElem?_eq_getElem hlen))
    simp only [if_pos hp] at hrow
    exact coefInt_of_encodeRowInt hrow j hj
  have hresult : CoefsInRange fragments.length parityCount →
      encodeIntoInt fragments parityCount width out =
        some (encodeInto fragments parityCount width out) := by
    intro hin
    rw [encodeIntoInt, encodeInto, List.mapIdx_eq_zipIdx_map]
    refine mapM_eq_some fun e _ => ?_
    obtain ⟨buf, p⟩ := e
    simp only
    by_cases hp : p < parityCount
    · rw [if_pos hp, if_pos hp, encodeRowInt_eq fun j hj => coefInt_eq hin hp hj]
    · rw [if_neg hp, if_neg hp]
  constructor
  · intro h
    refine ⟨hrange h, ?_⟩
    rw [hresult (hrange h)] at h
    exact Option.some.inj h
  · rintro ⟨hin, rfl⟩
    exact hresult hin

/-! ## Decoding -/

section Decoding

variable {data : List (Option Bytes)} {parity : List (ℕ × Bytes)}

lemma syndromeInt_eq {p : ℕ × Bytes} (width : ℕ)
    (h : ∀ j < data.length, coefInt p.1 j = some (coef p.1 j)) :
    syndromeInt data p width = some (syndrome data p width) := by
  refine foldlM_eq_some (fun acc j hj => ?_) _
  cases data.getD j none with
  | none => rfl
  | some b => simp only [h j (List.mem_range.mp hj), Option.map_some]

lemma initialSystemInt_eq {missing : List ℕ} (width : ℕ) (hmissing : ∀ j ∈ missing, j < data.length)
    (h : ∀ p ∈ parity, ∀ j < data.length, coefInt p.1 j = some (coef p.1 j)) :
    initialSystemInt data parity missing width =
      some (initialSystem data parity missing width) := by
  have hrows : ((parity.take missing.length).mapM fun p => missing.mapM fun j => coefInt p.1 j) =
      some ((parity.take missing.length).map fun p => missing.map fun j => coef p.1 j) :=
    mapM_eq_some fun p hp => mapM_eq_some fun j hj =>
      h p (List.mem_of_mem_take hp) j (hmissing j hj)
  have hsyn : ((parity.take missing.length).mapM fun p => syndromeInt data p width) =
      some ((parity.take missing.length).map fun p => syndrome data p width) :=
    mapM_eq_some fun p hp => syndromeInt_eq width (h p (List.mem_of_mem_take hp))
  rw [initialSystemInt, hrows, hsyn]
  rfl

/-- The decoder has a result where its weights have one; `false` comes with the data as they
were. -/
lemma decodeInt_eq (width : ℕ)
    (h : ∀ p ∈ parity, ∀ j < data.length, coefInt p.1 j = some (coef p.1 j)) :
    decodeInt data parity width =
      some ((decode data parity width).isSome, (decode data parity width).getD data) := by
  unfold decodeInt decode
  simp only
  by_cases hnil : missingIndices data = []
  · rw [if_pos hnil, if_pos hnil]
    rfl
  rw [if_neg hnil, if_neg hnil]
  by_cases hfew : parity.length < (missingIndices data).length
  · rw [if_pos hfew, if_pos hfew]
    rfl
  rw [if_neg hfew, if_neg hfew,
    initialSystemInt_eq width (fun j hj => (mem_missingIndices.mp hj).1) h]
  dsimp only
  cases (List.range (missingIndices data).length).foldlM
    (eliminateColumn (missingIndices data).length width)
    (initialSystem data parity (missingIndices data) width) <;> rfl

end Decoding

/-! ## Soundness -/

lemma resize_eq_append {b : Bytes} {width : ℕ} (h : b.length ≤ width) :
    resize b width = b ++ List.replicate (width - b.length) 0 := by
  rw [resize, List.take_of_length_le h]

/-- Whatever fragments were encoded, whatever set of them is missing and whichever of the parity
fragments are passed in: the decoder has a result, `true` means that each missing slot holds its
fragment padded with zeros and the others are as they were, and `false` that nothing was changed. -/
theorem decode_encoded (frags : List Bytes) (parityCount width : ℕ) (lost : Finset ℕ)
    (rows : List ℕ) (encoded : List Bytes) (hwidth : ∀ b ∈ frags, b.length ≤ width)
    (hencoded : encodeInt frags parityCount width = some encoded)
    (hrows : ∀ r ∈ rows, r < parityCount) :
    ∃ answer data', decodeInt (lose frags lost) (rows.map fun r => (r, encoded.getD r [])) width =
        some (answer, data') ∧
      (answer = true → data'.length = frags.length ∧ ∀ j b, frags[j]? = some b →
        data'[j]? =
          some (some (if j ∈ lost then b ++ List.replicate (width - b.length) 0 else b))) ∧
      (answer = false → data' = lose frags lost) := by
  obtain ⟨hin, rfl⟩ := encodeIntoInt_eq_some_iff.mp hencoded
  refine ⟨_, _, decodeInt_eq width fun q hq j hj => ?_, ?_, ?_⟩
  · obtain ⟨r, hr, rfl⟩ := List.mem_map.mp hq
    exact coefInt_eq hin (hrows r hr) (length_lose frags lost ▸ hj)
  · intro hanswer
    obtain ⟨data', hdata'⟩ := Option.isSome_iff_exists.mp hanswer
    have hregained : data' = regained frags lost width := decode_lose_eq hrows hdata'
    rw [hdata', Option.getD_some, hregained]
    refine ⟨List.length_mapIdx, fun j b hb => ?_⟩
    rw [regained, List.getElem?_mapIdx, hb, Option.map_some,
      resize_eq_append (hwidth b (List.mem_of_getElem? hb))]
  · intro hanswer
    rw [Option.isSome_eq_false_iff, Option.isNone_iff_eq_none] at hanswer
    rw [hanswer, Option.getD_none]

/-- One fragment of three lost, and the last of four parity fragments at hand. -/
theorem decode_encoded_three :
    ∃ answer data', decodeInt (lose [[1], [2], [4]] {1})
        ([3].map fun r => (r, (encode [[1], [2], [4]] 4 1).getD r [])) 1 = some (answer, data') ∧
      (answer = true → data'[1]? = some (some [2])) ∧
      (answer = false → data' = lose [[1], [2], [4]] {1}) := by
  obtain ⟨answer, data', hdecode, htrue, hfalse⟩ := decode_encoded [[1], [2], [4]] 4 1 {1} [3]
    (encode [[1], [2], [4]] 4 1) (by decide)
    (encodeIntoInt_eq_some_iff.mpr ⟨coefsInRange_of_le (by decide), rfl⟩) (by decide)
  exact ⟨answer, data', hdecode, fun h => (htrue h).2 1 [2] rfl, hfalse⟩

end ReedSolomon
end Damen
