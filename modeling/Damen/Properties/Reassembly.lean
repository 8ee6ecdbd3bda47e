import Damen.Properties.Message

/-!
# Reassembly under loss, reordering and duplication

`Holds S slot` says that a slot has collected exactly the fragments of a message with indices in
`S`.  Two facts about it carry the argument: filing fragment `i` turns `S` into `insert i S`
(`holds_storeFragment`), and `try_assemble` delivers the payload exactly when `S` has as many
elements as there are data fragments (`tryAssemble_holds`).

`Progress m S` is the invariant of a run, `S` being the set of fragments of `m` seen so far: below
the threshold the slot holds `S`, from the threshold on the message is recorded as completed.
`reassembly_exactly_once` follows: the payload is delivered once, at the call that reaches the
threshold, whatever other messages are interleaved.
-/

namespace Damen

open Fragmenter Reassembler ReedSolomon
open Std (ExtTreeMap)

namespace Message

variable {m : Message}

/-! ## A slot that holds a set of fragments -/

/-- The slot has collected the fragments with indices in `S` and no others. -/
structure Holds (m : Message) (S : Finset ℕ) (slot : IncomingMessage) : Prop where
  messageId : slot.messageId = m.id
  totalCount : slot.totalCount.toNat = m.total
  dataCount : slot.dataCount.toNat = m.dataCount
  length_fragments : slot.fragments.length = m.total
  length_sizes : slot.sizes.length = m.total
  fragment : ∀ i, slot.fragments.getD i none = if i ∈ S then some (m.padded i) else none
  size : ∀ i ∈ S, (slot.sizes.getD i 0).toNat = m.realSize i

variable {S : Finset ℕ} {slot : IncomingMessage} {header : PacketHeader} {a : Arrival} {i : ℕ}
  {data : List (Option Bytes)} {peer : Peer}

lemma Holds.subset (h : m.Holds S slot) : S ⊆ Finset.range m.total := by
  intro i hi
  by_contra hnot
  have hnone : slot.fragments.getD i none = none :=
    List.getD_eq_default _ _ (by
      rw [h.length_fragments]
      exact not_lt.mp (mt Finset.mem_range.mpr hnot))
  rw [h.fragment, if_pos hi] at hnone
  exact absurd hnone (by simp)

/-- How a header of the message opens a slot. -/
lemma holds_openSlot (now : TimePoint) (hid : header.messageId = m.id)
    (hcnt : header.fragmentCount.toNat = m.total) (hflags : header.flags.toNat = m.dataCount) :
    m.Holds ∅ (openSlot header now) where
  messageId := hid
  totalCount := hcnt
  dataCount := hflags
  length_fragments := List.length_replicate.trans hcnt
  length_sizes := List.length_replicate.trans hcnt
  fragment i := by
    rw [openSlot, List.getD_eq_getElem?_getD, List.getElem?_replicate]
    split <;> simp
  size i hi := absurd hi (Finset.notMem_empty i)

/-- Filing a fragment, new or not. -/
lemma holds_storeFragment (h : m.Holds S slot) (hi : i < m.total)
    (hidx : a.header.fragmentIndex.toNat = i) (hsize : a.header.reserved.toNat = m.realSize i)
    (hpayload : a.payload = m.padded i) :
    m.Holds (insert i S) (storeFragment slot a.header a.payload) := by
  unfold storeFragment
  simp only [hidx]
  by_cases hmem : i ∈ S
  · rw [if_pos (by rw [h.fragment, if_pos hmem]; rfl), Finset.insert_eq_of_mem hmem]
    exact h
  · rw [if_neg (by rw [h.fragment, if_neg hmem]; exact Bool.false_ne_true)]
    have hfrags : i < slot.fragments.length := h.length_fragments ▸ hi
    have hsizes : i < slot.sizes.length := h.length_sizes ▸ hi
    refine ⟨h.messageId, h.totalCount, h.dataCount, ?_, ?_, fun j => ?_, fun j hj => ?_⟩
    · rw [List.length_set]
      exact h.length_fragments
    · rw [List.length_set]
      exact h.length_sizes
    · by_cases hji : j = i
      · subst hji
        rw [List.getD_eq_getElem?_getD, List.getElem?_set_self hfrags,
          if_pos (Finset.mem_insert_self j S), hpayload]
        rfl
      · have hfrag := h.fragment j
        rw [List.getD_eq_getElem?_getD] at hfrag
        rw [List.getD_eq_getElem?_getD, List.getElem?_set_ne (Ne.symm hji), hfrag]
        simp only [Finset.mem_insert, hji, false_or]
    · by_cases hji : j = i
      · subst hji
        rw [List.getD_eq_getElem?_getD, List.getElem?_set_self hsizes]
        exact hsize
      · have hjS : j ∈ S := (Finset.mem_insert.mp hj).resolve_left hji
        have hold := h.size j hjS
        rw [List.getD_eq_getElem?_getD] at hold
        rw [List.getD_eq_getElem?_getD, List.getElem?_set_ne (Ne.symm hji)]
        exact hold

/-! ## Counting what has arrived -/

/-- The indices below `n`, shifted by `k`, that are in `S`. -/
def arrived (S : Finset ℕ) (k n : ℕ) : List ℕ := (List.range n).filter fun i => k + i ∈ S

lemma length_arrived (S : Finset ℕ) (k n : ℕ) :
    (arrived S k n).length = (S ∩ Finset.Ico k (k + n)).card := by
  rw [arrived, ← List.toFinset_card_of_nodup (List.nodup_range.filter _),
    ← Finset.card_map (addLeftEmbedding k)]
  congr 1
  ext j
  simp only [Finset.mem_map, List.mem_toFinset, List.mem_filter, List.mem_range,
    decide_eq_true_eq, addLeftEmbedding_apply, Finset.mem_inter, Finset.mem_Ico]
  constructor
  · rintro ⟨i, ⟨hi, hmem⟩, rfl⟩
    exact ⟨hmem, by omega, by omega⟩
  · rintro ⟨hmem, hk, hn⟩
    exact ⟨j - k, ⟨by omega, by rwa [Nat.add_sub_cancel' hk]⟩, by omega⟩

lemma length_arrived_le (S : Finset ℕ) (k n : ℕ) : (arrived S k n).length ≤ n :=
  (List.length_filter_le _ _).trans List.length_range.le

/-- Data and parity fragments together make up `S`. -/
lemma card_eq (h : S ⊆ Finset.range m.total) :
    S.card = (arrived S 0 m.dataCount).length +
      (arrived S m.dataCount m.parityCount.toNat).length := by
  rw [length_arrived, length_arrived, ← Finset.card_union_of_disjoint]
  · congr 1
    ext j
    simp only [Finset.mem_union, Finset.mem_inter, Finset.mem_Ico]
    constructor
    · intro hj
      have hlt : j < m.dataCount + m.parityCount.toNat := Finset.mem_range.mp (h hj)
      rcases lt_or_ge j m.dataCount with hdata | hparity
      · exact Or.inl ⟨hj, by omega, by omega⟩
      · exact Or.inr ⟨hj, hparity, hlt⟩
    · rintro (hj | hj) <;> exact hj.1
  · rw [Finset.disjoint_left]
    intro j hj hj'
    simp only [Finset.mem_inter, Finset.mem_Ico] at hj hj'
    omega

/-- The data fragments as the decoder sees them. -/
def dataView (m : Message) (S : Finset ℕ) : List (Option Bytes) :=
  (List.range m.dataCount).map fun i => if i ∈ S then some (m.padded i) else none

lemma length_dataView (S : Finset ℕ) : (m.dataView S).length = m.dataCount := by
  rw [dataView, List.length_map, List.length_range]

lemma getD_dataView (S : Finset ℕ) (hi : i < m.dataCount) :
    (m.dataView S).getD i none = if i ∈ S then some (m.padded i) else none := by
  rw [dataView, List.getD_eq_getElem _ _ (by simpa using hi), List.getElem_map,
    List.getElem_range]

lemma count_present (S : Finset ℕ) :
    ((m.dataView S).filter Option.isSome).length = (arrived S 0 m.dataCount).length := by
  rw [dataView, List.filter_map, List.length_map, arrived]
  congr 1
  refine List.filter_congr fun i _ => ?_
  by_cases hi : i ∈ S <;> simp [hi]

lemma count_missing (S : Finset ℕ) :
    ((m.dataView S).filter Option.isNone).length =
      m.dataCount - (arrived S 0 m.dataCount).length := by
  have hsplit := List.length_eq_length_filter_add (l := m.dataView S) Option.isSome
  have hnot : (m.dataView S).filter (fun o => !o.isSome) =
      (m.dataView S).filter Option.isNone :=
    List.filter_congr fun o _ => by cases o <;> rfl
  rw [hnot, length_dataView, count_present] at hsplit
  omega

lemma length_missingIndices (data : List (Option Bytes)) :
    (missingIndices data).length = (data.filter Option.isNone).length := by
  have hdata : data = (List.range data.length).map fun i => data.getD i none := by
    refine List.ext_getElem (by simp) fun i hi _ => ?_
    rw [List.getElem_map, List.getElem_range, List.getD_eq_getElem _ _ hi]
  conv_rhs => rw [hdata, List.filter_map, List.length_map]
  rfl

lemma receivedParities_eq (h : m.Holds S slot) :
    receivedParities slot.fragments m.dataCount m.parityCount.toNat =
      (arrived S m.dataCount m.parityCount.toNat).map fun p => (p, m.padded (m.dataCount + p)) := by
  unfold receivedParities arrived
  generalize List.range m.parityCount.toNat = l
  induction l with
  | nil => rfl
  | cons p l ih =>
      rw [List.filterMap_cons, h.fragment]
      by_cases hp : m.dataCount + p ∈ S
      · simp only [hp, if_true, Option.map_some, ih]
        rw [List.filter_cons_of_pos (by simpa using hp), List.map_cons]
      · simp only [hp, if_false, Option.map_none, ih]
        rw [List.filter_cons_of_neg (by simpa using hp)]

lemma foldl_width {w : ℕ} (l : List (Option Bytes)) (hl : ∀ b, some b ∈ l → b.length = w)
    (acc : ℕ) : l.foldl widen acc = if l.any Option.isSome then max acc w else acc := by
  induction l generalizing acc with
  | nil => rfl
  | cons o l ih =>
      have hl' : ∀ b, some b ∈ l → b.length = w := fun b hb => hl b (List.mem_cons_of_mem o hb)
      cases o with
      | none => simpa [widen] using ih hl' acc
      | some b =>
          have hb : b.length = w := hl b List.mem_cons_self
          rw [List.foldl_cons, ih hl']
          simp [widen, hb]

/-- Any fragment that arrived shows the width. -/
lemma fragmentWidth_eq (h : m.Holds S slot) (hne : S.Nonempty) :
    fragmentWidth slot.fragments = m.width := by
  have hlen : ∀ b, some b ∈ slot.fragments → b.length = m.width := by
    intro b hb
    obtain ⟨i, hi, hget⟩ := List.mem_iff_getElem.mp hb
    have hfrag := h.fragment i
    rw [List.getD_eq_getElem _ _ hi, hget] at hfrag
    split at hfrag
    · rw [Option.some.inj hfrag]
      exact m.length_padded i
    · exact absurd hfrag (by simp)
  obtain ⟨i, hi⟩ := hne
  have hlt : i < slot.fragments.length := by
    rw [h.length_fragments]
    exact Finset.mem_range.mp (h.subset hi)
  have hany : slot.fragments.any Option.isSome = true := by
    refine List.any_eq_true.mpr ⟨slot.fragments[i], List.getElem_mem hlt, ?_⟩
    rw [← List.getD_eq_getElem _ none hlt, h.fragment, if_pos hi]
    rfl
  rw [fragmentWidth, foldl_width _ hlen, if_pos hany, Nat.zero_max]

/-! ## Decoding honest fragments -/

lemma present_dataView (S : Finset ℕ) :
    Present m.width (spans m.payload m.width) (m.dataView S) := by
  refine ⟨(length_dataView S).trans m.length_spans.symm, fun j b hb => ?_⟩
  by_cases hj : j < m.dataCount
  · rw [getD_dataView S hj] at hb
    split at hb
    · rw [← Option.some.inj hb, m.vec_padded_data hj, m.getD_spans hj]
    · exact absurd hb (by simp)
  · rw [List.getD_eq_default _ _ (by rw [length_dataView]; omega)] at hb
    exact absurd hb (by simp)

/-- The parity fragments in `S`, as the decoder is given them. -/
def parityView (m : Message) (S : Finset ℕ) : List (ℕ × Bytes) :=
  (arrived S m.dataCount m.parityCount.toNat).map fun p => (p, m.padded (m.dataCount + p))

lemma lt_of_mem_parityView {q : ℕ × Bytes} (hq : q ∈ m.parityView S) :
    q.1 < m.parityCount.toNat ∧ q.2 = m.padded (m.dataCount + q.1) := by
  obtain ⟨p, hp, rfl⟩ := List.mem_map.mp hq
  exact ⟨List.mem_range.mp (List.mem_filter.mp hp).1, rfl⟩

/-- If the decoder answers, it gives back every data fragment, padded. -/
lemma decode_dataView_sound (h : decode (m.dataView S) (m.parityView S) m.width = some data)
    (hi : i < m.dataCount) : data.getD i none = some (m.padded i) := by
  have hparity : ∀ q ∈ m.parityView S,
      vec m.width q.2 = paritySum m.width (spans m.payload m.width) q.1 := by
    intro q hq
    obtain ⟨hlt, heq⟩ := lt_of_mem_parityView hq
    rw [heq]
    exact m.vec_padded_parity hlt
  rw [decode_sound (present_dataView S) hparity h (m.length_spans.symm ▸ hi), getD_dataView S hi,
    m.getD_spans hi]
  by_cases hS : i ∈ S
  · rw [if_pos hS, Option.getD_some]
  · rw [if_neg hS, Option.getD_none, padded, body, if_pos hi]

/-- With as many parities as holes the decoder answers. -/
lemma decode_dataView_isSome (hcount : m.dataCount ≤ 255)
    (henough : m.dataCount - (arrived S 0 m.dataCount).length ≤
      (arrived S m.dataCount m.parityCount.toNat).length) :
    ∃ data, decode (m.dataView S) (m.parityView S) m.width = some data := by
  refine decode_complete (m.dataView S) (m.parityView S) m.width (by rwa [length_dataView])
    (List.pairwise_map.mpr (List.pairwise_lt_range.filter _)) (fun q hq => ?_) ?_
  · exact lt_of_lt_of_le (lt_of_mem_parityView hq).1 m.parity_bounds.2
  · rw [length_missingIndices, count_missing, parityView, List.length_map]
    exact henough

/-! ## Assembling -/

/-- The piece of a data fragment that is there under its own size. -/
lemma take_padded (hi : i < m.dataCount) :
    (m.padded i).take (min (m.realSize i) (m.padded i).length) = m.span i := by
  rw [m.length_padded, min_eq_left (m.realSize_le i), realSize, if_pos hi, padded, body,
    if_pos hi, resize, List.take_of_length_le (m.length_span_le i)]
  exact List.take_left' rfl

/-- A message whose data fragments are there, each under its own or the full size. -/
lemma buildMsg_eq {maxMessageBytes : ℕ} (hmax : m.payload.length ≤ maxMessageBytes)
    (hsizes : m.dataCount ≤ slot.sizes.length) (hfrags : m.dataCount ≤ slot.fragments.length)
    (hf : ∀ i < m.dataCount, slot.fragments.getD i none = some (m.padded i))
    (hsize : ∀ i < m.dataCount, (slot.sizes.getD i 0).toNat = m.realSize i ∨
      (slot.sizes.getD i 0).toNat = m.width) :
    buildMsg slot m.dataCount maxMessageBytes = .ok m.payload := by
  rw [buildMsg_ok slot m.padded maxMessageBytes hsizes hfrags hf]
  obtain ⟨rest, hrest⟩ := m.flatten_pieces
    (fun i => (m.padded i).take (min (slot.sizes.getD i 0).toNat (m.padded i).length))
    fun i hi => by
      rcases hsize i hi with hreal | hfull
      · left
        rw [hreal]
        exact take_padded hi
      · right
        rw [hfull, m.length_padded, min_self]
        exact List.take_of_length_le (m.length_padded i).le
  rw [messageOf_of_stream hrest hmax m.payload_lt]

lemma getD_sizes_restore {n width : ℕ} (hi : i < n) (hlen : i < slot.sizes.length)
    (hsome : (data.getD i none).isSome) :
    (restore slot data n width).sizes.getD i 0 =
      if (slot.fragments.getD i none).isNone then UInt16.ofNat width
      else slot.sizes.getD i 0 := by
  rw [restore, getD_mapIdx _ hlen]
  simp only [decide_eq_true hi, hsome, Bool.true_and, Bool.and_true]

/-- A restored slot yields the payload. -/
lemma buildMsg_restore {maxMessageBytes : ℕ} (h : m.Holds S slot)
    (hmax : m.payload.length ≤ maxMessageBytes)
    (hdata : ∀ i < m.dataCount, data.getD i none = some (m.padded i)) :
    buildMsg (restore slot data m.dataCount m.width) m.dataCount maxMessageBytes =
      .ok m.payload := by
  have hle : m.dataCount ≤ m.total := Nat.le_add_right _ _
  have hsome : ∀ i < m.dataCount, (data.getD i none).isSome := fun i hi => by rw [hdata i hi]; rfl
  have hfrags : ∀ i < m.dataCount, i < slot.fragments.length := fun i hi => by
    rw [h.length_fragments]
    omega
  have hsizes : ∀ i < m.dataCount, i < slot.sizes.length := fun i hi => by
    rw [h.length_sizes]
    omega
  have hw := m.width_bounds
  refine buildMsg_eq hmax ?_ ?_ (fun i hi => ?_) (fun i hi => ?_)
  · rw [restore, List.length_mapIdx, h.length_sizes]
    exact hle
  · rw [restore, List.length_mapIdx, h.length_fragments]
    exact hle
  · rw [getD_restore hi (hfrags i hi) (hsome i hi), h.fragment, hdata i hi]
    by_cases hS : i ∈ S <;> simp [hS]
  · rw [getD_sizes_restore hi (hsizes i hi) (hsome i hi), h.fragment]
    by_cases hS : i ∈ S
    · left
      simpa [hS] using h.size i hS
    · right
      simp only [hS, if_false, Option.isNone_none, if_true]
      exact UInt16.toNat_ofNat_of_lt' (show m.width < 65536 by omega)

/-- What `try_assemble` does with a slot of the message. -/
lemma tryAssemble_eq (h : m.Holds S slot) (maxMessageBytes : ℕ) :
    tryAssemble slot maxMessageBytes =
      if (arrived S 0 m.dataCount).length = m.dataCount then
        (buildMsg slot m.dataCount maxMessageBytes).map some
      else recover slot (m.dataView S) m.dataCount m.parityCount.toNat maxMessageBytes := by
  have hone := m.dataCount_spec.2.2
  have hpar := m.parity_bounds
  have hle : m.dataCount ≤ m.total := Nat.le_add_right _ _
  have htotal : ¬ slot.totalCount < 2 := by
    intro hlt
    have hnat : slot.totalCount.toNat < 2 := hlt
    rw [h.totalCount, total] at hnat
    omega
  have hdata : effectiveDataCount slot = m.dataCount := by
    have hpos : 0 < slot.dataCount := UInt16.lt_iff_toNat_lt.mpr (by
      rw [h.dataCount]
      exact hone)
    rw [effectiveDataCount, if_pos hpos, h.dataCount]
  have hparity : slot.totalCount.toNat - m.dataCount = m.parityCount.toNat := by
    rw [h.totalCount, total]
    omega
  have hview : (List.range m.dataCount).mapM slot.fragmentAt = .ok (m.dataView S) := by
    rw [mapM_fragmentAt (by rw [h.length_fragments]; exact hle), dataView]
    simp only [h.fragment]
  unfold tryAssemble
  simp only [if_neg htotal, hdata, if_neg (show ¬ slot.totalCount.toNat < m.dataCount by
    rw [h.totalCount]; omega), hview, hparity, count_present]

lemma arrived_eq_dataCount :
    (arrived S 0 m.dataCount).length = m.dataCount ↔ ∀ i < m.dataCount, i ∈ S := by
  have hall := List.length_filter_eq_length_iff (p := fun i => decide (0 + i ∈ S))
    (l := List.range m.dataCount)
  rw [List.length_range] at hall
  rw [arrived, hall]
  simp only [List.mem_range, Nat.zero_add, decide_eq_true_eq]

/-- With every data fragment there the payload is delivered. -/
lemma tryAssemble_all {maxMessageBytes : ℕ} (h : m.Holds S slot)
    (hmax : m.payload.length ≤ maxMessageBytes) (hall : ∀ i < m.dataCount, i ∈ S) :
    tryAssemble slot maxMessageBytes = .ok (some m.payload) := by
  have hle : m.dataCount ≤ m.total := Nat.le_add_right _ _
  rw [tryAssemble_eq h, if_pos (arrived_eq_dataCount.mpr hall), buildMsg_eq hmax
    (by rw [h.length_sizes]; exact hle) (by rw [h.length_fragments]; exact hle)
    (fun i hi => by rw [h.fragment, if_pos (hall i hi)])
    (fun i hi => Or.inl (h.size i (hall i hi)))]
  rfl

/-- Whatever is there, nothing but the payload is delivered. -/
lemma tryAssemble_sound {maxMessageBytes : ℕ} (h : m.Holds S slot)
    (hmax : m.payload.length ≤ maxMessageBytes) :
    tryAssemble slot maxMessageBytes = .ok none ∨
      tryAssemble slot maxMessageBytes = .ok (some m.payload) := by
  by_cases hall : ∀ i < m.dataCount, i ∈ S
  · exact Or.inr (tryAssemble_all h hmax hall)
  rw [tryAssemble_eq h, if_neg (mt arrived_eq_dataCount.mp hall)]
  unfold recover
  simp only [count_missing, receivedParities_eq h]
  split_ifs with hfew hzero hwidth hparities
  · exact Or.inl rfl
  · exact Or.inl rfl
  · exact Or.inl rfl
  · exact Or.inl rfl
  · rw [List.length_map] at hparities
    have hne : S.Nonempty := by
      obtain ⟨p, hp⟩ := List.exists_mem_of_length_pos (show
        0 < (arrived S m.dataCount m.parityCount.toNat).length by omega)
      exact ⟨_, of_decide_eq_true (List.mem_filter.mp hp).2⟩
    rw [fragmentWidth_eq h hne]
    split
    · exact Or.inl rfl
    · next data hdecode =>
      rw [buildMsg_restore h hmax fun i hi => decode_dataView_sound hdecode hi]
      exact Or.inr rfl

/-- With at most 255 data fragments the payload is delivered exactly when enough are there. -/
lemma tryAssemble_holds {maxMessageBytes : ℕ} (h : m.Holds S slot) (hcount : m.dataCount ≤ 255)
    (hmax : m.payload.length ≤ maxMessageBytes) :
    tryAssemble slot maxMessageBytes =
      .ok (if m.dataCount ≤ S.card then some m.payload else none) := by
  have hcard := card_eq h.subset
  have hbound := length_arrived_le S 0 m.dataCount
  have hpbound := length_arrived_le S m.dataCount m.parityCount.toNat
  by_cases hall : ∀ i < m.dataCount, i ∈ S
  · have hlen := arrived_eq_dataCount.mpr hall
    rw [tryAssemble_all h hmax hall, if_pos (by omega)]
  · have hlen := mt arrived_eq_dataCount.mp hall
    rw [tryAssemble_eq h, if_neg hlen]
    unfold recover
    simp only [count_missing, receivedParities_eq h, List.length_map]
    by_cases henough : m.dataCount ≤ S.card
    · have hone := m.dataCount_spec.2.2
      have hne : S.Nonempty := Finset.card_pos.mp (by omega)
      have hw := m.width_bounds
      obtain ⟨data, hdecode⟩ := decode_dataView_isSome hcount (S := S) (by omega)
      have hdata : ∀ i < m.dataCount, data.getD i none = some (m.padded i) :=
        fun i hi => decode_dataView_sound hdecode hi
      unfold parityView at hdecode
      rw [fragmentWidth_eq h hne, if_neg (by omega), if_neg (by omega), if_neg (by omega),
        if_neg (by omega), hdecode, if_pos henough]
      simp only [buildMsg_restore h hmax hdata]
      rfl
    · -- Too few fragments: one of the four early returns is taken.
      rw [if_neg henough]
      split_ifs with h1 h2 h3 h4
      · rfl
      · rfl
      · rfl
      · rfl
      · omega

/-! ## The invariant of a run -/

/-- The indices of the fragments of message `id` among some calls. -/
def seen (id : UInt32) (arrivals : List Arrival) : Finset ℕ :=
  ((arrivals.filter fun a => a.header.messageId = id).map fun a =>
    a.header.fragmentIndex.toNat).toFinset

/-- What was delivered by the calls for message `id`. -/
def deliveries (id : UInt32) (arrivals : List Arrival) (outs : List (Option Bytes)) : List Bytes :=
  ((arrivals.zip outs).filter fun e => e.1.header.messageId = id).filterMap Prod.snd

lemma seen_concat_self {id : UInt32} (arrivals : List Arrival) (h : a.header.messageId = id) :
    seen id (arrivals ++ [a]) = insert a.header.fragmentIndex.toNat (seen id arrivals) := by
  ext i
  simp [seen, List.filter_append, h]

lemma seen_concat_other {id : UInt32} (arrivals : List Arrival) (h : a.header.messageId ≠ id) :
    seen id (arrivals ++ [a]) = seen id arrivals := by
  simp [seen, List.filter_append, h]

lemma deliveries_concat (id : UInt32) {arrivals : List Arrival} {outs : List (Option Bytes)}
    (hlen : outs.length = arrivals.length) (a : Arrival) (o : Option Bytes) :
    deliveries id (arrivals ++ [a]) (outs ++ [o]) =
      deliveries id arrivals outs ++
        if a.header.messageId = id then o.toList else [] := by
  rw [deliveries, List.zip_append hlen.symm, List.filter_append, List.filterMap_append]
  by_cases h : a.header.messageId = id
  · cases o <;> simp [deliveries, h]
  · simp [deliveries, h]

/-- Where the receiver stands after the fragments in `S`. -/
structure Progress (m : Message) (S : Finset ℕ) (peer : Peer) : Prop where
  slotsOk : SlotsOk peer
  done : m.dataCount ≤ S.card → m.id ∈ peer.completed
  notDone : S.card < m.dataCount → m.id ∉ peer.completed
  holds : S.card < m.dataCount → ∀ (header : PacketHeader) (now : TimePoint),
    header.messageId = m.id → header.fragmentCount.toNat = m.total →
    header.flags.toNat = m.dataCount → m.Holds S (slotFor peer header now)

lemma progress_bookkeep (lateMultiplier : Float) (a : Arrival) (h : m.Progress S peer) :
    m.Progress S (bookkeep lateMultiplier peer a) where
  slotsOk := slotsOk_bookkeep.mpr h.slotsOk
  done := by
    rw [bookkeep_completed]
    exact h.done
  notDone := by
    rw [bookkeep_completed]
    exact h.notDone
  holds hlt header now hid hcnt hflags := by
    have hslot := h.holds hlt header now hid hcnt hflags
    unfold slotFor at hslot ⊢
    rwa [bookkeep_incoming]

/-- A receiver that has no record of the message. -/
lemma progress_empty (hslots : SlotsOk peer) (hidle : peer.incoming[m.id]? = none)
    (hnew : m.id ∉ peer.completed) : m.Progress ∅ peer where
  slotsOk := hslots
  done h := by
    have hone := m.dataCount_spec.2.2
    rw [Finset.card_empty] at h
    omega
  notDone _ := hnew
  holds _ header now hid hcnt hflags := by
    have hslot : slotFor peer header now = openSlot header now := by
      unfold slotFor
      rw [hid, ExtTreeMap.getD_eq_getD_getElem?, hidle]
      rfl
    rw [hslot]
    exact holds_openSlot now hid hcnt hflags

/-! ## One call -/

/-- A slot that is in use is found again. -/
lemma slotFor_insert (peer : Peer) {k : UInt32} (now : TimePoint) (hk : header.messageId = k)
    (hne : slot.messageId ≠ 0) :
    slotFor { peer with incoming := peer.incoming.insert k slot } header now = slot := by
  unfold slotFor
  simp only [hk, ExtTreeMap.getD_insert_self]
  exact if_neg hne

/-- A call with a fragment of the message delivers it exactly if the threshold is reached. -/
lemma progress_own (lateMultiplier : Float) {maxMessageBytes : ℕ} (hcount : m.dataCount ≤ 255)
    (hmax : m.payload.length ≤ maxMessageBytes) (h : m.Progress S peer) (ha : m.Carries a) :
    ∃ peer', receive lateMultiplier maxMessageBytes peer a = .ok (peer',
        if S.card < m.dataCount ∧ m.dataCount ≤ (insert a.header.fragmentIndex.toNat S).card
          then some m.payload else none) ∧
      m.Progress (insert a.header.fragmentIndex.toNat S) peer' := by
  obtain ⟨i, hi, hid, hidx, hcnt, hflags, hsize, hpayload⟩ := ha.exists_index
  have hp := progress_bookkeep lateMultiplier a h
  obtain ⟨peer', o, hcollect, hslots'⟩ := collect_ok a.payload a.clock.now hp.slotsOk
    (ha.not_overdeclared _ maxMessageBytes)
  rw [receive_eq, hcollect]
  generalize bookkeep lateMultiplier peer a = peer₀ at hp hcollect
  have hgrow : S.card ≤ (insert i S).card := Finset.card_le_card (Finset.subset_insert i S)
  rw [hidx]
  by_cases hlt : S.card < m.dataCount
  · have hadm : Admitted peer₀ a.header maxMessageBytes := by
      refine ⟨fun h0 => ?_, by rw [hid]; exact hp.notDone hlt, ?_, ?_⟩
      · rw [h0] at hcnt
        exact absurd hcnt (show (0 : ℕ) ≠ m.total by omega)
      · exact UInt16.lt_iff_toNat_lt.mpr (by rw [hidx, hcnt]; exact hi)
      · rw [hcnt]
        exact m.total_le hmax
    have hheld := hp.holds hlt a.header a.clock.now hid hcnt hflags
    have hstored := holds_storeFragment hheld hi hidx hsize hpayload
    have hmatch : ¬ ((slotFor peer₀ a.header a.clock.now).totalCount ≠ a.header.fragmentCount ∨
        (slotFor peer₀ a.header a.clock.now).fragments.length ≤
          a.header.fragmentIndex.toNat) := by
      rw [hheld.length_fragments, hidx, not_or, not_not]
      exact ⟨UInt16.toNat_inj.mp (hheld.totalCount.trans hcnt.symm), not_le.mpr hi⟩
    unfold collect at hcollect
    simp only [hadm, not_true, if_false, hmatch, tryAssemble_holds hstored hcount hmax] at hcollect
    by_cases hreach : m.dataCount ≤ (insert i S).card
    · rw [if_pos hreach] at hcollect
      obtain ⟨rfl, rfl⟩ := Prod.mk.inj (Except.ok.inj hcollect)
      rw [if_pos ⟨hlt, hreach⟩]
      refine ⟨_, rfl, hslots', fun _ => ?_, fun hnot => absurd hreach (not_le.mpr hnot),
        fun hnot => absurd hreach (not_le.mpr hnot)⟩
      rw [hid]
      exact ExtTreeMap.mem_insert_self
    · rw [if_neg hreach] at hcollect
      obtain ⟨rfl, rfl⟩ := Prod.mk.inj (Except.ok.inj hcollect)
      rw [if_neg (fun hand => hreach hand.2)]
      refine ⟨_, rfl, hslots', fun hdone => absurd hdone hreach, fun _ => hp.notDone hlt,
        fun _ header now hid' _ _ => ?_⟩
      have hne : (storeFragment (slotFor peer₀ a.header a.clock.now) a.header
          a.payload).messageId ≠ 0 := by
        rw [hstored.messageId]
        exact m.id_ne_zero
      rw [slotFor_insert peer₀ now (hid'.trans hid.symm) hne]
      exact hstored
  · -- Already delivered: the call returns at the completed check.
    have hdone : m.id ∈ peer₀.completed := hp.done (not_lt.mp hlt)
    have hadm : ¬ Admitted peer₀ a.header maxMessageBytes := fun hadm => hadm.2.1 (hid ▸ hdone)
    unfold collect at hcollect
    simp only [hadm, not_false_eq_true, if_true] at hcollect
    obtain ⟨rfl, rfl⟩ := Prod.mk.inj (Except.ok.inj hcollect)
    rw [if_neg (fun hand => hlt hand.1)]
    exact ⟨_, rfl, hslots', fun _ => hdone, fun hnot => absurd hnot (by omega),
      fun hnot => absurd hnot (by omega)⟩

/-- A fragment touches nothing that is kept for other messages. -/
lemma collect_frame {peer' : Peer} {payload : Bytes} {maxMessageBytes : ℕ} {now : TimePoint}
    {o : Option Bytes} {k : UInt32}
    (h : collect peer header payload maxMessageBytes now = .ok (peer', o))
    (hk : header.messageId ≠ k) :
    peer'.incoming[k]? = peer.incoming[k]? ∧ (k ∈ peer'.completed ↔ k ∈ peer.completed) := by
  have hcmp : ¬ compare header.messageId k = .eq := mt Std.LawfulEqCmp.compare_eq_iff_eq.mp hk
  have hinsert : ∀ slot, (peer.incoming.insert header.messageId slot)[k]? =
      peer.incoming[k]? := fun slot => by rw [ExtTreeMap.getElem?_insert, if_neg hcmp]
  unfold collect at h
  simp only at h
  split at h
  · obtain ⟨rfl, -⟩ := Prod.mk.inj (Except.ok.inj h)
    exact ⟨rfl, Iff.rfl⟩
  · split at h
    · obtain ⟨rfl, -⟩ := Prod.mk.inj (Except.ok.inj h)
      exact ⟨hinsert _, Iff.rfl⟩
    · split at h
      · exact absurd h (by simp)
      · obtain ⟨rfl, -⟩ := Prod.mk.inj (Except.ok.inj h)
        exact ⟨hinsert _, Iff.rfl⟩
      · obtain ⟨rfl, -⟩ := Prod.mk.inj (Except.ok.inj h)
        refine ⟨by rw [ExtTreeMap.getElem?_erase, if_neg hcmp], ?_⟩
        rw [ExtTreeMap.mem_insert]
        exact or_iff_right hcmp

/-- A call with a fragment of another message leaves the progress as it was. -/
lemma progress_other {m' : Message} (lateMultiplier : Float) (maxMessageBytes : ℕ)
    (h : m.Progress S peer) (ha : m'.Carries a) (hne : m'.id ≠ m.id) :
    ∃ peer' o, receive lateMultiplier maxMessageBytes peer a = .ok (peer', o) ∧
      m.Progress S peer' := by
  obtain ⟨i, -, hid, -⟩ := ha.exists_index
  have hp := progress_bookkeep lateMultiplier a h
  obtain ⟨peer', o, hcollect, hslots'⟩ := collect_ok a.payload a.clock.now hp.slotsOk
    (ha.not_overdeclared _ maxMessageBytes)
  obtain ⟨hin, hcompleted⟩ := collect_frame hcollect (k := m.id) (by rw [hid]; exact hne)
  refine ⟨peer', o, hcollect, hslots', fun hdone => hcompleted.mpr (hp.done hdone),
    fun hlt => mt hcompleted.mp (hp.notDone hlt), fun hlt header now hid' hcnt hflags => ?_⟩
  have hheld := hp.holds hlt header now hid' hcnt hflags
  unfold slotFor at hheld ⊢
  rw [ExtTreeMap.getD_eq_getD_getElem?, hid'] at hheld ⊢
  rwa [hin]

/-! ## Whole runs -/

/-- Every call is made with a fragment of `m` or of another message. -/
def Honest (m : Message) (arrivals : List Arrival) : Prop :=
  ∀ a ∈ arrivals, m.Carries a ∨ ∃ m' : Message, m'.id ≠ m.id ∧ m'.Carries a

lemma run_progress {maxMessageBytes : ℕ} (lateMultiplier : Float) (hcount : m.dataCount ≤ 255)
    (hmax : m.payload.length ≤ maxMessageBytes) (hpeer : m.Progress ∅ peer)
    (arrivals : List Arrival) (harr : m.Honest arrivals) :
    ∃ peer' outs,
      Machine.run (receive lateMultiplier maxMessageBytes) peer arrivals = .ok (peer', outs) ∧
      m.Progress (seen m.id arrivals) peer' ∧
      deliveries m.id arrivals outs =
        if m.dataCount ≤ (seen m.id arrivals).card then [m.payload] else [] := by
  induction arrivals using List.reverseRecOn with
  | nil =>
      have hone := m.dataCount_spec.2.2
      refine ⟨peer, [], rfl, hpeer, ?_⟩
      rw [if_neg (show ¬ m.dataCount ≤ (seen m.id []).card from
        not_le.mpr (lt_of_lt_of_le Nat.zero_lt_one hone))]
      rfl
  | append_singleton arrivals a ih =>
      obtain ⟨peer₁, outs, hrun, hprog, hdel⟩ :=
        ih fun b hb => harr b (List.mem_append_left _ hb)
      have hlen := Machine.length_of_run_ok hrun
      rcases harr a (List.mem_append_right _ List.mem_cons_self) with ha | ⟨m', hne, ha⟩
      · obtain ⟨i, -, hid, -⟩ := ha.exists_index
        obtain ⟨peer₂, hstep, hprog₂⟩ := progress_own lateMultiplier hcount hmax hprog ha
        refine ⟨peer₂, _, Machine.run_concat_ok.mpr ⟨peer₁, outs, _, hrun, hstep, rfl⟩, ?_, ?_⟩
        · rw [seen_concat_self arrivals hid]
          exact hprog₂
        · rw [deliveries_concat m.id hlen, if_pos hid, hdel, seen_concat_self arrivals hid]
          have hgrow : (seen m.id arrivals).card ≤
              (insert a.header.fragmentIndex.toNat (seen m.id arrivals)).card :=
            Finset.card_le_card (Finset.subset_insert _ _)
          split_ifs with h1 h2 h3 h4 h5 <;> first | rfl | omega
      · obtain ⟨i, -, hid, -⟩ := ha.exists_index
        have hid' : a.header.messageId ≠ m.id := by rwa [hid]
        obtain ⟨peer₂, o, hstep, hprog₂⟩ :=
          progress_other lateMultiplier maxMessageBytes hprog ha hne
        refine ⟨peer₂, _, Machine.run_concat_ok.mpr ⟨peer₁, outs, o, hrun, hstep, rfl⟩, ?_, ?_⟩
        · rw [seen_concat_other arrivals hid']
          exact hprog₂
        · rw [deliveries_concat m.id hlen, if_neg hid', List.append_nil, hdel,
            seen_concat_other arrivals hid']

/-- Whatever fragments of a message arrive, in whatever order, repeated and mixed with fragments of
other messages: the message is delivered once, unchanged, at the call that completes
`dataCount` distinct fragments, and not at all if fewer arrive. -/
theorem reassembly_exactly_once (m : Message) (hcount : m.dataCount ≤ 255) (lateMultiplier : Float)
    (maxMessageBytes : ℕ) (hmax : m.payload.length ≤ maxMessageBytes) (peer : Peer)
    (hslots : SlotsOk peer) (hidle : peer.incoming[m.id]? = none)
    (hnew : m.id ∉ peer.completed) (arrivals : List Arrival) (harr : m.Honest arrivals) :
    ∃ peer' outs,
      Machine.run (receive lateMultiplier maxMessageBytes) peer arrivals = .ok (peer', outs) ∧
      deliveries m.id arrivals outs =
        (if m.dataCount ≤ (seen m.id arrivals).card then [m.payload] else []) ∧
      ∀ before a after, arrivals = before ++ a :: after → a.header.messageId = m.id →
        outs[before.length]? = some
          (if (seen m.id before).card < m.dataCount ∧
              m.dataCount ≤ (seen m.id (before ++ [a])).card
            then some m.payload else none) := by
  have hpeer := progress_empty hslots hidle hnew
  obtain ⟨peer', outs, hrun, -, hdel⟩ := run_progress lateMultiplier hcount hmax hpeer arrivals harr
  refine ⟨peer', outs, hrun, hdel, ?_⟩
  rintro before a after rfl hid
  obtain ⟨peer₁, outs₁, hrun₁, hprog, -⟩ := run_progress lateMultiplier hcount hmax hpeer before
    fun b hb => harr b (List.mem_append_left _ hb)
  obtain ⟨peer₁', outs₁', outs₂, hrun₁', hrest, rfl⟩ := Machine.run_append_ok.mp hrun
  obtain ⟨rfl, rfl⟩ := Prod.mk.inj (Except.ok.inj (hrun₁.symm.trans hrun₁'))
  obtain ⟨peer₂, o, outs₃, hstep, -, rfl⟩ := Machine.run_cons_ok.mp hrest
  have ha : m.Carries a := by
    rcases harr a (List.mem_append_right _ List.mem_cons_self) with ha | ⟨m', hne, ha⟩
    · exact ha
    · obtain ⟨i, -, hid', -⟩ := ha.exists_index
      exact absurd (hid'.symm.trans hid) hne
  obtain ⟨peer₂', hstep', -⟩ := progress_own lateMultiplier hcount hmax hprog ha
  obtain ⟨-, rfl⟩ := Prod.mk.inj (Except.ok.inj (hstep.symm.trans hstep'))
  rw [← Machine.length_of_run_ok hrun₁, List.getElem?_append_right le_rfl, Nat.sub_self,
    List.getElem?_cons_zero, seen_concat_self before hid]

/-- A message of 150 bytes, with three data and two parity fragments. -/
def threeParts : Message where
  id := 1
  payload := List.replicate 150 7
  mtu := 112
  parityCount := 2
  buffers := []
  id_ne_zero := by decide
  mtu_bounds := by decide
  parity_bounds := by decide
  count_fits := by decide +kernel

/-- A message of one byte, with one data and one parity fragment. -/
def oneByte : Message where
  id := 2
  payload := [7]
  mtu := 112
  parityCount := 1
  buffers := []
  id_ne_zero := by decide
  mtu_bounds := by decide
  parity_bounds := by decide
  count_fits := by decide

/-- Fragment `i` of a message is received. -/
def received (m : Message) (i : ℕ) : List Arrival :=
  ((m.fragments.drop i).take 1).map fun frag =>
    { header := (dataPacket 0 0 1 0 frag).1, payload := (dataPacket 0 0 1 0 frag).2 }

lemma carries_received (h : a ∈ received m i) : m.Carries a := by
  obtain ⟨frag, hfrag, rfl⟩ := List.mem_map.mp h
  exact m.carries_dataPacket (List.mem_of_mem_drop (List.mem_of_mem_take hfrag)) 0 0 1 0 0 ⟨0, 0⟩

/-- The last parity fragment comes first and the second data fragment twice, with a fragment of
another message in between; the third data fragment is lost. -/
def mixed : List Arrival :=
  received threeParts 4 ++ received threeParts 1 ++ received oneByte 0 ++ received threeParts 1 ++
    received threeParts 0

theorem reassembly_exactly_once_mixed :
    ∃ peer' outs, Machine.run (receive 4.0 65536) {} mixed = .ok (peer', outs) ∧
      deliveries 1 mixed outs = [List.replicate 150 7] := by
  have hhonest : threeParts.Honest mixed := by
    intro a ha
    simp only [mixed, List.mem_append] at ha
    rcases ha with (((ha | ha) | ha) | ha) | ha
    · exact Or.inl (carries_received ha)
    · exact Or.inl (carries_received ha)
    · exact Or.inr ⟨oneByte, by decide, carries_received ha⟩
    · exact Or.inl (carries_received ha)
    · exact Or.inl (carries_received ha)
  obtain ⟨peer', outs, hrun, hdel, -⟩ := reassembly_exactly_once threeParts
    (by decide +kernel) 4.0 65536 (by decide +kernel) {} (fun k slot hget => absurd hget (by simp))
      (by simp) (by simp) mixed hhonest
  exact ⟨peer', outs, hrun, hdel.trans (if_pos (by decide +kernel))⟩

end Message
end Damen
