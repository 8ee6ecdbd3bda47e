import Damen.Model.Fragmenter
import Damen.Model.Reassembler
import Damen.Properties.Assembly

/-!
# What an honest sender emits

`Message` is a message `fragment_and_send` was called on, with the choices it made.  Fragment `i`
of it travels as `padded i`, zero-padded to the width; `Carries` says that a call of `handle_data`
is made with one of its fragments.  The sequence number, the tick and the identities in the header
are free: they play no role in reassembly.

The streams a receiver can put together out of the fragments are described by `flatten_pieces`:
whichever data fragments it recovered at full width, the stream begins with the original one.
-/

namespace Damen

/-! ## Fragments -/

namespace Fragmenter

/-- Message id and index of a fragment. -/
def keyOf (frag : Fragment) : UInt32 × UInt16 := (frag.msgId, frag.idx)

lemma length_spans (payload : Bytes) (width : ℕ) :
    (spans payload width).length = dataCountOf payload width := by
  rw [spans, List.length_map, List.length_range]

lemma length_fragmentsOf (msgId : UInt32) (payload : Bytes) (mtu : ℕ) (parityCount : UInt16)
    (buffers : List Bytes) :
    (fragmentsOf msgId payload mtu parityCount buffers).1.length =
      dataCountOf payload (fragPayload mtu) + parityCount.toNat := by
  rw [fragmentsOf, List.length_append, List.length_mapIdx, length_spans, List.length_map,
    List.length_range]

/-- The fragments of a message are numbered from zero. -/
lemma fragmentsOf_keys (msgId : UInt32) (payload : Bytes) (mtu : ℕ) (parityCount : UInt16)
    (buffers : List Bytes) :
    (fragmentsOf msgId payload mtu parityCount buffers).1.map keyOf =
      (List.range (fragmentsOf msgId payload mtu parityCount buffers).1.length).map fun i =>
        (msgId, UInt16.ofNat i) := by
  rw [length_fragmentsOf, List.range_add, List.map_append, List.map_map, fragmentsOf]
  simp only [List.map_append, List.map_map]
  refine congrArg₂ _ ?_ rfl
  apply List.ext_getElem
  · rw [List.length_map, List.length_mapIdx, length_spans, List.length_map, List.length_range]
  · intro i hi hi'
    simp only [List.getElem_map, List.getElem_mapIdx, List.getElem_range, keyOf]

lemma length_fullStream (payload : Bytes) : (fullStream payload).length = 4 + payload.length := by
  rw [fullStream, List.length_append, length_put32]

lemma dataCountOf_eq (payload : Bytes) {width : ℕ} (hwidth : 0 < width) :
    dataCountOf payload width = (4 + payload.length + width - 1) / width := by
  unfold dataCountOf
  rw [length_fullStream]
  have hpos : 0 < (4 + payload.length + width - 1) / width := Nat.div_pos (by omega) hwidth
  simp only [if_neg hpos.ne']

/-- All but the last data fragment are full, and the last is not empty. -/
lemma dataCountOf_spec (payload : Bytes) {width : ℕ} (hwidth : 0 < width) :
    (dataCountOf payload width - 1) * width < 4 + payload.length ∧
      4 + payload.length ≤ dataCountOf payload width * width ∧ 1 ≤ dataCountOf payload width := by
  have hdiv := Nat.div_add_mod (4 + payload.length + width - 1) width
  have hmod := Nat.mod_lt (4 + payload.length + width - 1) hwidth
  rw [← dataCountOf_eq payload hwidth] at hdiv
  have hone : 1 ≤ dataCountOf payload width := by
    rw [dataCountOf_eq payload hwidth]
    exact Nat.div_pos (by omega) hwidth
  generalize dataCountOf payload width = n at hdiv hone ⊢
  have hcomm : width * n = n * width := Nat.mul_comm _ _
  have hsub : (n - 1) * width + width = n * width := by
    rw [← Nat.succ_mul]
    congr 1
    omega
  omega

end Fragmenter

open Fragmenter Reassembler ReedSolomon

/-! ## Messages -/

/-- A message of an honest sender. -/
structure Message where
  id : UInt32
  payload : Bytes
  mtu : ℕ
  parityCount : UInt16
  /-- The parity buffers as the previous message left them. -/
  buffers : List Bytes
  id_ne_zero : id ≠ 0
  mtu_bounds : 64 ≤ mtu - kHeaderSize ∧ mtu - kHeaderSize ≤ 65535
  parity_bounds : 1 ≤ parityCount.toNat ∧ parityCount.toNat ≤ 3
  /-- The number of fragments fits its header field. -/
  count_fits : dataCountOf payload (fragPayload mtu) + parityCount.toNat < 65536

namespace Message

variable (m : Message)

/-- Bytes of payload in a fragment. -/
def width : ℕ := fragPayload m.mtu

def dataCount : ℕ := dataCountOf m.payload m.width

/-- The number of fragments, data and parity. -/
def total : ℕ := m.dataCount + m.parityCount.toNat

def fragments : List Fragment :=
  (fragmentsOf m.id m.payload m.mtu m.parityCount m.buffers).1

/-- The stretch of the stream in data fragment `i`. -/
def span (i : ℕ) : Bytes := ((fullStream m.payload).drop (i * m.width)).take m.width

/-- The bytes `send_fragment` is given for fragment `i`. -/
def body (i : ℕ) : Bytes :=
  if i < m.dataCount then m.span i
  else ((encodeInto (spans m.payload m.width) m.parityCount.toNat m.width m.buffers).getD
    (i - m.dataCount) []).take m.width

/-- Fragment `i` as it is sent. -/
def padded (i : ℕ) : Bytes := resize (m.body i) m.width

/-- The size field of fragment `i`. -/
def realSize (i : ℕ) : ℕ := if i < m.dataCount then (m.span i).length else m.width

/-- A call of `handle_data` with one of the fragments of the message. -/
def Carries (a : Arrival) : Prop :=
  ∃ frag ∈ m.fragments, a.header.messageId = frag.msgId ∧ a.header.fragmentIndex = frag.idx ∧
    a.header.fragmentCount = frag.cnt ∧ a.header.flags = frag.dataCnt ∧
    a.header.reserved = frag.realSize ∧ a.payload = resize frag.data frag.width

/-- What `send_data_packet` sends carries the fragment. -/
lemma carries_dataPacket {frag : Fragment} (h : frag ∈ m.fragments) (clientId : UInt32)
    (sessionId : UInt64) (sequence tick rttUs : UInt32) (clock : Clock) :
    m.Carries { header := (dataPacket clientId sessionId sequence tick frag).1
                payload := (dataPacket clientId sessionId sequence tick frag).2
                rttUs, clock } :=
  ⟨frag, h, rfl, rfl, rfl, rfl, rfl, rfl⟩

/-! ## Sizes -/

lemma width_eq : m.width = m.mtu - kHeaderSize := by
  have hb := m.mtu_bounds
  have hmtu : kHeaderSize < m.mtu := by omega
  unfold width fragPayload
  simp only [if_pos hmtu]
  exact if_neg (by omega)

lemma width_bounds : 64 ≤ m.width ∧ m.width ≤ 65535 := by
  rw [width_eq]
  exact m.mtu_bounds

lemma dataCount_spec : (m.dataCount - 1) * m.width < 4 + m.payload.length ∧
    4 + m.payload.length ≤ m.dataCount * m.width ∧ 1 ≤ m.dataCount :=
  dataCountOf_spec m.payload (by have hw := m.width_bounds; omega)

lemma length_span_le (i : ℕ) : (m.span i).length ≤ m.width := List.length_take_le _ _

lemma length_span {i : ℕ} (hi : i + 1 < m.dataCount) : (m.span i).length = m.width := by
  have hspec := m.dataCount_spec.1
  have hle : (i + 1) * m.width ≤ (m.dataCount - 1) * m.width :=
    Nat.mul_le_mul_right _ (by omega)
  rw [Nat.succ_mul] at hle
  rw [span, List.length_take, List.length_drop, length_fullStream]
  omega

lemma length_padded (i : ℕ) : (m.padded i).length = m.width := length_resize _ _

lemma realSize_le (i : ℕ) : m.realSize i ≤ m.width := by
  unfold realSize
  split
  · exact m.length_span_le i
  · exact le_rfl

lemma spans_eq : spans m.payload m.width = (List.range m.dataCount).map m.span := rfl

lemma length_spans : (spans m.payload m.width).length = m.dataCount :=
  Fragmenter.length_spans m.payload m.width

lemma getD_spans {i : ℕ} (hi : i < m.dataCount) :
    (spans m.payload m.width).getD i [] = m.span i := by
  rw [spans_eq, List.getD_eq_getElem _ _ (by simpa using hi), List.getElem_map,
    List.getElem_range]

/-- The receiver's limit on the number of fragments is generous enough. -/
lemma total_le {maxMessageBytes : ℕ} (hmax : m.payload.length ≤ maxMessageBytes) :
    m.total ≤ maxMessageBytes / 64 + 8 := by
  have hw := m.width_bounds
  have hspec := m.dataCount_spec
  have hmul : (m.dataCount - 1) * 64 ≤ (m.dataCount - 1) * m.width :=
    Nat.mul_le_mul_left _ hw.1
  have hpar := m.parity_bounds
  unfold total
  omega

lemma total_lt : m.total < 65536 := m.count_fits

/-! ## Header fields -/

/-- The header of a call that carries the message names it, its counts and the fragment. -/
lemma Carries.exists_index {m : Message} {a : Arrival} (h : m.Carries a) :
    ∃ i < m.total, a.header.messageId = m.id ∧ a.header.fragmentIndex.toNat = i ∧
      a.header.fragmentCount.toNat = m.total ∧ a.header.flags.toNat = m.dataCount ∧
      a.header.reserved.toNat = m.realSize i ∧ a.payload = m.padded i := by
  obtain ⟨frag, hmem, hid, hidx, hcnt, hflags, hsize, hpayload⟩ := h
  have htotal := m.total_lt
  have hw := m.width_bounds
  have hcount : (UInt16.ofNat m.total).toNat = m.total := UInt16.toNat_ofNat_of_lt' htotal
  have hdata : (UInt16.ofNat m.dataCount).toNat = m.dataCount :=
    UInt16.toNat_ofNat_of_lt' (lt_of_le_of_lt (Nat.le_add_right _ _) htotal)
  rcases List.mem_append.mp hmem with hmem | hmem
  · obtain ⟨i, hi, rfl⟩ := List.mem_iff_getElem.mp hmem
    rw [List.length_mapIdx] at hi
    have hi' : i < m.dataCount := m.length_spans ▸ hi
    have hspan : (spans m.payload (fragPayload m.mtu))[i] = m.span i :=
      (List.getD_eq_getElem _ [] hi).symm.trans (m.getD_spans hi')
    simp only [List.getElem_mapIdx, hspan] at hid hidx hcnt hflags hsize hpayload
    have hit : i < m.total := lt_of_lt_of_le hi' (Nat.le_add_right _ _)
    refine ⟨i, hit, hid, ?_, ?_, ?_, ?_, ?_⟩
    · rw [hidx]
      exact UInt16.toNat_ofNat_of_lt' (lt_trans hit htotal)
    · rw [hcnt]
      exact hcount
    · rw [hflags]
      exact hdata
    · rw [hsize, realSize, if_pos hi']
      exact UInt16.toNat_ofNat_of_lt'
        (show _ < 65536 from lt_of_le_of_lt (m.length_span_le i) (by omega))
    · rw [hpayload, padded, body, if_pos hi']
      rfl
  · obtain ⟨p, hp, rfl⟩ := List.mem_map.mp hmem
    have hp := List.mem_range.mp hp
    have hit : m.dataCount + p < m.total := Nat.add_lt_add_left hp _
    have hnot : ¬ m.dataCount + p < m.dataCount := by omega
    refine ⟨m.dataCount + p, hit, hid, ?_, ?_, ?_, ?_, ?_⟩
    · rw [hidx]
      exact UInt16.toNat_ofNat_of_lt' (lt_trans hit htotal)
    · rw [hcnt]
      exact hcount
    · rw [hflags]
      exact hdata
    · rw [hsize, realSize, if_neg hnot]
      exact UInt16.toNat_ofNat_of_lt' (show m.width < 65536 by omega)
    · rw [hpayload, padded, body, if_neg hnot, Nat.add_sub_cancel_left]
      rfl

lemma Carries.not_overdeclared {m : Message} {a : Arrival} (h : m.Carries a) (peer : Peer)
    (maxMessageBytes : ℕ) : ¬ Overdeclared peer a.header maxMessageBytes := by
  obtain ⟨i, -, -, -, hcnt, hflags, -⟩ := h.exists_index
  rintro ⟨-, -, -, hlt⟩
  have hnat : a.header.fragmentCount.toNat < a.header.flags.toNat := hlt
  rw [hcnt, hflags, total] at hnat
  omega

/-! ## Parity fragments -/

lemma vec_padded_data {i : ℕ} (hi : i < m.dataCount) :
    vec m.width (m.padded i) = vec m.width (m.span i) := by
  rw [padded, vec_resize, body, if_pos hi]

lemma vec_padded_parity {p : ℕ} (hp : p < m.parityCount.toNat) :
    vec m.width (m.padded (m.dataCount + p)) = paritySum m.width (spans m.payload m.width) p := by
  rw [padded, vec_resize, body, if_neg (by omega), Nat.add_sub_cancel_left,
    getD_encodeInto (spans m.payload m.width) m.width m.buffers hp, vec_take, vec_encodeRow]

/-! ## The stream -/

lemma flatten_chunks (l : Bytes) (w n : ℕ) :
    ((List.range n).map fun i => (l.drop (i * w)).take w).flatten = l.take (n * w) := by
  induction n with
  | zero => simp
  | succ n ih =>
      rw [List.range_succ, List.map_append, List.flatten_append, ih, Nat.succ_mul, List.take_add]
      simp

/-- Data fragments, some of them at full width, make up the stream and padding. -/
lemma flatten_pieces (pieces : ℕ → Bytes)
    (h : ∀ i < m.dataCount, pieces i = m.span i ∨ pieces i = m.padded i) :
    ∃ rest, ((List.range m.dataCount).map pieces).flatten =
      put32 (UInt32.ofNat m.payload.length) ++ (m.payload ++ rest) := by
  obtain ⟨-, hle, hone⟩ := m.dataCount_spec
  have hpad : ∀ i < m.dataCount, m.padded i =
      m.span i ++ List.replicate (m.width - (m.span i).length) 0 := by
    intro i hi
    rw [padded, body, if_pos hi, resize, List.take_of_length_le (m.length_span_le i)]
  obtain ⟨n, hn⟩ : ∃ n, m.dataCount = n + 1 := ⟨m.dataCount - 1, by omega⟩
  -- All but the last fragment are full, so padding changes only the last one.
  have hinit : (List.range n).map pieces = (List.range n).map m.span := by
    refine List.map_congr_left fun i hi => ?_
    have hi := List.mem_range.mp hi
    rcases h i (by omega) with hspan | hpadded
    · exact hspan
    · rw [hpadded, hpad i (by omega), m.length_span (by omega), Nat.sub_self]
      exact List.append_nil _
  obtain ⟨rest, hrest⟩ : ∃ rest, pieces n = m.span n ++ rest := by
    rcases h n (by omega) with hspan | hpadded
    · exact ⟨[], by rw [hspan, List.append_nil]⟩
    · exact ⟨_, by rw [hpadded, hpad n (by omega)]⟩
  have hspans : ((List.range (n + 1)).map m.span).flatten = fullStream m.payload := by
    refine (flatten_chunks _ _ _).trans (List.take_of_length_le ?_)
    rw [length_fullStream, ← hn]
    exact hle
  refine ⟨rest, ?_⟩
  rw [List.range_succ, List.map_append, List.flatten_append] at hspans
  rw [hn, List.range_succ, List.map_append, List.flatten_append, hinit]
  simp only [List.map_cons, List.map_nil, List.flatten_cons, List.flatten_nil,
    List.append_nil] at hspans ⊢
  rw [hrest, ← List.append_assoc, hspans, fullStream, List.append_assoc]

lemma payload_lt : m.payload.length < 2 ^ 32 := by
  have hw := m.width_bounds
  have hspec := m.dataCount_spec
  have hcount : m.dataCount ≤ 65535 := by
    have htotal := m.total_lt
    unfold total at htotal
    omega
  have hmul : m.dataCount * m.width ≤ 65535 * 65535 := Nat.mul_le_mul hcount hw.2
  omega

end Message
end Damen
