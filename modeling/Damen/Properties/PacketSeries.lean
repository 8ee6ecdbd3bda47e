import Mathlib.Data.List.ReduceOption
import Damen.Properties.Assembly

/-!
# The packets of one message

A `Series` is what the headers of the packets of one message have in common, whoever sent them.

* `Series.run_inOrder`: packets that come in order fill a slot from the front (`Filled`), and the
  message is built from the first `dataCount` of them, once;
* `Series.run_short`: whatever the order, a message that is delivered is not longer than its data
  packets;
* `Series.run_refused`: above the limit on the number of fragments nothing is delivered.
-/

namespace Damen

open Std (ExtTreeMap)

namespace Reassembler

/-! ## The packets of one message -/

/-- What the headers of the packets of one message have in common. -/
structure Series where
  id : UInt32
  count : UInt16
  flags : UInt16

/-- The stretch of the stream in a packet. -/
def pieceOf (a : Arrival) : Bytes := a.payload.take (min a.header.reserved.toNat a.payload.length)

namespace Series

variable {s : Series} {late : Float} {maxMessageBytes : ℕ}

/-- The number of packets the receiver builds the message from. -/
def dataCount (s : Series) : ℕ := if 0 < s.flags then s.flags.toNat else s.count.toNat - 1

/-- The header is one of the series. -/
structure Has (s : Series) (header : PacketHeader) : Prop where
  messageId : header.messageId = s.id
  fragmentCount : header.fragmentCount = s.count
  flags : header.flags = s.flags

/-- The slot has the counts of the series. -/
structure Counts (s : Series) (slot : IncomingMessage) : Prop where
  totalCount : slot.totalCount = s.count
  dataCount : slot.dataCount = s.flags

variable {slot : IncomingMessage} {header : PacketHeader} {done todo arrivals : List Arrival}
  {a : Arrival} {peer peer' : Peer} {outs : List (Option Bytes)}

lemma Counts.effectiveDataCount (h : s.Counts slot) : effectiveDataCount slot = s.dataCount := by
  rw [Reassembler.effectiveDataCount, h.totalCount, h.dataCount, Series.dataCount]

lemma counts_openSlot (h : s.Has header) (now : TimePoint) : s.Counts (openSlot header now) :=
  ⟨h.fragmentCount, h.flags⟩

lemma counts_storeFragment (h : s.Counts slot) (header : PacketHeader) (payload : Bytes) :
    s.Counts (storeFragment slot header payload) := by
  unfold storeFragment
  simp only
  split
  · exact h
  · exact ⟨h.totalCount, h.dataCount⟩

/-! ## Filling a slot from the front -/

/-- The slot holds the packets in `done`, which are the first ones of the series. -/
structure Filled (s : Series) (done : List Arrival) (slot : IncomingMessage) : Prop where
  messageId : slot.messageId = s.id
  counts : s.Counts slot
  fragments : slot.fragments =
    done.map (fun a => some a.payload) ++ List.replicate (s.count.toNat - done.length) none
  sizes : slot.sizes =
    done.map (fun a => a.header.reserved) ++ List.replicate (s.count.toNat - done.length) 0

lemma filled_openSlot (h : s.Has header) (now : TimePoint) :
    s.Filled [] (openSlot header now) where
  messageId := h.messageId
  counts := counts_openSlot h now
  fragments := by
    rw [openSlot, h.fragmentCount]
    rfl
  sizes := by
    rw [openSlot, h.fragmentCount]
    rfl

lemma Filled.length_fragments (h : s.Filled done slot) (hdone : done.length ≤ s.count.toNat) :
    slot.fragments.length = s.count.toNat := by
  rw [h.fragments, List.length_append, List.length_map, List.length_replicate]
  omega

lemma set_append_replicate {α : Type} (l : List α) (n : ℕ) (x y : α) :
    (l ++ List.replicate (n + 1) y).set l.length x = l ++ [x] ++ List.replicate n y := by
  rw [List.set_append_right _ _ le_rfl, Nat.sub_self, List.replicate_succ, List.set_cons_zero,
    List.append_assoc, List.singleton_append]

/-- The next packet goes to the first free place. -/
lemma filled_storeFragment (h : s.Filled done slot) (hdone : done.length < s.count.toNat)
    (hidx : a.header.fragmentIndex.toNat = done.length) :
    s.Filled (done ++ [a]) (storeFragment slot a.header a.payload) := by
  obtain ⟨n, hn⟩ : ∃ n, s.count.toNat - done.length = n + 1 :=
    ⟨s.count.toNat - done.length - 1, by omega⟩
  have hrest : s.count.toNat - (done ++ [a]).length = n := by
    rw [List.length_append, List.length_singleton]
    omega
  have hfragments := h.fragments
  have hsizes := h.sizes
  rw [hn] at hfragments hsizes
  have hfree : slot.fragments.getD done.length none = none := by
    rw [hfragments, List.getD_eq_getElem?_getD,
      List.getElem?_append_right (by rw [List.length_map]), List.length_map, Nat.sub_self]
    rfl
  have hstore : storeFragment slot a.header a.payload = { slot with
      fragments := slot.fragments.set done.length (some a.payload)
      sizes := slot.sizes.set done.length a.header.reserved } := by
    unfold storeFragment
    simp only [hidx, hfree, Option.isSome_none, Bool.false_eq_true, if_false]
  have hcounts := counts_storeFragment h.counts a.header a.payload
  rw [hstore] at hcounts ⊢
  refine ⟨h.messageId, hcounts, ?_, ?_⟩
  · have hset := set_append_replicate (done.map fun a => some a.payload) n (some a.payload) none
    rw [List.length_map] at hset
    rw [hfragments, hset, hrest, List.map_append, List.map_singleton]
  · have hset := set_append_replicate (done.map fun a => a.header.reserved) n a.header.reserved 0
    rw [List.length_map] at hset
    rw [hsizes, hset, hrest, List.map_append, List.map_singleton]

/-- Which fragments a filled slot has. -/
lemma Filled.getD_fragments (h : s.Filled done slot) (i : ℕ) :
    slot.fragments.getD i none = done[i]?.map fun a => a.payload := by
  rw [h.fragments, List.getD_eq_getElem?_getD]
  by_cases hi : i < done.length
  · rw [List.getElem?_append_left (by rwa [List.length_map]), List.getElem?_map,
      List.getElem?_eq_getElem hi]
    rfl
  · rw [List.getElem?_append_right (by rw [List.length_map]; omega), List.getElem?_replicate,
      List.getElem?_eq_none (not_lt.mp hi)]
    split <;> rfl

/-- Without the last data packets and without parity nothing is built. -/
lemma tryAssemble_waiting (h : s.Filled done slot) (htwo : 2 ≤ s.count.toNat)
    (hle : s.dataCount ≤ s.count.toNat) (hdone : done.length < s.dataCount) :
    tryAssemble slot maxMessageBytes = .ok none := by
  have hlen := h.length_fragments (hdone.le.trans hle)
  have htotal : ¬ slot.totalCount < 2 := by
    rw [h.counts.totalCount]
    exact not_lt.mpr htwo
  have hcount := h.counts.effectiveDataCount
  have hnone : ∀ i, done.length ≤ i → slot.fragments.getD i none = none := by
    intro i hi
    rw [h.getD_fragments, List.getElem?_eq_none hi]
    rfl
  unfold tryAssemble
  rw [if_neg htotal]
  simp only [hcount, h.counts.totalCount, if_neg (not_lt.mpr hle),
    mapM_fragmentAt (hle.trans hlen.ge)]
  generalize hfrags : (List.range s.dataCount).map (fun i => slot.fragments.getD i none) = dataFrags
  have hlast : none ∈ dataFrags := by
    rw [← hfrags]
    exact List.mem_map.mpr ⟨done.length, List.mem_range.mpr hdone, hnone _ le_rfl⟩
  have hlength : dataFrags.length = s.dataCount := by
    rw [← hfrags, List.length_map, List.length_range]
  have hmissing : ¬ (dataFrags.filter Option.isSome).length = s.dataCount := by
    rw [← hlength, List.length_filter_eq_length_iff]
    intro hall
    exact absurd (hall none hlast) (by simp)
  have hmulti : 0 < (dataFrags.filter Option.isNone).length :=
    List.length_pos_of_mem (List.mem_filter.mpr ⟨hlast, rfl⟩)
  have hparities : receivedParities slot.fragments s.dataCount (s.count.toNat - s.dataCount) =
      [] := by
    refine List.filterMap_eq_nil_iff.mpr fun p _ => ?_
    rw [hnone _ (by omega)]
    rfl
  rw [if_neg hmissing, recover]
  simp only [hparities, List.length_nil, hmulti, if_true, ite_self]

/-- With the last data packet the message is built from all of them. -/
lemma tryAssemble_complete (h : s.Filled done slot) (htwo : 2 ≤ s.count.toNat)
    (hle : s.dataCount ≤ s.count.toNat) (hdone : done.length = s.dataCount) :
    tryAssemble slot maxMessageBytes =
      .ok (some (messageOf (done.map pieceOf) maxMessageBytes)) := by
  have hlen := h.length_fragments (hdone.trans_le hle)
  have htotal : ¬ slot.totalCount < 2 := by
    rw [h.counts.totalCount]
    exact not_lt.mpr htwo
  have hget : ∀ (i : ℕ) (hi : i < done.length),
      slot.fragments.getD i none = some done[i].payload := by
    intro i hi
    rw [h.getD_fragments, List.getElem?_eq_getElem hi]
    rfl
  have hsize : ∀ (i : ℕ) (hi : i < done.length), slot.sizes.getD i 0 = done[i].header.reserved := by
    intro i hi
    rw [h.sizes, List.getD_eq_getElem?_getD, List.getElem?_append_left (by rwa [List.length_map]),
      List.getElem?_map, List.getElem?_eq_getElem hi]
    rfl
  have hsizes : s.dataCount ≤ slot.sizes.length := by
    rw [h.sizes, List.length_append, List.length_map]
    omega
  have hbuild : buildMsg slot s.dataCount maxMessageBytes =
      .ok (messageOf (done.map pieceOf) maxMessageBytes) := by
    rw [buildMsg_ok slot (fun i => (slot.fragments.getD i none).getD []) maxMessageBytes hsizes
      (hle.trans hlen.ge) fun i hi => by rw [hget i (hdone ▸ hi), Option.getD_some]]
    refine congrArg (fun pieces => Except.ok (messageOf pieces maxMessageBytes)) ?_
    apply List.ext_getElem
    · rw [List.length_map, List.length_range, List.length_map, hdone]
    · intro i hi hi'
      rw [List.length_map] at hi'
      rw [List.getElem_map, List.getElem_range, List.getElem_map, hget i hi', hsize i hi',
        Option.getD_some, pieceOf]
  have hall : (((List.range s.dataCount).map fun i => slot.fragments.getD i none).filter
      Option.isSome).length = s.dataCount := by
    rw [List.filter_eq_self.mpr, List.length_map, List.length_range]
    intro f hf
    obtain ⟨i, hi, rfl⟩ := List.mem_map.mp hf
    rw [hget i (hdone ▸ List.mem_range.mp hi), Option.isSome_some]
  unfold tryAssemble
  rw [if_neg htotal]
  simp only [h.counts.effectiveDataCount, h.counts.totalCount, if_neg (not_lt.mpr hle),
    mapM_fragmentAt (hle.trans hlen.ge), if_pos hall, hbuild]
  rfl

/-! ## A run in order -/

/-- How far the receiver is once it has the packets in `done`: it waits for more of them, and any
packet of the series finds the slot they fill, or the message is completed. -/
def Reached (s : Series) (done : List Arrival) (peer : Peer) : Prop :=
  if done.length < s.dataCount then
    s.id ∉ peer.completed ∧ ∀ header now, s.Has header → s.Filled done (slotFor peer header now)
  else s.id ∈ peer.completed

lemma reached_nil (hpos : 0 < s.dataCount) (hincoming : peer.incoming[s.id]? = none)
    (hcompleted : s.id ∉ peer.completed) : s.Reached [] peer := by
  rw [Reached, List.length_nil, if_pos hpos]
  refine ⟨hcompleted, fun header now hhas => ?_⟩
  have hslot : slotFor peer header now = openSlot header now := by
    unfold slotFor
    rw [ExtTreeMap.getD_eq_getD_getElem?, hhas.messageId, hincoming]
    rfl
  rw [hslot]
  exact filled_openSlot hhas now

lemma reached_bookkeep (late : Float) (a : Arrival) (h : s.Reached done peer) :
    s.Reached done (bookkeep late peer a) := by
  unfold Reached slotFor at h ⊢
  rw [bookkeep_incoming, bookkeep_completed]
  exact h

/-- The slot that was put in is the one the next packet finds. -/
lemma slotFor_insert (hid : s.id ≠ 0) (hslot : slot.messageId = s.id) (hhas : s.Has header)
    (now : TimePoint) :
    slotFor { peer with incoming := peer.incoming.insert s.id slot } header now = slot := by
  unfold slotFor
  rw [hhas.messageId, ExtTreeMap.getD_eq_getD_getElem?, ExtTreeMap.getElem?_insert_self,
    Option.getD_some]
  exact if_neg (by rw [hslot]; exact hid)

/-- The packet that completes the data delivers the message, and no other does. -/
lemma receive_next (late : Float) (hid : s.id ≠ 0) (htwo : 2 ≤ s.count.toNat)
    (hle : s.dataCount ≤ s.count.toNat) (hlimit : s.count.toNat ≤ maxMessageBytes / 64 + 8)
    (hdone : done.length < s.count.toNat) (hhas : s.Has a.header)
    (hidx : a.header.fragmentIndex.toNat = done.length) (h : s.Reached done peer) :
    ∃ peer', receive late maxMessageBytes peer a = .ok (peer',
        if done.length + 1 = s.dataCount then
          some (messageOf ((done ++ [a]).map pieceOf) maxMessageBytes)
        else none) ∧
      s.Reached (done ++ [a]) peer' := by
  rw [receive_eq]
  replace h := reached_bookkeep late a h
  generalize bookkeep late peer a = peer at h
  have hlength : (done ++ [a]).length = done.length + 1 := List.length_append
  unfold collect
  by_cases hwait : done.length < s.dataCount
  · rw [Reached, if_pos hwait] at h
    obtain ⟨hcompleted, hslot⟩ := h
    replace hslot := hslot a.header a.clock.now hhas
    have hadm : Admitted peer a.header maxMessageBytes := by
      refine ⟨?_, ?_, ?_, ?_⟩
      · rw [hhas.fragmentCount]
        rintro hzero
        rw [hzero] at htwo
        exact absurd htwo (by decide)
      · rwa [hhas.messageId]
      · rw [UInt16.lt_iff_toNat_lt, hidx, hhas.fragmentCount]
        exact hdone
      · rwa [hhas.fragmentCount]
    generalize slotFor peer a.header a.clock.now = slot at hslot
    have hplace : ¬ (slot.totalCount ≠ a.header.fragmentCount ∨
        slot.fragments.length ≤ a.header.fragmentIndex.toNat) := by
      rw [hslot.length_fragments hdone.le, hidx, hslot.counts.totalCount, hhas.fragmentCount]
      simpa using hdone
    have hstored := filled_storeFragment hslot hdone hidx
    simp only [not_true, if_false, hadm, if_neg hplace, hhas.messageId]
    by_cases hlast : done.length + 1 = s.dataCount
    · rw [tryAssemble_complete hstored htwo hle (hlength.trans hlast)]
      refine ⟨_, by rw [if_pos hlast], ?_⟩
      rw [Reached, if_neg (by omega)]
      exact ExtTreeMap.mem_insert_self
    · rw [tryAssemble_waiting hstored htwo hle (by omega)]
      refine ⟨_, by rw [if_neg hlast], ?_⟩
      rw [Reached, if_pos (by omega)]
      refine ⟨hcompleted, fun header now hhas' => ?_⟩
      rw [slotFor_insert hid hstored.messageId hhas']
      exact hstored
  · rw [Reached, if_neg hwait] at h
    have hrefused : ¬ Admitted peer a.header maxMessageBytes := fun hadm =>
      hadm.2.1 (hhas.messageId ▸ h)
    simp only [hrefused, not_false_eq_true, if_true]
    refine ⟨peer, by rw [if_neg (by omega)], ?_⟩
    rw [Reached, if_neg (by omega)]
    exact h

/-- Packets that come in order, behind those in `done`. -/
def InOrder (s : Series) (done todo : List Arrival) : Prop :=
  ∀ (i : ℕ) (hi : i < todo.length), s.Has todo[i].header ∧
    todo[i].header.fragmentIndex.toNat = done.length + i

lemma InOrder.head (h : s.InOrder done (a :: todo)) :
    s.Has a.header ∧ a.header.fragmentIndex.toNat = done.length :=
  h 0 (Nat.succ_pos _)

lemma InOrder.tail (h : s.InOrder done (a :: todo)) : s.InOrder (done ++ [a]) todo := by
  intro i hi
  obtain ⟨hhas, hidx⟩ := h (i + 1) (Nat.succ_lt_succ hi)
  refine ⟨hhas, hidx.trans ?_⟩
  rw [List.length_append, List.length_singleton]
  omega

/-- In order, the message is delivered once, built from the first packets. -/
lemma run_inOrder (hid : s.id ≠ 0) (htwo : 2 ≤ s.count.toNat) (hle : s.dataCount ≤ s.count.toNat)
    (hlimit : s.count.toNat ≤ maxMessageBytes / 64 + 8)
    (hcount : done.length + todo.length ≤ s.count.toNat) (horder : s.InOrder done todo)
    (h : s.Reached done peer) :
    ∃ peer' outs, Machine.run (receive late maxMessageBytes) peer todo = .ok (peer', outs) ∧
      outs.reduceOption =
        if done.length < s.dataCount ∧ s.dataCount ≤ done.length + todo.length then
          [messageOf (((done ++ todo).take s.dataCount).map pieceOf) maxMessageBytes]
        else [] := by
  induction todo generalizing done peer with
  | nil =>
      refine ⟨peer, [], rfl, ?_⟩
      rw [if_neg (by rw [List.length_nil]; omega)]
      rfl
  | cons a todo ih =>
      rw [List.length_cons] at hcount ⊢
      obtain ⟨hhas, hidx⟩ := horder.head
      obtain ⟨peer', hstep, hreached⟩ := receive_next late hid htwo hle hlimit
        (by omega) hhas hidx h
      have hlength : (done ++ [a]).length = done.length + 1 := List.length_append
      obtain ⟨peer'', outs, hrun, houts⟩ := ih (by omega) horder.tail hreached
      refine ⟨peer'', _, Machine.run_cons_ok.mpr ⟨peer', _, outs, hstep, hrun, rfl⟩, ?_⟩
      rw [hlength, List.append_assoc, List.singleton_append] at houts
      by_cases hlast : done.length + 1 = s.dataCount
      · have htake : (done ++ a :: todo).take s.dataCount = done ++ [a] := by
          rw [← List.singleton_append, ← List.append_assoc]
          exact List.take_left' (hlength.trans hlast)
        rw [if_pos hlast, List.reduceOption_cons_of_some, houts, if_neg (by omega),
          if_pos (by omega), htake]
      · rw [if_neg hlast, List.reduceOption_cons_of_none, houts]
        have hiff : done.length + 1 < s.dataCount ∧ s.dataCount ≤ done.length + 1 + todo.length ↔
            done.length < s.dataCount ∧ s.dataCount ≤ done.length + (todo.length + 1) := by
          omega
        simp only [hiff]

/-! ## How long a message can be -/

lemma length_messageOf_le (pieces : List Bytes) :
    (messageOf pieces maxMessageBytes).length ≤ (pieces.map List.length).sum - 4 := by
  unfold messageOf
  simp only
  split_ifs with hshort hmax hcut
  · exact Nat.zero_le _
  · exact Nat.zero_le _
  all_goals
    rw [List.length_append, List.length_replicate, copyBody_eq, List.length_take]
    omega

/-- The results of `mapM`, one by one. -/
lemma forall₂_of_mapM_ok {α β ε : Type} {f : α → Except ε β} {l : List α} {ys : List β}
    (h : l.mapM f = .ok ys) : List.Forall₂ (fun x y => f x = .ok y) l ys := by
  induction l generalizing ys with
  | nil =>
      cases h
      exact .nil
  | cons x l ih =>
      rw [List.mapM_cons] at h
      cases hx : f x with
      | error e =>
          rw [hx] at h
          exact absurd h (by simp [bind, Except.bind])
      | ok y =>
          cases hl : l.mapM f with
          | error e =>
              rw [hx, hl] at h
              exact absurd h (by simp [bind, Except.bind])
          | ok ys' =>
              rw [hx, hl] at h
              cases h
              exact .cons hx (ih hl)

lemma length_piece_le {width i : ℕ} {piece : Bytes} (hsizes : ∀ n ∈ slot.sizes, n.toNat ≤ width)
    (h : slot.piece i = .ok piece) : piece.length ≤ width := by
  unfold IncomingMessage.piece at h
  by_cases hi : i < slot.sizes.length
  · rw [if_pos hi] at h
    have hsize : (slot.sizes.getD i 0).toNat ≤ width := by
      rw [List.getD_eq_getElem _ _ hi]
      exact hsizes _ (List.getElem_mem hi)
    split at h
    · exact absurd h (by simp)
    · exact absurd h (by simp)
    · cases h
      rw [List.length_take]
      omega
  · rw [if_neg hi] at h
    exact absurd h (by simp)

lemma length_buildMsg_le {width n : ℕ} {message : Bytes}
    (hsizes : ∀ n ∈ slot.sizes, n.toNat ≤ width)
    (h : buildMsg slot n maxMessageBytes = .ok message) : message.length ≤ n * width - 4 := by
  unfold buildMsg at h
  split at h
  · exact absurd h (by simp)
  · next pieces hpieces =>
    cases h
    have hall := forall₂_of_mapM_ok hpieces
    have hlength : pieces.length = n := by rw [← hall.length_eq, List.length_range]
    have hsum : (pieces.map List.length).sum ≤ (pieces.map List.length).length • width := by
      refine List.sum_le_card_nsmul _ _ fun l hl => ?_
      obtain ⟨piece, hpiece, rfl⟩ := List.mem_map.mp hl
      obtain ⟨i, hi, hget⟩ := List.mem_iff_getElem.mp hpiece
      have hread := hall.get (by rw [hall.length_eq]; exact hi) hi
      rw [List.get_eq_getElem, List.get_eq_getElem, ← hget] at *
      exact length_piece_le hsizes hread
    rw [List.length_map, hlength, smul_eq_mul] at hsum
    exact (length_messageOf_le pieces).trans (Nat.sub_le_sub_right hsum 4)

/-- Neither a size nor a fragment of the slot is above the width. -/
structure Narrow (width : ℕ) (slot : IncomingMessage) : Prop where
  sizes : ∀ n ∈ slot.sizes, n.toNat ≤ width
  fragments : ∀ b, some b ∈ slot.fragments → b.length ≤ width

lemma narrow_openSlot (width : ℕ) (header : PacketHeader) (now : TimePoint) :
    Narrow width (openSlot header now) where
  sizes n hn := by
    rw [List.eq_of_mem_replicate hn]
    exact Nat.zero_le _
  fragments b hb := absurd (List.eq_of_mem_replicate hb) (by simp)

lemma narrow_storeFragment {width : ℕ} (h : Narrow width slot) {payload : Bytes}
    (hsize : header.reserved.toNat ≤ width) (hpayload : payload.length ≤ width) :
    Narrow width (storeFragment slot header payload) := by
  unfold storeFragment
  simp only
  split
  · exact h
  · refine ⟨fun n hn => ?_, fun b hb => ?_⟩
    · rcases List.mem_or_eq_of_mem_set hn with hn | rfl
      · exact h.sizes n hn
      · exact hsize
    · rcases List.mem_or_eq_of_mem_set hb with hb | hb
      · exact h.fragments b hb
      · cases hb
        exact hpayload

lemma foldl_widen_le {width : ℕ} {fragments : List (Option Bytes)} {n : ℕ} (hn : n ≤ width)
    (h : ∀ b, some b ∈ fragments → b.length ≤ width) : fragments.foldl widen n ≤ width := by
  induction fragments generalizing n with
  | nil => exact hn
  | cons f fragments ih =>
      refine ih ?_ fun b hb => h b (List.mem_cons_of_mem f hb)
      cases f with
      | none => exact hn
      | some b => exact max_le hn (h b List.mem_cons_self)

/-- Recovered fragments are as wide as the widest one, and no wider. -/
lemma narrow_restore {width : ℕ} (h : Narrow width slot) (dataFrags : List (Option Bytes)) (n : ℕ) :
    ∀ k ∈ (restore slot dataFrags n (fragmentWidth slot.fragments)).sizes, k.toNat ≤ width := by
  intro k hk
  obtain ⟨i, hi, rfl⟩ := List.mem_iff_getElem.mp hk
  simp only [restore, List.getElem_mapIdx]
  split
  · exact (Nat.mod_le _ _).trans (foldl_widen_le (Nat.zero_le _) h.fragments)
  · exact h.sizes _ (List.getElem_mem _)

lemma eq_ok_of_map_some {ε α : Type} {r : Except ε α} {x : α} (h : r.map some = .ok (some x)) :
    r = .ok x := by
  cases r with
  | error e => exact absurd h (by simp [Except.map])
  | ok y =>
      cases h
      rfl

lemma buildMsg_of_recover {dataFrags : List (Option Bytes)} {n parityCount : ℕ} {message : Bytes}
    (h : recover slot dataFrags n parityCount maxMessageBytes = .ok (some message)) :
    ∃ dataFrags', buildMsg (restore slot dataFrags' n (fragmentWidth slot.fragments)) n
      maxMessageBytes = .ok message := by
  have hnone : ¬ (Except.ok none : Except Fault (Option Bytes)) = .ok (some message) := by simp
  unfold recover at h
  simp only at h
  split_ifs at h
  · exact absurd h hnone
  · exact absurd h hnone
  · exact absurd h hnone
  · exact absurd h hnone
  · split at h
    · exact absurd h hnone
    · exact ⟨_, eq_ok_of_map_some h⟩

lemma length_tryAssemble_le {width : ℕ} {message : Bytes} (hcounts : s.Counts slot)
    (h : Narrow width slot) (hbuilt : tryAssemble slot maxMessageBytes = .ok (some message)) :
    message.length ≤ s.dataCount * width - 4 := by
  unfold tryAssemble at hbuilt
  simp only [hcounts.effectiveDataCount] at hbuilt
  split at hbuilt
  · exact absurd hbuilt (by simp)
  · split at hbuilt
    · exact absurd hbuilt (by simp)
    · split at hbuilt
      · exact absurd hbuilt (by simp)
      · split at hbuilt
        · exact length_buildMsg_le h.sizes (eq_ok_of_map_some hbuilt)
        · obtain ⟨dataFrags', hbuild⟩ := buildMsg_of_recover hbuilt
          exact length_buildMsg_le (narrow_restore h dataFrags' _) hbuild

/-- The slot of the series, if there is one, is narrow and has its counts. -/
def Within (s : Series) (width : ℕ) (peer : Peer) : Prop :=
  ∀ slot, peer.incoming[s.id]? = some slot → s.Counts slot ∧ Narrow width slot

lemma Within.slotFor {width : ℕ} (h : s.Within width peer) (hhas : s.Has header) (now : TimePoint) :
    s.Counts (slotFor peer header now) ∧ Narrow width (slotFor peer header now) := by
  unfold Reassembler.slotFor
  simp only
  split
  · exact ⟨counts_openSlot hhas now, narrow_openSlot width header now⟩
  · next hne =>
    rw [hhas.messageId, ExtTreeMap.getD_eq_getD_getElem?] at hne ⊢
    cases hget : peer.incoming[s.id]? with
    | none =>
        rw [hget] at hne
        exact absurd rfl hne
    | some slot => exact h slot hget

lemma within_insert {width : ℕ} (hcounts : s.Counts slot) (hnarrow : Narrow width slot) :
    s.Within width { peer with incoming := peer.incoming.insert s.id slot } := by
  intro slot' hget
  rw [ExtTreeMap.getElem?_insert_self] at hget
  cases hget
  exact ⟨hcounts, hnarrow⟩

/-- The packet is one of the series and not above the width. -/
structure Fits (s : Series) (width : ℕ) (a : Arrival) : Prop where
  has : s.Has a.header
  reserved : a.header.reserved.toNat ≤ width
  payload : a.payload.length ≤ width

/-- A message that is delivered is not longer than its data packets. -/
lemma receive_short {width : ℕ} {o : Option Bytes} (h : s.Within width peer) (ha : s.Fits width a)
    (hstep : receive late maxMessageBytes peer a = .ok (peer', o)) :
    s.Within width peer' ∧ ∀ message, o = some message →
      message.length ≤ s.dataCount * width - 4 := by
  rw [receive_eq] at hstep
  replace h : s.Within width (bookkeep late peer a) := by
    unfold Within
    rw [bookkeep_incoming]
    exact h
  generalize bookkeep late peer a = peer at h hstep
  obtain ⟨hcounts, hnarrow⟩ := h.slotFor ha.has a.clock.now
  have hcounts' := counts_storeFragment hcounts a.header a.payload
  have hnarrow' := narrow_storeFragment hnarrow ha.reserved ha.payload
  unfold collect at hstep
  simp only [ha.has.messageId] at hstep
  split at hstep
  · cases hstep
    exact ⟨h, fun message hm => absurd hm (by simp)⟩
  · split at hstep
    · cases hstep
      exact ⟨within_insert hcounts hnarrow, fun message hm => absurd hm (by simp)⟩
    · split at hstep
      · exact absurd hstep (by simp)
      · cases hstep
        exact ⟨within_insert hcounts' hnarrow', fun message hm => absurd hm (by simp)⟩
      · next message hbuilt =>
        cases hstep
        refine ⟨fun slot hget => ?_, fun message' hm => ?_⟩
        · rw [ExtTreeMap.getElem?_erase_self] at hget
          exact absurd hget (by simp)
        · cases hm
          exact length_tryAssemble_le hcounts' hnarrow' hbuilt

/-- Whatever the order: what is delivered is not longer than the data packets of the series. -/
lemma run_short {width : ℕ} (h : s.Within width peer) (hfits : ∀ a ∈ arrivals, s.Fits width a)
    (hrun : Machine.run (receive late maxMessageBytes) peer arrivals = .ok (peer', outs)) :
    ∀ o ∈ outs, ∀ message, o = some message → message.length ≤ s.dataCount * width - 4 :=
  Machine.run_outputs (fun _ _ _ _ hI hP hstep => receive_short hI hP hstep) h hfits hrun

/-- Packets of a series above the limit on the number of fragments are dropped. -/
lemma run_refused (hlimit : maxMessageBytes / 64 + 8 < s.count.toNat)
    (hhas : ∀ a ∈ arrivals, s.Has a.header)
    (hrun : Machine.run (receive late maxMessageBytes) peer arrivals = .ok (peer', outs)) :
    ∀ o ∈ outs, o = none := by
  refine Machine.run_outputs (I := fun _ => True) (P := fun a => s.Has a.header)
    (fun peer a peer' o _ hP hstep => ⟨trivial, ?_⟩) trivial hhas hrun
  rw [receive_eq, collect, if_pos] at hstep
  · cases hstep
    rfl
  · rintro ⟨-, -, -, hle⟩
    rw [hP.fragmentCount] at hle
    omega

end Series
end Reassembler
end Damen
