import Damen.Framework.Run
import Damen.Model.Reassembler
import Damen.Properties.Erasure
import Damen.Properties.WireFormat

/-!
# Assembling a message, and when it stays within bounds

The copy loops of `build_msg` walk over the pieces of a message and never look at where one piece
ends: `readPrefix_eq` and `copyBody_eq` say so, and `messageOf_of_stream` that a stream which
begins with a length prefix and a payload of that length yields the payload.

A slot is well formed (`SlotOk`) when its vectors have the length of its fragment count and, if it
has at least two fragments, it does not declare more data fragments than fragments.
`tryAssemble` has no fault on such a slot (`tryAssemble_ok`).  A packet opens a malformed slot
exactly when it is `Overdeclared`, and then the subtraction of the counts wraps at once, so
`reassembly_in_bounds_iff` characterises the runs of `handle_data` without a fault.
-/

namespace Damen
namespace Reassembler

open Std (ExtTreeMap)

/-! ## The copy loops -/

lemma readPrefix_eq (ps : List Bytes) (need : ℕ) : readPrefix ps need = ps.flatten.take need := by
  induction ps generalizing need with
  | nil => simp [readPrefix]
  | cons p ps ih =>
      rw [readPrefix]
      by_cases hneed : need = 0
      · simp [hneed]
      · simp only [if_neg hneed, ih, List.flatten_cons, List.take_append]
        by_cases hle : p.length ≤ need
        · rw [min_eq_left hle, List.take_of_length_le le_rfl, List.take_of_length_le hle]
        · have hlt : need ≤ p.length := (not_le.mp hle).le
          rw [min_eq_right hlt, Nat.sub_self, Nat.sub_eq_zero_of_le hlt]

lemma copyBody_eq (ps : List Bytes) (skip room : ℕ) :
    copyBody ps skip room = (ps.flatten.drop skip).take room := by
  induction ps generalizing skip room with
  | nil => simp [copyBody]
  | cons p ps ih =>
      rw [copyBody]
      by_cases hroom : room = 0
      · simp [hroom]
      · rw [if_neg hroom, List.flatten_cons, List.drop_append]
        by_cases hskip : p.length ≤ skip
        · rw [if_pos hskip, ih, List.drop_of_length_le hskip, List.nil_append]
        · have hzero : skip - p.length = 0 := Nat.sub_eq_zero_of_le (not_le.mp hskip).le
          simp only [if_neg hskip, ih, hzero, List.drop_zero]
          rw [List.take_append, List.length_drop]
          by_cases hle : p.length - skip ≤ room
          · have hall : ∀ n, p.length - skip ≤ n → (p.drop skip).take n = p.drop skip :=
              fun n hn => List.take_of_length_le (by rwa [List.length_drop])
            rw [min_eq_left hle, hall _ le_rfl, hall _ hle]
          · have hlt : room ≤ p.length - skip := (not_le.mp hle).le
            rw [min_eq_right hlt, Nat.sub_self, Nat.sub_eq_zero_of_le hlt]

/-- A stream that starts with the length of a payload and the payload yields the payload. -/
lemma messageOf_of_stream {pieces : List Bytes} {payload rest : Bytes} {maxMessageBytes : ℕ}
    (hstream : pieces.flatten = put32 (UInt32.ofNat payload.length) ++ (payload ++ rest))
    (hmax : payload.length ≤ maxMessageBytes) (hsize : payload.length < 2 ^ 32) :
    messageOf pieces maxMessageBytes = payload := by
  have hlen : (pieces.map List.length).sum = 4 + (payload.length + rest.length) := by
    rw [← List.length_flatten, hstream, List.length_append, List.length_append, length_put32]
  have htotal : (get32 (readPrefix pieces 4) 0).toNat = payload.length := by
    have hhead : readPrefix pieces 4 = put32 (UInt32.ofNat payload.length) := by
      rw [readPrefix_eq, hstream]
      exact List.take_left' (length_put32 _)
    have hget := get32_put32 [] [] (UInt32.ofNat payload.length)
    rw [List.nil_append, List.append_nil, List.length_nil] at hget
    rw [hhead, hget]
    exact UInt32.toNat_ofNat_of_lt' hsize
  have hbody : copyBody pieces 4 payload.length = payload := by
    rw [copyBody_eq, hstream, List.drop_left' (length_put32 _)]
    exact List.take_left' rfl
  unfold messageOf
  simp only [hlen, htotal]
  rw [if_neg (by omega), if_neg (by omega), if_neg (by omega), hbody, Nat.sub_self]
  exact List.append_nil payload

/-! ## Well-formed slots -/

/-- The vectors of a slot match its counts. -/
structure SlotOk (slot : IncomingMessage) : Prop where
  length_fragments : slot.fragments.length = slot.totalCount.toNat
  length_sizes : slot.sizes.length = slot.totalCount.toNat
  dataCount_le : 2 ≤ slot.totalCount → slot.dataCount ≤ slot.totalCount

variable {slot : IncomingMessage} {dataFrags : List (Option Bytes)} {header : PacketHeader}
  {peer : Peer} {lateMultiplier : Float} {a : Arrival}

lemma effectiveDataCount_le (h : SlotOk slot) (htotal : 2 ≤ slot.totalCount) :
    effectiveDataCount slot ≤ slot.totalCount.toNat := by
  have hle : slot.dataCount.toNat ≤ slot.totalCount.toNat := h.dataCount_le htotal
  unfold effectiveDataCount
  split <;> omega

lemma mapM_ok {α β ε : Type} {f : α → Except ε β} {g : α → β} {l : List α}
    (h : ∀ i ∈ l, f i = .ok (g i)) : l.mapM f = .ok (l.map g) := by
  induction l with
  | nil => rfl
  | cons i l ih =>
      rw [List.mapM_cons, h i List.mem_cons_self, ih fun j hj => h j (List.mem_cons_of_mem i hj)]
      rfl

/-- Reading the first `n` fragments of a slot that has them. -/
lemma mapM_fragmentAt {n : ℕ} (h : n ≤ slot.fragments.length) :
    (List.range n).mapM slot.fragmentAt =
      .ok ((List.range n).map fun i => slot.fragments.getD i none) := by
  refine mapM_ok fun i hi => ?_
  rw [IncomingMessage.fragmentAt, if_pos (lt_of_lt_of_le (List.mem_range.mp hi) h)]

/-- `build_msg` on a slot whose first `n` fragments are there. -/
lemma buildMsg_ok (slot : IncomingMessage) {n : ℕ} (f : ℕ → Bytes) (maxMessageBytes : ℕ)
    (hsizes : n ≤ slot.sizes.length) (hfrags : n ≤ slot.fragments.length)
    (hf : ∀ i < n, slot.fragments.getD i none = some (f i)) :
    buildMsg slot n maxMessageBytes =
      .ok (messageOf ((List.range n).map fun i =>
        (f i).take (min (slot.sizes.getD i 0).toNat (f i).length)) maxMessageBytes) := by
  have hpieces : (List.range n).mapM slot.piece = .ok ((List.range n).map fun i =>
      (f i).take (min (slot.sizes.getD i 0).toNat (f i).length)) := by
    refine mapM_ok fun i hi => ?_
    have hi := List.mem_range.mp hi
    rw [IncomingMessage.piece, if_pos (lt_of_lt_of_le hi hsizes), IncomingMessage.fragmentAt,
      if_pos (lt_of_lt_of_le hi hfrags), hf i hi]
  rw [buildMsg, hpieces]

/-- A restored slot has a fragment wherever the decoder has one. -/
lemma getD_restore {n width i : ℕ} (hi : i < n) (hlen : i < slot.fragments.length)
    (hsome : (dataFrags.getD i none).isSome) :
    (restore slot dataFrags n width).fragments.getD i none =
      if (slot.fragments.getD i none).isNone then dataFrags.getD i none
      else slot.fragments.getD i none := by
  rw [restore, ReedSolomon.getD_mapIdx _ hlen]
  simp only [decide_eq_true hi, hsome, Bool.true_and, Bool.and_true]

lemma restore_isSome {n width i : ℕ} (hi : i < n) (hlen : i < slot.fragments.length)
    (hsome : (dataFrags.getD i none).isSome) :
    ((restore slot dataFrags n width).fragments.getD i none).isSome := by
  rw [getD_restore hi hlen hsome]
  cases hfrag : slot.fragments.getD i none with
  | none => exact hsome
  | some b => rfl

/-- Assembling a well-formed slot stays within bounds. -/
lemma tryAssemble_ok (h : SlotOk slot) (maxMessageBytes : ℕ) :
    ∃ r, tryAssemble slot maxMessageBytes = .ok r := by
  unfold tryAssemble
  split
  · exact ⟨none, rfl⟩
  · next htotal =>
    have hcount := effectiveDataCount_le h (UInt16.not_lt.mp htotal)
    have hfrags : effectiveDataCount slot ≤ slot.fragments.length := by rwa [h.length_fragments]
    have hsizes : effectiveDataCount slot ≤ slot.sizes.length := by rwa [h.length_sizes]
    simp only [if_neg (not_lt.mpr hcount), mapM_fragmentAt hfrags]
    generalize effectiveDataCount slot = n at *
    split
    · next hall =>
      -- All data fragments are there, so every piece exists.
      have hsome : ∀ i < n, (slot.fragments.getD i none).isSome := by
        have hlen := List.length_filter_eq_length_iff.mp
          (hall.trans (by rw [List.length_map, List.length_range]))
        exact fun i hi => hlen _ (List.mem_map.mpr ⟨i, List.mem_range.mpr hi, rfl⟩)
      rw [buildMsg_ok slot (fun i => (slot.fragments.getD i none).getD [])
        maxMessageBytes hsizes hfrags
        fun i hi => by
          obtain ⟨b, hb⟩ := Option.isSome_iff_exists.mp (hsome i hi)
          rw [hb, Option.getD_some]]
      exact ⟨_, rfl⟩
    · unfold recover
      simp only
      split_ifs with h1 h2 h3 h4
      · exact ⟨none, rfl⟩
      · exact ⟨none, rfl⟩
      · exact ⟨none, rfl⟩
      · exact ⟨none, rfl⟩
      · split
        · exact ⟨none, rfl⟩
        · next dataFrags hdecode =>
          obtain ⟨-, hsome⟩ := ReedSolomon.decode_isSome hdecode
          rw [List.length_map, List.length_range] at hsome
          rw [buildMsg_ok (restore slot dataFrags n _)
            (fun i => ((restore slot dataFrags n _).fragments.getD i none).getD [])
            maxMessageBytes (by rw [restore, List.length_mapIdx]; exact hsizes)
            (by rw [restore, List.length_mapIdx]; exact hfrags)
            fun i hi => by
              obtain ⟨b, hb⟩ := Option.isSome_iff_exists.mp
                (restore_isSome hi (lt_of_lt_of_le hi hfrags) (hsome i hi))
              rw [hb, Option.getD_some]]
          exact ⟨_, rfl⟩

/-! ## What a packet does to the slots -/

/-- Every slot of the peer is well formed. -/
def SlotsOk (peer : Peer) : Prop :=
  ∀ (k : UInt32) (slot : IncomingMessage), peer.incoming[k]? = some slot → SlotOk slot

/-- The packet opens a slot with more data fragments than fragments. -/
def Overdeclared (peer : Peer) (header : PacketHeader) (maxMessageBytes : ℕ) : Prop :=
  Admitted peer header maxMessageBytes ∧
    (peer.incoming.getD header.messageId {}).messageId = 0 ∧
    2 ≤ header.fragmentCount ∧ header.fragmentCount < header.flags

instance (peer : Peer) (header : PacketHeader) (maxMessageBytes : ℕ) :
    Decidable (Overdeclared peer header maxMessageBytes) :=
  inferInstanceAs (Decidable (_ ∧ _ ∧ _ ∧ _))

lemma slotOk_openSlot (now : TimePoint)
    (h : 2 ≤ header.fragmentCount → header.flags ≤ header.fragmentCount) :
    SlotOk (openSlot header now) where
  length_fragments := List.length_replicate
  length_sizes := List.length_replicate
  dataCount_le := h

lemma slotOk_slotFor {maxMessageBytes : ℕ} (now : TimePoint) (h : SlotsOk peer)
    (hadm : Admitted peer header maxMessageBytes)
    (hnot : ¬ Overdeclared peer header maxMessageBytes) : SlotOk (slotFor peer header now) := by
  unfold slotFor
  simp only
  split
  · next hzero =>
    exact slotOk_openSlot now fun htwo => UInt16.not_lt.mp fun hlt => hnot ⟨hadm, hzero, htwo, hlt⟩
  · next hne =>
    cases hget : peer.incoming[header.messageId]? with
    | none =>
        rw [ExtTreeMap.getD_eq_getD_getElem?, hget] at hne
        exact absurd rfl hne
    | some slot =>
        rw [ExtTreeMap.getD_eq_getD_getElem?, hget]
        exact h _ slot hget

lemma slotOk_storeFragment (header : PacketHeader) (payload : Bytes) (h : SlotOk slot) :
    SlotOk (storeFragment slot header payload) := by
  unfold storeFragment
  simp only
  split
  · exact h
  · exact ⟨by rw [List.length_set]; exact h.length_fragments,
      by rw [List.length_set]; exact h.length_sizes, h.dataCount_le⟩

lemma SlotsOk.insert (h : SlotsOk peer) {k : UInt32} (hslot : SlotOk slot) :
    SlotsOk { peer with incoming := peer.incoming.insert k slot } := by
  intro k' slot' hget
  rw [ExtTreeMap.getElem?_insert] at hget
  split at hget
  · exact Option.some.inj hget ▸ hslot
  · exact h k' slot' hget

lemma SlotsOk.complete (h : SlotsOk peer) (k : UInt32) (now : TimePoint) :
    SlotsOk { peer with
      completed := peer.completed.insert k now, incoming := peer.incoming.erase k } := by
  intro k' slot' hget
  rw [ExtTreeMap.getElem?_erase] at hget
  split at hget
  · exact absurd hget (by simp)
  · exact h k' slot' hget

/-- A fragment that is not overdeclared is handled within bounds and leaves well-formed slots. -/
lemma collect_ok {maxMessageBytes : ℕ} (payload : Bytes) (now : TimePoint) (h : SlotsOk peer)
    (hnot : ¬ Overdeclared peer header maxMessageBytes) :
    ∃ peer' o, collect peer header payload maxMessageBytes now = .ok (peer', o) ∧
      SlotsOk peer' := by
  unfold collect
  by_cases hadm : Admitted peer header maxMessageBytes
  · have hslot := slotOk_slotFor now h hadm hnot
    have hstored := slotOk_storeFragment header payload hslot
    simp only [not_true, if_false, hadm]
    split
    · exact ⟨_, _, rfl, h.insert hslot⟩
    · obtain ⟨r, hr⟩ := tryAssemble_ok hstored maxMessageBytes
      rw [hr]
      cases r with
      | none => exact ⟨_, _, rfl, h.insert hstored⟩
      | some message => exact ⟨_, _, rfl, h.complete header.messageId now⟩
  · simp only [hadm, not_false_eq_true, if_true]
    exact ⟨peer, none, rfl, h⟩

/-- An overdeclared fragment makes the subtraction of the counts wrap. -/
lemma collect_overdeclared {maxMessageBytes : ℕ} (payload : Bytes) (now : TimePoint)
    (h : Overdeclared peer header maxMessageBytes) :
    collect peer header payload maxMessageBytes now = .error .countUnderflow := by
  obtain ⟨hadm, hzero, htwo, hlt⟩ := h
  have hslot : slotFor peer header now = openSlot header now := by
    unfold slotFor
    simp only [if_pos hzero]
  have hidx : ¬ (openSlot header now).fragments.length ≤ header.fragmentIndex.toNat := by
    rw [openSlot, List.length_replicate]
    exact not_le.mpr hadm.2.2.1
  have hpos : 0 < header.flags :=
    UInt16.lt_of_le_of_lt (UInt16.le_iff_toNat_le.mpr (Nat.zero_le _)) hlt
  have hcounts : ∀ slot, slot.totalCount = header.fragmentCount → slot.dataCount = header.flags →
      tryAssemble slot maxMessageBytes = .error .countUnderflow := by
    intro slot ht hd
    have hcount : slot.totalCount.toNat < effectiveDataCount slot := by
      rw [effectiveDataCount, hd, if_pos hpos, ht]
      exact hlt
    unfold tryAssemble
    rw [if_neg (by rw [ht]; exact UInt16.not_lt.mpr htwo)]
    simp only [if_pos hcount]
  unfold collect
  simp only [hadm, not_true, if_false, hslot]
  rw [if_neg (not_or.mpr ⟨fun hne => hne rfl, hidx⟩), hcounts]
  · unfold storeFragment
    simp only
    split <;> rfl
  · unfold storeFragment
    simp only
    split <;> rfl

/-! ## The bookkeeping in front of the slots -/

/-- The part of `handle_data` in front of the fragments. -/
def bookkeep (lateMultiplier : Float) (peer : Peer) (a : Arrival) : Peer :=
  trackSequence (accountTransit peer
    (transitTimeUs peer a.header.tick a.clock.unixMillis) a.rttUs lateMultiplier)
    a.header.sequence a.clock.now

lemma receive_eq (lateMultiplier : Float) (maxMessageBytes : ℕ) (peer : Peer) (a : Arrival) :
    receive lateMultiplier maxMessageBytes peer a =
      collect (bookkeep lateMultiplier peer a) a.header a.payload maxMessageBytes a.clock.now :=
  rfl

/-- The gap tracking writes four fields. -/
lemma trackSequence_frame (peer : Peer) (seq : UInt32) (now : TimePoint) :
    trackSequence peer seq now = { peer with
      missingSeqs := (trackSequence peer seq now).missingSeqs
      recvSeqs := (trackSequence peer seq now).recvSeqs
      nextExpectedSeq := (trackSequence peer seq now).nextExpectedSeq
      seqInitialized := (trackSequence peer seq now).seqInitialized } := by
  unfold trackSequence
  split_ifs <;> rfl

/-- The late-packet accounting writes two counters. -/
lemma accountTransit_frame (peer : Peer) (transitUs : Int) (rttUs : UInt32)
    (lateMultiplier : Float) :
    accountTransit peer transitUs rttUs lateMultiplier = { peer with
      transitSamples := (accountTransit peer transitUs rttUs lateMultiplier).transitSamples
      lateSamples := (accountTransit peer transitUs rttUs lateMultiplier).lateSamples } := by
  unfold accountTransit
  split_ifs <;> rfl

/-- The fragment part writes the slots and the completed messages. -/
lemma collect_frame {peer' : Peer} {payload : Bytes} {maxMessageBytes : ℕ} {now : TimePoint}
    {o : Option Bytes} (h : collect peer header payload maxMessageBytes now = .ok (peer', o)) :
    peer' = { peer with incoming := peer'.incoming, completed := peer'.completed } := by
  unfold collect at h
  simp only at h
  split at h
  · obtain ⟨rfl, -⟩ := Prod.mk.inj (Except.ok.inj h)
    rfl
  · split at h
    · obtain ⟨rfl, -⟩ := Prod.mk.inj (Except.ok.inj h)
      rfl
    · split at h
      · exact absurd h (by simp)
      · obtain ⟨rfl, -⟩ := Prod.mk.inj (Except.ok.inj h)
        rfl
      · obtain ⟨rfl, -⟩ := Prod.mk.inj (Except.ok.inj h)
        rfl

lemma bookkeep_frame (lateMultiplier : Float) (peer : Peer) (a : Arrival) :
    bookkeep lateMultiplier peer a = { peer with
      missingSeqs := (bookkeep lateMultiplier peer a).missingSeqs
      recvSeqs := (bookkeep lateMultiplier peer a).recvSeqs
      nextExpectedSeq := (bookkeep lateMultiplier peer a).nextExpectedSeq
      seqInitialized := (bookkeep lateMultiplier peer a).seqInitialized
      transitSamples := (bookkeep lateMultiplier peer a).transitSamples
      lateSamples := (bookkeep lateMultiplier peer a).lateSamples } := by
  unfold bookkeep
  rw [trackSequence_frame, accountTransit_frame]

lemma bookkeep_incoming (lateMultiplier : Float) (peer : Peer) (a : Arrival) :
    (bookkeep lateMultiplier peer a).incoming = peer.incoming := by
  rw [bookkeep_frame]

lemma bookkeep_completed (lateMultiplier : Float) (peer : Peer) (a : Arrival) :
    (bookkeep lateMultiplier peer a).completed = peer.completed := by
  rw [bookkeep_frame]

lemma slotsOk_bookkeep : SlotsOk (bookkeep lateMultiplier peer a) ↔ SlotsOk peer := by
  unfold SlotsOk
  rw [bookkeep_incoming]

lemma overdeclared_bookkeep {maxMessageBytes : ℕ} :
    Overdeclared (bookkeep lateMultiplier peer a) a.header maxMessageBytes ↔
      Overdeclared peer a.header maxMessageBytes := by
  unfold Overdeclared Admitted
  rw [bookkeep_incoming, bookkeep_completed]

/-! ## Bounds safety over whole runs -/

lemma receive_ok {maxMessageBytes : ℕ} (h : SlotsOk peer)
    (hnot : ¬ Overdeclared peer a.header maxMessageBytes) :
    ∃ peer' o, receive lateMultiplier maxMessageBytes peer a = .ok (peer', o) ∧
      SlotsOk peer' := by
  rw [receive_eq]
  exact collect_ok a.payload a.clock.now (slotsOk_bookkeep.mpr h)
    (mt overdeclared_bookkeep.mp hnot)

lemma receive_overdeclared {maxMessageBytes : ℕ} (h : Overdeclared peer a.header maxMessageBytes) :
    receive lateMultiplier maxMessageBytes peer a = .error .countUnderflow := by
  rw [receive_eq]
  exact collect_overdeclared a.payload a.clock.now (overdeclared_bookkeep.mpr h)

lemma along_of_run_ok {maxMessageBytes : ℕ} {arrivals : List Arrival}
    {r : Peer × List (Option Bytes)}
    (h : Machine.run (receive lateMultiplier maxMessageBytes) peer arrivals = .ok r) :
    Machine.Along (receive lateMultiplier maxMessageBytes)
      (fun peer a => ¬ Overdeclared peer a.header maxMessageBytes) peer arrivals := by
  induction arrivals generalizing peer r with
  | nil => trivial
  | cons a arrivals ih =>
      obtain ⟨peer', o, os, hstep, hrun, -⟩ := Machine.run_cons_ok.mp h
      refine ⟨fun hover => ?_, fun t o' ht => ?_⟩
      · rw [receive_overdeclared hover] at hstep
        exact absurd hstep (by simp)
      · obtain ⟨rfl, -⟩ := Prod.mk.inj (Except.ok.inj (hstep.symm.trans ht))
        exact ih hrun

/-- Every access of `try_assemble` is defined along a run exactly when no packet of it opens a
slot with more data fragments than fragments. -/
theorem reassembly_in_bounds_iff (lateMultiplier : Float) (maxMessageBytes : ℕ) (peer : Peer)
    (hfresh : peer.incoming = ∅) (arrivals : List Arrival) :
    (∃ r, Machine.run (receive lateMultiplier maxMessageBytes) peer arrivals = .ok r) ↔
      Machine.Along (receive lateMultiplier maxMessageBytes)
        (fun peer a => ¬ Overdeclared peer a.header maxMessageBytes) peer arrivals := by
  constructor
  · rintro ⟨r, hr⟩
    exact along_of_run_ok hr
  · intro halong
    have hslots : SlotsOk peer := by
      intro k slot hget
      rw [hfresh] at hget
      exact absurd hget (by simp)
    obtain ⟨peer', os, hrun⟩ := Machine.run_total
      (fun s a (hs : SlotsOk s) hnot => receive_ok hs hnot) hslots halong
    exact ⟨(peer', os), hrun⟩

/-- A group of two fragments that declares one of them as data. -/
theorem reassembly_in_bounds_pair :
    ∃ r, Machine.run (receive 4.0 65536) {}
      [{ header := { messageId := 1, flags := 1, fragmentCount := 2, reserved := 5 }
         payload := [0, 0, 0, 1, 9] }] = .ok r :=
  (reassembly_in_bounds_iff 4.0 65536 {} rfl _).mpr ⟨by decide, fun _ _ _ => trivial⟩

/-- A single packet with a hundred data fragments out of two leaves the bounds. -/
theorem reassembly_out_of_bounds :
    ¬ ∀ arrivals : List Arrival,
      ∃ r, Machine.run (receive 4.0 65536) {} arrivals = .ok r := by
  intro h
  obtain ⟨r, hr⟩ := h [{ header := { messageId := 1, flags := 100, fragmentCount := 2 }
                         payload := [0] }]
  have hover := (along_of_run_ok hr).1
  exact hover (by decide)

end Reassembler
end Damen
