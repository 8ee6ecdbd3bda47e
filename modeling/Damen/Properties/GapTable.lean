import Mathlib.Data.List.Nodup
import Damen.Properties.SequenceTracking

/-!
# The size of the table of missing sequences

`build_payload` cuts the table to 4096 entries.  `handle_data` fills it: a packet notes every
sequence between the cursor and its own, as many as the number in its header says, and nothing
there looks at the size.

`gap_table_bounded_iff` says of a run that the bound holds in every state of it exactly if no packet
jumps further than the table has room.
-/

namespace Damen
namespace Tracking

open Reassembler Report
open Std (ExtTreeMap ExtTreeSet)

/-- The sequences between the cursor and `seq` that have not arrived and are not noted yet. -/
def newGaps (peer : Peer) (seq : UInt32) : List UInt32 :=
  ((List.range' peer.nextExpectedSeq.toNat (seq.toNat - peer.nextExpectedSeq.toNat)).map
    UInt32.ofNat).filter fun g => ¬ g ∈ peer.recvSeqs ∧ g ∉ peer.missingSeqs

/-- The table has room for what a packet adds. -/
def Fits (peer : Peer) : Event → Prop
  | .data a => peer.seqInitialized = true →
      peer.missingSeqs.size + (newGaps peer a.header.sequence).length ≤ 4096
  | .report .. => True

instance (peer : Peer) : (ev : Event) → Decidable (Fits peer ev)
  | .data _ => inferInstanceAs (Decidable (_ → _))
  | .report .. => inferInstanceAs (Decidable True)

/-! ## What a packet adds -/

lemma nodup_range_ofNat (next seq : UInt32) :
    ((List.range' next.toNat (seq.toNat - next.toNat)).map UInt32.ofNat).Nodup := by
  refine List.Nodup.map_on (fun a ha b hb heq => ?_) List.nodup_range'
  have hseq := seq.toNat_lt
  rw [List.mem_range'_1] at ha hb
  have hnat := congrArg UInt32.toNat heq
  rwa [UInt32.toNat_ofNat_of_lt' (show a < 2 ^ 32 by omega),
    UInt32.toNat_ofNat_of_lt' (show b < 2 ^ 32 by omega)] at hnat

lemma size_noteGaps (peer : Peer) (seq : UInt32) (now : TimePoint) :
    (noteGaps peer.missingSeqs peer.recvSeqs peer.nextExpectedSeq seq now).size =
      peer.missingSeqs.size + (newGaps peer seq).length := by
  rw [newGaps, ← OrderedMap.size_foldl_insertIfNew (· ∈ peer.recvSeqs) now
    (nodup_range_ofNat peer.nextExpectedSeq seq), List.foldl_map, noteGaps]

variable {peer : Peer}

/-- A packet without a number, or one behind the cursor, adds nothing. -/
lemma newGaps_of_le {seq : UInt32} (h : seq.toNat ≤ peer.nextExpectedSeq.toNat) :
    newGaps peer seq = [] := by
  rw [newGaps, Nat.sub_eq_zero_of_le h]
  rfl

/-- The table is within its bound behind a packet exactly if it had room for it. -/
lemma size_trackSequence_le_iff {seq : UInt32} (now : TimePoint)
    (hsize : peer.missingSeqs.size ≤ 4096) :
    (trackSequence peer seq now).missingSeqs.size ≤ 4096 ↔
      (peer.seqInitialized = true →
        peer.missingSeqs.size + (newGaps peer seq).length ≤ 4096) := by
  unfold trackSequence
  by_cases hzero : seq = 0
  · have hnone : newGaps peer seq = [] := newGaps_of_le (by rw [hzero]; exact Nat.zero_le _)
    rw [if_pos hzero, hnone]
    exact iff_of_true hsize fun _ => hsize
  rw [if_neg hzero]
  cases hinit : peer.seqInitialized with
  | false =>
      simp only [Bool.false_eq_true, not_false_eq_true, if_true]
      exact iff_of_true hsize fun h => absurd h (by simp)
  | true =>
      simp only [not_true, if_false, true_implies]
      by_cases hge : peer.nextExpectedSeq ≤ seq
      · rw [if_pos hge]
        simp only [size_noteGaps]
      · have hlt : seq.toNat < peer.nextExpectedSeq.toNat :=
          UInt32.lt_iff_toNat_lt.mp (UInt32.not_le.mp hge)
        rw [if_neg hge, newGaps_of_le hlt.le]
        refine iff_of_true (le_trans ?_ hsize) hsize
        exact ExtTreeMap.size_erase_le

/-! ## The cap of a report -/

lemma size_capMissing_le (missing : ExtTreeMap UInt32 TimePoint) :
    (capMissing missing).size ≤ 4096 := by
  have hdistinct := missing.distinct_keys_toList.sublist
    (List.take_sublist (missing.size - 4096) missing.toList)
  have hsize := OrderedMap.size_foldl_erase hdistinct fun e he =>
    OrderedMap.mem_of_mem_toList (List.mem_of_mem_take he)
  rw [List.length_take, ExtTreeMap.length_toList] at hsize
  rw [capMissing]
  omega

/-! ## Whole runs -/

lemma size_step_le_iff {lateMultiplier : Float} {maxMessageBytes : ℕ} {peer' : Peer} {ev : Event}
    {o : Option Bytes} (hsize : peer.missingSeqs.size ≤ 4096)
    (hstep : step lateMultiplier maxMessageBytes peer ev = .ok (peer', o)) :
    peer'.missingSeqs.size ≤ 4096 ↔ Fits peer ev := by
  cases ev with
  | data a =>
      rw [missing_of_tracking (step_data_tracking hstep)]
      exact size_trackSequence_le_iff a.clock.now hsize
  | report retransmit peerRetransmit senderRttUs reportInterval now =>
      simp only [step, Except.ok.injEq, Prod.mk.injEq] at hstep
      refine iff_of_true ?_ trivial
      rw [← hstep.1, (buildPayload_tracking _ reportInterval now).2.2.2]
      exact size_capMissing_le _

/-- In every state of a run the table has at most 4096 entries exactly if it has room for every
packet at the time it arrives. -/
theorem gap_table_bounded_iff (lateMultiplier : Float) (maxMessageBytes : ℕ) (peer : Peer)
    (hpeer : peer.missingSeqs.size ≤ 4096) (events : List Event) (peer' : Peer)
    (outs : List (Option Bytes))
    (hrun : Machine.run (step lateMultiplier maxMessageBytes) peer events = .ok (peer', outs)) :
    Machine.Throughout (step lateMultiplier maxMessageBytes)
        (fun p => p.missingSeqs.size ≤ 4096) peer events ↔
      Machine.Along (step lateMultiplier maxMessageBytes) Fits peer events :=
  Machine.throughout_iff (fun _ h => h)
    (fun _ _ _ _ hsize hfits hstep => (size_step_le_iff hsize hstep).mpr hfits)
    (fun _ _ _ _ hsize hnot hstep hle => hnot ((size_step_le_iff hsize hstep).mp hle)) hpeer hrun

theorem gap_table_bounded_small :
    Machine.Throughout (step 4.0 65536) (fun p => p.missingSeqs.size ≤ 4096) {}
      [numbered 1 0, numbered 4 0, .report true true 0 100 200000000, numbered 7 0] :=
  (gap_table_bounded_iff 4.0 65536 {} (by decide) _ _ _ rfl).mpr (by decide)

/-- A packet without a fragment is only entered into the tracking. -/
lemma step_numbered (lateMultiplier : Float) (maxMessageBytes : ℕ) (peer : Peer) (seq : UInt32)
    (now : TimePoint) :
    ∃ peer', step lateMultiplier maxMessageBytes peer (numbered seq now) = .ok (peer', none) := by
  refine ⟨bookkeep lateMultiplier peer
    { header := { sequence := seq }, payload := [], clock := { now, unixMillis := 0 } }, ?_⟩
  rw [numbered, step, receive_eq, collect, if_pos fun h => h.1 rfl]

/-- Two packets, the second 4098 sequences ahead of the first, leave 4097 entries. -/
theorem gap_table_overflows :
    ∃ peer' outs, Machine.run (step 4.0 65536) {} [numbered 1 0, numbered 4099 0] =
        .ok (peer', outs) ∧ peer'.missingSeqs.size = 4097 := by
  obtain ⟨first, hfirst⟩ := step_numbered 4.0 65536 {} 1 0
  obtain ⟨second, hsecond⟩ := step_numbered 4.0 65536 first 4099 0
  refine ⟨second, [none, none], Machine.run_cons_ok.mpr ⟨first, none, [none], hfirst,
    Machine.run_cons_ok.mpr ⟨second, none, [], hsecond, rfl, rfl⟩, rfl⟩, ?_⟩
  have htracked : tracking first = (true, 2, ∅, ∅) := step_data_tracking hfirst
  simp only [tracking, Prod.mk.injEq] at htracked
  obtain ⟨hinit, hnext, hrecv, hmissing⟩ := htracked
  have hgaps : newGaps first 4099 = (List.range' 2 4097).map UInt32.ofNat := by
    rw [newGaps, hnext, hrecv, hmissing]
    exact List.filter_eq_self.mpr fun g _ => by
      simp [ExtTreeMap.not_mem_empty, ExtTreeSet.not_mem_empty]
  have hsecond : second.missingSeqs = (trackSequence first 4099 0).missingSeqs :=
    missing_of_tracking (step_data_tracking hsecond)
  have hle : first.nextExpectedSeq ≤ 4099 := by rw [hnext]; decide
  rw [hsecond, trackSequence, if_neg (by decide), if_neg (not_not.mpr hinit), if_pos hle]
  have hsize := size_noteGaps first 4099 0
  rw [hgaps, List.length_map, List.length_range', hmissing] at hsize
  rw [hmissing]
  exact hsize

end Tracking
end Damen
