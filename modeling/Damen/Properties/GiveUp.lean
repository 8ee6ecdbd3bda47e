import Damen.Properties.ReportCoverage

/-!
# Giving up a gap

When a sequence has been missing for twelve report intervals `build_payload` takes it out of the
table without looking at the cursor.  A comment in the source says that the cursor has passed it by
then, since a gap is skipped once it is older than the loss threshold.  But a gap is skipped only by
a report that finds it between the two ages, and only at the cursor.

`gaps_given_up_below_iff` says for a whole run when each sequence that is given up lies below the
cursor at that moment.  The scan up to an entry is a scan of the table of the smaller ones
(`next_scanned`), so `passed_iff` says how far the cursor got.
-/

namespace Damen
namespace Tracking

open Reassembler Report
open Std (ExtTreeMap ExtTreeSet)

/-- The receiver when the scan has gone over the entries `pre`. -/
def scanned (reportInterval : Int) (now : TimePoint) (peer : Peer)
    (pre : List (UInt32 × TimePoint)) : Peer :=
  (pre.foldl (scanEntry reportInterval now) (peer, [])).1

/-- Each sequence that a report gives up, with retransmission on at both ends, is below the cursor
at the moment it is erased. -/
def GivesUpBelow (peer : Peer) : Event → Prop
  | .data _ => True
  | .report retransmit peerRetransmit senderRttUs reportInterval now =>
      retransmit = true → peerRetransmit = true →
        ∀ pre e post, peer.missingSeqs.toList = pre ++ e :: post →
          giveUpUs reportInterval < toMicros (now - e.2) →
            e.1 < (scanned reportInterval now
              { peer with retransmit, peerRetransmit, senderRttUs } pre).nextExpectedSeq

/-- Each sequence that a report gives up is behind the cursor already, or has arrived with
everything from the cursor on arrived or aged; in both cases with a sequence above it where the
cursor stops. -/
def GivesUpPassed (peer : Peer) : Event → Prop
  | .data _ => True
  | .report retransmit peerRetransmit senderRttUs reportInterval now =>
      retransmit = true → peerRetransmit = true →
        ∀ g since, peer.missingSeqs[g]? = some since →
          giveUpUs reportInterval < toMicros (now - since) →
            (∃ c, g < c ∧ c ∉ peer.recvSeqs) ∧
              Block { peer with retransmit, peerRetransmit, senderRttUs } reportInterval now g

/-! ## The scan up to an entry -/

lemma skipGap_missing (peer : Peer) (m : ExtTreeMap UInt32 TimePoint) (g : UInt32) :
    skipGap { peer with missingSeqs := m } g = { skipGap peer g with missingSeqs := m } := by
  unfold skipGap
  split <;> rfl

/-- The scan reads the table only through the entries it is given. -/
lemma foldl_scanEntry_missing (reportInterval : Int) (now : TimePoint)
    (l : List (UInt32 × TimePoint)) (peer : Peer) (lost : List UInt32)
    (m : ExtTreeMap UInt32 TimePoint) :
    ∃ m', l.foldl (scanEntry reportInterval now) ({ peer with missingSeqs := m }, lost) =
      ({ (l.foldl (scanEntry reportInterval now) (peer, lost)).1 with missingSeqs := m' },
        (l.foldl (scanEntry reportInterval now) (peer, lost)).2) := by
  induction l generalizing peer lost m with
  | nil => exact ⟨m, rfl⟩
  | cons e l ih =>
      obtain ⟨m', hstep⟩ : ∃ m',
          scanEntry reportInterval now ({ peer with missingSeqs := m }, lost) e =
          ({ (scanEntry reportInterval now (peer, lost) e).1 with missingSeqs := m' },
            (scanEntry reportInterval now (peer, lost) e).2) := by
        have hthreshold : lossThreshold { peer with missingSeqs := m } = lossThreshold peer := rfl
        unfold scanEntry
        simp only [skipGap_missing, hthreshold]
        split_ifs
        all_goals exact ⟨_, rfl⟩
      rw [List.foldl_cons, hstep]
      exact ih _ _ m'

/-- The receiver with only the missing sequences below `g`. -/
def below (peer : Peer) (g : UInt32) : Peer :=
  { peer with missingSeqs := peer.missingSeqs.filter fun k _ => k < g }

variable {peer : Peer} {pre post : List (UInt32 × TimePoint)} {e : UInt32 × TimePoint}
  {reportInterval : Int} {g : UInt32}

lemma toList_below (h : peer.missingSeqs.toList = pre ++ e :: post) :
    (below peer e.1).missingSeqs.toList = pre := by
  have hsorted := missing_sorted peer
  rw [h, List.pairwise_append, List.pairwise_cons] at hsorted
  obtain ⟨-, ⟨hpost, -⟩, hpre⟩ := hsorted
  rw [below, ExtTreeMap.toList_filter, h, List.filter_append]
  have hkeep : (pre.filter fun p => decide (p.1 < e.1)) = pre :=
    List.filter_eq_self.mpr fun a ha => by
      simpa [UInt32.lt_iff_toNat_lt] using hpre a ha e List.mem_cons_self
  have hdrop : ((e :: post).filter fun p => decide (p.1 < e.1)) = [] := by
    refine List.filter_eq_nil_iff.mpr fun a ha => ?_
    rcases List.mem_cons.mp ha with rfl | ha
    · simp
    · simpa [UInt32.le_iff_toNat_le] using (hpost a ha).le
  rw [hkeep, hdrop, List.append_nil]

/-- Where the cursor is when the scan comes to an entry. -/
lemma next_scanned (reportInterval : Int) (now : TimePoint)
    (h : peer.missingSeqs.toList = pre ++ e :: post) :
    (scanned reportInterval now peer pre).nextExpectedSeq =
      (scanMissing reportInterval now (below peer e.1)).1.nextExpectedSeq := by
  obtain ⟨m, hm⟩ :=
    foldl_scanEntry_missing reportInterval now pre peer [] (below peer e.1).missingSeqs
  rw [scanMissing, toList_below h]
  exact (congrArg (·.1.nextExpectedSeq) hm).symm

lemma mem_agedSeqs_below {now : TimePoint} {j : UInt32} :
    j ∈ agedSeqs (below peer g) reportInterval now ↔
      j ∈ agedSeqs peer reportInterval now ∧ j < g := by
  rw [mem_agedSeqs, mem_agedSeqs, below, ExtTreeMap.toList_filter]
  simp only [List.mem_filter, decide_eq_true_eq]
  constructor
  · rintro ⟨e, ⟨he, hlt⟩, rfl, haged⟩
    exact ⟨⟨e, he, rfl, haged⟩, hlt⟩
  · rintro ⟨⟨e, he, rfl, haged⟩, hlt⟩
    exact ⟨e, ⟨he, hlt⟩, rfl, haged⟩

/-- A sequence that is given up is not aged. -/
lemma notMem_agedSeqs_of_giveUp {now : TimePoint} {since : TimePoint}
    (h : peer.missingSeqs[g]? = some since)
    (hgive : giveUpUs reportInterval < toMicros (now - since)) :
    g ∉ agedSeqs peer reportInterval now := by
  intro hmem
  obtain ⟨e, he, rfl, haged⟩ := mem_agedSeqs.mp hmem
  have hsome := ExtTreeMap.mem_toList_iff_getElem?_eq_some.mp he
  rw [h, Option.some.injEq] at hsome
  exact absurd haged.2 (not_le.mpr (hsome ▸ hgive))

/-- Up to `g` the smaller table leaves the aged sequences the same. -/
lemma block_below_iff {now : TimePoint} (h : g ∉ agedSeqs peer reportInterval now) :
    Block (below peer g) reportInterval now g ↔ Block peer reportInterval now g := by
  refine forall_congr' fun j => forall_congr' fun _ => forall_congr' fun hj => ?_
  refine or_congr_left ?_
  rw [mem_agedSeqs_below]
  refine and_iff_left_of_imp fun hmem => ?_
  exact UInt32.lt_of_le_of_ne hj fun heq => h (heq ▸ hmem)

/-- The largest sequence is above all others, so the block does not reach it exactly if some
sequence above `g` has not arrived. -/
lemma block_top_iff {now : TimePoint} (hle : peer.nextExpectedSeq ≤ g)
    (h : Block (below peer g) reportInterval now g) :
    ¬ Block (below peer g) reportInterval now (UInt32.ofNat (2 ^ 32 - 1)) ↔
      ∃ c, g < c ∧ c ∉ peer.recvSeqs := by
  constructor
  · intro hnot
    by_contra hnone
    refine hnot fun j hj _ => ?_
    by_cases hjg : j ≤ g
    · exact h j hj hjg
    · by_contra hout
      exact hnone ⟨j, UInt32.not_le.mp hjg, fun hmem => hout (Or.inr hmem)⟩
  · rintro ⟨c, hlt, hc⟩ hblock
    have htop : c ≤ UInt32.ofNat (2 ^ 32 - 1) := by
      rw [UInt32.le_iff_toNat_le]
      exact Nat.le_of_lt_succ c.toNat_lt
    rcases hblock c (UInt32.le_trans hle (UInt32.le_of_lt hlt)) htop with hmem | hmem
    · exact absurd (mem_agedSeqs_below.mp hmem).2 (UInt32.not_lt.mpr (UInt32.le_of_lt hlt))
    · exact hc hmem

/-! ## The cursor at a sequence that is given up -/

/-- What the tracking keeps, whatever arrives: the cursor has not been received, nor has `0`, and
before the first packet nothing is noted. -/
structure Settled (peer : Peer) : Prop where
  zero_notMem : (0 : UInt32) ∉ peer.recvSeqs
  next_notMem : peer.seqInitialized = true → peer.nextExpectedSeq ∉ peer.recvSeqs
  fresh : peer.seqInitialized = false → (∀ x, x ∉ peer.recvSeqs) ∧ ∀ k, k ∉ peer.missingSeqs

lemma given_up_below_iff (h : Settled peer) {now : TimePoint} (hr : peer.retransmit = true)
    (hp : peer.peerRetransmit = true) (hsplit : peer.missingSeqs.toList = pre ++ e :: post)
    (hgive : giveUpUs reportInterval < toMicros (now - e.2)) :
    e.1 < (scanned reportInterval now peer pre).nextExpectedSeq ↔
      (∃ c, e.1 < c ∧ c ∉ peer.recvSeqs) ∧ Block peer reportInterval now e.1 := by
  have hsome : peer.missingSeqs[e.1]? = some e.2 :=
    ExtTreeMap.mem_toList_iff_getElem?_eq_some.mp
      (hsplit ▸ List.mem_append_right _ List.mem_cons_self)
  have hinit : peer.seqInitialized = true := by
    by_contra hnot
    exact (h.fresh (Bool.eq_false_of_not_eq_true hnot)).2 e.1 (of_getElem?_eq_some hsome)
  have hnotAged := notMem_agedSeqs_of_giveUp hsome hgive
  have hr : (below peer e.1).retransmit = true := hr
  have hp : (below peer e.1).peerRetransmit = true := hp
  have h0 : (0 : UInt32) ∉ (below peer e.1).recvSeqs := h.zero_notMem
  rw [next_scanned reportInterval now hsplit]
  by_cases hle : peer.nextExpectedSeq ≤ e.1
  · rw [← (buildPayload_tracking _ reportInterval now).1,
      passed_iff hr hp h0 hle]
    constructor
    · rintro ⟨-, -, htop, hblock⟩
      exact ⟨(block_top_iff hle hblock).mp htop, (block_below_iff hnotAged).mp hblock⟩
    · rintro ⟨htop, hblock⟩
      have hblock' := (block_below_iff hnotAged).mpr hblock
      have hnext : peer.nextExpectedSeq ∈ agedSeqs (below peer e.1) reportInterval now :=
        (hblock' _ (UInt32.le_refl _) hle).resolve_right (h.next_notMem hinit)
      exact ⟨hinit, hnext, (block_top_iff hle hblock').mpr htop, hblock'⟩
  · -- Nothing below the cursor moves it.
    have hlt : e.1 < peer.nextExpectedSeq := UInt32.not_le.mp hle
    obtain ⟨p, hcursor⟩ := scan_cursor reportInterval now hr hp h0
    have hstay : p = peer.nextExpectedSeq.toNat := by
      by_contra hne
      obtain ⟨-, d, hd, heq, -⟩ := hcursor.started (lt_of_le_of_ne hcursor.ge (Ne.symm hne))
      rw [below, ExtTreeMap.toList_filter, List.mem_filter, decide_eq_true_eq, heq] at hd
      exact absurd hd.2 (UInt32.not_lt.mpr (UInt32.le_of_lt hlt))
    rw [hcursor.next_eq, hstay, UInt32.ofNat_toNat]
    refine iff_of_true hlt ⟨⟨_, hlt, h.next_notMem hinit⟩, fun j hj hj' => ?_⟩
    exact absurd (UInt32.le_trans hj hj') hle

/-! ## What the tracking keeps -/

lemma Settled.congr {peer' : Peer} (h : Settled peer) (heq : tracking peer' = tracking peer) :
    Settled peer' := by
  simp only [tracking, Prod.mk.injEq] at heq
  obtain ⟨hinit, hnext, hrecv, hmissing⟩ := heq
  exact ⟨by rw [hrecv]; exact h.zero_notMem, by rw [hinit, hnext, hrecv]; exact h.next_notMem,
    by rw [hinit, hrecv, hmissing]; exact h.fresh⟩

/-- The cursor stops at a sequence that was not received. -/
lemma next_notMem_advance {recv : ExtTreeSet UInt32} (next : UInt32) (h0 : (0 : UInt32) ∉ recv) :
    (advance recv next).2 ∉ (advance recv next).1 := by
  obtain ⟨_, -, -, -, hout, -, -⟩ := advance_walk next h0
  exact fun hmem => hout (mem_of_mem_advance hmem)

lemma settled_trackSequence (h : Settled peer) (seq : UInt32) (now : TimePoint) :
    Settled (trackSequence peer seq now) := by
  refine ⟨zero_notMem_trackSequence seq now h.zero_notMem, ?_, ?_⟩
  all_goals unfold trackSequence
  all_goals split_ifs with hzero hinit hge
  · exact h.next_notMem
  · refine fun _ => next_notMem_advance _ fun hmem => ?_
    rcases ExtTreeSet.mem_insert.mp hmem with heq | hmem
    · exact hzero (Std.LawfulEqCmp.compare_eq_iff_eq.mp heq)
    · exact h.zero_notMem hmem
  · exact fun _ => next_notMem_advance _ h.zero_notMem
  · exact fun _ => (h.fresh (Bool.eq_false_of_not_eq_true hinit)).1 _
  · exact h.fresh
  · exact fun hf => absurd (hinit.symm.trans hf) (by simp)
  · exact fun hf => absurd (hinit.symm.trans hf) (by simp)
  · exact fun hf => absurd hf (by simp)

lemma settled_skipGap (h : Settled peer) (g : UInt32) : Settled (skipGap peer g) := by
  unfold skipGap
  split
  · next hcond =>
    refine ⟨fun hmem => h.zero_notMem (mem_of_mem_advance hmem),
      fun _ => next_notMem_advance _ h.zero_notMem, fun hf => ?_⟩
    exact absurd (hcond.1.symm.trans hf) (by simp)
  · exact h

lemma Settled.shrink (h : Settled peer) {missing : ExtTreeMap UInt32 TimePoint}
    (hsub : ∀ k ∈ missing, k ∈ peer.missingSeqs) : Settled { peer with missingSeqs := missing } :=
  ⟨h.zero_notMem, h.next_notMem, fun hf =>
    ⟨(h.fresh hf).1, fun k hk => (h.fresh hf).2 k (hsub k hk)⟩⟩

lemma settled_foldl_scanEntry (reportInterval : Int) (now : TimePoint)
    (l : List (UInt32 × TimePoint)) {s : Peer × List UInt32} (h : Settled s.1) :
    Settled (l.foldl (scanEntry reportInterval now) s).1 :=
  foldl_scanEntry_keeps (I := Settled) (fun e _ _ hp => settled_skipGap hp e.1)
    (fun _ _ hp => hp.shrink fun _ hk => (ExtTreeMap.mem_erase.mp hk).2) reportInterval now h

lemma settled_step {lateMultiplier : Float} {maxMessageBytes : ℕ} {peer' : Peer} {ev : Event}
    {o : Option Bytes} (h : Settled peer)
    (hstep : step lateMultiplier maxMessageBytes peer ev = .ok (peer', o)) : Settled peer' := by
  cases ev with
  | data a =>
      exact (settled_trackSequence h a.header.sequence a.clock.now).congr (step_data_tracking hstep)
  | report retransmit peerRetransmit senderRttUs reportInterval now =>
      simp only [step, Except.ok.injEq, Prod.mk.injEq] at hstep
      rw [← hstep.1]
      have hset : Settled { peer with retransmit, peerRetransmit, senderRttUs } := h.congr rfl
      have hscan := settled_foldl_scanEntry reportInterval now peer.missingSeqs.toList
        (s := ({ peer with retransmit, peerRetransmit, senderRttUs }, [])) hset
      obtain ⟨hnext, hrecv, hinit, hmissing⟩ :=
        buildPayload_tracking { peer with
          retransmit, peerRetransmit, senderRttUs } reportInterval now
      refine (hscan.shrink fun k hk => capMissing_subset _ k hk).congr ?_
      simp only [tracking, hnext, hrecv, hinit, hmissing]
      rfl

lemma Untouched.settled (h : Untouched peer) : Settled peer := by
  have hrecv : ∀ x, x ∉ peer.recvSeqs := fun x hx =>
    ExtTreeSet.not_mem_empty (h.recvSeqs ▸ hx)
  have hmissing : ∀ k, k ∉ peer.missingSeqs := fun k hk =>
    ExtTreeMap.not_mem_empty (h.missingSeqs ▸ hk)
  exact ⟨hrecv 0, fun _ => hrecv _, fun _ => ⟨hrecv, hmissing⟩⟩

/-! ## Whole runs -/

lemma givesUpBelow_iff (h : Settled peer) (ev : Event) :
    GivesUpBelow peer ev ↔ GivesUpPassed peer ev := by
  cases ev with
  | data a => exact Iff.rfl
  | report retransmit peerRetransmit senderRttUs reportInterval now =>
      refine forall_congr' fun hr => forall_congr' fun hp => ?_
      have hset : Settled { peer with retransmit, peerRetransmit, senderRttUs } := h.congr rfl
      constructor
      · intro hbelow g since hsome hgive
        obtain ⟨pre, post, hsplit⟩ := List.append_of_mem
          (ExtTreeMap.mem_toList_iff_getElem?_eq_some.mpr hsome)
        exact (given_up_below_iff hset hr hp hsplit hgive).mp
          (hbelow pre (g, since) post hsplit hgive)
      · intro hpassed pre e post hsplit hgive
        refine (given_up_below_iff hset hr hp hsplit hgive).mpr (hpassed e.1 e.2 ?_ hgive)
        exact ExtTreeMap.mem_toList_iff_getElem?_eq_some.mp
          (hsplit ▸ List.mem_append_right _ List.mem_cons_self)

/-- In a run of data packets and reports, at any times and under any settings, each sequence that is
given up is below the cursor at that moment exactly if the cursor had passed it before or the report
moves over it, which takes that it has arrived after all. -/
theorem gaps_given_up_below_iff (lateMultiplier : Float) (maxMessageBytes : ℕ) (peer : Peer)
    (hpeer : Untouched peer) (events : List Event) :
    Machine.Along (step lateMultiplier maxMessageBytes) GivesUpBelow peer events ↔
      Machine.Along (step lateMultiplier maxMessageBytes) GivesUpPassed peer events := by
  refine Machine.along_congr (I := Settled) (R := fun _ _ => True)
    (fun _ ev h _ => givesUpBelow_iff h ev) (fun _ _ _ _ h _ _ hstep => settled_step h hstep)
    hpeer.settled ?_
  exact Machine.along_of_forall (fun _ _ => trivial) peer events

/-- A gap that a report skips before a later one gives it up. -/
theorem gaps_given_up_below_skipped :
    Machine.Along (step 4.0 65536) GivesUpBelow {}
      [numbered 1 0, numbered 3 0, .report true true 0 100 200000000,
        .report true true 0 100 2000000000] := by
  refine (gaps_given_up_below_iff 4.0 65536 {} ⟨rfl, rfl, rfl⟩ _).mpr ?_
  obtain ⟨⟨p, _⟩, hrun, hp⟩ := Machine.exists_ok_of_any
    (r := Machine.run (step 4.0 65536) {} [numbered 1 0, numbered 3 0])
    (p := fun r => decide (r.1.missingSeqs.toList = [(2, 0)])) (by decide)
  obtain ⟨⟨q, _⟩, hrun', hq⟩ := Machine.exists_ok_of_any
    (r := Machine.run (step 4.0 65536) {}
      ([numbered 1 0, numbered 3 0] ++ [.report true true 0 100 200000000]))
    (p := fun r => decide (r.1.missingSeqs.toList = [(2, 0)] ∧ r.1.nextExpectedSeq = 4 ∧
      4 ∉ r.1.recvSeqs)) (by decide)
  have hp := of_decide_eq_true hp
  obtain ⟨hmissing, hnext, hrecv⟩ := of_decide_eq_true hq
  have hpackets : Machine.Along (step 4.0 65536) GivesUpPassed {} [numbered 1 0, numbered 3 0] :=
    ⟨trivial, fun _ _ _ => ⟨trivial, fun _ _ _ => trivial⟩⟩
  refine (Machine.along_append_iff hrun').mpr ⟨(Machine.along_append_iff hrun).mpr ⟨hpackets,
    fun _ _ g since hg hgive => ?_, fun _ _ _ => trivial⟩, fun _ _ g since hg _ => ?_,
    fun _ _ _ => trivial⟩
  · -- The first report finds the gap too young to give it up.
    have hmem := ExtTreeMap.mem_toList_iff_getElem?_eq_some.mpr hg
    rw [hp, List.mem_singleton, Prod.mk.injEq] at hmem
    rw [hmem.2] at hgive
    exact absurd hgive (by decide)
  · have hmem := ExtTreeMap.mem_toList_iff_getElem?_eq_some.mpr hg
    rw [hmissing, List.mem_singleton, Prod.mk.injEq] at hmem
    rw [hmem.1]
    refine ⟨⟨4, by decide, hrecv⟩, fun j hj hj' => ?_⟩
    exact absurd (UInt32.le_trans (hnext ▸ hj) hj') (by decide)

/-- The sequence 2 is found by a report only after two seconds: it is erased with the cursor at
2. -/
theorem gap_given_up_at_cursor :
    ¬ Machine.Along (step 4.0 65536) GivesUpBelow {}
      [numbered 1 0, numbered 3 0, .report true true 0 100 2000000000] := by
  intro h
  have hbelow := Machine.along_iff.mp h [numbered 1 0, numbered 3 0] _ [] rfl _ _ rfl rfl rfl
    [] (2, 0) [] rfl (by decide)
  exact absurd hbelow (by decide)

end Tracking
end Damen
