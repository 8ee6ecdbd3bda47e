import Damen.Model.Report
import Damen.Properties.WireFormat

/-!
# What one report scans and lists

`scan_lost` and `scan_frame` describe the loop of `build_payload` over the missing sequences: with
retransmission on, the list it builds consists of the aged sequences in increasing order, and
nothing but the cursor, the received set and the missing map changes.  `listedLost_buildPayload`
reads the encoded bytes back: a report lists the first `lostCount` of them.
-/

namespace Damen
namespace Report

open Std (ExtTreeMap)

/-! ## Aged sequences -/

/-- The missing sequence is late enough to be reported and not given up. -/
def Aged (peer : Peer) (reportInterval : Int) (now : TimePoint) (since : TimePoint) : Prop :=
  ((lossThreshold peer).toNat : Int) < toMicros (now - since) ∧
    toMicros (now - since) ≤ giveUpUs reportInterval

instance (peer : Peer) (reportInterval : Int) (now since : TimePoint) :
    Decidable (Aged peer reportInterval now since) :=
  inferInstanceAs (Decidable (_ ∧ _))

/-- The aged sequences, in increasing order. -/
def agedSeqs (peer : Peer) (reportInterval : Int) (now : TimePoint) : List UInt32 :=
  (peer.missingSeqs.toList.filter fun e => Aged peer reportInterval now e.2).map Prod.fst

/-! ## The scan -/

/-- The two peers differ at most in the gap tracking. -/
structure SameConfig (peer peer' : Peer) : Prop where
  retransmit : peer'.retransmit = peer.retransmit
  peerRetransmit : peer'.peerRetransmit = peer.peerRetransmit
  senderRttUs : peer'.senderRttUs = peer.senderRttUs
  seqInitialized : peer'.seqInitialized = peer.seqInitialized

lemma SameConfig.refl (peer : Peer) : SameConfig peer peer := ⟨rfl, rfl, rfl, rfl⟩

lemma SameConfig.trans {p q r : Peer} (h : SameConfig p q) (h' : SameConfig q r) :
    SameConfig p r :=
  ⟨h'.1.trans h.1, h'.2.trans h.2, h'.3.trans h.3, h'.4.trans h.4⟩

variable {peer : Peer} {s : Peer × List UInt32} {reportInterval : Int}

lemma SameConfig.lossThreshold_eq {peer' : Peer} (h : SameConfig peer peer') :
    lossThreshold peer' = lossThreshold peer := by
  unfold lossThreshold
  rw [h.senderRttUs]

lemma skipGap_frame (peer : Peer) (g : UInt32) :
    SameConfig peer (skipGap peer g) ∧ (skipGap peer g).missingSeqs = peer.missingSeqs := by
  unfold skipGap
  split
  · exact ⟨⟨rfl, rfl, rfl, rfl⟩, rfl⟩
  · exact ⟨SameConfig.refl peer, rfl⟩

/-- A round of the scan may skip a gap and may erase an entry; what these two keep, it keeps. -/
lemma scanEntry_keeps {I : Peer → Prop} {e : UInt32 × TimePoint}
    (hskip : ∀ p, I p → I (skipGap p e.1))
    (herase : ∀ p k, I p → I { p with missingSeqs := p.missingSeqs.erase k }) (reportInterval : Int)
    (now : TimePoint) (h : I s.1) : I (scanEntry reportInterval now s e).1 := by
  unfold scanEntry
  simp only
  split_ifs
  · have hboth := herase (skipGap s.1 e.1) e.1 (hskip s.1 h)
    rwa [(skipGap_frame s.1 e.1).2] at hboth
  · exact herase s.1 e.1 h
  · exact hskip s.1 h
  · exact h

lemma foldl_scanEntry_keeps {I : Peer → Prop} {l : List (UInt32 × TimePoint)}
    (hskip : ∀ e ∈ l, ∀ p, I p → I (skipGap p e.1))
    (herase : ∀ p k, I p → I { p with missingSeqs := p.missingSeqs.erase k }) (reportInterval : Int)
    (now : TimePoint) (h : I s.1) : I (l.foldl (scanEntry reportInterval now) s).1 := by
  induction l generalizing s with
  | nil => exact h
  | cons e l ih =>
      exact ih (fun e' he' => hskip e' (List.mem_cons_of_mem e he'))
        (scanEntry_keeps (hskip e List.mem_cons_self) herase reportInterval now h)

/-- The peer `p` has the configuration of `peer` and no missing sequence more. -/
def ScannedFrom (peer p : Peer) : Prop :=
  SameConfig peer p ∧ ∀ k, k ∈ p.missingSeqs → k ∈ peer.missingSeqs

lemma ScannedFrom.refl (peer : Peer) : ScannedFrom peer peer :=
  ⟨SameConfig.refl peer, fun _ hk => hk⟩

lemma ScannedFrom.skipGap {p : Peer} (h : ScannedFrom peer p) (g : UInt32) :
    ScannedFrom peer (skipGap p g) := by
  obtain ⟨hconfig, hmissing⟩ := skipGap_frame p g
  exact ⟨h.1.trans hconfig, fun k hk => h.2 k (hmissing ▸ hk)⟩

lemma ScannedFrom.erase {p : Peer} (h : ScannedFrom peer p) (k : UInt32) :
    ScannedFrom peer { p with missingSeqs := p.missingSeqs.erase k } :=
  ⟨⟨h.1.1, h.1.2, h.1.3, h.1.4⟩, fun k' hk' => h.2 k' (ExtTreeMap.mem_erase.mp hk').2⟩

lemma scanEntry_frame (reportInterval : Int) (now : TimePoint) (s : Peer × List UInt32)
    (e : UInt32 × TimePoint) :
    SameConfig s.1 (scanEntry reportInterval now s e).1 ∧
      ∀ k, k ∈ (scanEntry reportInterval now s e).1.missingSeqs → k ∈ s.1.missingSeqs :=
  scanEntry_keeps (I := ScannedFrom s.1) (fun _ h => h.skipGap e.1) (fun _ k h => h.erase k)
    reportInterval now (ScannedFrom.refl s.1)

lemma foldl_scanEntry_frame (reportInterval : Int) (now : TimePoint)
    (l : List (UInt32 × TimePoint)) (s : Peer × List UInt32) :
    SameConfig s.1 (l.foldl (scanEntry reportInterval now) s).1 ∧
      ∀ k, k ∈ (l.foldl (scanEntry reportInterval now) s).1.missingSeqs →
        k ∈ s.1.missingSeqs :=
  foldl_scanEntry_keeps (I := ScannedFrom s.1) (fun e _ _ h => h.skipGap e.1)
    (fun _ k h => h.erase k)
    reportInterval now (ScannedFrom.refl s.1)

lemma scan_frame (peer : Peer) (reportInterval : Int) (now : TimePoint) :
    SameConfig peer (scanMissing reportInterval now peer).1 ∧
      ∀ k, k ∈ (scanMissing reportInterval now peer).1.missingSeqs → k ∈ peer.missingSeqs :=
  foldl_scanEntry_frame reportInterval now _ (peer, [])

/-- The scan writes the cursor, the received set and the missing map. -/
lemma scanMissing_frame (reportInterval : Int) (now : TimePoint) (peer : Peer) :
    ∃ missingSeqs recvSeqs nextExpectedSeq, (scanMissing reportInterval now peer).1 =
      { peer with missingSeqs, recvSeqs, nextExpectedSeq } := by
  refine foldl_scanEntry_keeps (I := fun p => ∃ missingSeqs recvSeqs nextExpectedSeq,
    p = { peer with missingSeqs, recvSeqs, nextExpectedSeq }) ?_ ?_ reportInterval now
      ⟨_, _, _, rfl⟩
  · rintro e - p ⟨missingSeqs, recvSeqs, nextExpectedSeq, rfl⟩
    unfold skipGap
    split
    · exact ⟨_, _, _, rfl⟩
    · exact ⟨_, _, _, rfl⟩
  · rintro p k ⟨missingSeqs, recvSeqs, nextExpectedSeq, rfl⟩
    exact ⟨_, _, _, rfl⟩

lemma foldl_scanEntry_lost (reportInterval : Int) (now : TimePoint) (hr : peer.retransmit = true)
    (hp : peer.peerRetransmit = true) (l : List (UInt32 × TimePoint)) (hs : SameConfig peer s.1) :
    (l.foldl (scanEntry reportInterval now) s).2 =
      s.2 ++ (l.filter fun e => Aged peer reportInterval now e.2).map Prod.fst := by
  induction l generalizing s with
  | nil => exact (List.append_nil _).symm
  | cons e l ih =>
      have hon : ¬ (¬ s.1.retransmit = true ∨ ¬ s.1.peerRetransmit = true) := by
        rw [hs.retransmit, hs.peerRetransmit, hr, hp]
        simp
      rw [List.foldl_cons, ih (hs.trans (scanEntry_frame reportInterval now s e).1)]
      unfold scanEntry
      simp only [if_neg hon]
      by_cases hgive : giveUpUs reportInterval < toMicros (now - e.2)
      · have hnot : ¬ Aged peer reportInterval now e.2 := fun h => absurd h.2 (not_le.mpr hgive)
        rw [if_pos hgive, List.filter_cons_of_neg (by simpa using hnot)]
      · rw [if_neg hgive, hs.lossThreshold_eq]
        by_cases hlate : ((lossThreshold peer).toNat : Int) < toMicros (now - e.2)
        · have haged : Aged peer reportInterval now e.2 := ⟨hlate, not_lt.mp hgive⟩
          rw [if_pos hlate, List.filter_cons_of_pos (by simpa using haged), List.map_cons,
            List.append_assoc]
          rfl
        · have hnot : ¬ Aged peer reportInterval now e.2 := fun h => hlate h.1
          rw [if_neg hlate, List.filter_cons_of_neg (by simpa using hnot)]

/-- With retransmission on, the aged sequences are collected. -/
lemma scan_lost (reportInterval : Int) (now : TimePoint) (hr : peer.retransmit = true)
    (hp : peer.peerRetransmit = true) :
    (scanMissing reportInterval now peer).2 = agedSeqs peer reportInterval now :=
  foldl_scanEntry_lost reportInterval now hr hp _ (SameConfig.refl peer)

/-- Whatever the settings, only aged sequences are collected. -/
lemma foldl_scanEntry_lost_aged (reportInterval : Int) (now : TimePoint)
    (l : List (UInt32 × TimePoint)) (hs : SameConfig peer s.1) :
    ∀ k ∈ (l.foldl (scanEntry reportInterval now) s).2,
      k ∈ s.2 ∨ ∃ e ∈ l, e.1 = k ∧ Aged peer reportInterval now e.2 := by
  induction l generalizing s with
  | nil => exact fun k hk => Or.inl hk
  | cons e l ih =>
      intro k hk
      rcases ih (hs.trans (scanEntry_frame reportInterval now s e).1) k hk with
        hk | ⟨e', he', haged⟩
      · unfold scanEntry at hk
        simp only [hs.lossThreshold_eq] at hk
        split_ifs at hk with hoff hgive hlate
        · exact Or.inl hk
        · exact Or.inl hk
        · rcases List.mem_append.mp hk with hk | hk
          · exact Or.inl hk
          · exact Or.inr ⟨e, List.mem_cons_self, (List.mem_singleton.mp hk).symm, hlate,
              not_lt.mp hgive⟩
        · exact Or.inl hk
      · exact Or.inr ⟨e', List.mem_cons_of_mem _ he', haged⟩

lemma aged_of_mem_scan_lost {now : TimePoint} {k : UInt32}
    (h : k ∈ (scanMissing reportInterval now peer).2) :
    ∃ since, peer.missingSeqs[k]? = some since ∧ Aged peer reportInterval now since := by
  rcases foldl_scanEntry_lost_aged reportInterval now _ (SameConfig.refl peer) k h with
    hnil | ⟨e, he, rfl, haged⟩
  · exact absurd hnil List.not_mem_nil
  · exact ⟨e.2, ExtTreeMap.mem_toList_iff_getElem?_eq_some.mp he, haged⟩

lemma mem_of_mem_scan_lost {now : TimePoint} {k : UInt32}
    (h : k ∈ (scanMissing reportInterval now peer).2) : k ∈ peer.missingSeqs := by
  obtain ⟨since, hsince, -⟩ := aged_of_mem_scan_lost h
  exact of_getElem?_eq_some hsince

/-! ## Reading a report back -/

lemma lostCount_toNat (lost : List UInt32) :
    (lostCount lost).toNat = min (lost.length % 65536) 256 := by
  have hcount : (UInt16.ofNat lost.length).toNat = lost.length % 65536 := UInt16.toNat_ofNat'
  unfold lostCount
  simp only
  split
  · next hlt =>
    have hlt : 256 < lost.length % 65536 := hcount ▸ UInt16.lt_iff_toNat_lt.mp hlt
    rw [min_eq_right hlt.le]
    rfl
  · next hle =>
    have hle : lost.length % 65536 ≤ 256 := hcount ▸ not_lt.mp fun h =>
      hle (UInt16.lt_iff_toNat_lt.mpr h)
    rw [hcount, min_eq_left hle]

lemma lostCount_le (lost : List UInt32) : (lostCount lost).toNat ≤ lost.length := by
  rw [lostCount_toNat]
  exact (min_le_left _ _).trans (Nat.mod_le _ _)

lemma length_flatten_put32 (l : List UInt32) : ((l.map put32).flatten).length = 4 * l.length := by
  induction l with
  | nil => rfl
  | cons v l ih =>
      rw [List.map_cons, List.flatten_cons, List.length_append, ih, length_put32, List.length_cons]
      omega

/-- The words of a sequence of 32-bit fields read back one by one. -/
lemma parse_put32s (pre rest : Bytes) (l : List UInt32) :
    ((List.range l.length).map fun i =>
      get32 (pre ++ ((l.map put32).flatten ++ rest)) (pre.length + i * 4)) = l := by
  refine List.ext_getElem (by simp) fun i hi hi' => ?_
  rw [List.getElem_map, List.getElem_range]
  have hsplit : (l.map put32).flatten =
      ((l.take i).map put32).flatten ++ (put32 l[i] ++ ((l.drop (i + 1)).map put32).flatten) := by
    conv_lhs => rw [← List.take_append_drop i l, List.drop_eq_getElem_cons hi']
    rw [List.map_append, List.flatten_append, List.map_cons, List.flatten_cons]
  have hoff : pre.length + i * 4 = (pre ++ ((l.take i).map put32).flatten).length := by
    rw [List.length_append, length_flatten_put32, List.length_take]
    omega
  rw [hsplit, hoff]
  simp only [List.append_assoc]
  rw [← List.append_assoc pre]
  exact get32_put32 _ _ _

lemma length_take_lostCount (lost : List UInt32) :
    (lost.take (lostCount lost).toNat).length = (lostCount lost).toNat := by
  rw [List.length_take, min_eq_left (lostCount_le lost)]

section Encoded

variable (ack : UInt32) (ratio : UInt16) (lost : List UInt32) (probeBw : UInt64)

lemma get16_encodePayload_count : get16 (encodePayload ack ratio lost probeBw) 6 =
    lostCount lost := by
  have h := get16_put16 (put32 ack ++ put16 ratio)
    (storeLe32 0 ++ (((lost.take (lostCount lost).toNat).map put32).flatten ++
      put32 probeBw.toUInt32)) (lostCount lost)
  rw [show (put32 ack ++ put16 ratio).length = 6 from rfl] at h
  simpa only [encodePayload, List.append_assoc] using h

lemma length_encodePayload :
    (encodePayload ack ratio lost probeBw).length = 12 + (lostCount lost).toNat * 4 + 4 := by
  simp only [encodePayload, List.length_append, length_put32, length_put16, length_flatten_put32,
    length_take_lostCount]
  rw [show (storeLe32 0).length = 4 from rfl]
  omega

lemma parseLost_encodePayload :
    parseLost (encodePayload ack ratio lost probeBw) (lostCount lost).toNat =
      lost.take (lostCount lost).toNat := by
  have h := parse_put32s (put32 ack ++ put16 ratio ++ put16 (lostCount lost) ++ storeLe32 0)
    (put32 probeBw.toUInt32) (lost.take (lostCount lost).toNat)
  rw [length_take_lostCount, show (put32 ack ++ put16 ratio ++ put16 (lostCount lost) ++
    storeLe32 0).length = 12 from rfl] at h
  simpa only [parseLost, encodePayload, List.append_assoc] using h

/-- The receiver of a report reads the first `lostCount` lost sequences. -/
lemma listedLost_encodePayload :
    listedLost (encodePayload ack ratio lost probeBw) = lost.take (lostCount lost).toNat := by
  unfold listedLost
  rw [get16_encodePayload_count, length_encodePayload, if_neg (by omega), if_neg (by omega),
    parseLost_encodePayload]

end Encoded

/-- What the payload of a report lists. -/
lemma listedLost_buildPayload (peer : Peer) (reportInterval : Int) (now : TimePoint) :
    listedLost (buildPayload peer reportInterval now).2 =
      (scanMissing reportInterval now peer).2.take
        (lostCount (scanMissing reportInterval now peer).2).toNat :=
  listedLost_encodePayload _ _ _ _

lemma capMissing_subset (missing : ExtTreeMap UInt32 TimePoint) (k : UInt32)
    (h : k ∈ capMissing missing) : k ∈ missing := by
  unfold capMissing at h
  generalize missing.toList.take (missing.size - 4096) = l at h
  induction l generalizing missing with
  | nil => exact h
  | cons e l ih => exact (ExtTreeMap.mem_erase.mp (ih _ h)).2

/-- The end of a probe train writes the three fields of the train. -/
lemma finalizeProbeTrain_frame (peer : Peer) (now : TimePoint) :
    finalizeProbeTrain peer now = { peer with
      probeBwBps := (finalizeProbeTrain peer now).probeBwBps
      probeCount := (finalizeProbeTrain peer now).probeCount
      probeBytes := (finalizeProbeTrain peer now).probeBytes } := by
  unfold finalizeProbeTrain
  split_ifs <;> rfl

/-- The gap tracking a report leaves behind is that of its scan, with the cap on the map. -/
lemma buildPayload_tracking (peer : Peer) (reportInterval : Int) (now : TimePoint) :
    (buildPayload peer reportInterval now).1.nextExpectedSeq =
        (scanMissing reportInterval now peer).1.nextExpectedSeq ∧
      (buildPayload peer reportInterval now).1.recvSeqs =
        (scanMissing reportInterval now peer).1.recvSeqs ∧
      (buildPayload peer reportInterval now).1.seqInitialized =
        (scanMissing reportInterval now peer).1.seqInitialized ∧
      (buildPayload peer reportInterval now).1.missingSeqs =
        capMissing (scanMissing reportInterval now peer).1.missingSeqs := by
  unfold buildPayload
  generalize scanMissing reportInterval now peer = s
  generalize hcap : capMissing s.1.missingSeqs = missing
  simp only [hcap]
  rw [finalizeProbeTrain_frame]
  exact ⟨rfl, rfl, rfl, rfl⟩

/-- Besides the gap tracking, a report writes the counters of its interval and the probe train. -/
lemma buildPayload_frame (peer : Peer) (reportInterval : Int) (now : TimePoint) :
    (buildPayload peer reportInterval now).1 = { peer with
      missingSeqs := (buildPayload peer reportInterval now).1.missingSeqs
      recvSeqs := (buildPayload peer reportInterval now).1.recvSeqs
      nextExpectedSeq := (buildPayload peer reportInterval now).1.nextExpectedSeq
      transitSamples := 0
      lateSamples := 0
      probeBwBps := 0
      probeCount := (buildPayload peer reportInterval now).1.probeCount
      probeBytes := (buildPayload peer reportInterval now).1.probeBytes } := by
  obtain ⟨missingSeqs, recvSeqs, nextExpectedSeq, hscan⟩ :=
    scanMissing_frame reportInterval now peer
  unfold buildPayload
  simp only [hscan]
  rw [finalizeProbeTrain_frame]

end Report
end Damen
