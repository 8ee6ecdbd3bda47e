import Damen.Model.DataPath
import Damen.Properties.MissingSequences
import Damen.Properties.ReportCoverage
import Damen.Properties.ReportHandling

/-!
# What both ends agree to have arrived

A sender keeps every data packet in `m_pending` until a report of the receiver acknowledges it or it
was sent again ten times.  The receiver acknowledges by a cursor and lists the gaps behind it, so
the two agree as long as every packet behind the cursor that did not arrive is listed.

`Exchange` is the two ends with what is on the way between them: packets and reports may be lost,
repeated and overtaken.  `pending_kept` says that a number is taken out of `m_pending` only if it
has arrived or was resent ten times, in every run in which

* no packet that was sent before the first numbered one to arrive is still needed, for that one sets
  the cursor, and what lies before it counts as acknowledged;
* whenever a report is built, every gap behind the cursor is older than the loss threshold, which
  follows the round-trip time, and younger than the age at which it is given up;
* the sequence numbers do not wrap.
-/

namespace Damen
namespace Reliability

open Std (ExtTreeMap)
open Fragmenter (Fragment)
open Reassembler Report Tracking
open Transport (Local registerDataPacket recordWireSize)

/-! ## Two ends -/

/-- The two ends, what was sent so far, and the history of the data packets. -/
structure Exchange where
  sender : Peer
  receiver : Peer
  /-- The packets handed to the network, first or again; each may arrive any number of times. -/
  wire : List (PacketHeader × Bytes) := []
  /-- The reports handed to the network. -/
  reports : List Bytes := []
  /-- The numbers given to data packets. -/
  issued : List UInt32 := []
  /-- The numbers `handle_data` was called with. -/
  received : List UInt32 := []
  /-- The numbers of the packets that were sent again. -/
  resent : List UInt32 := []

inductive ExchangeEvent
  /-- A fragment gets its packet, which is sent. -/
  | send (frag : Fragment) (clock : Clock)
  /-- The size of the datagram of such a packet is recorded. -/
  | record (sequence : UInt32) (size : ℕ)
  /-- One of the packets arrives. -/
  | deliver (i : ℕ) (rttUs : UInt32) (clock : Clock)
  /-- A heartbeat tells the receiver the sender's round-trip time. -/
  | heartbeat (senderRttUs : UInt32)
  /-- The receiver builds a report. -/
  | report (reportInterval : Int) (now : TimePoint)
  /-- One of the reports arrives. -/
  | handle (i : ℕ) (now : TimePoint)

def exchangeStep (me : Local) (lateMultiplier : Float) (maxMessageBytes : ℕ) (s : Exchange) :
    ExchangeEvent → Except Fault (Exchange × Unit)
  | .send frag clock =>
      let (sender, header, payload) := registerDataPacket me clock s.sender frag
      .ok ({ s with
        sender
        wire := s.wire ++ [(header, payload)]
        issued := if header.type = .data then s.issued ++ [header.sequence] else s.issued }, ())
  | .record sequence size =>
      if sequence ∈ s.issued then
        .ok ({ s with sender := recordWireSize s.sender sequence size }, ())
      else .ok (s, ())
  | .deliver i rttUs clock =>
      match s.wire[i]? with
      | none => .ok (s, ())
      | some (header, payload) =>
          if header.type = .data ∨ header.type = .parity then
            match receive lateMultiplier maxMessageBytes s.receiver
                { header, payload, rttUs, clock } with
            | .error fault => .error fault
            | .ok (receiver, _) => .ok ({ s with
                receiver
                received := if header.sequence = 0 then s.received
                  else s.received ++ [header.sequence] }, ())
          else .ok (s, ())
  | .heartbeat senderRttUs => .ok ({ s with receiver := { s.receiver with senderRttUs } }, ())
  | .report reportInterval now =>
      let (receiver, payload) := buildPayload s.receiver reportInterval now
      .ok ({ s with receiver, reports := s.reports ++ [payload] }, ())
  | .handle i now =>
      match s.reports[i]? with
      | none => .ok (s, ())
      | some payload =>
          let (sender, _, packets) := Report.handle s.sender payload now
          .ok ({ s with
            sender
            wire := s.wire ++ packets
            resent := s.resent ++ packets.map fun packet => packet.1.sequence }, ())

/-- The packet has arrived, or was sent again ten times. -/
def Settled (s : Exchange) (k : UInt32) : Prop := k ∈ s.received ∨ 10 ≤ s.resent.count k

instance (s : Exchange) (k : UInt32) : Decidable (Settled s k) :=
  inferInstanceAs (Decidable (_ ∨ _))

/-- Whichever report arrives next, it takes no packet out of the retransmission buffer but a settled
one. -/
def Reliable (s : Exchange) : Prop :=
  ∀ payload ∈ s.reports, ∀ (now : TimePoint) (k : UInt32), s.sender.pending[k]? ≠ none →
    (Report.handle s.sender payload now).1.pending[k]? = none → Settled s k

def FewMissing (s : Exchange) : Prop := s.receiver.missingSeqs.size < 256

instance (s : Exchange) : Decidable (FewMissing s) := inferInstanceAs (Decidable (_ < _))

/-- The packet that initialises the cursor comes before no other that is still needed, a report
finds the gaps behind the cursor aged, and the numbers do not wrap. -/
def Orderly (s : Exchange) : ExchangeEvent → Prop
  | .send _ _ => s.sender.sequenceOut ≠ 0 ∧ s.sender.sequenceOut.toNat < 2 ^ 32 - 1
  | .deliver i _ _ => s.receiver.seqInitialized = false → ∀ packet ∈ s.wire[i]?,
      ∀ k ∈ s.issued, k < packet.1.sequence → Settled s k
  | .report reportInterval now => ∀ k ∈ s.issued, k < s.receiver.nextExpectedSeq → ¬ Settled s k →
      ∀ since ∈ s.receiver.missingSeqs[k]?, Aged s.receiver reportInterval now since
  | _ => True

instance (s : Exchange) : ∀ ev, Decidable (Orderly s ev)
  | .send _ _ => inferInstanceAs (Decidable (_ ∧ _))
  | .deliver _ _ _ =>
      have (packet : PacketHeader × Bytes) :
          Decidable (∀ k ∈ s.issued, k < packet.1.sequence → Settled s k) := List.decidableBAll _ _
      inferInstanceAs (Decidable (_ → ∀ packet ∈ (_ : Option _), _))
  | .report _ _ => List.decidableBAll _ _
  | .record _ _ | .heartbeat _ | .handle _ _ => inferInstanceAs (Decidable True)

/-- Both ends have retransmission enabled, and nothing was sent yet. -/
structure Fresh (me : Local) (s : Exchange) : Prop where
  retransmitEnabled : me.config.retransmitEnabled = true
  sender : s.sender.peerRetransmit = true
  receiver : s.receiver.retransmit = true ∧ s.receiver.peerRetransmit = true
  pending : s.sender.pending = ∅
  untouched : Untouched s.receiver
  idle : s.wire = [] ∧ s.reports = [] ∧ s.issued = [] ∧ s.received = [] ∧ s.resent = []

/-! ## The cursor of the receiver -/

variable {peer : Peer} {k sequence : UInt32} {reportInterval : Int} {s s' : Exchange}
  {ps : PendingSend} {payload : Bytes} {me : Local} {clock : Clock} {header : PacketHeader}
  {lateMultiplier : Float}

/-- What is not received and comes to lie behind the cursor was there before, and stays missing. -/
lemma behind_trackSequence {R : List UInt32} {seq : UInt32} (now : TimePoint) (h : Tracks R peer)
    (hR : Valid (R ++ [seq])) (hinit : peer.seqInitialized = true) (hk : k ∉ R ++ [seq])
    (hlt : k < (trackSequence peer seq now).nextExpectedSeq) :
    k < peer.nextExpectedSeq ∧
      (k ∈ peer.missingSeqs → k ∈ (trackSequence peer seq now).missingSeqs) := by
  obtain ⟨hne, -⟩ := hR seq (List.mem_append_right _ List.mem_cons_self)
  have h0 := h.zero_notMem hR.left
  have hRmem : ∀ x, x ∈ peer.recvSeqs → x ∈ R ++ [seq] := fun x hx =>
    List.mem_append_left _ ((h.recv_iff hinit x).mp hx).1
  -- the cursor walks over received sequences only
  have hwalk : ∀ recv : Std.ExtTreeSet UInt32, (0 : UInt32) ∉ recv → (∀ x ∈ recv, x ∈ R ++ [seq]) →
      k < (advance recv peer.nextExpectedSeq).2 → k < peer.nextExpectedSeq := by
    intro recv hzero hsub hlt
    obtain ⟨stop, -, -, hcur, -, hpassed, -⟩ := advance_walk peer.nextExpectedSeq hzero
    by_contra hge
    have hstop : k.toNat < stop := by
      rw [hcur, UInt32.lt_iff_toNat_lt, UInt32.toNat_ofNat'] at hlt
      exact lt_of_lt_of_le hlt (Nat.mod_le _ _)
    exact hk (hsub k (hpassed k (UInt32.not_lt.mp hge) hstop))
  unfold trackSequence at hlt ⊢
  rw [if_neg hne] at hlt ⊢
  simp only [hinit, not_true, if_false] at hlt ⊢
  split at hlt
  · next hge =>
    rw [if_pos hge]
    refine ⟨hwalk _ ?_ ?_ hlt, fun hmem => mem_noteGaps.mpr (Or.inl hmem)⟩
    · rw [Std.ExtTreeSet.mem_insert, Std.LawfulEqCmp.compare_eq_iff_eq, not_or]
      exact ⟨hne, h0⟩
    · intro x hx
      rw [Std.ExtTreeSet.mem_insert, Std.LawfulEqCmp.compare_eq_iff_eq] at hx
      rcases hx with rfl | hx
      · exact List.mem_append_right _ List.mem_cons_self
      · exact hRmem x hx
  · next hge =>
    rw [if_neg hge]
    refine ⟨hwalk _ h0 hRmem hlt, fun hmem => ExtTreeMap.mem_erase.mpr ⟨fun hcmp => ?_, hmem⟩⟩
    exact hk (List.mem_append_right _ (List.mem_singleton.mpr
      (Std.LawfulEqCmp.compare_eq_iff_eq.mp hcmp).symm))

lemma missing_trackSequence {seq : UInt32} {now : TimePoint}
    (h : k ∈ (trackSequence peer seq now).missingSeqs) : k ∈ peer.missingSeqs ∨ k < seq := by
  unfold trackSequence at h
  split at h
  · exact Or.inl h
  · split at h
    · exact Or.inl h
    · split at h
      · rcases mem_noteGaps.mp h with h | ⟨-, hlt, -⟩
        · exact Or.inl h
        · exact Or.inr (UInt32.lt_iff_toNat_lt.mpr hlt)
      · exact Or.inl (ExtTreeMap.mem_erase.mp h).2

/-! ## One report -/

/-- A missing sequence that is not given up stays in the map. -/
lemma mem_foldl_scanEntry {now : TimePoint} {l : List (UInt32 × TimePoint)} {s : Peer × List UInt32}
    (hr : s.1.retransmit = true) (hp : s.1.peerRetransmit = true) (hk : k ∈ s.1.missingSeqs)
    (hl : ∀ e ∈ l, e.1 = k → toMicros (now - e.2) ≤ giveUpUs reportInterval) :
    k ∈ (l.foldl (scanEntry reportInterval now) s).1.missingSeqs := by
  induction l generalizing s with
  | nil => exact hk
  | cons e l ih =>
      obtain ⟨hconfig, -⟩ := scanEntry_frame reportInterval now s e
      refine ih (hconfig.retransmit.trans hr) (hconfig.peerRetransmit.trans hp) ?_ fun e' he' =>
        hl e' (List.mem_cons_of_mem _ he')
      have hon : ¬ (¬ s.1.retransmit = true ∨ ¬ s.1.peerRetransmit = true) := by
        rw [hr, hp]
        simp
      unfold scanEntry
      simp only [if_neg hon]
      split
      · next hgive =>
        refine ExtTreeMap.mem_erase.mpr ⟨fun hcmp => ?_, hk⟩
        exact absurd (hl e List.mem_cons_self (Std.LawfulEqCmp.compare_eq_iff_eq.mp hcmp))
          (not_le.mpr hgive)
      · split
        · rw [(skipGap_frame s.1 e.1).2]
          exact hk
        · exact hk

lemma size_foldl_scanEntry (reportInterval : Int) (now : TimePoint) (l : List (UInt32 × TimePoint))
    (s : Peer × List UInt32) :
    (l.foldl (scanEntry reportInterval now) s).1.missingSeqs.size ≤ s.1.missingSeqs.size := by
  refine foldl_scanEntry_keeps (I := fun p => p.missingSeqs.size ≤ s.1.missingSeqs.size)
    (fun e _ p hp => ?_) (fun p k hp => ExtTreeMap.size_erase_le.trans hp) reportInterval now le_rfl
  rw [(skipGap_frame p e.1).2]
  exact hp

/-- What a report leaves missing, as long as the map is small. -/
lemma mem_missing_buildPayload {now : TimePoint} (hr : peer.retransmit = true)
    (hp : peer.peerRetransmit = true) (hsize : peer.missingSeqs.size < 256) {since : TimePoint}
    (hk : peer.missingSeqs[k]? = some since)
    (hage : toMicros (now - since) ≤ giveUpUs reportInterval) :
    k ∈ (buildPayload peer reportInterval now).1.missingSeqs := by
  rw [(buildPayload_tracking peer reportInterval now).2.2.2, scanMissing]
  have hcap : ∀ m : ExtTreeMap UInt32 TimePoint, m.size < 256 → capMissing m = m := by
    intro m hm
    rw [capMissing, show m.size - 4096 = 0 by omega, List.take_zero, List.foldl_nil]
  rw [hcap _ (lt_of_le_of_lt (size_foldl_scanEntry reportInterval now _ (peer, [])) hsize)]
  refine mem_foldl_scanEntry hr hp ?_ fun e he heq => ?_
  · exact of_getElem?_eq_some hk
  · have hget := ExtTreeMap.mem_toList_iff_getElem?_eq_some.mp he
    rw [heq, hk] at hget
    rw [← Option.some.inj hget]
    exact hage

/-- The cursor in the payload is that of the peer behind the report. -/
lemma ackedUpTo_buildPayload (peer : Peer) (reportInterval : Int) (now : TimePoint) :
    ackedUpTo (buildPayload peer reportInterval now).2 =
      ackSeq (buildPayload peer reportInterval now).1 := by
  obtain ⟨hnext, -, hinit, -⟩ := buildPayload_tracking peer reportInterval now
  have hack : ∀ ack ratio lost probeBw, ackedUpTo (encodePayload ack ratio lost probeBw) = ack := by
    intro ack ratio lost probeBw
    have h := get32_put32 [] (put16 ratio ++ (put16 (lostCount lost) ++ (storeLe32 0 ++
      (((lost.take (lostCount lost).toNat).map put32).flatten ++ put32 probeBw.toUInt32)))) ack
    simpa only [ackedUpTo, encodePayload, List.append_assoc, List.nil_append,
      List.length_nil] using h
  rw [ackSeq, hnext, hinit]
  exact hack _ _ _ _

lemma lt_next_of_le_ackSeq (hne : k ≠ 0) (h : k ≤ ackSeq peer) :
    peer.seqInitialized = true ∧ k < peer.nextExpectedSeq := by
  unfold ackSeq at h
  have hpos : ¬ k ≤ 0 := fun hle => hne (UInt32.le_zero_iff.mp hle)
  split_ifs at h with hinit hnext
  · have hone : (peer.nextExpectedSeq - 1).toNat = peer.nextExpectedSeq.toNat - 1 :=
      UInt32.toNat_sub_of_le _ _ (UInt32.le_iff_toNat_le.mpr (UInt32.lt_iff_toNat_lt.mp hnext))
    have hle := UInt32.le_iff_toNat_le.mp h
    have hpos' := UInt32.lt_iff_toNat_lt.mp hnext
    rw [hone] at hle
    refine ⟨hinit, UInt32.lt_iff_toNat_lt.mpr ?_⟩
    rw [UInt32.toNat_zero] at hpos'
    omega
  · exact absurd h hpos
  · exact absurd h hpos

/-- Every unreceived number that a report leaves behind the cursor is aged if those were that lay
there before. -/
lemma aged_of_behind {R : List UInt32} {now : TimePoint} (h : Tracks R peer) (hR : Valid R)
    (hr : peer.retransmit = true) (hp : peer.peerRetransmit = true) (hk : k ∉ R)
    (hbehind : k < peer.nextExpectedSeq → k ∈ agedSeqs peer reportInterval now)
    (hlt : k < (buildPayload peer reportInterval now).1.nextExpectedSeq) :
    k ∈ agedSeqs peer reportInterval now := by
  rcases UInt32.lt_or_le k peer.nextExpectedSeq with hlow | hge
  · exact hbehind hlow
  · obtain ⟨hinit, -, -, hblock⟩ := (passed_iff hr hp (h.zero_notMem hR) hge).mp hlt
    refine (hblock k hge (UInt32.le_refl k)).resolve_right fun hmem => hk ?_
    exact ((h.recv_iff hinit k).mp hmem).1

/-- With fewer than 256 sequences missing every aged one is listed. -/
lemma listed_of_aged {now : TimePoint} (hr : peer.retransmit = true)
    (hp : peer.peerRetransmit = true) (hsize : peer.missingSeqs.size < 256)
    (hk : k ∈ agedSeqs peer reportInterval now) :
    k ∈ listedLost (buildPayload peer reportInterval now).2 := by
  have hlen : (agedSeqs peer reportInterval now).length < 256 := by
    refine lt_of_le_of_lt ?_ hsize
    rw [agedSeqs, List.length_map, ← ExtTreeMap.length_toList]
    exact List.length_filter_le _ _
  rw [mem_listedLost_iff hr hp]
  refine ⟨hk, ?_⟩
  rw [Nat.mod_eq_of_lt (by omega), min_eq_left hlen.le]
  exact List.length_filter_lt_length_iff_exists.mpr ⟨k, hk, by simp⟩

/-! ## The invariant -/

/-- What is known of an entry of the retransmission buffer.  An entry that was made again when the
size of its packet was recorded holds no packet. -/
def Entry (s : Exchange) (k : UInt32) (ps : PendingSend) : Prop :=
  (ps.header.sequence = k ∧ (Settled s k ∨ ps.retries.toNat ≤ s.resent.count k)) ∨
    (ps.header.sequence = 0 ∧ Settled s k)

lemma Entry.mono (h : Entry s k ps) (hsettled : Settled s k → Settled s' k)
    (hcount : s.resent.count k ≤ s'.resent.count k) : Entry s' k ps := by
  rcases h with ⟨hheader, hold | hretries⟩ | ⟨hheader, hold⟩
  · exact Or.inl ⟨hheader, Or.inl (hsettled hold)⟩
  · exact Or.inl ⟨hheader, Or.inr (hretries.trans hcount)⟩
  · exact Or.inr ⟨hheader, hsettled hold⟩

lemma Entry.settled (h : Entry s k ps) (hretries : kMaxRetries ≤ ps.retries) : Settled s k := by
  rcases h with ⟨-, hsettled | hcount⟩ | ⟨-, hsettled⟩
  · exact hsettled
  · exact Or.inr ((UInt32.le_iff_toNat_le.mp hretries).trans hcount)
  · exact hsettled

/-- The packet of an entry is sent once more. -/
lemma Entry.again (h : Entry s k ps) (hretries : ps.retries < kMaxRetries) (now : TimePoint)
    (hsettled : Settled s k → Settled s' k)
    (hcount : ps.header.sequence = k → s.resent.count k + 1 ≤ s'.resent.count k) :
    Entry s' k (resentOnce now ps) := by
  rcases h with ⟨hheader, hold | hle⟩ | ⟨hheader, hold⟩
  · exact Or.inl ⟨hheader, Or.inl (hsettled hold)⟩
  · have hlt : ps.retries.toNat < 10 := UInt32.lt_iff_toNat_lt.mp hretries
    refine Or.inl ⟨hheader, Or.inr ?_⟩
    rw [resentOnce, Drain.toNat_succ (by omega)]
    exact (Nat.succ_le_succ hle).trans (hcount hheader)
  · exact Or.inr ⟨hheader, hsettled hold⟩

/-- What a report acknowledges was sent, and is settled where the report does not list it. -/
def Told (s : Exchange) (payload : Bytes) : Prop :=
  (ackedUpTo payload = 0 ∨ ackedUpTo payload < s.sender.sequenceOut) ∧
    ∀ k ∈ s.issued, k ≤ ackedUpTo payload → k ∉ listedLost payload → Settled s k

lemma Told.mono (h : Told s payload) (hnumber : s'.sender.sequenceOut = s.sender.sequenceOut)
    (hissued : s'.issued = s.issued) (hsettled : ∀ k, Settled s k → Settled s' k) :
    Told s' payload := by
  refine ⟨?_, fun k hk hle hlisted => hsettled k (h.2 k (hissued ▸ hk) hle hlisted)⟩
  rw [hnumber]
  exact h.1

structure Accounted (me : Local) (s : Exchange) : Prop where
  retransmitEnabled : me.config.retransmitEnabled = true
  sender : s.sender.peerRetransmit = true
  receiver : s.receiver.retransmit = true ∧ s.receiver.peerRetransmit = true
  tracks : Tracks s.received s.receiver
  issued : ∀ k ∈ s.issued, k ≠ 0 ∧ k.toNat < 2 ^ 32 - 1 ∧ k < s.sender.sequenceOut
  wire : ∀ packet ∈ s.wire, packet.1.sequence = 0 ∨ packet.1.sequence ∈ s.issued
  received : ∀ k ∈ s.received, k ∈ s.issued
  cursor : s.receiver.seqInitialized = true → s.receiver.nextExpectedSeq ≤ s.sender.sequenceOut
  missing : ∀ k ∈ s.receiver.missingSeqs, k < s.sender.sequenceOut
  behind : s.receiver.seqInitialized = true → ∀ k ∈ s.issued, ¬ Settled s k →
    k < s.receiver.nextExpectedSeq → k ∈ s.receiver.missingSeqs
  pending : ∀ (k : UInt32) (ps : PendingSend), s.sender.pending[k]? = some ps →
    k ∈ s.issued ∧ Entry s k ps
  gone : ∀ k ∈ s.issued, s.sender.pending[k]? = none → Settled s k
  reports : ∀ payload ∈ s.reports, Told s payload

lemma accounted_fresh (h : Fresh me s) : Accounted me s := by
  obtain ⟨hwire, hreports, hissued, hreceived, -⟩ := h.idle
  have huninit : s.receiver.seqInitialized ≠ true := by
    rw [h.untouched.seqInitialized]
    simp
  exact {
    retransmitEnabled := h.retransmitEnabled
    sender := h.sender
    receiver := h.receiver
    tracks := hreceived ▸ h.untouched.tracks
    issued := by
      rw [hissued]
      exact fun k hk => absurd hk List.not_mem_nil
    wire := by
      rw [hwire]
      exact fun packet hpacket => absurd hpacket List.not_mem_nil
    received := by
      rw [hreceived]
      exact fun k hk => absurd hk List.not_mem_nil
    cursor := fun hinit => absurd hinit huninit
    missing := by
      rw [h.untouched.missingSeqs]
      exact fun k hk => absurd hk ExtTreeMap.not_mem_empty
    behind := fun hinit => absurd hinit huninit
    pending := by
      rw [h.pending]
      exact fun k ps hps => absurd hps (by simp)
    gone := by
      rw [hissued]
      exact fun k hk => absurd hk List.not_mem_nil
    reports := by
      rw [hreports]
      exact fun payload hpayload => absurd hpayload List.not_mem_nil }

lemma Accounted.valid (h : Accounted me s) : Valid s.received :=
  fun k hk => ⟨(h.issued k (h.received k hk)).1, (h.issued k (h.received k hk)).2.1⟩

/-- What the sender drops is settled. -/
lemma Accounted.reliable (h : Accounted me s) : Reliable s := by
  intro payload hpayload now k hbefore hafter
  obtain ⟨ps, hps⟩ := Option.ne_none_iff_exists'.mp hbefore
  by_cases hform : WellFormed payload
  · obtain ⟨hissued, hentry⟩ := h.pending k ps hps
    rw [handle_pending hform, hps, Option.bind_some] at hafter
    split at hafter
    · next hdrop =>
      rcases hdrop with ⟨hle, hlisted⟩ | hretries
      · exact (h.reports payload hpayload).2 k hissued hle hlisted
      · exact hentry.settled hretries
    · exact absurd hafter (by simp)
  · rw [handle_malformed hform, hps] at hafter
    exact absurd hafter (by simp)

/-! ## Steps of the sender -/

/-- A data packet gets the next number and an entry; a parity packet gets neither. -/
lemma register_cases {peer' : Peer} {frag : Fragment}
    (henabled : me.config.retransmitEnabled = true) (hpeer : peer.peerRetransmit = true)
    (h : registerDataPacket me clock peer frag = (peer', header, payload)) :
    (header.type = .data ∧ header.sequence = peer.sequenceOut ∧
      ∃ ps : PendingSend, ps.header = header ∧
        ps.retries = (peer.pending.getD peer.sequenceOut {}).retries ∧
        peer' = { peer with
          sequenceOut := peer.sequenceOut + 1
          pending := peer.pending.insert peer.sequenceOut ps }) ∨
      (header.type ≠ .data ∧ header.sequence = 0 ∧ peer' = peer) := by
  unfold registerDataPacket Transport.keepsPending Fragmenter.dataPacket at h
  simp only [Prod.mk.injEq] at h
  obtain ⟨rfl, rfl, rfl⟩ := h
  by_cases hlast : frag.idx.toNat + 1 = frag.cnt.toNat
  · right
    simp [hlast]
  · left
    simp only [hlast, if_false, if_true, henabled, hpeer, true_and, and_self, decide_true]
    refine ⟨_, ?_, ?_, rfl⟩ <;> rfl

lemma Accounted.ne_next (h : Accounted me s) (hk : k ∈ s.issued) : k ≠ s.sender.sequenceOut :=
  fun heq => UInt32.lt_irrefl _ (heq ▸ (h.issued k hk).2.2)

/-- The next number has no entry yet. -/
lemma Accounted.next_unused (h : Accounted me s) :
    s.sender.pending[s.sender.sequenceOut]? = none := by
  cases hget : s.sender.pending[s.sender.sequenceOut]? with
  | none => rfl
  | some ps => exact absurd rfl (h.ne_next (h.pending _ ps hget).1)

/-- No report so far acknowledges the next number. -/
lemma Told.send (h : Told s payload) (hne : s.sender.sequenceOut ≠ 0)
    (hgrow : ∀ k, k < s.sender.sequenceOut → k < s'.sender.sequenceOut)
    (hissued : ∀ k ∈ s'.issued, k ∈ s.issued ∨ k = s.sender.sequenceOut)
    (hsettled : ∀ k, Settled s k → Settled s' k) : Told s' payload := by
  obtain ⟨hack, hlist⟩ := h
  refine ⟨hack.imp_right (hgrow _), fun k hk hle hlisted => ?_⟩
  rcases hissued k hk with hk | rfl
  · exact hsettled k (hlist k hk hle hlisted)
  · rcases hack with hack | hack
    · rw [hack] at hle
      exact absurd (UInt32.le_zero_iff.mp hle) hne
    · exact absurd hle (UInt32.not_le.mpr hack)

lemma Accounted.sendData (h : Accounted me s) (hne : s.sender.sequenceOut ≠ 0)
    (hbound : s.sender.sequenceOut.toNat < 2 ^ 32 - 1)
    (hsequence : header.sequence = s.sender.sequenceOut) (hheader : ps.header = header)
    (hretries : ps.retries = (s.sender.pending.getD s.sender.sequenceOut {}).retries)
    (payload : Bytes) :
    Accounted me { s with
      sender := { s.sender with
        sequenceOut := s.sender.sequenceOut + 1
        pending := s.sender.pending.insert s.sender.sequenceOut ps }
      wire := s.wire ++ [(header, payload)]
      issued := s.issued ++ [header.sequence] } := by
  have hgrow : ∀ k, k < s.sender.sequenceOut → k < s.sender.sequenceOut + 1 := fun k hk =>
    (Drain.lt_succ_iff hbound).mpr (UInt32.le_of_lt hk)
  have hmem : ∀ k ∈ s.issued ++ [header.sequence], k ∈ s.issued ∨ k = s.sender.sequenceOut := by
    intro k hk
    rw [List.mem_append, List.mem_singleton, hsequence] at hk
    exact hk
  have hzero : ps.retries.toNat = 0 := by
    rw [hretries, ExtTreeMap.getD_eq_getD_getElem?, h.next_unused]
    rfl
  exact {
    retransmitEnabled := h.retransmitEnabled
    sender := h.sender
    receiver := h.receiver
    tracks := h.tracks
    issued := by
      intro k hk
      rcases hmem k hk with hk | rfl
      · obtain ⟨hk0, hk1, hk2⟩ := h.issued k hk
        exact ⟨hk0, hk1, hgrow k hk2⟩
      · exact ⟨hne, hbound, (Drain.lt_succ_iff hbound).mpr (UInt32.le_refl _)⟩
    wire := by
      intro packet hpacket
      rcases List.mem_append.mp hpacket with hpacket | hpacket
      · exact (h.wire packet hpacket).imp_right (List.mem_append_left _)
      · rw [List.mem_singleton.mp hpacket]
        exact Or.inr (List.mem_append_right _ List.mem_cons_self)
    received := fun k hk => List.mem_append_left _ (h.received k hk)
    cursor := fun hinit => UInt32.le_of_lt ((Drain.lt_succ_iff hbound).mpr (h.cursor hinit))
    missing := fun k hk => hgrow k (h.missing k hk)
    behind := by
      intro hinit k hk hsettled hlt
      rcases hmem k hk with hk | rfl
      · exact h.behind hinit k hk hsettled hlt
      · exact absurd (h.cursor hinit) (UInt32.not_le.mpr hlt)
    pending := by
      intro k ps' hps'
      rw [OrderedMap.getElem?_insert] at hps'
      split at hps'
      · next hk =>
        cases hps'
        refine ⟨List.mem_append_right _ (List.mem_singleton.mpr (hk.trans hsequence.symm)),
          Or.inl ⟨?_, Or.inr ?_⟩⟩
        · rw [hheader, hsequence, hk]
        · rw [hzero]
          exact Nat.zero_le _
      · obtain ⟨hk, hentry⟩ := h.pending k ps' hps'
        exact ⟨List.mem_append_left _ hk, hentry⟩
    gone := by
      intro k hk hnone
      rw [OrderedMap.getElem?_insert] at hnone
      rcases hmem k hk with hk | rfl
      · rw [if_neg (h.ne_next hk)] at hnone
        exact h.gone k hk hnone
      · rw [if_pos rfl] at hnone
        exact absurd hnone (by simp)
    reports := fun payload hpayload =>
      (h.reports payload hpayload).send hne hgrow hmem fun _ hsettled => hsettled }

lemma Accounted.sendParity (h : Accounted me s) (hsequence : header.sequence = 0)
    (payload : Bytes) : Accounted me { s with wire := s.wire ++ [(header, payload)] } := by
  refine { h with wire := fun packet hpacket => ?_ }
  rcases List.mem_append.mp hpacket with hpacket | hpacket
  · exact h.wire packet hpacket
  · rw [List.mem_singleton.mp hpacket]
    exact Or.inl hsequence

/-- The size of a packet is recorded; if the entry is gone it comes back without a packet. -/
lemma Accounted.record (h : Accounted me s) (hissued : sequence ∈ s.issued) (size : ℕ) :
    Accounted me { s with sender := recordWireSize s.sender sequence size } := by
  refine { h with pending := fun k ps hps => ?_, gone := fun k hk hnone => ?_ }
  · change (s.sender.pending.insert sequence _)[k]? = some ps at hps
    rw [OrderedMap.getElem?_insert] at hps
    split at hps
    · next hk =>
      cases hps
      rw [hk, ExtTreeMap.getD_eq_getD_getElem?]
      refine ⟨hissued, ?_⟩
      cases hget : s.sender.pending[sequence]? with
      | none => exact Or.inr ⟨rfl, h.gone sequence hissued hget⟩
      | some ps => exact (h.pending sequence ps hget).2
    · exact h.pending k ps hps
  · change (s.sender.pending.insert sequence _)[k]? = none at hnone
    rw [OrderedMap.getElem?_insert] at hnone
    split at hnone
    · exact absurd hnone (by simp)
    · exact h.gone k hk hnone

lemma Accounted.send {maxMessageBytes : ℕ} (h : Accounted me s) {frag : Fragment}
    (horder : Orderly s (.send frag clock))
    (hstep : exchangeStep me lateMultiplier maxMessageBytes s (.send frag clock) = .ok (s', ())) :
    Accounted me s' := by
  rw [exchangeStep] at hstep
  generalize hreg : registerDataPacket me clock s.sender frag = r at hstep
  obtain ⟨peer', header, payload⟩ := r
  cases hstep
  rcases register_cases h.retransmitEnabled h.sender hreg with
    ⟨htype, hsequence, ps, hheader, hretries, rfl⟩ | ⟨htype, hsequence, rfl⟩
  · rw [if_pos htype]
    exact h.sendData horder.1 horder.2 hsequence hheader hretries payload
  · rw [if_neg htype]
    exact h.sendParity hsequence payload

lemma settled_resent (h : Settled s k) (sender : Peer) (wire : List (PacketHeader × Bytes))
    (l : List UInt32) : Settled { s with sender, wire, resent := s.resent ++ l } k := by
  refine h.imp_right fun hcount => ?_
  rw [List.count_append]
  omega

/-- What a report leaves in the retransmission buffer, after the packets it lists were sent
again. -/
lemma Accounted.entry_handle (h : Accounted me s) (hform : WellFormed payload) {now : TimePoint}
    (hresent : s'.resent = s.resent ++ (Report.handle s.sender payload now).2.2.map fun packet =>
      packet.1.sequence)
    (hsettled : Settled s k → Settled s' k) {ps' : PendingSend}
    (hps' : (Report.handle s.sender payload now).1.pending[k]? = some ps') :
    k ∈ s.issued ∧ Entry s' k ps' := by
  rw [handle_pending hform] at hps'
  obtain ⟨ps, hps, hfate⟩ := Option.bind_eq_some_iff.mp hps'
  obtain ⟨hk, hentry⟩ := h.pending k ps hps
  refine ⟨hk, ?_⟩
  split at hfate
  · exact absurd hfate (by simp)
  · next hkept =>
    have hretries : ps.retries < kMaxRetries := UInt32.not_le.mp fun hle => hkept (Or.inr hle)
    split at hfate
    · next hlisted =>
      cases hfate
      refine hentry.again hretries now hsettled fun hheader => ?_
      -- the packet is among those that were sent again
      have hmem := List.mem_map_of_mem (f := fun packet : PacketHeader × Bytes =>
        packet.1.sequence) (resent_of_listed now hps hlisted hretries)
      have hpos := List.count_pos_iff.mpr (hheader ▸ hmem)
      rw [hresent, List.count_append]
      exact Nat.add_le_add_left hpos _
    · cases hfate
      refine hentry.mono hsettled ?_
      rw [hresent, List.count_append]
      exact Nat.le_add_right _ _

/-- A report arrives at the sender. -/
lemma Accounted.handle (h : Accounted me s) (hpayload : payload ∈ s.reports)
    (hform : WellFormed payload) (now : TimePoint) :
    Accounted me { s with
      sender := (Report.handle s.sender payload now).1
      wire := s.wire ++ (Report.handle s.sender payload now).2.2
      resent := s.resent ++ (Report.handle s.sender payload now).2.2.map fun packet =>
        packet.1.sequence } := by
  have hframe := handle_frame s.sender payload now
  have hnumber := congrArg Peer.sequenceOut hframe
  refine { h with
    sender := (congrArg Peer.peerRetransmit hframe).trans h.sender
    issued := fun k hk => hnumber ▸ h.issued k hk
    wire := ?_
    cursor := fun hinit => hnumber ▸ h.cursor hinit
    missing := fun k hk => hnumber ▸ h.missing k hk
    behind := fun hinit k hk hnot hlt =>
      h.behind hinit k hk (fun hsettled => hnot (settled_resent hsettled _ _ _)) hlt
    pending := fun k ps hps =>
      h.entry_handle hform rfl (fun hsettled => settled_resent hsettled _ _ _) hps
    gone := ?_
    reports := fun payload hpayload => (h.reports payload hpayload).mono hnumber rfl
      fun k hsettled => settled_resent hsettled _ _ _ }
  · intro packet hpacket
    rcases List.mem_append.mp hpacket with hpacket | hpacket
    · exact h.wire packet hpacket
    · obtain ⟨k, ps, hps, rfl⟩ := mem_resent hpacket
      obtain ⟨hk, ⟨hheader, -⟩ | ⟨hheader, -⟩⟩ := h.pending k ps hps
      · exact Or.inr (hheader ▸ hk)
      · exact Or.inl hheader
  · intro k hk hnone
    by_cases hbefore : s.sender.pending[k]? = none
    · exact settled_resent (h.gone k hk hbefore) _ _ _
    · exact settled_resent (h.reliable payload hpayload now k hbefore hnone) _ _ _

/-! ## Steps of the receiver -/

/-- The gap tracking of the receiver is left alone. -/
lemma Accounted.keepTracking (h : Accounted me s) {receiver : Peer}
    (hretransmit : receiver.retransmit = s.receiver.retransmit)
    (hpeer : receiver.peerRetransmit = s.receiver.peerRetransmit)
    (htracking : tracking receiver = tracking s.receiver) : Accounted me { s with receiver } := by
  have htracks : Tracks s.received receiver := h.tracks.congr htracking
  simp only [tracking, Prod.mk.injEq] at htracking
  obtain ⟨hinit, hnext, -, hmissing⟩ := htracking
  refine { h with
    receiver := ⟨hretransmit.trans h.receiver.1, hpeer.trans h.receiver.2⟩
    tracks := htracks
    cursor := ?_
    missing := ?_
    behind := ?_ }
  · rw [hinit, hnext]
    exact h.cursor
  · rw [hmissing]
    exact h.missing
  · rw [hinit, hnext, hmissing]
    exact h.behind

lemma settled_append (h : Settled s k) (receiver : Peer) (sequence : UInt32) :
    Settled { s with receiver, received := s.received ++ [sequence] } k :=
  h.imp_left (List.mem_append_left _)

lemma Accounted.valid_arrive (h : Accounted me s) (hissued : sequence ∈ s.issued) :
    Valid (s.received ++ [sequence]) := by
  intro k hk
  rcases List.mem_append.mp hk with hk | hk
  · exact h.valid k hk
  · rw [List.mem_singleton.mp hk]
    exact ⟨(h.issued sequence hissued).1, (h.issued sequence hissued).2.1⟩

/-- The first numbered packet sets the cursor. -/
lemma Accounted.lt_next_iff (h : Accounted me s) (hissued : sequence ∈ s.issued)
    (huninit : s.receiver.seqInitialized = false) (now : TimePoint) :
    k < (trackSequence s.receiver sequence now).nextExpectedSeq ↔ k ≤ sequence := by
  unfold trackSequence
  rw [if_neg (h.issued sequence hissued).1, huninit, if_pos (by simp)]
  exact Drain.lt_succ_iff (h.issued sequence hissued).2.1

lemma Accounted.cursor_arrive (h : Accounted me s) (hissued : sequence ∈ s.issued)
    (now : TimePoint) :
    (trackSequence s.receiver sequence now).nextExpectedSeq ≤ s.sender.sequenceOut := by
  refine UInt32.not_lt.mp fun hlt => ?_
  cases hwas : s.receiver.seqInitialized with
  | false =>
      have hle := (h.lt_next_iff hissued hwas now).mp hlt
      exact absurd (h.issued sequence hissued).2.2 (UInt32.not_lt.mpr hle)
  | true =>
      have hk : s.sender.sequenceOut ∉ s.received ++ [sequence] := by
        intro hmem
        rcases List.mem_append.mp hmem with hmem | hmem
        · exact UInt32.lt_irrefl _ (h.issued _ (h.received _ hmem)).2.2
        · exact UInt32.lt_irrefl _ (h.issued _ (List.mem_singleton.mp hmem ▸ hissued)).2.2
      have hbehind := behind_trackSequence now h.tracks (h.valid_arrive hissued) hwas hk hlt
      exact absurd (h.cursor hwas) (UInt32.not_le.mpr hbehind.1)

lemma Accounted.behind_arrive (h : Accounted me s) (hissued : sequence ∈ s.issued)
    (hfirst : s.receiver.seqInitialized = false → ∀ k ∈ s.issued, k < sequence → Settled s k)
    (now : TimePoint) (hk : k ∈ s.issued) (hsettled : ¬ Settled s k) (hne : k ≠ sequence)
    (hlt : k < (trackSequence s.receiver sequence now).nextExpectedSeq) :
    k ∈ (trackSequence s.receiver sequence now).missingSeqs := by
  cases hwas : s.receiver.seqInitialized with
  | false =>
      have hle := (h.lt_next_iff hissued hwas now).mp hlt
      exact absurd (hfirst hwas k hk (UInt32.lt_of_le_of_ne hle hne)) hsettled
  | true =>
      have hunreceived : k ∉ s.received ++ [sequence] := by
        intro hmem
        rcases List.mem_append.mp hmem with hmem | hmem
        · exact hsettled (Or.inl hmem)
        · exact hne (List.mem_singleton.mp hmem)
      obtain ⟨hlow, hstays⟩ :=
        behind_trackSequence now h.tracks (h.valid_arrive hissued) hwas hunreceived hlt
      exact hstays (h.behind hwas k hk hsettled hlow)

/-- A numbered packet arrives. -/
lemma Accounted.arrive (h : Accounted me s) (hissued : sequence ∈ s.issued)
    (hfirst : s.receiver.seqInitialized = false → ∀ k ∈ s.issued, k < sequence → Settled s k)
    {receiver : Peer} (hretransmit : receiver.retransmit = s.receiver.retransmit)
    (hpeer : receiver.peerRetransmit = s.receiver.peerRetransmit) {now : TimePoint}
    (htracking : tracking receiver = tracking (trackSequence s.receiver sequence now)) :
    Accounted me { s with receiver, received := s.received ++ [sequence] } := by
  have htracks := (tracks_trackSequence now h.tracks (h.valid_arrive hissued)).1.congr htracking
  simp only [tracking, Prod.mk.injEq] at htracking
  obtain ⟨-, hnext, -, hmissing⟩ := htracking
  refine { h with
    receiver := ⟨hretransmit.trans h.receiver.1, hpeer.trans h.receiver.2⟩
    tracks := htracks
    received := ?_
    cursor := fun _ => hnext ▸ h.cursor_arrive hissued now
    missing := ?_
    behind := ?_
    pending := fun k ps hps => (h.pending k ps hps).imp_right fun hentry =>
      hentry.mono (fun hsettled => settled_append hsettled receiver sequence) (Nat.le_refl _)
    gone := fun k hk hnone => settled_append (h.gone k hk hnone) receiver sequence
    reports := fun payload hpayload => (h.reports payload hpayload).mono rfl rfl
      fun k hsettled => settled_append hsettled receiver sequence }
  · intro k hk
    rcases List.mem_append.mp hk with hk | hk
    · exact h.received k hk
    · rw [List.mem_singleton.mp hk]
      exact hissued
  · intro k hk
    rw [hmissing] at hk
    rcases missing_trackSequence hk with hk | hlt
    · exact h.missing k hk
    · exact UInt32.lt_trans hlt (h.issued sequence hissued).2.2
  · intro _ k hk hsettled hlt
    rw [hnext] at hlt
    rw [hmissing]
    refine h.behind_arrive hissued hfirst now hk (fun hbefore => ?_) (fun heq => ?_) hlt
    · exact hsettled (settled_append hbefore receiver sequence)
    · exact hsettled (Or.inl (List.mem_append_right _ (List.mem_singleton.mpr heq)))

lemma buildPayload_flags (peer : Peer) (reportInterval : Int) (now : TimePoint) :
    (buildPayload peer reportInterval now).1.retransmit = peer.retransmit ∧
      (buildPayload peer reportInterval now).1.peerRetransmit = peer.peerRetransmit := by
  rw [buildPayload_frame]
  exact ⟨rfl, rfl⟩

lemma buildPayload_seqInitialized (peer : Peer) (reportInterval : Int) (now : TimePoint) :
    (buildPayload peer reportInterval now).1.seqInitialized = peer.seqInitialized := by
  rw [buildPayload_frame]

/-- What a report leaves behind the cursor and is not settled is aged. -/
lemma Accounted.aged_report (h : Accounted me s) {now : TimePoint}
    (horder : Orderly s (.report reportInterval now))
    (hinit : (buildPayload s.receiver reportInterval now).1.seqInitialized = true)
    (hk : k ∈ s.issued) (hsettled : ¬ Settled s k)
    (hlt : k < (buildPayload s.receiver reportInterval now).1.nextExpectedSeq) :
    k ∈ agedSeqs s.receiver reportInterval now := by
  rw [buildPayload_seqInitialized] at hinit
  refine aged_of_behind h.tracks h.valid h.receiver.1 h.receiver.2
    (fun hmem => hsettled (Or.inl hmem)) (fun hlow => ?_) hlt
  obtain ⟨since, hsince⟩ := Option.isSome_iff_exists.mp
    (ExtTreeMap.mem_iff_isSome_getElem?.mp (h.behind hinit k hk hsettled hlow))
  exact mem_agedSeqs.mpr ⟨(k, since), ExtTreeMap.mem_toList_iff_getElem?_eq_some.mpr hsince, rfl,
    horder k hk hlow hsettled since hsince⟩

lemma Accounted.cursor_report (h : Accounted me s) {now : TimePoint}
    (hinit : (buildPayload s.receiver reportInterval now).1.seqInitialized = true) :
    (buildPayload s.receiver reportInterval now).1.nextExpectedSeq ≤ s.sender.sequenceOut := by
  rw [buildPayload_seqInitialized] at hinit
  refine UInt32.not_lt.mp fun hlt => ?_
  have hk : s.sender.sequenceOut ∉ s.received := fun hmem =>
    UInt32.lt_irrefl _ (h.issued _ (h.received _ hmem)).2.2
  -- the next number of the sender is not missing, so no report skips it
  have hmem := aged_of_behind h.tracks h.valid h.receiver.1 h.receiver.2 hk
    (fun hlow => absurd (h.cursor hinit) (UInt32.not_le.mpr hlow)) hlt
  obtain ⟨e, he, heq, -⟩ := mem_agedSeqs.mp hmem
  have hmissing : s.sender.sequenceOut ∈ s.receiver.missingSeqs := by
    rw [ExtTreeMap.mem_iff_isSome_getElem?, ← heq,
      ExtTreeMap.mem_toList_iff_getElem?_eq_some.mp he]
    rfl
  exact UInt32.lt_irrefl _ (h.missing _ hmissing)

lemma Accounted.told_report (h : Accounted me s) (hfew : FewMissing s) {now : TimePoint}
    (horder : Orderly s (.report reportInterval now)) :
    Told s (buildPayload s.receiver reportInterval now).2 := by
  rw [Told, ackedUpTo_buildPayload]
  refine ⟨?_, fun k hk hle hlisted => ?_⟩
  · by_cases hzero : ackSeq (buildPayload s.receiver reportInterval now).1 = 0
    · exact Or.inl hzero
    · obtain ⟨hinit, hlt⟩ := lt_next_of_le_ackSeq hzero (UInt32.le_refl _)
      exact Or.inr (UInt32.lt_of_lt_of_le hlt (h.cursor_report hinit))
  · by_contra hsettled
    obtain ⟨hinit, hlt⟩ := lt_next_of_le_ackSeq (h.issued k hk).1 hle
    exact hlisted (listed_of_aged h.receiver.1 h.receiver.2 hfew
      (h.aged_report horder hinit hk hsettled hlt))

/-- The receiver builds a report. -/
lemma Accounted.report (h : Accounted me s) (hfew : FewMissing s) {now : TimePoint}
    (horder : Orderly s (.report reportInterval now)) :
    Accounted me { s with
      receiver := (buildPayload s.receiver reportInterval now).1
      reports := s.reports ++ [(buildPayload s.receiver reportInterval now).2] } := by
  obtain ⟨hretransmit, hpeer⟩ := buildPayload_flags s.receiver reportInterval now
  refine { h with
    receiver := ⟨hretransmit.trans h.receiver.1, hpeer.trans h.receiver.2⟩
    tracks := (tracks_buildPayload reportInterval now h.tracks h.valid).1
    cursor := fun hinit => h.cursor_report hinit
    missing := fun k hk => h.missing k (mem_missing_of_buildPayload hk)
    behind := fun hinit k hk hsettled hlt => ?_
    reports := fun payload hpayload => ?_ }
  · obtain ⟨e, he, rfl, hage⟩ := mem_agedSeqs.mp (h.aged_report horder hinit hk hsettled hlt)
    exact mem_missing_buildPayload h.receiver.1 h.receiver.2 hfew
      (ExtTreeMap.mem_toList_iff_getElem?_eq_some.mp he) hage.2
  · rcases List.mem_append.mp hpayload with hpayload | hpayload
    · exact h.reports payload hpayload
    · rw [List.mem_singleton.mp hpayload]
      exact h.told_report hfew horder

lemma receive_flags {maxMessageBytes : ℕ} {peer' : Peer} {a : Arrival} {o : Option Bytes}
    (h : receive lateMultiplier maxMessageBytes peer a = .ok (peer', o)) :
    peer'.retransmit = peer.retransmit ∧ peer'.peerRetransmit = peer.peerRetransmit := by
  rw [receive_eq] at h
  have hcollect := collect_frame h
  have hframe := bookkeep_frame lateMultiplier peer a
  generalize bookkeep lateMultiplier peer a = booked at hcollect hframe
  rw [hcollect, hframe]
  exact ⟨rfl, rfl⟩

/-- One of the packets arrives. -/
lemma Accounted.deliver {maxMessageBytes : ℕ} (h : Accounted me s) {i : ℕ} {rttUs : UInt32}
    (horder : Orderly s (.deliver i rttUs clock))
    (hstep : exchangeStep me lateMultiplier maxMessageBytes s (.deliver i rttUs clock) =
      .ok (s', ())) :
    Accounted me s' := by
  rw [exchangeStep] at hstep
  split at hstep
  · cases hstep
    exact h
  · next header payload hwire =>
    split at hstep
    · split at hstep
      · exact absurd hstep (by simp)
      · next receiver o hreceive =>
        cases hstep
        obtain ⟨hretransmit, hpeer⟩ := receive_flags hreceive
        have htracking := receive_tracking hreceive
        split
        · next hzero =>
          refine h.keepTracking hretransmit hpeer (htracking.trans ?_)
          rw [trackSequence, if_pos hzero]
        · next hne =>
          have hissued := (h.wire _ (List.mem_of_getElem? hwire)).resolve_left hne
          exact h.arrive hissued (fun huninit => horder huninit _ hwire) hretransmit hpeer htracking
    · cases hstep
      exact h

/-! ## Whole runs -/

lemma Accounted.step {maxMessageBytes : ℕ} {ev : ExchangeEvent} (h : Accounted me s)
    (hfew : FewMissing s) (horder : Orderly s ev)
    (hstep : exchangeStep me lateMultiplier maxMessageBytes s ev = .ok (s', ())) :
    Accounted me s' := by
  cases ev with
  | send frag clock => exact h.send horder hstep
  | record sequence size =>
      rw [exchangeStep] at hstep
      split at hstep
      · next hissued =>
        cases hstep
        exact h.record hissued size
      · cases hstep
        exact h
  | deliver i rttUs clock => exact h.deliver horder hstep
  | heartbeat senderRttUs =>
      cases hstep
      exact h.keepTracking rfl rfl rfl
  | report reportInterval now =>
      cases hstep
      exact h.report hfew horder
  | handle i now =>
      rw [exchangeStep] at hstep
      split at hstep
      · cases hstep
        exact h
      · next payload hpayload =>
        by_cases hform : WellFormed payload
        · cases hstep
          exact h.handle (List.mem_of_getElem? hpayload) hform now
        · simp only [handle_malformed hform, List.map_nil, List.append_nil] at hstep
          cases hstep
          exact h

/-- A number leaves the retransmission buffer only if the packet has arrived or was resent ten
times, in every run that is `Orderly`. -/
theorem pending_kept (me : Local) (lateMultiplier : Float) (maxMessageBytes : ℕ)
    (start s : Exchange) (events : List ExchangeEvent) (outs : List Unit) (hstart : Fresh me start)
    (halong : Machine.Along (exchangeStep me lateMultiplier maxMessageBytes)
      (fun s ev => FewMissing s ∧ Orderly s ev) start events)
    (hrun : Machine.run (exchangeStep me lateMultiplier maxMessageBytes) start events =
      .ok (s, outs)) : Reliable s :=
  (Machine.run_invariant (fun _ _ _ _ h hP hstep => h.step hP.1 hP.2 hstep) (accounted_fresh hstart)
    halong hrun).reliable

/-- Both ends with retransmission, before the first packet. -/
def bothRetransmit : Exchange :=
  { sender := { peerRetransmit := true }
    receiver := { retransmit := true, peerRetransmit := true } }

lemma fresh_bothRetransmit : Fresh {} bothRetransmit where
  retransmitEnabled := rfl
  sender := rfl
  receiver := ⟨rfl, rfl⟩
  pending := rfl
  untouched := ⟨rfl, rfl, rfl⟩
  idle := ⟨rfl, rfl, rfl, rfl, rfl⟩

/-- The data fragment of a message of one byte. -/
def byteFragment (msgId : UInt32) : Fragment :=
  { msgId, idx := 0, cnt := 2, dataCnt := 1, realSize := 1, data := [7], width := 1 }

/-- The second of three packets is lost, and the report that lists it comes when it is aged. -/
def gapEvents : List ExchangeEvent :=
  [.send (byteFragment 1) ⟨0, 0⟩, .send (byteFragment 2) ⟨0, 0⟩, .send (byteFragment 3) ⟨0, 0⟩,
    .deliver 0 0 ⟨0, 0⟩, .deliver 2 0 ⟨0, 0⟩, .report 100 200000000]

/-- The report takes the packets out that arrived, and leaves the one that was lost. -/
theorem pending_kept_gap :
    ∃ s outs payload, Machine.run (exchangeStep {} 1.5 1000) bothRetransmit gapEvents =
        .ok (s, outs) ∧ s.reports = [payload] ∧
      (Report.handle s.sender payload 0).1.pending[(1 : UInt32)]? = none ∧ Settled s 1 ∧
      (Report.handle s.sender payload 0).1.pending[(2 : UInt32)]?.isSome ∧ ¬ Settled s 2 := by
  refine ⟨_, _, _, rfl, rfl, rfl, ?_, rfl, by decide⟩
  refine pending_kept {} 1.5 1000 bothRetransmit _ gapEvents _ fresh_bothRetransmit
    (by decide +kernel) rfl _ List.mem_cons_self 0 1 ?_ rfl
  exact Option.isSome_iff_ne_none.mp rfl

/-- The second packet is the first to arrive, and the report takes out both. -/
theorem pending_dropped_unreceived :
    ¬ ∀ (me : Local) (lateMultiplier : Float) (maxMessageBytes : ℕ) (start s : Exchange)
        (events : List ExchangeEvent) (outs : List Unit), Fresh me start →
      Machine.Along (exchangeStep me lateMultiplier maxMessageBytes) (fun s _ => FewMissing s) start
        events →
      Machine.run (exchangeStep me lateMultiplier maxMessageBytes) start events = .ok (s, outs) →
      Reliable s := by
  intro h
  have hreliable := h {} 1.5 1000 bothRetransmit _
    [.send (byteFragment 1) ⟨0, 0⟩, .send (byteFragment 2) ⟨0, 0⟩, .deliver 1 0 ⟨0, 0⟩,
      .report 100 200000000] _ fresh_bothRetransmit (by decide +kernel) rfl
  have hsettled := hreliable _ List.mem_cons_self 0 1 (Option.isSome_iff_ne_none.mp rfl) rfl
  revert hsettled
  decide

end Reliability
end Damen
