import Damen.Model.DataPath
import Damen.Properties.Contact
import Damen.Properties.SecureWire
import Damen.Properties.SequenceTracking

/-!
# Gaps on a line that loses nothing

One end sends packets of one peer, and each of them is received by the other end before the next one
is sent.  Data packets and the control packets that are to be acknowledged draw their sequence from
the same counter, but the receiver follows only the sequences of data and parity packets.  What a
control packet has taken is missing for it as soon as the next data packet arrives.

So nothing is ever noted as missing exactly in the runs in which every data packet that is sent has
a sequence the receiver has come to expect (`no_phantom_gaps_iff`).
-/

namespace Damen
namespace Transport

open Std (ExtTreeMap ExtTreeSet)
open Fragmenter (Fragment)
open Reassembler (trackSequence)
open Tracking (tracking)

/-! ## The line -/

/-- The peer record of the sending end, and bandwidth estimate and peer record of the receiving
end. -/
structure Line where
  sender : Peer
  bandwidth : BandwidthEstimator := {}
  receiver : Peer := {}

/-- A packet that is sent, with the clocks of both ends. -/
inductive Sending
  /-- `send_control` with `ackable` set. -/
  | control (type : PacketType) (payload : Bytes) (clock arrival : Clock)
      (ackable : needAck type = true)
  /-- `send_data_packet`. -/
  | data (frag : Fragment) (clock arrival : Clock)

inductive LineFault
  /-- The packet did not arrive, or was not dispatched. -/
  | lost
  | fault (fault : Fault)

/-- The one datagram that was sent is received and dispatched. -/
def Line.deliver (cs : CryptoSuite) (you : Local) (s : Line) (clock : Clock) :
    List Bytes → Except LineFault Line
  | [datagram] =>
      match PacketCodec.decode datagram with
      | none => .error .lost
      | some (header, payload) =>
          if (openPacket cs s.receiver header payload).isNone then .error .lost
          else
            match receivePacket cs you s.bandwidth clock s.receiver header payload with
            | .error fault => .error (.fault fault)
            | .ok (bandwidth, receiver, _) => .ok { s with bandwidth, receiver }
  | _ => .error .lost

def Line.step (cs : CryptoSuite) (me you : Local) (s : Line) :
    Sending → Except LineFault (Line × Unit)
  | .control type payload clock arrival _ =>
      let (sender, acts) := sendControl me clock s.sender type payload true
      ({ s with sender }.deliver cs you arrival (enqueued acts)).map (·, ())
  | .data frag clock arrival =>
      let (sender, header, payload) := registerDataPacket me clock s.sender frag
      let keep := keepsPending me s.sender header
      match transmitDataPacket cs me sender header payload keep with
      | .error fault => .error (.fault fault)
      | .ok (sender, acts) => ({ s with sender }.deliver cs you arrival (enqueued acts)).map (·, ())

/-- The fragment is sent as a data packet, not as the parity packet at the end. -/
def Numbered (frag : Fragment) : Prop := frag.idx.toNat + 1 ≠ frag.cnt.toNat

instance (frag : Fragment) : Decidable (Numbered frag) := inferInstanceAs (Decidable (_ ≠ _))

/-- A data packet is sent only when the counter has not gone past what the receiver expects. -/
def InSequence (s : Line) : Sending → Prop
  | .control _ _ _ _ _ => True
  | .data frag _ _ => Numbered frag → s.receiver.seqInitialized = true →
      s.sender.sequenceOut ≤ s.receiver.nextExpectedSeq

instance (s : Line) : ∀ sending, Decidable (InSequence s sending)
  | .control _ _ _ _ _ => isTrue trivial
  | .data frag _ _ => inferInstanceAs (Decidable (Numbered frag → s.receiver.seqInitialized = true →
      s.sender.sequenceOut ≤ s.receiver.nextExpectedSeq))

/-! ## What arrives -/

variable {header : PacketHeader} {payload : Bytes} {cs : CryptoSuite} {you me : Local} {s' : Line}
  {clock : Clock} {peer peer' : Peer} {bw bw' : BandwidthEstimator} {acts : List Action}

lemma decode_headerOf {datagram : Bytes}
    (h : PacketCodec.decode datagram = some (header, payload)) :
    header = PacketCodec.headerOf datagram := (PacketCodec.decode_eq_some_iff.mp h).1

/-- Type and sequence of a packet as it is dispatched are those in front of the datagram. -/
lemma deliver_ok {s : Line} {datagrams : List Bytes}
    (h : s.deliver cs you clock datagrams = .ok s') :
    ∃ datagram header payload acts, datagrams = [datagram] ∧
      header.type = (PacketCodec.headerOf datagram).type ∧
      header.sequence = (PacketCodec.headerOf datagram).sequence ∧
      dispatch cs you s.bandwidth clock
        (noteSender clock s.receiver (PacketCodec.headerOf datagram))
        header payload = .ok (s'.bandwidth, s'.receiver, acts) ∧ s'.sender = s.sender := by
  unfold Line.deliver at h
  split at h
  · next datagram =>
    split at h
    · exact absurd h (by simp)
    · next header payload hdecode =>
      split at h
      · exact absurd h (by simp)
      · next hopen =>
        split at h
        · exact absurd h (by simp)
        · next hreceive =>
          obtain rfl := Except.ok.inj h
          rw [decode_headerOf hdecode] at hopen hreceive
          rcases receivePacket_ok hreceive with
            ⟨hnone, -⟩ | ⟨header', payload', acts', hsome, hdispatch, -⟩
          · exact absurd (by rw [hnone]; rfl) hopen
          · obtain ⟨size, flags, rfl⟩ := openPacket_header hsome
            exact ⟨datagram, { PacketCodec.headerOf datagram with payloadSize := size, flags },
              payload', acts', rfl, rfl, rfl, hdispatch, rfl⟩
  · exact absurd h (by simp)

lemma tracking_of_standing (h : standing peer' = standing peer) : tracking peer' = tracking peer :=
  congrArg (fun s : Standing => (s.seqInitialized, s.nextExpectedSeq, s.recvSeqs, s.missingSeqs)) h

/-- A control packet leaves the gap tracking alone. -/
lemma dispatch_tracking_control (hack : needAck header.type = true)
    (h : dispatch cs me bw clock peer header payload = .ok (bw', peer', acts)) :
    tracking peer' = tracking peer := by
  by_cases htype : header.type = .handshake
  · rw [dispatch, htype] at h
    obtain ⟨rfl, -⟩ := ok_inj h
    obtain ⟨role, hstanding⟩ := handleHandshake_standing cs me bw clock peer htype payload
    exact congrArg (fun s : Standing =>
      (s.seqInitialized, s.nextExpectedSeq, s.recvSeqs, s.missingSeqs)) hstanding
  · refine tracking_of_standing (dispatch_standing htype (fun hdata => ?_) (fun hparity => ?_) h)
    · exact absurd hack (by rw [hdata]; decide)
    · exact absurd hack (by rw [hparity]; decide)

/-- A data or parity packet is tracked by its sequence. -/
lemma dispatch_tracking_data (htype : header.type = .data ∨ header.type = .parity)
    (h : dispatch cs me bw clock peer header payload = .ok (bw', peer', acts)) :
    tracking peer' = tracking (trackSequence peer header.sequence clock.now) := by
  have hdata := dispatch_data htype h
  have hreceive : ∀ {peer' o}, Reassembler.handleData peer header payload (rttUs bw)
      me.config.lateRttMultiplier (maxMessageBytes me.config) clock = .ok (peer', o) →
        tracking peer' = tracking (trackSequence peer header.sequence clock.now) := fun hok =>
    Tracking.receive_tracking (a := ⟨header, payload, rttUs bw, clock⟩) hok
  unfold handleData at hdata
  split at hdata
  · exact absurd hdata (by simp)
  · next hok =>
    cases hdata
    exact hreceive hok
  · next hok =>
    cases hdata
    exact hreceive hok

/-! ## One step -/

lemma eq_of_enqueued_sendRaw {datagram datagram' : Bytes}
    (h : enqueued (sendRaw peer datagram) = [datagram']) : datagram = datagram' := by
  unfold sendRaw at h
  split at h
  · exact (List.cons.inj h).1
  · exact absurd h (by simp [enqueued])

lemma headerOf_encode (header : PacketHeader) (payload : Bytes) :
    ∃ checksum, PacketCodec.headerOf (PacketCodec.encode header payload) =
      { header with checksum } := by
  rw [PacketCodec.encode_eq]
  exact ⟨_, PacketCodec.headerOf_append header _ payload⟩

lemma map_ok {o : Unit} {r : Except LineFault Line} (h : r.map (·, ()) = .ok (s', o)) :
    r = .ok s' := by
  cases r with
  | error fault => exact absurd h (by simp [Except.map])
  | ok s =>
      obtain ⟨rfl, -⟩ := Prod.mk.inj (Except.ok.inj h)
      rfl

lemma step_control {s : Line} {type : PacketType} {arrival : Clock} {ackable : needAck type = true}
    {o : Unit} (h : s.step cs me you (.control type payload clock arrival ackable) = .ok (s', o)) :
    tracking s'.receiver = tracking s.receiver := by
  obtain ⟨datagram, header, body, acts, hsent, htype, -, hdispatch, -⟩ := deliver_ok (map_ok h)
  have hsent : enqueued (sendRaw s.sender (PacketCodec.encode
      { ownHeader me type with
        sequence := s.sender.sequenceOut
        payloadSize := UInt16.ofNat payload.length
        tick := tickOf clock } payload)) = [datagram] := hsent
  obtain rfl := eq_of_enqueued_sendRaw hsent
  obtain ⟨checksum, hheader⟩ := headerOf_encode { ownHeader me type with
    sequence := s.sender.sequenceOut
    payloadSize := UInt16.ofNat payload.length
    tick := tickOf clock } payload
  rw [hheader] at htype
  have htracking := dispatch_tracking_control (by rw [htype]; exact ackable) hdispatch
  exact htracking

/-- The header of a fragment's packet: a data packet carries the counter, the parity packet `0`. -/
lemma registerDataPacket_header (me : Local) (clock : Clock) (peer : Peer) (frag : Fragment) :
    (Numbered frag → (registerDataPacket me clock peer frag).2.1.type = .data ∧
        (registerDataPacket me clock peer frag).2.1.sequence = peer.sequenceOut) ∧
      (¬ Numbered frag → (registerDataPacket me clock peer frag).2.1.type = .parity ∧
        (registerDataPacket me clock peer frag).2.1.sequence = 0) := by
  simp only [registerDataPacket, Fragmenter.dataPacket]
  refine ⟨fun h => ?_, fun h => ?_⟩
  · rw [if_neg h]
    exact ⟨rfl, rfl⟩
  · rw [if_pos (not_not.mp h)]
    exact ⟨rfl, rfl⟩

lemma step_data {s : Line} {frag : Fragment} {arrival : Clock} {o : Unit}
    (h : s.step cs me you (.data frag clock arrival) = .ok (s', o)) :
    tracking s'.receiver = tracking (trackSequence s.receiver
      (if Numbered frag then s.sender.sequenceOut else 0) arrival.now) := by
  obtain ⟨hnumbered, hparity⟩ := registerDataPacket_header me clock s.sender frag
  unfold Line.step at h
  simp only at h
  split at h
  · exact absurd h (by simp)
  · next sender acts htransmit =>
    obtain ⟨datagram, header, body, acts', hsent, htype, hsequence, hdispatch, -⟩ :=
      deliver_ok (map_ok h)
    unfold transmitDataPacket at htransmit
    split at htransmit
    · exact absurd htransmit (by simp)
    · next datagram' out hbuild =>
      obtain ⟨-, rfl⟩ := Prod.mk.inj (Except.ok.inj htransmit)
      rw [enqueued_append, enqueued_buildWirePacket hbuild, List.nil_append] at hsent
      obtain rfl := eq_of_enqueued_sendRaw hsent
      obtain ⟨size, flags, checksum, hheader⟩ := headerOf_buildWirePacket hbuild
      rw [hheader] at htype hsequence
      have hdata : header.type = .data ∨ header.type = .parity := by
        rw [htype]
        by_cases hn : Numbered frag
        · exact Or.inl (hnumbered hn).1
        · exact Or.inr (hparity hn).1
      have hseq : header.sequence = if Numbered frag then s.sender.sequenceOut else 0 := by
        rw [hsequence]
        by_cases hn : Numbered frag
        · rw [if_pos hn]
          exact (hnumbered hn).2
        · rw [if_neg hn]
          exact (hparity hn).2
      rw [← hseq]
      have hnote : tracking (noteSender arrival s.receiver (PacketCodec.headerOf datagram')) =
        tracking s.receiver := rfl
      exact (dispatch_tracking_data hdata hdispatch).trans
        (Tracking.trackSequence_congr hnote _ _)

/-- Nothing is missing, and nothing was received ahead of the cursor. -/
def Gapless (peer : Peer) : Prop := peer.missingSeqs = ∅ ∧ peer.recvSeqs = ∅

lemma Gapless.congr (h : tracking peer' = tracking peer) : Gapless peer' ↔ Gapless peer := by
  simp only [tracking, Prod.mk.injEq] at h
  rw [Gapless, Gapless, h.2.2.1, h.2.2.2]

/-- A sequence that the cursor has reached leaves no gap. -/
lemma gapless_trackSequence (h : Gapless peer) {seq : UInt32} (now : TimePoint)
    (hseq : peer.seqInitialized = true → seq ≤ peer.nextExpectedSeq) :
    Gapless (trackSequence peer seq now) := by
  have hdrained : ∀ x, x ∉ peer.recvSeqs := by
    rw [h.2]
    exact fun x => ExtTreeSet.not_mem_empty
  unfold trackSequence
  by_cases hzero : seq = 0
  · rw [if_pos hzero]
    exact h
  rw [if_neg hzero]
  by_cases hinit : peer.seqInitialized = true
  · rw [if_neg (not_not.mpr hinit)]
    simp only
    split_ifs with hnext
    · have heq : seq = peer.nextExpectedSeq := UInt32.le_antisymm (hseq hinit) hnext
      subst heq
      refine ⟨ExtTreeMap.eq_empty_iff_forall_not_mem.mpr fun k hk => ?_,
        ExtTreeSet.eq_empty_iff_forall_not_mem.mpr fun x hx => ?_⟩
      · rw [Tracking.mem_noteGaps, h.1] at hk
        rcases hk with hk | ⟨hle, hlt, -⟩
        · exact ExtTreeMap.not_mem_empty hk
        · omega
      · have hmem := Tracking.mem_of_mem_advance hx
        rw [ExtTreeSet.mem_insert, Std.LawfulEqOrd.compare_eq_iff_eq] at hmem
        rcases hmem with rfl | hmem
        · exact Tracking.notMem_advance_insert _ _ hx
        · exact hdrained x hmem
    · refine ⟨?_, ExtTreeSet.eq_empty_iff_forall_not_mem.mpr fun x hx => ?_⟩
      · rw [h.1]
        exact ExtTreeMap.erase_empty
      · exact hdrained x (Tracking.mem_of_mem_advance hx)
  · rw [if_pos hinit]
    exact h

/-- A sequence behind the cursor leaves what lies between as missing. -/
lemma missing_trackSequence {seq : UInt32} (now : TimePoint) (hinit : peer.seqInitialized = true)
    (hrecv : peer.recvSeqs = ∅) (hseq : peer.nextExpectedSeq < seq) :
    peer.nextExpectedSeq ∈ (trackSequence peer seq now).missingSeqs := by
  have hne : seq ≠ 0 := by
    rintro rfl
    exact UInt32.not_lt_zero hseq
  unfold trackSequence
  rw [if_neg hne, if_neg (not_not.mpr hinit), if_pos (UInt32.le_of_lt hseq)]
  simp only
  rw [Tracking.mem_noteGaps, hrecv]
  exact Or.inr ⟨le_rfl, UInt32.lt_iff_toNat_lt.mp hseq, ExtTreeSet.not_mem_empty⟩

/-! ## Runs -/

/-- Every packet of the line is received before the next one is sent.  The receiver notes no
sequence as missing, in any state, exactly if every data packet is sent with a sequence that is not
behind the one the receiver expects. -/
theorem no_phantom_gaps_iff (cs : CryptoSuite) (me you : Local) (start : Line)
    (hstart : Gapless start.receiver) (sendings : List Sending) (s : Line) (outs : List Unit)
    (hrun : Machine.run (Line.step cs me you) start sendings = .ok (s, outs)) :
    Machine.Throughout (Line.step cs me you) (fun s => s.receiver.missingSeqs = ∅) start sendings ↔
      Machine.Along (Line.step cs me you) InSequence start sendings := by
  refine Machine.throughout_iff (I := fun s => Gapless s.receiver) (fun _ => And.left) ?_ ?_ hstart
    hrun
  · intro s sending s' o h hstep hok
    cases sending with
    | control type payload clock arrival ackable => exact (Gapless.congr (step_control hok)).mpr h
    | data frag clock arrival =>
        refine (Gapless.congr (step_data hok)).mpr (gapless_trackSequence h _ fun hinit => ?_)
        split_ifs with hnumbered
        · exact hstep hnumbered hinit
        · exact UInt32.zero_le
  · intro s sending s' o h hnot hok hempty
    cases sending with
    | control type payload clock arrival ackable => exact hnot trivial
    | data frag clock arrival =>
        simp only [InSequence, Classical.not_imp, UInt32.not_le] at hnot
        obtain ⟨hnumbered, hinit, hlt⟩ := hnot
        have htracking := step_data hok
        rw [if_pos hnumbered] at htracking
        simp only [tracking, Prod.mk.injEq] at htracking
        have hmem := missing_trackSequence arrival.now hinit h.2 hlt
        rw [← htracking.2.2.2, hempty] at hmem
        exact ExtTreeMap.not_mem_empty hmem

/-- One byte of a message of three fragments. -/
def byteFragment (idx : UInt16) : Fragment :=
  { msgId := 1, idx, cnt := 3, dataCnt := 2, realSize := 1, data := [7], width := 1 }

/-- Two data packets and the parity packet behind them. -/
theorem no_phantom_gaps_message :
    Machine.Throughout (Line.step noCrypto {} {}) (fun s => s.receiver.missingSeqs = ∅)
      { sender := { addrSet := true } }
      [.data (byteFragment 0) ⟨0, 0⟩ ⟨0, 0⟩, .data (byteFragment 1) ⟨0, 0⟩ ⟨0, 0⟩,
        .data (byteFragment 2) ⟨0, 0⟩ ⟨0, 0⟩] := by
  obtain ⟨⟨s, outs⟩, hrun, -⟩ := Machine.exists_ok_of_any (p := fun _ => true)
    (r := Machine.run (Line.step noCrypto {} {}) { sender := { addrSet := true } }
      [.data (byteFragment 0) ⟨0, 0⟩ ⟨0, 0⟩, .data (byteFragment 1) ⟨0, 0⟩ ⟨0, 0⟩,
        .data (byteFragment 2) ⟨0, 0⟩ ⟨0, 0⟩]) (by decide +kernel)
  exact (no_phantom_gaps_iff noCrypto {} {} _ ⟨rfl, rfl⟩ _ s outs hrun).mpr (by decide +kernel)

/-- Between two data packets a handshake is sent again: the receiver takes its sequence for a packet
that was lost. -/
theorem phantom_gap :
    ¬ ∀ (cs : CryptoSuite) (me you : Local) (start : Line), Gapless start.receiver →
      ∀ (sendings : List Sending) (s : Line) (outs : List Unit),
        Machine.run (Line.step cs me you) start sendings = .ok (s, outs) →
        s.receiver.missingSeqs = ∅ := by
  intro h
  obtain ⟨⟨s, outs⟩, hrun, hmissing⟩ := Machine.exists_ok_of_any
    (p := fun r => r.1.receiver.missingSeqs.contains 2)
    (r := Machine.run (Line.step noCrypto {} {}) { sender := { addrSet := true } }
      [.data (byteFragment 0) ⟨0, 0⟩ ⟨0, 0⟩, .control .handshake [] ⟨0, 0⟩ ⟨0, 0⟩ rfl,
        .data (byteFragment 1) ⟨0, 0⟩ ⟨0, 0⟩]) (by decide +kernel)
  rw [h noCrypto {} {} _ ⟨rfl, rfl⟩ _ s outs hrun] at hmissing
  exact ExtTreeMap.not_mem_empty (ExtTreeMap.mem_iff_contains.mpr hmissing)

end Transport
end Damen
