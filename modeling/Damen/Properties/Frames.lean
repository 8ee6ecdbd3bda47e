import Damen.Model.Endpoint
import Damen.Properties.Assembly
import Damen.Properties.ReportHandling
import Damen.Properties.ReportScan

/-!
# What the handlers write

For each function of a session that changes a peer, the fields it writes: the peer behind it is the
peer in front of it with these fields replaced.  That a function leaves a part of a peer alone
follows from its frame here, whatever the part is.
-/

namespace Damen
namespace Transport

/-! ## Clock, key and control packets -/

lemma syncClock_frame (bw : BandwidthEstimator) (peer : Peer) (tick : UInt32) (arrivalMs : UInt64) :
    ∃ hsTick hsArrivalMs clockPending clockOffsetUs clockSynced, syncClock bw peer tick arrivalMs =
      { peer with hsTick, hsArrivalMs, clockPending, clockOffsetUs, clockSynced } := by
  unfold syncClock
  split_ifs <;> exact ⟨_, _, _, _, _, rfl⟩

lemma trySyncClock_frame (bw : BandwidthEstimator) (peer : Peer) :
    ∃ hsTick hsArrivalMs clockPending clockOffsetUs clockSynced, trySyncClock bw peer =
      { peer with hsTick, hsArrivalMs, clockPending, clockOffsetUs, clockSynced } := by
  unfold trySyncClock
  split
  · exact syncClock_frame bw peer _ _
  · exact ⟨_, _, _, _, _, rfl⟩

lemma deriveSessionKey_frame (cs : CryptoSuite) (me : Local) (peer : Peer) (pub : Bytes)
    (clientId : UInt32) : ∃ cryptoKey cryptoReady, deriveSessionKey cs me peer pub clientId =
      { peer with cryptoKey, cryptoReady } := by
  unfold deriveSessionKey
  split <;> exact ⟨_, _, rfl⟩

lemma sendControl_frame (me : Local) (clock : Clock) (peer : Peer) (type : PacketType)
    (payload : Bytes) (ackable : Bool) :
    ∃ sequenceOut pending, (sendControl me clock peer type payload ackable).1 =
      { peer with sequenceOut, pending } := by
  unfold sendControl
  simp only
  split <;> exact ⟨_, _, rfl⟩

lemma sendHandshake_frame (me : Local) (clock : Clock) (peer : Peer) :
    ∃ sequenceOut pending, (sendHandshake me clock peer).1 =
      { peer with lastHandshakeSent := clock.now, sequenceOut, pending } :=
  sendControl_frame me clock { peer with lastHandshakeSent := clock.now } .handshake
    (handshakePayload me) true

/-! ## Handshakes -/

lemma adoptHandshake_frame (cs : CryptoSuite) (me : Local) (bw : BandwidthEstimator) (clock : Clock)
    (peer : Peer) (header : PacketHeader) (fields : HandshakeFields) :
    ∃ hsTick hsArrivalMs clockPending clockOffsetUs clockSynced cryptoKey cryptoReady,
      adoptHandshake cs me bw clock peer header fields =
        { CommandChannel.reset peer with
          id := if 0 < fields.id.length then fields.id else peer.id
          role := if fields.role = LinkRole.node.toByte then .node else .leaf
          hsTick, hsArrivalMs, clockPending, clockOffsetUs, clockSynced, cryptoKey,
          cryptoReady } := by
  obtain ⟨_, _, _, _, _, hsync⟩ := syncClock_frame bw peer header.tick clock.unixMillis
  unfold adoptHandshake
  simp only [hsync]
  split
  · obtain ⟨cryptoKey, cryptoReady, hderive⟩ := deriveSessionKey_frame cs me _ _ header.clientId
    rw [hderive]
    exact ⟨_, _, _, _, _, cryptoKey, cryptoReady, rfl⟩
  · exact ⟨_, _, _, _, _, _, _, rfl⟩

lemma answerHandshake_frame (me : Local) (clock : Clock) (peer : Peer) :
    ∃ lastHandshakeSent sequenceOut pending state, (answerHandshake me clock peer).1 =
      { peer with lastHandshakeSent, sequenceOut, pending, state } := by
  have hreturn : ∃ lastHandshakeSent sequenceOut pending, (returnHandshake me clock peer).1 =
      { peer with lastHandshakeSent, sequenceOut, pending } := by
    unfold returnHandshake
    split
    · exact ⟨_, sendHandshake_frame me clock peer⟩
    · exact ⟨_, _, _, rfl⟩
  have hestablish : ∀ p, ∃ state, (establish p).1 = { p with state } := by
    intro p
    unfold establish
    split <;> exact ⟨_, rfl⟩
  obtain ⟨lastHandshakeSent, sequenceOut, pending, hreturn⟩ := hreturn
  obtain ⟨state, hestablish⟩ := hestablish (returnHandshake me clock peer).1
  obtain ⟨sequenceOut', pending', hsend⟩ := sendControl_frame me clock
    (establish (returnHandshake me clock peer).1).1 .handshakeAck (handshakeAckPayload me) true
  refine ⟨lastHandshakeSent, sequenceOut', pending', state, ?_⟩
  unfold answerHandshake
  simp only
  rw [hsend, hestablish, hreturn]

/-- A handshake that is malformed or has the wrong token writes the retransmission flag at most. -/
lemma handleHandshake_frame (cs : CryptoSuite) (me : Local) (bw : BandwidthEstimator)
    (clock : Clock)
    (peer : Peer) (header : PacketHeader) (payload : Bytes) :
    ((∀ fields, parseHandshake me.config.encryptionEnabled payload = some fields →
        fields.token ≠ me.config.token) ∧
      ∃ peerRetransmit, (handleHandshake cs me bw clock peer header payload).1 =
        { peer with peerRetransmit }) ∨
    ∃ fields, parseHandshake me.config.encryptionEnabled payload = some fields ∧
      fields.token = me.config.token ∧
      ∃ peerRetransmit hsTick hsArrivalMs clockPending clockOffsetUs clockSynced
        cryptoKey cryptoReady
          lastHandshakeSent sequenceOut pending state,
        (handleHandshake cs me bw clock peer header payload).1 =
          { CommandChannel.reset peer with
            id := if 0 < fields.id.length then fields.id else peer.id
            role := if fields.role = LinkRole.node.toByte then .node else .leaf
            peerRetransmit, hsTick, hsArrivalMs, clockPending, clockOffsetUs, clockSynced, cryptoKey
            cryptoReady, lastHandshakeSent, sequenceOut, pending, state } := by
  unfold handleHandshake
  cases parseHandshake me.config.encryptionEnabled payload with
  | none => exact .inl ⟨fun _ h => absurd h (by simp), _, rfl⟩
  | some fields =>
      simp only
      by_cases htoken : fields.token = me.config.token
      · obtain ⟨_, _, _, _, _, _, _, hadopt⟩ := adoptHandshake_frame cs me bw clock
          { peer with peerRetransmit := fields.retransmit.getD peer.peerRetransmit } header fields
        obtain ⟨_, _, _, _, hanswer⟩ :=
          answerHandshake_frame me clock (adoptHandshake cs me bw clock
          { peer with peerRetransmit := fields.retransmit.getD peer.peerRetransmit } header fields)
        rw [if_neg (not_not.mpr htoken), hanswer, hadopt]
        exact .inr ⟨fields, rfl, htoken, _, _, _, _, _, _, _, _, _, _, _, _, rfl⟩
      · rw [if_pos htoken]
        exact .inl ⟨fun _ h => Option.some.inj h ▸ htoken, _, rfl⟩

lemma readAckTail_frame (cs : CryptoSuite) (me : Local) (peer : Peer) (header : PacketHeader)
    (payload : Bytes) :
    ∃ peerRetransmit cryptoKey cryptoReady, readAckTail cs me peer header payload =
      { peer with peerRetransmit, cryptoKey, cryptoReady } := by
  unfold readAckTail
  simp only
  split_ifs
  · exact ⟨_, _, _, rfl⟩
  · exact ⟨_, deriveSessionKey_frame cs me _ _ _⟩
  · exact ⟨_, _, _, rfl⟩

/-- An acknowledgement takes the link online from the states of a handshake. -/
lemma handleHandshakeAck_frame (cs : CryptoSuite) (me : Local) (bw : BandwidthEstimator)
    (clock : Clock) (peer : Peer) (header : PacketHeader) (payload : Bytes) :
    ∃ hsTick hsArrivalMs clockPending clockOffsetUs clockSynced peerRetransmit cryptoKey cryptoReady
        sequenceOut pending,
      (handleHandshakeAck cs me bw clock peer header payload).1 =
        { CommandChannel.reset peer with
          state := if peer.state = .handshake ∨ peer.state = .established then .online
            else peer.state
          hsTick, hsArrivalMs, clockPending, clockOffsetUs, clockSynced, peerRetransmit, cryptoKey
          cryptoReady, sequenceOut, pending } := by
  obtain ⟨_, _, _, _, _, hsync⟩ := syncClock_frame bw peer header.tick clock.unixMillis
  obtain ⟨_, _, _, htail⟩ := readAckTail_frame cs me
    (CommandChannel.reset (syncClock bw peer header.tick clock.unixMillis)) header payload
  have hstate : (readAckTail cs me (CommandChannel.reset
      (syncClock bw peer header.tick clock.unixMillis)) header payload).state = peer.state := by
    rw [htail, hsync]
    rfl
  unfold handleHandshakeAck
  simp only [hstate]
  by_cases honline : peer.state = .online
  · rw [if_pos honline, if_neg (by rw [honline]; simp), htail, hsync]
    exact ⟨_, _, _, _, _, _, _, _, _, _, rfl⟩
  · rw [if_neg honline]
    by_cases hcase : peer.state = .handshake ∨ peer.state = .established
    · obtain ⟨_, _, hsend⟩ := sendControl_frame me clock (readAckTail cs me (CommandChannel.reset
        (syncClock bw peer header.tick clock.unixMillis)) header payload) .online [] true
      rw [if_pos hcase, if_pos hcase]
      simp only [goOnline]
      rw [hsend, htail, hsync]
      exact ⟨_, _, _, _, _, _, _, _, _, _, rfl⟩
    · rw [if_neg hcase, if_neg hcase, htail, hsync]
      exact ⟨_, _, _, _, _, _, _, _, _, _, rfl⟩

/-! ## The other types -/

lemma handleHeartbeat_frame (bw : BandwidthEstimator) (clock : Clock) (peer : Peer)
    (header : PacketHeader) (payload : Bytes) :
    ∃ senderRttUs hsTick hsArrivalMs clockPending clockOffsetUs clockSynced,
      (handleHeartbeat bw clock peer header payload).2 =
        { peer with
          senderRttUs, hsTick, hsArrivalMs, clockPending, clockOffsetUs, clockSynced } := by
  unfold handleHeartbeat
  split
  · exact ⟨_, syncClock_frame bw _ _ _⟩
  · exact ⟨_, syncClock_frame bw _ _ _⟩

lemma handleAck_frame (bw : BandwidthEstimator) (clock : Clock) (peer : Peer)
    (header : PacketHeader) :
    ∃ pending hsTick hsArrivalMs clockPending clockOffsetUs clockSynced,
      (handleAck bw clock peer header).2 =
        { peer with pending, hsTick, hsArrivalMs, clockPending, clockOffsetUs, clockSynced } := by
  unfold handleAck
  simp only
  split_ifs
  · exact ⟨_, _, _, _, _, _, rfl⟩
  · split
    · exact ⟨_, _, _, _, _, _, rfl⟩
    · exact ⟨_, trySyncClock_frame _ _⟩

lemma handleData_frame {me : Local} {bw : BandwidthEstimator} {clock : Clock} {peer peer' : Peer}
    {header : PacketHeader} {payload : Bytes} {acts : List Action}
    (h : handleData me bw clock peer header payload = .ok (peer', acts)) :
    peer' = { Reassembler.trackSequence (Reassembler.accountTransit peer
        (transitTimeUs peer header.tick clock.unixMillis) (rttUs bw) me.config.lateRttMultiplier)
          header.sequence clock.now with
      incoming := peer'.incoming
      completed := peer'.completed } := by
  unfold handleData at h
  split at h
  · exact absurd h (by simp)
  · next hok =>
    obtain ⟨rfl, -⟩ := Prod.mk.inj (Except.ok.inj h)
    exact Reassembler.collect_frame hok
  · next hok =>
    obtain ⟨rfl, -⟩ := Prod.mk.inj (Except.ok.inj h)
    exact Reassembler.collect_frame hok

/-- The command channel writes its own four fields. -/
lemma expireLocked_frame (peer : Peer) (rttUs : UInt32) (now : TimePoint) :
    (CommandChannel.expireLocked peer rttUs now).1 = { peer with
      cmdNextExpected := (CommandChannel.expireLocked peer rttUs now).1.cmdNextExpected
      cmdHeld := (CommandChannel.expireLocked peer rttUs now).1.cmdHeld
      cmdGapSince := (CommandChannel.expireLocked peer rttUs now).1.cmdGapSince } := by
  unfold CommandChannel.expireLocked
  split
  · rfl
  · simp only
    split_ifs <;> rfl

lemma commandHandle_frame (peer : Peer) (header : PacketHeader) (payload : Bytes) (rttUs : UInt32)
    (now : TimePoint) :
    (CommandChannel.handle peer header payload rttUs now).1 = { peer with
      cmdNextExpected := (CommandChannel.handle peer header payload rttUs now).1.cmdNextExpected
      cmdInitialized := (CommandChannel.handle peer header payload rttUs now).1.cmdInitialized
      cmdHeld := (CommandChannel.handle peer header payload rttUs now).1.cmdHeld
      cmdGapSince := (CommandChannel.handle peer header payload rttUs now).1.cmdGapSince } := by
  unfold CommandChannel.handle
  simp only
  split_ifs <;> first | rfl | rw [expireLocked_frame]

end Transport
end Damen
