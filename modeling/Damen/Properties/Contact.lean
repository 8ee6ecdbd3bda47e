import Damen.Properties.Admission

/-!
# Under which id and at which address a peer is known

No control packet but a handshake changes how a peer is known, or what is kept of its data packets
(`dispatch_standing`), and a handshake changes its id and role at most.

The address of a peer is written when the peer is created and by `connect`, never by a packet or a
round of the reactor.  The id a peer goes by changes with the same two, and with a handshake that
presents the token and names an id (`adoptedId`).
-/

namespace Damen
namespace Transport

open Std (ExtTreeMap ExtTreeSet)

/-- What handlers of control packets leave alone: under which id, where and as what the peer is
known, and how far its data packets were tracked. -/
structure Standing where
  id : Bytes
  addr : AddrKey
  addrSet : Bool
  role : LinkRole
  reconnect : Bool
  seqInitialized : Bool
  nextExpectedSeq : UInt32
  recvSeqs : ExtTreeSet UInt32
  missingSeqs : ExtTreeMap UInt32 TimePoint

def standing (peer : Peer) : Standing where
  id := peer.id
  addr := peer.addr
  addrSet := peer.addrSet
  role := peer.role
  reconnect := peer.reconnect
  seqInitialized := peer.seqInitialized
  nextExpectedSeq := peer.nextExpectedSeq
  recvSeqs := peer.recvSeqs
  missingSeqs := peer.missingSeqs

/-- The id a peer goes by and its address. -/
def contact (peer : Peer) : Bytes × AddrKey := (peer.id, peer.addr)

variable {peer peer' : Peer} {me : Local} {bw bw' : BandwidthEstimator} {clock : Clock}
  {header : PacketHeader} {payload : Bytes} {acts : List Action} {cs : CryptoSuite}

lemma contact_of_standing (h : standing peer' = standing peer) : contact peer' = contact peer :=
  congrArg (fun s : Standing => (s.id, s.addr)) h

lemma sendHandshake_contact (me : Local) (clock : Clock) (peer : Peer) :
    contact (sendHandshake me clock peer).1 = contact peer := by
  obtain ⟨_, _, hframe⟩ := sendHandshake_frame me clock peer
  rw [hframe]
  rfl

lemma handleData_contact (h : handleData me bw clock peer header payload = .ok (peer', acts)) :
    contact peer' = contact peer := by
  rw [handleData_frame h, Reassembler.trackSequence_frame, Reassembler.accountTransit_frame]
  rfl

/-! ## Handshakes -/

/-- The id a packet gives to the peer it is dispatched for: that of a handshake with the right
token, if it is not empty. -/
def announcedId (me : Local) (header : PacketHeader) (payload : Bytes) : Option Bytes :=
  if header.type = .handshake then
    match parseHandshake me.config.encryptionEnabled payload with
    | none => none
    | some fields =>
        if fields.token = me.config.token ∧ 0 < fields.id.length then some fields.id else none
  else none

lemma announcedId_of_type_ne (payload : Bytes) (h : header.type ≠ .handshake) :
    announcedId me header payload = none := if_neg h

/-- A handshake changes the id and the role of its peer at most. -/
lemma handleHandshake_standing (cs : CryptoSuite) (me : Local) (bw : BandwidthEstimator)
    (clock : Clock) (peer : Peer) (htype : header.type = .handshake) (payload : Bytes) :
    ∃ role, standing (handleHandshake cs me bw clock peer header payload).1 =
      { standing peer with id := (announcedId me header payload).getD peer.id, role } := by
  rw [announcedId, if_pos htype]
  rcases handleHandshake_frame cs me bw clock peer header payload with
    ⟨hreject, _, hframe⟩ | ⟨fields, hparse, htoken, _, _, _, _, _, _, _, _, _, _, _, _, hframe⟩
  · rw [hframe]
    refine ⟨peer.role, ?_⟩
    cases hparse : parseHandshake me.config.encryptionEnabled payload with
    | none => rfl
    | some fields =>
        simp only [if_neg fun h : fields.token = _ ∧ _ => hreject fields hparse h.1]
        rfl
  · rw [hframe, hparse]
    simp only [htoken, true_and]
    exact ⟨if fields.role = LinkRole.node.toByte then .node else .leaf, by split <;> rfl⟩

/-! ## Packets and rounds -/

lemma dispatch_standing (hhandshake : header.type ≠ .handshake) (hdata : header.type ≠ .data)
    (hparity : header.type ≠ .parity)
    (h : dispatch cs me bw clock peer header payload = .ok (bw', peer', acts)) :
    standing peer' = standing peer := by
  unfold dispatch at h
  split at h
  · next htype => exact absurd htype hhandshake
  · obtain ⟨rfl, rfl⟩ := ok_inj h
    obtain ⟨_, _, _, _, _, _, _, _, _, _, hframe⟩ :=
      handleHandshakeAck_frame cs me bw clock peer header payload
    exact (congrArg standing hframe).trans rfl
  · obtain ⟨rfl, rfl⟩ := ok_inj h
    unfold handleOnline
    split <;> rfl
  · obtain ⟨rfl, rfl⟩ := ok_inj h
    obtain ⟨_, _, _, _, _, _, hframe⟩ := handleHeartbeat_frame bw clock peer header payload
    exact (congrArg standing hframe).trans rfl
  · obtain ⟨rfl, rfl⟩ := ok_inj h
    unfold handleBye
    split <;> rfl
  · next htype => exact absurd htype hdata
  · next htype => exact absurd htype hparity
  · obtain ⟨rfl, rfl⟩ := ok_inj h
    obtain ⟨_, _, _, _, _, _, hframe⟩ := handleAck_frame bw clock peer header
    exact (congrArg standing hframe).trans rfl
  · unfold handleReport at h
    simp only at h
    split at h
    · exact absurd h (by simp)
    · obtain ⟨rfl, rfl⟩ := ok_inj h
      exact (congrArg standing (Report.handle_frame peer payload clock.now)).trans rfl
  · obtain ⟨rfl, rfl⟩ := ok_inj h
    exact (congrArg standing (Report.finalizeProbeTrain_frame peer clock.now)).trans rfl
  · obtain ⟨rfl, rfl⟩ := ok_inj h
    exact (congrArg standing (commandHandle_frame peer header payload (rttUs bw)
      clock.now)).trans rfl
  · obtain ⟨rfl, rfl⟩ := ok_inj h
    rfl

/-- What a data or parity packet does, `handle_data` does. -/
lemma dispatch_data (htype : header.type = .data ∨ header.type = .parity)
    (h : dispatch cs me bw clock peer header payload = .ok (bw', peer', acts)) :
    handleData me bw clock peer header payload = .ok (peer', acts) := by
  unfold dispatch at h
  rcases htype with htype | htype <;>
  · rw [htype] at h
    simp only at h
    split at h
    · exact absurd h (by simp)
    · next hdata =>
      obtain ⟨rfl, rfl⟩ := ok_inj h
      exact hdata

lemma dispatch_contact (h : dispatch cs me bw clock peer header payload = .ok (bw', peer', acts)) :
    contact peer' = ((announcedId me header payload).getD peer.id, peer.addr) := by
  by_cases htype : header.type = .handshake
  · rw [dispatch, htype] at h
    obtain ⟨rfl, -⟩ := ok_inj h
    obtain ⟨role, hstanding⟩ := handleHandshake_standing cs me bw clock peer htype payload
    exact congrArg (fun s : Standing => (s.id, s.addr)) hstanding
  · rw [announcedId_of_type_ne payload htype]
    by_cases hdata : header.type = .data ∨ header.type = .parity
    · exact handleData_contact (dispatch_data hdata h)
    · rw [not_or] at hdata
      exact contact_of_standing (dispatch_standing htype hdata.1 hdata.2 h)

/-- The id a packet as it comes from the socket gives to its peer. -/
def adoptedId (cs : CryptoSuite) (me : Local) (peer : Peer) (header : PacketHeader)
    (payload : Bytes) : Option Bytes :=
  match openPacket cs peer header payload with
  | none => none
  | some (header, payload) => announcedId me header payload

lemma adoptedId_of_type_ne (payload : Bytes) (h : header.type ≠ .handshake) :
    adoptedId cs me peer header payload = none := by
  unfold adoptedId
  split
  · rfl
  · next hopen => exact announcedId_of_type_ne _ (openPacket_type hopen ▸ h)

lemma receivePacket_contact
    (h : receivePacket cs me bw clock peer header payload = .ok (bw', peer', acts)) :
    contact peer' = ((adoptedId cs me peer header payload).getD peer.id, peer.addr) := by
  unfold adoptedId
  rcases receivePacket_ok h with ⟨hopen, -, rfl, -⟩ | ⟨header', payload', acts',
    hopen, hdispatch, -⟩
  · rw [hopen]
    rfl
  · rw [hopen]
    have hcontact := dispatch_contact hdispatch
    exact hcontact

lemma tickPeer_contact (me : Local) (bw : BandwidthEstimator) (clock : Clock) (peer : Peer) :
    contact (tickPeer me bw clock peer).1 = contact peer := by
  have hhandshakes : ∀ p, contact (sendHandshakes me clock p).1 = contact p := by
    intro p
    unfold sendHandshakes
    split_ifs
    · rfl
    · exact sendHandshake_contact me clock p
    · rfl
  have hheartbeats : ∀ p, contact (sendHeartbeats me bw clock p).1 = contact p := by
    intro p
    unfold sendHeartbeats
    simp only
    split_ifs <;> rfl
  have hreports : ∀ p, contact (sendReports me clock p).1 = contact p := by
    intro p
    unfold sendReports
    simp only
    split_ifs
    · rfl
    · rw [Report.buildPayload_frame]
      rfl
    · rfl
  have hoffline : ∀ p, contact (checkOffline me clock p).1 = contact p := by
    intro p
    unfold checkOffline
    simp only
    split_ifs <;> rfl
  have hflush : ∀ p, contact (flushCommands bw clock p).1 = contact p := by
    intro p
    have hframe := congrArg contact (expireLocked_frame p (rttUs bw) clock.now)
    exact hframe
  unfold tickPeer
  simp only
  rw [hflush, hoffline, hreports, hheartbeats, hhandshakes]

/-! ## Calls of the application -/

/-- `connect` drops the peer that was known at the address under another key. -/
lemma connect_peer_of_ne (ep : Endpoint) {id x : Bytes} (addr : AddrKey) (clock : Clock)
    (hx : x ≠ id) :
    (connect ep id addr clock).1.peers[x]? =
      if ep.peerByAddr[addr]? = some x then none else ep.peers[x]? := by
  unfold connect
  simp only
  rw [OrderedMap.getElem?_insert, if_neg hx]
  cases ep.peerByAddr[addr]? with
  | none => rfl
  | some old =>
      simp only [Option.some.injEq]
      by_cases hold : old = id
      · rw [if_neg (not_not.mpr hold), if_neg fun h => hx (h.symm.trans hold)]
      · rw [if_pos hold, OrderedMap.getElem?_erase]
        simp only [eq_comm]

lemma connect_peerByAddr (ep : Endpoint) (id : Bytes) (addr : AddrKey) (clock : Clock)
    (a : AddrKey) :
    (connect ep id addr clock).1.peerByAddr[a]? =
      if a = addr then some id else ep.peerByAddr[a]? := by
  unfold connect
  simp only
  rw [OrderedMap.getElem?_insert]
  cases ep.peerByAddr[addr]? with
  | none => rfl
  | some old =>
      simp only
      rw [apply_ite Endpoint.peerByAddr, ite_self]

/-- The peer `connect` leaves under the id. -/
lemma connect_peer (ep : Endpoint) (id : Bytes) (addr : AddrKey) (clock : Clock) :
    ∃ peer, (connect ep id addr clock).1.peers[id]? = some peer ∧ contact peer = (id, addr) ∧
      peer.addrSet = true ∧
      peer.state = if (ep.peers.getD id {}).state = .closed then .handshake
        else (ep.peers.getD id {}).state := by
  unfold connect
  simp only
  refine ⟨_, by rw [OrderedMap.getElem?_insert, if_pos rfl], ?_, ?_, ?_⟩
  · rw [sendHandshake_contact _ clock _, apply_ite contact]
    exact ite_self (id, addr)
  · rw [(sendHandshake_sameLink _ clock _).addrSet, apply_ite Peer.addrSet]
    exact ite_self true
  · rw [(sendHandshake_sameLink _ clock _).state, apply_ite Peer.state]
    cases ep.peerByAddr[addr]? with
    | none => rfl
    | some old =>
        simp only
        by_cases hold : old = id
        · rw [if_neg (not_not.mpr hold)]
        · rw [if_pos hold, ExtTreeMap.getD_eq_getD_getElem?, OrderedMap.getElem?_erase,
            if_neg (Ne.symm hold), ← ExtTreeMap.getD_eq_getD_getElem?]

/-- A command moves the counter of one peer on. -/
lemma step_sendCommand {ep ep' : Endpoint} {id : Bytes} {out : Outputs}
    (h : step cs ep (.sendCommand id payload clock) = .ok (ep', out)) :
    ep'.peerByAddr = ep.peerByAddr ∧ ∀ x : Bytes, ep'.peers[x]? = ep.peers[x]? ∨ ∃ peer : Peer,
      ep.peers[x]? = some peer ∧
        ep'.peers[x]? = some { peer with cmdSeqOut := peer.cmdSeqOut + 1 } := by
  rw [step] at h
  split at h
  · exact absurd h (by simp)
  · next hsend =>
    obtain ⟨rfl, rfl⟩ := Prod.mk.inj (Except.ok.inj h)
    rcases sendCommand_ok hsend with ⟨rfl, -⟩ | ⟨key, peer, -, -, hfind, -, -, rfl, -⟩
    · exact ⟨rfl, fun x => Or.inl rfl⟩
    · refine ⟨rfl, fun x => ?_⟩
      simp only [OrderedMap.getElem?_insert]
      by_cases hx : x = key
      · rw [if_pos hx, hx]
        exact Or.inr ⟨peer, findPeer_mem hfind, rfl⟩
      · exact Or.inl (if_neg hx)

end Transport
end Damen
