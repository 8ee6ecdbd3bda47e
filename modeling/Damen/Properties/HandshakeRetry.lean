import Damen.Properties.Contact

/-!
# Retrying a lost handshake

The documentation gives `retransmit_timeout` as the interval at which handshakes are sent again.
`send_handshakes` does not look at it, nor at `m_last_handshake_sent`: it sends a handshake to a
peer that waits for one exactly if nothing is pending for that peer (`handshake_retried_iff`).  The
handshake that was lost is itself pending, and stays so until it is acknowledged or the link that
never came up times out.

That the packet is enqueued at all rests on the address of the peer being set, which holds for every
peer of every state an endpoint reaches (`run_addressed`).
-/

namespace Damen
namespace Transport

open Std (ExtTreeMap)

/-! ## Every peer has an address -/

variable {cs : CryptoSuite}

/-- No packet takes the address of a peer away. -/
lemma receivePacket_addrSet {me : Local} {bw bw' : BandwidthEstimator} {clock : Clock}
    {peer peer' : Peer} {header : PacketHeader} {payload : Bytes} {acts : List Action}
    (h : receivePacket cs me bw clock peer header payload = .ok (bw', peer', acts)) :
    peer'.addrSet = peer.addrSet := by
  rcases receivePacket_ok h with ⟨-, -, rfl, -⟩ | ⟨header', payload', acts', -, hdispatch, -⟩
  · rfl
  · by_cases haccept : Accepts me header' payload'
    · rw [dispatch, haccept.1] at hdispatch
      obtain ⟨rfl, -⟩ := ok_inj hdispatch
      obtain ⟨role, hstanding⟩ := handleHandshake_standing cs me bw clock
        (noteSender clock peer header) haccept.1 payload'
      exact congrArg Standing.addrSet hstanding
    · exact (dispatch_effect hdispatch).addrSet haccept

/-- The address of every peer is set. -/
def Addressed (ep : Endpoint) : Prop :=
  ∀ (x : Bytes) (peer : Peer), ep.peers[x]? = some peer → peer.addrSet = true

lemma peerFor_addrSet {ep : Endpoint} (h : Addressed ep) (addr : AddrKey) (now : TimePoint)
    (random : UInt64) : (peerFor ep addr now random).addrSet = true := by
  obtain ⟨peer, -, ⟨heq, hpeer⟩ | heq⟩ := peerFor_cases ep addr now random
  · rw [heq]
    exact h _ peer hpeer
  · rw [heq]
    rfl

lemma connect_addressed {ep : Endpoint} (h : Addressed ep) (id : Bytes) (addr : AddrKey)
    (clock : Clock) : Addressed (connect ep id addr clock).1 := by
  intro x peer hpeer
  by_cases hx : x = id
  · subst hx
    unfold connect at hpeer
    simp only [OrderedMap.getElem?_insert, if_true, Option.some.injEq] at hpeer
    rw [← hpeer, (sendHandshake_sameLink _ clock _).addrSet, apply_ite Peer.addrSet]
    exact ite_self true
  · rcases (connect_other ep addr clock hx).1 with hsame | hnone
    · exact h x peer (hsame.symm.trans hpeer)
    · exact absurd (hnone.symm.trans hpeer) (by simp)

lemma step_addressed {ep ep' : Endpoint} {ev : Event} {out : Outputs} (h : Addressed ep)
    (hstep : step cs ep ev = .ok (ep', out)) : Addressed ep' := by
  intro x peer' hpeer'
  by_cases hconnect : ∀ addr clock, ev ≠ .connect x addr clock
  · obtain ⟨-, hview⟩ := step_view hconnect hstep
    cases hview with
    | packet _ hreceive hpeer =>
        obtain rfl := Option.some.inj (hpeer.symm.trans hpeer')
        rw [receivePacket_addrSet hreceive]
        exact peerFor_addrSet h _ _ _
    | tick hpeer =>
        rw [hpeer, Option.map_eq_some_iff] at hpeer'
        obtain ⟨peer, hpeer, rfl⟩ := hpeer'
        rw [(tickPeer_spec ep.toLocal ep.bandwidth _ peer).2]
        exact h x peer hpeer
    | command hpeer _ _ hafter =>
        obtain rfl := Option.some.inj (hafter.symm.trans hpeer')
        have haddr := h x _ hpeer
        exact haddr
    | dropped hpeer => exact absurd (hpeer.symm.trans hpeer') (by simp)
    | other hpeer => exact h x peer' (hpeer.symm.trans hpeer')
  · simp only [not_forall, not_not] at hconnect
    obtain ⟨addr, clock, rfl⟩ := hconnect
    simp only [step, Except.ok.injEq] at hstep
    have hafter := connect_addressed h x addr clock
    rw [hstep] at hafter
    exact hafter x peer' hpeer'

lemma run_addressed {start ep : Endpoint} {events : List Event} {outs : List Outputs}
    (hstart : start.peers = ∅) (hrun : Machine.run (step cs) start events = .ok (ep, outs)) :
    Addressed ep := by
  have hnone : Addressed start := fun x peer hpeer => by simp [hstart] at hpeer
  exact Machine.run_keeps (fun _ _ _ _ h hstep => step_addressed h hstep) hnone hrun

/-! ## The pass over the peers -/

/-- The pass enqueues a handshake for the peer `x`. -/
def SendsHandshake (x : Bytes) (out : Outputs) : Prop :=
  ∃ header payload, header.type = .handshake ∧
    Action.enqueue (PacketCodec.encode header payload) ∈ actionsFor x out

lemma sendHandshake_out {peer : Peer} (haddr : peer.addrSet = true) (me : Local) (clock : Clock) :
    ∃ header payload, header.type = .handshake ∧
      (sendHandshake me clock peer).2 = [.enqueue (PacketCodec.encode header payload)] := by
  refine ⟨{ ownHeader me .handshake with
    sequence := peer.sequenceOut
    payloadSize := UInt16.ofNat (handshakePayload me).length
    tick := tickOf clock }, handshakePayload me, rfl, ?_⟩
  simp only [sendHandshake, sendControl, sendRaw, haddr, if_true]

/-- In every state that an endpoint reaches, a pass sends a handshake to a peer that waits for one,
and whose last handshake is older than the retransmission timeout, exactly if nothing is pending for
the peer. -/
theorem handshake_retried_iff (cs : CryptoSuite) (start : Endpoint) (hstart : start.peers = ∅)
    (events : List Event) (ep : Endpoint) (outs : List Outputs)
    (hrun : Machine.run (step cs) start events = .ok (ep, outs)) (x : Bytes) (peer : Peer)
    (hpeer : ep.peers[x]? = some peer) (hstate : peer.state = .handshake) (clock : Clock)
    (_hdue : millis ep.config.retransmitTimeout ≤ clock.now - peer.lastHandshakeSent) :
    SendsHandshake x (forPeers ep (sendHandshakes ep.toLocal clock)).2 ↔ peer.pending = ∅ := by
  have hout : actionsFor x (forPeers ep (sendHandshakes ep.toLocal clock)).2 =
      (sendHandshakes ep.toLocal clock peer).2 := by
    rw [forPeers_outputs, hpeer]
    rfl
  rw [SendsHandshake, hout, sendHandshakes, if_neg (not_not.mpr hstate)]
  by_cases hempty : peer.pending = ∅
  · rw [if_pos (ExtTreeMap.isEmpty_iff.mpr hempty)]
    obtain ⟨header, payload, htype, hsend⟩ :=
      sendHandshake_out (run_addressed hstart hrun x peer hpeer) ep.toLocal clock
    refine iff_of_true ⟨header, payload, htype, ?_⟩ hempty
    rw [hsend]
    exact List.mem_cons_self
  · rw [if_neg (mt ExtTreeMap.isEmpty_iff.mp hempty)]
    exact iff_of_false (fun ⟨_, _, _, hmem⟩ => absurd hmem List.not_mem_nil) hempty

/-- A peer that was met by an acknowledgement: it has been sent nothing, and is sent a handshake. -/
theorem handshake_retried_stray :
    ∃ ep outs, Machine.run (step noCrypto) {} [stray .ack 1 []] = .ok (ep, outs) ∧
      SendsHandshake (anonId 2 5) (forPeers ep (sendHandshakes ep.toLocal ⟨0, 0⟩)).2 := by
  refine ⟨_, _, rfl, ?_⟩
  exact (handshake_retried_iff noCrypto {} rfl [stray .ack 1 []] _ _ rfl (anonId 2 5)
    _ rfl rfl ⟨0, 0⟩
    (by decide)).mpr rfl

/-- The handshake of `connect` is lost.  Ten seconds later no other one is sent. -/
theorem handshake_not_retried :
    ¬ ∀ (cs : CryptoSuite) (start : Endpoint), start.peers = ∅ →
      ∀ (events : List Event) (ep : Endpoint) (outs : List Outputs),
        Machine.run (step cs) start events = .ok (ep, outs) →
      ∀ (x : Bytes) (peer : Peer), ep.peers[x]? = some peer → peer.state = .handshake →
      ∀ clock : Clock, millis ep.config.retransmitTimeout ≤ clock.now - peer.lastHandshakeSent →
        SendsHandshake x (forPeers ep (sendHandshakes ep.toLocal clock)).2 := by
  intro h
  obtain ⟨header, payload, -, hmem⟩ := h noCrypto {} rfl [.connect [120] ⟨1, 2⟩ ⟨0, 0⟩] _ _ rfl
    [120] _ rfl rfl ⟨millis 10000, 0⟩ (by decide)
  rw [forPeers_outputs] at hmem
  exact absurd hmem List.not_mem_nil

end Transport
end Damen
