import Damen.Properties.Dispatch
import Damen.Properties.PeerView
import Damen.Properties.ReportScan

/-!
# Admission of peers that were never connected to

A packet from an unknown address creates a peer.  Handshakes carry an access token, and
`handle_handshake` compares it; this file asks what that gates.

* `linked_only_authenticated_iff`: the link of such a peer is up only after a handshake with the
  token, exactly if no online packet and no handshake acknowledgement came before it.  Nothing in
  `handle_packet` prevents that.
* `callbacks_only_authenticated`: packets from an address lead to a message or command callback only
  after a handshake with the token from that address, if no data, parity or command packet came from
  it before.  The handlers of these packets look at neither the link state nor the token.

The runs are those of the whole endpoint: packets from any address, rounds of the reactor and calls
of the application in any order.
-/

namespace Damen
namespace Transport

open Std (ExtTreeMap)

/-! ## The peer a packet is handled for -/

variable {addr : AddrKey} {cs : CryptoSuite} {ev : Event} {header : PacketHeader} {random : UInt64}

lemma peerFor_of_known {ep : Endpoint} (h : Known ep addr) (now : TimePoint) (random : UInt64) :
    ep.peers[peerKey ep addr random]? = some (peerFor ep addr now random) := by
  obtain ⟨key, haddr, hmem⟩ := h
  have hkey : peerKey ep addr random = key := by
    unfold peerKey
    rw [haddr]
    exact if_pos hmem
  rw [peerFor, if_pos ⟨key, haddr, hmem⟩, hkey]
  exact ExtTreeMap.getElem?_eq_some_getD_of_contains hmem

lemma peerKey_of_not_known {ep : Endpoint} (h : ¬ Known ep addr) (random : UInt64) :
    peerKey ep addr random = anonId addr.port random := by
  unfold peerKey
  split
  · next key hkey => exact if_neg fun hmem => h ⟨key, hkey, hmem⟩
  · rfl

lemma peerFor_cases (ep : Endpoint) (addr : AddrKey) (now : TimePoint) (random : UInt64) :
    ∃ peer : Peer, (ep.peers[peerKey ep addr random]? = some peer ∨ peer = {}) ∧
      (peerFor ep addr now random = peer ∧ ep.peers[peerKey ep addr random]? = some peer ∨
        peerFor ep addr now random =
          anonymous ep.config peer (peerKey ep addr random) addr now) := by
  refine ⟨ep.peers.getD (peerKey ep addr random) {}, ?_, ?_⟩
  · rw [ExtTreeMap.getD_eq_getD_getElem?]
    cases ep.peers[peerKey ep addr random]? with
    | none => exact Or.inr rfl
    | some peer => exact Or.inl rfl
  · unfold peerFor
    simp only
    split
    · next hknown =>
      have hpeer := peerFor_of_known hknown now random
      rw [peerFor, if_pos hknown] at hpeer
      exact Or.inl ⟨rfl, hpeer⟩
    · exact Or.inr rfl

/-! ## The events of a run -/

/-- The packet an event dispatches for the peer `x`, with the state of that peer before it. -/
def dispatchedTo (cs : CryptoSuite) (x : Bytes) (ep : Endpoint) :
    Event → Option (Peer × PacketHeader × Bytes)
  | .packet addr header payload clock random =>
      let peer := peerFor ep addr clock.now random
      if peerKey ep addr random = x then
        (openPacket cs peer header payload).map (Prod.mk peer)
      else none
  | _ => none

/-- A handshake for `x` presents the token. -/
def Authenticates (cs : CryptoSuite) (x : Bytes) (ep : Endpoint) (ev : Event) : Prop :=
  ∃ r ∈ dispatchedTo cs x ep ev, Accepts ep.toLocal r.2.1 r.2.2

/-- A packet for `x` takes its link online. -/
def PromotesPeer (cs : CryptoSuite) (x : Bytes) (ep : Endpoint) (ev : Event) : Prop :=
  ∃ r ∈ dispatchedTo cs x ep ev, Promotes r.1 r.2.1

instance (cs : CryptoSuite) (x : Bytes) (ep : Endpoint) (ev : Event) :
    Decidable (Authenticates cs x ep ev) :=
  inferInstanceAs (Decidable (∃ r ∈ dispatchedTo cs x ep ev, _))

instance (cs : CryptoSuite) (x : Bytes) (ep : Endpoint) (ev : Event) :
    Decidable (PromotesPeer cs x ep ev) :=
  inferInstanceAs (Decidable (∃ r ∈ dispatchedTo cs x ep ev, _))

/-- Only packets are dispatched. -/
lemma mem_dispatchedTo {x : Bytes} {ep : Endpoint} {r : Peer × PacketHeader × Bytes}
    (h : r ∈ dispatchedTo cs x ep ev) :
    ∃ addr header payload clock random, ev = .packet addr header payload clock random ∧
      peerKey ep addr random = x ∧ r.1 = peerFor ep addr clock.now random ∧
      openPacket cs r.1 header payload = some r.2 := by
  cases ev with
  | packet addr header payload clock random =>
      rw [dispatchedTo, Option.mem_def] at h
      split at h
      · next hkey =>
        obtain ⟨r', hopen, rfl⟩ := Option.map_eq_some_iff.mp h
        exact ⟨addr, header, payload, clock, random, rfl, hkey, rfl, hopen⟩
      · exact absurd h (by simp)
  | tick clock => exact absurd h (by simp [dispatchedTo])
  | connect id addr clock => exact absurd h (by simp [dispatchedTo])
  | sendCommand id payload clock => exact absurd h (by simp [dispatchedTo])

lemma dispatchedTo_packet {x : Bytes} {ep : Endpoint} {payload : Bytes} {clock : Clock}
    (hkey : peerKey ep addr random = x) {header' : PacketHeader} {payload' : Bytes}
    (hopen : openPacket cs (peerFor ep addr clock.now random) header payload =
      some (header', payload')) :
    (peerFor ep addr clock.now random, header', payload') ∈
      dispatchedTo cs x ep (.packet addr header payload clock random) := by
  rw [dispatchedTo]
  simp only [if_pos hkey, hopen]
  rfl

/-! ## Rounds of the reactor -/

lemma buildPayload_sameLink (peer : Peer) (reportInterval : Int) (now : TimePoint) :
    SameLink peer (Report.buildPayload peer reportInterval now).1 := by
  rw [Report.buildPayload_frame]
  exact ⟨rfl, rfl⟩

lemma sendHandshakes_sameLink (me : Local) (clock : Clock) (peer : Peer) :
    SameLink peer (sendHandshakes me clock peer).1 := by
  unfold sendHandshakes
  split
  · exact SameLink.refl peer
  · split
    · exact sendHandshake_sameLink me clock peer
    · exact SameLink.refl peer

lemma sendHeartbeats_sameLink (me : Local) (bw : BandwidthEstimator) (clock : Clock) (peer : Peer) :
    SameLink peer (sendHeartbeats me bw clock peer).1 := by
  unfold sendHeartbeats
  simp only
  split_ifs
  · exact SameLink.refl peer
  · exact ⟨rfl, rfl⟩
  · exact SameLink.refl peer

lemma sendReports_sameLink (me : Local) (clock : Clock) (peer : Peer) :
    SameLink peer (sendReports me clock peer).1 := by
  have hlink := buildPayload_sameLink peer me.config.reportInterval clock.now
  unfold sendReports
  simp only
  split_ifs
  · exact SameLink.refl peer
  · exact ⟨hlink.state, hlink.addrSet⟩
  · exact SameLink.refl peer

/-- The reactor takes a link down, never up. -/
lemma checkOffline_spec (me : Local) (clock : Clock) (peer : Peer) :
    ((checkOffline me clock peer).1.state = peer.state ∨
        (checkOffline me clock peer).1.state = .closed ∨
        (checkOffline me clock peer).1.state = .handshake) ∧
      (checkOffline me clock peer).1.addrSet = peer.addrSet := by
  unfold checkOffline
  simp only
  split
  · exact ⟨Or.inl rfl, rfl⟩
  · split
    · exact ⟨Or.inl rfl, rfl⟩
    · split
      · exact ⟨Or.inr (Or.inr rfl), rfl⟩
      · exact ⟨Or.inr (Or.inl rfl), rfl⟩

lemma flushCommands_sameLink (bw : BandwidthEstimator) (clock : Clock) (peer : Peer) :
    SameLink peer (flushCommands bw clock peer).1 := by
  have hframe := expireLocked_frame peer (rttUs bw) clock.now
  have hstate := congrArg Peer.state hframe
  have haddr := congrArg Peer.addrSet hframe
  exact ⟨hstate, haddr⟩

lemma tickPeer_spec (me : Local) (bw : BandwidthEstimator) (clock : Clock) (peer : Peer) :
    ((tickPeer me bw clock peer).1.state = peer.state ∨
        (tickPeer me bw clock peer).1.state = .closed ∨
        (tickPeer me bw clock peer).1.state = .handshake) ∧
      (tickPeer me bw clock peer).1.addrSet = peer.addrSet := by
  unfold tickPeer
  simp only
  have hlink₁ := sendHandshakes_sameLink me clock peer
  have hlink₂ := sendHeartbeats_sameLink me bw clock (sendHandshakes me clock peer).1
  generalize sendHeartbeats me bw clock (sendHandshakes me clock peer).1 = r₂ at hlink₂
  have hlink₃ := sendReports_sameLink me clock r₂.1
  generalize sendReports me clock r₂.1 = r₃ at hlink₃
  obtain ⟨hstate₄, haddr₄⟩ := checkOffline_spec me clock r₃.1
  generalize checkOffline me clock r₃.1 = r₄ at hstate₄ haddr₄
  have hlink₅ := flushCommands_sameLink bw clock r₄.1
  have hlink := (hlink₁.trans hlink₂).trans hlink₃
  rw [hlink₅.state, hlink₅.addrSet, haddr₄, hlink.addrSet, ← hlink.state]
  exact ⟨hstate₄, rfl⟩

/-! ## The link state -/

/-- If there is a peer `x`, its link is closed or in its handshake. -/
def Waiting (x : Bytes) (ep : Endpoint) : Prop :=
  ∀ peer, ep.peers[x]? = some peer → peer.state = .closed ∨ peer.state = .handshake

/-- No event of the run connects to the peer `x`. -/
def NeverConnected (x : Bytes) (events : List Event) : Prop :=
  ∀ addr clock, .connect x addr clock ∉ events

lemma peerFor_waiting {x : Bytes} {ep : Endpoint} (h : Waiting x ep)
    (hkey : peerKey ep addr random = x) (now : TimePoint) :
    (peerFor ep addr now random).state = .closed ∨
      (peerFor ep addr now random).state = .handshake := by
  subst hkey
  obtain ⟨peer, -, ⟨heq, hpeer⟩ | heq⟩ := peerFor_cases ep addr now random
  · rw [heq]
    exact h peer hpeer
  · rw [heq]
    exact Or.inr rfl

/-- A step that neither authenticates nor promotes the peer leaves its link down. -/
lemma step_waiting {x : Bytes} {ep ep' : Endpoint} {out : Outputs} (h : Waiting x ep)
    (hconnect : ∀ addr clock, ev ≠ .connect x addr clock) (hpromotes : ¬ PromotesPeer cs x ep ev)
    (hauth : ¬ Authenticates cs x ep ev) (hstep : step cs ep ev = .ok (ep', out)) :
    Waiting x ep' := by
  intro peer' hpeer'
  obtain ⟨-, hview⟩ := step_view hconnect hstep
  cases hview with
  | packet hkey hreceive hpeer =>
      obtain rfl := Option.some.inj (hpeer.symm.trans hpeer')
      have hwait := peerFor_waiting h hkey
      rcases receivePacket_ok hreceive with ⟨-, -, rfl, -⟩ |
        ⟨header', payload', acts', hopen, hdispatch, -⟩
      · exact hwait _
      · have hmem := dispatchedTo_packet hkey hopen
        rcases (dispatch_effect hdispatch).state (fun ha => hauth ⟨_, hmem, ha⟩)
          (fun hp => hpromotes ⟨_, hmem, hp⟩) with hsame | hclosed
        · rw [hsame]
          exact hwait _
        · exact Or.inl hclosed
  | tick hpeer =>
      rw [hpeer, Option.map_eq_some_iff] at hpeer'
      obtain ⟨peer, hpeer, rfl⟩ := hpeer'
      rcases (tickPeer_spec ep.toLocal ep.bandwidth _ peer).1 with hsame | hclosed | hhandshake
      · rw [hsame]
        exact h peer hpeer
      · exact Or.inl hclosed
      · exact Or.inr hhandshake
  | command hpeer hstate =>
      rcases h _ hpeer with hdown | hdown <;> exact absurd (hstate.symm.trans hdown) (by simp)
  | dropped hpeer => exact absurd (hpeer.symm.trans hpeer') (by simp)
  | other hpeer => exact h peer' (hpeer.symm.trans hpeer')

/-- In every state the run reaches, the link of `x` is up only if a handshake presented the
token. -/
def LinkedOnlyAuthenticated (cs : CryptoSuite) (x : Bytes) (ep : Endpoint) (events : List Event) :
    Prop :=
  ∀ before after, events = before ++ after → ∀ t outs,
    Machine.run (step cs) ep before = .ok (t, outs) → ∀ peer, t.peers[x]? = some peer →
      peer.state = .established ∨ peer.state = .online →
        Machine.Once (step cs) (Authenticates cs x) ep before

lemma until_and_neverConnected {x : Bytes} {ep : Endpoint} {events : List Event}
    {P : Endpoint → Event → Prop} (hconnect : NeverConnected x events)
    (h : Machine.Until (step cs) (Authenticates cs x) P ep events) :
    Machine.Until (step cs) (Authenticates cs x)
      (fun t ev => P t ev ∧ ∀ addr clock, ev ≠ .connect x addr clock) ep events := by
  rw [Machine.until_iff] at h ⊢
  rintro before ev after rfl t os hrun hnot
  refine ⟨h before ev after rfl t os hrun hnot, ?_⟩
  rintro addr clock rfl
  exact hconnect addr clock (List.mem_append_right _ List.mem_cons_self)

/-- A packet that promotes the peer is handled, and the link is online after it. -/
lemma step_promotes {x : Bytes} {ep : Endpoint} (h : PromotesPeer cs x ep ev) :
    ¬ Authenticates cs x ep ev ∧ ∃ ep' out peer, step cs ep ev = .ok (ep', out) ∧
      ep'.peers[x]? = some peer ∧ peer.state = .online := by
  obtain ⟨r, hmem, hpromotes⟩ := h
  refine ⟨?_, ?_⟩
  · rintro ⟨r', hmem', haccept⟩
    obtain rfl := Option.some.inj (hmem.symm.trans hmem')
    rcases hpromotes with htype | ⟨htype, -⟩ <;>
      exact absurd (haccept.1.symm.trans htype) (by simp)
  · obtain ⟨addr, header, payload, clock, random, rfl, rfl, hpeer, hopen⟩ := mem_dispatchedTo hmem
    have hnoted : Promotes (noteSender clock r.1 header) r.2.1 := hpromotes
    obtain ⟨peer', acts, hdispatch, honline⟩ := dispatch_promotes hnoted
    have hreceive := receivePacket_of_dispatch hopen hdispatch
    rw [hpeer] at hreceive
    obtain ⟨ep', out, hstep, hpeer'⟩ := handlePacket_of_receive hreceive
    exact ⟨ep', out, peer', hstep, hpeer', honline⟩

/-- The link of a peer that was never connected to is up only after a handshake with the token,
exactly if until then no online packet and no handshake acknowledgement takes it online. -/
theorem linked_only_authenticated_iff (cs : CryptoSuite) (x : Bytes) (ep : Endpoint)
    (hx : x ∉ ep.peers) (events : List Event) (hconnect : NeverConnected x events) :
    LinkedOnlyAuthenticated cs x ep events ↔
      Machine.Until (step cs) (Authenticates cs x) (fun t ev => ¬ PromotesPeer cs x t ev) ep
        events := by
  constructor
  · intro hlinked
    rw [Machine.until_iff]
    rintro before ev after rfl t os hrun hnot hpromotes
    obtain ⟨hauth, t', out, peer, hstep, hpeer, honline⟩ := step_promotes hpromotes
    have honce := hlinked (before ++ [ev]) after (by simp) t' (os ++ [out])
      (Machine.run_concat_ok.mpr ⟨t, os, out, hrun, hstep, rfl⟩) peer hpeer (Or.inr honline)
    exact ((Machine.once_concat hrun).mp honce).elim hnot hauth
  · rintro huntil before after rfl t os hrun peer hpeer hup
    have hstart : Waiting x ep := fun peer hpeer =>
      absurd (of_getElem?_eq_some hpeer) hx
    have hkeep := Machine.run_until
      (fun s ev s' o hs hP hQ hstep => step_waiting hs hP.2 hP.1 hQ hstep) hstart
      (until_and_neverConnected hconnect huntil).left hrun
    refine hkeep.resolve_right fun hwait => ?_
    rcases hwait peer hpeer with hdown | hdown <;> rw [hdown] at hup <;> simp at hup

/-- A packet from the address `1.0.0.0:2`, not encrypted. -/
def stray (type : PacketType) (sequence : UInt32) (payload : Bytes) : Event :=
  .packet ⟨1, 2⟩
    { magic := kMagic, version := kVersion, type, clientId := 7, sequence
      payloadSize := UInt16.ofNat payload.length } payload ⟨0, 0⟩ 5

/-- A handshake with the empty token of the default configuration, then an online packet. -/
theorem linked_only_authenticated_handshake :
    LinkedOnlyAuthenticated noCrypto (anonId 2 5) {}
      [stray .handshake 1 [0, 0, 0, 1], stray .online 2 []] :=
  (linked_only_authenticated_iff noCrypto (anonId 2 5) {} (by decide) _
    (fun _ _ => by simp [stray])).mpr ⟨by decide, Or.inl (by decide)⟩

/-- A single online packet takes the link of a stranger online. -/
theorem linked_without_handshake :
    ¬ ∃ cs, ∀ (x : Bytes) (ep : Endpoint) (events : List Event), x ∉ ep.peers →
      NeverConnected x events → LinkedOnlyAuthenticated cs x ep events := by
  rintro ⟨cs, h⟩
  have honce := h (anonId 2 5) {} [stray .online 1 []] (by decide) (fun _ _ => by simp [stray])
    [stray .online 1 []] [] rfl _ _ rfl _ rfl (Or.inr rfl)
  rcases honce with ⟨r, hr, haccept⟩ | ⟨_, _, _, hfalse⟩
  · obtain rfl := Option.some.inj hr
    exact absurd haccept.1 (by decide)
  · exact hfalse

/-! ## Messages and commands -/

/-- The packet from `addr` that an event dispatches. -/
def dispatchedFrom (cs : CryptoSuite) (addr : AddrKey) (ep : Endpoint) :
    Event → Option (PacketHeader × Bytes)
  | .packet sender header payload clock random =>
      if sender = addr then openPacket cs (peerFor ep sender clock.now random) header payload
      else none
  | _ => none

/-- A handshake from `addr` presents the token. -/
def AuthenticatesAddr (cs : CryptoSuite) (addr : AddrKey) (ep : Endpoint) (ev : Event) : Prop :=
  ∃ r ∈ dispatchedFrom cs addr ep ev, Accepts ep.toLocal r.1 r.2

/-- A packet from `addr` carries a message fragment or a command. -/
def CarriesPayload (cs : CryptoSuite) (addr : AddrKey) (ep : Endpoint) (ev : Event) : Prop :=
  ∃ r ∈ dispatchedFrom cs addr ep ev, carriesPayload r.1.type = true

instance (cs : CryptoSuite) (addr : AddrKey) (ep : Endpoint) (ev : Event) :
    Decidable (AuthenticatesAddr cs addr ep ev) :=
  inferInstanceAs (Decidable (∃ r ∈ dispatchedFrom cs addr ep ev, _))

instance (cs : CryptoSuite) (addr : AddrKey) (ep : Endpoint) (ev : Event) :
    Decidable (CarriesPayload cs addr ep ev) :=
  inferInstanceAs (Decidable (∃ r ∈ dispatchedFrom cs addr ep ev, _))

/-- A packet without payload calls the application for nothing, whatever the peer has held back. -/
lemma handlePacket_silent {ep ep' : Endpoint} {payload : Bytes} {clock : Clock} {out : Outputs}
    (hcarries : ¬ CarriesPayload cs addr ep (.packet addr header payload clock random))
    (h : handlePacket cs ep addr header payload clock random = .ok (ep', out)) :
    ∀ e ∈ out, e.2.isCallback = false := by
  obtain ⟨peer', acts, hreceive, -, -, -, rfl⟩ := handlePacket_ok h
  have hsilent : Silent acts := by
    rcases receivePacket_ok hreceive with ⟨-, -, -, rfl⟩ |
      ⟨header', payload', acts', hopen, hdispatch, rfl⟩
    · exact silent_nil
    · have hno : carriesPayload header'.type = false := by
        rw [← Bool.not_eq_true]
        exact fun hc => hcarries ⟨_, (if_pos rfl).trans hopen, hc⟩
      have hacts := (dispatch_effect hdispatch).silent hno
      split
      · exact silent_append.mpr ⟨hacts, (routine_sendAckPacket _ _ _ _).silent⟩
      · exact hacts
  intro e he
  obtain ⟨a, ha, rfl⟩ := List.mem_map.mp he
  exact hsilent a ha

/-- Whenever a packet from `addr` leads to a message or command callback, a handshake from `addr`
presented the token before. -/
def CallbacksOnlyAuthenticated (cs : CryptoSuite) (addr : AddrKey) (ep : Endpoint)
    (events : List Event) : Prop :=
  ∀ before header payload clock random after,
    events = before ++ .packet addr header payload clock random :: after →
      ∀ t outs t' out, Machine.run (step cs) ep before = .ok (t, outs) →
        handlePacket cs t addr header payload clock random = .ok (t', out) →
          ∀ e ∈ out, e.2.isCallback = true →
            Machine.Once (step cs) (AuthenticatesAddr cs addr) ep before

/-- Packets from an address lead to a callback only after a handshake with the token from it, in
every run in which no data, parity or command packet comes from the address before one. -/
theorem callbacks_only_authenticated (cs : CryptoSuite) (addr : AddrKey) (ep : Endpoint)
    (events : List Event)
    (hgated : Machine.Until (step cs) (AuthenticatesAddr cs addr)
      (fun t ev => ¬ CarriesPayload cs addr t ev) ep events) :
    CallbacksOnlyAuthenticated cs addr ep events := by
  rintro before header payload clock random after rfl t outs t' out hrun hhandle e he hcallback
  by_contra hnot
  have hcarries := Machine.until_iff.mp hgated before _ after rfl t outs hrun hnot
  exact absurd (hcallback.symm.trans (handlePacket_silent hcarries hhandle e he)) (by simp)

/-- A stranger's heartbeat, a handshake with the empty token of the default configuration, a round
of the reactor, and then a command. -/
theorem callbacks_only_authenticated_handshake :
    CallbacksOnlyAuthenticated noCrypto ⟨1, 2⟩ {}
      [stray .heartbeat 0 [], stray .handshake 1 [0, 0, 0, 1], .tick ⟨1, 1⟩,
        stray .command 1 [9]] := by
  refine callbacks_only_authenticated noCrypto ⟨1, 2⟩ {} _ ⟨by decide, Or.inr fun s o hstep => ?_⟩
  cases hstep
  exact ⟨by decide, Or.inl (by decide)⟩

/-- A single command packet of a stranger is passed to the application. -/
theorem callback_without_handshake :
    ¬ ∃ cs, ∀ (addr : AddrKey) (ep : Endpoint) (events : List Event), ep.peers = ∅ →
      (∀ id clock, .connect id addr clock ∉ events) →
        CallbacksOnlyAuthenticated cs addr ep events := by
  rintro ⟨cs, h⟩
  exact h ⟨1, 2⟩ {} [stray .command 1 [9]] rfl (fun _ _ => by simp [stray]) [] _ _ _ _ [] rfl {} []
    _ _ rfl rfl (anonId 2 5, .command (anonId 2 5) [9]) (by decide) rfl

end Transport
end Damen
