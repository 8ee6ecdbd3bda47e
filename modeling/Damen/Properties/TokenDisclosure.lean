import Damen.Properties.Admission

/-!
# What a stranger learns of the access token

Two endpoints that differ only in the access token read the same datagrams of a stranger, who never
presents either token, and the same rounds of the reactor.  `token_undisclosed_iff` says that the
stranger is sent the same bytes exactly if no round of the reactor finds its peer in the handshake
state with nothing pending: there, `send_handshakes` sends a handshake of its own, with the token in
it, to any peer, and a first packet of any type makes such a peer.

The argument is a relation between the two endpoints (`Lockstep`), which every step keeps that does
not send this handshake.
-/

namespace Damen
namespace Transport

open Std (ExtTreeMap)

/-! ## Two endpoints -/

def Local.withToken (me : Local) (token : Bytes) : Local :=
  { me with config := { me.config with token } }

def Endpoint.withToken (ep : Endpoint) (token : Bytes) : Endpoint :=
  { ep with toLocal := ep.toLocal.withToken token }

/-- The bytes that are sent, in order. -/
def datagrams (acts : List Action) : List Bytes :=
  acts.filterMap fun
    | .enqueue datagram | .probe datagram => some datagram
    | _ => none

/-- The event is a round of the reactor, or a packet from `addr` that is handled for the peer `x`
and presents neither token. -/
def Presenting (cs : CryptoSuite) (addr : AddrKey) (x token₁ token₂ : Bytes) (ep : Endpoint) :
    Event → Prop
  | .tick _ => True
  | .packet sender header payload clock random =>
      sender = addr ∧ peerKey ep addr random = x ∧
        ∀ r ∈ dispatchedTo cs x ep (.packet sender header payload clock random),
          r.2.1.type = .handshake →
            presentedToken ep.config.encryptionEnabled r.2.2 ≠ some token₁ ∧
              presentedToken ep.config.encryptionEnabled r.2.2 ≠ some token₂
  | _ => False

/-- A round of the reactor finds the peer `x` in the handshake state with nothing pending. -/
def Greets (x : Bytes) (ep : Endpoint) : Event → Prop
  | .tick _ => ∃ peer ∈ ep.peers[x]?, peer.state = .handshake ∧ peer.pending.isEmpty
  | _ => False

/-! ## The token in the handlers -/

lemma resend_withToken (cs : CryptoSuite) (me : Local) (peer : Peer) (token : Bytes)
    (packets : List (PacketHeader × Bytes)) :
    resend cs (me.withToken token) peer packets = resend cs me peer packets := by
  induction packets with
  | nil => rfl
  | cons e packets ih =>
      have hbuild : buildWirePacket cs (me.withToken token) peer e.1 e.2 =
        buildWirePacket cs me peer e.1 e.2 := rfl
      rw [resend, resend, ih, hbuild]

lemma handleReport_withToken (cs : CryptoSuite) (me : Local) (bw : BandwidthEstimator)
    (clock : Clock) (peer : Peer) (header : PacketHeader) (payload token : Bytes) :
    handleReport cs (me.withToken token) bw clock peer header payload =
      handleReport cs me bw clock peer header payload := by
  unfold handleReport
  simp only [resend_withToken]

variable {cs : CryptoSuite} {me : Local} {bw : BandwidthEstimator} {clock : Clock} {peer : Peer}
  {header : PacketHeader} {payload token₁ token₂ : Bytes}

/-- A handshake is handled the same by both endpoints if both reject it. -/
lemma handleHandshake_withToken
    (h₁ : presentedToken me.config.encryptionEnabled payload ≠ some token₁)
    (h₂ : presentedToken me.config.encryptionEnabled payload ≠ some token₂) :
    handleHandshake cs (me.withToken token₁) bw clock peer header payload =
      handleHandshake cs (me.withToken token₂) bw clock peer header payload := by
  have hconfig : ∀ token, (me.withToken token).config.encryptionEnabled =
    me.config.encryptionEnabled := fun _ => rfl
  unfold presentedToken at h₁ h₂
  unfold handleHandshake
  rw [hconfig, hconfig]
  cases hparse : parseHandshake me.config.encryptionEnabled payload with
  | none => rfl
  | some fields =>
      rw [hparse, Option.map_some] at h₁ h₂
      have hne₁ : fields.token ≠ (me.withToken token₁).config.token :=
        fun heq => h₁ (congrArg some heq)
      have hne₂ : fields.token ≠ (me.withToken token₂).config.token :=
        fun heq => h₂ (congrArg some heq)
      simp only
      rw [if_pos hne₁, if_pos hne₂]

lemma dispatch_withToken
    (h : header.type = .handshake → presentedToken me.config.encryptionEnabled payload ≠
      some token₁ ∧ presentedToken me.config.encryptionEnabled payload ≠ some token₂) :
    dispatch cs (me.withToken token₁) bw clock peer header payload =
      dispatch cs (me.withToken token₂) bw clock peer header payload := by
  unfold dispatch
  cases htype : header.type <;> try rfl
  · obtain ⟨h₁, h₂⟩ := h htype
    exact congrArg (fun r => Except.ok (bw, r)) (handleHandshake_withToken h₁ h₂)
  · simp only [handleReport_withToken]

lemma receivePacket_withToken
    (h : ∀ r ∈ openPacket cs peer header payload, r.1.type = .handshake →
      presentedToken me.config.encryptionEnabled r.2 ≠ some token₁ ∧
      presentedToken me.config.encryptionEnabled r.2 ≠ some token₂) :
    receivePacket cs (me.withToken token₁) bw clock peer header payload =
      receivePacket cs (me.withToken token₂) bw clock peer header payload := by
  unfold receivePacket
  simp only
  have hopen : openPacket cs (noteSender clock peer header) header payload =
    openPacket cs peer header payload := rfl
  rw [hopen]
  cases hcase : openPacket cs peer header payload with
  | none => rfl
  | some r =>
      obtain ⟨header', payload'⟩ := r
      simp only
      rw [dispatch_withToken (h _ hcase)]
      rfl

lemma tickPeer_withToken (h : ¬ (peer.state = .handshake ∧ peer.pending.isEmpty))
    (token₁ token₂ : Bytes) :
    tickPeer (me.withToken token₁) bw clock peer =
      tickPeer (me.withToken token₂) bw clock peer := by
  have hquiet : ∀ me, sendHandshakes me clock peer = (peer, []) := by
    intro me
    unfold sendHandshakes
    split
    · rfl
    · next hstate =>
      split
      · next hempty => exact absurd ⟨not_not.mp hstate, hempty⟩ h
      · rfl
  unfold tickPeer
  simp only [hquiet]
  rfl

/-! ## Lockstep -/

/-- The two endpoints differ in the token, and otherwise only in what they keep of other peers than
`x`.  The address of `x` is valid. -/
structure Lockstep (x token₁ token₂ : Bytes) (me : Local) (ep₁ ep₂ : Endpoint) : Prop where
  local₁ : ep₁.toLocal = me.withToken token₁
  local₂ : ep₂.toLocal = me.withToken token₂
  bandwidth : ep₁.bandwidth = ep₂.bandwidth
  peerByAddr : ep₁.peerByAddr = ep₂.peerByAddr
  mem : ∀ key, key ∈ ep₁.peers ↔ key ∈ ep₂.peers
  peer : ep₁.peers[x]? = ep₂.peers[x]?
  addrSet : ∀ peer, ep₁.peers[x]? = some peer → peer.addrSet = true

section

variable {x token₁ token₂ : Bytes} {me : Local} {ep₁ ep₂ : Endpoint}

lemma Lockstep.known (h : Lockstep x token₁ token₂ me ep₁ ep₂) (addr : AddrKey) :
    Known ep₁ addr ↔ Known ep₂ addr := by
  unfold Known
  simp only [h.peerByAddr, h.mem]

lemma Lockstep.peerKey (h : Lockstep x token₁ token₂ me ep₁ ep₂) (addr : AddrKey)
    (random : UInt64) : peerKey ep₁ addr random = peerKey ep₂ addr random := by
  unfold Transport.peerKey
  simp only [h.peerByAddr, h.mem]

variable {addr : AddrKey} {random : UInt64} {clock : Clock}

lemma Lockstep.peerFor (h : Lockstep x token₁ token₂ me ep₁ ep₂)
    (hkey : Transport.peerKey ep₁ addr random = x) (now : TimePoint) :
    peerFor ep₁ addr now random = peerFor ep₂ addr now random := by
  have hget : ep₁.peers.getD x {} = ep₂.peers.getD x {} := by
    rw [ExtTreeMap.getD_eq_getD_getElem?, ExtTreeMap.getD_eq_getD_getElem?, h.peer]
  have hanonymous : ∀ peer, anonymous ep₁.config peer x addr now =
      anonymous ep₂.config peer x addr now := by
    intro peer
    unfold anonymous
    rw [h.local₁, h.local₂]
    rfl
  unfold Transport.peerFor
  simp only [← h.peerKey addr random, hkey, hget, hanonymous, h.known addr]

/-- The address of the peer of a packet is valid. -/
lemma Lockstep.peerFor_addrSet (h : Lockstep x token₁ token₂ me ep₁ ep₂)
    (hkey : Transport.peerKey ep₁ addr random = x) (now : TimePoint) :
    (Transport.peerFor ep₁ addr now random).addrSet = true := by
  subst hkey
  obtain ⟨peer, -, ⟨heq, hpeer⟩ | heq⟩ := peerFor_cases ep₁ addr now random
  · rw [heq]
    exact h.addrSet peer hpeer
  · rw [heq]
    rfl

/-- A packet of the stranger keeps the endpoints in lockstep, and both do the same for it. -/
lemma Lockstep.packet {cs : CryptoSuite} {ep₁' : Endpoint} {out₁ : Outputs} {header : PacketHeader}
    {payload : Bytes} (h : Lockstep x token₁ token₂ me ep₁ ep₂)
    (hpresenting : Presenting cs addr x token₁ token₂ ep₁
      (.packet addr header payload clock random))
    (hstep : handlePacket cs ep₁ addr header payload clock random = .ok (ep₁', out₁)) :
    ∃ ep₂' out₂, handlePacket cs ep₂ addr header payload clock random = .ok (ep₂', out₂) ∧
      Lockstep x token₁ token₂ me ep₁' ep₂' ∧ actionsFor x out₁ = actionsFor x out₂ := by
  obtain ⟨-, hkey, hpresent⟩ := hpresenting
  have hconfig : ep₁.config.encryptionEnabled = me.config.encryptionEnabled := by
    rw [h.local₁]
    rfl
  have htoken : ep₁.config.token = token₁ := by
    rw [h.local₁]
    rfl
  have hopened : ∀ r ∈ openPacket cs (Transport.peerFor ep₁ addr clock.now random) header payload,
      r.1.type = .handshake →
        presentedToken me.config.encryptionEnabled r.2 ≠ some token₁ ∧
          presentedToken me.config.encryptionEnabled r.2 ≠ some token₂ := by
    intro r hr
    have hr' := hpresent _ (dispatchedTo_packet hkey hr)
    rwa [hconfig] at hr'
  obtain ⟨peer, acts, hreceive, hlocal, hpeers, haddr, rfl⟩ := handlePacket_ok hstep
  have hsame : receivePacket cs ep₂.toLocal ep₂.bandwidth clock
      (Transport.peerFor ep₂ addr clock.now random) header payload =
        .ok (ep₁'.bandwidth, peer, acts) := by
    rw [h.local₂, ← h.bandwidth, ← h.peerFor hkey clock.now, ← receivePacket_withToken hopened,
      ← h.local₁]
    exact hreceive
  obtain ⟨ep₂', out₂, hstep₂, -⟩ := handlePacket_of_receive hsame
  refine ⟨ep₂', out₂, hstep₂, ?_⟩
  obtain ⟨peer₂, acts₂, hreceive₂, hlocal₂, hpeers₂, haddr₂, rfl⟩ := handlePacket_ok hstep₂
  obtain ⟨hbw, hrest⟩ := Prod.mk.inj (Except.ok.inj (hsame.symm.trans hreceive₂))
  obtain ⟨rfl, rfl⟩ := Prod.mk.inj hrest
  have hkeys := h.peerKey addr random
  refine ⟨⟨hlocal.trans h.local₁, hlocal₂.trans h.local₂, hbw, ?_, ?_, ?_, ?_⟩, by rw [hkeys]⟩
  · rw [haddr, haddr₂, hkeys, h.peerByAddr]
    simp only [h.known addr]
  · intro key
    simp only [ExtTreeMap.mem_iff_isSome_getElem?, hpeers, hpeers₂, hkeys]
    have hmem := h.mem key
    simp only [ExtTreeMap.mem_iff_isSome_getElem?] at hmem
    split
    · exact Iff.rfl
    · exact hmem
  · rw [hpeers, hpeers₂, hkeys, h.peer]
  · intro peer' hpeer'
    rw [hpeers, if_pos hkey.symm] at hpeer'
    obtain rfl := Option.some.inj hpeer'
    have hvalid := h.peerFor_addrSet hkey clock.now
    rcases receivePacket_ok hreceive with ⟨-, -, rfl, -⟩ |
      ⟨header', payload', acts', hopen, hdispatch, -⟩
    · exact hvalid
    · refine ((dispatch_effect hdispatch).addrSet ?_).trans hvalid
      rintro ⟨htype, htokens⟩
      rw [htoken, hconfig] at htokens
      exact (hopened _ hopen htype).1 htokens

/-- So does a round of the reactor, unless it greets the stranger. -/
lemma Lockstep.tick (h : Lockstep x token₁ token₂ me ep₁ ep₂)
    (hgreets : ¬ Greets x ep₁ (.tick clock)) :
    Lockstep x token₁ token₂ me (reactorTick ep₁ clock).1 (reactorTick ep₂ clock).1 ∧
      actionsFor x (reactorTick ep₁ clock).2 = actionsFor x (reactorTick ep₂ clock).2 := by
  obtain ⟨hlocal₁, hbw₁, haddr₁⟩ := reactorTick_local ep₁ clock
  obtain ⟨hlocal₂, hbw₂, haddr₂⟩ := reactorTick_local ep₂ clock
  have hsame : ∀ peer, ep₁.peers[x]? = some peer →
      tickPeer ep₁.toLocal ep₁.bandwidth clock peer =
        tickPeer ep₂.toLocal ep₂.bandwidth clock peer := by
    intro peer hpeer
    rw [h.local₁, h.local₂, h.bandwidth]
    exact tickPeer_withToken (fun hgreet => hgreets ⟨peer, hpeer, hgreet⟩) token₁ token₂
  refine ⟨⟨hlocal₁.trans h.local₁, hlocal₂.trans h.local₂, ?_, ?_, ?_, ?_, ?_⟩, ?_⟩
  · rw [hbw₁, hbw₂, h.bandwidth]
  · rw [haddr₁, haddr₂, h.peerByAddr]
  · intro key
    have hmem := h.mem key
    simp only [ExtTreeMap.mem_iff_isSome_getElem?, reactorTick_peer, Option.isSome_map] at hmem ⊢
    exact hmem
  · rw [reactorTick_peer, reactorTick_peer, ← h.peer]
    cases hpeer : ep₁.peers[x]? with
    | none => simp only [Option.map_none]
    | some peer => rw [Option.map_some, Option.map_some, hsame peer hpeer]
  · intro peer' hpeer'
    rw [reactorTick_peer, Option.map_eq_some_iff] at hpeer'
    obtain ⟨peer, hpeer, rfl⟩ := hpeer'
    exact (tickPeer_spec _ _ _ peer).2.trans (h.addrSet peer hpeer)
  · rw [reactorTick_outputs, reactorTick_outputs, ← h.peer]
    cases hpeer : ep₁.peers[x]? with
    | none => simp only [Option.map_none]
    | some peer => rw [Option.map_some, Option.map_some, hsame peer hpeer]

/-! ## The handshake of the reactor -/

lemma handshakePayload_withToken_inj
    (h : handshakePayload (me.withToken token₁) = handshakePayload (me.withToken token₂)) :
    token₁ = token₂ := by
  unfold handshakePayload at h
  simp only [List.append_assoc] at h
  exact List.append_cancel_right (List.append_cancel_left (List.append_cancel_left h))

/-- A round that greets a peer sends it the handshake payload first. -/
lemma datagrams_tickPeer {bw : BandwidthEstimator} {peer : Peer} (haddr : peer.addrSet = true)
    (hgreet : peer.state = .handshake ∧ peer.pending.isEmpty) :
    ((datagrams (tickPeer me bw clock peer).2).head?).map (List.drop kHeaderSize) =
      some (handshakePayload me) := by
  obtain ⟨hstate, hempty⟩ := hgreet
  have hsend : ∃ header, (sendHandshakes me clock peer).2 =
      [.enqueue (PacketCodec.encode header (handshakePayload me))] := by
    unfold sendHandshakes
    rw [if_neg (not_not.mpr hstate), if_pos hempty]
    unfold sendHandshake sendControl sendRaw
    simp only [if_true, haddr]
    exact ⟨_, rfl⟩
  obtain ⟨header, hsend⟩ := hsend
  unfold tickPeer
  simp only [hsend, List.append_assoc, List.cons_append, datagrams, List.filterMap_cons,
    List.head?_cons, Option.map_some, PacketCodec.drop_encode]

lemma Lockstep.greets (h : Lockstep x token₁ token₂ me ep₁ ep₂) (hne : token₁ ≠ token₂)
    (hgreets : Greets x ep₁ (.tick clock)) :
    datagrams (actionsFor x (reactorTick ep₁ clock).2) ≠
      datagrams (actionsFor x (reactorTick ep₂ clock).2) := by
  obtain ⟨peer, hpeer, hgreet⟩ := hgreets
  rw [Option.mem_def] at hpeer
  rw [reactorTick_outputs, reactorTick_outputs, ← h.peer, hpeer, h.local₁, h.local₂]
  intro heq
  have hfirst := congrArg (fun l => (l.head?).map (List.drop kHeaderSize)) heq
  simp only [Option.map_some, Option.getD_some,
    datagrams_tickPeer (h.addrSet peer hpeer) hgreet] at hfirst
  exact hne (handshakePayload_withToken_inj (Option.some.inj hfirst))

/-- Endpoints in lockstep send the stranger the same bytes exactly as long as neither greets it. -/
lemma Lockstep.agree_iff {cs : CryptoSuite} {events : List Event}
    (h : Lockstep x token₁ token₂ me ep₁ ep₂) (hne : token₁ ≠ token₂)
    (hpresenting : Machine.Along (step cs) (Presenting cs addr x token₁ token₂) ep₁ events) :
    Machine.Agree (step cs) (fun out => datagrams (actionsFor x out)) ep₁ ep₂ events ↔
      Machine.Along (step cs) (fun t ev => ¬ Greets x t ev) ep₁ events := by
  refine Machine.agree_iff (R := Lockstep x token₁ token₂ me) ?_ ?_ h hpresenting
  · intro s₁ s₂ ev t₁ o₁ h hpresenting hgreets hstep
    cases ev with
    | packet sender header payload clock random =>
        obtain rfl := hpresenting.1
        obtain ⟨t₂, o₂, hstep₂, h', hacts⟩ := h.packet hpresenting hstep
        exact ⟨t₂, o₂, hstep₂, h', congrArg datagrams hacts⟩
    | tick clock =>
        obtain ⟨h', hacts⟩ := h.tick hgreets
        simp only [step, Except.ok.injEq] at hstep
        rw [hstep] at h' hacts
        exact ⟨_, _, rfl, h', congrArg datagrams hacts⟩
    | connect _ _ _ => exact absurd hpresenting id
    | sendCommand _ _ _ => exact absurd hpresenting id
  · intro s₁ s₂ ev h hpresenting hgreets
    cases ev with
    | packet _ _ _ _ _ => exact absurd hgreets id
    | tick clock => exact ⟨_, _, _, _, rfl, rfl, h.greets hne hgreets⟩
    | connect _ _ _ => exact absurd hgreets id
    | sendCommand _ _ _ => exact absurd hgreets id

end

/-- Endpoints that differ in the token are in lockstep about a peer that does not exist. -/
lemma lockstep_start {x : Bytes} {ep : Endpoint} (hx : x ∉ ep.peers) (token₁ token₂ : Bytes) :
    Lockstep x token₁ token₂ ep.toLocal (ep.withToken token₁) (ep.withToken token₂) where
  local₁ := rfl
  local₂ := rfl
  bandwidth := rfl
  peerByAddr := rfl
  mem _ := Iff.rfl
  peer := rfl
  addrSet _ hpeer :=
    absurd (of_getElem?_eq_some hpeer) hx

/-- A stranger that never presents the token is sent bytes that do not depend on it, exactly if no
round of the reactor finds its peer in the handshake state with nothing pending. -/
theorem token_undisclosed_iff (cs : CryptoSuite) (addr : AddrKey) (x : Bytes) (ep : Endpoint)
    (hx : x ∉ ep.peers) (token₁ token₂ : Bytes) (hne : token₁ ≠ token₂) (events : List Event)
    (hpresenting : Machine.Along (step cs) (Presenting cs addr x token₁ token₂)
      (ep.withToken token₁) events) :
    Machine.Agree (step cs) (fun out => datagrams (actionsFor x out)) (ep.withToken token₁)
        (ep.withToken token₂) events ↔
      Machine.Along (step cs) (fun t ev => ¬ Greets x t ev) (ep.withToken token₁) events :=
  (lockstep_start hx token₁ token₂).agree_iff hne hpresenting

/-- A stray packet that is not a handshake, and a round of the reactor. -/
lemma presenting_stray (cs : CryptoSuite) (type : PacketType) (htype : type ≠ .handshake) :
    Machine.Along (step cs) (Presenting cs ⟨1, 2⟩ (anonId 2 5) [1] [2])
      (Endpoint.withToken {} [1]) [stray type 1 [], .tick ⟨0, 0⟩] := by
  refine ⟨⟨rfl, by decide, fun r hr htype' => ?_⟩, fun _ _ _ => ⟨trivial, fun _ _ _ => trivial⟩⟩
  obtain ⟨_, _, _, _, _, hevent, -, -, hopen⟩ := mem_dispatchedTo hr
  cases hevent
  exact absurd ((openPacket_type hopen).symm.trans htype') htype

/-- An online packet and a round of the reactor. -/
theorem token_undisclosed_online :
    Machine.Agree (step noCrypto) (fun out => datagrams (actionsFor (anonId 2 5) out))
      (Endpoint.withToken {} [1]) (Endpoint.withToken {} [2])
      [stray .online 1 [], .tick ⟨0, 0⟩] := by
  refine (token_undisclosed_iff noCrypto ⟨1, 2⟩ (anonId 2 5) {} (by decide) [1] [2] (by decide) _
    (presenting_stray noCrypto .online (by decide))).mpr ⟨id, fun t o hstep => ?_⟩
  obtain ⟨rfl, rfl⟩ := Prod.mk.inj (Except.ok.inj hstep)
  refine ⟨?_, fun _ _ _ => trivial⟩
  rintro ⟨peer, hpeer, hstate, -⟩
  obtain rfl := Option.some.inj hpeer
  exact absurd hstate (by decide)

/-- Any packet of a stranger, here a heartbeat, makes the next round of the reactor send it the
token. -/
theorem token_disclosed :
    ¬ ∃ cs, ∀ (addr : AddrKey) (x : Bytes) (ep : Endpoint) (token₁ token₂ : Bytes)
      (events : List Event), x ∉ ep.peers → token₁ ≠ token₂ →
        Machine.Along (step cs) (Presenting cs addr x token₁ token₂) (ep.withToken token₁) events →
          Machine.Agree (step cs) (fun out => datagrams (actionsFor x out)) (ep.withToken token₁)
            (ep.withToken token₂) events := by
  rintro ⟨cs, h⟩
  have hnew : anonId 2 5 ∉ (({} : Endpoint).peers) := by decide
  have hpresenting := presenting_stray cs PacketType.heartbeat (by decide)
  have hagree := h ⟨1, 2⟩ (anonId 2 5) {} [1] [2] _ hnew (by decide) hpresenting
  have hquiet := ((lockstep_start hnew [1] [2]).agree_iff (by decide) hpresenting).mp hagree
  exact (hquiet.2 _ _ rfl).1 ⟨_, rfl, rfl, rfl⟩

end Transport
end Damen
