import Damen.Properties.Frames

/-!
# What the handlers leave alone

Which handlers write the link state of a peer, and which of them call the application.
`dispatch_effect` sums it up: besides an accepted handshake, only an online packet or a handshake
acknowledgement takes a link up, and only data, parity and command packets lead to a message or
command callback.
-/

namespace Damen
namespace Transport

open Std (ExtTreeMap)

/-! ## Frames -/

/-- The link state is the same, and the address is as valid as before. -/
structure SameLink (peer peer' : Peer) : Prop where
  state : peer'.state = peer.state
  addrSet : peer'.addrSet = peer.addrSet

lemma SameLink.refl (peer : Peer) : SameLink peer peer := ⟨rfl, rfl⟩

lemma SameLink.trans {p q r : Peer} (h : SameLink p q) (h' : SameLink q r) : SameLink p r :=
  ⟨h'.state.trans h.state, h'.addrSet.trans h.addrSet⟩

lemma sendHandshake_sameLink (me : Local) (clock : Clock) (peer : Peer) :
    SameLink peer (sendHandshake me clock peer).1 := by
  obtain ⟨_, _, hframe⟩ := sendHandshake_frame me clock peer
  rw [hframe]
  exact ⟨rfl, rfl⟩

lemma handleHeartbeat_sameLink (bw : BandwidthEstimator) (clock : Clock) (peer : Peer)
    (header : PacketHeader) (payload : Bytes) :
    SameLink peer (handleHeartbeat bw clock peer header payload).2 := by
  obtain ⟨_, _, _, _, _, _, hframe⟩ := handleHeartbeat_frame bw clock peer header payload
  rw [hframe]
  exact ⟨rfl, rfl⟩

lemma handleProbe_sameLink (clock : Clock) (peer : Peer) (header : PacketHeader) :
    SameLink peer (handleProbe clock peer header) := by
  unfold handleProbe
  rw [Report.finalizeProbeTrain_frame]
  exact ⟨rfl, rfl⟩

lemma handleAck_sameLink (bw : BandwidthEstimator) (clock : Clock) (peer : Peer)
    (header : PacketHeader) : SameLink peer (handleAck bw clock peer header).2 := by
  obtain ⟨_, _, _, _, _, _, hframe⟩ := handleAck_frame bw clock peer header
  rw [hframe]
  exact ⟨rfl, rfl⟩

lemma reportHandle_sameLink (peer : Peer) (payload : Bytes) (now : TimePoint) :
    SameLink peer (Report.handle peer payload now).1 := by
  rw [Report.handle_frame]
  exact ⟨rfl, rfl⟩

variable {me : Local} {bw bw' : BandwidthEstimator} {clock : Clock} {peer peer' : Peer}
  {header header' : PacketHeader} {payload payload' : Bytes} {acts acts' : List Action}
  {cs : CryptoSuite}

lemma handleData_sameLink (h : handleData me bw clock peer header payload = .ok (peer', acts)) :
    SameLink peer peer' := by
  rw [handleData_frame h, Reassembler.trackSequence_frame, Reassembler.accountTransit_frame]
  exact ⟨rfl, rfl⟩

/-! ## Actions -/

/-- A message or command callback. -/
def Action.isCallback : Action → Bool
  | .message _ _ | .command _ _ => true
  | _ => false

/-- The application is called neither for a message nor for a command. -/
def Silent (acts : List Action) : Prop := ∀ a ∈ acts, a.isCallback = false

lemma silent_nil : Silent [] := fun _ h => absurd h List.not_mem_nil

lemma silent_append : Silent (acts ++ acts') ↔ Silent acts ∧ Silent acts' := by
  simp only [Silent, List.mem_append, or_imp, forall_and]

/-- Nothing is encrypted, and the application hears of link states at most. -/
def Action.isRoutine : Action → Bool
  | .enqueue _ | .probe _ | .peerEvent _ _ _ _ => true
  | _ => false

def Routine (acts : List Action) : Prop := ∀ a ∈ acts, a.isRoutine = true

lemma routine_nil : Routine [] := fun _ h => absurd h List.not_mem_nil

lemma routine_append : Routine (acts ++ acts') ↔ Routine acts ∧ Routine acts' := by
  simp only [Routine, List.mem_append, or_imp, forall_and]

lemma routine_singleton {a : Action} (h : a.isRoutine = true) : Routine [a] :=
  fun _ hb => List.mem_singleton.mp hb ▸ h

lemma Routine.silent (h : Routine acts) : Silent acts := by
  intro a ha
  have hroutine := h a ha
  cases a <;> first | rfl | exact absurd hroutine (by simp [Action.isRoutine])

lemma routine_sendRaw (peer : Peer) (datagram : Bytes) : Routine (sendRaw peer datagram) := by
  unfold sendRaw
  split
  · exact routine_singleton rfl
  · exact routine_nil

lemma routine_firePeerEvent (peer : Peer) (state : LinkState) :
    Routine (firePeerEvent peer state) := routine_singleton rfl

lemma routine_sendControl (me : Local) (clock : Clock) (peer : Peer) (type : PacketType)
    (payload : Bytes) (ackable : Bool) :
    Routine (sendControl me clock peer type payload ackable).2 := by
  unfold sendControl
  simp only
  split <;> exact routine_sendRaw _ _

lemma routine_sendHandshake (me : Local) (clock : Clock) (peer : Peer) :
    Routine (sendHandshake me clock peer).2 := routine_sendControl _ _ _ _ _ _

lemma routine_sendSpeedTest (me : Local) (clock : Clock) (peer : Peer) :
    Routine (sendSpeedTest me clock peer) := by
  unfold sendSpeedTest
  simp only
  split
  · exact routine_nil
  · split
    · exact routine_nil
    · intro a ha
      obtain ⟨n, -, rfl⟩ := List.mem_map.mp ha
      rfl

lemma routine_goOnline (me : Local) (clock : Clock) (peer : Peer) :
    Routine (goOnline me clock peer).2 :=
  routine_append.mpr ⟨routine_firePeerEvent peer .online, routine_sendSpeedTest me clock peer⟩

lemma routine_sendAckPacket (me : Local) (clock : Clock) (peer : Peer) (ack : UInt32) :
    Routine (sendAckPacket me clock peer ack) := routine_sendRaw _ _

/-- A datagram is a header with a body and their checksum.  The header is the one given, and nothing
else happens, or it is the one of the encrypted packet, and the payload is encrypted once under the
session key. -/
lemma buildWirePacket_cases {datagram : Bytes}
    (h : buildWirePacket cs me peer header payload = .ok (datagram, acts)) :
    ∃ wire body, datagram = PacketCodec.finalizeCrc (PacketCodec.encodeHeaderTo wire ++ body) ∧
      (wire = header ∧ acts = [] ∨
        wire = { header with
          flags := header.flags ||| kFlagEncrypted
          payloadSize := UInt16.ofNat (payload.length + kGcmTagSize) } ∧
        acts = [.encrypt peer.cryptoKey (buildNonce wire) (additionalData wire) payload]) := by
  unfold buildWirePacket at h
  simp only [List.append_assoc] at h
  split_ifs at h
  · obtain ⟨rfl, rfl⟩ := Prod.mk.inj (Except.ok.inj h)
    exact ⟨_, _, rfl, .inr ⟨rfl, rfl⟩⟩
  · obtain ⟨rfl, rfl⟩ := Prod.mk.inj (Except.ok.inj h)
    exact ⟨_, _, rfl, .inl ⟨rfl, rfl⟩⟩

lemma silent_buildWirePacket {datagram : Bytes}
    (h : buildWirePacket cs me peer header payload = .ok (datagram, acts)) : Silent acts := by
  obtain ⟨wire, body, -, ⟨-, rfl⟩ | ⟨-, rfl⟩⟩ := buildWirePacket_cases h
  · exact silent_nil
  · exact fun a ha => List.mem_singleton.mp ha ▸ rfl

lemma silent_resend {packets : List (PacketHeader × Bytes)}
    (h : resend cs me peer packets = .ok acts) : Silent acts := by
  induction packets generalizing acts with
  | nil =>
      cases h
      exact silent_nil
  | cons e packets ih =>
      obtain ⟨header, payload⟩ := e
      rw [resend] at h
      split at h
      · exact absurd h (by simp)
      · next hbuild =>
        split at h
        · exact absurd h (by simp)
        · next hrest =>
          rw [← Except.ok.inj h]
          exact silent_append.mpr ⟨silent_append.mpr ⟨silent_buildWirePacket hbuild,
            (routine_sendRaw peer _).silent⟩, ih hrest⟩

/-! ## Handshakes -/

/-- The token a handshake payload presents. -/
def presentedToken (encryptionEnabled : Bool) (payload : Bytes) : Option Bytes :=
  (parseHandshake encryptionEnabled payload).map HandshakeFields.token

lemma handleHandshake_reject (cs : CryptoSuite) (bw : BandwidthEstimator) (clock : Clock)
    (peer : Peer) (header : PacketHeader)
    (h : presentedToken me.config.encryptionEnabled payload ≠ some me.config.token) :
    SameLink peer (handleHandshake cs me bw clock peer header payload).1 ∧
      (handleHandshake cs me bw clock peer header payload).2 = [] := by
  unfold handleHandshake
  unfold presentedToken at h
  split
  · exact ⟨SameLink.refl peer, rfl⟩
  · next fields hparse =>
    rw [hparse] at h
    have htoken : fields.token ≠ me.config.token := fun heq => h (congrArg some heq)
    rw [if_pos htoken]
    exact ⟨⟨rfl, rfl⟩, rfl⟩

lemma routine_answerHandshake (me : Local) (clock : Clock) (peer : Peer) :
    Routine (answerHandshake me clock peer).2 := by
  have hreturn : ∀ peer, Routine (returnHandshake me clock peer).2 := by
    intro peer
    unfold returnHandshake
    split
    · exact routine_sendHandshake me clock peer
    · exact routine_nil
  have hestablish : ∀ peer, Routine (establish peer).2 := by
    intro peer
    unfold establish
    split
    · exact routine_firePeerEvent peer .established
    · exact routine_nil
  unfold answerHandshake
  simp only [routine_append]
  exact ⟨⟨hreturn _, hestablish _⟩, routine_sendControl _ _ _ _ _ _⟩

lemma routine_handleHandshake (cs : CryptoSuite) (me : Local) (bw : BandwidthEstimator)
    (clock : Clock) (peer : Peer) (header : PacketHeader) (payload : Bytes) :
    Routine (handleHandshake cs me bw clock peer header payload).2 := by
  unfold handleHandshake
  split
  · exact routine_nil
  · simp only
    split
    · exact routine_nil
    · exact routine_answerHandshake _ _ _

/-- A handshake acknowledgement takes the link online from the states of a handshake. -/
lemma handleHandshakeAck_spec (cs : CryptoSuite) (me : Local) (bw : BandwidthEstimator)
    (clock : Clock) (peer : Peer) (header : PacketHeader) (payload : Bytes) :
    (handleHandshakeAck cs me bw clock peer header payload).1.state =
        (if peer.state = .handshake ∨ peer.state = .established then .online else peer.state) ∧
      (handleHandshakeAck cs me bw clock peer header payload).1.addrSet = peer.addrSet ∧
      Routine (handleHandshakeAck cs me bw clock peer header payload).2 := by
  have hroutine : Routine (handleHandshakeAck cs me bw clock peer header payload).2 := by
    unfold handleHandshakeAck
    simp only
    split_ifs
    · exact routine_nil
    · exact routine_append.mpr ⟨routine_sendControl _ _ _ _ _ _, routine_goOnline _ _ _⟩
    · exact routine_nil
  obtain ⟨_, _, _, _, _, _, _, _, _, _, hframe⟩ :=
    handleHandshakeAck_frame cs me bw clock peer header payload
  rw [hframe]
  exact ⟨rfl, rfl, hroutine⟩

lemma handleOnline_spec (me : Local) (clock : Clock) (peer : Peer) :
    (handleOnline me clock peer).1.state = .online ∧
      (handleOnline me clock peer).1.addrSet = peer.addrSet ∧
      Routine (handleOnline me clock peer).2 := by
  unfold handleOnline
  split
  · exact ⟨rfl, rfl, routine_goOnline me clock peer⟩
  · next honline => exact ⟨not_not.mp honline, rfl, routine_nil⟩

lemma handleBye_spec (peer : Peer) :
    (handleBye peer).1.state = .closed ∧ (handleBye peer).1.addrSet = peer.addrSet ∧
      Routine (handleBye peer).2 := by
  unfold handleBye
  split
  · exact ⟨rfl, rfl, routine_firePeerEvent peer .closed⟩
  · next hclosed => exact ⟨not_not.mp hclosed, rfl, routine_nil⟩

/-! ## Dispatch -/

/-- The packet leads to the application. -/
def carriesPayload : PacketType → Bool
  | .data | .parity | .command => true
  | _ => false

lemma ok_inj {r : Peer × List Action}
    (h : (.ok (bw, r) : Except Fault _) = .ok (bw', peer', acts)) : r.1 = peer' ∧ r.2 = acts := by
  obtain ⟨-, rfl⟩ := Prod.mk.inj (Except.ok.inj h)
  exact ⟨rfl, rfl⟩

/-- The handshake presents the token of this endpoint. -/
def Accepts (me : Local) (header : PacketHeader) (payload : Bytes) : Prop :=
  header.type = .handshake ∧
    presentedToken me.config.encryptionEnabled payload = some me.config.token

instance (me : Local) (header : PacketHeader) (payload : Bytes) :
    Decidable (Accepts me header payload) :=
  inferInstanceAs (Decidable (_ ∧ _))

/-- The packet takes a link online that is closed or in its handshake. -/
def Promotes (peer : Peer) (header : PacketHeader) : Prop :=
  header.type = .online ∨
    (header.type = .handshakeAck ∧ (peer.state = .handshake ∨ peer.state = .established))

instance (peer : Peer) (header : PacketHeader) : Decidable (Promotes peer header) :=
  inferInstanceAs (Decidable (_ ∨ _))

/-- What a packet does to the link of its peer and towards the application. -/
structure Effect (me : Local) (header : PacketHeader) (payload : Bytes) (peer peer' : Peer)
    (acts : List Action) : Prop where
  /-- Unless the packet is an accepted handshake or promotes the link, it keeps the link state or
  closes the link. -/
  state : ¬ Accepts me header payload → ¬ Promotes peer header →
    peer'.state = peer.state ∨ peer'.state = .closed
  addrSet : ¬ Accepts me header payload → peer'.addrSet = peer.addrSet
  silent : carriesPayload header.type = false → Silent acts

lemma SameLink.effect (h : SameLink peer peer')
    (hsilent : carriesPayload header.type = false → Silent acts) :
    Effect me header payload peer peer' acts where
  state _ _ := Or.inl h.state
  addrSet _ := h.addrSet
  silent := hsilent

lemma dispatch_effect (h : dispatch cs me bw clock peer header payload = .ok (bw', peer', acts)) :
    Effect me header payload peer peer' acts := by
  unfold dispatch at h
  split at h
  · next htype =>
    obtain ⟨rfl, rfl⟩ := ok_inj h
    have hreject := fun haccept : ¬ Accepts me header payload =>
      (handleHandshake_reject cs bw clock peer header fun htoken => haccept ⟨htype, htoken⟩).1
    exact ⟨fun haccept _ => Or.inl (hreject haccept).state,
      fun haccept => (hreject haccept).addrSet,
      fun _ => (routine_handleHandshake _ _ _ _ _ _ _).silent⟩
  · next htype =>
    obtain ⟨rfl, rfl⟩ := ok_inj h
    obtain ⟨hstate, haddr, hroutine⟩ := handleHandshakeAck_spec cs me bw clock peer header payload
    refine ⟨fun _ hpromotes => Or.inl ?_, fun _ => haddr, fun _ => hroutine.silent⟩
    rw [hstate, if_neg fun hcase => hpromotes (Or.inr ⟨htype, hcase⟩)]
  · next htype =>
    obtain ⟨rfl, rfl⟩ := ok_inj h
    obtain ⟨-, haddr, hroutine⟩ := handleOnline_spec me clock peer
    exact ⟨fun _ hpromotes => absurd (Or.inl htype) hpromotes, fun _ => haddr,
      fun _ => hroutine.silent⟩
  · obtain ⟨rfl, rfl⟩ := ok_inj h
    exact (handleHeartbeat_sameLink bw clock peer header payload).effect fun _ => silent_nil
  · obtain ⟨rfl, rfl⟩ := ok_inj h
    obtain ⟨hstate, haddr, hroutine⟩ := handleBye_spec peer
    exact ⟨fun _ _ => Or.inr hstate, fun _ => haddr, fun _ => hroutine.silent⟩
  · next htype =>
    split at h
    · exact absurd h (by simp)
    · next hdata =>
      obtain ⟨rfl, rfl⟩ := ok_inj h
      exact (handleData_sameLink hdata).effect fun hcarries =>
        absurd hcarries (by simp [htype, carriesPayload])
  · next htype =>
    split at h
    · exact absurd h (by simp)
    · next hdata =>
      obtain ⟨rfl, rfl⟩ := ok_inj h
      exact (handleData_sameLink hdata).effect fun hcarries =>
        absurd hcarries (by simp [htype, carriesPayload])
  · obtain ⟨rfl, rfl⟩ := ok_inj h
    exact (handleAck_sameLink bw clock peer header).effect fun _ => silent_nil
  · unfold handleReport at h
    simp only at h
    split at h
    · exact absurd h (by simp)
    · next hresend =>
      obtain ⟨rfl, rfl⟩ := ok_inj h
      exact (reportHandle_sameLink peer payload clock.now).effect fun _ => silent_resend hresend
  · obtain ⟨rfl, rfl⟩ := ok_inj h
    exact (handleProbe_sameLink clock peer header).effect fun _ => silent_nil
  · next htype =>
    obtain ⟨rfl, rfl⟩ := ok_inj h
    have hframe := commandHandle_frame peer header payload (rttUs bw) clock.now
    have hstate := congrArg Peer.state hframe
    have haddr := congrArg Peer.addrSet hframe
    exact ⟨fun _ _ => Or.inl hstate, fun _ => haddr, fun hcarries =>
      absurd hcarries (by simp [htype, carriesPayload])⟩
  · obtain ⟨rfl, rfl⟩ := ok_inj h
    exact (SameLink.refl peer).effect fun _ => silent_nil

/-- A packet that promotes a link is handled, and the link is online. -/
lemma dispatch_promotes (h : Promotes peer header) :
    ∃ peer' acts, dispatch cs me bw clock peer header payload = .ok (bw, peer', acts) ∧
      peer'.state = .online := by
  unfold dispatch
  rcases h with htype | ⟨htype, hstate⟩
  · rw [htype]
    exact ⟨_, _, rfl, (handleOnline_spec me clock peer).1⟩
  · rw [htype]
    refine ⟨(handleHandshakeAck cs me bw clock peer header payload).1,
      (handleHandshakeAck cs me bw clock peer header payload).2, rfl, ?_⟩
    rw [(handleHandshakeAck_spec cs me bw clock peer header payload).1, if_pos hstate]

/-- Decryption changes two fields of the header. -/
lemma openPacket_header (h : openPacket cs peer header payload = some (header', payload')) :
    ∃ payloadSize flags, header' = { header with payloadSize, flags } := by
  unfold openPacket at h
  split at h
  · unfold decryptPayload at h
    simp only at h
    split_ifs at h
    split at h
    · exact absurd h (by simp)
    · obtain ⟨rfl, -⟩ := Prod.mk.inj (Option.some.inj h)
      exact ⟨_, _, rfl⟩
  · obtain ⟨rfl, -⟩ := Prod.mk.inj (Option.some.inj h)
    exact ⟨_, _, rfl⟩

lemma openPacket_type (h : openPacket cs peer header payload = some (header', payload')) :
    header'.type = header.type := by
  obtain ⟨payloadSize, flags, rfl⟩ := openPacket_header h
  rfl

/-- A packet is dropped, or it is dispatched and perhaps acknowledged. -/
lemma receivePacket_ok
    (h : receivePacket cs me bw clock peer header payload = .ok (bw', peer', acts)) :
    (openPacket cs peer header payload = none ∧ bw' = bw ∧ peer' = noteSender clock peer header ∧
        acts = []) ∨
      ∃ header' payload' acts', openPacket cs peer header payload = some (header', payload') ∧
        dispatch cs me bw clock (noteSender clock peer header) header' payload' =
          .ok (bw', peer', acts') ∧
        acts = if needAck header'.type then acts' ++ sendAckPacket me clock peer' header'.sequence
          else acts' := by
  unfold receivePacket at h
  simp only at h
  split at h
  · next hopen =>
    obtain ⟨rfl, hrest⟩ := Prod.mk.inj (Except.ok.inj h)
    obtain ⟨rfl, rfl⟩ := Prod.mk.inj hrest
    exact Or.inl ⟨hopen, rfl, rfl, rfl⟩
  · next header' payload' hopen =>
    split at h
    · exact absurd h (by simp)
    · next bw₁ peer₁ acts' hdispatch =>
      obtain ⟨rfl, hrest⟩ := Prod.mk.inj (Except.ok.inj h)
      obtain ⟨rfl, rfl⟩ := Prod.mk.inj hrest
      exact Or.inr ⟨header', payload', acts', hopen, hdispatch, rfl⟩

lemma receivePacket_of_dispatch
    (hopen : openPacket cs peer header payload = some (header', payload'))
    (h : dispatch cs me bw clock (noteSender clock peer header) header' payload' =
      .ok (bw', peer', acts)) :
    receivePacket cs me bw clock peer header payload = .ok (bw', peer',
      if needAck header'.type then acts ++ sendAckPacket me clock peer' header'.sequence
      else acts) := by
  have hopen' : openPacket cs (noteSender clock peer header) header payload =
      some (header', payload') := hopen
  unfold receivePacket
  simp only [hopen', h]

/-- A crypto suite that accepts no key and no ciphertext. -/
def noCrypto : CryptoSuite where
  x25519 _ _ := none
  hkdfSha256 _ _ _ := []
  aes256GcmEncrypt _ _ _ _ := ([], [])
  aes256GcmDecrypt _ _ _ _ _ := none

end Transport
end Damen
