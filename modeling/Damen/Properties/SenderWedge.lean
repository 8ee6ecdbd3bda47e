import Damen.Properties.GapTable
import Damen.Properties.OutboundFits
import Damen.Properties.Pacing

/-!
# When the sender cannot be wedged

A packet that does not fit the token bucket is never sent: `sender_loop` does not leave its loop,
and `drain_sender` keeps the packet in its slot.  `OutboundFits` shows that under `FitsBucket` no
packet of this kind gets into the outbound queue.  Here the conditions of `FitsBucket` are shown to
be needed, with one run for each: `connect` enqueues the handshake; a peer that completes the key
exchange and then reports the handshake as lost gets it again with a tag; and a peer whose packets
leave 256 gaps gets a report of full length.
-/

namespace Damen
namespace Transport
namespace Impl

open Std (ExtTreeMap)

variable {cs : CryptoSuite} {me : Local} {s s' : Impl}

/-! ## Appending packets -/

/-- The outbound queue takes this many packets more. -/
structure Room (s : Impl) (n : ℕ) : Prop where
  opened : s.outbound.queue.closed = false
  room : s.outbound.queue.items.length + n ≤ s.outbound.queue.capacity

lemma Room.mono {m n : ℕ} (h : Room s n) (hle : m ≤ n) : Room s m :=
  ⟨h.opened, by have := h.room; omega⟩

lemma Room.perform {n : ℕ} (h : Room s (n + 1)) (ref : Ref) (act : Action) :
    Room (s.perform ref act) n ∧
      s.outbound.queue.items ⊆ (s.perform ref act).outbound.queue.items ∧
      ∀ datagram, act = .enqueue datagram →
        ∃ packet ∈ (s.perform ref act).outbound.queue.items, packet.item = datagram := by
  have hroom := h.room
  cases act with
  | enqueue datagram =>
      have haccepts : s.outbound.queue.refuses = false := by
        unfold BlockingQueue.refuses
        rw [h.opened, Bool.false_or, decide_eq_false_iff_not]
        omega
      have hqueue : (s.perform ref (.enqueue datagram)).outbound.queue =
          { s.outbound.queue with items := s.outbound.queue.items ++ [⟨ref, datagram⟩] } := by
        simp only [Impl.perform, Outbound.push, BlockingQueue.tryPush, haccepts,
          Bool.false_eq_true, if_false]
      refine ⟨⟨?_, ?_⟩, ?_, ?_⟩
      · rw [hqueue]
        exact h.opened
      · rw [hqueue]
        show (s.outbound.queue.items ++ [_]).length + n ≤ s.outbound.queue.capacity
        rw [List.length_append, List.length_singleton]
        omega
      · rw [hqueue]
        exact List.subset_append_left _ _
      · rintro d ⟨rfl⟩
        rw [hqueue]
        exact ⟨_, List.mem_append_right _ List.mem_cons_self, rfl⟩
  | probe _ | encrypt _ _ _ _ | message _ _ | command _ _ | peerEvent _ _ _ _ =>
      exact ⟨h.mono (Nat.le_succ n), List.Subset.refl _, fun _ hd => absurd hd (by simp)⟩

lemma Room.performAll {n : ℕ} {out : Outputs} (h : Room s (n + out.length)) :
    Room (s.performAll out) n ∧
      s.outbound.queue.items ⊆ (s.performAll out).outbound.queue.items ∧
      ∀ e ∈ out, ∀ datagram, e.2 = .enqueue datagram →
        ∃ packet ∈ (s.performAll out).outbound.queue.items, packet.item = datagram := by
  induction out generalizing s with
  | nil => exact ⟨h, List.Subset.refl _, fun e he => absurd he List.not_mem_nil⟩
  | cons e out ih =>
      obtain ⟨hroom, hkept, hnew⟩ := h.perform (s.ref e.1) e.2
      obtain ⟨hroom, hrest, hout⟩ := ih hroom
      refine ⟨hroom, List.Subset.trans hkept hrest, fun e' he' datagram henqueue => ?_⟩
      rcases List.mem_cons.mp he' with rfl | he'
      · obtain ⟨packet, hpacket, hitem⟩ := hnew datagram henqueue
        exact ⟨packet, hrest hpacket, hitem⟩
      · exact hout e' he' datagram henqueue

variable {acts : List Action} {header : PacketHeader}

/-- A thread goes on with the answers it has in hand. -/
lemma reaches_outputs (hroom : Room s acts.length) {ref : Ref} (hlive : s.Live ref) {i : ℕ}
    (hhand : s.hands[i]? = some ⟨ref, .outputs acts⟩) :
    ∃ s', Machine.Reaches (step cs) s s' ∧ s.outbound.queue.items ⊆ s'.outbound.queue.items ∧
      ∀ datagram ∈ enqueued acts, ∃ packet ∈ s'.outbound.queue.items, packet.item = datagram := by
  induction acts generalizing s with
  | nil => exact ⟨s, .refl s, List.Subset.refl _, fun _ hd => absurd hd List.not_mem_nil⟩
  | cons act acts ih =>
      obtain ⟨hroom', hkept, hnew⟩ := hroom.perform ref act
      have hsame : Pushed s.Live s (s.perform ref act) := perform_pushed s hlive act
      let t : Impl := { s.perform ref act with
        hands := (s.perform ref act).hands.set i ⟨ref, .outputs acts⟩
        steps := (s.perform ref act).steps + 1 }
      have hstep : step cs s (.advance i ⟨0, 0⟩ []) = .ok (t, ()) := by
        rw [step, move]
        simp only [hhand, hlive, not_true_eq_false, if_false, Impl.advance]
        rfl
      have hhands : (s.perform ref act).hands = s.hands := by cases act <;> rfl
      have hhand' : t.hands[i]? = some ⟨ref, .outputs acts⟩ := by
        show ((s.perform ref act).hands.set i ⟨ref, .outputs acts⟩)[i]? = _
        rw [hhands, List.getElem?_set_self (List.getElem?_eq_some_iff.mp hhand).1]
      obtain ⟨s', hreaches, hrest, hout⟩ :=
        @ih t ⟨hroom'.opened, hroom'.room⟩ (hsame.live.mpr hlive) hhand'
      refine ⟨s', (Machine.Reaches.single hstep).trans hreaches, List.Subset.trans hkept hrest,
        fun d hd => ?_⟩
      rcases List.mem_cons.mp (mem_enqueued.mp hd) with heq | hd
      · obtain ⟨packet, hpacket, hitem⟩ := hnew d heq.symm
        exact ⟨packet, hrest hpacket, hitem⟩
      · exact hout d (mem_enqueued.mpr hd)

/-! ## Handling packets -/

/-- A packet is received and handled; the answers stay in the hand of the thread. -/
lemma reaches_packet (hborn : Born s) {addr : AddrKey} {payload : Bytes} {clock : Clock}
    {random : UInt64} {ep : Endpoint} {out : Outputs}
    (h : handlePacket cs s.ep addr header payload clock random = .ok (ep, out)) :
    ∃ s' ref acts, Machine.Reaches (step cs) s s' ∧ Born s' ∧ s'.ep = ep ∧
      s'.outbound = s.outbound ∧
      out = outputsOf ref.key acts ∧ s'.Live ref ∧
        s'.hands = s.hands ++ [⟨ref, .outputs acts⟩] := by
  have hkey := (findOrCreatePeerByAddr_spec s.ep addr clock.now random).1
  have hmem := mem_findOrCreate s.ep addr clock.now random
  rw [← hkey] at hmem
  unfold handlePacket at h
  generalize hfound : findOrCreatePeerByAddr s.ep addr clock.now random = found at h hmem
  obtain ⟨ep₁, key⟩ := found
  simp only at h hmem
  split at h
  · exact absurd h (by simp)
  · next bandwidth peer acts hreceive =>
    let mid := s.withEndpoint ep₁
    let ref := mid.ref key
    let t : Impl :=
      { mid with hands := s.hands ++ [⟨ref, .packet header payload⟩], steps := s.steps + 1 }
    have hfirst : step cs s (.receive addr header payload clock random) = .ok (t, ()) := by
      rw [step, move, hfound]
      rfl
    have hlive : t.Live ref := live_ref (withEndpoint_born s ep₁) hmem
    have hhand : t.hands[s.hands.length]? = some ⟨ref, .packet header payload⟩ :=
      List.getElem?_concat_length
    let u : Impl := { t with
      ep := { ep₁ with bandwidth, peers := ep₁.peers.insert key peer }
      hands := t.hands.set s.hands.length ⟨ref, .outputs acts⟩
      steps := t.steps + 1 }
    have hsecond : step cs t (.advance s.hands.length clock []) = .ok (u, ()) := by
      have hadvance : receivePacket cs t.ep.toLocal t.ep.bandwidth clock
          (t.ep.peers.getD ref.key {}) header
          payload = .ok (bandwidth, peer, acts) := hreceive
      rw [step, move]
      simp only [hhand, hlive, not_true_eq_false, if_false, Impl.advance, hadvance]
      rfl
    obtain ⟨hep, hout⟩ := Prod.mk.inj (Except.ok.inj h)
    refine ⟨u, ref, acts, (Machine.Reaches.single hfirst).trans (Machine.Reaches.single hsecond),
      step_born (step_born hborn hfirst) hsecond, hep, rfl, hout.symm, ?_, ?_⟩
    · exact ⟨ExtTreeMap.mem_insert_self, hlive.2⟩
    · show (s.hands ++ [_]).set s.hands.length _ = _
      rw [List.set_append_right _ _ (le_refl _), Nat.sub_self]
      rfl

/-- The same for the handler, and what is known of the peers afterwards. -/
lemma reaches_receive (hborn : Born s) {addr : AddrKey} {payload : Bytes} {clock : Clock}
    {random : UInt64} {bw : BandwidthEstimator} {peer : Peer}
    (h : receivePacket cs s.ep.toLocal s.ep.bandwidth clock (peerFor s.ep addr clock.now random)
      header payload = .ok (bw, peer, acts)) :
    ∃ s' ref, Machine.Reaches (step cs) s s' ∧ Born s' ∧ s'.ep.toLocal = s.ep.toLocal ∧
      s'.outbound = s.outbound ∧ s'.ep.peerByAddr[addr]? = some (peerKey s.ep addr random) ∧
      (∀ x, s'.ep.peers[x]? = if x = peerKey s.ep addr random then some peer else s.ep.peers[x]?) ∧
      s'.Live ref ∧ s'.hands = s.hands ++ [⟨ref, .outputs acts⟩] := by
  obtain ⟨ep', out, hhandle, -⟩ := handlePacket_of_receive h
  obtain ⟨peer', acts', hreceive, hself, hpeers, haddr, hout⟩ := handlePacket_ok hhandle
  obtain ⟨-, hanswer⟩ := Prod.mk.inj (Except.ok.inj (hreceive.symm.trans h))
  obtain ⟨rfl, rfl⟩ := Prod.mk.inj hanswer
  obtain ⟨s', ref, acts, hreaches, hborn', rfl, houtbound, hout', hlive, hhands⟩ :=
    reaches_packet hborn hhandle
  have hacts : acts = acts' := by
    have hboth := congrArg (List.map Prod.snd) (hout'.symm.trans hout)
    simpa [outputsOf, Function.comp_def] using hboth
  refine ⟨s', ref, hreaches, hborn', hself, houtbound, ?_, hpeers, hlive, hacts ▸ hhands⟩
  rw [haddr]
  split
  · next hknown =>
    obtain ⟨key, hkey, hmem⟩ := hknown
    rw [hkey, peerKey, hkey]
    exact congrArg some (if_pos hmem).symm
  · rw [OrderedMap.getElem?_insert, if_pos rfl]

/-- The transport has one peer, at this address, and the outbound queue has room. -/
structure Meets (me : Local) (addr : AddrKey) (key : Bytes) (peer : Peer) (s : Impl) : Prop where
  self : s.ep.toLocal = me
  born : Born s
  addr : s.ep.peerByAddr[addr]? = some key
  peers : ∀ x, s.ep.peers[x]? = if x = key then some peer else none
  room : Room s 2

section

variable {addr : AddrKey} {key : Bytes} {peer peer' : Peer} {header : PacketHeader}
  {payload : Bytes} {clock : Clock} {bw : BandwidthEstimator} {acts : List Action}

lemma Meets.packet (h : Meets me addr key peer s)
    (hreceive : receivePacket cs me s.ep.bandwidth clock peer header payload =
      .ok (bw, peer', acts)) :
    ∃ s' ref, Machine.Reaches (step cs) s s' ∧ Meets me addr key peer' s' ∧ s'.Live ref ∧
      s'.hands = s.hands ++ [⟨ref, .outputs acts⟩] := by
  have hpeer : s.ep.peers[key]? = some peer := (h.peers key).trans (if_pos rfl)
  have hmem : key ∈ s.ep.peers := of_getElem?_eq_some hpeer
  have hkey : peerKey s.ep addr 0 = key := by
    rw [peerKey, h.addr]
    exact if_pos hmem
  have hfor : peerFor s.ep addr clock.now 0 = peer := by
    have hknown := peerFor_of_known ⟨key, h.addr, hmem⟩ clock.now 0
    rw [hkey, hpeer] at hknown
    exact (Option.some.inj hknown).symm
  rw [← h.self, ← hfor] at hreceive
  obtain ⟨s', ref, hreaches, hborn, hself, houtbound, haddr, hpeers, hlive, hhands⟩ :=
    reaches_receive h.born hreceive
  rw [hkey] at haddr hpeers
  refine ⟨s', ref, hreaches, ⟨hself.trans h.self, hborn, haddr, fun x => ?_, ?_⟩, hlive, hhands⟩
  · rw [hpeers, h.peers]
    split <;> rfl
  · obtain ⟨hopened, hroom⟩ := h.room
    rw [← houtbound] at hopened hroom
    exact ⟨hopened, hroom⟩

/-- The answers to a packet reach the outbound queue. -/
lemma Meets.answers (h : Meets me addr key peer s)
    (hreceive : receivePacket cs me s.ep.bandwidth clock peer header payload =
      .ok (bw, peer', acts))
    (hacts : acts.length ≤ 2) :
    ∃ s', Machine.Reaches (step cs) s s' ∧
      ∀ datagram ∈ enqueued acts, ∃ packet ∈ s'.outbound.queue.items, packet.item = datagram := by
  obtain ⟨t, ref, hreaches, ht, hlive, hhands⟩ := h.packet hreceive
  have hhand : t.hands[s.hands.length]? = some ⟨ref, .outputs acts⟩ := by
    rw [hhands]
    exact List.getElem?_concat_length
  obtain ⟨s', hreaches', -, hout⟩ := reaches_outputs (ht.room.mono hacts) hlive hhand
  exact ⟨s', hreaches.trans hreaches', hout⟩

lemma Fresh.room (h : Fresh me s) : Room s 3 := by
  constructor <;> rw [h.outbound]
  exact (by decide : 0 + 3 ≤ 65536)

lemma Fresh.born (h : Fresh me s) : Born s := fun key hkey => by simp [h.peers] at hkey

/-- The first packet from an address. -/
lemma Fresh.packet (h : Fresh me s) {random : UInt64}
    (hreceive : receivePacket cs me s.ep.bandwidth clock
      (anonymous me.config {} (anonId addr.port random) addr clock.now) header payload =
      .ok (bw, peer, acts)) :
    ∃ s', Machine.Reaches (step cs) s s' ∧ Meets me addr (anonId addr.port random) peer s' := by
  have hunknown : ¬ Known s.ep addr := by
    rintro ⟨key, hkey, -⟩
    simp [h.peerByAddr] at hkey
  have hkey := peerKey_of_not_known hunknown random
  have hfor : peerFor s.ep addr clock.now random =
      anonymous me.config {} (anonId addr.port random) addr clock.now := by
    rw [peerFor]
    simp only [if_neg hunknown, hkey, h.peers, ← h.self]
    rfl
  rw [← hfor, ← h.self] at hreceive
  obtain ⟨s', ref, hreaches, hborn, hself, houtbound, haddr, hpeers, -, -⟩ :=
    reaches_receive h.born hreceive
  rw [hkey] at haddr hpeers
  refine ⟨s', hreaches, hself.trans h.self, hborn, haddr, fun x => ?_, ?_⟩
  · rw [hpeers, h.peers]
    split
    · rfl
    · simp
  · obtain ⟨hopened, hroom⟩ := h.room.mono (Nat.le_succ 2)
    rw [← houtbound] at hopened hroom
    exact ⟨hopened, hroom⟩

/-! ## The handshake -/

/-- The peer that `connect` creates. -/
def dialed (config : TightConfig) (id : Bytes) (addr : AddrKey) (clock : Clock) : Peer :=
  { id
    addr
    addrSet := true
    role := .node
    reconnect := true
    retransmit := config.retransmitEnabled
    state := .handshake
    lastHandshakeSent := clock.now - oneHour }

lemma Fresh.connect_eq (h : Fresh me s) (id : Bytes) (addr : AddrKey) (clock : Clock) :
    connect s.ep id addr clock =
      ({ s.ep with
          peers := s.ep.peers.insert id (sendHandshake me clock (dialed me.config id addr clock)).1
          peerByAddr := s.ep.peerByAddr.insert addr id },
        outputsOf id (sendHandshake me clock (dialed me.config id addr clock)).2) := by
  have haddr : s.ep.peerByAddr[addr]? = none := by simp [h.peerByAddr]
  have hpeer : s.ep.peers.getD id {} = {} := by simp [h.peers]
  unfold connect
  simp only [haddr, hpeer, h.self]
  rfl

lemma Fresh.connect (h : Fresh me s) (id : Bytes) (addr : AddrKey) (clock : Clock) :
    ∃ s', Machine.Reaches (step cs) s s' ∧
      Meets me addr id (sendHandshake me clock (dialed me.config id addr clock)).1 s' ∧
      ∃ packet ∈ s'.outbound.queue.items, packet.item.length =
        kHeaderSize + (handshakePayload me).length := by
  obtain ⟨datagram, hout, hlength⟩ : ∃ datagram,
      (sendHandshake me clock (dialed me.config id addr clock)).2 = [.enqueue datagram] ∧
        datagram.length = kHeaderSize + (handshakePayload me).length :=
    ⟨_, rfl, PacketCodec.length_encode _ _⟩
  have hpushed := connect_pushed s id addr clock
  have hborn := hpushed.born (withEndpoint_born s _)
  have hroom : Room (s.withEndpoint (Transport.connect s.ep id addr clock).1)
      (2 + (Transport.connect s.ep id addr clock).2.length) := by
    rw [h.connect_eq, hout]
    exact ⟨h.room.opened, h.room.room⟩
  obtain ⟨hroom', -, hnew⟩ := hroom.performAll
  let t := (s.withEndpoint (Transport.connect s.ep id addr clock).1).performAll
    (Transport.connect s.ep id addr clock).2
  have hstep : step cs s (.connect id addr clock) = .ok ({ t with steps := t.steps + 1 }, ()) := rfl
  have hep : t.ep = (Transport.connect s.ep id addr clock).1 := hpushed.ep
  refine ⟨_, .single hstep, ⟨?_, hborn, ?_, fun x => ?_, ⟨hroom'.opened, hroom'.room⟩⟩, ?_⟩
  · show t.ep.toLocal = me
    rw [hep, h.connect_eq]
    exact h.self
  · show t.ep.peerByAddr[addr]? = some id
    rw [hep, connect_peerByAddr, if_pos rfl]
  · show t.ep.peers[x]? = _
    rw [hep, h.connect_eq, OrderedMap.getElem?_insert, h.peers]
    simp
  · have hmem : (id, Action.enqueue datagram) ∈ (Transport.connect s.ep id addr clock).2 := by
      rw [h.connect_eq, hout]
      exact List.mem_cons_self
    obtain ⟨packet, hpacket, rfl⟩ := hnew _ hmem datagram rfl
    exact ⟨packet, hpacket, hlength⟩

/-- The handshake stays in the retransmission buffer, under the first sequence. -/
lemma pending_dialed (me : Local) (id : Bytes) (addr : AddrKey) (clock : Clock) :
    ∃ ps, (sendHandshake me clock (dialed me.config id addr clock)).1.pending[(1 : UInt32)]? =
      some ps ∧
      ps.payload = handshakePayload me ∧ ps.header.payloadSize = UInt16.ofNat ps.payload.length ∧
      ps.retries = 0 := by
  let dialing : Peer := { dialed me.config id addr clock with lastHandshakeSent := clock.now }
  let header := Outgoing.controlHeader me clock dialing .handshake (handshakePayload me)
  have hpending : (sendHandshake me clock (dialed me.config id addr clock)).1.pending =
      dialing.pending.insert 1 { dialing.pending.getD 1 {} with
        header
        payload := handshakePayload me
        lastSend := clock.now
        bytes := (PacketCodec.encode header (handshakePayload me)).length } := rfl
  rw [hpending, OrderedMap.getElem?_insert, if_pos rfl]
  exact ⟨_, rfl, rfl, rfl, rfl⟩

/-! ## The handshake under a session key -/

/-- A packet that is not marked as encrypted. -/
lemma receivePacket_plain (hplain : header.flags &&& kFlagEncrypted = 0) {bw' : BandwidthEstimator}
    (h : dispatch cs me bw clock (noteSender clock peer header) header payload =
      .ok (bw', peer', acts)) :
    receivePacket cs me bw clock peer header payload = .ok (bw', peer',
      if needAck header.type then acts ++ sendAckPacket me clock peer' header.sequence
      else acts) :=
  receivePacket_of_dispatch (if_neg (not_not.mpr hplain)) h

/-- The acknowledgement of a handshake, with a public key. -/
lemma receive_handshakeAck (cs : CryptoSuite) (bw : BandwidthEstimator) (clock : Clock)
    (hencryption : me.config.encryptionEnabled = true) (hstate : peer.state = .handshake)
    {pub shared : Bytes}
    (hpub : pub.length = 32) (hshared : cs.x25519 me.keypair.privateKey pub = some shared) :
    ∃ peer' acts,
      receivePacket cs me bw clock peer { type := .handshakeAck } (pub ++ [0]) =
        .ok (bw, peer', acts) ∧
        peer'.cryptoReady = true ∧ peer'.addrSet = peer.addrSet ∧
        ∀ seq, seq ≠ peer.sequenceOut → peer'.pending[seq]? = peer.pending[seq]? := by
  have hread : ∀ p : Peer, ∃ flag key,
      readAckTail cs me p { type := .handshakeAck } (pub ++ [0]) =
        { p with peerRetransmit := flag, cryptoKey := key, cryptoReady := true } := by
    intro p
    have htail : (pub ++ [(0 : UInt8)]).length - 1 = 32 := by
      rw [List.length_append, hpub]
      rfl
    have htake : ((pub ++ [(0 : UInt8)]).drop (32 - 32)).take 32 = pub := by
      rw [Nat.sub_self, List.drop_zero, ← hpub, List.take_left]
    unfold readAckTail
    simp only [List.append_eq_nil_iff, List.cons_ne_nil, and_false, if_false, htail, hencryption,
      le_refl, and_self, if_true, htake, deriveSessionKey, hshared]
    exact ⟨_, _, rfl⟩
  obtain ⟨flag, key, hread⟩ :=
    hread (CommandChannel.reset (noteSender clock peer { type := .handshakeAck }))
  have hsync : ∀ p : Peer, syncClock bw p 0 clock.unixMillis = p := fun p => if_pos rfl
  have hhandle : ∃ peer' acts,
      handleHandshakeAck cs me bw clock (noteSender clock peer { type := .handshakeAck })
        { type := .handshakeAck } (pub ++ [0]) = (peer', acts) ∧
      peer'.cryptoReady = true ∧ peer'.addrSet = peer.addrSet ∧
      ∀ seq, seq ≠ peer.sequenceOut → peer'.pending[seq]? = peer.pending[seq]? := by
    have hnoted :
        (CommandChannel.reset (noteSender clock peer { type := .handshakeAck })).state =
          .handshake := hstate
    unfold handleHandshakeAck
    simp only [hsync, hread]
    rw [if_neg (by rw [hnoted]; simp), if_pos (Or.inl hnoted)]
    refine ⟨_, _, rfl, rfl, rfl, fun seq hseq => ?_⟩
    show (ExtTreeMap.insert peer.pending peer.sequenceOut _)[seq]? = _
    rw [OrderedMap.getElem?_insert, if_neg hseq]
  obtain ⟨peer', acts, hhandle, hafter⟩ := hhandle
  have hdispatch : dispatch cs me bw clock (noteSender clock peer { type := .handshakeAck })
      { type := .handshakeAck } (pub ++ [0]) = .ok (bw, peer', acts) :=
    congrArg (fun r => Except.ok (bw, r)) hhandle
  exact ⟨peer', _, receivePacket_plain rfl hdispatch, hafter⟩

/-- A report that lists the first sequence. -/
def lostFirst : Bytes := [0, 0, 0, 0, 0, 0, 0, 1, 0, 0, 0, 0, 0, 0, 0, 1]

lemma resentBy_lostFirst {ps : PendingSend} (hps : peer.pending[(1 : UInt32)]? = some ps)
    (hretries : ps.retries = 0) : Report.resentBy peer lostFirst = [(1, ps)] := by
  have hlisted : Report.listedLost lostFirst = [1] := by decide
  have hmem : ∀ e : UInt32 × PendingSend, e ∈ Report.resentBy peer lostFirst ↔ e = (1, ps) := by
    rintro ⟨k, ps'⟩
    rw [Report.mem_resentBy, hlisted, List.mem_singleton]
    constructor
    · rintro ⟨hps', -, rfl⟩
      exact Prod.ext rfl (Option.some.inj (hps'.symm.trans hps))
    · rintro ⟨rfl, rfl⟩
      refine ⟨hps, ?_, rfl⟩
      rintro (⟨-, hnot⟩ | hmax)
      · exact hnot (hlisted ▸ List.mem_cons_self)
      · rw [hretries] at hmax
        exact absurd hmax (by decide)
  have hnodup := List.Nodup.of_map Prod.fst (Report.nodup_resentBy peer lostFirst)
  refine List.perm_singleton.mp
    ((List.perm_ext_iff_of_nodup hnodup (List.nodup_singleton _)).mpr fun e => ?_)
  rw [hmem, List.mem_singleton]

lemma length_acts_of_build {datagram : Bytes}
    (h : buildWirePacket cs me peer header payload = .ok (datagram, acts)) : acts.length ≤ 1 := by
  obtain ⟨wire, body, -, ⟨-, rfl⟩ | ⟨-, rfl⟩⟩ := buildWirePacket_cases h
  · exact Nat.zero_le 1
  · exact le_refl 1

/-- The handshake is sent again with a tag. -/
lemma receive_lostFirst (x25519 : Bytes → Bytes → Option Bytes)
    (hkdfSha256 : Bytes → Bytes → Bytes → Bytes)
    (bw : BandwidthEstimator) (clock : Clock) (hencryption : me.config.encryptionEnabled = true)
    (hready : peer.cryptoReady = true) (haddr : peer.addrSet = true) {ps : PendingSend}
    (hps : peer.pending[(1 : UInt32)]? = some ps) (hretries : ps.retries = 0)
    (hsize : ps.header.payloadSize = UInt16.ofNat ps.payload.length)
    (hfits : ps.payload.length + kGcmTagSize ≤ 65535) :
    ∃ bw' peer' acts datagram,
      receivePacket (.ofGcm x25519 hkdfSha256) me bw clock peer { type := .report } lostFirst =
          .ok (bw', peer', acts) ∧
        acts.length ≤ 2 ∧ datagram ∈ enqueued acts ∧
        datagram.length = kHeaderSize + ps.payload.length + kGcmTagSize := by
  let noted := noteSender clock peer { type := .report }
  let handled := (Report.handle noted lostFirst clock.now).1
  have hpackets : (Report.handle noted lostFirst clock.now).2.2 = [(ps.header, ps.payload)] := by
    have hnoted : noted.pending[(1 : UInt32)]? = some ps := hps
    rw [Report.handle_resent, resentBy_lostFirst hnoted hretries]
    rfl
  have hframe : handled.cryptoReady = true ∧ handled.addrSet = true := by
    show (Report.handle noted lostFirst clock.now).1.cryptoReady = true ∧ _
    rw [Report.handle_frame]
    exact ⟨hready, haddr⟩
  have htag : tagSize me handled = kGcmTagSize := by
    rw [tagSize, hencryption, hframe.1]
    rfl
  obtain ⟨datagram, out, hbuild, hlength⟩ :=
    exists_buildWirePacket x25519 hkdfSha256 hsize (by rw [htag]; exact hfits)
  have hresend : resend (.ofGcm x25519 hkdfSha256) me handled [(ps.header, ps.payload)] =
      .ok (out ++ [.enqueue datagram]) := by
    have hsend : sendRaw handled datagram = [.enqueue datagram] := if_pos hframe.2
    rw [resend, hbuild, resend]
    simp only [hsend, List.append_nil]
  have hdispatch : ∃ bw',
      dispatch (.ofGcm x25519 hkdfSha256) me bw clock noted { type := .report } lostFirst =
      .ok (bw', handled, out ++ [.enqueue datagram]) := by
    show ∃ bw',
        handleReport (.ofGcm x25519 hkdfSha256) me bw clock noted { type := .report } lostFirst = _
    unfold handleReport
    simp only [hpackets]
    exact ⟨_, by rw [hresend]⟩
  obtain ⟨bw', hdispatch⟩ := hdispatch
  refine ⟨bw', handled, _, datagram, receivePacket_plain rfl hdispatch, ?_, ?_, htag ▸ hlength⟩
  · have hout := length_acts_of_build hbuild
    rw [if_neg (by decide), List.length_append, List.length_singleton]
    omega
  · exact mem_enqueued.mpr (List.mem_append_right _ List.mem_cons_self)

/-! ## A report of full length -/

lemma receive_online (bw : BandwidthEstimator) (hstate : peer.state ≠ .online) :
    ∃ acts, receivePacket cs me bw clock peer { type := .online } [] =
      .ok (bw, { noteSender clock peer { type := .online } with state := .online }, acts) := by
  have hnoted : (noteSender clock peer { type := .online }).state ≠ .online := hstate
  have hdispatch : dispatch cs me bw clock (noteSender clock peer { type := .online })
    { type := .online } [] =
      .ok (bw, goOnline me clock (noteSender clock peer { type := .online })) :=
    congrArg (fun r => Except.ok (bw, r)) (if_pos hnoted)
  exact ⟨_, receivePacket_plain rfl hdispatch⟩

/-- A heartbeat with a round-trip time from which the product of the loss threshold wraps to `6`. -/
lemma receive_heartbeat (bw : BandwidthEstimator) (clock : Clock) (peer : Peer) :
    ∃ bw', receivePacket cs me bw clock peer { type := .heartbeat } [0x49, 0x24, 0x92, 0x4A] =
      .ok (bw', { noteSender clock peer { type := .heartbeat } with senderRttUs := 1227133514 },
        []) :=
  ⟨_, receivePacket_plain rfl rfl⟩

/-- A data packet that belongs to no message is still tracked. -/
lemma receive_data (bw : BandwidthEstimator) (clock : Clock) (peer : Peer) (seq : UInt32) :
    receivePacket cs me bw clock peer { type := .data, sequence := seq } [] =
      .ok (bw,
        Reassembler.trackSequence (noteSender clock peer { type := .data, sequence := seq })
        seq clock.now, []) := by
  have htransit : ∀ p : Peer, transitTimeUs p 0 clock.unixMillis = -1 :=
    fun p => if_pos (Or.inr rfl)
  have haccount : ∀ (p : Peer) (rtt : UInt32) (late : Float),
      Reassembler.accountTransit p (-1) rtt late = p :=
    fun p rtt late => if_pos (by decide)
  have hcollect : ∀ (p : Peer) (limit : ℕ),
      Reassembler.collect p { type := .data, sequence := seq } [] limit clock.now = .ok (p, none) :=
    fun p limit => if_pos fun hadmitted => hadmitted.1 rfl
  refine receivePacket_plain UInt16.zero_and ?_
  simp only [dispatch, handleData, Reassembler.handleData, htransit, haccount, hcollect]

/-- The gaps that two packets leave, the second with sequence 258. -/
def gaps (now : TimePoint) : ExtTreeMap UInt32 TimePoint := Reassembler.noteGaps ∅ ∅ 2 258 now

lemma size_gaps (now : TimePoint) : (gaps now).size = 256 := by
  have hsize := Tracking.size_noteGaps { nextExpectedSeq := 2 } 258 now
  have hempty : (∅ : ExtTreeMap UInt32 TimePoint).size = 0 := rfl
  rw [gaps]
  refine hsize.trans ?_
  rw [Tracking.newGaps]
  simp

lemma since_of_gaps {now since : TimePoint} {seq : UInt32} (h : (gaps now)[seq]? = some since) :
    since = now := by
  have hfold : ∀ (l : List ℕ) (m : ExtTreeMap UInt32 TimePoint),
      (∀ (seq : UInt32) (since : TimePoint), m[seq]? = some since → since = now) →
      ∀ (seq : UInt32) (since : TimePoint),
      (l.foldl (fun m g => if UInt32.ofNat g ∈ (∅ : Std.ExtTreeSet UInt32) then m
        else m.insertIfNew (UInt32.ofNat g) now) m)[seq]? = some since → since = now := by
    intro l
    induction l with
    | nil => exact fun m hm => hm
    | cons g l ih =>
        intro m hm
        refine ih _ fun seq since hsince => ?_
        simp only at hsince
        split at hsince
        · exact hm seq since hsince
        · rw [ExtTreeMap.getElem?_insertIfNew] at hsince
          split at hsince
          · exact (Option.some.inj hsince).symm
          · exact hm seq since hsince
  exact hfold _ ∅ (fun seq since hsince => by simp at hsince) seq since h

/-- A peer that is online and has no gaps, with what the tracking of sequences has seen. -/
structure Watched (me : Local) (rtt : UInt32) (tracked : Bool) (next : UInt32) (peer : Peer) :
    Prop where
  state : peer.state = .online
  addrSet : peer.addrSet = true
  retransmit : peer.retransmit = me.config.retransmitEnabled
  peerRetransmit : peer.peerRetransmit = true
  senderRttUs : peer.senderRttUs = rtt
  lastReportSent : peer.lastReportSent = 0
  seqInitialized : peer.seqInitialized = tracked
  nextExpectedSeq : peer.nextExpectedSeq = next
  missingSeqs : peer.missingSeqs = ∅
  recvSeqs : peer.recvSeqs = ∅

/-- The peer has left the gaps, and nothing was reported to it yet. -/
structure Gapped (me : Local) (now : TimePoint) (peer : Peer) : Prop where
  state : peer.state = .online
  addrSet : peer.addrSet = true
  retransmit : peer.retransmit = me.config.retransmitEnabled
  peerRetransmit : peer.peerRetransmit = true
  senderRttUs : peer.senderRttUs = 1227133514
  lastReportSent : peer.lastReportSent = 0
  missingSeqs : peer.missingSeqs = gaps now

lemma Watched.first {rtt next : UInt32} (h : Watched me rtt false next peer) (now : TimePoint) :
    Watched me rtt true 2 (Reassembler.trackSequence peer 1 now) := by
  rw [Reassembler.trackSequence, if_neg (by decide), if_pos (by rw [h.seqInitialized]; decide)]
  exact ⟨h.state, h.addrSet, h.retransmit, h.peerRetransmit, h.senderRttUs,
    h.lastReportSent, rfl, rfl, h.missingSeqs, h.recvSeqs⟩

lemma Watched.second (h : Watched me 1227133514 true 2 peer) (now : TimePoint) :
    Gapped me now (Reassembler.trackSequence peer 258 now) := by
  rw [Reassembler.trackSequence, if_neg (by decide), if_neg (by rw [h.seqInitialized]; decide),
    if_pos (by rw [h.nextExpectedSeq]; decide)]
  obtain ⟨recv, next⟩ := Damen.advance (peer.recvSeqs.insert 258) peer.nextExpectedSeq
  refine ⟨h.state, h.addrSet, h.retransmit, h.peerRetransmit, h.senderRttUs, h.lastReportSent, ?_⟩
  simp only [h.missingSeqs, h.recvSeqs, h.nextExpectedSeq, gaps]

lemma Watched.noted {rtt next : UInt32} {tracked : Bool} (h : Watched me rtt tracked next peer)
    (clock : Clock)
    (header : PacketHeader) : Watched me rtt tracked next (noteSender clock peer header) :=
  ⟨h.state, h.addrSet, h.retransmit, h.peerRetransmit, h.senderRttUs, h.lastReportSent,
    h.seqInitialized, h.nextExpectedSeq, h.missingSeqs, h.recvSeqs⟩

lemma Fresh.watched (h : Fresh me s) (addr : AddrKey) (clock : Clock) (random : UInt64) :
    ∃ s' peer, Machine.Reaches (step cs) s s' ∧ Meets me addr (anonId addr.port random) peer s' ∧
      Watched me 0 false 0 peer := by
  have hstate : (anonymous me.config {} (anonId addr.port random) addr clock.now).state ≠
      .online := by
    show LinkState.handshake ≠ .online
    decide
  obtain ⟨acts, honline⟩ : ∃ acts, receivePacket cs me s.ep.bandwidth clock
      (anonymous me.config {} (anonId addr.port random) addr clock.now) _ _ = .ok (_, _, acts) :=
    receive_online s.ep.bandwidth hstate
  obtain ⟨s', hreaches, hmeets⟩ := h.packet honline
  exact ⟨s', _, hreaches, hmeets, rfl, rfl, rfl, rfl, rfl, rfl, rfl, rfl, rfl, rfl⟩

lemma Fresh.gapped (h : Fresh me s) (now : TimePoint) :
    ∃ s' addr key peer, Machine.Reaches (step cs) s s' ∧ Meets me addr key peer s' ∧
      Gapped me now peer := by
  obtain ⟨s₁, peer₁, hreaches₁, h₁, hpeer₁⟩ : ∃ s₁ peer₁, Machine.Reaches (step cs) s s₁ ∧ _ ∧ _ :=
    h.watched ⟨0, 0⟩ ⟨now, 0⟩ 0
  obtain ⟨bw, hheartbeat⟩ : ∃ bw, receivePacket cs me s₁.ep.bandwidth ⟨now, 0⟩ peer₁ _ _ =
      .ok (bw, _, _) :=
    receive_heartbeat s₁.ep.bandwidth ⟨now, 0⟩ peer₁
  have hpeer₂ : Watched me 1227133514 false 0
      { noteSender ⟨now, 0⟩ peer₁ { type := .heartbeat } with senderRttUs := 1227133514 } :=
    ⟨hpeer₁.state, hpeer₁.addrSet, hpeer₁.retransmit, hpeer₁.peerRetransmit, rfl,
      hpeer₁.lastReportSent, hpeer₁.seqInitialized, hpeer₁.nextExpectedSeq, hpeer₁.missingSeqs,
      hpeer₁.recvSeqs⟩
  obtain ⟨s₂, -, hreaches₂, h₂, -, -⟩ := h₁.packet hheartbeat
  obtain ⟨s₃, -, hreaches₃, h₃, -, -⟩ := h₂.packet (receive_data s₂.ep.bandwidth ⟨now, 0⟩ _ 1)
  obtain ⟨s₄, -, hreaches₄, h₄, -, -⟩ := h₃.packet (receive_data s₃.ep.bandwidth ⟨now, 0⟩ _ 258)
  refine ⟨s₄, _, _, _, hreaches₁.trans (hreaches₂.trans (hreaches₃.trans hreaches₄)), h₄, ?_⟩
  exact (((hpeer₂.noted _ _).first now).noted _ _).second now

/-- The report to such a peer, twelve milliseconds later, lists all the gaps. -/
lemma Gapped.report {now : TimePoint} (h : Gapped me now peer)
    (hretransmit : me.config.retransmitEnabled = true)
    (hinterval : 0 < me.config.reportInterval) (hdue : millis me.config.reportInterval ≤ now) :
    ∃ datagram, (sendReports me ⟨now + 12000000, 0⟩ peer).2 = [.enqueue datagram] ∧
      datagram.length = kHeaderSize + (12 + 256 * 4 + 4) := by
  have hthreshold : (Report.lossThreshold peer).toNat = 3 := by
    rw [Report.lossThreshold, h.senderRttUs]
    decide
  have helapsed : toMicros (now + 12000000 - now) = 12000 := by
    rw [add_sub_cancel_left]
    decide
  have haged : ∀ e ∈ peer.missingSeqs.toList,
      Report.Aged peer me.config.reportInterval (now + 12000000) e.2 := by
    intro e he
    rw [h.missingSeqs] at he
    obtain rfl := since_of_gaps (ExtTreeMap.mem_toList_iff_getElem?_eq_some.mp he)
    have hretries : Report.kMaxRetries.toNat = 10 := rfl
    rw [Report.Aged, hthreshold, helapsed, Report.giveUpUs, hretries]
    omega
  have hlost : (Report.scanMissing me.config.reportInterval (now + 12000000) peer).2.length =
      256 := by
    rw [Report.scan_lost _ _ (h.retransmit.trans hretransmit) h.peerRetransmit, Report.agedSeqs,
      List.length_map, List.filter_eq_self.mpr fun e he => decide_eq_true (haged e he),
      ExtTreeMap.length_toList, h.missingSeqs, size_gaps]
  have hlinked : ¬ ¬ linked peer = true := by
    rw [linked, h.state]
    decide
  have hlate : ¬ now + 12000000 - peer.lastReportSent < millis me.config.reportInterval := by
    rw [h.lastReportSent]
    exact not_lt.mpr
      (le_trans hdue (by rw [sub_zero]; exact Int.le_add_of_nonneg_right (by decide)))
  have haddr : (Report.buildPayload peer me.config.reportInterval (now + 12000000)).1.addrSet =
      true :=
    (buildPayload_sameLink peer _ _).addrSet.trans h.addrSet
  unfold sendReports
  simp only [if_neg hlinked, if_neg hlate]
  refine ⟨_, if_pos haddr, ?_⟩
  rw [PacketCodec.length_encode, length_buildPayload, hlost]
  rfl

/-- The pass of the reactor that sends the reports. -/
lemma Meets.reports (h : Meets me addr key peer s) {datagram : Bytes}
    (hout : (sendReports me clock peer).2 = [.enqueue datagram]) :
    ∃ s', Machine.Reaches (step cs) s s' ∧ ∃ packet ∈ s'.outbound.queue.items,
    packet.item = datagram := by
  have houtputs : (Pass.reports.apply s.ep clock).2 = [(key, .enqueue datagram)] := by
    show (forPeers s.ep (sendReports s.ep.toLocal clock)).2 = _
    rw [forPeers, OrderedMap.toList_eq_singleton h.peers, h.self]
    simp only [List.flatMap_cons, List.flatMap_nil, hout, outputsOf, List.map_cons, List.map_nil,
      List.append_nil]
  let t :=
    (s.withEndpoint (Pass.reports.apply s.ep clock).1).performAll (Pass.reports.apply s.ep clock).2
  have hstep : step cs s (.pass .reports clock) = .ok ({ t with steps := t.steps + 1 }, ()) := rfl
  have hroom : Room (s.withEndpoint (Pass.reports.apply s.ep clock).1)
      (1 + (Pass.reports.apply s.ep clock).2.length) := by
    rw [houtputs]
    exact ⟨h.room.opened, h.room.room⟩
  obtain ⟨-, -, hnew⟩ := hroom.performAll
  refine ⟨_, .single hstep, hnew (key, .enqueue datagram) ?_ datagram rfl⟩
  rw [houtputs]
  exact List.mem_cons_self

/-! ## The sender -/

/-- An endpoint that has just been opened. -/
lemma fresh_opened (me : Local) : Fresh me { ep := { toLocal := me } } := ⟨rfl, rfl, rfl, rfl, rfl⟩

/-- If nothing ever waits that does not fit, the configuration is as `FitsBucket` says. -/
lemma fitsBucket_of_runs (x25519 : Bytes → Bytes → Option Bytes)
    (hkdfSha256 : Bytes → Bytes → Bytes → Bytes)
    (h : ∀ s', Machine.Reaches (step (.ofGcm x25519 hkdfSha256)) { ep := { toLocal := me } } s' →
      ∀ packet ∈ s'.outbound.queue.items, packet.item.length ≤ 4 * me.config.mtu) :
    FitsBucket x25519 me := by
  have hfresh := fresh_opened me
  obtain ⟨s₁, hreaches₁, h₁, packet, hpacket, hlength⟩ : ∃ s₁,
      Machine.Reaches (step (.ofGcm x25519 hkdfSha256)) _ s₁ ∧ _ ∧ _ :=
        hfresh.connect [] ⟨0, 0⟩ ⟨0, 0⟩
  refine ⟨hlength ▸ h s₁ hreaches₁ packet hpacket, ?_, ?_⟩
  · rintro hencryption ⟨pub, hpub, hshared⟩ hfits
    obtain ⟨shared, hshared⟩ := Option.isSome_iff_exists.mp hshared
    obtain ⟨peer₂, acts, hack, hready, haddr, hpending⟩ := receive_handshakeAck
      (.ofGcm x25519 hkdfSha256) s₁.ep.bandwidth ⟨0, 0⟩ hencryption
      (show (sendHandshake me ⟨0, 0⟩ (dialed me.config [] ⟨0, 0⟩ ⟨0, 0⟩)).1.state =
        .handshake from rfl) hpub hshared
    obtain ⟨s₂, -, hreaches₂, h₂, -, -⟩ := h₁.packet hack
    obtain ⟨ps, hps, hpayload, hsize, hretries⟩ := pending_dialed me [] ⟨0, 0⟩ ⟨0, 0⟩
    rw [← hpending 1 (show (1 : UInt32) ≠ 1 + 1 by decide)] at hps
    rw [← hpayload] at hfits ⊢
    obtain ⟨bw, peer₃, acts, datagram, hreport, hacts, hdatagram, hlength⟩ :=
      receive_lostFirst x25519 hkdfSha256
      s₂.ep.bandwidth ⟨0, 0⟩ hencryption hready haddr hps hretries hsize hfits
    obtain ⟨s₃, hreaches₃, hout⟩ := h₂.answers hreport hacts
    obtain ⟨packet, hpacket, rfl⟩ := hout datagram hdatagram
    rw [← hlength]
    exact h s₃ (hreaches₁.trans (hreaches₂.trans hreaches₃)) packet hpacket
  · intro hretransmit hinterval
    obtain ⟨s₂, addr, key, peer, hreaches₂, h₂, hgapped⟩ : ∃ s₂ addr key peer,
      Machine.Reaches (step (.ofGcm x25519 hkdfSha256)) _ s₂ ∧ _ ∧ _ :=
        hfresh.gapped (millis me.config.reportInterval)
    obtain ⟨datagram, hout, hlength⟩ := hgapped.report hretransmit hinterval (le_refl _)
    obtain ⟨s₃, hreaches₃, packet, hpacket, rfl⟩ := h₂.reports hout
    rw [← hlength]
    exact h s₃ (hreaches₂.trans hreaches₃) packet hpacket

end

/-- What waits for the token bucket never exceeds its cap of `4 * mtu`, in all runs of an endpoint,
exactly if its handshake and its reports fit; and a packet gets its tokens, in the loop of the
sender and in the slot of the reactor, exactly if it does not exceed the cap. -/
theorem outbound_fits_iff (x25519 : Bytes → Bytes → Option Bytes)
    (hkdfSha256 : Bytes → Bytes → Bytes → Bytes) (me : Local) (hmtu : kHeaderSize < me.config.mtu) :
    ((∀ start, Fresh me start → ∀ events s outs,
        Machine.run (step (.ofGcm x25519 hkdfSha256)) start events = .ok (s, outs) →
          ∀ packet ∈ s.outbound.waiting, packet.item.length ≤ 4 * me.config.mtu) ↔
      FitsBucket x25519 me) ∧
    ∀ p : Pacer, p.tokens ≤ me.config.mtu * 4 →
      (∀ packet : Work Bytes, (∀ rounds, p.Steady rounds →
          ∃ n, (Pacer.senderWait me.config.mtu packet.item.length p
            (Pacer.firstRounds rounds n)).isSome = true) ↔
        packet.item.length ≤ 4 * me.config.mtu) ∧
      ∀ (s : Impl) (packet : Work Bytes), s.outbound.litePending = some packet →
        s.ready packet = true →
        ((∀ rounds, p.Steady rounds → ∃ n, ((Pacer.firstRounds rounds n).foldl
            (Pacer.drainSlot me.config.mtu (fun packet => packet.item.length) s.ready)
              (p, s.outbound)).2.litePending =
              none) ↔
          packet.item.length ≤ 4 * me.config.mtu) := by
  refine ⟨⟨fun h => ?_, fun hb start hstart events s outs hrun =>
    (run_bounded hmtu hb hstart hrun).waiting⟩,
    fun p hp => ⟨fun packet => Pacer.senderWait_left_iff hp _, fun s packet hslot hready => ?_⟩⟩
  · refine fitsBucket_of_runs x25519 hkdfSha256 fun s' hreaches packet hpacket => ?_
    obtain ⟨events, outs, hrun⟩ := hreaches
    exact h _ (fresh_opened me) events s' outs hrun packet
      (Outbound.mem_waiting.mpr (Or.inl hpacket))
  · exact Pacer.drainSlot_emptied_iff hp _ hready hslot

/-- With the default configuration the handshake of a call of `connect` fits. -/
theorem outbound_fits_default :
    ∃ s outs,
      Machine.run (step (.ofGcm (fun _ _ => none) fun _ _ _ => [])) {}
          [.connect [120] ⟨1, 2⟩ ⟨0, 0⟩] =
        .ok (s, outs) ∧ ∀ packet ∈ s.outbound.waiting, packet.item.length ≤ 4 * 1350 := by
  have hfits : FitsBucket (fun _ _ => none) {} :=
    ⟨by decide, fun _ _ _ => by decide, fun _ _ => by decide⟩
  refine ⟨_, _, rfl, ?_⟩
  exact (outbound_fits_iff (fun _ _ => none) (fun _ _ _ => []) {} (by decide)).1.mpr hfits {}
    (fresh_opened {})
    [.connect [120] ⟨1, 2⟩ ⟨0, 0⟩] _ _ rfl

/-- The default configuration with a token of 5400 bytes. -/
def longToken : Local := { config := { token := List.replicate 5400 0 } }

/-- The sender takes the handshake of a call of `connect`, and no refill ever gives it enough
tokens. -/
theorem long_token_wedges :
    longToken.config.mtu = 1350 ∧
      ∃ s outs packet,
        Machine.run (step (.ofGcm (fun _ _ => none) fun _ _ _ => []))
            { ep := { toLocal := longToken } }
            [.connect [120] ⟨1, 2⟩ ⟨0, 0⟩, .takePacket] = .ok (s, outs) ∧
        s.outbound.sending = some packet ∧ 4 * 1350 < packet.item.length ∧
        ∀ p : Pacer, p.tokens ≤ 1350 * 4 → ∀ rounds n,
          Pacer.senderWait 1350 packet.item.length p (Pacer.firstRounds rounds n) = none := by
  obtain ⟨header, s, outs, ref, hrun, hsending⟩ : ∃ header s outs ref,
      Machine.run (step (.ofGcm (fun _ _ => none) fun _ _ _ => []))
        { ep := { toLocal := longToken } }
          [.connect [120] ⟨1, 2⟩ ⟨0, 0⟩, .takePacket] = .ok (s, outs) ∧
        s.outbound.sending = some ⟨ref, PacketCodec.encode header (handshakePayload longToken)⟩ :=
    ⟨_, _, _, _, rfl, rfl⟩
  have hlength : (PacketCodec.encode header (handshakePayload longToken)).length = 5484 := by
    have htoken : longToken.config.token.length = 5400 := List.length_replicate
    have hkey : (publicKeyField longToken).length = 32 := rfl
    have hid : longToken.config.id = [] := rfl
    simp only [PacketCodec.length_encode, handshakePayload, List.length_append, List.length_cons,
      List.length_nil, htoken, hkey, hid, List.take_nil, kHeaderSize]
  refine ⟨rfl, s, outs, _, hrun, hsending, ?_, fun p hp rounds n => ?_⟩
  · rw [hlength]
    decide
  · rw [← Option.not_isSome_iff_eq_none, Pacer.senderWait_isSome_iff]
    rintro ⟨k, -, henough⟩
    exact absurd henough (not_le.mpr (Pacer.not_enough hp (by rw [hlength]; decide) rounds (k + 1)))

end Impl
end Transport
end Damen
