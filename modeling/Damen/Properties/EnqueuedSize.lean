import Damen.Properties.Contact
import Damen.Properties.DatagramSize
import Damen.Properties.ReportScan
import Damen.Properties.Resurrection

/-!
# How large the datagrams are that get into the outbound queue

The cap of the token bucket is `4 * mtu`.  Data packets and commands are cut to the MTU, and
acknowledgements, heartbeats and the answers to a handshake have a few bytes; but the size of a
handshake comes from the configured id and token, and that of a report from the number of losses.
`FitsBucket` says when these two kinds fit as well: the handshake, the handshake when a report of
the peer makes it go out again under a session key, and the longest report.

Every function that calls `send_raw` is then shown to enqueue only what fits, as long as the
retransmission buffers hold the packets of this endpoint (`OwnPeer`), which they all keep to
(`Answers`).
-/

namespace Damen
namespace Transport

open Std (ExtTreeMap)
open Fragmenter (Fragment fragPayload)

section

variable (x25519 : Bytes → Bytes → Option Bytes) (hkdfSha256 : Bytes → Bytes → Bytes → Bytes)
  (me : Local)

/-- There is a public key that gives a session key. -/
def Keyable : Prop :=
  ∃ pub : Bytes, pub.length = 32 ∧ (x25519 me.keypair.privateKey pub).isSome = true

/-- The datagrams whose size does not come from the MTU fit the bucket. -/
structure FitsBucket : Prop where
  handshake : kHeaderSize + (handshakePayload me).length ≤ 4 * me.config.mtu
  /-- A handshake in the retransmission buffer is encrypted when it is sent again, if its size field
  allows. -/
  resent : me.config.encryptionEnabled = true → Keyable x25519 me →
    (handshakePayload me).length + kGcmTagSize ≤ 65535 →
      kHeaderSize + (handshakePayload me).length + kGcmTagSize ≤ 4 * me.config.mtu
  /-- A report lists up to 256 sequences, but none if retransmission is off or none gets old
  enough. -/
  report : me.config.retransmitEnabled = true → 0 < me.config.reportInterval →
    kHeaderSize + (12 + 256 * 4 + 4) ≤ 4 * me.config.mtu

/-- The datagram fits the bucket. -/
def Fits (datagram : Bytes) : Prop := datagram.length ≤ 4 * me.config.mtu

/-- The payload fits the bucket with header and tag, or is the handshake. -/
def Moderate (payload : Bytes) : Prop :=
  payload = handshakePayload me ∨ kHeaderSize + payload.length + kGcmTagSize ≤ 4 * me.config.mtu

/-- What this endpoint keeps for a peer: the retransmission flag is the configured one, the packets
in the retransmission buffer are its own, and a session key came from a public key. -/
structure OwnPeer (peer : Peer) : Prop where
  retransmit : peer.retransmit = me.config.retransmitEnabled
  pending : ∀ (seq : UInt32) (ps : PendingSend), peer.pending[seq]? = some ps →
    ps.header.payloadSize = UInt16.ofNat ps.payload.length ∧ Moderate me ps.payload
  keyed : peer.cryptoReady = true → Keyable x25519 me

/-- What a handler leaves behind is in order, and what it enqueues fits. -/
structure Answers (r : Peer × List Action) : Prop where
  peer : OwnPeer x25519 me r.1
  fits : ∀ datagram ∈ enqueued r.2, Fits me datagram

end

section

variable {x25519 : Bytes → Bytes → Option Bytes} {hkdfSha256 : Bytes → Bytes → Bytes → Bytes}
  {me : Local} {peer peer' : Peer}

/-! ## Frames -/

/-- The fields that `OwnPeer` is about are the same. -/
structure SameBuffer (peer peer' : Peer) : Prop where
  retransmit : peer'.retransmit = peer.retransmit
  pending : peer'.pending = peer.pending
  cryptoReady : peer'.cryptoReady = peer.cryptoReady

lemma OwnPeer.frame (h : OwnPeer x25519 me peer) (hsame : SameBuffer peer peer') :
    OwnPeer x25519 me peer' where
  retransmit := hsame.retransmit.trans h.retransmit
  pending := hsame.pending ▸ h.pending
  keyed hready := h.keyed (hsame.cryptoReady ▸ hready)

lemma OwnPeer.shrink (h : OwnPeer x25519 me peer) (hretransmit : peer'.retransmit = peer.retransmit)
    (hpending : Outgoing.Shrinks peer.pending peer'.pending)
    (hready : peer'.cryptoReady = peer.cryptoReady) :
    OwnPeer x25519 me peer' where
  retransmit := hretransmit.trans h.retransmit
  pending seq ps' hps' := by
    obtain ⟨ps, hps, hheader, hpayload⟩ := hpending seq ps' hps'
    rw [hheader, hpayload]
    exact h.pending seq ps hps
  keyed hkey := h.keyed (hready ▸ hkey)

/-- An entry is written. -/
lemma OwnPeer.insert (h : OwnPeer x25519 me peer) (hretransmit : peer'.retransmit = peer.retransmit)
    {seq : UInt32} {ps : PendingSend} (hpending : peer'.pending = peer.pending.insert seq ps)
    (hready : peer'.cryptoReady = peer.cryptoReady)
    (hps : ps.header.payloadSize = UInt16.ofNat ps.payload.length ∧ Moderate me ps.payload) :
    OwnPeer x25519 me peer' where
  retransmit := hretransmit.trans h.retransmit
  pending k ps' hps' := by
    rw [hpending, OrderedMap.getElem?_insert] at hps'
    split_ifs at hps'
    · obtain rfl := Option.some.inj hps'
      exact hps
    · exact h.pending k ps' hps'
  keyed hkey := h.keyed (hready ▸ hkey)

lemma syncClock_sameBuffer (bw : BandwidthEstimator) (peer : Peer) (tick : UInt32)
    (arrivalMs : UInt64) :
    SameBuffer peer (syncClock bw peer tick arrivalMs) := by
  obtain ⟨_, _, _, _, _, hframe⟩ := syncClock_frame bw peer tick arrivalMs
  rw [hframe]
  exact ⟨rfl, rfl, rfl⟩

/-- A session key is set from a public key only. -/
lemma OwnPeer.deriveSessionKey (h : OwnPeer x25519 me peer) {pub : Bytes} (hpub : pub.length = 32)
    (clientId : UInt32) :
    OwnPeer x25519 me (deriveSessionKey (.ofGcm x25519 hkdfSha256) me peer pub clientId) := by
  unfold Transport.deriveSessionKey
  split
  · exact h
  · next shared hshared =>
    exact ⟨h.retransmit, h.pending, fun _ => ⟨pub, hpub, Option.isSome_of_mem hshared⟩⟩

/-! ## Sizes -/

lemma fits_sendRaw {datagram : Bytes} (h : Fits me datagram) (peer : Peer) :
    ∀ d ∈ enqueued (sendRaw peer datagram), Fits me d := by
  intro d hd
  unfold sendRaw at hd
  split at hd
  · exact List.mem_singleton.mp hd ▸ h
  · exact absurd hd List.not_mem_nil

variable {payload : Bytes} {acts : List Action} {header : PacketHeader}
  {bw bw' : BandwidthEstimator} {clock : Clock}

lemma fits_encode (h : kHeaderSize + payload.length ≤ 4 * me.config.mtu) (header : PacketHeader) :
    Fits me (PacketCodec.encode header payload) := by
  rw [Fits, PacketCodec.length_encode]
  exact h

lemma fits_append {acts' : List Action} (h : ∀ d ∈ enqueued acts, Fits me d)
    (h' : ∀ d ∈ enqueued acts', Fits me d) : ∀ d ∈ enqueued (acts ++ acts'), Fits me d := by
  intro d hd
  rw [enqueued_append, List.mem_append] at hd
  exact hd.elim (h d) (h' d)

lemma fits_nil : ∀ d ∈ enqueued [], Fits me d := fun _ h => absurd h List.not_mem_nil

/-- A handler that enqueues nothing. -/
lemma Answers.silent {r : Peer × List Action} (h : OwnPeer x25519 me r.1)
    (hacts : enqueued r.2 = []) :
    Answers x25519 me r :=
  ⟨h, fun _ hd => absurd (hacts ▸ hd) List.not_mem_nil⟩

lemma Moderate.of_length (hmtu : kHeaderSize < me.config.mtu) (h : payload.length ≤ 33) :
    Moderate me payload := by
  right
  rw [kHeaderSize] at hmtu ⊢
  rw [kGcmTagSize]
  omega

lemma Moderate.nil (hmtu : kHeaderSize < me.config.mtu) : Moderate me [] :=
  Moderate.of_length hmtu (Nat.zero_le 33)

/-- Payloads of the width of a fragment. -/
lemma Moderate.of_fragment (hmtu : kHeaderSize < me.config.mtu)
    (h : payload.length = fragPayload me.config.mtu) : Moderate me payload := by
  right
  rw [h, fragPayload]
  rw [kHeaderSize] at hmtu ⊢
  rw [kGcmTagSize]
  split_ifs <;> omega

/-- With the headers of `send_control`, which are not encrypted. -/
lemma Moderate.plain (hb : FitsBucket x25519 me) (h : Moderate me payload) :
    kHeaderSize + payload.length ≤ 4 * me.config.mtu := by
  rcases h with rfl | h
  · exact hb.handshake
  · omega

/-- With the tag, if there is a session key. -/
lemma Moderate.built (hb : FitsBucket x25519 me) (hpeer : OwnPeer x25519 me peer) {datagram : Bytes}
    (hsize : header.payloadSize = UInt16.ofNat payload.length) (h : Moderate me payload)
    (hbuild : buildWirePacket (.ofGcm x25519 hkdfSha256) me peer header payload =
      .ok (datagram, acts)) :
    Fits me datagram := by
  obtain ⟨hroom, hlength⟩ := length_of_buildWirePacket x25519 hkdfSha256 hsize hbuild
  rw [Fits, hlength]
  unfold tagSize at hroom ⊢
  split
  · next henc =>
    rw [if_pos henc] at hroom
    obtain ⟨henabled, hready⟩ := Bool.and_eq_true_iff.mp henc
    rcases h with rfl | h
    · exact hb.resent henabled (hpeer.keyed hready) hroom
    · exact h
  · exact h.plain hb

lemma length_handshakeAckPayload (me : Local) : (handshakeAckPayload me).length ≤ 33 := by
  unfold handshakeAckPayload publicKeyField
  rw [List.length_append, List.length_singleton]
  split
  · rw [me.keypair.length_publicKey]
  · exact Nat.le_add_left 1 32

/-! ## Handlers -/

lemma sendControl_answers (hb : FitsBucket x25519 me) (h : OwnPeer x25519 me peer) (clock : Clock)
    (type : PacketType) (hpayload : Moderate me payload) (ackable : Bool) :
    Answers x25519 me (sendControl me clock peer type payload ackable) := by
  have hfits : ∀ header, ∀ d ∈ enqueued (sendRaw peer (PacketCodec.encode header payload)),
      Fits me d :=
    fun header => fits_sendRaw (fits_encode (hpayload.plain hb) header) peer
  cases ackable with
  | true =>
      obtain ⟨ps, hheader, hps, hpending⟩ := Outgoing.sendControl_pending me clock peer type payload
      refine ⟨h.insert rfl hpending rfl ?_, hfits _⟩
      rw [hheader, hps]
      exact ⟨rfl, hpayload⟩
  | false => exact ⟨h, hfits _⟩

lemma sendHandshake_answers (hb : FitsBucket x25519 me) (h : OwnPeer x25519 me peer)
    (clock : Clock) :
    Answers x25519 me (sendHandshake me clock peer) := by
  have hown : OwnPeer x25519 me { peer with lastHandshakeSent := clock.now } :=
    h.frame ⟨rfl, rfl, rfl⟩
  exact sendControl_answers hb hown clock .handshake (Or.inl rfl) true

lemma enqueued_sendSpeedTest (me : Local) (clock : Clock) (peer : Peer) :
    enqueued (sendSpeedTest me clock peer) = [] := by
  unfold sendSpeedTest
  split
  · rfl
  · split
    · rfl
    · refine List.filterMap_eq_nil_iff.mpr fun act hact => ?_
      obtain ⟨n, -, rfl⟩ := List.mem_map.mp hact
      rfl

lemma goOnline_answers (h : OwnPeer x25519 me peer) (clock : Clock) :
    Answers x25519 me (goOnline me clock peer) := by
  refine Answers.silent (h.frame ⟨rfl, rfl, rfl⟩) ?_
  rw [goOnline, enqueued_append, enqueued_sendSpeedTest]
  rfl

lemma answerHandshake_answers (hmtu : kHeaderSize < me.config.mtu) (hb : FitsBucket x25519 me)
    (h : OwnPeer x25519 me peer) (clock : Clock) :
    Answers x25519 me (answerHandshake me clock peer) := by
  have hreturn : Answers x25519 me (returnHandshake me clock peer) := by
    unfold returnHandshake
    split
    · exact sendHandshake_answers hb h clock
    · exact Answers.silent h rfl
  have hestablish : ∀ peer, OwnPeer x25519 me peer → Answers x25519 me (establish peer) := by
    intro peer h
    unfold establish
    split
    · exact Answers.silent (h.frame ⟨rfl, rfl, rfl⟩) rfl
    · exact Answers.silent h rfl
  have hevent := hestablish _ hreturn.peer
  have hack := sendControl_answers hb hevent.peer clock .handshakeAck
    (Moderate.of_length hmtu (length_handshakeAckPayload me)) true
  exact ⟨hack.peer, fits_append (fits_append hreturn.fits hevent.fits) hack.fits⟩

lemma length_publicKey_of_parse {encryptionEnabled : Bool} {pub : Bytes} {fields : HandshakeFields}
    (h : parseHandshake encryptionEnabled payload = some fields)
    (hpub : fields.publicKey = some pub) : pub.length = 32 := by
  unfold parseHandshake at h
  simp only at h
  split at h
  · exact absurd h (by simp)
  · split at h
    · exact absurd h (by simp)
    · obtain rfl := Option.some.inj h
      simp only [Option.ite_none_right_eq_some] at hpub
      obtain ⟨hkey, hpub⟩ := hpub
      rw [if_pos hkey] at hpub
      rw [← Option.some.inj hpub, List.length_take, List.length_drop]
      obtain ⟨-, hroom⟩ := hkey
      split_ifs at hroom ⊢ <;> omega

lemma handleHandshake_answers (hmtu : kHeaderSize < me.config.mtu) (hb : FitsBucket x25519 me)
    (h : OwnPeer x25519 me peer) (bw : BandwidthEstimator) (clock : Clock) (header : PacketHeader)
    (payload : Bytes) :
    Answers x25519 me (handleHandshake (.ofGcm x25519 hkdfSha256) me bw clock peer header
      payload) := by
  unfold handleHandshake
  split
  · exact Answers.silent h rfl
  · next fields hparse =>
    simp only
    split
    · exact Answers.silent (h.frame ⟨rfl, rfl, rfl⟩) rfl
    · refine answerHandshake_answers hmtu hb ?_ clock
      have hnoted : OwnPeer x25519 me { peer with
          peerRetransmit := fields.retransmit.getD peer.peerRetransmit } := h.frame ⟨rfl, rfl, rfl⟩
      have hsynced := hnoted.frame (syncClock_sameBuffer bw _ header.tick clock.unixMillis)
      unfold adoptHandshake
      simp only
      split
      · next pub hpub =>
        refine OwnPeer.deriveSessionKey (hsynced.frame ?_) (length_publicKey_of_parse hparse hpub) _
        exact ⟨rfl, rfl, rfl⟩
      · exact hsynced.frame ⟨rfl, rfl, rfl⟩

lemma handleHandshakeAck_answers (hmtu : kHeaderSize < me.config.mtu) (hb : FitsBucket x25519 me)
    (h : OwnPeer x25519 me peer) (bw : BandwidthEstimator) (clock : Clock) (header : PacketHeader)
    (payload : Bytes) :
    Answers x25519 me (handleHandshakeAck (.ofGcm x25519 hkdfSha256) me bw clock peer header
      payload) := by
  have hread : ∀ peer, OwnPeer x25519 me peer →
      OwnPeer x25519 me (readAckTail (.ofGcm x25519 hkdfSha256) me peer header payload) := by
    intro peer h
    unfold readAckTail
    simp only
    split
    · exact h
    · split
      · next hkey =>
        refine OwnPeer.deriveSessionKey (h.frame ?_) ?_ _
        · exact ⟨rfl, rfl, rfl⟩
        · rw [List.length_take, List.length_drop]
          omega
      · exact h.frame ⟨rfl, rfl, rfl⟩
  have hreset : OwnPeer x25519 me
      (CommandChannel.reset (syncClock bw peer header.tick clock.unixMillis)) :=
    (h.frame (syncClock_sameBuffer bw peer header.tick clock.unixMillis)).frame ⟨rfl, rfl, rfl⟩
  unfold handleHandshakeAck
  simp only
  split
  · exact Answers.silent (hread _ hreset) rfl
  · split
    · have honline := sendControl_answers hb (hread _ hreset) clock .online (Moderate.nil hmtu) true
      have hgo := goOnline_answers honline.peer clock
      exact ⟨hgo.peer, fits_append honline.fits hgo.fits⟩
    · exact Answers.silent (hread _ hreset) rfl

lemma handleData_sameBuffer (h : handleData me bw clock peer header payload = .ok (peer', acts)) :
    SameBuffer peer peer' ∧ enqueued acts = [] := by
  refine ⟨?_, ?_⟩
  · rw [handleData_frame h, Reassembler.trackSequence_frame, Reassembler.accountTransit_frame]
    exact ⟨rfl, rfl, rfl⟩
  · unfold handleData at h
    split at h
    · exact absurd h (by simp)
    · cases h
      rfl
    · cases h
      rfl

lemma enqueued_commands (id : Bytes) (ready : List Bytes) :
    enqueued (ready.map (Action.command id)) = [] := by
  refine List.filterMap_eq_nil_iff.mpr fun act hact => ?_
  obtain ⟨payload, -, rfl⟩ := List.mem_map.mp hact
  rfl

lemma handleAck_own (h : OwnPeer x25519 me peer) (bw : BandwidthEstimator) (clock : Clock)
    (header : PacketHeader) : OwnPeer x25519 me (handleAck bw clock peer header).2 := by
  have hframe : (handleAck bw clock peer header).2.retransmit = peer.retransmit ∧
      (handleAck bw clock peer header).2.cryptoReady = peer.cryptoReady := by
    obtain ⟨_, _, _, _, _, _, hframe⟩ := handleAck_frame bw clock peer header
    rw [hframe]
    exact ⟨rfl, rfl⟩
  exact h.shrink hframe.1 (Outgoing.handleAck_shrinks bw clock peer header) hframe.2

lemma resend_fits (hb : FitsBucket x25519 me) (h : OwnPeer x25519 me peer)
    {packets : List (PacketHeader × Bytes)}
    (hpackets : ∀ packet ∈ packets, packet.1.payloadSize = UInt16.ofNat packet.2.length ∧
      Moderate me packet.2)
    (hacts : resend (.ofGcm x25519 hkdfSha256) me peer packets = .ok acts) :
    ∀ d ∈ enqueued acts, Fits me d := by
  induction packets generalizing acts with
  | nil =>
      cases hacts
      exact fits_nil
  | cons packet packets ih =>
      obtain ⟨header, payload⟩ := packet
      rw [resend] at hacts
      split at hacts
      · exact absurd hacts (by simp)
      · next datagram out hbuild =>
        split at hacts
        · exact absurd hacts (by simp)
        · next out' hrest =>
          obtain ⟨hsize, hmoderate⟩ := hpackets (header, payload) List.mem_cons_self
          have hdatagram : Fits me datagram := hmoderate.built hb h hsize hbuild
          rw [← Except.ok.inj hacts]
          refine fits_append (fits_append ?_ (fits_sendRaw hdatagram peer)) ?_
          · rw [enqueued_buildWirePacket hbuild]
            exact fun _ hd => absurd hd List.not_mem_nil
          · exact ih (fun packet hpacket => hpackets packet (List.mem_cons_of_mem _ hpacket)) hrest

lemma handleReport_answers (hb : FitsBucket x25519 me) (h : OwnPeer x25519 me peer)
    (hok : handleReport (.ofGcm x25519 hkdfSha256) me bw clock peer header payload =
      .ok (bw', peer', acts)) :
    Answers x25519 me (peer', acts) := by
  have hown : OwnPeer x25519 me (Report.handle peer payload clock.now).1 := by
    refine h.shrink ?_ (Outgoing.report_shrinks peer payload clock.now) ?_ <;>
      rw [Report.handle_frame]
  unfold handleReport at hok
  simp only at hok
  split at hok
  · exact absurd hok (by simp)
  · next out hresend =>
    simp only [Except.ok.injEq, Prod.mk.injEq] at hok
    obtain ⟨-, rfl, rfl⟩ := hok
    refine ⟨hown, resend_fits hb hown (fun packet hpacket => ?_) hresend⟩
    obtain ⟨k, ps, hps, rfl⟩ := Report.mem_resent hpacket
    exact h.pending k ps hps

lemma dispatch_answers (hmtu : kHeaderSize < me.config.mtu) (hb : FitsBucket x25519 me)
    (h : OwnPeer x25519 me peer)
    (hok : dispatch (.ofGcm x25519 hkdfSha256) me bw clock peer header payload =
      .ok (bw', peer', acts)) :
    Answers x25519 me (peer', acts) := by
  unfold dispatch at hok
  split at hok
  · obtain ⟨-, hanswer⟩ := Prod.mk.inj (Except.ok.inj hok)
    exact hanswer ▸ handleHandshake_answers hmtu hb h bw clock header payload
  · obtain ⟨-, hanswer⟩ := Prod.mk.inj (Except.ok.inj hok)
    exact hanswer ▸ handleHandshakeAck_answers hmtu hb h bw clock header payload
  · obtain ⟨-, hanswer⟩ := Prod.mk.inj (Except.ok.inj hok)
    rw [← hanswer]
    unfold handleOnline
    split
    · exact goOnline_answers h clock
    · exact Answers.silent h rfl
  · cases hok
    refine Answers.silent (OwnPeer.frame ?_ (syncClock_sameBuffer bw _ _ _)) rfl
    split
    · exact h.frame ⟨rfl, rfl, rfl⟩
    · exact h
  · obtain ⟨-, hanswer⟩ := Prod.mk.inj (Except.ok.inj hok)
    rw [← hanswer]
    unfold handleBye
    split
    · exact Answers.silent (h.frame ⟨rfl, rfl, rfl⟩) rfl
    · exact Answers.silent h rfl
  iterate 2
    split at hok
    · exact absurd hok (by simp)
    · next hdata =>
      obtain ⟨-, rfl⟩ := Prod.mk.inj (Except.ok.inj hok)
      obtain ⟨hsame, hsilent⟩ := handleData_sameBuffer hdata
      exact Answers.silent (h.frame hsame) hsilent
  · cases hok
    exact Answers.silent (handleAck_own h bw clock header) rfl
  · exact handleReport_answers hb h hok
  · cases hok
    refine Answers.silent (h.frame ?_) rfl
    rw [handleProbe, Report.finalizeProbeTrain_frame]
    exact ⟨rfl, rfl, rfl⟩
  · obtain ⟨-, hanswer⟩ := Prod.mk.inj (Except.ok.inj hok)
    rw [← hanswer]
    refine Answers.silent (h.frame ?_) (enqueued_commands _ _)
    rw [handleCommand, commandHandle_frame]
    exact ⟨rfl, rfl, rfl⟩
  · cases hok
    exact Answers.silent h rfl

/-- A packet that is handled leaves a peer in order, and all answers fit. -/
lemma receivePacket_answers (hmtu : kHeaderSize < me.config.mtu) (hb : FitsBucket x25519 me)
    (h : OwnPeer x25519 me peer)
    (hok : receivePacket (.ofGcm x25519 hkdfSha256) me bw clock peer header payload =
      .ok (bw', peer', acts)) :
    Answers x25519 me (peer', acts) := by
  have hnoted : OwnPeer x25519 me (noteSender clock peer header) := h.frame ⟨rfl, rfl, rfl⟩
  unfold receivePacket at hok
  simp only at hok
  split at hok
  · cases hok
    exact Answers.silent hnoted rfl
  · split at hok
    · exact absurd hok (by simp)
    · next hdispatch =>
      have hanswers := dispatch_answers hmtu hb hnoted hdispatch
      cases hok
      refine ⟨hanswers.peer, ?_⟩
      split
      · refine fits_append hanswers.fits (fits_sendRaw (fits_encode ?_ _) _)
        rw [kHeaderSize, List.length_nil] at *
        omega
      · exact hanswers.fits

/-! ## The reactor -/

lemma sendHandshakes_answers (hb : FitsBucket x25519 me) (h : OwnPeer x25519 me peer)
    (clock : Clock) :
    Answers x25519 me (sendHandshakes me clock peer) := by
  unfold sendHandshakes
  split
  · exact Answers.silent h rfl
  · split
    · exact sendHandshake_answers hb h clock
    · exact Answers.silent h rfl

lemma sendHeartbeats_answers (hmtu : kHeaderSize < me.config.mtu) (hb : FitsBucket x25519 me)
    (h : OwnPeer x25519 me peer) (bw : BandwidthEstimator) (clock : Clock) :
    Answers x25519 me (sendHeartbeats me bw clock peer) := by
  unfold sendHeartbeats
  split
  · exact Answers.silent h rfl
  · split
    · exact Answers.silent h rfl
    · have hrtt : Moderate me (put32 (rttUs bw)) :=
        Moderate.of_length hmtu (by rw [length_put32]; decide)
      have hcontrol := sendControl_answers hb h clock .heartbeat hrtt false
      exact ⟨hcontrol.peer.frame ⟨rfl, rfl, rfl⟩, hcontrol.fits⟩

/-- Nothing is listed unless retransmission is on and the report interval is positive. -/
lemma scanMissing_lost (peer : Peer) (reportInterval : Int) (now : TimePoint)
    (h : peer.retransmit = false ∨ reportInterval ≤ 0) :
    (Report.scanMissing reportInterval now peer).2 = [] := by
  rcases h with hoff | hinterval
  · have hfold : ∀ (l : List (UInt32 × TimePoint)) (s : Peer × List UInt32),
        s.1.retransmit = false →
        (l.foldl (Report.scanEntry reportInterval now) s).2 = s.2 := by
      intro l
      induction l with
      | nil => exact fun s _ => rfl
      | cons e l ih =>
          intro s hs
          have hround : (Report.scanEntry reportInterval now s e).2 = s.2 := by
            unfold Report.scanEntry
            simp only [hs, Bool.false_eq_true, not_false_eq_true, true_or, if_true]
          rw [List.foldl_cons,
            ih _ ((Report.scanEntry_frame reportInterval now s e).1.retransmit.trans hs), hround]
    exact hfold _ _ hoff
  · refine List.eq_nil_iff_forall_not_mem.mpr fun k hk => ?_
    obtain ⟨since, -, hlate, hgive⟩ := Report.aged_of_mem_scan_lost hk
    have hgiveUp : Report.giveUpUs reportInterval ≤ 0 := by
      unfold Report.giveUpUs
      have hretries : Report.kMaxRetries.toNat = 10 := rfl
      rw [hretries]
      omega
    omega

/-- The size of a report. -/
lemma length_buildPayload (peer : Peer) (reportInterval : Int) (now : TimePoint) :
    (Report.buildPayload peer reportInterval now).2.length =
      12 + min ((Report.scanMissing reportInterval now peer).2.length % 65536) 256 * 4 + 4 := by
  rw [← Report.lostCount_toNat]
  exact Report.length_encodePayload _ _ _ _

lemma sendReports_answers (hmtu : kHeaderSize < me.config.mtu) (hb : FitsBucket x25519 me)
    (h : OwnPeer x25519 me peer) (clock : Clock) :
    Answers x25519 me (sendReports me clock peer) := by
  have hsize :
      kHeaderSize + (Report.buildPayload peer me.config.reportInterval clock.now).2.length ≤
      4 * me.config.mtu := by
    rw [length_buildPayload]
    by_cases hon : me.config.retransmitEnabled = true ∧ 0 < me.config.reportInterval
    · have hcap := hb.report hon.1 hon.2
      omega
    · rw [scanMissing_lost peer _ _ ?_, List.length_nil]
      · rw [kHeaderSize] at *
        omega
      · rw [h.retransmit]
        rcases not_and_or.mp hon with hoff | hinterval
        · exact Or.inl (Bool.not_eq_true _ ▸ hoff)
        · exact Or.inr (not_lt.mp hinterval)
  unfold sendReports
  split
  · exact Answers.silent h rfl
  · split
    · exact Answers.silent h rfl
    · refine ⟨h.frame ?_, fits_sendRaw (fits_encode hsize _) _⟩
      simp only
      rw [Report.buildPayload_frame]
      exact ⟨rfl, rfl, rfl⟩

lemma checkOffline_answers (h : OwnPeer x25519 me peer) (clock : Clock) :
    Answers x25519 me (checkOffline me clock peer) := by
  have hframe : (checkOffline me clock peer).1.retransmit = peer.retransmit ∧
      (checkOffline me clock peer).1.cryptoReady = peer.cryptoReady ∧
      enqueued (checkOffline me clock peer).2 = [] := by
    unfold checkOffline
    simp only
    split
    · exact ⟨rfl, rfl, rfl⟩
    · split
      · exact ⟨rfl, rfl, rfl⟩
      · split <;> exact ⟨rfl, rfl, rfl⟩
  exact Answers.silent (h.shrink hframe.1 (Outgoing.checkOffline_shrinks me clock peer) hframe.2.1)
    hframe.2.2

lemma flushCommands_answers (h : OwnPeer x25519 me peer) (bw : BandwidthEstimator) (clock : Clock) :
    Answers x25519 me (flushCommands bw clock peer) := by
  refine Answers.silent (h.frame ?_) (enqueued_commands _ _)
  rw [flushCommands, CommandChannel.flushExpired, expireLocked_frame]
  exact ⟨rfl, rfl, rfl⟩

/-! ## Data packets -/

/-- The packet of a fragment can be kept and sent. -/
lemma registerDataPacket_own (hmtu : kHeaderSize < me.config.mtu) (h : OwnPeer x25519 me peer)
    {frag : Fragment}
    (hwidth : frag.width = fragPayload me.config.mtu) (clock : Clock) :
    OwnPeer x25519 me (registerDataPacket me clock peer frag).1 ∧
      (registerDataPacket me clock peer frag).2.1.payloadSize =
        UInt16.ofNat (registerDataPacket me clock peer frag).2.2.length ∧
      Moderate me (registerDataPacket me clock peer frag).2.2 := by
  obtain ⟨hsize, hlength⟩ := registerDataPacket_size me clock peer frag
  have hmoderate : Moderate me (registerDataPacket me clock peer frag).2.2 :=
    Moderate.of_fragment hmtu (hlength.trans hwidth)
  have hframe : (registerDataPacket me clock peer frag).1.retransmit = peer.retransmit ∧
      (registerDataPacket me clock peer frag).1.cryptoReady = peer.cryptoReady := by
    unfold registerDataPacket
    simp only
    split_ifs <;> exact ⟨rfl, rfl⟩
  refine ⟨?_, hsize, hmoderate⟩
  obtain ⟨hkept, hdropped⟩ := Outgoing.registerDataPacket_pending
    (show registerDataPacket me clock peer frag = (_, _, _) from rfl)
  cases hkeep : keepsPending me peer (registerDataPacket me clock peer frag).2.1 with
  | true =>
      obtain ⟨-, ps, hheader, hpayload, hpending⟩ := hkept hkeep
      refine h.insert hframe.1 hpending hframe.2 ?_
      rw [hheader, hpayload]
      exact ⟨hsize, hmoderate⟩
  | false => exact h.frame ⟨hframe.1, hdropped hkeep, hframe.2⟩

lemma recordWireSize_own (hmtu : kHeaderSize < me.config.mtu) (h : OwnPeer x25519 me peer)
    (seq : UInt32)
    (size : ℕ) : OwnPeer x25519 me (recordWireSize peer seq size) := by
  refine h.insert rfl rfl rfl ?_
  rw [ExtTreeMap.getD_eq_getD_getElem?]
  cases hps : peer.pending[seq]? with
  | none => exact ⟨rfl, Moderate.nil hmtu⟩
  | some ps => exact h.pending seq ps hps

lemma transmitDataPacket_answers (hmtu : kHeaderSize < me.config.mtu) (hb : FitsBucket x25519 me)
    (h : OwnPeer x25519 me peer) (hsize : header.payloadSize = UInt16.ofNat payload.length)
    (hpayload : Moderate me payload) {keep : Bool}
    (hok : transmitDataPacket (.ofGcm x25519 hkdfSha256) me peer header payload keep =
      .ok (peer', acts)) :
    Answers x25519 me (peer', acts) := by
  unfold transmitDataPacket at hok
  split at hok
  · exact absurd hok (by simp)
  · next datagram out hbuild =>
    obtain ⟨rfl, rfl⟩ := Prod.mk.inj (Except.ok.inj hok)
    refine ⟨?_, fits_append ?_ (fits_sendRaw (hpayload.built hb h hsize hbuild) peer)⟩
    · split
      · exact recordWireSize_own hmtu h _ _
      · exact h
    · rw [enqueued_buildWirePacket hbuild]
      exact fun _ hd => absurd hd List.not_mem_nil

lemma fragmentAndSend_own (h : OwnPeer x25519 me peer) (payload : Bytes) (mtu : ℕ)
    (buffers : List Bytes) :
    OwnPeer x25519 me (Fragmenter.fragmentAndSend peer payload mtu buffers).1 :=
  h.frame ⟨rfl, rfl, rfl⟩

end

end Transport
end Damen
