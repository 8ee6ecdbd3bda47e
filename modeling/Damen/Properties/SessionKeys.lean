import Damen.Properties.OutboundFits
import Damen.Properties.HandshakePayload
import Damen.Properties.SharedSecret
import Damen.Properties.StreamingHash

/-!
# Two endpoints and the network between them

A `Network` is two endpoints and the datagrams each of them has enqueued so far.  The network may
lose, duplicate and reorder them, and it may bring packets of any content as long as they are not
handshakes: a handshake or its acknowledgement is one that the other end has sent (`Carried`).

Whatever the order of the steps, the session keys in force at the two ends are the same
(`session_keys_agree`), so what one end encrypts the other one opens.  The
invariant is about single datagrams (`Said`): opened by a peer with that key, a handshake among them
is the one that its sender sends to everybody.
-/

namespace Damen
namespace Transport

open Std (ExtTreeMap)
open PacketCodec (encode decode headerOf)

/-! ## The functions of the source -/

/-- A `std::array<std::uint8_t, 32>`. -/
def key32 (bytes : Bytes) : Vector UInt8 32 := Vector.ofFn fun i => bytes.getD i 0

lemma key32_toList (v : Vector UInt8 32) : key32 v.toList = v := by
  ext i hi
  simp [key32, List.getD_eq_getElem?_getD]

/-- `x25519` on byte lists; `none` is the result `false`. -/
def keyAgreement (privateKey peerPublicKey : Bytes) : Option Bytes :=
  let (sharedSecret, ok) := (Crypto.x25519 (key32 privateKey) (key32 peerPublicKey)).val
  if ok then some sharedSecret.toList else none

/-- The functions of `tight/src/crypto.cpp`. -/
def CryptoSuite.ofSource : CryptoSuite := .ofGcm keyAgreement Crypto.hkdfSha256

lemma ofGcm_fields (x : Bytes → Bytes → Option Bytes) (h : Bytes → Bytes → Bytes → Bytes) :
    (CryptoSuite.ofGcm x h).x25519 = x ∧ (CryptoSuite.ofGcm x h).hkdfSha256 = h := ⟨rfl, rfl⟩

/-- Stated for the suite, since unfolding the hash to compare both sides does not end. -/
lemma ofSource_fields : CryptoSuite.ofSource.x25519 = keyAgreement ∧
    CryptoSuite.ofSource.hkdfSha256 = Crypto.hkdfSha256 :=
      ofGcm_fields keyAgreement Crypto.hkdfSha256

/-- The key pair of a transport, from the bytes of the random generator. -/
def generateKeyPair (seed : Vector UInt8 32) : X25519KeyPair where
  privateKey := (Crypto.x25519Generate seed).val.1.toList
  publicKey := (Crypto.x25519Generate seed).val.2.toList
  length_publicKey := Vector.length_toList

/-! ## The network -/

inductive Side
  | left
  | right
  deriving DecidableEq

def Side.other : Side → Side
  | .left => .right
  | .right => .left

structure Network where
  ends : Side → Endpoint
  /-- What each end has enqueued. -/
  sent : Side → List Bytes := fun _ => []

/-- One end takes a step. -/
def Network.step (net : Network) (ev : Side × Event) : Except Fault (Network × Outputs) :=
  match Transport.step .ofSource (net.ends ev.1) ev.2 with
  | .error fault => .error fault
  | .ok (ep, out) =>
      .ok ({
        ends := Function.update net.ends ev.1 ep
        sent := Function.update net.sent ev.1 (net.sent ev.1 ++ enqueued (out.map Prod.snd)) },
        out)

variable {net : Network} {me : Local} {seed : Side → Vector UInt8 32}

lemma Network.step_of_end {side : Side} {ev : Event} {ep : Endpoint} {out : Outputs}
    (h : Transport.step .ofSource (net.ends side) ev = .ok (ep, out)) :
    net.step (side, ev) = .ok ({
      ends := Function.update net.ends side ep
      sent := Function.update net.sent side (net.sent side ++ enqueued (out.map Prod.snd)) },
      out) := by
  rw [Network.step, h]

/-- What an end says in a packet of this type, if that is always the same. -/
def handshakeText (me : Local) : PacketType → Option Bytes
  | .handshake => some (handshakePayload me)
  | .handshakeAck => some (handshakeAckPayload me)
  | _ => none

/-- A packet that an end receives and that could be a handshake was sent by the other end. -/
def Network.Carried (net : Network) : Side × Event → Prop
  | (side, .packet _ header payload _ _) =>
      handshakeText (net.ends side.other).toLocal header.type = none ∨
        ∃ datagram ∈ net.sent side.other, decode datagram = some (header, payload)
  | _ => True

/-! ## What is said in a datagram -/

/-- The packet is no handshake, or the one that `me` sends. -/
def Genuine (me : Local) (header : PacketHeader) (payload : Bytes) : Prop :=
  ∀ said ∈ handshakeText me header.type, header.clientId = me.clientId ∧ payload = said

/-- A session key in force is this one. -/
def Keyed (key : Option Bytes) (peer : Peer) : Prop :=
  peer.cryptoReady = true → key = some peer.cryptoKey

/-- Opened by a peer with this key, the datagram is genuine. -/
def Said (me : Local) (key : Option Bytes) (datagram : Bytes) : Prop :=
  ∀ receiver, Keyed key receiver → ∀ wire body header payload,
    decode datagram = some (wire, body) →
      openPacket .ofSource receiver wire body = some (header, payload) → Genuine me header payload

/-- A packet as `send_control` makes it. -/
structure ControlPacket (me : Local) (header : PacketHeader) (payload : Bytes) : Prop where
  magic : header.magic = kMagic
  version : header.version = kVersion
  flags : header.flags = 0
  size : header.payloadSize.toNat = payload.length
  room : payload.length + 16 ≤ 65535
  genuine : Genuine me header payload

lemma controlPacket_of {type : PacketType} {payload : Bytes} (hroom : payload.length + 16 ≤ 65535)
    (hsaid : ∀ said ∈ handshakeText me type, payload = said) (sequence tick : UInt32) :
    ControlPacket me { ownHeader me type with
      sequence, payloadSize := UInt16.ofNat payload.length, tick } payload where
  magic := rfl
  version := rfl
  flags := rfl
  size := UInt16.toNat_ofNat_of_lt' (show payload.length < 65536 by omega)
  room := hroom
  genuine said h := ⟨rfl, hsaid said h⟩

section

variable {me other : Local} {key : Option Bytes} {peer peer' : Peer} {bw bw' : BandwidthEstimator}
  {clock : Clock} {header : PacketHeader} {payload : Bytes} {acts : List Action}

variable {datagram : Bytes}

lemma said_of_type (h : handshakeText me (headerOf datagram).type = none) :
    Said me key datagram := by
  intro receiver _ wire body header payload hdecode hopen said hsaid
  obtain ⟨rfl, -⟩ := PacketCodec.decode_eq_some_iff.mp hdecode
  rw [openPacket_type hopen, h] at hsaid
  exact absurd hsaid (by simp)

lemma type_headerOf_encode (header : PacketHeader) (payload : Bytes) :
    (headerOf (encode header payload)).type = header.type := by
  rw [PacketCodec.encode_eq, PacketCodec.headerOf_append]

lemma ControlPacket.said (h : ControlPacket me header payload) :
    Said me key (encode header payload) := by
  intro receiver _ wire body header' payload' hdecode hopen
  obtain ⟨checksum, hencode⟩ := PacketCodec.decode_encode header payload h.magic h.version h.size
  obtain ⟨rfl, rfl⟩ := Prod.mk.inj (Option.some.inj (hencode.symm.trans hdecode))
  rw [openPacket, if_neg (by simp [h.flags])] at hopen
  obtain ⟨rfl, rfl⟩ := Prod.mk.inj (Option.some.inj hopen)
  exact h.genuine

/-- A packet that is sent again may be encrypted on the way. -/
lemma ControlPacket.said_built (hkey : Keyed key peer) (h : ControlPacket me header payload)
    (hbuild : buildWirePacket .ofSource me peer header payload = .ok (datagram, acts)) :
    Said me key datagram := by
  by_cases henc : me.config.encryptionEnabled = true ∧ peer.cryptoReady = true
  · obtain ⟨datagram', acts', wire, body, checksum, hbuild', hdecode, hflags, hopen⟩ :=
      encrypted_round_trip keyAgreement Crypto.hkdfSha256 henc.1 henc.2 henc.2 rfl h.magic
        h.version h.size
        h.room
    obtain ⟨rfl, -⟩ := Prod.mk.inj (Except.ok.inj (hbuild'.symm.trans hbuild))
    intro receiver hreceiver wire' body' header' payload' hdecode' hopen'
    obtain ⟨rfl, rfl⟩ := Prod.mk.inj (Option.some.inj (hdecode.symm.trans hdecode'))
    rw [openPacket, if_pos (hflags ▸ marked_ne_zero _)] at hopen'
    have hready : receiver.cryptoReady = true := by
      by_contra hnot
      rw [decryptPayload, if_pos hnot] at hopen'
      exact absurd hopen' (by simp)
    have hsame : receiver.cryptoKey = peer.cryptoKey :=
      Option.some.inj ((hreceiver hready).symm.trans (hkey henc.2))
    have hdecrypt : decryptPayload .ofSource receiver wire body =
        decryptPayload .ofSource peer wire body := by
      unfold decryptPayload
      rw [hready, hsame, henc.2]
    rw [hdecrypt] at hopen'
    obtain ⟨rfl, rfl⟩ := Prod.mk.inj (Option.some.inj (hopen.symm.trans hopen'))
    exact h.genuine
  · rw [buildWirePacket, if_neg (by simpa using henc), if_neg (by rw [h.size]; omega)] at hbuild
    obtain ⟨rfl, -⟩ := Prod.mk.inj (Except.ok.inj hbuild)
    rw [h.size, Nat.sub_self, List.replicate_zero, List.append_nil]
    exact h.said

/-! ## Handlers -/

/-- The retransmission buffer holds packets of this end, and a session key in force is `key`. -/
structure Ally (me : Local) (key : Option Bytes) (peer : Peer) : Prop where
  pending : ∀ (seq : UInt32) (ps : PendingSend), peer.pending[seq]? = some ps →
    ControlPacket me ps.header ps.payload
  keyed : Keyed key peer

/-- What a handler leaves behind and what it enqueues. -/
structure Speaks (me : Local) (key : Option Bytes) (r : Peer × List Action) : Prop where
  ally : Ally me key r.1
  said : ∀ datagram ∈ enqueued r.2, Said me key datagram

/-- The fields that `Ally` is about. -/
def channel (peer : Peer) : ExtTreeMap UInt32 PendingSend × Bool × Bytes :=
  (peer.pending, peer.cryptoReady, peer.cryptoKey)

lemma Ally.shrink (h : Ally me key peer) (hpending : Outgoing.Shrinks peer.pending peer'.pending)
    (hready : peer'.cryptoReady = peer.cryptoReady) (hkey : peer'.cryptoKey = peer.cryptoKey) :
    Ally me key peer' where
  pending seq ps' hps' := by
    obtain ⟨ps, hps, hheader, hpayload⟩ := hpending seq ps' hps'
    rw [hheader, hpayload]
    exact h.pending seq ps hps
  keyed := by
    unfold Keyed
    rw [hready, hkey]
    exact h.keyed

lemma Ally.frame (h : Ally me key peer) (hsame : channel peer' = channel peer) :
    Ally me key peer' := by
  obtain ⟨hpending, hrest⟩ := Prod.mk.inj hsame
  obtain ⟨hready, hkey⟩ := Prod.mk.inj hrest
  exact h.shrink (hpending ▸ Outgoing.Shrinks.refl _) hready hkey

lemma Speaks.silent {r : Peer × List Action} (h : Ally me key r.1) (hacts : enqueued r.2 = []) :
    Speaks me key r :=
  ⟨h, fun _ hd => absurd (hacts ▸ hd) List.not_mem_nil⟩

lemma said_append {acts' : List Action} (h : ∀ d ∈ enqueued acts, Said me key d)
    (h' : ∀ d ∈ enqueued acts', Said me key d) :
    ∀ d ∈ enqueued (acts ++ acts'), Said me key d := by
  intro d hd
  rw [enqueued_append, List.mem_append] at hd
  exact hd.elim (h d) (h' d)

lemma said_sendRaw (h : Said me key datagram) (peer : Peer) :
    ∀ d ∈ enqueued (sendRaw peer datagram), Said me key d := by
  intro d hd
  unfold sendRaw at hd
  split at hd
  · exact List.mem_singleton.mp hd ▸ h
  · exact absurd hd List.not_mem_nil

lemma sendControl_speaks (h : Ally me key peer) (clock : Clock) (type : PacketType)
    (hroom : payload.length + 16 ≤ 65535) (hsaid : ∀ said ∈ handshakeText me type, payload = said)
    (ackable : Bool) : Speaks me key (sendControl me clock peer type payload ackable) := by
  have hcontrol := controlPacket_of hroom hsaid
  cases ackable with
  | true =>
      refine ⟨⟨fun seq ps hps => ?_, h.keyed⟩, said_sendRaw (hcontrol _ _).said peer⟩
      obtain ⟨ps', hheader, hpayload, hpending⟩ :=
        Outgoing.sendControl_pending me clock peer type payload
      rw [hpending, OrderedMap.getElem?_insert] at hps
      split_ifs at hps
      · obtain rfl := Option.some.inj hps
        rw [hheader, hpayload]
        exact hcontrol _ _
      · exact h.pending seq ps hps
  | false => exact ⟨h, said_sendRaw (hcontrol _ _).said peer⟩

lemma goOnline_speaks (h : Ally me key peer) (clock : Clock) :
    Speaks me key (goOnline me clock peer) := by
  refine Speaks.silent (h.frame rfl) ?_
  rw [goOnline, enqueued_append, enqueued_sendSpeedTest]
  rfl

/-- Two ends that encrypt, with the session key that the first one derives for the second one. -/
structure Partners (me other : Local) (key : Option Bytes) : Prop where
  encrypts : me.config.encryptionEnabled = true
  otherEncrypts : other.config.encryptionEnabled = true
  room : (handshakePayload me).length + 16 ≤ 65535
  otherRoom : (handshakePayload other).length + 16 ≤ 65535
  derives : key = (CryptoSuite.ofSource.x25519 me.keypair.privateKey other.keypair.publicKey).map
    fun shared => CryptoSuite.ofSource.hkdfSha256 shared
      (keySalt me.clientId other.clientId) keyInfo

lemma sendHandshake_speaks (hp : Partners me other key) (h : Ally me key peer) (clock : Clock) :
    Speaks me key (sendHandshake me clock peer) := by
  have hally : Ally me key { peer with lastHandshakeSent := clock.now } := h.frame rfl
  exact sendControl_speaks hally clock .handshake hp.room (fun _ h => Option.some.inj h) true

lemma answerHandshake_speaks (hp : Partners me other key) (h : Ally me key peer) (clock : Clock) :
    Speaks me key (answerHandshake me clock peer) := by
  have hreturn : Speaks me key (returnHandshake me clock peer) := by
    unfold returnHandshake
    split
    · exact sendHandshake_speaks hp h clock
    · exact Speaks.silent h rfl
  have hestablish : ∀ peer, Ally me key peer → Speaks me key (establish peer) := by
    intro peer h
    unfold establish
    split
    · exact Speaks.silent (h.frame rfl) rfl
    · exact Speaks.silent h rfl
  have hevent := hestablish _ hreturn.ally
  have hlength := length_handshakeAckPayload me
  have hack : Speaks me key _ := sendControl_speaks hevent.ally clock .handshakeAck (by omega)
    (fun _ h => Option.some.inj h) true
  exact ⟨hack.ally, said_append (said_append hreturn.said hevent.said) hack.said⟩

/-- The public key of the other end gives the session key. -/
lemma Ally.derive {cs : CryptoSuite} {pub : Bytes} {clientId : UInt32} (h : Ally me key peer)
    (hkey : key = (cs.x25519 me.keypair.privateKey pub).map fun shared =>
      cs.hkdfSha256 shared (keySalt me.clientId clientId) keyInfo) :
    Ally me key (deriveSessionKey cs me peer pub clientId) := by
  unfold deriveSessionKey
  split
  · exact h
  · next shared hshared =>
    rw [hshared] at hkey
    exact ⟨h.pending, fun _ => hkey⟩

lemma syncClock_channel (bw : BandwidthEstimator) (peer : Peer) (tick : UInt32)
    (arrivalMs : UInt64) : channel (syncClock bw peer tick arrivalMs) = channel peer := by
  obtain ⟨_, _, _, _, _, hframe⟩ := syncClock_frame bw peer tick arrivalMs
  rw [hframe]
  rfl

lemma Partners.parse (hp : Partners me other key) :
    parseHandshake me.config.encryptionEnabled (handshakePayload other) =
      some (sentFields other) := by
  rw [hp.encrypts, ← hp.otherEncrypts]
  refine parseHandshake_handshakePayload ?_
  have hroom := hp.otherRoom
  unfold handshakePayload at hroom
  simp only [List.length_append, List.length_take, List.length_cons] at hroom
  omega

lemma handleHandshake_speaks (hp : Partners me other key) (h : Ally me key peer)
    (hheader : header.clientId = other.clientId) :
    Speaks me key (handleHandshake .ofSource me bw clock peer header (handshakePayload other)) := by
  unfold handleHandshake
  rw [hp.parse]
  simp only
  split
  · exact Speaks.silent (h.frame rfl) rfl
  · refine answerHandshake_speaks hp ?_ clock
    have hpub : (sentFields other).publicKey = some other.keypair.publicKey :=
      if_pos hp.otherEncrypts
    unfold adoptHandshake
    rw [hpub, hheader]
    exact Ally.derive (h.frame (syncClock_channel bw _ header.tick clock.unixMillis)) hp.derives

lemma handleHandshakeAck_speaks (hp : Partners me other key) (h : Ally me key peer)
    (hheader : header.clientId = other.clientId) :
    Speaks me key (handleHandshakeAck .ofSource me bw clock peer header
      (handshakeAckPayload other)) := by
  have hread : ∀ peer, Ally me key peer →
      Ally me key (readAckTail .ofSource me peer header (handshakeAckPayload other)) := by
    intro peer h
    have hpayload : handshakeAckPayload other =
        other.keypair.publicKey ++ [flagByte other.config] := by
      rw [handshakeAckPayload, publicKeyField, if_pos hp.otherEncrypts]
    have hlength : (handshakeAckPayload other).length = 33 := by
      rw [hpayload, List.length_append, other.keypair.length_publicKey]
      rfl
    have htake : ((handshakeAckPayload other).drop 0).take 32 = other.keypair.publicKey := by
      rw [hpayload]
      exact List.take_left' other.keypair.length_publicKey
    unfold readAckTail
    rw [if_neg (by rw [hpayload]; simp)]
    simp only [hlength, hp.encrypts, hheader, htake, Nat.reduceSub, le_refl, and_self, if_true]
    exact Ally.derive (h.frame rfl) hp.derives
  have hreset : Ally me key (CommandChannel.reset
      (syncClock bw peer header.tick clock.unixMillis)) :=
    h.frame (syncClock_channel bw peer header.tick clock.unixMillis)
  unfold handleHandshakeAck
  simp only
  split
  · exact Speaks.silent (hread _ hreset) rfl
  · split
    · have honline : Speaks me key (sendControl me clock _ .online [] true) :=
        sendControl_speaks (hread _ hreset) clock .online (by decide) (fun _ h => nomatch h) true
      have hgo : Speaks me key _ := goOnline_speaks honline.ally clock
      exact ⟨hgo.ally, said_append honline.said hgo.said⟩
    · exact Speaks.silent (hread _ hreset) rfl

lemma resend_said (h : Ally me key peer) {packets : List (PacketHeader × Bytes)}
    (hpackets : ∀ packet ∈ packets, ControlPacket me packet.1 packet.2)
    (hacts : resend .ofSource me peer packets = .ok acts) :
    ∀ d ∈ enqueued acts, Said me key d := by
  induction packets generalizing acts with
  | nil =>
      cases hacts
      exact fun _ hd => absurd hd List.not_mem_nil
  | cons packet packets ih =>
      rw [resend] at hacts
      split at hacts
      · exact absurd hacts (by simp)
      · next datagram out hbuild =>
        split at hacts
        · exact absurd hacts (by simp)
        · next out' hrest =>
          have hfirst := hpackets packet List.mem_cons_self
          rw [← Except.ok.inj hacts]
          refine said_append
            (said_append ?_ (said_sendRaw (hfirst.said_built h.keyed hbuild) peer)) ?_
          · rw [enqueued_buildWirePacket hbuild]
            exact fun _ hd => absurd hd List.not_mem_nil
          · exact ih (fun packet hmem => hpackets packet (List.mem_cons_of_mem _ hmem)) hrest

lemma handleReport_speaks (h : Ally me key peer)
    (hok : handleReport .ofSource me bw clock peer header payload = .ok (bw', peer', acts)) :
    Speaks me key (peer', acts) := by
  have hally : Ally me key (Report.handle peer payload clock.now).1 := by
    refine h.shrink (Outgoing.report_shrinks peer payload clock.now) ?_ ?_ <;>
      rw [Report.handle_frame]
  unfold handleReport at hok
  simp only at hok
  split at hok
  · exact absurd hok (by simp)
  · next out hresend =>
    obtain ⟨rfl, rfl⟩ := ok_inj hok
    refine ⟨hally, resend_said hally (fun packet hpacket => ?_) hresend⟩
    obtain ⟨k, ps, hps, rfl⟩ := Report.mem_resent hpacket
    exact h.pending k ps hps

lemma dispatch_speaks (hp : Partners me other key) (h : Ally me key peer)
    (hgenuine : Genuine other header payload)
    (hok : dispatch .ofSource me bw clock peer header payload = .ok (bw', peer', acts)) :
    Speaks me key (peer', acts) := by
  unfold dispatch at hok
  unfold Genuine at hgenuine
  split at hok
  · next htype =>
    rw [htype] at hgenuine
    obtain ⟨hclient, rfl⟩ := hgenuine _ rfl
    obtain ⟨rfl, rfl⟩ := ok_inj hok
    exact handleHandshake_speaks hp h hclient
  · next htype =>
    rw [htype] at hgenuine
    obtain ⟨hclient, rfl⟩ := hgenuine _ rfl
    obtain ⟨rfl, rfl⟩ := ok_inj hok
    exact handleHandshakeAck_speaks hp h hclient
  · obtain ⟨rfl, rfl⟩ := ok_inj hok
    unfold handleOnline
    split
    · exact goOnline_speaks h clock
    · exact Speaks.silent h rfl
  · obtain ⟨rfl, rfl⟩ := ok_inj hok
    obtain ⟨_, _, _, _, _, _, hframe⟩ := handleHeartbeat_frame bw clock peer header payload
    exact Speaks.silent (h.frame ((congrArg channel hframe).trans rfl)) rfl
  · obtain ⟨rfl, rfl⟩ := ok_inj hok
    unfold handleBye
    split
    · exact Speaks.silent (h.frame rfl) rfl
    · exact Speaks.silent h rfl
  iterate 2
    split at hok
    · exact absurd hok (by simp)
    · next hdata =>
      obtain ⟨-, rfl⟩ := Prod.mk.inj (Except.ok.inj hok)
      refine Speaks.silent (h.frame ?_) (handleData_sameBuffer hdata).2
      rw [handleData_frame hdata, Reassembler.trackSequence_frame, Reassembler.accountTransit_frame]
      rfl
  · obtain ⟨rfl, rfl⟩ := ok_inj hok
    obtain ⟨_, _, _, _, _, _, hframe⟩ := handleAck_frame bw clock peer header
    refine Speaks.silent (h.shrink (Outgoing.handleAck_shrinks bw clock peer header) ?_ ?_) rfl <;>
      exact (congrArg _ hframe).trans rfl
  · exact handleReport_speaks h hok
  · obtain ⟨rfl, rfl⟩ := ok_inj hok
    have hframe := congrArg channel (Report.finalizeProbeTrain_frame peer clock.now)
    exact Speaks.silent (h.frame (hframe.trans rfl)) rfl
  · obtain ⟨rfl, rfl⟩ := ok_inj hok
    refine Speaks.silent (h.frame ?_) (enqueued_commands _ _)
    exact (congrArg channel (commandHandle_frame peer header payload (rttUs bw)
      clock.now)).trans rfl
  · obtain ⟨rfl, rfl⟩ := ok_inj hok
    exact Speaks.silent h rfl

lemma receivePacket_speaks (hp : Partners me other key) (h : Ally me key peer)
    (hgenuine : ∀ r ∈ openPacket .ofSource peer header payload, Genuine other r.1 r.2)
    (hok : receivePacket .ofSource me bw clock peer header payload = .ok (bw', peer', acts)) :
    Speaks me key (peer', acts) := by
  have hnoted : Ally me key (noteSender clock peer header) := h.frame rfl
  rcases receivePacket_ok hok with ⟨-, -, rfl, rfl⟩ | ⟨header', payload', acts', hopen,
    hdispatch, rfl⟩
  · exact Speaks.silent hnoted rfl
  · have hspeaks := dispatch_speaks hp hnoted (hgenuine _ hopen) hdispatch
    refine ⟨hspeaks.ally, ?_⟩
    split
    · refine said_append hspeaks.said (said_sendRaw (said_of_type ?_) _)
      rw [type_headerOf_encode]
      rfl
    · exact hspeaks.said

/-! ## The reactor -/

lemma tickPeer_speaks (hp : Partners me other key) (h : Ally me key peer) (bw : BandwidthEstimator)
    (clock : Clock) : Speaks me key (tickPeer me bw clock peer) := by
  have hhandshakes : ∀ p, Ally me key p → Speaks me key (sendHandshakes me clock p) := by
    intro p h
    unfold sendHandshakes
    split_ifs
    · exact Speaks.silent h rfl
    · exact sendHandshake_speaks hp h clock
    · exact Speaks.silent h rfl
  have hheartbeats : ∀ p, Ally me key p → Speaks me key (sendHeartbeats me bw clock p) := by
    intro p h
    have hcontrol : Speaks me key (sendControl me clock p .heartbeat (put32 (rttUs bw)) false) :=
      sendControl_speaks h clock .heartbeat (by rw [length_put32]; decide)
        (fun _ h => nomatch h) false
    unfold sendHeartbeats
    split
    · exact Speaks.silent h rfl
    · split
      · exact Speaks.silent h rfl
      · exact ⟨hcontrol.ally.frame rfl, hcontrol.said⟩
  have hreports : ∀ p, Ally me key p → Speaks me key (sendReports me clock p) := by
    intro p h
    unfold sendReports
    split
    · exact Speaks.silent h rfl
    · split
      · exact Speaks.silent h rfl
      · have hframe :=
          congrArg channel (Report.buildPayload_frame p me.config.reportInterval clock.now)
        refine ⟨h.frame (hframe.trans rfl), said_sendRaw (said_of_type ?_) _⟩
        rw [type_headerOf_encode]
        rfl
  have hoffline : ∀ p, Ally me key p → Speaks me key (checkOffline me clock p) := by
    intro p h
    have hframe : (checkOffline me clock p).1.cryptoReady = p.cryptoReady ∧
        (checkOffline me clock p).1.cryptoKey = p.cryptoKey ∧
        enqueued (checkOffline me clock p).2 = [] := by
      unfold checkOffline
      simp only
      split_ifs <;> exact ⟨rfl, rfl, rfl⟩
    exact Speaks.silent (h.shrink (Outgoing.checkOffline_shrinks me clock p) hframe.1 hframe.2.1)
      hframe.2.2
  have hcommands : ∀ p, Ally me key p → Speaks me key (flushCommands bw clock p) := by
    intro p h
    refine Speaks.silent (h.frame ?_) (enqueued_commands _ _)
    exact (congrArg channel (expireLocked_frame p (rttUs bw) clock.now)).trans rfl
  unfold tickPeer
  simp only
  have h₁ := hhandshakes _ h
  generalize sendHandshakes me clock peer = r₁ at h₁ ⊢
  have h₂ := hheartbeats _ h₁.ally
  generalize sendHeartbeats me bw clock r₁.1 = r₂ at h₂ ⊢
  have h₃ := hreports _ h₂.ally
  generalize sendReports me clock r₂.1 = r₃ at h₃ ⊢
  have h₄ := hoffline _ h₃.ally
  generalize checkOffline me clock r₃.1 = r₄ at h₄ ⊢
  have h₅ := hcommands _ h₄.ally
  exact ⟨h₅.ally,
    said_append (said_append (said_append (said_append h₁.said h₂.said) h₃.said) h₄.said)
    h₅.said⟩

/-! ## Steps -/

/-- Every peer of this end is an ally. -/
structure Allied (me : Local) (key : Option Bytes) (ep : Endpoint) : Prop where
  self : ep.toLocal = me
  peers : ∀ (x : Bytes) (peer : Peer), ep.peers[x]? = some peer → Ally me key peer

lemma ally_new : Ally me key {} where
  pending seq ps hps := by simp at hps
  keyed h := absurd h Bool.false_ne_true

lemma Allied.getD {ep : Endpoint} (h : Allied me key ep) (x : Bytes) :
    Ally me key (ep.peers.getD x {}) := by
  rw [ExtTreeMap.getD_eq_getD_getElem?]
  cases hx : ep.peers[x]? with
  | none => exact ally_new
  | some peer => exact h.peers x peer hx

lemma connect_speaks (hp : Partners me other key) {ep : Endpoint} (h : Allied me key ep)
    (id : Bytes) (addr : AddrKey) (clock : Clock) :
    (connect ep id addr clock).1.toLocal = me ∧
      ∃ r, Speaks me key r ∧ (connect ep id addr clock).1.peers[id]? = some r.1 ∧
        actionsFor id (connect ep id addr clock).2 = r.2 := by
  -- the peer that had the address may be dropped first
  have hdropped : ∀ old, Allied me key { ep with peers := ep.peers.erase old } := by
    refine fun old => ⟨h.self, fun x peer hpeer => ?_⟩
    rw [OrderedMap.getElem?_erase] at hpeer
    split_ifs at hpeer
    exact h.peers x peer hpeer
  have hcall : ∀ ep' : Endpoint, Allied me key ep' → ∀ peer,
      channel peer = channel (ep'.peers.getD id {}) →
        Speaks me key (sendHandshake ep'.toLocal clock peer) := by
    intro ep' h' peer hsame
    rw [h'.self]
    exact sendHandshake_speaks hp ((h'.getD id).frame hsame) clock
  unfold connect
  simp only
  split
  · next old _ =>
    split
    · refine ⟨h.self, _, hcall _ (hdropped old) _ ?_, ExtTreeMap.getElem?_insert_self,
        actionsFor_outputsOf_self _ _⟩
      split <;> rfl
    · refine ⟨h.self, _, hcall _ h _ ?_, ExtTreeMap.getElem?_insert_self,
        actionsFor_outputsOf_self _ _⟩
      split <;> rfl
  · refine ⟨h.self, _, hcall _ h _ ?_, ExtTreeMap.getElem?_insert_self,
      actionsFor_outputsOf_self _ _⟩
    split <;> rfl

/-- What a step does for one peer. -/
lemma step_speaks (hp : Partners me other key) {ep ep' : Endpoint}
    (h : Allied me key ep) {ev : Event} {out : Outputs}
    (hcarried : ∀ addr header payload clock random, ev = .packet addr header payload clock random →
      ∀ receiver, Keyed key receiver →
        ∀ r ∈ openPacket .ofSource receiver header payload, Genuine other r.1 r.2)
    (hstep : step .ofSource ep ev = .ok (ep', out)) (x : Bytes) :
    ep'.toLocal = me ∧ (∀ peer, ep'.peers[x]? = some peer → Ally me key peer) ∧
      ∀ d ∈ enqueued (actionsFor x out), Said me key d := by
  by_cases hconnect : ∃ addr clock, ev = .connect x addr clock
  · obtain ⟨addr, clock, rfl⟩ := hconnect
    obtain ⟨hself, r, hspeaks, hpeer, hout⟩ := connect_speaks hp h x addr clock
    simp only [step, Except.ok.injEq] at hstep
    rw [hstep] at hself hpeer hout
    refine ⟨hself, fun peer hp' => ?_, hout ▸ hspeaks.said⟩
    exact Option.some.inj (hpeer.symm.trans hp') ▸ hspeaks.ally
  obtain ⟨hlocal, hview⟩ :=
    step_view (x := x) (fun addr clock heq => hconnect ⟨addr, clock, heq⟩) hstep
  refine ⟨hlocal.trans h.self, ?_⟩
  have hnothing : ∀ d ∈ enqueued [], Said me key d :=
    fun _ hd => absurd hd List.not_mem_nil
  cases hview with
  | packet hkey hreceive hpeer =>
      rename_i addr header payload clock random peer'
      have hally : Ally me key (peerFor ep addr clock.now random) := by
        unfold peerFor
        simp only
        split
        · exact h.getD _
        · exact (h.getD _).frame rfl
      rw [h.self] at hreceive
      have hspeaks := receivePacket_speaks hp hally
        (hcarried addr header payload clock random rfl _ hally.keyed) hreceive
      rw [hpeer]
      exact ⟨fun peer hp' => Option.some.inj hp' ▸ hspeaks.ally, hspeaks.said⟩
  | tick hpeer hout =>
      rename_i clock
      rw [hpeer, hout, h.self]
      cases hx : ep.peers[x]? with
      | none => exact ⟨by simp, hnothing⟩
      | some peer =>
          have hspeaks : Speaks me key _ :=
            tickPeer_speaks hp (h.peers x peer hx) ep.bandwidth clock
          exact ⟨fun _ hp' => Option.some.inj hp' ▸ hspeaks.ally, hspeaks.said⟩
  | command hpeer hstate hbuild hpeer' hout =>
      rename_i id payload clock peer datagram acts
      have hally := h.peers x peer hpeer
      rw [hpeer', hout]
      refine ⟨fun _ hp' => Option.some.inj hp' ▸ hally.frame rfl,
        said_append ?_ (said_sendRaw ?_ _)⟩
      · rw [enqueued_buildWirePacket hbuild]
        exact hnothing
      · obtain ⟨_, _, _, hheader⟩ := headerOf_buildWirePacket hbuild
        refine said_of_type ?_
        rw [hheader]
        rfl
  | dropped hpeer hout =>
      rw [hpeer, hout]
      exact ⟨by simp, hnothing⟩
  | other hpeer hout =>
      rw [hpeer, hout]
      exact ⟨h.peers x, hnothing⟩

end

/-! ## Runs -/

/-- Both ends and all datagrams are in order. -/
structure Network.Sound (locals : Side → Local) (key : Option Bytes) (net : Network) : Prop where
  allied : ∀ side, Allied (locals side) key (net.ends side)
  said : ∀ side, ∀ datagram ∈ net.sent side, Said (locals side) key datagram

section

variable {locals : Side → Local} {key : Option Bytes} {net net' : Network}

lemma Network.Sound.carried (h : net.Sound locals key) {side : Side} {addr : AddrKey}
    {header : PacketHeader} {payload : Bytes} {clock : Clock} {random : UInt64}
    (hcarried : net.Carried (side, .packet addr header payload clock random)) {receiver : Peer}
    (hkeyed : Keyed key receiver) :
    ∀ r ∈ openPacket .ofSource receiver header payload, Genuine (locals side.other) r.1 r.2 := by
  intro r hr
  rcases hcarried with hother | ⟨datagram, hsent, hdecode⟩
  · intro said hsaid
    rw [openPacket_type hr, ← (h.allied side.other).self, hother] at hsaid
    exact absurd hsaid (by simp)
  · exact h.said side.other datagram hsent receiver hkeyed _ _ _ _ hdecode hr

lemma Network.step_sound (hp : ∀ side, Partners (locals side) (locals side.other) key)
    (h : net.Sound locals key) {ev : Side × Event} {out : Outputs} (hcarried : net.Carried ev)
    (hstep : net.step ev = .ok (net', out)) : net'.Sound locals key := by
  obtain ⟨side, ev⟩ := ev
  rw [Network.step] at hstep
  split at hstep
  · exact absurd hstep (by simp)
  · next ep' out' hend =>
    obtain ⟨rfl, rfl⟩ := Prod.mk.inj (Except.ok.inj hstep)
    have hspeaks := step_speaks (hp side) (h.allied side)
      (fun addr header payload clock random heq receiver hkeyed => by
        obtain rfl : ev = _ := heq
        exact h.carried hcarried hkeyed) hend
    refine ⟨fun s => ?_, fun s => ?_⟩ <;> by_cases hs : s = side
    · subst hs
      simp only [Function.update_self]
      exact ⟨(hspeaks []).1, fun x => (hspeaks x).2.1⟩
    · simp only [Function.update_of_ne hs]
      exact h.allied s
    · subst hs
      simp only [Function.update_self]
      intro d hd
      rcases List.mem_append.mp hd with hold | hnew
      · exact h.said s d hold
      · obtain ⟨e, he, hact⟩ := List.mem_map.mp (mem_enqueued.mp hnew)
        refine (hspeaks e.1).2.2 d (mem_enqueued.mpr (List.mem_filterMap.mpr ⟨e, he, ?_⟩))
        rw [if_pos rfl, hact]
    · simp only [Function.update_of_ne hs]
      exact h.said s

end

/-! ## Keys -/

/-- Two endpoints before the first step, with keys of their own. -/
structure Network.Fresh (seed : Side → Vector UInt8 32) (net : Network) : Prop where
  keypair : ∀ side, (net.ends side).keypair = generateKeyPair (seed side)
  peers : ∀ side, (net.ends side).peers = ∅
  sent : ∀ side, net.sent side = []
  encrypts : ∀ side, (net.ends side).config.encryptionEnabled = true
  /-- The handshake fits a packet, with the tag it may get when it is sent again. -/
  room : ∀ side, (handshakePayload (net.ends side).toLocal).length + 16 ≤ 65535

lemma keySalt_comm (a b : UInt32) : keySalt a b = keySalt b a := by
  have hmin : ∀ a b : UInt32, min a b = if a ≤ b then a else b := fun _ _ => rfl
  have hmax : ∀ a b : UInt32, max a b = if a ≤ b then b else a := fun _ _ => rfl
  simp only [keySalt, hmin, hmax]
  grind

lemma keyAgreement_generated (a b : Vector UInt8 32) :
    keyAgreement (generateKeyPair a).privateKey (generateKeyPair b).publicKey =
      some (Rfc7748.x25519 a.toList (Rfc7748.x25519 b.toList Crypto.nine)) := by
  obtain ⟨-, hok⟩ := Crypto.x25519_generated a b
  obtain ⟨-, hbytes, -⟩ := Crypto.x25519_yields a (Crypto.x25519Generate b).val.2
  have hprivate : key32 (generateKeyPair a).privateKey = a := by
    rw [generateKeyPair, key32_toList, (Crypto.x25519Generate_yields a).2.1]
  have hpublic : key32 (generateKeyPair b).publicKey = (Crypto.x25519Generate b).val.2 :=
    key32_toList _
  unfold keyAgreement
  rw [hprivate, hpublic]
  simp only [hok, if_true]
  rw [hbytes, (Crypto.x25519Generate_yields b).2.2]

lemma deriveSessionKey_of {cs : CryptoSuite} {pub shared : Bytes}
    (h : cs.x25519 me.keypair.privateKey pub = some shared) (peer : Peer) (clientId : UInt32) :
    deriveSessionKey cs me peer pub clientId = { peer with
      cryptoReady := true
      cryptoKey := cs.hkdfSha256 shared (keySalt me.clientId clientId) keyInfo } := by
  rw [deriveSessionKey, h]

/-- The session key is what the standards make of the two private keys and the client ids: HKDF with
SHA-256 of the X25519 secret. -/
theorem session_key_refines (a b : Vector UInt8 32) (me : Local) (peer : Peer) (clientId : UInt32) :
    deriveSessionKey .ofSource { me with keypair := generateKeyPair a } peer
      (generateKeyPair b).publicKey
        clientId =
      { peer with
        cryptoReady := true
        cryptoKey := Fips180.hkdf (Rfc7748.x25519 a.toList (Rfc7748.x25519 b.toList Crypto.nine))
          (keySalt me.clientId clientId) keyInfo } := by
  have hsecret := keyAgreement_generated a b
  rw [← ofSource_fields.1] at hsecret
  have hlength : ∀ k u, (Rfc7748.x25519 k u).length = 32 :=
    fun _ _ => Crypto.length_encodeUCoordinate _
  have hsalt : (keySalt me.clientId clientId).length = 8 := rfl
  rw [deriveSessionKey_of hsecret, ofSource_fields.2, Crypto.hkdfSha256_eq (by rw [hlength]; decide)
    (by rw [hsalt]; decide) (by decide)]

/-- Two fresh ends derive the same session key. -/
lemma Network.Fresh.partners (h : net.Fresh seed) :
    ∃ key, ∀ side, Partners (net.ends side).toLocal (net.ends side.other).toLocal (some key) := by
  have hleft := keyAgreement_generated (seed .left) (seed .right)
  have hright := keyAgreement_generated (seed .right) (seed .left)
  rw [Crypto.x25519_comm] at hright
  set secret := Rfc7748.x25519 (seed .left).toList (Rfc7748.x25519 (seed .right).toList Crypto.nine)
  refine ⟨CryptoSuite.ofSource.hkdfSha256 secret
    (keySalt (net.ends .left).clientId (net.ends .right).clientId) keyInfo, fun side =>
    ⟨h.encrypts side, h.encrypts side.other, h.room side, h.room side.other, ?_⟩⟩
  have hkey : CryptoSuite.ofSource.x25519 (net.ends side).keypair.privateKey
      (net.ends side.other).keypair.publicKey = some secret := by
    rw [h.keypair, h.keypair]
    cases side
    · exact hleft
    · exact hright
  have hsalt : keySalt (net.ends side).clientId (net.ends side.other).clientId =
      keySalt (net.ends .left).clientId (net.ends .right).clientId := by
    cases side
    · rfl
    · exact keySalt_comm _ _
  rw [hkey, hsalt, Option.map_some]

lemma Network.Fresh.run_sound {net' : Network} (h : net.Fresh seed) {events : List (Side × Event)}
    {outs : List Outputs} (hcarried : Machine.Along Network.step Network.Carried net events)
    (hrun : Machine.run Network.step net events = .ok (net', outs)) :
    ∃ key, net'.Sound (fun side => (net.ends side).toLocal) (some key) := by
  obtain ⟨key, hp⟩ := h.partners
  refine ⟨key, Machine.run_invariant (fun _ _ _ _ hs hP hstep => Network.step_sound hp hs hP hstep)
    ⟨fun side => ⟨rfl, fun x peer hpeer => ?_⟩, fun side d hd => ?_⟩ hcarried hrun⟩
  · simp [h.peers] at hpeer
  · simp [h.sent] at hd

/-- Whatever the sender's end encrypts for the receiver, the receiver opens. -/
def OpensSealed (me : Local) (sender receiver : Peer) : Prop :=
  ∀ (header : PacketHeader) (payload : Bytes), header.magic = kMagic → header.version = kVersion →
    header.flags < 0x8000 → header.payloadSize.toNat = payload.length →
      payload.length + 16 ≤ 65535 →
      ∃ datagram acts wire body checksum,
        buildWirePacket .ofSource me sender header payload = .ok (datagram, acts) ∧
          decode datagram = some (wire, body) ∧
          openPacket .ofSource receiver wire body = some ({ header with checksum }, payload)

lemma opensSealed_of_keyed {key : Option Bytes} {sender receiver : Peer}
    (henc : me.config.encryptionEnabled = true) (hsender : Keyed key sender)
    (hreceiver : Keyed key receiver) (hs : sender.cryptoReady = true)
    (hr : receiver.cryptoReady = true) : OpensSealed me sender receiver := by
  intro header payload hmagic hversion hflags hsize hlen
  have hkey : receiver.cryptoKey = sender.cryptoKey :=
    Option.some.inj ((hreceiver hr).symm.trans (hsender hs))
  obtain ⟨datagram, acts, wire, body, checksum, hbuild, hdecode, hmark, hopen⟩ :=
    encrypted_round_trip keyAgreement Crypto.hkdfSha256 henc hs hr hkey hmagic hversion hsize hlen
  rw [flags_below hflags] at hopen
  refine ⟨datagram, acts, wire, body, checksum, hbuild, hdecode, ?_⟩
  rw [openPacket, if_pos (hmark ▸ marked_ne_zero _)]
  exact hopen

/-- The session keys in force at the two ends are the same one, so that each end opens what the
other one encrypts. -/
def Network.KeysAgree (net : Network) : Prop :=
  ∃ key : Bytes, ∀ (side : Side) (x : Bytes) (peer : Peer), (net.ends side).peers[x]? = some peer →
    peer.cryptoReady = true → peer.cryptoKey = key ∧
      ∀ (y : Bytes) (receiver : Peer), (net.ends side.other).peers[y]? = some receiver →
        receiver.cryptoReady = true → OpensSealed (net.ends side).toLocal peer receiver

/-- However the packets of two endpoints are lost, duplicated and reordered, and whatever else
arrives that is no handshake: the session keys agree. -/
theorem session_keys_agree (seed : Side → Vector UInt8 32) (net net' : Network)
    (hfresh : net.Fresh seed) (events : List (Side × Event)) (outs : List Outputs)
    (hcarried : Machine.Along Network.step Network.Carried net events)
    (hrun : Machine.run Network.step net events = .ok (net', outs)) : net'.KeysAgree := by
  obtain ⟨key, hsound⟩ := hfresh.run_sound hcarried hrun
  refine ⟨key, fun side x peer hpeer hready => ?_⟩
  have hally := (hsound.allied side).peers x peer hpeer
  refine ⟨(Option.some.inj (hally.keyed hready)).symm, fun y receiver hreceiver hready' => ?_⟩
  have hally' := (hsound.allied side.other).peers y receiver hreceiver
  refine opensSealed_of_keyed ?_ hally.keyed hally'.keyed hready hready'
  rw [(hsound.allied side).self]
  exact hfresh.encrypts side

/-- A session key is in force for some peer. -/
def Endpoint.Ready (ep : Endpoint) : Prop :=
  ∃ (x : Bytes) (peer : Peer), ep.peers[x]? = some peer ∧ peer.cryptoReady = true

/-- A handshake of the other end with the same token puts the session key in force. -/
lemma handleHandshake_ready {other : Local} {key : Bytes} (hp : Partners me other (some key))
    (htoken : other.config.token = me.config.token) (bw : BandwidthEstimator) (clock : Clock)
    (peer : Peer) (header : PacketHeader) :
    (handleHandshake .ofSource me bw clock peer header (handshakePayload other)).1.cryptoReady =
      true := by
  obtain ⟨shared, hshared, -⟩ := Option.map_eq_some_iff.mp hp.derives.symm
  have hpub : (sentFields other).publicKey = some other.keypair.publicKey := if_pos hp.otherEncrypts
  have hsame : (sentFields other).token = me.config.token := htoken
  unfold handleHandshake
  simp only [hp.parse]
  rw [if_neg (not_not.mpr hsame)]
  refine (congrArg Terms.cryptoReady (termsOf_answerHandshake me clock _)).trans ?_
  unfold adoptHandshake
  rw [hpub]
  simp only [deriveSessionKey_of hshared]
  rfl

lemma handlePacket_ready {other : Local} {key : Bytes} (ep : Endpoint)
    (hp : Partners ep.toLocal other (some key)) (htoken : other.config.token = ep.config.token)
    (header : PacketHeader) (htype : header.type = .handshake) (hflags : header.flags = 0)
    (addr : AddrKey) (clock : Clock) (random : UInt64) :
    ∃ ep' out, handlePacket .ofSource ep addr header (handshakePayload other) clock random =
      .ok (ep', out) ∧ ep'.Ready := by
  have hopen : openPacket .ofSource (peerFor ep addr clock.now random) header
      (handshakePayload other) = some (header, handshakePayload other) := by
    rw [openPacket, if_neg (by simp [hflags])]
  have hdispatch (peer : Peer) :
      dispatch .ofSource ep.toLocal ep.bandwidth clock peer header (handshakePayload other) =
        .ok (ep.bandwidth, handleHandshake .ofSource ep.toLocal ep.bandwidth clock peer header
          (handshakePayload other)) := by
    rw [dispatch, htype]
  obtain ⟨ep', out, hhandle, hpeer⟩ :=
    handlePacket_of_receive (receivePacket_of_dispatch hopen (hdispatch _))
  exact ⟨ep', out, hhandle, _, _, hpeer, handleHandshake_ready hp htoken _ _ _ _⟩

/-- Two endpoints that do not know each other yet. -/
def strangers : Network where
  ends side := { config := { token := [9] }, clientId := if side = .left then 1 else 2
                 keypair := generateKeyPair (Vector.replicate 32 (if side = .left then 1 else 2)) }

lemma strangers_fresh :
    strangers.Fresh fun side => Vector.replicate 32 (if side = .left then 1 else 2) := by
  refine ⟨fun _ => rfl, fun _ => rfl, fun _ => rfl, fun _ => rfl, fun side => ?_⟩
  rw [handshakePayload]
  simp only [List.length_append, length_publicKeyField, strangers]
  decide

/-- The datagram in which an end introduces itself. -/
def introduction (side : Side) : Bytes :=
  let me := (strangers.ends side).toLocal
  encode { ownHeader me .handshake with
    sequence := 1, payloadSize := UInt16.ofNat (handshakePayload me).length } (handshakePayload me)

/-- Each end connects to the other one. -/
def calls : List (Side × Event) :=
  [(.left, .connect [98] ⟨1, 1⟩ ⟨0, 0⟩), (.right, .connect [97] ⟨2, 2⟩ ⟨0, 0⟩)]

/-- The introduction of the other end arrives. -/
def greeted (side : Side) : Side × Event :=
  (side, .packet ⟨1, 1⟩ (headerOf (introduction side.other))
    (handshakePayload (strangers.ends side.other).toLocal) ⟨0, 0⟩ 0)

lemma decode_introduction (side : Side) : ∃ checksum,
    decode (introduction side) =
      some (headerOf (introduction side), handshakePayload (strangers.ends side).toLocal) ∧
    headerOf (introduction side) = { ownHeader (strangers.ends side).toLocal .handshake with
      sequence := 1
      payloadSize := UInt16.ofNat (handshakePayload (strangers.ends side).toLocal).length
      checksum } := by
  have hroom := strangers_fresh.room side
  obtain ⟨checksum, hdecode⟩ := PacketCodec.decode_encode
    { ownHeader (strangers.ends side).toLocal .handshake with
      sequence := 1
      payloadSize := UInt16.ofNat (handshakePayload (strangers.ends side).toLocal).length }
    (handshakePayload (strangers.ends side).toLocal) rfl rfl
    (UInt16.toNat_ofNat_of_lt' (show _ < 65536 by omega))
  have hheader := (PacketCodec.decode_eq_some_iff.mp hdecode).1
  refine ⟨checksum, ?_, hheader.symm⟩
  rw [hheader] at hdecode
  exact hdecode

/-- The introduction is one that the network may deliver, and it puts a key in force. -/
lemma step_greeted (side : Side)
    (hself : ∀ side, (net.ends side).toLocal = (strangers.ends side).toLocal)
    (hsent : introduction side.other ∈ net.sent side.other) :
    net.Carried (greeted side) ∧ ∃ net' out, net.step (greeted side) = .ok (net', out) ∧
      (net'.ends side).Ready ∧ (∀ side, (net'.ends side).toLocal = (strangers.ends side).toLocal) ∧
      net'.ends side.other = net.ends side.other ∧ ∀ side, net.sent side ⊆ net'.sent side := by
  obtain ⟨key, hp⟩ := strangers_fresh.partners
  obtain ⟨checksum, hdecode, hheader⟩ := decode_introduction side.other
  refine ⟨Or.inr ⟨_, hsent, hdecode⟩, ?_⟩
  have hne : side.other ≠ side := by cases side <;> decide
  obtain ⟨ep', out, hhandle, hready⟩ := handlePacket_ready (net.ends side)
    (hself side ▸ hp side) (by rw [hself]; rfl) (headerOf (introduction side.other))
    (by rw [hheader]; rfl) (by rw [hheader]; rfl) ⟨1, 1⟩ ⟨0, 0⟩ 0
  obtain ⟨-, -, -, hlocal, -⟩ := handlePacket_ok hhandle
  refine ⟨_, out, Network.step_of_end hhandle, ?_, ?_, Function.update_of_ne hne _ _, ?_⟩
  · simpa only [Function.update_self] using hready
  · exact (Function.forall_update_iff net.ends
      fun s ep => ep.toLocal = (strangers.ends s).toLocal).mpr
        ⟨hlocal.trans (hself side), fun s _ => hself s⟩
  · exact (Function.forall_update_iff net.sent fun s sent => net.sent s ⊆ sent).mpr
      ⟨List.subset_append_left _ _, fun s _ => List.Subset.refl _⟩

/-- Both ends connect, and each introduction reaches the other end. -/
theorem session_keys_agree_strangers :
    ∃ net' outs, Machine.run Network.step strangers (calls ++ [greeted .right, greeted .left]) =
        .ok (net', outs) ∧ (∀ side, (net'.ends side).Ready) ∧ net'.KeysAgree := by
  obtain ⟨net₁, outs₁, hcalls, hself₁, hsent₁⟩ : ∃ net₁ outs₁,
      Machine.run Network.step strangers calls = .ok (net₁, outs₁) ∧
        (∀ side, (net₁.ends side).toLocal = (strangers.ends side).toLocal) ∧
        ∀ side, introduction side ∈ net₁.sent side :=
    ⟨_, _, rfl, fun side => by cases side <;> rfl,
      fun side => by cases side <;> exact List.mem_cons_self⟩
  obtain ⟨hcarried₂, net₂, out₂, hstep₂, hready₂, hself₂, -, hsent₂⟩ :=
    step_greeted .right hself₁ (hsent₁ .left)
  obtain ⟨hcarried₃, net₃, out₃, hstep₃, hready₃, -, hright, -⟩ :=
    step_greeted .left hself₂ (hsent₂ .right (hsent₁ .right))
  have hrun : Machine.run Network.step strangers (calls ++ [greeted .right, greeted .left]) =
      .ok (net₃, outs₁ ++ [out₂, out₃]) :=
    Machine.run_append_ok.mpr ⟨net₁, outs₁, _, hcalls,
      Machine.run_cons_ok.mpr ⟨net₂, out₂, _, hstep₂,
      Machine.run_cons_ok.mpr ⟨net₃, out₃, [], hstep₃, rfl, rfl⟩, rfl⟩, rfl⟩
  have hcarried : Machine.Along Network.step Network.Carried strangers
      (calls ++ [greeted .right, greeted .left]) := by
    rw [Machine.along_append_iff hcalls, Machine.along_cons_iff hstep₂,
      Machine.along_cons_iff hstep₃]
    exact ⟨⟨trivial, fun _ _ _ => ⟨trivial, fun _ _ _ => trivial⟩⟩, hcarried₂, hcarried₃, trivial⟩
  refine ⟨net₃, _, hrun, fun side => ?_, session_keys_agree _ _ _ strangers_fresh _ _ hcarried hrun⟩
  cases side
  · exact hready₃
  · exact hright ▸ hready₂

end Transport
end Damen
