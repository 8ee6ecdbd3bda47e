import Damen.Model.Bandwidth
import Damen.Model.Reassembler

/-!
# Keys, datagrams and control packets of a link

The part of `tight/src/transport.cpp` that turns headers and payloads into datagrams for one peer:
key derivation, nonces and AES-256-GCM around the codec, control packets with their retransmission
entries, the handshake, the speed test and the clock sync.

The primitives of `tight/src/crypto.cpp` enter as a `CryptoSuite`.  What a function does besides
changing the peer is recorded as a list of `Action`s, in order.  Log lines are left out, and the
socket is taken to be open and the callbacks to be set.
-/

namespace Damen

open Std (ExtTreeMap)

/-! ## Configuration -/

/-- The fields of `TightConfig` the transport reads, with their defaults; durations are in
milliseconds. -/
structure TightConfig where
  id : Bytes := []
  token : Bytes := []
  role : LinkRole := .leaf
  mtu : ℕ := 1350
  heartbeat : Int := 5000
  reportInterval : Int := 1000
  deadTimeout : Int := 30000
  retransmitTimeout : Int := 500
  maxMessageBytes : ℕ := 64 * 1024
  retransmitEnabled : Bool := true
  lateRttMultiplier : Float := 4.0
  speedTestEnabled : Bool := true
  speedTestBytes : ℕ := 100 * 1024
  encryptionEnabled : Bool := true

/-- A duration in milliseconds on the scale of `TimePoint`. -/
def millis (d : Int) : Int := d * 1000000

/-- `std::chrono::hours(1)`. -/
def oneHour : Int := millis 3600000

/-- `static_cast<std::uint8_t>(role)`. -/
def LinkRole.toByte : LinkRole → UInt8
  | .leaf => 0
  | .node => 1

namespace Transport

/-- `max_message_bytes()`: the configured limit clamped to 8 KiB .. 10 MiB. -/
def maxMessageBytes (config : TightConfig) : ℕ :=
  max (8 * 1024) (min config.maxMessageBytes (10 * 1024 * 1024))

lemma length_blankKey : (List.replicate 32 (0 : UInt8)).length = 32 := rfl

structure X25519KeyPair where
  privateKey : Bytes := List.replicate 32 0
  publicKey : Bytes := List.replicate 32 0
  length_publicKey : publicKey.length = 32 := by first | exact length_blankKey | rfl

/-- What an endpoint is and keeps while it runs. -/
structure Local where
  config : TightConfig := {}
  clientId : UInt32 := 1
  sessionId : UInt64 := 0
  keypair : X25519KeyPair := {}

/-- The functions of `crypto.hpp` the transport calls. -/
structure CryptoSuite where
  /-- The shared secret of a private and a public key; `none` for a point of low order. -/
  x25519 : Bytes → Bytes → Option Bytes
  /-- Input key material, salt and info. -/
  hkdfSha256 : Bytes → Bytes → Bytes → Bytes
  /-- Key, nonce, additional data and plaintext to ciphertext and tag. -/
  aes256GcmEncrypt : Bytes → Bytes → Bytes → Bytes → Bytes × Bytes
  /-- Key, nonce, additional data, ciphertext and tag; `none` when the tag does not match. -/
  aes256GcmDecrypt : Bytes → Bytes → Bytes → Bytes → Bytes → Option Bytes

def kGcmTagSize : ℕ := 16

/-- What the transport does towards the outside. -/
inductive Action
  /-- A datagram is pushed to the outbound queue. -/
  | enqueue (datagram : Bytes)
  /-- A probe of the speed test is written to the socket. -/
  | probe (datagram : Bytes)
  /-- `aes256_gcm_encrypt` is called. -/
  | encrypt (key nonce aad plaintext : Bytes)
  /-- The message callback. -/
  | message (id payload : Bytes)
  /-- The command callback. -/
  | command (id payload : Bytes)
  /-- The peer callback. -/
  | peerEvent (id : Bytes) (role : LinkRole) (state : LinkState) (clientId : UInt32)
  deriving DecidableEq

/-- An access without a defined result. -/
inductive Fault
  | reassembler (fault : Damen.Fault)
  /-- A payload longer than the datagram that was allocated for it. -/
  | overrun
  deriving DecidableEq

def firePeerEvent (peer : Peer) (state : LinkState) : List Action :=
  [.peerEvent peer.id peer.role state peer.peerClientId]

def sendRaw (peer : Peer) (datagram : Bytes) : List Action :=
  if peer.addrSet then [.enqueue datagram] else []

/-! ## Keys and encrypted datagrams -/

/-- `"tight-data-key-v1"`. -/
def keyInfo : Bytes :=
  ['t', 'i', 'g', 'h', 't', '-', 'd', 'a', 't', 'a', '-', 'k', 'e', 'y', '-', 'v', '1'].map
    fun c => UInt8.ofNat c.toNat

/-- Both client ids in increasing order, each little-endian. -/
def keySalt (a b : UInt32) : Bytes := storeLe32 (min a b) ++ storeLe32 (max a b)

def deriveSessionKey (cs : CryptoSuite) (me : Local) (peer : Peer) (peerPub : Bytes)
    (peerClientId : UInt32) : Peer :=
  match cs.x25519 me.keypair.privateKey peerPub with
  | none => peer
  | some shared =>
      { peer with
        cryptoKey := cs.hkdfSha256 shared (keySalt me.clientId peerClientId) keyInfo
        cryptoReady := true }

/-- The 12-byte nonce of a packet. -/
def buildNonce (header : PacketHeader) : Bytes :=
  if header.type = .command then
    put32 header.clientId ++ put32 header.sequence ++ [header.type.toByte, 0, 0, 0]
  else
    put32 header.clientId ++ put32 header.messageId ++ put16 header.fragmentIndex
      ++ [header.type.toByte, 0]

/-- The first 44 header bytes, which the tag covers. -/
def additionalData (header : PacketHeader) : Bytes :=
  (PacketCodec.encodeHeaderTo header).take (kHeaderSize - 4)

/-- The datagram for a packet, encrypted once a session key is in force.  The buffer has the size
the header gives. -/
def buildWirePacket (cs : CryptoSuite) (me : Local) (peer : Peer) (header : PacketHeader)
    (payload : Bytes) : Except Fault (Bytes × List Action) :=
  if me.config.encryptionEnabled && peer.cryptoReady then
    let wireHeader : PacketHeader :=
      { header with
        flags := header.flags ||| kFlagEncrypted
        payloadSize := UInt16.ofNat (payload.length + kGcmTagSize) }
    if wireHeader.payloadSize.toNat < payload.length + kGcmTagSize then .error .overrun
    else
      let nonce := buildNonce wireHeader
      let aad := additionalData wireHeader
      let (ciphertext, tag) := cs.aes256GcmEncrypt peer.cryptoKey nonce aad payload
      .ok (PacketCodec.finalizeCrc (PacketCodec.encodeHeaderTo wireHeader ++ ciphertext ++ tag),
        [.encrypt peer.cryptoKey nonce aad payload])
  else if header.payloadSize.toNat < payload.length then .error .overrun
  else
    let padding := List.replicate (header.payloadSize.toNat - payload.length) 0
    .ok (PacketCodec.finalizeCrc (PacketCodec.encodeHeaderTo header ++ payload ++ padding), [])

/-- The header and the payload behind the encryption, when the tag matches. -/
def decryptPayload (cs : CryptoSuite) (peer : Peer) (header : PacketHeader) (payload : Bytes) :
    Option (PacketHeader × Bytes) :=
  if ¬ peer.cryptoReady then none
  else if payload.length < kGcmTagSize then none
  else
    let ctLen := payload.length - kGcmTagSize
    match cs.aes256GcmDecrypt peer.cryptoKey (buildNonce header) (additionalData header)
        (payload.take ctLen) (payload.drop ctLen) with
    | none => none
    | some plaintext =>
        some ({ header with
          payloadSize := UInt16.ofNat ctLen
          flags := header.flags &&& ~~~kFlagEncrypted }, plaintext)

/-! ## Control packets -/

/-- The header fields every packet of this endpoint starts from. -/
def ownHeader (me : Local) (type : PacketType) : PacketHeader :=
  { magic := kMagic, version := kVersion, type, clientId := me.clientId, sessionId := me.sessionId }

/-- `unix_millis() & 0xFFFFFFFF`. -/
def tickOf (clock : Clock) : UInt32 := clock.unixMillis.toUInt32

/-- Sends a control packet, with a retransmission entry when it is to be acknowledged. -/
def sendControl (me : Local) (clock : Clock) (peer : Peer) (type : PacketType) (payload : Bytes)
    (ackable : Bool) : Peer × List Action :=
  let header : PacketHeader :=
    { ownHeader me type with
      sequence := if ackable then peer.sequenceOut else 0
      payloadSize := UInt16.ofNat payload.length
      tick := tickOf clock }
  let datagram := PacketCodec.encode header payload
  let out := sendRaw peer datagram
  if ackable then
    let ps : PendingSend :=
      { peer.pending.getD header.sequence {} with
        header, payload, lastSend := clock.now, bytes := datagram.length }
    ({ peer with
       sequenceOut := peer.sequenceOut + 1
       pending := peer.pending.insert header.sequence ps }, out)
  else (peer, out)

def sendAckPacket (me : Local) (clock : Clock) (peer : Peer) (ack : UInt32) : List Action :=
  sendRaw peer (PacketCodec.encode
    { ownHeader me .ack with acknowledgment := ack, tick := tickOf clock } [])

/-- The flag byte at the end of handshake payloads: bit 0 announces retransmission. -/
def flagByte (config : TightConfig) : UInt8 := if config.retransmitEnabled then 1 else 0

/-- The public key in a handshake, when encryption is enabled. -/
def publicKeyField (me : Local) : Bytes :=
  if me.config.encryptionEnabled then me.keypair.publicKey else []

def handshakePayload (me : Local) : Bytes :=
  let idSize := min me.config.id.length 65535
  [me.config.role.toByte, UInt8.ofNat (idSize / 256), UInt8.ofNat idSize]
    ++ me.config.id.take idSize ++ me.config.token ++ publicKeyField me ++ [flagByte me.config]

def sendHandshake (me : Local) (clock : Clock) (peer : Peer) : Peer × List Action :=
  sendControl me clock { peer with lastHandshakeSent := clock.now } .handshake
    (handshakePayload me) true

/-- The payload sizes of a speed test: `frag` bytes a packet until `rest` are sent.  A packet has
at least one byte, so `rest` bounds the rounds. -/
def probeSizes (frag : ℕ) : ℕ → ℕ → List ℕ
  | 0, _ => []
  | fuel + 1, rest =>
      if rest = 0 then [] else min frag rest :: probeSizes frag fuel (rest - min frag rest)

def sendSpeedTest (me : Local) (clock : Clock) (peer : Peer) : List Action :=
  if ¬ me.config.speedTestEnabled then []
  else if ¬ peer.addrSet then []
  else
    let frag := if kHeaderSize < me.config.mtu then me.config.mtu - kHeaderSize else 1152
    let total := me.config.speedTestBytes
    (probeSizes frag total total).map fun n =>
      .probe (PacketCodec.encode
        { ownHeader me .probe with payloadSize := UInt16.ofNat n, tick := tickOf clock }
        (List.replicate n 0))

/-! ## Clock sync -/

/-- The round-trip time the handlers pass on, cut to 32 bits. -/
def rttUs (bw : BandwidthEstimator) : UInt32 := UInt32.ofInt bw.rtt

/-- Records the offset of the peer's clock, or remembers the sample until there is a round-trip
time. -/
def syncClock (bw : BandwidthEstimator) (peer : Peer) (tick : UInt32) (arrivalMs : UInt64) : Peer :=
  if tick = 0 then peer
  else if bw.rtt ≤ 0 then
    { peer with hsTick := tick, hsArrivalMs := arrivalMs, clockPending := true }
  else
    let sampleUs := (tick - arrivalMs.toUInt32).toInt32.toInt * 1000 - bw.rtt.tdiv 2
    { peer with
      clockOffsetUs := if peer.clockSynced then (peer.clockOffsetUs * 7 + sampleUs).tdiv 8
        else sampleUs
      clockSynced := true
      clockPending := false }

def trySyncClock (bw : BandwidthEstimator) (peer : Peer) : Peer :=
  if peer.clockPending then syncClock bw peer peer.hsTick peer.hsArrivalMs else peer

/-- A round-trip sample from the one-way transit of a control packet. -/
def feedRttFromTick (bw : BandwidthEstimator) (peer : Peer) (tick : UInt32) (clock : Clock) :
    BandwidthEstimator :=
  let transitUs := transitTimeUs peer tick clock.unixMillis
  if transitUs < 0 ∨ 10000000 < transitUs then bw else bw.onAck 0 (transitUs * 2)

end Transport
end Damen
