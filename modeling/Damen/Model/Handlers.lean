import Damen.Model.Command
import Damen.Model.Report
import Damen.Model.Session

/-!
# Handling a packet of a peer

The handlers of `tight/src/transport.cpp` and the part of `handle_packet` behind the lookup of the
peer: `receivePacket` notes the sender's identity, decrypts what is marked as encrypted, dispatches
on the packet type and acknowledges handshake packets.
-/

namespace Damen
namespace Transport

/-! ## Handshakes -/

/-- The fields of a handshake payload. -/
structure HandshakeFields where
  role : UInt8
  id : Bytes
  /-- The announcement of the flag byte, when there is one. -/
  retransmit : Option Bool
  publicKey : Option Bytes
  token : Bytes

/-- Role, id length and id in front; behind them the token, the public key when encryption is on
and there is room for one, and the flag byte. -/
def parseHandshake (encryptionEnabled : Bool) (payload : Bytes) : Option HandshakeFields :=
  if payload.length < 3 then none
  else
    let idSize := (payload.getD 1 0).toNat * 256 + (payload.getD 2 0).toNat
    if payload.length < 3 + idSize then none
    else
      let tokenEnd := payload.length
      let hasFlags := 3 + idSize < tokenEnd
      let tokenEnd := if hasFlags then tokenEnd - 1 else tokenEnd
      let hasKey := encryptionEnabled ∧ 3 + idSize + 32 ≤ tokenEnd
      let keyStart := if hasKey then tokenEnd - 32 else tokenEnd
      some {
        role := payload.getD 0 0
        id := (payload.drop 3).take idSize
        retransmit := if hasFlags then some (payload.getD (payload.length - 1) 0 &&& 1 != 0)
          else none
        publicKey := if hasKey then some ((payload.drop keyStart).take 32) else none
        token := (payload.drop (3 + idSize)).take (keyStart - 3 - idSize) }

/-- `[pubkey 32B?][flags 1B]`. -/
def handshakeAckPayload (me : Local) : Bytes := publicKeyField me ++ [flagByte me.config]

/-- What a handshake with the right token changes at the peer: the clock is synced, the command
channel starts over, and id, role and session key are taken over. -/
def adoptHandshake (cs : CryptoSuite) (me : Local) (bw : BandwidthEstimator) (clock : Clock)
    (peer : Peer) (header : PacketHeader) (fields : HandshakeFields) : Peer :=
  let peer := CommandChannel.reset (syncClock bw peer header.tick clock.unixMillis)
  let peer := { peer with
    id := if 0 < fields.id.length then fields.id else peer.id
    role := if fields.role = LinkRole.node.toByte then .node else .leaf }
  match fields.publicKey with
  | some pub => deriveSessionKey cs me peer pub header.clientId
  | none => peer

/-- An end that did not call `connect` sends its own handshake back. -/
def returnHandshake (me : Local) (clock : Clock) (peer : Peer) : Peer × List Action :=
  if ¬ peer.reconnect ∧ peer.addrSet then sendHandshake me clock peer else (peer, [])

def establish (peer : Peer) : Peer × List Action :=
  if peer.state ≠ .established ∧ peer.state ≠ .online then
    ({ peer with state := .established }, firePeerEvent peer .established)
  else (peer, [])

/-- The answers to a handshake with the right token. -/
def answerHandshake (me : Local) (clock : Clock) (peer : Peer) : Peer × List Action :=
  let (peer, handshake) := returnHandshake me clock peer
  let (peer, event) := establish peer
  let (peer, ack) := sendControl me clock peer .handshakeAck (handshakeAckPayload me) true
  (peer, handshake ++ event ++ ack)

/-- The announcement is taken over before the token is compared. -/
def handleHandshake (cs : CryptoSuite) (me : Local) (bw : BandwidthEstimator) (clock : Clock)
    (peer : Peer) (header : PacketHeader) (payload : Bytes) : Peer × List Action :=
  match parseHandshake me.config.encryptionEnabled payload with
  | none => (peer, [])
  | some fields =>
      let peer := { peer with peerRetransmit := fields.retransmit.getD peer.peerRetransmit }
      if fields.token ≠ me.config.token then (peer, [])
      else answerHandshake me clock (adoptHandshake cs me bw clock peer header fields)

/-- Goes online and starts the speed test. -/
def goOnline (me : Local) (clock : Clock) (peer : Peer) : Peer × List Action :=
  ({ peer with state := .online }, firePeerEvent peer .online ++ sendSpeedTest me clock peer)

/-- The tail of a handshake acknowledgement: flag byte and public key. -/
def readAckTail (cs : CryptoSuite) (me : Local) (peer : Peer) (header : PacketHeader)
    (payload : Bytes) : Peer :=
  if payload = [] then peer
  else
    let tail := payload.length - 1
    let peer := { peer with peerRetransmit := payload.getD tail 0 &&& 1 != 0 }
    if me.config.encryptionEnabled ∧ 32 ≤ tail then
      deriveSessionKey cs me peer ((payload.drop (tail - 32)).take 32) header.clientId
    else peer

def handleHandshakeAck (cs : CryptoSuite) (me : Local) (bw : BandwidthEstimator) (clock : Clock)
    (peer : Peer) (header : PacketHeader) (payload : Bytes) : Peer × List Action :=
  let peer := syncClock bw peer header.tick clock.unixMillis
  let peer := CommandChannel.reset peer
  let peer := readAckTail cs me peer header payload
  if peer.state = .online then (peer, [])
  else if peer.state = .handshake ∨ peer.state = .established then
    let (peer, online) := sendControl me clock peer .online [] true
    let (peer, out) := goOnline me clock peer
    (peer, online ++ out)
  else (peer, [])

def handleOnline (me : Local) (clock : Clock) (peer : Peer) : Peer × List Action :=
  if peer.state ≠ .online then goOnline me clock peer else (peer, [])

/-! ## The other types -/

def handleHeartbeat (bw : BandwidthEstimator) (clock : Clock) (peer : Peer) (header : PacketHeader)
    (payload : Bytes) : BandwidthEstimator × Peer :=
  let peer := if 4 ≤ payload.length then { peer with senderRttUs := get32 payload 0 } else peer
  let peer := syncClock bw peer header.tick clock.unixMillis
  (feedRttFromTick bw peer header.tick clock, peer)

def handleProbe (clock : Clock) (peer : Peer) (header : PacketHeader) : Peer :=
  let peer := finalizeProbeTrain peer clock.now
  { peer with
    probeFirst := if peer.probeCount = 0 then clock.now else peer.probeFirst
    probeLast := clock.now
    probeCount := peer.probeCount + 1
    probeBytes := peer.probeBytes + (UInt64.ofNat kHeaderSize + header.payloadSize.toUInt64) }

def handleBye (peer : Peer) : Peer × List Action :=
  if peer.state ≠ .closed then ({ peer with state := .closed }, firePeerEvent peer .closed)
  else (peer, [])

def handleData (me : Local) (bw : BandwidthEstimator) (clock : Clock) (peer : Peer)
    (header : PacketHeader) (payload : Bytes) : Except Fault (Peer × List Action) :=
  match Reassembler.handleData peer header payload (rttUs bw) me.config.lateRttMultiplier
      (maxMessageBytes me.config) clock with
  | .error fault => .error (.reassembler fault)
  | .ok (peer, none) => .ok (peer, [])
  | .ok (peer, some message) => .ok (peer, [.message peer.id message])

def handleCommand (bw : BandwidthEstimator) (clock : Clock) (peer : Peer) (header : PacketHeader)
    (payload : Bytes) : Peer × List Action :=
  let (peer, ready) := CommandChannel.handle peer header payload (rttUs bw) clock.now
  (peer, ready.map (.command peer.id))

def handleAck (bw : BandwidthEstimator) (clock : Clock) (peer : Peer) (header : PacketHeader) :
    BandwidthEstimator × Peer :=
  let ack := header.acknowledgment
  if ack = 0 then (bw, peer)
  else
    match peer.pending[ack]? with
    | none => (bw, peer)
    | some ps =>
        let peer := { peer with pending := peer.pending.erase ack }
        let bw := bw.onAck ps.bytes (max 0 (toMicros (clock.now - ps.lastSend)))
        (bw, trySyncClock bw peer)

/-- The datagrams for a list of packets to send again. -/
def resend (cs : CryptoSuite) (me : Local) (peer : Peer) :
    List (PacketHeader × Bytes) → Except Fault (List Action)
  | [] => .ok []
  | (header, payload) :: rest =>
      match buildWirePacket cs me peer header payload with
      | .error fault => .error fault
      | .ok (datagram, out) =>
          match resend cs me peer rest with
          | .error fault => .error fault
          | .ok out' => .ok (out ++ sendRaw peer datagram ++ out')

def handleReport (cs : CryptoSuite) (me : Local) (bw : BandwidthEstimator) (clock : Clock)
    (peer : Peer) (header : PacketHeader) (payload : Bytes) :
    Except Fault (BandwidthEstimator × Peer × List Action) :=
  let bw := feedRttFromTick bw peer header.tick clock
  let (peer, probeBw, packets) := Report.handle peer payload clock.now
  match resend cs me peer packets with
  | .error fault => .error fault
  | .ok out =>
      let bw := bw.onLateRatio peer.peerLateRatio
      .ok (if 0 < probeBw then bw.seedBandwidth probeBw else bw, peer, out)

/-! ## Dispatch -/

/-- The packet types that are acknowledged. -/
def needAck : PacketType → Bool
  | .handshake | .handshakeAck | .online => true
  | _ => false

/-- The switch over the packet type. -/
def dispatch (cs : CryptoSuite) (me : Local) (bw : BandwidthEstimator) (clock : Clock) (peer : Peer)
    (header : PacketHeader) (payload : Bytes) :
    Except Fault (BandwidthEstimator × Peer × List Action) :=
  match header.type with
  | .handshake => .ok (bw, handleHandshake cs me bw clock peer header payload)
  | .handshakeAck => .ok (bw, handleHandshakeAck cs me bw clock peer header payload)
  | .online => .ok (bw, handleOnline me clock peer)
  | .heartbeat =>
      let (bw, peer) := handleHeartbeat bw clock peer header payload
      .ok (bw, peer, [])
  | .bye => .ok (bw, handleBye peer)
  | .data | .parity =>
      match handleData me bw clock peer header payload with
      | .error fault => .error fault
      | .ok r => .ok (bw, r)
  | .ack =>
      let (bw, peer) := handleAck bw clock peer header
      .ok (bw, peer, [])
  | .report => handleReport cs me bw clock peer header payload
  | .probe => .ok (bw, handleProbe clock peer header, [])
  | .command => .ok (bw, handleCommand bw clock peer header payload)
  | .unknown _ _ => .ok (bw, peer, [])

/-- What every packet updates: the time of the last packet and the identity of the sender. -/
def noteSender (clock : Clock) (peer : Peer) (header : PacketHeader) : Peer :=
  { peer with
    lastRecv := clock.now
    peerClientId := if peer.peerClientId = 0 ∧ header.clientId ≠ 0 then header.clientId
      else peer.peerClientId
    peerSessionId := if peer.peerSessionId = 0 ∧ header.sessionId ≠ 0 then header.sessionId
      else peer.peerSessionId }

/-- The packet that is dispatched: decrypted if it is marked as encrypted, `none` if it is
dropped. -/
def openPacket (cs : CryptoSuite) (peer : Peer) (header : PacketHeader) (payload : Bytes) :
    Option (PacketHeader × Bytes) :=
  if header.flags &&& kFlagEncrypted ≠ 0 then decryptPayload cs peer header payload
  else some (header, payload)

/-- `handle_packet` for the peer of the sender's address. -/
def receivePacket (cs : CryptoSuite) (me : Local) (bw : BandwidthEstimator) (clock : Clock)
    (peer : Peer) (header : PacketHeader) (payload : Bytes) :
    Except Fault (BandwidthEstimator × Peer × List Action) :=
  let peer := noteSender clock peer header
  match openPacket cs peer header payload with
  | none => .ok (bw, peer, [])
  | some (header, payload) =>
      match dispatch cs me bw clock peer header payload with
      | .error fault => .error fault
      | .ok (bw, peer, out) =>
          .ok (bw, peer,
            if needAck header.type then out ++ sendAckPacket me clock peer header.sequence
            else out)

end Transport
end Damen
