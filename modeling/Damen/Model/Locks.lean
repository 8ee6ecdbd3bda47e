import Damen.Framework.Locks
import Damen.Model.Impl

/-!
# The locks of the transport

What a thread does with `m_peers_mutex`, with the `m_mu` of the peers and with `m_callback_mutex` on
each way through `tight/src/transport.cpp`, and where on it the application is called.  A function
of the source has its trace here under its name with `Locks` behind it.  The traces follow the
branches of the source; what is decided in between is read off the model of the function, and so are
the callbacks.

The other mutexes of the transport (of the random numbers, the send queue, the bandwidth estimate
and the two blocking queues) are taken around accesses to one object each and are left out.  Where
the model of a function has a fault, the trace ends without a callback.
-/

namespace Damen
namespace Transport

open Locking (locked)

inductive Lock
  /-- `m_peers_mutex`. -/
  | peers
  /-- `m_mu` of the peer with this key. -/
  | peer (key : Bytes)
  /-- `m_callback_mutex`. -/
  | callback
  deriving DecidableEq

/-- The callees are the callbacks with their arguments. -/
abbrev LockTrace := Locking.Trace Lock Action

/-- Which callbacks are set. -/
structure Callbacks where
  message : Bool := true
  peer : Bool := true
  command : Bool := true

namespace Callbacks

/-- Whether the action calls the application. -/
def calls (cbs : Callbacks) : Action → Bool
  | .message _ _ => cbs.message
  | .peerEvent _ _ _ _ => cbs.peer
  | .command _ _ => cbs.command
  | _ => false

end Callbacks

/-- `deliver_message`, `fire_peer_event` and `fire_command`: the callback is copied under its mutex
and called without it.  The other actions take none of the locks. -/
def fire (cbs : Callbacks) (act : Action) : LockTrace :=
  match act with
  | .message _ _ | .peerEvent _ _ _ _ | .command _ _ =>
      locked .callback [] ++ if cbs.calls act then [.call act] else []
  | _ => []

def fireAll (cbs : Callbacks) (acts : List Action) : LockTrace := acts.flatMap (fire cbs)

/-- A section under the lock of the peer. -/
def underPeer (key : Bytes) : LockTrace := locked (.peer key) []

/-! ## Packets -/

section Packets

variable (cs : CryptoSuite) (cbs : Callbacks) (me : Local) (bw : BandwidthEstimator) (clock : Clock)
  (key : Bytes) (peer : Peer) (header : PacketHeader) (payload : Bytes)

/-- The lock is that of `CommandChannel::reset`. -/
def handleHandshakeLocks : LockTrace :=
  match parseHandshake me.config.encryptionEnabled payload with
  | none => []
  | some fields =>
      if fields.token ≠ me.config.token then []
      else underPeer key ++ fireAll cbs (handleHandshake cs me bw clock peer header payload).2

def handleHandshakeAckLocks : LockTrace :=
  underPeer key ++ fireAll cbs (handleHandshakeAck cs me bw clock peer header payload).2

/-- The sequence is tracked, the completed messages are looked up and the fragment is filed under
the lock; the message is delivered without it, and then marked as completed. -/
def handleDataLocks : LockTrace :=
  underPeer key ++
    if header.fragmentCount = 0 then []
    else
      underPeer key ++
        if ¬ Reassembler.Admitted peer header (maxMessageBytes me.config) then []
        else
          underPeer key ++
            match handleData me bw clock peer header payload with
            | .ok (_, act :: acts) => fireAll cbs (act :: acts) ++ underPeer key
            | _ => []

def handleCommandLocks : LockTrace :=
  if header.sequence = 0 then []
  else underPeer key ++ fireAll cbs (handleCommand bw clock peer header payload).2

def handleAckLocks : LockTrace := if header.acknowledgment = 0 then [] else underPeer key

/-- The late ratio, the snapshot, and each packet that was sent again. -/
def handleReportLocks : LockTrace :=
  if payload.length < 12 ∨ payload.length < 12 + (get16 payload 6).toNat * 4 then []
  else
    underPeer key ++ underPeer key ++
      (Report.handle peer payload clock.now).2.2.flatMap fun _ => underPeer key

def dispatchLocks : LockTrace :=
  match header.type with
  | .handshake => handleHandshakeLocks cs cbs me bw clock key peer header payload
  | .handshakeAck => handleHandshakeAckLocks cs cbs me bw clock key peer header payload
  | .online => fireAll cbs (handleOnline me clock peer).2
  | .heartbeat => []
  | .bye => fireAll cbs (handleBye peer).2
  | .data | .parity => handleDataLocks cbs me bw clock key peer header payload
  | .ack => handleAckLocks key header
  | .report => handleReportLocks clock key peer payload
  | .probe => underPeer key
  | .command => handleCommandLocks cbs bw clock key peer header payload
  | .unknown _ _ => []

/-- `handle_packet` behind the lookup of the peer. -/
def receivePacketLocks : LockTrace :=
  let peer := noteSender clock peer header
  match openPacket cs peer header payload with
  | none => []
  | some (header, payload) => dispatchLocks cs cbs me bw clock key peer header payload

end Packets

/-- The first section is that of `find_or_create_peer_by_addr`. -/
def handlePacketLocks (cs : CryptoSuite) (cbs : Callbacks) (ep : Endpoint) (addr : AddrKey)
    (header : PacketHeader) (payload : Bytes) (clock : Clock) (random : UInt64) : LockTrace :=
  let (ep, key) := findOrCreatePeerByAddr ep addr clock.now random
  locked .peers [] ++
    receivePacketLocks cs cbs ep.toLocal ep.bandwidth clock key (ep.peers.getD key {})
      header payload

/-! ## The reactor -/

/-- A loop over all peers, under `m_peers_mutex`. -/
def forPeersLocks (ep : Endpoint) (body : Bytes → Peer → LockTrace) : LockTrace :=
  locked .peers (ep.peers.toList.flatMap fun e => body e.1 e.2)

/-- The lock of the peer is that of `Report::build_payload`. -/
def sendReportsLocks (me : Local) (clock : Clock) (key : Bytes) (peer : Peer) : LockTrace :=
  if ¬ linked peer then []
  else if clock.now - peer.lastReportSent < millis me.config.reportInterval then []
  else underPeer key

/-- The sweep of the messages; for a link that has timed out, the pending packets are dropped and
the event is fired. -/
def checkOfflineLocks (cbs : Callbacks) (me : Local) (clock : Clock) (key : Bytes) (peer : Peer) :
    LockTrace :=
  underPeer key ++
    if ¬ linked peer then []
    else if clock.now - peer.lastRecv < millis me.config.deadTimeout then []
    else underPeer key ++ fireAll cbs (checkOffline me clock peer).2

/-- The commands are fired behind the loop. -/
def flushCommandsLocks (cbs : Callbacks) (ep : Endpoint) (clock : Clock) : LockTrace :=
  forPeersLocks ep (fun key _ => underPeer key) ++
    fireAll cbs ((forPeers ep (flushCommands ep.bandwidth clock)).2.map Prod.snd)

def passLocks (cbs : Callbacks) (ep : Endpoint) (clock : Clock) : Impl.Pass → LockTrace
  | .handshakes | .heartbeats => forPeersLocks ep fun _ _ => []
  | .reports => forPeersLocks ep (sendReportsLocks ep.toLocal clock)
  | .offline => forPeersLocks ep (checkOfflineLocks cbs ep.toLocal clock)
  | .commands => flushCommandsLocks cbs ep clock

/-! ## Messages -/

/-- `fragment_and_send`: the message id is drawn under the lock, and each fragment is numbered under
it and, if it is kept, takes it again for its size. -/
def fragmentAndSendLocks (me : Local) (clock : Clock) (key : Bytes) (peer : Peer) (payload : Bytes)
    (buffers : List Bytes) : LockTrace :=
  underPeer key ++
    (Fragmenter.fragmentAndSend peer payload me.config.mtu buffers).2.1.flatMap fun frag =>
      underPeer key ++
        if keepsPending me peer (registerDataPacket me clock peer frag).2.1 then underPeer key
        else []

/-! ## Calls of the application -/

inductive Call
  | connect (id : Bytes) (addr : AddrKey)
  | sendCommand (id payload : Bytes)
  | peers

/-- The lock of the peer is taken for the sequence number. -/
def sendCommandLocks (ep : Endpoint) (id payload : Bytes) : LockTrace :=
  if ep.config.mtu - kHeaderSize < payload.length then []
  else
    locked .peers (match findPeer ep id with
      | none => []
      | some (key, peer) => if peer.state ≠ .online then [] else underPeer key)

def callLocks (ep : Endpoint) : Call → LockTrace
  | .connect _ _ => locked .peers []
  | .sendCommand id payload => sendCommandLocks ep id payload
  | .peers => locked .peers []

/-! ## The ways through the transport -/

inductive Path
  /-- A packet, in `receiver_loop` or `drain_receiver`. -/
  | packet (addr : AddrKey) (header : PacketHeader) (payload : Bytes) (clock : Clock)
      (random : UInt64)
  | pass (pass : Impl.Pass) (clock : Clock)
  /-- One message of `process_send_queue`. -/
  | message
  /-- One task, in `encode_loop` or `drain_encode`. -/
  | encode (key payload : Bytes) (clock : Clock) (buffers : List Bytes)
  | call (call : Call)

def pathLocks (cs : CryptoSuite) (cbs : Callbacks) (ep : Endpoint) : Path → LockTrace
  | .packet addr header payload clock random =>
      handlePacketLocks cs cbs ep addr header payload clock random
  | .pass pass clock => passLocks cbs ep clock pass
  | .message => locked .peers []
  | .encode key payload clock buffers =>
      fragmentAndSendLocks ep.toLocal clock key (ep.peers.getD key {}) payload buffers
  | .call call => callLocks ep call

end Transport
end Damen
