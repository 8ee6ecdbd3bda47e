import Damen.Framework.Run
import Damen.Model.Handlers

/-!
# An endpoint and its peers

`TightTransport::Impl` of `tight/src/transport.cpp` as a machine.  An endpoint holds its peers by
key and the keys by address, and reads events: packets that passed the decoder, rounds of the
reactor, calls of `connect` and of `send_command`.  The output of a step is the list of its actions,
each with the key of the peer it is for; a key stands for the `Peer*` of the source.

Every event carries the readings of the clocks, and a packet also the random number that is drawn
when its sender is new.  The queue of messages to be fragmented, and the workers that empty it and
the outbound queue, are not part of this machine.
-/

namespace Damen

open Std (ExtTreeMap)

/-- `operator<` of `AddrKey`: by address, then by port. -/
instance : Ord AddrKey := ⟨compareLex (compareOn AddrKey.addr) (compareOn AddrKey.port)⟩

instance : Std.TransOrd AddrKey :=
  inferInstanceAs (Std.TransCmp (compareLex (compareOn AddrKey.addr) (compareOn AddrKey.port)))

instance : Std.LawfulEqOrd AddrKey where
  eq_of_compare := by
    intro a b h
    obtain ⟨haddr, hport⟩ := compareLex_eq_eq.mp h
    have haddr : a.addr = b.addr := Std.LawfulEqOrd.eq_of_compare haddr
    have hport : a.port = b.port := Std.LawfulEqOrd.eq_of_compare hport
    cases a
    cases b
    simp_all

namespace Transport

structure Endpoint extends Local where
  bandwidth : BandwidthEstimator := {}
  peers : ExtTreeMap Bytes Peer := ∅
  peerByAddr : ExtTreeMap AddrKey Bytes := ∅

/-- The outputs of a step: what is done for which peer. -/
abbrev Outputs := List (Bytes × Action)

/-- The output `out` of the peer with key `key`. -/
def outputsOf (key : Bytes) (out : List Action) : Outputs := out.map (Prod.mk key)

/-! ## Packets -/

/-- `std::to_string`. -/
def decimal (n : ℕ) : Bytes := (Nat.toDigits 10 n).map fun c => UInt8.ofNat c.toNat

/-- `"anon-<port>-<random>"`. -/
def anonId (port : UInt16) (random : UInt64) : Bytes :=
  (['a', 'n', 'o', 'n', '-'].map fun c => UInt8.ofNat c.toNat) ++ decimal port.toNat
    ++ [UInt8.ofNat '-'.toNat] ++ decimal (random &&& 0xFFFFFFFF).toNat

/-- The key of the peer a packet from this address belongs to. -/
def peerKey (ep : Endpoint) (addr : AddrKey) (random : UInt64) : Bytes :=
  match ep.peerByAddr[addr]? with
  | some key => if key ∈ ep.peers then key else anonId addr.port random
  | none => anonId addr.port random

/-- Whether the address has a peer. -/
def Known (ep : Endpoint) (addr : AddrKey) : Prop :=
  ∃ key, ep.peerByAddr[addr]? = some key ∧ key ∈ ep.peers

instance (ep : Endpoint) (addr : AddrKey) : Decidable (Known ep addr) :=
  match h : ep.peerByAddr[addr]? with
  | none => isFalse fun ⟨_, heq, _⟩ => by simp [h] at heq
  | some key => decidable_of_iff (key ∈ ep.peers)
      ⟨fun hmem => ⟨key, h, hmem⟩, fun ⟨_, heq, hmem⟩ => by
        rw [h, Option.some.injEq] at heq
        exact heq ▸ hmem⟩

/-- The fields set for a peer that is met by a packet. -/
def anonymous (config : TightConfig) (peer : Peer) (id : Bytes) (addr : AddrKey) (now : TimePoint) :
    Peer :=
  { peer with
    id
    addr
    addrSet := true
    role := .leaf
    retransmit := config.retransmitEnabled
    state := .handshake
    lastHandshakeSent := now - oneHour }

/-- The peer a packet from this address is handled for. -/
def peerFor (ep : Endpoint) (addr : AddrKey) (now : TimePoint) (random : UInt64) : Peer :=
  let key := peerKey ep addr random
  let peer := ep.peers.getD key {}
  if Known ep addr then peer else anonymous ep.config peer key addr now

/-- `find_or_create_peer_by_addr` with the key of the peer; `m_peers[id]` default-constructs. -/
def findOrCreatePeerByAddr (ep : Endpoint) (addr : AddrKey) (now : TimePoint) (random : UInt64) :
    Endpoint × Bytes :=
  let key := peerKey ep addr random
  if Known ep addr then (ep, key)
  else
    ({ ep with
       peers := ep.peers.insert key (peerFor ep addr now random)
       peerByAddr := ep.peerByAddr.insert addr key }, key)

def handlePacket (cs : CryptoSuite) (ep : Endpoint) (addr : AddrKey) (header : PacketHeader)
    (payload : Bytes) (clock : Clock) (random : UInt64) : Except Fault (Endpoint × Outputs) :=
  let (ep, key) := findOrCreatePeerByAddr ep addr clock.now random
  match receivePacket cs ep.toLocal ep.bandwidth clock (ep.peers.getD key {}) header payload with
  | .error fault => .error fault
  | .ok (bandwidth, peer, out) =>
      .ok ({ ep with bandwidth, peers := ep.peers.insert key peer }, outputsOf key out)

/-! ## Calls of the application -/

/-- `connect`, behind the resolution of the address. -/
def connect (ep : Endpoint) (id : Bytes) (addr : AddrKey) (clock : Clock) : Endpoint × Outputs :=
  let ep : Endpoint := match ep.peerByAddr[addr]? with
    | some old => if old ≠ id then { ep with peers := ep.peers.erase old } else ep
    | none => ep
  let peer := { ep.peers.getD id {} with
    id
    addr
    addrSet := true
    role := .node
    reconnect := true
    retransmit := ep.config.retransmitEnabled }
  let peer := if peer.state = .closed then
      { peer with state := .handshake, lastHandshakeSent := clock.now - oneHour }
    else peer
  let (peer, out) := sendHandshake ep.toLocal clock peer
  ({ ep with peers := ep.peers.insert id peer, peerByAddr := ep.peerByAddr.insert addr id },
    outputsOf id out)

/-- The peer with this key, else the first one that goes by this id. -/
def findPeer (ep : Endpoint) (id : Bytes) : Option (Bytes × Peer) :=
  match ep.peers[id]? with
  | some peer => some (id, peer)
  | none => ep.peers.toList.find? fun e => e.2.id = id

/-- The header of a command. -/
def commandHeader (me : Local) (clock : Clock) (peer : Peer) (payload : Bytes) : PacketHeader :=
  { ownHeader me .command with
    sequence := peer.cmdSeqOut
    payloadSize := UInt16.ofNat payload.length
    tick := tickOf clock }

/-- `send_command`, with its result. -/
def sendCommand (cs : CryptoSuite) (ep : Endpoint) (id payload : Bytes) (clock : Clock) :
    Except Fault (Endpoint × Outputs × Bool) :=
  if ep.config.mtu - kHeaderSize < payload.length then .ok (ep, [], false)
  else
    match findPeer ep id with
    | none => .ok (ep, [], false)
    | some (key, peer) =>
        if peer.state ≠ .online then .ok (ep, [], false)
        else
          let header := commandHeader ep.toLocal clock peer payload
          let peer := { peer with cmdSeqOut := peer.cmdSeqOut + 1 }
          match buildWirePacket cs ep.toLocal peer header payload with
          | .error fault => .error fault
          | .ok (datagram, out) =>
              .ok ({ ep with peers := ep.peers.insert key peer },
                outputsOf key (out ++ sendRaw peer datagram), true)

/-! ## The reactor -/

/-- A loop over all peers. -/
def forPeers (ep : Endpoint) (f : Peer → Peer × List Action) : Endpoint × Outputs :=
  ({ ep with peers := ep.peers.map fun _ peer => (f peer).1 },
    ep.peers.toList.flatMap fun e => outputsOf e.1 (f e.2).2)

/-- The link is up. -/
def linked (peer : Peer) : Bool := peer.state = .established ∨ peer.state = .online

def sendHandshakes (me : Local) (clock : Clock) (peer : Peer) : Peer × List Action :=
  if peer.state ≠ .handshake then (peer, [])
  else if peer.pending.isEmpty then sendHandshake me clock peer
  else (peer, [])

def sendHeartbeats (me : Local) (bw : BandwidthEstimator) (clock : Clock) (peer : Peer) :
    Peer × List Action :=
  if ¬ linked peer then (peer, [])
  else if clock.now - peer.lastHeartbeatSent < millis me.config.heartbeat then (peer, [])
  else
    let (peer, out) := sendControl me clock peer .heartbeat (put32 (rttUs bw)) false
    ({ peer with lastHeartbeatSent := clock.now }, out)

def sendReports (me : Local) (clock : Clock) (peer : Peer) : Peer × List Action :=
  if ¬ linked peer then (peer, [])
  else if clock.now - peer.lastReportSent < millis me.config.reportInterval then (peer, [])
  else
    let (peer, payload) := Report.buildPayload peer me.config.reportInterval clock.now
    let header : PacketHeader :=
      { ownHeader me .report with
        payloadSize := UInt16.ofNat payload.length
        tick := tickOf clock }
    ({ peer with lastReportSent := clock.now },
      sendRaw peer (PacketCodec.encode header payload))

/-- Drops the entries that are older than the dead timeout. -/
def sweep {α : Type} (since : α → TimePoint) (deadTimeout : Int) (now : TimePoint)
    (m : ExtTreeMap UInt32 α) : ExtTreeMap UInt32 α :=
  m.toList.foldl (fun m e => if millis deadTimeout ≤ now - since e.2 then m.erase e.1 else m) m

def checkOffline (me : Local) (clock : Clock) (peer : Peer) : Peer × List Action :=
  let peer := { peer with
    incoming := sweep IncomingMessage.firstSeen me.config.deadTimeout clock.now peer.incoming
    completed := sweep id me.config.deadTimeout clock.now peer.completed }
  if ¬ linked peer then (peer, [])
  else if clock.now - peer.lastRecv < millis me.config.deadTimeout then (peer, [])
  else
    let peer := { peer with state := .closed, pending := ∅ }
    (if peer.reconnect then
      { peer with
        state := .handshake
        lastHandshakeSent := clock.now - millis me.config.retransmitTimeout
        lastRecv := clock.now }
      else peer, firePeerEvent peer .closed)

def flushCommands (bw : BandwidthEstimator) (clock : Clock) (peer : Peer) : Peer × List Action :=
  let (peer, ready) := CommandChannel.flushExpired peer (rttUs bw) clock.now
  (peer, ready.map (.command peer.id))

/-- One round of the reactor over the peers. -/
def reactorTick (ep : Endpoint) (clock : Clock) : Endpoint × Outputs :=
  let (ep, out₁) := forPeers ep (sendHandshakes ep.toLocal clock)
  let (ep, out₂) := forPeers ep (sendHeartbeats ep.toLocal ep.bandwidth clock)
  let (ep, out₃) := forPeers ep (sendReports ep.toLocal clock)
  let (ep, out₄) := forPeers ep (checkOffline ep.toLocal clock)
  let (ep, out₅) := forPeers ep (flushCommands ep.bandwidth clock)
  (ep, out₁ ++ out₂ ++ out₃ ++ out₄ ++ out₅)

/-! ## The machine -/

inductive Event
  | packet (addr : AddrKey) (header : PacketHeader) (payload : Bytes) (clock : Clock)
      (random : UInt64)
  | tick (clock : Clock)
  | connect (id : Bytes) (addr : AddrKey) (clock : Clock)
  | sendCommand (id payload : Bytes) (clock : Clock)

def step (cs : CryptoSuite) (ep : Endpoint) : Event → Except Fault (Endpoint × Outputs)
  | .packet addr header payload clock random => handlePacket cs ep addr header payload clock random
  | .tick clock => .ok (reactorTick ep clock)
  | .connect id addr clock => .ok (connect ep id addr clock)
  | .sendCommand id payload clock =>
      match sendCommand cs ep id payload clock with
      | .error fault => .error fault
      | .ok (ep, out, _) => .ok (ep, out)

end Transport
end Damen
