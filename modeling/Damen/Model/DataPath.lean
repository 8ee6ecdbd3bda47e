import Damen.Model.Fragmenter
import Damen.Model.Handlers

/-!
# Sending a fragment

`send_data_packet` of `tight/src/transport.cpp`.  The function takes the lock of the peer twice: for
the sequence number and the retransmission entry, and for the size of the datagram after it was
built and handed over.  It is cut in two behind the first section, where other threads may come in
between; every fragment is sent as one that is to be acknowledged.
-/

namespace Damen
namespace Transport

open Fragmenter (Fragment)

/-- The retransmission buffer is kept when both ends have retransmission enabled. -/
def keepsPending (me : Local) (peer : Peer) (header : PacketHeader) : Bool :=
  header.type = .data ∧ me.config.retransmitEnabled ∧ peer.peerRetransmit

/-- The first section: the packet of a fragment, numbered and, if it is to be kept, put in the
retransmission buffer. -/
def registerDataPacket (me : Local) (clock : Clock) (peer : Peer) (frag : Fragment) :
    Peer × PacketHeader × Bytes :=
  let (header, payload) :=
    Fragmenter.dataPacket me.clientId me.sessionId peer.sequenceOut (tickOf clock) frag
  let keep := keepsPending me peer header
  let peer :=
    if header.type = .data then { peer with sequenceOut := peer.sequenceOut + 1 } else peer
  let ps : PendingSend :=
    { peer.pending.getD header.sequence {} with header, payload, lastSend := clock.now, bytes := 0 }
  (if keep then { peer with pending := peer.pending.insert header.sequence ps } else peer,
    header, payload)

/-- The second section: `m_pending[sequence].m_bytes = wire_size`. -/
def recordWireSize (peer : Peer) (sequence : UInt32) (size : ℕ) : Peer :=
  let ps : PendingSend := { peer.pending.getD sequence {} with bytes := size }
  { peer with pending := peer.pending.insert sequence ps }

/-- What stands behind the first section: the datagram is built and handed over without the lock,
and its size is recorded. -/
def transmitDataPacket (cs : CryptoSuite) (me : Local) (peer : Peer) (header : PacketHeader)
    (payload : Bytes) (keep : Bool) : Except Fault (Peer × List Action) :=
  match buildWirePacket cs me peer header payload with
  | .error fault => .error fault
  | .ok (datagram, out) =>
      .ok (if keep then recordWireSize peer header.sequence datagram.length else peer,
        out ++ sendRaw peer datagram)

end Transport
end Damen
