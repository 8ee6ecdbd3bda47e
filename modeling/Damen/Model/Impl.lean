import Damen.Model.DataPath
import Damen.Model.Outbound

/-!
# The threads of a transport and what they hold

`TightTransport::Impl` of `tight/src/transport.cpp` as the threads see it.  The encode queue, the
outbound queue, the slot of the reactor and the threads themselves hold a peer by `Peer*`.  A
pointer is modelled by the identity of what it points to: the key of the entry in `m_peers` and the
step at which the entry was created.  An entry that was erased and created again is another one, and
to use a pointer to an erased entry is a fault.

A step is what a thread does under one lock, or between two of them: a call of the application, one
pass of the reactor over the peers, one message of `process_send_queue`, or one move of a thread
that has a peer in hand.  A thread that got its peer from `find_or_create_peer_by_addr` or from the
encode queue works without `m_peers_mutex`, so any other step can come between two of its moves.
Nothing bounds the number of such threads; the transport has three.
-/

namespace Damen
namespace Transport

open Std (ExtTreeMap)
open Fragmenter (Fragment)

/-- A `Peer*`. -/
structure Ref where
  key : Bytes
  birth : ℕ
  deriving DecidableEq

/-- Something that is to be done for a peer. -/
structure Work (α : Type) where
  peer : Ref
  item : α

/-- What a thread does with a peer in hand. -/
inductive Job
  /-- A packet that is to be handled. -/
  | packet (header : PacketHeader) (payload : Bytes)
  /-- What the handler of a packet still has to do towards the outside. -/
  | outputs (acts : List Action)
  /-- A message that is to be fragmented. -/
  | message (payload : Bytes)
  /-- The fragments that are still to be sent. -/
  | fragments (frags : List Fragment)
  /-- A fragment whose packet is numbered, and the fragments behind it. -/
  | registered (header : PacketHeader) (payload : Bytes) (keep : Bool) (frags : List Fragment)

structure Impl where
  ep : Endpoint := {}
  /-- The step at which the entry of each peer was created. -/
  births : ExtTreeMap Bytes ℕ := ∅
  steps : ℕ := 0
  send : SendQueue := ∅
  /-- The messages a running `process_send_queue` has taken out. -/
  batch : List (Int × Bytes × Bytes) := []
  encode : BlockingQueue (Work Bytes) := { capacity := 4096 }
  outbound : Outbound (Work Bytes) := {}
  hands : List (Work Job) := []

inductive ImplFault
  | fault (fault : Fault)
  /-- A pointer to an erased peer is used. -/
  | dangling
  deriving DecidableEq

namespace Impl

/-- The peer of this identity is in `m_peers`. -/
def Live (s : Impl) (ref : Ref) : Prop :=
  ref.key ∈ s.ep.peers ∧ s.births[ref.key]? = some ref.birth

instance (s : Impl) (ref : Ref) : Decidable (Live s ref) := inferInstanceAs (Decidable (_ ∧ _))

/-- A pointer to the entry with this key. -/
def ref (s : Impl) (key : Bytes) : Ref := ⟨key, s.births.getD key s.steps⟩

/-- The state after the peers have changed: new entries are created now. -/
def withEndpoint (s : Impl) (ep : Endpoint) : Impl :=
  { s with ep, births := ep.peers.map fun key _ => s.births.getD key s.steps }

/-- One action for a peer; the callbacks and the speed test leave the queues alone. -/
def perform (s : Impl) (peer : Ref) : Action → Impl
  | .enqueue datagram => { s with outbound := (s.outbound.push ⟨peer, datagram⟩).1 }
  | _ => s

/-- The actions of a step that has `m_peers_mutex`. -/
def performAll (s : Impl) (out : Outputs) : Impl :=
  out.foldl (fun s e => s.perform (s.ref e.1) e.2) s

/-! ## Steps with `m_peers_mutex` -/

/-- The loops of the reactor over the peers. -/
inductive Pass
  | handshakes
  | heartbeats
  | reports
  | offline
  | commands

def Pass.apply (ep : Endpoint) (clock : Clock) : Pass → Endpoint × Outputs
  | .handshakes => forPeers ep (sendHandshakes ep.toLocal clock)
  | .heartbeats => forPeers ep (sendHeartbeats ep.toLocal ep.bandwidth clock)
  | .reports => forPeers ep (sendReports ep.toLocal clock)
  | .offline => forPeers ep (checkOffline ep.toLocal clock)
  | .commands => forPeers ep (flushCommands ep.bandwidth clock)

/-- The queues as `process_send_queue` sees them. -/
def queues (s : Impl) : Queues :=
  { send := s.send
    encode :=
      { capacity := s.encode.capacity
        closed := s.encode.closed
        items := s.encode.items.map fun task => ⟨task.peer.key, task.item⟩ } }

/-- One message of `process_send_queue`.  What it appends to the encode queue refers to the entry
the lookup has found. -/
def processMessage (s : Impl) (limit : ℕ) (priority : Int) (peerId payload : Bytes) : Impl :=
  let q := processItem limit s.ep s.queues priority peerId payload
  let added := (q.encode.items.drop s.encode.items.length).map fun task =>
    (⟨s.ref task.peer, task.payload⟩ : Work Bytes)
  { s with send := q.send, encode := { s.encode with items := s.encode.items ++ added } }

/-! ## Steps with a peer in hand -/

/-- The next move of a job, with the job that is left. -/
def advance (cs : CryptoSuite) (s : Impl) (work : Work Job) (clock : Clock) (buffers : List Bytes) :
    Except ImplFault (Impl × Option Job) :=
  let peer := s.ep.peers.getD work.peer.key {}
  let put (peer : Peer) : Endpoint :=
    { s.ep with peers := s.ep.peers.insert work.peer.key peer }
  match work.item with
  | .packet header payload =>
      match receivePacket cs s.ep.toLocal s.ep.bandwidth clock peer header payload with
      | .error fault => .error (.fault fault)
      | .ok (bandwidth, peer, acts) =>
          .ok ({ s with ep := { put peer with bandwidth } }, some (.outputs acts))
  | .outputs [] => .ok (s, none)
  | .outputs (act :: acts) => .ok (s.perform work.peer act, some (.outputs acts))
  | .message payload =>
      let (peer, frags, _) := Fragmenter.fragmentAndSend peer payload s.ep.config.mtu buffers
      .ok ({ s with ep := put peer }, some (.fragments frags))
  | .fragments [] => .ok (s, none)
  | .fragments (frag :: frags) =>
      let (peer', header, payload) := registerDataPacket s.ep.toLocal clock peer frag
      let keep := keepsPending s.ep.toLocal peer header
      .ok ({ s with ep := put peer' }, some (.registered header payload keep frags))
  | .registered header payload keep frags =>
      match transmitDataPacket cs s.ep.toLocal peer header payload keep with
      | .error fault => .error (.fault fault)
      | .ok (peer, acts) =>
          .ok (acts.foldl (fun s act => s.perform work.peer act) { s with ep := put peer },
            some (.fragments frags))

/-! ## The machine -/

inductive Event
  /-- The calls of the application and the passes of the reactor. -/
  | connect (id : Bytes) (addr : AddrKey) (clock : Clock)
  | sendCommand (id payload : Bytes) (clock : Clock)
  | sendMessage (limit : ℕ) (priority : Int) (id payload : Bytes)
  | pass (pass : Pass) (clock : Clock)
  /-- `process_send_queue` takes the messages out, and moves one of them on. -/
  | takeMessages
  | processMessage (limit : ℕ)
  /-- A packet was received, and the peer of its sender is looked up. -/
  | receive (addr : AddrKey) (header : PacketHeader) (payload : Bytes) (clock : Clock)
      (random : UInt64)
  /-- A task is taken from the encode queue. -/
  | takeTask
  /-- A thread with a peer in hand moves on; the buffers are those of the thread. -/
  | advance (hand : ℕ) (clock : Clock) (buffers : List Bytes)
  /-- The sender thread and `drain_sender`. -/
  | takePacket
  | sendPacket
  | fillSlot
  | flushSlot (enough : Bool)

/-- The address of the peer of a packet is set. -/
def ready (s : Impl) (packet : Work Bytes) : Bool := (s.ep.peers.getD packet.peer.key {}).addrSet

/-- Whether the packet, if there is one, has a peer that is still there. -/
def Usable (s : Impl) (packet : Option (Work Bytes)) : Prop := ∀ p ∈ packet, s.Live p.peer

instance (s : Impl) (packet : Option (Work Bytes)) : Decidable (s.Usable packet) :=
  inferInstanceAs (Decidable (∀ p ∈ packet, s.Live p.peer))

/-- Whether the message fits into the send queue. -/
def sendMessage (s : Impl) (limit : ℕ) (priority : Int) (id payload : Bytes) : Impl :=
  if maxMessageBytes s.ep.config < payload.length ∨ limit ≤ total s.send then s
  else { s with send := enqueue s.send priority id payload }

/-- The step, before it is counted. -/
def move (cs : CryptoSuite) (s : Impl) : Event → Except ImplFault Impl
  | .connect id addr clock =>
      let (ep, out) := connect s.ep id addr clock
      .ok ((s.withEndpoint ep).performAll out)
  | .sendCommand id payload clock =>
      match sendCommand cs s.ep id payload clock with
      | .error fault => .error (.fault fault)
      | .ok (ep, out, _) => .ok ((s.withEndpoint ep).performAll out)
  | .sendMessage limit priority id payload => .ok (s.sendMessage limit priority id payload)
  | .pass pass clock =>
      let (ep, out) := pass.apply s.ep clock
      .ok ((s.withEndpoint ep).performAll out)
  | .takeMessages =>
      .ok { s with
        send := ∅
        batch := s.batch ++ s.send.toList.reverse.flatMap fun kv => kv.2.map fun m => (kv.1, m) }
  | .processMessage limit =>
      match s.batch with
      | [] => .ok s
      | (priority, id, payload) :: batch =>
          .ok (({ s with batch }).processMessage limit priority id payload)
  | .receive addr header payload clock random =>
      let (ep, key) := findOrCreatePeerByAddr s.ep addr clock.now random
      let s := s.withEndpoint ep
      .ok { s with hands := s.hands ++ [⟨s.ref key, .packet header payload⟩] }
  | .takeTask =>
      let (encode, task) := s.encode.poll
      let hands := task.toList.map fun task => (⟨task.peer, .message task.item⟩ : Work Job)
      .ok { s with encode, hands := s.hands ++ hands }
  | .advance i clock buffers =>
      match s.hands[i]? with
      | none => .ok s
      | some work =>
          if ¬ s.Live work.peer then .error .dangling
          else
            match s.advance cs work clock buffers with
            | .error fault => .error fault
            | .ok (s, job) =>
                .ok { s with hands := match job with
                  | none => s.hands.eraseIdx i
                  | some job => s.hands.set i ⟨work.peer, job⟩ }
  | .takePacket =>
      if s.outbound.sending.isSome then .ok s else .ok { s with outbound := s.outbound.take }
  | .sendPacket =>
      if ¬ s.Usable s.outbound.sending then .error .dangling
      else .ok { s with outbound := s.outbound.send s.ready }
  | .fillSlot => .ok { s with outbound := s.outbound.fill }
  | .flushSlot enough =>
      if ¬ s.Usable s.outbound.litePending then .error .dangling
      else .ok { s with outbound := s.outbound.flush s.ready enough }

def step (cs : CryptoSuite) (s : Impl) (ev : Event) : Except ImplFault (Impl × Unit) :=
  match s.move cs ev with
  | .error fault => .error fault
  | .ok s => .ok ({ s with steps := s.steps + 1 }, ())

end Impl
end Transport
end Damen
