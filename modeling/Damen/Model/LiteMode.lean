import Damen.Model.Outbound

/-!
# Switching to lite mode

`set_lite_mode(true)` of `tight/src/transport.cpp` and the threads that are there while it runs.
The call sets `m_lite_mode`, so that the reactor starts to empty the queues, tells the workers to
stop and waits for them: `receiver_loop`, `encode_loop` and `sender_loop` look at
`m_workers_running` at the head of their loops and have an exit path behind them.  `m_running` stays
set.

Every thread is somewhere in its code, and a step is what it does between two accesses to something
shared.  What an encode task comes to is the list of the packets of its fragments; whoever else
sends a packet (a handler, the reactor, the application) does so in a step of its own.
-/

namespace Damen
namespace Transport

structure OutboundPacket where
  peer : Peer
  datagram : Bytes
  /-- `send_raw` takes no packet for a peer without an address, and none loses it. -/
  addressed : peer.addrSet = true

def OutboundPacket.ready (packet : OutboundPacket) : Bool := packet.peer.addrSet

namespace LiteMode

/-- Where `set_lite_mode(true)` is. -/
inductive Call
  | start
  /-- `m_lite_mode` is set. -/
  | stored
  /-- `m_workers_running` is cleared. -/
  | stopped
  | receiverJoined
  | encoderJoined
  | returned
  deriving DecidableEq

/-- Where `encode_loop` is. -/
inductive Encoder
  | check
  | take
  /-- The packets of a task that are still to be sent, and whether the loop has ended. -/
  | push (rest : List OutboundPacket) (leaving : Bool)
  | drain
  | done

/-- Where `sender_loop` is. -/
inductive Sender
  | check
  | take
  | send
  | drain
  | done
  deriving DecidableEq

/-- Where the reactor is in `drain_encode` and `drain_sender`, with the rounds that are left. -/
inductive Reactor
  | away
  | encode (rounds : ℕ)
  | push (rounds : ℕ) (rest : List OutboundPacket)
  | fill (rounds : ℕ)
  | flush (rounds : ℕ)

end LiteMode

open LiteMode

structure LiteMode where
  outbound : Outbound OutboundPacket := {}
  encode : BlockingQueue (List OutboundPacket) := { capacity := 4096 }
  liteMode : Bool := false
  workersRunning : Bool := true
  call : LiteMode.Call := .start
  /-- `receiver_loop` has not returned. -/
  receiving : Bool := true
  encoder : Encoder := .check
  sender : Sender := .check
  reactor : Reactor := .away

namespace LiteMode

inductive Event
  | call
  /-- `receiver_loop` returns. -/
  | receiver
  | encoder
  | sender
  /-- The reactor, and whether the token bucket covers the packet in the slot. -/
  | reactor (enough : Bool)
  /-- `send_raw`, from anywhere. -/
  | sendRaw (packet : OutboundPacket)
  /-- `process_send_queue` hands over a task. -/
  | task (packets : List OutboundPacket)

/-- The state after `send_raw`, with what was accepted. -/
def push (s : LiteMode) (packet : OutboundPacket) : LiteMode × List OutboundPacket :=
  let (outbound, accepted) := s.outbound.push packet
  ({ s with outbound }, accepted.toList)

/-- The thread cannot move: it waits for another one, or has returned. -/
inductive Blocked
  | blocked
  deriving DecidableEq

/-- `set_lite_mode(true)`. -/
def moveCall (s : LiteMode) : Except Blocked LiteMode :=
  match s.call with
  | .start =>
      .ok (if s.liteMode then { s with call := .returned }
        else { s with call := .stored, liteMode := true })
  | .stored => .ok { s with call := .stopped, workersRunning := false }
  | .stopped => if s.receiving then .error .blocked else .ok { s with call := .receiverJoined }
  | .receiverJoined =>
      match s.encoder with
      | .done => .ok { s with call := .encoderJoined }
      | _ => .error .blocked
  | .encoderJoined =>
      match s.sender with
      | .done => .ok { s with call := .returned }
      | _ => .error .blocked
  | .returned => .error .blocked

def moveReceiver (s : LiteMode) : LiteMode :=
  if s.workersRunning then s else { s with receiving := false }

/-- The exit path of `encode_loop` still encodes what is queued. -/
def moveEncoder (s : LiteMode) : Except Blocked (LiteMode × List OutboundPacket) :=
  match s.encoder with
  | .check => .ok ({ s with encoder := if s.workersRunning then .take else .drain }, [])
  | .take =>
      let (encode, task) := s.encode.poll
      .ok ({ s with
        encode
        encoder := match task with
          | none => .check
          | some packets => .push packets false }, [])
  | .push [] leaving => .ok ({ s with encoder := if leaving then .drain else .check }, [])
  | .push (packet :: rest) leaving =>
      .ok (push { s with encoder := .push rest leaving } packet)
  | .drain =>
      let (encode, task) := s.encode.poll
      .ok ({ s with
        encode
        encoder := match task with
          | none => .done
          | some packets => .push packets true }, [])
  | .done => .error .blocked

/-- `sender_loop`; the waiting for tokens ends with the packet being sent.  The exit path takes out
what is queued and does nothing with it. -/
def moveSender (s : LiteMode) : Except Blocked LiteMode :=
  match s.sender with
  | .check => .ok { s with sender := if s.workersRunning then .take else .drain }
  | .take =>
      let outbound := s.outbound.take
      .ok { s with outbound, sender := if outbound.sending.isSome then .send else .check }
  | .send => .ok { s with outbound := s.outbound.send OutboundPacket.ready, sender := .check }
  | .drain =>
      let (queue, packet) := s.outbound.queue.poll
      .ok { s with
        outbound := { s.outbound with queue }
        sender := if packet.isSome then .drain else .done }
  | .done => .error .blocked

/-- The drain passes of the reactor: up to 16 tasks, then up to 64 packets. -/
def moveReactor (s : LiteMode) (enough : Bool) : LiteMode × List OutboundPacket :=
  match s.reactor with
  | .away => (if s.liteMode then { s with reactor := .encode 16 } else s, [])
  | .encode 0 => ({ s with reactor := .fill 64 }, [])
  | .encode (rounds + 1) =>
      let (encode, task) := s.encode.poll
      ({ s with
        encode
        reactor := match task with
          | none => .fill 64
          | some packets => .push rounds packets }, [])
  | .push rounds [] => ({ s with reactor := .encode rounds }, [])
  | .push rounds (packet :: rest) => push { s with reactor := .push rounds rest } packet
  | .fill 0 => ({ s with reactor := .away }, [])
  | .fill (rounds + 1) =>
      let outbound := s.outbound.fill
      ({ s with
        outbound, reactor := if outbound.litePending.isSome then .flush rounds else .away }, [])
  | .flush rounds =>
      let outbound := s.outbound.flush OutboundPacket.ready enough
      ({ s with
        outbound, reactor := if outbound.litePending.isSome then .away else .fill rounds }, [])

/-- The output of a step is what the outbound queue has accepted. -/
def step (s : LiteMode) : Event → Except Blocked (LiteMode × List OutboundPacket)
  | .call => s.moveCall.map (·, [])
  | .receiver => .ok (s.moveReceiver, [])
  | .encoder => s.moveEncoder
  | .sender => s.moveSender.map (·, [])
  | .reactor enough => .ok (s.moveReactor enough)
  | .sendRaw packet => .ok (s.push packet)
  | .task packets => .ok ({ s with encode := (s.encode.tryPush packets).1 }, [])

end LiteMode
end Transport
end Damen
