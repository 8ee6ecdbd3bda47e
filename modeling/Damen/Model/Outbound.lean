import Damen.Model.SendQueue

/-!
# The outbound queue and its two consumers

What `tight/src/transport.cpp` does with `m_outbound_queue`: `send_raw` appends a packet, the sender
thread takes packets out one by one, and in lite mode the reactor does the same through the slot
`m_lite_pending`, in which a packet waits for the token bucket.  The packets are of any type.

Whether the token bucket covers a packet depends on clocks and on the bandwidth estimate, and is an
argument.  The sender thread waits for its tokens, so it has no such argument.
-/

namespace Damen

namespace BlockingQueue

variable {α : Type}

/-- `poll`, and `take_for` up to the waiting. -/
def poll (q : BlockingQueue α) : BlockingQueue α × Option α :=
  match q.items with
  | [] => (q, none)
  | item :: items => ({ q with items }, some item)

end BlockingQueue

namespace Transport

structure Outbound (α : Type) where
  queue : BlockingQueue α := { capacity := 65536 }
  /-- `m_lite_pending`. -/
  litePending : Option α := none
  /-- The packet the sender thread has taken out. -/
  sending : Option α := none
  /-- What was passed to `sendto`, in order. -/
  sent : List α := []

namespace Outbound

variable {α : Type}

/-- `send_raw` behind its guard, with the packet if it was accepted. -/
def push (o : Outbound α) (packet : α) : Outbound α × Option α :=
  let (queue, pushed) := o.queue.tryPush packet
  ({ o with queue }, if pushed then some packet else none)

/-- The sender thread takes a packet, if there is one. -/
def take (o : Outbound α) : Outbound α :=
  let (queue, packet) := o.queue.poll
  { o with queue, sending := packet }

/-- The sender thread sends the packet it has taken, unless its peer has no address. -/
def send (ready : α → Bool) (o : Outbound α) : Outbound α :=
  match o.sending with
  | none => o
  | some packet =>
      { o with sending := none, sent := if ready packet then o.sent ++ [packet] else o.sent }

/-- The first half of a round of `drain_sender`: an empty slot is filled from the queue. -/
def fill (o : Outbound α) : Outbound α :=
  match o.litePending with
  | some _ => o
  | none =>
      let (queue, litePending) := o.queue.poll
      { o with queue, litePending }

/-- The second half: the packet in the slot is sent if there are enough tokens. -/
def flush (ready : α → Bool) (enough : Bool) (o : Outbound α) : Outbound α :=
  match o.litePending with
  | none => o
  | some packet =>
      if ¬ ready packet then { o with litePending := none }
      else if ¬ enough then o
      else { o with litePending := none, sent := o.sent ++ [packet] }

end Outbound
end Transport
end Damen
