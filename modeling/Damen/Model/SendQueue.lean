import Damen.Model.Endpoint

/-!
# The queues in front of the encoder

`tight/include/tight/blocking_queue.hpp` without its condition variables, and the pass of
`tight/src/transport.cpp` that moves messages from the send queue to the encode queue.  The send
queue is a map from priorities to queues of messages, each with the id it is addressed to.

A pass takes out everything that is queued and decides message by message; what it cannot hand over
it queues again.
-/

namespace Damen

open Std (ExtTreeMap)

/-- `BlockingQueue`, front first.  A capacity of zero means no bound. -/
structure BlockingQueue (α : Type) where
  capacity : ℕ := 0
  closed : Bool := false
  items : List α := []

namespace BlockingQueue

variable {α : Type}

/-- The guard of `try_push`. -/
def refuses (q : BlockingQueue α) : Bool :=
  q.closed || decide (0 < q.capacity ∧ q.capacity ≤ q.items.length)

def tryPush (q : BlockingQueue α) (item : α) : BlockingQueue α × Bool :=
  if q.refuses then (q, false) else ({ q with items := q.items ++ [item] }, true)

end BlockingQueue

namespace Transport

/-- A message for the encoder; the key of the peer stands for the `Peer*`. -/
structure EncodeTask where
  peer : Bytes
  payload : Bytes
  deriving DecidableEq

/-- `m_send_queue`: ids and payloads by priority. -/
abbrev SendQueue := ExtTreeMap Int (List (Bytes × Bytes))

structure Queues where
  send : SendQueue := ∅
  encode : BlockingQueue EncodeTask := { capacity := 4096 }

/-- `queue_limit()`. -/
def queueLimit (configured : ℕ) (lite : Bool) : ℕ := if lite then min configured 128 else configured

/-- The number of messages in the send queue. -/
def total (send : SendQueue) : ℕ := (send.toList.map fun kv => kv.2.length).sum

/-- `m_send_queue[priority].emplace_back(peer_id, payload)`. -/
def enqueue (send : SendQueue) (priority : Int) (peerId payload : Bytes) : SendQueue :=
  send.insert priority (send.getD priority [] ++ [(peerId, payload)])

/-- Queues a message again, if there is room. -/
def requeue (limit : ℕ) (q : Queues) (priority : Int) (peerId payload : Bytes) : Queues :=
  if total q.send < limit then { q with send := enqueue q.send priority peerId payload } else q

/-- One message of a pass. -/
def processItem (limit : ℕ) (ep : Endpoint) (q : Queues) (priority : Int) (peerId payload : Bytes) :
    Queues :=
  match findPeer ep peerId with
  | none => q
  | some (key, peer) =>
      if peer.state ≠ .online then
        if peer.state ≠ .closed then requeue limit q priority peerId payload else q
      else
        let (encode, pushed) := q.encode.tryPush ⟨key, payload⟩
        if pushed then { q with encode }
        -- the task was moved into the call, which leaves an empty payload behind
        else requeue limit q 0 peerId []

/-- The pass: the queue is swapped for an empty one, and its messages are processed from the highest
priority down. -/
def processSendQueue (limit : ℕ) (ep : Endpoint) (q : Queues) : Queues :=
  q.send.toList.reverse.foldl
    (fun q kv => kv.2.foldl (fun q item => processItem limit ep q kv.1 item.1 item.2) q)
    { q with send := ∅ }

end Transport
end Damen
