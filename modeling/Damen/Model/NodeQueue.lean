import Damen.Framework.LinkedCells

/-!
# The nodes of a blocking queue

`tight/include/tight/blocking_queue.hpp` with its nodes: a chain of nodes with items from `m_head`
to `m_tail`, and a chain of up to 64 empty ones that are used again.  Every method holds the mutex
for all it does, up to a wait, and so is one step.

A step that comes to a wait whose predicate is false has no effect, and its answer is `waits`.  Once
the predicate holds, the woken call does what a new one would do, so a call that waited is a later
call of the same method.  In `take_for` the wait may end without the predicate: `expired` says that
it has.
-/

namespace Damen

open LinkedCells

/-- `BlockingQueue`, with the nodes that are not deleted. -/
structure NodeQueue (α : Type) where
  capacity : ℕ := 0
  size : ℕ := 0
  head : Option ℕ := none
  tail : Option ℕ := none
  freeNodes : Option ℕ := none
  freeCount : ℕ := 0
  closed : Bool := false
  heap : Heap (Option α) := ∅

inductive QueueCall (α : Type)
  | push (item : α) (allocator : Allocator (Option α))
  | tryPush (item : α) (allocator : Allocator (Option α))
  | take
  | takeFor (expired : Bool)
  | poll
  | close

inductive QueueAnswer (α : Type)
  /-- The call is at its wait. -/
  | waits
  | pushed (accepted : Bool)
  | taken (item : Option α)
  | closed

namespace NodeQueue

variable {α : Type}

/-- A node off the free list, or a new one. -/
def obtainNodeLocked (q : NodeQueue α) (allocator : Allocator (Option α)) :
    Except MemoryFault (NodeQueue α × ℕ) :=
  match q.freeNodes with
  | some node => do
      let cell ← load q.heap (some node)
      let heap ← store q.heap (some node) { cell with next := none }
      let freeCount ← decrement q.freeCount
      .ok ({ q with freeNodes := cell.next, freeCount, heap }, node)
  | none =>
      let node := allocator.place q.heap
      .ok ({ q with heap := q.heap.insert node { value := none } }, node)

def recycleNodeLocked (q : NodeQueue α) (node : Option ℕ) : Except MemoryFault (NodeQueue α) := do
  let cell ← load q.heap node
  let heap ← store q.heap node { cell with value := none }
  if q.freeCount < 64 then
    let heap ← store heap node { value := none, next := q.freeNodes }
    .ok { q with freeNodes := node, freeCount := q.freeCount + 1, heap }
  else
    let heap ← delete heap node
    .ok { q with heap }

def linkTail (q : NodeQueue α) (node : ℕ) : Except MemoryFault (NodeQueue α) :=
  match q.tail with
  | some tail => do
      let cell ← load q.heap (some tail)
      let heap ← store q.heap (some tail) { cell with next := some node }
      .ok { q with tail := some node, size := q.size + 1, heap }
  | none => .ok { q with head := some node, tail := some node, size := q.size + 1 }

def unlinkHeadLocked (q : NodeQueue α) : Except MemoryFault (NodeQueue α × QueueAnswer α) := do
  let node := q.head
  let cell ← load q.heap node
  let head := cell.next
  let tail := if head.isNone then none else q.tail
  let size ← decrement q.size
  match cell.value with
  | none => .error .noValue
  | some item =>
      let q ← recycleNodeLocked { q with head, tail, size } node
      .ok (q, .taken (some item))

/-- The end of `push` and `try_push`. -/
def accept (q : NodeQueue α) (item : α) (allocator : Allocator (Option α)) :
    Except MemoryFault (NodeQueue α × QueueAnswer α) := do
  let (q, node) ← q.obtainNodeLocked allocator
  let cell ← load q.heap (some node)
  let heap ← store q.heap (some node) { cell with value := some item }
  let q ← linkTail { q with heap } node
  .ok (q, .pushed true)

/-- There is a capacity, and it is reached. -/
def full (q : NodeQueue α) : Bool := decide (0 < q.capacity ∧ q.capacity ≤ q.size)

def push (q : NodeQueue α) (item : α) (allocator : Allocator (Option α)) :
    Except MemoryFault (NodeQueue α × QueueAnswer α) :=
  if q.closed then .ok (q, .pushed false)
  else if q.full then .ok (q, .waits)
  else q.accept item allocator

def tryPush (q : NodeQueue α) (item : α) (allocator : Allocator (Option α)) :
    Except MemoryFault (NodeQueue α × QueueAnswer α) :=
  if q.closed || q.full then .ok (q, .pushed false) else q.accept item allocator

/-- The predicate that `take` and `take_for` wait for. -/
def ready (q : NodeQueue α) : Bool := decide (0 < q.size) || q.closed

def take (q : NodeQueue α) : Except MemoryFault (NodeQueue α × QueueAnswer α) :=
  if ¬ q.ready then .ok (q, .waits)
  else if q.closed ∧ q.size = 0 then .ok (q, .taken none)
  else q.unlinkHeadLocked

def takeFor (q : NodeQueue α) (expired : Bool) : Except MemoryFault (NodeQueue α × QueueAnswer α) :=
  if ¬ q.ready ∧ ¬ expired then .ok (q, .waits)
  else if ¬ q.ready ∨ (q.closed ∧ q.size = 0) then .ok (q, .taken none)
  else q.unlinkHeadLocked

def poll (q : NodeQueue α) : Except MemoryFault (NodeQueue α × QueueAnswer α) :=
  if q.size = 0 then .ok (q, .taken none) else q.unlinkHeadLocked

def close (q : NodeQueue α) : NodeQueue α := { q with closed := true }

/-- The destructor. -/
def destroy (q : NodeQueue α) : Except MemoryFault (NodeQueue α) := do
  let q := q.close
  let heap ← drain q.heap q.head
  let heap ← drain heap q.freeNodes
  .ok { q with heap }

def step (q : NodeQueue α) : QueueCall α → Except MemoryFault (NodeQueue α × QueueAnswer α)
  | .push item allocator => q.push item allocator
  | .tryPush item allocator => q.tryPush item allocator
  | .take => q.take
  | .takeFor expired => q.takeFor expired
  | .poll => q.poll
  | .close => .ok (q.close, .closed)

end NodeQueue
end Damen
