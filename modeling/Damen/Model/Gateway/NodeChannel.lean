import Damen.Framework.LinkedCells

/-!
# The nodes of a channel

`gateway/gateway_channel.hpp` with its nodes: a chain that starts with a node without data,
`m_head`, and ends with `m_tail`.  Neither pointer is ever null.  Data that was not set, or was
moved out, is `none`.

As in `NodeQueue`, every method is one step, and one that comes to a wait whose predicate is false
has no effect.  The node that a sender brings along is not one of the channel's before it is linked,
so here it is created only then, or to be deleted at once.
-/

namespace Damen
namespace Gateway

open LinkedCells

/-- `CopyChannel`, with the nodes that are not deleted. -/
structure NodeChannel (α : Type) where
  capacity : ℕ := 256
  count : ℕ := 0
  head : ℕ
  tail : ℕ
  closed : Bool := false
  heap : Heap (Option α)

inductive ChannelCall (α : Type)
  /-- Both overloads. -/
  | send (item : α) (allocator : Allocator (Option α))
  | trySend (item : α) (allocator : Allocator (Option α))
  | recv
  | tryRecv
  | swapOut
  | close

inductive ChannelAnswer (α : Type)
  /-- The call is at its wait. -/
  | waits
  /-- Whether the node was linked, which `send` does not tell. -/
  | sent (accepted : Bool)
  /-- `recv` and `try_recv` return whether there is an item. -/
  | received (item : Option α)
  | batch (items : List α)
  | closed

namespace NodeChannel

variable {α : Type}

/-- The constructor. -/
def create (capacity : ℕ) (allocator : Allocator (Option α)) : NodeChannel α :=
  let node := allocator.place ∅
  { capacity, head := node, tail := node,
    heap := (∅ : Heap (Option α)).insert node { value := none } }

/-- A node is created and linked. -/
def append (c : NodeChannel α) (item : α) (allocator : Allocator (Option α)) :
    Except MemoryFault (NodeChannel α × ChannelAnswer α) := do
  let node := allocator.place c.heap
  let heap := c.heap.insert node { value := some item }
  let cell ← load heap (some c.tail)
  let heap ← store heap (some c.tail) { cell with next := some node }
  .ok ({ c with tail := node, count := c.count + 1, heap }, .sent true)

/-- A node is created and deleted. -/
def refuse (c : NodeChannel α) (item : α) (allocator : Allocator (Option α)) :
    Except MemoryFault (NodeChannel α × ChannelAnswer α) := do
  let node := allocator.place c.heap
  let heap ← delete (c.heap.insert node { value := some item }) (some node)
  .ok ({ c with heap }, .sent false)

/-- There is a capacity, and it is reached. -/
def full (c : NodeChannel α) : Bool := decide (0 < c.capacity ∧ c.capacity ≤ c.count)

def send (c : NodeChannel α) (item : α) (allocator : Allocator (Option α)) :
    Except MemoryFault (NodeChannel α × ChannelAnswer α) :=
  if c.closed then c.refuse item allocator
  else if c.full then .ok (c, .waits)
  else c.append item allocator

def trySend (c : NodeChannel α) (item : α) (allocator : Allocator (Option α)) :
    Except MemoryFault (NodeChannel α × ChannelAnswer α) :=
  if c.closed then c.refuse item allocator
  else if c.full then c.refuse item allocator
  else c.append item allocator

/-- The data of the node after `m_head` is moved out; that node becomes `m_head`, and the old one is
deleted. -/
def advance (c : NodeChannel α) (node : ℕ) : Except MemoryFault (NodeChannel α × α) := do
  let cell ← load c.heap (some node)
  match cell.value with
  | none => .error .noValue
  | some item =>
      let heap ← store c.heap (some node) { cell with value := none }
      let heap ← delete heap (some c.head)
      let count ← decrement c.count
      .ok ({ c with head := node, count, heap }, item)

/-- What `recv` and `try_recv` do if there is a node after `m_head`, and otherwise. -/
def takeNext (c : NodeChannel α) (otherwise : ChannelAnswer α) :
    Except MemoryFault (NodeChannel α × ChannelAnswer α) := do
  let cell ← load c.heap (some c.head)
  match cell.next with
  | none => .ok (c, otherwise)
  | some node =>
      let (c, item) ← c.advance node
      .ok (c, .received (some item))

def recv (c : NodeChannel α) : Except MemoryFault (NodeChannel α × ChannelAnswer α) :=
  c.takeNext (if c.closed then .received none else .waits)

def tryRecv (c : NodeChannel α) : Except MemoryFault (NodeChannel α × ChannelAnswer α) :=
  c.takeNext (.received none)

lemma size_of_advance {c c' : NodeChannel α} {node : ℕ} {item : α}
    (h : c.advance node = .ok (c', item)) :
    c'.heap.size < c.heap.size := by
  obtain ⟨cell, -, h⟩ := bind_eq_ok h
  split at h
  · cases h
  · obtain ⟨heap, hstore, h⟩ := bind_eq_ok h
    obtain ⟨heap', hdelete, h⟩ := bind_eq_ok h
    obtain ⟨count, -, h⟩ := bind_eq_ok h
    obtain ⟨rfl, -⟩ := Prod.mk.inj (Except.ok.inj h)
    exact lt_of_lt_of_eq (size_of_delete hdelete) (size_of_store hstore)

/-- The loop of `swap_out`: `current` is the node after `m_head`. -/
def swapLoop (c : NodeChannel α) (batch : List α) :
    Option ℕ → Except MemoryFault (NodeChannel α × List α)
  | none => .ok (c, batch)
  | some current =>
      match load c.heap (some current), _h : c.advance current with
      | .error e, _ => .error e
      | _, .error e => .error e
      | .ok cell, .ok (c, item) => swapLoop c (batch ++ [item]) cell.next
  termination_by c.heap.size
  decreasing_by exact size_of_advance _h

def swapOut (c : NodeChannel α) : Except MemoryFault (NodeChannel α × ChannelAnswer α) := do
  let cell ← load c.heap (some c.head)
  let (c, batch) ← c.swapLoop [] cell.next
  .ok (c, .batch batch)

def close (c : NodeChannel α) : NodeChannel α := { c with closed := true }

/-- The destructor. -/
def destroy (c : NodeChannel α) : Except MemoryFault (NodeChannel α) := do
  let c := c.close
  let heap ← drain c.heap (some c.head)
  .ok { c with heap }

def step (c : NodeChannel α) : ChannelCall α → Except MemoryFault (NodeChannel α × ChannelAnswer α)
  | .send item allocator => c.send item allocator
  | .trySend item allocator => c.trySend item allocator
  | .recv => c.recv
  | .tryRecv => c.tryRecv
  | .swapOut => c.swapOut
  | .close => .ok (c.close, .closed)

end NodeChannel
end Gateway
end Damen
