import Damen.Framework.LinkedCells
import Mathlib.Logic.Function.Basic

/-!
# The buffer pool

`tight/src/buffer_pool.hpp`.  A thread keeps up to 16 blocks of 2048 bytes for its next buffers.
The lists are thread-local, so a call sees the list of its own thread (`thread`) and the heap, and
is one step.

A cell of the heap is a block that is not deleted, and its value the size.  When a thread ends, the
vector that is its list is destroyed, which does not delete the blocks the pointers lead to.
-/

namespace Damen
namespace BufferPool

open LinkedCells

def kPoolBlockSize : ℕ := 2048

def kPoolMaxFreePerThread : ℕ := 16

/-- `sizeof(T)` and the `n` of `allocate` and `deallocate`. -/
structure Request where
  sizeof : ℕ
  n : ℕ
  deriving DecidableEq

def Request.pooled (r : Request) : Prop := r.n ≤ kPoolBlockSize / r.sizeof

instance (r : Request) : Decidable r.pooled := Nat.decLe _ _

structure Pool where
  heap : Heap ℕ := ∅
  freeList : ℕ → List ℕ := fun _ => []

/-- `::operator new`. -/
def Pool.operatorNew (pool : Pool) (allocator : Allocator ℕ) (size : ℕ) : Pool × ℕ :=
  let p := allocator.place pool.heap
  ({ pool with heap := pool.heap.insert p { value := size } }, p)

def Pool.allocate (pool : Pool) (thread : ℕ) (r : Request) (allocator : Allocator ℕ) : Pool × ℕ :=
  if r.pooled then
    let list := pool.freeList thread
    match list.getLast? with
    | some p => ({ pool with freeList := Function.update pool.freeList thread list.dropLast }, p)
    | none => pool.operatorNew allocator kPoolBlockSize
  else pool.operatorNew allocator (r.n * r.sizeof % 2 ^ 64)

def Pool.deallocate (pool : Pool) (thread p : ℕ) (r : Request) : Except MemoryFault Pool :=
  let list := pool.freeList thread
  if r.pooled ∧ list.length < kPoolMaxFreePerThread then
    .ok { pool with freeList := Function.update pool.freeList thread (list ++ [p]) }
  else do
    let heap ← delete pool.heap (some p)
    .ok { pool with heap }

/-! ## The threads and their buffers -/

structure Buffer where
  address : ℕ
  request : Request
  deriving DecidableEq

/-- The pool, the buffers in use, and the blocks in the lists of the threads that ended. -/
structure Memory extends Pool where
  live : List Buffer := []
  lost : List ℕ := []
  ended : ℕ := 0

inductive Event
  | allocate (thread : ℕ) (r : Request) (allocator : Allocator ℕ)
  | deallocate (thread : ℕ) (buffer : Buffer)
  | exit (thread : ℕ)

def Memory.step (m : Memory) : Event → Except MemoryFault (Memory × Unit)
  | .allocate thread r allocator =>
      let (pool, address) := m.toPool.allocate thread r allocator
      .ok ({ m with toPool := pool, live := ⟨address, r⟩ :: m.live }, ())
  | .deallocate thread buffer => do
      let pool ← m.toPool.deallocate thread buffer.address buffer.request
      .ok ({ m with toPool := pool, live := m.live.erase buffer }, ())
  | .exit thread => .ok ({ m with
      freeList := Function.update m.freeList thread []
      lost := m.freeList thread ++ m.lost
      ended := m.ended + 1 }, ())

/-- What a container keeps to: its size in bytes is a `size_t`, and it gives back a buffer it has,
with the `n` it asked for. -/
def Memory.Proper (m : Memory) : Event → Prop
  | .allocate _ r _ => r.n * r.sizeof < 2 ^ 64
  | .deallocate _ buffer => buffer ∈ m.live
  | .exit _ => True

instance (m : Memory) : ∀ event, Decidable (m.Proper event)
  | .allocate _ _ _ => Nat.decLt _ _
  | .deallocate _ buffer => inferInstanceAs (Decidable (buffer ∈ m.live))
  | .exit _ => isTrue trivial

end BufferPool
end Damen
