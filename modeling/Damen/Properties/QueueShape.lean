import Damen.Framework.Simulation
import Damen.Model.NodeQueue
import Damen.Model.SendQueue

/-!
# The shape of a blocking queue

Whatever calls are made, the nodes of a blocking queue are the two chains they should be (`Shape`),
and what comes out is what went in (`bounded_fifo`).  The queue of nodes simulates the queue of
items (`NodeQueue.step_simulates`): nothing about nodes is left of it but the capacity, the items in
order, and whether it is closed.
-/

namespace Damen

open LinkedCells

/-! ## The queue of items -/

namespace BlockingQueue

variable {α : Type}

/-- The first item is handed out, if there is one. -/
def takeFront {ω : Type} (q : BlockingQueue α) (answer : α → ω) (otherwise : ω) :
    BlockingQueue α × ω :=
  match q.items with
  | [] => (q, otherwise)
  | item :: items => ({ q with items }, answer item)

def step (q : BlockingQueue α) : QueueCall α → BlockingQueue α × QueueAnswer α
  | .push item _ =>
      if q.closed then (q, .pushed false)
      else if q.refuses then (q, .waits)
      else ({ q with items := q.items ++ [item] }, .pushed true)
  | .tryPush item _ => ((q.tryPush item).1, .pushed (q.tryPush item).2)
  | .take => q.takeFront (.taken <| some ·) (if q.closed then .taken none else .waits)
  | .takeFor expired =>
      q.takeFront (.taken <| some ·) (if q.closed || expired then .taken none else .waits)
  | .poll => q.takeFront (.taken <| some ·) (.taken none)
  | .close => ({ q with closed := true }, .closed)

end BlockingQueue

namespace QueueCall

/-- The item that was accepted. -/
def accepted {α : Type} : QueueCall α → QueueAnswer α → List α
  | .push item _, .pushed true => [item]
  | .tryPush item _, .pushed true => [item]
  | _, _ => []

end QueueCall

namespace QueueAnswer

/-- The item that was handed out. -/
def returned {α : Type} : QueueAnswer α → List α
  | .taken (some item) => [item]
  | _ => []

end QueueAnswer

namespace BlockingQueue

variable {α : Type}

/-- The capacity, if there is one, holds. -/
def Within (capacity : ℕ) (q : BlockingQueue α) : Prop :=
  q.capacity = capacity ∧ (0 < capacity → q.items.length ≤ capacity)

lemma takeFront_fifo {ω : Type} (q : BlockingQueue α) {answer : α → ω} {otherwise : ω}
    {gave : ω → List α}
    (hanswer : ∀ item, gave (answer item) = [item]) (hotherwise : gave otherwise = []) :
    gave (q.takeFront answer otherwise).2 ++ (q.takeFront answer otherwise).1.items = q.items := by
  unfold takeFront
  split
  · rw [hotherwise, List.nil_append]
  · next hitems => rw [hanswer, hitems, List.singleton_append]

lemma step_fifo (q : BlockingQueue α) (call : QueueCall α) :
    (q.step call).2.returned ++ (q.step call).1.items =
      q.items ++ call.accepted (q.step call).2 := by
  cases call with
  | push item allocator =>
      dsimp only [step]
      split_ifs <;> simp [QueueAnswer.returned, QueueCall.accepted]
  | tryPush item allocator =>
      dsimp only [step, tryPush]
      split_ifs <;> simp [QueueAnswer.returned, QueueCall.accepted]
  | take =>
      dsimp only [step]
      rw [takeFront_fifo _ (fun _ => rfl) (by split <;> rfl)]
      simp [QueueCall.accepted]
  | takeFor expired =>
      dsimp only [step]
      rw [takeFront_fifo _ (fun _ => rfl) (by split <;> rfl)]
      simp [QueueCall.accepted]
  | poll =>
      dsimp only [step]
      rw [takeFront_fifo _ (fun _ => rfl) rfl]
      simp [QueueCall.accepted]
  | close => simp [step, QueueAnswer.returned, QueueCall.accepted]

variable {capacity : ℕ} {q : BlockingQueue α}

lemma Within.takeFront {ω : Type} (h : Within capacity q) (answer : α → ω) (otherwise : ω) :
    Within capacity (q.takeFront answer otherwise).1 := by
  unfold BlockingQueue.takeFront
  split
  · exact h
  · next item items hitems =>
      refine ⟨h.1, fun hpos => ?_⟩
      have hle := h.2 hpos
      rw [hitems, List.length_cons] at hle
      exact Nat.le_of_succ_le hle

lemma Within.append (h : Within capacity q) (hroom : ¬ q.refuses) (item : α) :
    Within capacity { q with items := q.items ++ [item] } := by
  refine ⟨h.1, fun hpos => ?_⟩
  simp only [refuses, Bool.or_eq_true, decide_eq_true_eq, not_or, not_and, not_le, h.1] at hroom
  have hlt := hroom.2 hpos
  rw [List.length_append, List.length_singleton]
  exact hlt

lemma Within.step (h : Within capacity q) (call : QueueCall α) :
    Within capacity (q.step call).1 := by
  cases call with
  | push item allocator =>
      dsimp only [BlockingQueue.step]
      split_ifs with hclosed hfull
      · exact h
      · exact h
      · exact h.append hfull item
  | tryPush item allocator =>
      dsimp only [BlockingQueue.step, tryPush]
      split_ifs with hfull
      · exact h
      · exact h.append hfull item
  | take => exact h.takeFront _ _
  | takeFor expired => exact h.takeFront _ _
  | poll => exact h.takeFront _ _
  | close => exact h

end BlockingQueue

/-! ## The two chains -/

namespace NodeQueue

variable {α : Type}

/-- The chain from `m_head` to `m_tail` with the items, and a chain of at most 64 others without. -/
structure Chains (q : NodeQueue α) (nodes : List (ℕ × α)) (free : List ℕ) : Prop where
  queue : Chain q.heap (filled nodes) q.head none
  size : q.size = nodes.length
  tail : q.tail = nodes.getLast?.map Prod.fst
  freeList : Chain q.heap (blank free) q.freeNodes none
  freeCount : q.freeCount = free.length
  freeLimit : free.length ≤ 64
  disjoint : (addresses nodes).Disjoint free

/-- Between two calls: the chains, and no other node. -/
structure Shape (q : NodeQueue α) (nodes : List (ℕ × α)) (free : List ℕ) : Prop
    extends Chains q nodes free where
  live : ∀ a ∈ q.heap, a ∈ addresses nodes ∨ a ∈ free

/-- Within a call: one more node, on neither chain. -/
structure Holds (q : NodeQueue α) (nodes : List (ℕ × α)) (free : List ℕ) (node : ℕ)
    (cell : Cell (Option α)) : Prop
    extends Chains q nodes free where
  content : q.heap[node]? = some cell
  notQueued : node ∉ addresses nodes
  notFree : node ∉ free
  live : ∀ a ∈ q.heap, a = node ∨ a ∈ addresses nodes ∨ a ∈ free

section

variable {q : NodeQueue α} {nodes : List (ℕ × α)} {free : List ℕ} {node : ℕ}
  {cell : Cell (Option α)}

lemma obtainNodeLocked_spec (h : Shape q nodes free) (allocator : Allocator (Option α)) :
    ∃ freeNodes freeCount heap node free',
      q.obtainNodeLocked allocator = .ok ({ q with freeNodes, freeCount, heap }, node) ∧
        Holds { q with freeNodes, freeCount, heap } nodes free' node { value := none } := by
  unfold obtainNodeLocked
  cases free with
  | nil =>
      -- nothing to use again
      have hnone : q.freeNodes = none := h.freeList
      have hfresh := allocator.fresh q.heap
      have hnode : allocator.place q.heap ∉ addresses nodes := fun hmem =>
        hfresh (h.queue.mem (by rwa [addresses_filled]))
      simp only [hnone]
      refine ⟨none, q.freeCount, _, _, [], rfl, ?_⟩
      refine ⟨⟨?_, h.size, h.tail, rfl, h.freeCount, h.freeLimit, h.disjoint⟩, ?_, hnode,
        List.not_mem_nil, ?_⟩
      · exact h.queue.insert (by rwa [addresses_filled]) _
      · exact OrderedMap.getElem?_insert .. |>.trans (if_pos rfl)
      · intro a ha
        exact (mem_of_mem_insert ha).imp_right (h.live a)
  | cons node free =>
      obtain ⟨hp, next, hcell, hrest⟩ : q.freeNodes = some node ∧ ∃ next,
        q.heap[node]? = some ⟨none, next⟩ ∧ Chain q.heap (blank free) next none := h.freeList
      have hnodup : (node :: free).Nodup := by
        have hnodup := h.freeList.nodup
        rwa [addresses_blank] at hnodup
      obtain ⟨hnotFree, -⟩ := List.nodup_cons.mp hnodup
      have hnode : node ∉ addresses nodes := fun hmem => h.disjoint hmem List.mem_cons_self
      have hcount : q.freeCount = free.length + 1 := h.freeCount
      simp only [hp, load_some hcell, store_some hcell, hcount, decrement_succ, ok_bind]
      refine ⟨next, free.length, _, node, free, rfl, ?_⟩
      refine ⟨⟨?_, h.size, h.tail, ?_, rfl, ?_, ?_⟩, ?_, hnode, hnotFree, ?_⟩
      · exact h.queue.insert (by rwa [addresses_filled]) _
      · exact hrest.insert (by rwa [addresses_blank]) _
      · exact Nat.le_of_succ_le h.freeLimit
      · exact fun a ha ha' => h.disjoint ha (List.mem_cons_of_mem _ ha')
      · exact OrderedMap.getElem?_insert .. |>.trans (if_pos rfl)
      · intro a ha
        rcases mem_of_mem_insert ha with rfl | ha
        · exact Or.inl rfl
        · rcases h.live a ha with hq | hf
          · exact Or.inr (Or.inl hq)
          · exact (List.mem_cons.mp hf).imp_right Or.inr

/-- A write to the node in hand. -/
lemma Holds.write (h : Holds q nodes free node cell) (cell' : Cell (Option α)) :
    Holds { q with heap := q.heap.insert node cell' } nodes free node cell' where
  queue := h.queue.insert (by rw [addresses_filled]; exact h.notQueued) _
  size := h.size
  tail := h.tail
  freeList := h.freeList.insert (by rw [addresses_blank]; exact h.notFree) _
  freeCount := h.freeCount
  freeLimit := h.freeLimit
  disjoint := h.disjoint
  content := OrderedMap.getElem?_insert .. |>.trans (if_pos rfl)
  notQueued := h.notQueued
  notFree := h.notFree
  live := by
    intro a ha
    rcases mem_of_mem_insert ha with rfl | ha
    · exact Or.inl rfl
    · exact h.live a ha

lemma linkTail_spec {item : α} (h : Holds q nodes free node { value := some item }) :
    ∃ head tail heap, q.linkTail node = .ok { q with head, tail, size := q.size + 1, heap } ∧
      Shape { q with head, tail, size := q.size + 1, heap } (nodes ++ [(node, item)]) free := by
  have hdisjoint : (addresses (nodes ++ [(node, item)])).Disjoint free := by
    rw [addresses, List.map_append, List.disjoint_append_left]
    exact ⟨h.disjoint, by simpa using h.notFree⟩
  have hlive : ∀ a ∈ q.heap, a ∈ addresses (nodes ++ [(node, item)]) ∨ a ∈ free := by
    intro a ha
    rw [addresses, List.map_append, List.mem_append]
    rcases h.live a ha with rfl | hq | hf
    · exact Or.inl (Or.inr (List.mem_singleton_self _))
    · exact Or.inl (Or.inl hq)
    · exact Or.inr hf
  have hsize : q.size + 1 = (nodes ++ [(node, item)]).length := by
    rw [h.size, List.length_append]; rfl
  unfold linkTail
  rcases List.eq_nil_or_concat' nodes with rfl | ⟨nodes, ⟨tail, last⟩, rfl⟩
  · have htail : q.tail = none := h.tail
    simp only [htail]
    refine ⟨_, _, _, rfl, ⟨?_, hsize, rfl, h.freeList, h.freeCount, h.freeLimit, hdisjoint⟩, hlive⟩
    exact ⟨rfl, none, h.content, rfl⟩
  · have htail : q.tail = some tail := by rw [h.tail, List.getLast?_concat]; rfl
    have hqueue := h.queue
    rw [filled_concat] at hqueue
    obtain ⟨m, -, -, next, hcell, hnext⟩ := chain_append.mp hqueue
    obtain rfl : next = none := hnext
    have hnotFree : tail ∉ free := fun hmem => h.disjoint (by simp) hmem
    simp only [htail, load_some hcell, store_some hcell, ok_bind]
    refine ⟨q.head, _, _, rfl, ⟨?_, hsize, by simp, ?_, h.freeCount, h.freeLimit, hdisjoint⟩, ?_⟩
    · have hlinked := hqueue.link h.content (by simpa using h.notQueued)
      rwa [filled_concat, filled_concat]
    · exact h.freeList.insert (by rwa [addresses_blank]) _
    · intro a ha
      rcases mem_of_mem_insert ha with rfl | ha
      · exact hlive _ (of_getElem?_eq_some hcell)
      · exact hlive a ha

lemma recycleNodeLocked_spec (h : Holds q nodes free node cell) :
    ∃ freeNodes freeCount heap free',
      q.recycleNodeLocked (some node) = .ok { q with freeNodes, freeCount, heap } ∧
        Shape { q with freeNodes, freeCount, heap } nodes free' := by
  have hwritten := h.write { cell with value := none }
  unfold recycleNodeLocked
  simp only [load_some h.content, store_some h.content, ok_bind]
  split
  · next hroom =>
      rw [h.freeCount] at hroom
      have hlinked := hwritten.write { value := none, next := q.freeNodes }
      simp only [store_some hwritten.content, ok_bind]
      refine ⟨_, _, _, node :: free, rfl, ⟨hlinked.queue, h.size, h.tail, ?_, ?_, hroom, ?_⟩, ?_⟩
      · exact ⟨rfl, q.freeNodes, hlinked.content, hlinked.freeList⟩
      · rw [h.freeCount]
        rfl
      · rw [List.disjoint_cons_right]
        exact ⟨h.notQueued, h.disjoint⟩
      · intro a ha
        rcases hlinked.live a ha with rfl | hq | hf
        · exact Or.inr List.mem_cons_self
        · exact Or.inl hq
        · exact Or.inr (List.mem_cons_of_mem _ hf)
  · -- the free list is long enough
    simp only [delete_some hwritten.content, ok_bind]
    refine ⟨_, _, _, free, rfl, ⟨?_, h.size, h.tail, ?_, h.freeCount, h.freeLimit, h.disjoint⟩, ?_⟩
    · exact hwritten.queue.erase (by rw [addresses_filled]; exact h.notQueued)
    · exact hwritten.freeList.erase (by rw [addresses_blank]; exact h.notFree)
    · intro a ha
      rw [Std.ExtTreeMap.mem_erase] at ha
      refine (hwritten.live a ha.2).resolve_left ?_
      rintro rfl
      exact ha.1 (Std.LawfulEqCmp.compare_eq_iff_eq.mpr rfl)

lemma accept_spec (h : Shape q nodes free) (item : α) (allocator : Allocator (Option α)) :
    ∃ q' node free', q.accept item allocator = .ok (q', .pushed true) ∧
      Shape q' (nodes ++ [(node, item)]) free' ∧ q'.capacity = q.capacity ∧
        q'.closed = q.closed := by
  obtain ⟨freeNodes, freeCount, heap, node, free', hobtain, hholds⟩ :=
    obtainNodeLocked_spec h allocator
  obtain ⟨head, tail, heap', hlink, hshape⟩ := linkTail_spec (hholds.write { value := some item })
  unfold accept
  simp only [hobtain, load_some hholds.content, store_some hholds.content, ok_bind]
  refine ⟨_, node, free', ?_, hshape, rfl, rfl⟩
  rw [hlink, ok_bind]

lemma unlinkHeadLocked_spec {item : α} (h : Shape q ((node, item) :: nodes) free) :
    ∃ q' free', q.unlinkHeadLocked = .ok (q', .taken (some item)) ∧ Shape q' nodes free' ∧
      q'.capacity = q.capacity ∧ q'.closed = q.closed := by
  obtain ⟨hhead, next, hcell, hrest⟩ : q.head = some node ∧ ∃ next,
    q.heap[node]? = some ⟨some item, next⟩ ∧ Chain q.heap (filled nodes) next none := h.queue
  have hnodup := h.queue.nodup
  rw [addresses_filled, addresses, List.map_cons, List.nodup_cons] at hnodup
  have hdisjoint := h.disjoint
  rw [addresses, List.map_cons, List.disjoint_cons_left] at hdisjoint
  have hsize : q.size = nodes.length + 1 := h.size
  have htail : (if next.isNone then none else q.tail) = nodes.getLast?.map Prod.fst := by
    cases nodes with
    | nil =>
        obtain rfl : next = none := hrest
        rfl
    | cons second nodes =>
        obtain ⟨rfl, -⟩ := hrest
        rw [h.tail, List.getLast?_cons_cons]
        rfl
  have hholds : Holds { q with
      head := next, tail := if next.isNone then none else q.tail, size := nodes.length }
      nodes free node ⟨some item, next⟩ := by
    refine ⟨⟨hrest, rfl, htail, h.freeList, h.freeCount, h.freeLimit, hdisjoint.2⟩, hcell, hnodup.1,
      hdisjoint.1, fun a ha => ?_⟩
    rcases h.live a ha with hq | hf
    · exact (List.mem_cons.mp hq).imp_right Or.inl
    · exact Or.inr (Or.inr hf)
  obtain ⟨freeNodes, freeCount, heap, free', hrecycle, hshape⟩ := recycleNodeLocked_spec hholds
  unfold unlinkHeadLocked
  simp only [hhead, load_some hcell, hsize, decrement_succ, ok_bind]
  refine ⟨_, free', ?_, hshape, rfl, rfl⟩
  rw [hrecycle, ok_bind]

end

/-! ## The simulation -/

/-- A queue of nodes that looks like a queue of items. -/
structure Represents (q : NodeQueue α) (items : BlockingQueue α) (nodes : List (ℕ × α))
    (free : List ℕ) : Prop
    extends Shape q nodes free where
  capacity : q.capacity = items.capacity
  closed : q.closed = items.closed
  items : nodes.map Prod.snd = items.items

section

variable {q : NodeQueue α} {l : BlockingQueue α} {nodes : List (ℕ × α)} {free : List ℕ}

lemma Represents.length (h : Represents q l nodes free) : q.size = l.items.length := by
  rw [h.size, ← h.items, List.length_map]

lemma Represents.refuses (h : Represents q l nodes free) : (q.closed || q.full) = l.refuses := by
  rw [BlockingQueue.refuses, full, h.closed, h.capacity, h.length]

lemma Represents.accept (h : Represents q l nodes free) (item : α)
    (allocator : Allocator (Option α)) :
    ∃ q', q.accept item allocator = .ok (q', .pushed true) ∧
      ∃ nodes' free', Represents q' { l with items := l.items ++ [item] } nodes' free' := by
  obtain ⟨q', node, free', haccept, hshape, hcapacity, hclosed⟩ :=
    accept_spec h.toShape item allocator
  refine ⟨q', haccept, _, free', hshape, hcapacity.trans h.capacity, hclosed.trans h.closed, ?_⟩
  rw [List.map_append, h.items]
  rfl

/-- What the methods that take do, by the answer they give when there is nothing. -/
lemma Represents.takeFront (h : Represents q l nodes free) (otherwise : QueueAnswer α)
    (attempt : Except MemoryFault (NodeQueue α × QueueAnswer α))
    (hempty : q.size = 0 → attempt = .ok (q, otherwise))
    (hsome : 0 < q.size → attempt = q.unlinkHeadLocked) :
    ∃ q', attempt = .ok (q', (l.takeFront (.taken <| some ·) otherwise).2) ∧
      ∃ nodes' free', Represents q' (l.takeFront (.taken <| some ·) otherwise).1 nodes' free' := by
  unfold BlockingQueue.takeFront
  cases nodes with
  | nil =>
      have hitems : l.items = [] := h.items.symm
      simp only [hitems]
      exact ⟨q, hempty h.size, [], free, h⟩
  | cons node nodes =>
      have hitems : l.items = node.2 :: nodes.map Prod.snd := h.items.symm
      have hpos : 0 < q.size := by rw [h.size]; exact Nat.succ_pos _
      obtain ⟨q', free', hunlink, hshape, hcapacity, hclosed⟩ := unlinkHeadLocked_spec h.toShape
      simp only [hitems]
      exact ⟨q', (hsome hpos).trans hunlink, nodes, free', hshape, hcapacity.trans h.capacity,
        hclosed.trans h.closed, rfl⟩

/-- Every call succeeds, and answers as the queue of items does. -/
lemma step_simulates (h : Represents q l nodes free) (call : QueueCall α) :
    ∃ q', q.step call = .ok (q', (l.step call).2) ∧
      ∃ nodes' free', Represents q' (l.step call).1 nodes' free' := by
  cases call with
  | push item allocator =>
      dsimp only [step, push, BlockingQueue.step]
      rw [← h.closed]
      split
      · exact ⟨q, rfl, nodes, free, h⟩
      · next hopen =>
          have hfull : q.full = l.refuses := by
            rw [← h.refuses, Bool.eq_false_iff.mpr hopen, Bool.false_or]
          rw [hfull]
          split
          · exact ⟨q, rfl, nodes, free, h⟩
          · rw [h.closed]
            exact h.accept item allocator
  | tryPush item allocator =>
      dsimp only [step, tryPush, BlockingQueue.step, BlockingQueue.tryPush]
      rw [← h.refuses]
      split
      · exact ⟨q, rfl, nodes, free, h⟩
      · exact h.accept item allocator
  | take =>
      refine h.takeFront (if l.closed then .taken none else .waits) q.take ?_ ?_
      · intro hzero
        rw [← h.closed]
        cases hclosed : q.closed <;> simp [take, ready, hzero, hclosed]
      · intro hpos
        simp [take, ready, hpos, hpos.ne']
  | takeFor expired =>
      refine h.takeFront (if l.closed || expired then .taken none else .waits)
        (q.takeFor expired) ?_ ?_
      · intro hzero
        rw [← h.closed]
        cases hclosed : q.closed <;> cases expired <;> simp [takeFor, ready, hzero, hclosed]
      · intro hpos
        simp [takeFor, ready, hpos, hpos.ne']
  | poll =>
      refine h.takeFront (.taken none) q.poll ?_ ?_
      · intro hzero
        simp [poll, hzero]
      · intro hpos
        simp [poll, hpos.ne']
  | close =>
      have hshape : Shape q.close nodes free :=
        ⟨⟨h.queue, h.size, h.tail, h.freeList, h.freeCount, h.freeLimit, h.disjoint⟩, h.live⟩
      exact ⟨q.close, rfl, nodes, free, hshape, h.capacity, rfl, h.items⟩

end

/-- A new queue. -/
lemma represents_new (capacity : ℕ) : Represents ({ capacity } : NodeQueue α) { capacity } []
    [] where
  queue := rfl
  size := rfl
  tail := rfl
  freeList := rfl
  freeCount := rfl
  freeLimit := Nat.zero_le _
  disjoint := List.disjoint_nil_left _
  live := fun _ ha => absurd ha Std.ExtTreeMap.not_mem_empty
  capacity := rfl
  closed := rfl
  items := rfl

/-- **A blocking queue is a bounded FIFO.**  Every sequence of calls on a new queue succeeds,
without a fault.  After it the nodes form two disjoint chains: one from `m_head` to `m_tail` with
`m_size` items, at most `m_capacity` of them unless that is zero, and one from `m_free_nodes` with
`m_free_count` empty nodes, at most 64 of them.  What was returned, and then what is in the chain,
are the items that were accepted, in order. -/
theorem bounded_fifo (capacity : ℕ) (calls : List (QueueCall α)) :
    ∃ q answers nodes free, Machine.run step { capacity } calls = .ok (q, answers) ∧
      Shape q nodes free ∧ (0 < capacity → q.size ≤ capacity) ∧
      answers.flatMap QueueAnswer.returned ++ nodes.map Prod.snd =
        (calls.zip answers).flatMap fun e => e.1.accepted e.2 := by
  let R : NodeQueue α → BlockingQueue α → Prop := fun q l => ∃ nodes free, Represents q l nodes free
  have hstep : ∀ q l call, R q l →
      ∃ q', step q call = .ok (q', (BlockingQueue.step l call).2) ∧
        R q' (BlockingQueue.step l call).1 := by
    rintro q l call ⟨nodes, free, h⟩
    exact step_simulates h call
  obtain ⟨q, hrun, nodes, free, h⟩ :=
    Machine.run_simulates hstep ⟨[], [], represents_new capacity⟩ calls
  have hwithin : BlockingQueue.Within capacity _ :=
    Machine.feed_keeps (fun l call hl => hl.step call)
    (t := { capacity }) ⟨rfl, fun _ => Nat.zero_le _⟩ calls
  refine ⟨q, _, nodes, free, hrun, h.toShape, fun hpos => ?_, ?_⟩
  · rw [h.length]
    exact hwithin.2 hpos
  · rw [h.items, Machine.feed_fifo BlockingQueue.step_fifo]
    rfl

/-- The destructor of a queue deletes every node, each once. -/
theorem destroy_deletes_all {q : NodeQueue α} {nodes : List (ℕ × α)} {free : List ℕ}
    (h : Shape q nodes free) :
    ∃ q', q.destroy = .ok q' ∧ ∀ a, a ∉ q'.heap := by
  obtain ⟨heap, hdrain, hgone, hkept⟩ := h.queue.drain
  have hfree : Chain heap (blank free) q.freeNodes none := by
    refine h.freeList.congr fun a ha => hkept a ?_
    rw [addresses_blank] at ha
    rw [addresses_filled]
    exact fun hmem => h.disjoint hmem ha
  obtain ⟨heap', hdrain', hgone', hkept'⟩ := hfree.drain
  rw [addresses_filled] at hgone hkept
  rw [addresses_blank] at hgone' hkept'
  refine ⟨{ q.close with heap := heap' }, ?_, fun a ha => ?_⟩
  · rw [destroy]
    dsimp only [close]
    rw [hdrain, ok_bind, hdrain', ok_bind]
  · have hnone : heap'[a]? = none := by
      by_cases hf : a ∈ free
      · exact hgone' a hf
      · rw [hkept' a hf]
        by_cases hq : a ∈ addresses nodes
        · exact hgone a hq
        · rw [hkept a hq]
          exact getElem?_neg _ _ fun hmem => (h.live a hmem).elim hq hf
    exact (getElem?_eq_none_iff _ _).mp hnone ha

/-- Whatever was called before, the destructor leaves no node and deletes none twice. -/
theorem queue_leaves_nothing (capacity : ℕ) (calls : List (QueueCall α)) :
    ∃ q answers q', Machine.run step { capacity } calls = .ok (q, answers) ∧ q.destroy = .ok q' ∧
      ∀ a, a ∉ q'.heap := by
  obtain ⟨q, hrun, nodes, free, h⟩ := Machine.run_simulates
    (R := fun q l => ∃ nodes free, Represents q l nodes free)
    (fun _ _ call ⟨_, _, h⟩ => step_simulates h call) ⟨[], [], represents_new capacity⟩ calls
  obtain ⟨q', hdestroy, hgone⟩ := destroy_deletes_all h.toShape
  exact ⟨q, _, q', hrun, hdestroy, hgone⟩

end NodeQueue

end Damen
