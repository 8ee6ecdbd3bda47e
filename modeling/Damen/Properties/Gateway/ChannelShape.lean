import Damen.Model.Gateway.NodeChannel
import Damen.Model.Gateway.Server
import Damen.Properties.QueueShape

/-!
# The shape of a channel

Whatever calls are made, the nodes of a channel are one chain from `m_head` to `m_tail` (`Shape`),
and what comes out is what went in (`channel_fifo`).  The consumers never write `m_tail`: when the
last item is taken its node becomes `m_head`, and is still the one `m_tail` points to.

The channel of nodes simulates the `CopyChannel` of the server's model (`step_simulates`).
-/

namespace Damen
namespace Gateway

open LinkedCells

/-! ## The channel of items -/

namespace CopyChannel

variable {α : Type}

def step (c : CopyChannel α) : ChannelCall α → CopyChannel α × ChannelAnswer α
  | .send item _ =>
      if c.closed then (c, .sent false)
      else if c.refuses then (c, .waits)
      else ({ c with items := c.items ++ [item] }, .sent true)
  | .trySend item _ => ((c.tryPush item).1, .sent (c.tryPush item).2)
  | .recv => c.takeFront (.received <| some ·) (if c.closed then .received none else .waits)
  | .tryRecv => c.takeFront (.received <| some ·) (.received none)
  | .swapOut => ((swapOut c).1, .batch (swapOut c).2)
  | .close => ({ c with closed := true }, .closed)

end CopyChannel

namespace ChannelCall

/-- The item that was accepted. -/
def accepted {α : Type} : ChannelCall α → ChannelAnswer α → List α
  | .send item _, .sent true => [item]
  | .trySend item _, .sent true => [item]
  | _, _ => []

end ChannelCall

namespace ChannelAnswer

/-- The items that were handed out. -/
def handedOut {α : Type} : ChannelAnswer α → List α
  | .received (some item) => [item]
  | .batch items => items
  | _ => []

end ChannelAnswer

namespace CopyChannel

variable {α : Type}

lemma step_fifo (c : CopyChannel α) (call : ChannelCall α) :
    (step c call).2.handedOut ++ (step c call).1.items =
      c.items ++ call.accepted (step c call).2 := by
  cases call with
  | send item allocator =>
      dsimp only [step]
      split_ifs <;> simp [ChannelAnswer.handedOut, ChannelCall.accepted]
  | trySend item allocator =>
      dsimp only [step, BlockingQueue.tryPush]
      split_ifs <;> simp [ChannelAnswer.handedOut, ChannelCall.accepted]
  | recv =>
      dsimp only [step]
      rw [BlockingQueue.takeFront_fifo _ (fun _ => rfl) (by split <;> rfl)]
      simp [ChannelCall.accepted]
  | tryRecv =>
      dsimp only [step]
      rw [BlockingQueue.takeFront_fifo _ (fun _ => rfl) rfl]
      simp [ChannelCall.accepted]
  | swapOut => simp [step, swapOut, ChannelAnswer.handedOut, ChannelCall.accepted]
  | close => simp [step, ChannelAnswer.handedOut, ChannelCall.accepted]

lemma within_step {capacity : ℕ} {c : CopyChannel α} (h : BlockingQueue.Within capacity c)
    (call : ChannelCall α) : BlockingQueue.Within capacity (step c call).1 := by
  cases call with
  | send item allocator =>
      dsimp only [step]
      split_ifs with hclosed hfull
      · exact h
      · exact h
      · exact h.append hfull item
  | trySend item allocator =>
      dsimp only [step, BlockingQueue.tryPush]
      split_ifs with hfull
      · exact h
      · exact h.append hfull item
  | recv => exact h.takeFront _ _
  | tryRecv => exact h.takeFront _ _
  | swapOut => exact ⟨h.1, fun _ => Nat.zero_le _⟩
  | close => exact h

end CopyChannel

/-! ## The chain -/

namespace NodeChannel

variable {α : Type}

/-- The chain: `m_head` without data, and then `m_count` nodes with the items, the last of which is
`m_tail`. There is no other node. -/
structure Shape (c : NodeChannel α) (nodes : List (ℕ × α)) : Prop where
  chain : Chain c.heap ((c.head, none) :: filled nodes) (some c.head) none
  count : c.count = nodes.length
  tail : (c.head :: addresses nodes).getLast? = some c.tail
  live : ∀ a ∈ c.heap, a = c.head ∨ a ∈ addresses nodes

section

variable {c : NodeChannel α} {nodes : List (ℕ × α)} {node : ℕ} {item : α}

lemma Shape.head_cell (h : Shape c nodes) :
    c.heap[c.head]? = some ⟨none, (addresses nodes).head?⟩ := by
  obtain ⟨-, next, hcell, hrest⟩ := h.chain
  have hstart := hrest.start
  rw [addresses_filled] at hstart
  rwa [hstart] at hcell

lemma append_spec (h : Shape c nodes) (item : α) (allocator : Allocator (Option α)) :
    ∃ c' node, c.append item allocator = .ok (c', .sent true) ∧ Shape c' (nodes ++ [(node, item)]) ∧
      c'.capacity = c.capacity ∧ c'.closed = c.closed := by
  have hfresh := allocator.fresh c.heap
  have hnew : allocator.place c.heap ∉ addresses ((c.head, none) :: filled nodes) := fun hmem =>
    hfresh (h.chain.mem hmem)
  -- the last node of the chain is the one at `m_tail`
  obtain ⟨l, ⟨last, value⟩, hl⟩ : ∃ l e, (c.head, (none : Option α)) :: filled nodes = l ++ [e] :=
    (List.eq_nil_or_concat' _).resolve_left (List.cons_ne_nil _ _)
  have hlast : c.tail = last := by
    have htail := h.tail
    rw [← addresses_filled] at htail
    have haddresses := congrArg addresses hl
    rw [addresses, List.map_cons] at haddresses
    rw [haddresses, addresses, List.map_append, List.map_singleton, List.getLast?_concat] at htail
    exact (Option.some.inj htail).symm
  have hchain := h.chain.insert hnew { value := some item }
  rw [hl] at hchain hnew
  obtain ⟨m, -, -, next, hcell, hnext⟩ := chain_append.mp hchain
  obtain rfl : next = none := hnext
  have hnode :
      (c.heap.insert (allocator.place c.heap) { value := some item })[allocator.place c.heap]? =
      some ⟨some item, none⟩ := OrderedMap.getElem?_insert .. |>.trans (if_pos rfl)
  have hlinked := hchain.link hnode hnew
  unfold append
  simp only [hlast, load_some hcell, store_some hcell, ok_bind]
  refine ⟨_, allocator.place c.heap, rfl, ⟨?_, ?_, ?_, ?_⟩, rfl, rfl⟩
  · rw [filled_concat, ← List.cons_append, hl]
    exact hlinked
  · rw [h.count, List.length_append]
    rfl
  · rw [addresses, List.map_append, ← List.cons_append]
    exact List.getLast?_concat
  · intro a ha
    rw [addresses, List.map_append, List.mem_append]
    rcases mem_of_mem_insert ha with rfl | ha
    · have hlive := h.live _ (h.chain.mem (a := a) (by rw [hl]; simp))
      exact hlive.imp_right Or.inl
    · rcases mem_of_mem_insert ha with rfl | ha
      · exact Or.inr (Or.inr (List.mem_singleton_self _))
      · exact (h.live a ha).imp_right Or.inl

lemma refuse_spec (c : NodeChannel α) (item : α) (allocator : Allocator (Option α)) :
    c.refuse item allocator = .ok (c, .sent false) := by
  have hnode :
      (c.heap.insert (allocator.place c.heap) { value := some item })[allocator.place c.heap]? =
      some ⟨some item, none⟩ := OrderedMap.getElem?_insert .. |>.trans (if_pos rfl)
  rw [refuse]
  simp only [delete_some hnode, erase_insert_fresh (allocator.fresh c.heap), ok_bind]

lemma advance_spec (h : Shape c ((node, item) :: nodes)) :
    c.heap[node]? = some ⟨some item, (addresses nodes).head?⟩ ∧
      ∃ c', c.advance node = .ok (c', item) ∧ Shape c' nodes ∧ c'.capacity = c.capacity ∧
        c'.closed = c.closed := by
  have hnodup : (c.head :: addresses (filled ((node, item) :: nodes))).Nodup := h.chain.nodup
  rw [addresses_filled] at hnodup
  obtain ⟨hhead, hnodup⟩ := List.nodup_cons.mp hnodup
  obtain ⟨hne, hhead⟩ := not_or.mp (mt List.mem_cons.mpr hhead)
  have hnode := (List.nodup_cons.mp hnodup).1
  obtain ⟨next, hcell, hrest⟩ : ∃ next, c.heap[node]? = some ⟨some item, next⟩ ∧
      Chain c.heap (filled nodes) next none := by
    obtain ⟨-, _, -, rfl, hrest⟩ := h.chain
    exact hrest
  have hnext := hrest.start
  rw [addresses_filled] at hnext
  have hmoved : (c.heap.insert node ⟨none, next⟩)[c.head]? = some ⟨none, some node⟩ := by
    rw [OrderedMap.getElem?_insert, if_neg hne]
    exact h.head_cell
  have hcount : c.count = nodes.length + 1 := h.count
  refine ⟨hnext ▸ hcell, ?_⟩
  unfold advance
  simp only [load_some hcell, store_some hcell, delete_some hmoved, hcount, decrement_succ, ok_bind]
  refine ⟨_, rfl, ?_, rfl, rfl⟩
  · refine ⟨⟨rfl, next, ?_, ?_⟩, rfl, ?_, ?_⟩
    · rw [OrderedMap.getElem?_erase, if_neg (Ne.symm hne), OrderedMap.getElem?_insert, if_pos rfl]
    · exact (hrest.insert (by rwa [addresses_filled]) _).erase (by rwa [addresses_filled])
    · have htail := h.tail
      rwa [addresses, List.map_cons, List.getLast?_cons_cons] at htail
    · intro a ha
      rw [Std.ExtTreeMap.mem_erase] at ha
      rcases mem_of_mem_insert ha.2 with rfl | hmem
      · exact Or.inl rfl
      · refine List.mem_cons.mp ((h.live a hmem).resolve_left ?_)
        rintro rfl
        exact ha.1 (Std.LawfulEqCmp.compare_eq_iff_eq.mpr rfl)

/-- The loop takes out everything. -/
lemma swapLoop_spec (h : Shape c nodes) (batch : List α) :
    ∃ c', c.swapLoop batch (addresses nodes).head? =
      .ok (c', batch ++ nodes.map Prod.snd) ∧ Shape c' [] ∧
      c'.capacity = c.capacity ∧ c'.closed = c.closed := by
  induction nodes generalizing c batch with
  | nil => exact ⟨c, by simp [swapLoop], h, rfl, rfl⟩
  | cons e nodes ih =>
      obtain ⟨hcell, c', hadvance, hshape, hcapacity, hclosed⟩ := advance_spec h
      obtain ⟨c'', hloop, hempty, hcapacity', hclosed'⟩ := ih hshape (batch ++ [e.2])
      refine ⟨c'', ?_, hempty, hcapacity'.trans hcapacity, hclosed'.trans hclosed⟩
      rw [addresses, List.map_cons, List.head?_cons, swapLoop]
      simp only [load_some hcell]
      split
      · next hload => cases hload
      · next herror _ => cases hadvance.symm.trans herror
      · next cell c₁ item hload hok =>
          obtain ⟨rfl, rfl⟩ := Prod.mk.inj (Except.ok.inj (hadvance.symm.trans hok))
          obtain rfl := Except.ok.inj hload
          rw [hloop, List.append_assoc]
          rfl

end

/-! ## The simulation -/

/-- A channel of nodes that looks like a channel of items. -/
structure Represents (c : NodeChannel α) (items : CopyChannel α) (nodes : List (ℕ × α)) : Prop
    extends Shape c nodes where
  capacity : c.capacity = items.capacity
  closed : c.closed = items.closed
  items : nodes.map Prod.snd = items.items

section

variable {c : NodeChannel α} {l : CopyChannel α} {nodes : List (ℕ × α)}

lemma Represents.length (h : Represents c l nodes) : c.count = l.items.length := by
  rw [h.count, ← h.items, List.length_map]

lemma Represents.refuses (h : Represents c l nodes) : (c.closed || c.full) = l.refuses := by
  rw [BlockingQueue.refuses, full, h.closed, h.capacity, h.length]

lemma Represents.append (h : Represents c l nodes) (item : α) (allocator : Allocator (Option α)) :
    ∃ c', c.append item allocator = .ok (c', .sent true) ∧
      ∃ nodes', Represents c' { l with items := l.items ++ [item] } nodes' := by
  obtain ⟨c', node, happend, hshape, hcapacity, hclosed⟩ := append_spec h.toShape item allocator
  refine ⟨c', happend, _, hshape, hcapacity.trans h.capacity, hclosed.trans h.closed, ?_⟩
  rw [List.map_append, h.items]
  rfl

lemma Represents.takeNext (h : Represents c l nodes) (otherwise : ChannelAnswer α) :
    ∃ c', c.takeNext otherwise = .ok (c', (l.takeFront (.received <| some ·) otherwise).2) ∧
      ∃ nodes', Represents c' (l.takeFront (.received <| some ·) otherwise).1 nodes' := by
  unfold NodeChannel.takeNext BlockingQueue.takeFront
  rw [load_some h.head_cell, ok_bind]
  cases nodes with
  | nil =>
      have hitems : l.items = [] := h.items.symm
      simp only [hitems]
      exact ⟨c, rfl, [], h⟩
  | cons node nodes =>
      have hitems : l.items = node.2 :: nodes.map Prod.snd := h.items.symm
      obtain ⟨-, c', hadvance, hshape, hcapacity, hclosed⟩ := advance_spec h.toShape
      simp only [hitems, addresses, List.map_cons, List.head?_cons, hadvance, ok_bind]
      exact ⟨c', rfl, nodes, hshape, hcapacity.trans h.capacity, hclosed.trans h.closed, rfl⟩

lemma Represents.swapOut (h : Represents c l nodes) :
    ∃ c', c.swapOut = .ok (c', .batch l.items) ∧ ∃ nodes',
    Represents c' { l with items := [] } nodes' := by
  obtain ⟨c', hloop, hshape, hcapacity, hclosed⟩ := swapLoop_spec h.toShape []
  refine ⟨c', ?_, [], hshape, hcapacity.trans h.capacity, hclosed.trans h.closed, rfl⟩
  rw [NodeChannel.swapOut, load_some h.head_cell, ok_bind, hloop, ok_bind, h.items]
  rfl

/-- Every call succeeds, and answers as the channel of items does. -/
lemma step_simulates (h : Represents c l nodes) (call : ChannelCall α) :
    ∃ c', c.step call = .ok (c', (CopyChannel.step l call).2) ∧
      ∃ nodes', Represents c' (CopyChannel.step l call).1 nodes' := by
  cases call with
  | send item allocator =>
      dsimp only [step, send, CopyChannel.step]
      rw [refuse_spec, ← h.closed]
      split
      · exact ⟨c, rfl, nodes, h⟩
      · next hopen =>
          have hfull : c.full = l.refuses := by
            rw [← h.refuses, Bool.eq_false_iff.mpr hopen, Bool.false_or]
          rw [hfull]
          split
          · exact ⟨c, rfl, nodes, h⟩
          · rw [h.closed]
            exact h.append item allocator
  | trySend item allocator =>
      dsimp only [step, trySend, CopyChannel.step, BlockingQueue.tryPush]
      rw [refuse_spec, ← h.refuses]
      cases hclosed : c.closed with
      | true => exact ⟨c, rfl, nodes, h⟩
      | false =>
          cases hfull : c.full with
          | true => exact ⟨c, rfl, nodes, h⟩
          | false => exact h.append item allocator
  | recv =>
      dsimp only [step, recv, CopyChannel.step]
      rw [h.closed]
      exact h.takeNext _
  | tryRecv => exact h.takeNext _
  | swapOut => exact h.swapOut
  | close =>
      have hshape : Shape c.close nodes := ⟨h.chain, h.count, h.tail, h.live⟩
      exact ⟨c.close, rfl, nodes, hshape, h.capacity, rfl, h.items⟩

end

/-- A new channel. -/
lemma represents_create (capacity : ℕ) (allocator : Allocator (Option α)) :
    Represents (create capacity allocator) { capacity } [] where
  chain := ⟨rfl, none, OrderedMap.getElem?_insert .. |>.trans (if_pos rfl), rfl⟩
  count := rfl
  tail := rfl
  live := fun _ ha => (mem_of_mem_insert ha).imp_right fun hmem =>
    absurd hmem Std.ExtTreeMap.not_mem_empty
  capacity := rfl
  closed := rfl
  items := rfl

/-- **A channel is a bounded FIFO.**  Every sequence of calls on a new channel succeeds, without a
fault.  After it the chain that starts after `m_head` has `m_count` nodes, at most `m_capacity` of
them unless that is zero, and ends at `m_tail`, which is `m_head` if there are none.  What `recv`,
`try_recv` and `swap_out` handed out, and then what is in the chain, are the accepted items, in
order. -/
theorem channel_fifo (capacity : ℕ) (allocator : Allocator (Option α))
    (calls : List (ChannelCall α)) :
    ∃ c answers nodes, Machine.run step (create capacity allocator) calls = .ok (c, answers) ∧
      Shape c nodes ∧ (0 < capacity → c.count ≤ capacity) ∧
      answers.flatMap ChannelAnswer.handedOut ++ nodes.map Prod.snd =
        (calls.zip answers).flatMap fun e => e.1.accepted e.2 := by
  let R : NodeChannel α → CopyChannel α → Prop := fun c l => ∃ nodes, Represents c l nodes
  have hstep : ∀ c l call, R c l →
      ∃ c', step c call = .ok (c', (CopyChannel.step l call).2) ∧
        R c' (CopyChannel.step l call).1 := by
    rintro c l call ⟨nodes, h⟩
    exact step_simulates h call
  obtain ⟨c, hrun, nodes, h⟩ :=
    Machine.run_simulates hstep ⟨[], represents_create capacity allocator⟩ calls
  have hwithin : BlockingQueue.Within capacity
      (Machine.feed CopyChannel.step { capacity } calls).1 :=
    Machine.feed_keeps (I := BlockingQueue.Within capacity)
      (fun l call hl => CopyChannel.within_step hl call) ⟨rfl, fun _ => Nat.zero_le _⟩ calls
  refine ⟨c, _, nodes, hrun, h.toShape, fun hpos => ?_, ?_⟩
  · rw [h.length]
    exact hwithin.2 hpos
  · rw [h.items, Machine.feed_fifo CopyChannel.step_fifo]
    rfl

/-- The destructor of a channel deletes every node, each once. -/
theorem destroy_deletes_all {c : NodeChannel α} {nodes : List (ℕ × α)} (h : Shape c nodes) :
    ∃ c', c.destroy = .ok c' ∧ ∀ a, a ∉ c'.heap := by
  obtain ⟨heap, hdrain, hgone, hkept⟩ := h.chain.drain
  refine ⟨{ c.close with heap }, ?_, fun a ha => ?_⟩
  · rw [destroy]
    dsimp only [close]
    rw [hdrain, ok_bind]
  · have hnone : heap[a]? = none := by
      by_cases hmem : a ∈ addresses ((c.head, none) :: filled nodes)
      · exact hgone a hmem
      · rw [hkept a hmem]
        refine getElem?_neg _ _ fun hlive => hmem ?_
        have hchain := List.mem_cons.mpr (h.live a hlive)
        rwa [← addresses_filled] at hchain
    exact (getElem?_eq_none_iff _ _).mp hnone ha

/-- Whatever was called before, the destructor leaves no node and deletes none twice. -/
theorem channel_leaves_nothing (capacity : ℕ) (allocator : Allocator (Option α))
    (calls : List (ChannelCall α)) :
    ∃ c answers c', Machine.run step (create capacity allocator) calls = .ok (c, answers) ∧
      c.destroy = .ok c' ∧ ∀ a, a ∉ c'.heap := by
  obtain ⟨c, hrun, nodes, h⟩ :=
    Machine.run_simulates (R := fun c l => ∃ nodes, Represents c l nodes)
    (fun _ _ call ⟨_, h⟩ => step_simulates h call) ⟨[], represents_create capacity allocator⟩ calls
  obtain ⟨c', hdestroy, hgone⟩ := destroy_deletes_all h.toShape
  exact ⟨c, _, c', hrun, hdestroy, hgone⟩

end NodeChannel

end Gateway
end Damen
