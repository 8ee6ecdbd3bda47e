import Damen.Framework.Run
import Damen.Model.BufferPool

/-!
# What the buffer pool keeps apart

Whatever the threads do, in whatever order, every address is in one place: not allocated, a buffer
in use, in the list of one thread, or lost with a thread that ended.  The block there is large
enough for what may be done with it next.  So two buffers never share a block, and no block is
deleted twice (`pool_accounts`).
-/

namespace Damen
namespace BufferPool

open LinkedCells OrderedMap

inductive Place
  | unused
  | buffer (r : Request)
  | cached (thread : ℕ)
  | lost
  deriving DecidableEq

/-- A block that `deallocate` may put in a list serves any pooled request later. -/
def Place.Fits : Place → ℕ → Prop
  | .unused, _ => False
  | .buffer r, size => r.n * r.sizeof ≤ size ∧ (r.pooled → size = kPoolBlockSize)
  | .cached _, size | .lost, size => size = kPoolBlockSize

lemma Place.fits_of_pooled {r : Request} (hr : r.pooled) : (buffer r).Fits kPoolBlockSize :=
  ⟨(Nat.mul_le_mul_right _ hr).trans (Nat.div_mul_le_self _ _), fun _ => rfl⟩

namespace Memory

def Holds (m : Memory) (p : ℕ) : Place → Prop
  | .unused => m.heap[p]? = none
  | .buffer r => ⟨p, r⟩ ∈ m.live
  | .cached thread => p ∈ m.freeList thread
  | .lost => p ∈ m.lost

/-- The address is there and nowhere else. -/
structure At (m : Memory) (p : ℕ) (place : Place) : Prop where
  only : ∀ place', m.Holds p place' ↔ place' = place
  fits : ∀ block, m.heap[p]? = some block → place.Fits block.value

structure Accounted (m : Memory) : Prop where
  place : ∀ p, ∃ place, m.At p place
  live : m.live.Nodup
  cached : ∀ thread, (m.freeList thread).Nodup ∧
    (m.freeList thread).length ≤ kPoolMaxFreePerThread
  lost : m.lost.length ≤ kPoolMaxFreePerThread * m.ended

variable {m m' : Memory} {p thread : ℕ} {r : Request}

lemma Accounted.at_of_holds (h : m.Accounted) {place : Place} (hp : m.Holds p place) :
    m.At p place := by
  obtain ⟨place', hat⟩ := h.place p
  rwa [(hat.only place).mp hp]

/-- One block is moved. -/
lemma Accounted.move (h : m.Accounted) (p : ℕ) (place : Place)
    (hplace : ∀ q place', m'.Holds q place' ↔ if q = p then place' = place else m.Holds q place')
    (hheap : ∀ q ≠ p, m'.heap[q]? = m.heap[q]?)
    (hfits : ∀ block, m'.heap[p]? = some block → place.Fits block.value) (q : ℕ) :
    ∃ place, m'.At q place := by
  by_cases hq : q = p
  · subst hq
    exact ⟨place, fun place' => (hplace q place').trans (if_pos rfl ▸ Iff.rfl), hfits⟩
  · obtain ⟨place', hat⟩ := h.place q
    refine ⟨place', fun place'' => ?_, hheap q hq ▸ hat.fits⟩
    rw [hplace, if_neg hq, hat.only]

/-- A buffer gets the last block of the list. -/
lemma Accounted.reuse (h : m.Accounted) {l : List ℕ}
    (hlist : m.freeList thread = l ++ [p]) (hr : r.pooled) :
    Accounted { m with
      freeList := Function.update m.freeList thread l, live := ⟨p, r⟩ :: m.live } := by
  have hat : m.At p (.cached thread) := h.at_of_holds (by simp [Holds, hlist])
  obtain ⟨hnodup, hlength⟩ := h.cached thread
  rw [hlist] at hnodup hlength
  obtain ⟨hp, hl⟩ : p ∉ l ∧ l.Nodup := List.nodup_cons.mp (List.nodup_append_comm.mp hnodup)
  have hlive : ⟨p, r⟩ ∉ m.live := fun hlive => nomatch (hat.only (.buffer r)).mp hlive
  refine ⟨h.move p (.buffer r) (fun q place' => ?_) (fun _ _ => rfl) (fun block hblock => ?_),
    List.nodup_cons.mpr ⟨hlive, h.live⟩, ?_, h.lost⟩
  · have := hat.only place'
    cases place' <;> grind [Holds, Function.update_apply]
  · rw [hat.fits block hblock]
    exact Place.fits_of_pooled hr
  · grind [h.cached, Function.update_apply]

/-- A buffer gets a new block. -/
lemma Accounted.fresh (h : m.Accounted) {size : ℕ} (hp : p ∉ m.heap)
    (hfits : (Place.buffer r).Fits size) :
    Accounted { m with heap := m.heap.insert p { value := size }, live := ⟨p, r⟩ :: m.live } := by
  have hat : m.At p .unused := h.at_of_holds (Std.ExtTreeMap.getElem?_eq_none hp)
  have hlive : ⟨p, r⟩ ∉ m.live := fun hlive => nomatch (hat.only (.buffer r)).mp hlive
  refine ⟨h.move p (.buffer r) (fun q place' => ?_) (fun q hq => ?_) (fun block hblock => ?_),
    List.nodup_cons.mpr ⟨hlive, h.live⟩, h.cached, h.lost⟩
  · have := hat.only place'
    cases place' <;> grind [Holds, getElem?_insert]
  · exact (getElem?_insert _ _ _ _).trans (if_neg hq)
  · rw [getElem?_insert, if_pos rfl] at hblock
    cases hblock
    exact hfits

/-- A block goes to the end of the list. -/
lemma Accounted.keep (h : m.Accounted) (hlive : ⟨p, r⟩ ∈ m.live) (hr : r.pooled)
    (hroom : (m.freeList thread).length < kPoolMaxFreePerThread) :
    Accounted { m with
      freeList := Function.update m.freeList thread (m.freeList thread ++ [p])
      live := m.live.erase ⟨p, r⟩ } := by
  have hat : m.At p (.buffer r) := h.at_of_holds hlive
  have hp : p ∉ m.freeList thread := fun hmem => nomatch (hat.only (.cached thread)).mp hmem
  have hnodup : (m.freeList thread ++ [p]).Nodup :=
    List.nodup_append_comm.mp (List.nodup_cons.mpr ⟨hp, (h.cached thread).1⟩)
  refine ⟨h.move p (.cached thread) (fun q place' => ?_) (fun _ _ => rfl)
    (fun block hblock => (hat.fits block hblock).2 hr), h.live.erase _, ?_, h.lost⟩
  · have := hat.only place'
    cases place' <;> grind [Holds, Function.update_apply, h.live.mem_erase_iff]
  · grind [h.cached, Function.update_apply]

/-- A block goes back to the heap. -/
lemma Accounted.release (h : m.Accounted) (hlive : ⟨p, r⟩ ∈ m.live) :
    Accounted { m with heap := m.heap.erase p, live := m.live.erase ⟨p, r⟩ } := by
  have hat : m.At p (.buffer r) := h.at_of_holds hlive
  refine ⟨h.move p .unused (fun q place' => ?_) (fun q hq => ?_) (fun block hblock => ?_),
    h.live.erase _, h.cached, h.lost⟩
  · have := hat.only place'
    cases place' <;> grind [Holds, getElem?_erase, h.live.mem_erase_iff]
  · exact (getElem?_erase _ _ _).trans (if_neg hq)
  · rw [getElem?_erase, if_pos rfl] at hblock
    cases hblock

/-- The blocks of the list stay allocated. -/
lemma Accounted.exit (h : m.Accounted) (thread : ℕ) :
    Accounted { m with
      freeList := Function.update m.freeList thread []
      lost := m.freeList thread ++ m.lost
      ended := m.ended + 1 } := by
  refine ⟨fun p => ?_, h.live, ?_, ?_⟩
  · obtain ⟨place, hat⟩ := h.place p
    have hcached := hat.only (.cached thread)
    refine ⟨if place = .cached thread then .lost else place, fun place' => ?_,
      fun block hblock => ?_⟩
    · have := hat.only place'
      cases place' <;> grind [Holds, Function.update_apply]
    · have := hat.fits block hblock
      grind [Place.Fits]
  · grind [h.cached, Function.update_apply]
  · have := (h.cached thread).2
    have := h.lost
    grind

lemma step_accounted (h : m.Accounted) {event : Event} (hproper : m.Proper event) :
    ∃ m', m.step event = .ok (m', ()) ∧ m'.Accounted := by
  cases event with
  | allocate thread r allocator =>
      unfold step Pool.allocate
      simp only
      by_cases hpooled : r.pooled
      · rw [if_pos hpooled]
        cases hlast : (m.freeList thread).getLast? with
        | some p => exact ⟨_, rfl, h.reuse (List.dropLast_append_getLast? p hlast).symm hpooled⟩
        | none => exact ⟨_, rfl, h.fresh (allocator.fresh _) (Place.fits_of_pooled hpooled)⟩
      · rw [if_neg hpooled, Nat.mod_eq_of_lt hproper]
        exact ⟨_, rfl, h.fresh (allocator.fresh _) ⟨le_rfl, fun hr => absurd hr hpooled⟩⟩
  | deallocate thread buffer =>
      obtain ⟨p, r⟩ := buffer
      unfold step Pool.deallocate
      simp only
      split
      · next hkeep => exact ⟨_, rfl, h.keep hproper hkeep.1 hkeep.2⟩
      · have hat : m.At p (.buffer r) := h.at_of_holds hproper
        cases hblock : m.heap[p]? with
        | none => cases (hat.only .unused).mp hblock
        | some block =>
            rw [delete_some hblock]
            exact ⟨_, rfl, h.release hproper⟩
  | exit thread => exact ⟨_, rfl, h.exit thread⟩

lemma run_accounted (h : m.Accounted) {events : List Event}
    (hproper : Machine.Along step Proper m events) :
    ∃ m' outs, Machine.run step m events = .ok (m', outs) ∧ m'.Accounted := by
  induction events generalizing m with
  | nil => exact ⟨m, [], rfl, h⟩
  | cons event events ih =>
      obtain ⟨t, ht, h⟩ := step_accounted h hproper.1
      obtain ⟨m', outs, hrun, h'⟩ := ih h (hproper.2 t () ht)
      exact ⟨m', () :: outs, Machine.run_cons_ok.mpr ⟨t, (), outs, ht, hrun, rfl⟩, h'⟩

end Memory

/-- After any sequence of calls by any threads, every block is accounted for, and none was deleted
that was not allocated. -/
theorem pool_accounts {events : List Event}
    (hproper : Machine.Along Memory.step Memory.Proper {} events) :
    ∃ m outs, Machine.run Memory.step {} events = .ok (m, outs) ∧ m.Accounted := by
  refine Memory.run_accounted ⟨fun p => ⟨.unused, fun place' => ?_, fun block hblock => ?_⟩,
    List.nodup_nil, fun _ => ⟨List.nodup_nil, Nat.zero_le _⟩, Nat.zero_le _⟩ hproper
  · cases place' <;> simp [Memory.Holds]
  · simp at hblock

/-- The second thread gives back a buffer of the first one, and ends. -/
theorem pool_accounts_handed_over :
    ∃ m outs, Machine.run Memory.step {} [.allocate 1 ⟨1, 100⟩ default, .deallocate 2 ⟨1, ⟨1, 100⟩⟩,
      .exit 2] = .ok (m, outs) ∧ m.Accounted :=
  pool_accounts (by decide)

end BufferPool
end Damen
