import Damen.Framework.OrderedMap
import Mathlib.Algebra.Order.BigOperators.Group.List
import Mathlib.Algebra.Order.Ring.Nat
import Mathlib.Data.List.Nodup

/-!
# Cells with a link to the next

A heap of cells, each with a value and a pointer to the next one.  Reading or writing through a null
pointer or one whose cell was deleted is a `MemoryFault`.  An `Allocator` places a new cell at an
address that is not in use, whatever the heap.

`Chain heap l p q` says that following the links from `p` to `q` gives the addresses and values `l`.

* `chain_append` cuts a chain;
* `Chain.next_eq` and `Chain.nodup`: where a chain leads is determined, so one that ends at null
  does not meet itself;
* `Chain.insert`, `Chain.erase`: a cell elsewhere makes no difference;
* `Chain.link` hangs a cell on the end of a chain;
* `drain` deletes a chain cell by cell, and leaves nothing of it (`Chain.drain`).
-/

namespace LinkedCells

open Std (ExtTreeMap)

structure Cell (β : Type) where
  value : β
  next : Option ℕ := none

/-- The cells in use, by address. -/
abbrev Heap (β : Type) := ExtTreeMap ℕ (Cell β)

/-- What is undefined, or wraps around. -/
inductive MemoryFault
  | nullPointer
  | danglingPointer
  /-- The value of an empty optional is read. -/
  | noValue
  /-- A counter at zero is decremented. -/
  | underflow
  deriving DecidableEq

/-- How a new cell is placed. -/
structure Allocator (β : Type) where
  place : Heap β → ℕ
  fresh : ∀ heap, place heap ∉ heap

variable {β : Type}

/-- One that places a cell above all others. -/
instance : Inhabited (Allocator β) where
  default :=
    { place := fun heap => heap.keys.sum + 1
      fresh := fun heap hmem => by
        have hle := List.le_sum_of_mem (ExtTreeMap.mem_keys.mpr hmem)
        omega }

/-! ## Access -/

def load (heap : Heap β) : Option ℕ → Except MemoryFault (Cell β)
  | none => .error .nullPointer
  | some a =>
      match heap[a]? with
      | none => .error .danglingPointer
      | some cell => .ok cell

def store (heap : Heap β) (p : Option ℕ) (cell : Cell β) : Except MemoryFault (Heap β) :=
  match p with
  | none => .error .nullPointer
  | some a => if a ∈ heap then .ok (heap.insert a cell) else .error .danglingPointer

/-- Deleting a null pointer has no effect. -/
def delete (heap : Heap β) : Option ℕ → Except MemoryFault (Heap β)
  | none => .ok heap
  | some a => if a ∈ heap then .ok (heap.erase a) else .error .danglingPointer

def decrement (n : ℕ) : Except MemoryFault ℕ := if n = 0 then .error .underflow else .ok (n - 1)

variable {heap : Heap β} {a : ℕ} {cell : Cell β}

lemma ok_bind {ε γ δ : Type} (x : γ) (f : γ → Except ε δ) : (Except.ok x >>= f) = f x := rfl

lemma bind_eq_ok {ε γ δ : Type} {x : Except ε γ} {f : γ → Except ε δ} {r : δ}
    (h : (x >>= f) = .ok r) :
    ∃ y, x = .ok y ∧ f y = .ok r := by
  cases x with
  | error e => cases h
  | ok y => exact ⟨y, rfl, h⟩

lemma load_some (h : heap[a]? = some cell) : load heap (some a) = .ok cell := by
  rw [load, h]

lemma store_some (h : heap[a]? = some cell) (cell' : Cell β) :
    store heap (some a) cell' = .ok (heap.insert a cell') :=
  if_pos (of_getElem?_eq_some h)

lemma delete_some (h : heap[a]? = some cell) : delete heap (some a) = .ok (heap.erase a) :=
  if_pos (of_getElem?_eq_some h)

lemma decrement_succ (n : ℕ) : decrement (n + 1) = .ok n := rfl

/-! ## Chains -/

/-- The links lead from `p` to `q` through the addresses and values of `l`. -/
def Chain (heap : Heap β) : List (ℕ × β) → Option ℕ → Option ℕ → Prop
  | [], p, q => p = q
  | e :: l, p, q => p = some e.1 ∧ ∃ next, heap[e.1]? = some ⟨e.2, next⟩ ∧ Chain heap l next q

/-- The addresses of a chain. -/
abbrev addresses (l : List (ℕ × β)) : List ℕ := l.map Prod.fst

variable {l l' : List (ℕ × β)} {p q : Option ℕ}

lemma chain_append : Chain heap (l ++ l') p q ↔ ∃ m, Chain heap l p m ∧ Chain heap l' m q := by
  induction l generalizing p with
  | nil => exact ⟨fun h => ⟨p, rfl, h⟩, fun ⟨m, hm, h⟩ => hm ▸ h⟩
  | cons e l ih =>
      simp only [List.cons_append, Chain, ih]
      constructor
      · rintro ⟨hp, next, hcell, m, h, h'⟩
        exact ⟨m, ⟨hp, next, hcell, h⟩, h'⟩
      · rintro ⟨m, ⟨hp, next, hcell, h⟩, h'⟩
        exact ⟨hp, next, hcell, m, h, h'⟩

variable {heap' : Heap β}

lemma Chain.congr (h : Chain heap l p q) (hsame : ∀ a ∈ addresses l, heap'[a]? = heap[a]?) :
    Chain heap' l p q := by
  induction l generalizing p with
  | nil => exact h
  | cons e l ih =>
      obtain ⟨hp, next, hcell, hrest⟩ := h
      refine ⟨hp, next, ?_, ih hrest fun a ha => hsame a (List.mem_cons_of_mem _ ha)⟩
      rw [hsame e.1 List.mem_cons_self, hcell]

lemma Chain.insert (h : Chain heap l p q) (ha : a ∉ addresses l) (cell : Cell β) :
    Chain (heap.insert a cell) l p q := by
  refine h.congr fun b hb => ?_
  rw [OrderedMap.getElem?_insert, if_neg]
  rintro rfl
  exact ha hb

lemma Chain.erase (h : Chain heap l p q) (ha : a ∉ addresses l) : Chain (heap.erase a) l p q := by
  refine h.congr fun b hb => ?_
  rw [OrderedMap.getElem?_erase, if_neg]
  rintro rfl
  exact ha hb

lemma Chain.mem (h : Chain heap l p q) (ha : a ∈ addresses l) : a ∈ heap := by
  induction l generalizing p with
  | nil => exact absurd ha List.not_mem_nil
  | cons e l ih =>
      obtain ⟨-, next, hcell, hrest⟩ := h
      rcases List.mem_cons.mp ha with rfl | ha
      · exact of_getElem?_eq_some hcell
      · exact ih hrest ha

/-- A chain starts at its first cell. -/
lemma Chain.start (h : Chain heap l p none) : p = (addresses l).head? := by
  cases l with
  | nil => exact h
  | cons e l => exact h.1

/-- Only one chain leads from a pointer to null. -/
lemma Chain.unique (h : Chain heap l p none) (h' : Chain heap l' p none) : l = l' := by
  induction l generalizing p l' with
  | nil =>
      cases l' with
      | nil => rfl
      | cons e l' =>
          obtain ⟨hp, -⟩ := h'
          cases h.symm.trans hp
  | cons e l ih =>
      obtain ⟨hp, next, hcell, hrest⟩ := h
      cases l' with
      | nil => cases hp.symm.trans h'
      | cons e' l' =>
          obtain ⟨hp', next', hcell', hrest'⟩ := h'
          have haddress : e.1 = e'.1 := Option.some.inj (hp.symm.trans hp')
          rw [← haddress, hcell] at hcell'
          obtain ⟨hvalue, rfl⟩ := Cell.mk.inj (Option.some.inj hcell')
          rw [Prod.ext haddress hvalue, ih hrest hrest']

/-- A chain that ends at null does not come back to a cell. -/
lemma Chain.nodup (h : Chain heap l p none) : (addresses l).Nodup := by
  induction l generalizing p with
  | nil => exact List.nodup_nil
  | cons e l ih =>
      obtain ⟨hp, next, hcell, hrest⟩ := h
      refine List.nodup_cons.mpr ⟨fun hmem => ?_, ih hrest⟩
      -- the rest of the chain from the second visit on would be the whole chain
      obtain ⟨e', he', haddress⟩ := List.mem_map.mp hmem
      obtain ⟨before, after, rfl⟩ := List.append_of_mem he'
      obtain ⟨m, -, hagain⟩ := chain_append.mp hrest
      have hsame : Chain heap (e :: (before ++ e' :: after)) (some e.1) none :=
        ⟨rfl, next, hcell, hrest⟩
      have hm : m = some e.1 := hagain.1.trans (congrArg some haddress)
      have hlength := congrArg List.length (hsame.unique (hm ▸ hagain))
      simp at hlength
      omega

/-- A cell is hung on the end of a chain. -/
lemma Chain.link {b b' : β} {n : ℕ} (h : Chain heap (l ++ [(a, b)]) p none)
    (hnew : heap[n]? = some ⟨b', none⟩) (hn : n ∉ addresses (l ++ [(a, b)])) :
    Chain (heap.insert a ⟨b, some n⟩) (l ++ [(a, b)] ++ [(n, b')]) p none := by
  have hnodup := h.nodup
  obtain ⟨m, hfirst, hm, next, hcell, hnext⟩ := chain_append.mp h
  simp only [addresses, List.map_append, List.map_cons, List.map_nil, List.mem_append,
    List.mem_singleton, not_or] at hn
  have ha : a ∉ addresses l := by
    intro hmem
    rw [addresses, List.map_append] at hnodup
    exact (List.nodup_append.mp hnodup).2.2 a hmem a (List.mem_singleton_self a) rfl
  rw [List.append_assoc]
  refine chain_append.mpr ⟨m, hfirst.insert ha _, hm, some n, ?_, rfl, none, ?_, rfl⟩
  · rw [OrderedMap.getElem?_insert, if_pos rfl]
  · rw [OrderedMap.getElem?_insert, if_neg hn.2, hnew]

/-! ## Deleting a chain -/

lemma size_erase_lt (h : heap[a]? = some cell) : (heap.erase a).size < heap.size := by
  have hmem : a ∈ heap := of_getElem?_eq_some h
  have hpos : heap.size ≠ 0 := by
    intro hzero
    rw [ExtTreeMap.eq_empty_iff_size_eq_zero.mpr hzero] at hmem
    exact ExtTreeMap.not_mem_empty hmem
  rw [ExtTreeMap.size_erase, if_pos (ExtTreeMap.contains_iff_mem.mpr hmem)]
  omega

lemma size_of_store (h : store heap p cell = .ok heap') : heap'.size = heap.size := by
  unfold store at h
  split at h
  · cases h
  · split at h
    · next hmem =>
        obtain rfl := Except.ok.inj h
        rw [ExtTreeMap.size_insert, if_pos (ExtTreeMap.contains_iff_mem.mpr hmem)]
    · cases h

lemma size_of_delete (h : delete heap (some a) = .ok heap') : heap'.size < heap.size := by
  simp only [delete] at h
  split at h
  · next hmem =>
      obtain rfl := Except.ok.inj h
      exact size_erase_lt (getElem?_pos heap a hmem)
  · cases h

/-- Every cell from `p` on is deleted, after its link was read. -/
def drain (heap : Heap β) : Option ℕ → Except MemoryFault (Heap β)
  | none => .ok heap
  | some a =>
      match _h : heap[a]? with
      | none => .error .danglingPointer
      | some cell => drain (heap.erase a) cell.next
  termination_by heap.size
  decreasing_by exact size_erase_lt _h

lemma Chain.drain (h : Chain heap l p none) :
    ∃ heap', LinkedCells.drain heap p = .ok heap' ∧ (∀ a ∈ addresses l, heap'[a]? = none) ∧
      ∀ a ∉ addresses l, heap'[a]? = heap[a]? := by
  induction l generalizing heap p with
  | nil =>
      obtain rfl : p = none := h
      exact ⟨heap, by rw [LinkedCells.drain], List.forall_mem_nil _, fun _ _ => rfl⟩
  | cons e l ih =>
      have hnodup := h.nodup
      obtain ⟨rfl, next, hcell, hrest⟩ := h
      have hfirst := (List.nodup_cons.mp hnodup).1
      obtain ⟨heap', hdrain, hgone, hkept⟩ := ih (hrest.erase hfirst)
      refine ⟨heap', ?_, ?_, ?_⟩
      · rw [LinkedCells.drain]
        split
        · next hnone => cases hcell.symm.trans hnone
        · next cell hsome =>
            obtain rfl := Option.some.inj (hcell.symm.trans hsome)
            exact hdrain
      · refine List.forall_mem_cons.mpr ⟨?_, hgone⟩
        rw [hkept _ hfirst, OrderedMap.getElem?_erase, if_pos rfl]
      · intro a ha
        obtain ⟨hne, ha⟩ := not_or.mp (mt List.mem_cons.mpr ha)
        rw [hkept a ha, OrderedMap.getElem?_erase, if_neg hne]

/-! ## Cells with and without a value -/

section

variable {γ : Type}

/-- Cells with a value. -/
def filled (l : List (ℕ × γ)) : List (ℕ × Option γ) := l.map fun e => (e.1, some e.2)

/-- Cells without. -/
def blank (l : List ℕ) : List (ℕ × Option γ) := l.map fun a => (a, none)

@[simp] lemma addresses_filled (l : List (ℕ × γ)) : addresses (filled l) = addresses l := by
  simp [filled, addresses]

@[simp] lemma addresses_blank (l : List ℕ) : addresses (blank l : List (ℕ × Option γ)) = l := by
  simp [blank, addresses, Function.comp_def]

lemma filled_concat (l : List (ℕ × γ)) (a : ℕ) (c : γ) :
    filled (l ++ [(a, c)]) = filled l ++ [(a, some c)] := by
  rw [filled, List.map_append]
  rfl

end

/-- A cell that is created and deleted leaves no trace. -/
lemma erase_insert_fresh (h : a ∉ heap) (cell : Cell β) : (heap.insert a cell).erase a = heap := by
  refine ExtTreeMap.ext_getElem? fun b => ?_
  rw [OrderedMap.getElem?_erase, OrderedMap.getElem?_insert]
  split
  · next hb => rw [hb, getElem?_neg heap a h]
  · rfl

lemma mem_of_mem_insert {b : ℕ} (h : b ∈ heap.insert a cell) : b = a ∨ b ∈ heap := by
  rw [ExtTreeMap.mem_insert, Std.LawfulEqCmp.compare_eq_iff_eq] at h
  exact h.imp_left Eq.symm

end LinkedCells
