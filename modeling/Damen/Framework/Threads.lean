import Damen.Framework.Locks
import Mathlib.Data.Set.Basic
import Mathlib.Logic.Function.Basic

/-!
# Threads that share locks

Several threads, each with a trace of its own, take turns.  A thread that wants a lock which has an
owner waits; a call changes what the threads share, and may lead to further operations.

* `Deadlocked`: each thread of a set waits for a lock of another one.  In a deadlock some thread
  holds a lock while it waits for the next, and so does the owner of that one
  (`Deadlocked.exists_pair`);
* `Proper`: a trace that gives back only what it holds, takes a lock only under the locks that `P`
  allows, and calls only what `Q` allows.  `Orderly` threads stay so along every run
  (`Orderly.run`), and what they wait for is allowed (`Orderly.waits`);
* `Alone`: what a trace does to the shared state while no other thread takes a turn;
* `Gets`: where two threads can get to, one of them at a time.
-/

namespace Locking

open Function (update)

structure Threads (ι σ L C : Type) where
  shared : σ
  owner : L → Option ι
  todo : ι → Trace L C

inductive Stop (L : Type)
  | finished
  | waiting (lock : L)

variable {ι σ L C : Type}

/-- Each thread of the set waits for a lock of another one. -/
structure Deadlocked (c : Threads ι σ L C) (S : Set ι) : Prop where
  nonempty : S.Nonempty
  waits : ∀ i ∈ S, ∃ lock rest, c.todo i = .acquire lock :: rest ∧ ∃ j ∈ S, j ≠ i ∧
    c.owner lock = some j

lemma Deadlocked.exists_pair {c : Threads ι σ L C} {S : Set ι} (h : Deadlocked c S) :
    ∃ i j, j ≠ i ∧ ∃ mine yours other rest rest', c.owner mine = some i ∧
      c.todo i = .acquire yours :: rest ∧ c.owner yours = some j ∧
        c.todo j = .acquire other :: rest' := by
  obtain ⟨first, hfirst⟩ := h.nonempty
  obtain ⟨mine, -, -, i, hi, -, hmine⟩ := h.waits first hfirst
  obtain ⟨yours, rest, htodo, j, hj, hne, hyours⟩ := h.waits i hi
  obtain ⟨other, rest', htodo', -⟩ := h.waits j hj
  exact ⟨i, j, hne, mine, yours, other, rest, rest', hmine, htodo, hyours, htodo'⟩

/-! ## Taking turns -/

variable [DecidableEq ι] [DecidableEq L] {react : σ → C → σ × Trace L C}

namespace Threads

/-- The next operation of thread `i`. -/
def step (react : σ → C → σ × Trace L C) (c : Threads ι σ L C) (i : ι) :
    Except (Stop L) (Threads ι σ L C × Unit) :=
  match c.todo i with
  | [] => .error .finished
  | .acquire lock :: rest =>
      match c.owner lock with
      | some _ => .error (.waiting lock)
      | none =>
          .ok ({ c with owner := update c.owner lock (some i), todo := update c.todo i rest }, ())
  | .release lock :: rest =>
      .ok ({ c with owner := update c.owner lock none, todo := update c.todo i rest }, ())
  | .call callee :: rest =>
      .ok ({ c with
        shared := (react c.shared callee).1
        todo := update c.todo i ((react c.shared callee).2 ++ rest) }, ())

/-- Some turns lead from one state to another. -/
def Reaches (react : σ → C → σ × Trace L C) (c c' : Threads ι σ L C) : Prop :=
  ∃ turns os, Machine.run (step react) c turns = .ok (c', os)

/-- What a turn can be. -/
lemma step_cases {c c' : Threads ι σ L C} {i : ι} {o : Unit} (h : step react c i = .ok (c', o)) :
    (∃ lock rest, c.todo i = .acquire lock :: rest ∧ c.owner lock = none ∧
      c' = { c with owner := update c.owner lock (some i), todo := update c.todo i rest }) ∨
    (∃ lock rest, c.todo i = .release lock :: rest ∧
      c' = { c with owner := update c.owner lock none, todo := update c.todo i rest }) ∨
    (∃ callee rest, c.todo i = .call callee :: rest ∧
      c' = { c with
        shared := (react c.shared callee).1
        todo := update c.todo i ((react c.shared callee).2 ++ rest) }) := by
  unfold step at h
  split at h
  · cases h
  · next lock rest htodo =>
    split at h
    · cases h
    · next hfree =>
      cases h
      exact .inl ⟨lock, rest, htodo, hfree, rfl⟩
  · next lock rest htodo =>
    cases h
    exact .inr (.inl ⟨lock, rest, htodo, rfl⟩)
  · next callee rest htodo =>
    cases h
    exact .inr (.inr ⟨callee, rest, htodo, rfl⟩)

end Threads

/-! ## Proper traces -/

section Proper

variable {P : List L → L → Prop} {Q Q' : List L → C → Prop} {held : List L} {t u : Trace L C}

/-- Locks are taken under locks that `P` allows and given back by who holds them, and calls are made
under locks that `Q` allows. -/
def Proper (P : List L → L → Prop) (Q : List L → C → Prop) (held : List L) (t : Trace L C) : Prop :=
  Machine.Along step (fun held op =>
    match op with
    | .acquire lock => P held lock
    | .release lock => lock ∈ held
    | .call callee => Q held callee) held t

lemma Proper.tail {op : Op L C} {held' : List L} {o : Unit} (h : Proper P Q held (op :: t))
    (hstep : step held op = .ok (held', o)) : Proper P Q held' t :=
  h.2 held' o hstep

lemma proper_append_iff (ht : Balanced held t) :
    Proper P Q held (t ++ u) ↔ Proper P Q held t ∧ Proper P Q held u := by
  obtain ⟨os, ht⟩ := ht
  exact Machine.along_append_iff ht

lemma Proper.mono (himp : ∀ held callee, Q held callee → Q' held callee) (h : Proper P Q held t) :
    Proper P Q' held t := by
  refine Machine.along_iff.mpr fun before op after heq held' os hrun => ?_
  have hop := Machine.along_iff.mp h before op after heq held' os hrun
  cases op with
  | acquire lock => exact hop
  | release lock => exact hop
  | call callee => exact himp held' callee hop

/-- A proper trace that ends with the locks it started with. -/
structure Whole (P : List L → L → Prop) (Q : List L → C → Prop) (held : List L) (t : Trace L C) :
    Prop where
  balanced : Balanced held t
  proper : Proper P Q held t

lemma whole_nil : Whole P Q held ([] : Trace L C) := ⟨balanced_nil, trivial⟩

lemma whole_call {callee : C} (h : Q held callee) : Whole P Q held [.call callee] :=
  ⟨balanced_call callee, h, fun _ _ _ => trivial⟩

lemma Whole.append (ht : Whole P Q held t) (hu : Whole P Q held u) : Whole P Q held (t ++ u) :=
  ⟨ht.balanced.append hu.balanced, (proper_append_iff ht.balanced).mpr ⟨ht.proper, hu.proper⟩⟩

lemma whole_flatMap {α : Type} {l : List α} {f : α → Trace L C}
    (h : ∀ a ∈ l, Whole P Q held (f a)) :
    Whole P Q held (l.flatMap f) := by
  induction l with
  | nil => exact whole_nil
  | cons a l ih =>
      rw [List.flatMap_cons]
      exact (h a List.mem_cons_self).append (ih fun b hb => h b (List.mem_cons_of_mem a hb))

lemma Whole.locked {lock : L} (hfree : lock ∉ held) (hP : P held lock)
    (h : Whole P Q (lock :: held) t) :
    Whole P Q held (locked lock t) := by
  refine ⟨h.balanced.locked hfree, hP, fun held' o hstep => ?_⟩
  have hacquire : step held (.acquire lock : Op L C) = .ok (lock :: held, ()) := if_neg hfree
  obtain ⟨rfl, -⟩ := Prod.mk.inj (Except.ok.inj (hacquire.symm.trans hstep))
  exact (proper_append_iff h.balanced).mpr ⟨h.proper, List.mem_cons_self, fun _ _ _ => trivial⟩

end Proper

/-- What a call may lead to under some locks: a whole trace without further calls. -/
def Tame (react : σ → C → σ × Trace L C) (P : List L → L → Prop) (held : List L) (callee : C) :
    Prop :=
  ∀ s, Whole P (fun _ _ => False) held (react s callee).2

/-- The threads hold `held`, and go on properly. -/
structure Orderly (react : σ → C → σ × Trace L C) (P : ι → List L → L → Prop) (held : ι → List L)
    (c : Threads ι σ L C) : Prop where
  owner_iff : ∀ lock i, c.owner lock = some i ↔ lock ∈ held i
  nodup : ∀ i, (held i).Nodup
  proper : ∀ i, Proper (P i) (Tame react (P i)) (held i) (c.todo i)

namespace Orderly

variable {P : ι → List L → L → Prop} {held : ι → List L} {c c' : Threads ι σ L C} {i : ι} {lock : L}
  {rest : Trace L C}

omit [DecidableEq ι] in
lemma waits (h : Orderly react P held c) (htodo : c.todo i = .acquire lock :: rest) :
    P i (held i) lock := by
  have hproper := h.proper i
  rw [htodo] at hproper
  exact hproper.1

lemma acquire (h : Orderly react P held c) (htodo : c.todo i = .acquire lock :: rest)
    (hfree : c.owner lock = none) :
    Orderly react P (update held i (lock :: held i))
      { c with owner := update c.owner lock (some i), todo := update c.todo i rest } := by
  have hnot : ∀ j, lock ∉ held j := by
    intro j hj
    rw [(h.owner_iff lock j).mpr hj] at hfree
    cases hfree
  refine ⟨fun l j => ?_, fun j => ?_, fun j => ?_⟩
  · by_cases hl : l = lock
    · subst hl
      by_cases hj : j = i
      · subst hj
        simp
      · simp [hj, hnot j, Ne.symm hj]
    · by_cases hj : j = i
      · subst hj
        simp [hl, h.owner_iff l j]
      · simp [hl, hj, h.owner_iff l j]
  · by_cases hj : j = i
    · subst hj
      simpa using ⟨hnot j, h.nodup j⟩
    · simpa [hj] using h.nodup j
  · by_cases hj : j = i
    · subst hj
      have hproper := h.proper j
      rw [htodo] at hproper
      simpa using hproper.tail (if_neg (hnot j))
    · simpa [hj] using h.proper j

lemma release (h : Orderly react P held c) (htodo : c.todo i = .release lock :: rest) :
    Orderly react P (update held i ((held i).erase lock))
      { c with owner := update c.owner lock none, todo := update c.todo i rest } := by
  have hproper := h.proper i
  rw [htodo] at hproper
  have howner : c.owner lock = some i := (h.owner_iff lock i).mpr hproper.1
  refine ⟨fun l j => ?_, fun j => ?_, fun j => ?_⟩
  · by_cases hl : l = lock
    · subst hl
      by_cases hj : j = i
      · subst hj
        simp [(h.nodup j).mem_erase_iff]
      · have hnot : l ∉ held j := fun hmem =>
          hj (Option.some.inj (((h.owner_iff l j).mpr hmem).symm.trans howner))
        simp [hj, hnot]
    · by_cases hj : j = i
      · subst hj
        simp [hl, h.owner_iff l j, List.mem_erase_of_ne hl]
      · simp [hl, hj, h.owner_iff l j]
  · by_cases hj : j = i
    · subst hj
      simpa using (h.nodup j).erase lock
    · simpa [hj] using h.nodup j
  · by_cases hj : j = i
    · subst hj
      simpa using hproper.tail rfl
    · simpa [hj] using h.proper j

lemma call {callee : C} (h : Orderly react P held c) (htodo : c.todo i = .call callee :: rest) :
    Orderly react P held
      { c with
        shared := (react c.shared callee).1
        todo := update c.todo i ((react c.shared callee).2 ++ rest) } := by
  refine ⟨h.owner_iff, h.nodup, fun j => ?_⟩
  by_cases hj : j = i
  · subst hj
    have hproper := h.proper j
    rw [htodo] at hproper
    obtain ⟨hbalanced, htame⟩ := hproper.1 c.shared
    simpa using (proper_append_iff hbalanced).mpr ⟨htame.mono fun _ _ => False.elim,
      hproper.tail rfl⟩
  · simpa [hj] using h.proper j

/-- Orderly threads stay orderly. -/
lemma run (h : Orderly react P held c) (hreach : c.Reaches react c') :
    ∃ held', Orderly react P held' c' := by
  obtain ⟨turns, os, hrun⟩ := hreach
  refine Machine.run_keeps (I := fun c => ∃ held, Orderly react P held c) ?_ ⟨held, h⟩ hrun
  rintro c i c' o ⟨held, h⟩ hstep
  rcases Threads.step_cases hstep with ⟨lock, rest, htodo, hfree, rfl⟩ | ⟨lock, rest, htodo, rfl⟩ |
    ⟨callee, rest, htodo, rfl⟩
  · exact ⟨_, h.acquire htodo hfree⟩
  · exact ⟨_, h.release htodo⟩
  · exact ⟨_, h.call htodo⟩

end Orderly

/-! ## A thread on its own -/

namespace Threads

variable {c c' c'' : Threads ι σ L C}

lemma Reaches.refl : c.Reaches react c := ⟨[], [], rfl⟩

lemma Reaches.trans (h : c.Reaches react c') (h' : c'.Reaches react c'') : c.Reaches react c'' := by
  obtain ⟨turns, os, hrun⟩ := h
  obtain ⟨turns', os', hrun'⟩ := h'
  exact ⟨turns ++ turns', os ++ os', Machine.run_append_ok.mpr ⟨c', os, os', hrun, hrun', rfl⟩⟩

lemma Reaches.turn (i : ι) (hstep : step react c i = .ok (c', ())) : c.Reaches react c' :=
  ⟨[i], [()], Machine.run_cons_ok.mpr ⟨c', (), [], hstep, rfl, rfl⟩⟩

lemma reaches_acquire {i : ι} {lock : L} {rest : Trace L C}
    (htodo : c.todo i = .acquire lock :: rest)
    (hfree : c.owner lock = none) :
    c.Reaches react { c with
      owner := update c.owner lock (some i), todo := update c.todo i rest } :=
  .turn i (by simp only [step, htodo, hfree])

lemma reaches_call {i : ι} {callee : C} {rest : Trace L C}
    (htodo : c.todo i = .call callee :: rest) :
    c.Reaches react
      { c with
        shared := (react c.shared callee).1
        todo := update c.todo i ((react c.shared callee).2 ++ rest) } :=
  .turn i (by simp only [step, htodo])

end Threads

section Alone

variable {owner : L → Option ι} {i : ι} {s s' s'' : σ} {t u : Trace L C}

/-- On its own, thread `i` gets through `t` and leaves the locks as they were. -/
def Alone (react : σ → C → σ × Trace L C) (owner : L → Option ι) (i : ι) (s : σ) (t : Trace L C)
    (s' : σ) : Prop :=
  ∀ todo rest, todo i = t ++ rest →
    Threads.Reaches react ⟨s, owner, todo⟩ ⟨s', owner, update todo i rest⟩

lemma alone_nil : Alone react owner i s [] s := by
  rintro todo rest htodo
  obtain rfl : todo i = rest := htodo
  rw [Function.update_eq_self]
  exact .refl

lemma Alone.append (ht : Alone react owner i s t s') (hu : Alone react owner i s' u s'') :
    Alone react owner i s (t ++ u) s'' := by
  intro todo rest htodo
  have hmid := ht todo (u ++ rest) (by rw [htodo, List.append_assoc])
  have hlast := hu (update todo i (u ++ rest)) rest (Function.update_self ..)
  rw [Function.update_idem] at hlast
  exact hmid.trans hlast

lemma alone_flatMap {α : Type} {l : List α} {f : α → Trace L C}
    (h : ∀ a ∈ l, Alone react owner i s (f a) s) : Alone react owner i s (l.flatMap f) s := by
  induction l with
  | nil => exact alone_nil
  | cons a l ih =>
      rw [List.flatMap_cons]
      exact (h a List.mem_cons_self).append (ih fun b hb => h b (List.mem_cons_of_mem a hb))

lemma Alone.call {callee : C} (h : Alone react owner i (react s callee).1 (react s callee).2 s') :
    Alone react owner i s [.call callee] s' := by
  intro todo rest htodo
  have hlast := h (update todo i ((react s callee).2 ++ rest)) rest (Function.update_self ..)
  rw [Function.update_idem] at hlast
  exact (Threads.reaches_call htodo).trans hlast

lemma Alone.locked {lock : L} (hfree : owner lock = none)
    (h : Alone react (update owner lock (some i)) i s t s') :
    Alone react owner i s (locked lock t) s' := by
  intro todo rest htodo
  rw [Locking.locked, List.cons_append, List.append_assoc, List.singleton_append] at htodo
  have hbody := h (update todo i (t ++ .release lock :: rest)) (.release lock :: rest)
    (Function.update_self ..)
  rw [Function.update_idem] at hbody
  have hrelease : Threads.Reaches react
      ⟨s', update owner lock (some i), update todo i (.release lock :: rest)⟩
      ⟨s', owner, update todo i rest⟩ := by
    refine .turn i ?_
    simp only [Threads.step, Function.update_self, Function.update_idem]
    rw [← hfree, Function.update_eq_self]
  exact (Threads.reaches_acquire htodo hfree).trans (hbody.trans hrelease)

end Alone

section Gets

variable {c : Threads ι σ L C} {owner : L → Option ι} {i j : ι} {s s' : σ} {t u rest : Trace L C}
  {lock : L}

/-- Some turns lead to this shared state, these owners, and what `i` and `j` are then about to
do. -/
def Gets (react : σ → C → σ × Trace L C) (c : Threads ι σ L C) (i j : ι) (s : σ)
    (owner : L → Option ι) (t u : Trace L C) : Prop :=
  ∃ todo, c.Reaches react ⟨s, owner, todo⟩ ∧ todo i = t ∧ todo j = u

lemma gets_start : Gets react c i j c.shared c.owner (c.todo i) (c.todo j) :=
  ⟨c.todo, .refl, rfl, rfl⟩

lemma Gets.swap (h : Gets react c i j s owner t u) : Gets react c j i s owner u t := by
  obtain ⟨todo, hreach, ht, hu⟩ := h
  exact ⟨todo, hreach, hu, ht⟩

lemma Gets.alone (h : Gets react c i j s owner (t ++ rest) u) (hne : i ≠ j)
    (ht : Alone react owner i s t s') : Gets react c i j s' owner rest u := by
  obtain ⟨todo, hreach, hi, hj⟩ := h
  refine ⟨update todo i rest, hreach.trans (ht todo rest hi), Function.update_self .., ?_⟩
  rw [Function.update_of_ne hne.symm, hj]

lemma Gets.acquire (h : Gets react c i j s owner (.acquire lock :: rest) u) (hne : i ≠ j)
    (hfree : owner lock = none) : Gets react c i j s (update owner lock (some i)) rest u := by
  obtain ⟨todo, hreach, hi, hj⟩ := h
  refine ⟨update todo i rest, hreach.trans (Threads.reaches_acquire hi hfree),
    Function.update_self .., ?_⟩
  rw [Function.update_of_ne hne.symm, hj]

lemma Gets.call {callee : C} (h : Gets react c i j s owner (.call callee :: rest) u) (hne : i ≠ j) :
    Gets react c i j (react s callee).1 owner ((react s callee).2 ++ rest) u := by
  obtain ⟨todo, hreach, hi, hj⟩ := h
  refine ⟨update todo i ((react s callee).2 ++ rest), hreach.trans (Threads.reaches_call hi),
    Function.update_self .., ?_⟩
  rw [Function.update_of_ne hne.symm, hj]

/-- Two threads that wait for each other. -/
lemma Gets.deadlock {lock' : L} {rest' : Trace L C} (hne : i ≠ j)
    (h : Gets react c i j s owner (.acquire lock :: rest) (.acquire lock' :: rest'))
    (hj : owner lock = some j) (hi : owner lock' = some i) :
    ∃ c', c.Reaches react c' ∧ Deadlocked c' {i, j} := by
  obtain ⟨todo, hreach, ht, hu⟩ := h
  refine ⟨_, hreach, ⟨i, .inl rfl⟩, ?_⟩
  rintro k (rfl | rfl)
  · exact ⟨lock, rest, ht, j, .inr rfl, hne.symm, hj⟩
  · exact ⟨lock', rest', hu, i, .inl rfl, hne, hi⟩

end Gets

end Locking
