import Damen.Framework.Run

/-!
# What one thread does with its locks

A trace lists what a thread does, as far as it concerns locks: it takes a lock, gives it back, or
calls code that is not known here.  The locks are not recursive, so a thread that takes one that it
holds waits for itself; the run of the trace ends there.

* `Balanced`: a trace that does not do so, and ends with the locks it started with;
* `Neat`: a trace that gives back what it takes, wherever it runs;
* `Calls`: what holds of the locks at each call.  `calls_append_iff` and `calls_locked_iff` read it
  off the parts of a trace;
* `Level`: a trace that makes its calls with the locks it started with;
* `runs_within_iff`: the calls may take locks themselves.  The trace with what they do in place of
  the calls runs exactly if the trace does, and each callee with the locks that are held when it is
  called.
-/

namespace Locking

inductive Op (L C : Type)
  | acquire (lock : L)
  | release (lock : L)
  | call (callee : C)

abbrev Trace (L C : Type) := List (Op L C)

variable {L C : Type}

/-- A section under a lock. -/
def locked (lock : L) (body : Trace L C) : Trace L C := .acquire lock :: (body ++ [.release lock])

/-- The calls of a trace. -/
def callsOf (t : Trace L C) : List C :=
  t.filterMap fun
    | .call callee => some callee
    | _ => none

/-- The trace with what the callees do. -/
def within (react : C → Trace L C) (t : Trace L C) : Trace L C :=
  t.flatMap fun
    | .call callee => .call callee :: react callee
    | op => [op]

variable [DecidableEq L]

/-- The locks that are held after an operation. -/
def step (held : List L) : Op L C → Except L (List L × Unit)
  | .acquire lock => if lock ∈ held then .error lock else .ok (lock :: held, ())
  | .release lock => .ok (held.erase lock, ())
  | .call _ => .ok (held, ())

def Runs (held : List L) (t : Trace L C) : Prop :=
  ∃ held' os, Machine.run step held t = .ok (held', os)

def Balanced (held : List L) (t : Trace L C) : Prop :=
  ∃ os, Machine.run step held t = .ok (held, os)

def Neat (t : Trace L C) : Prop := ∀ held, Runs held t → Balanced held t

/-- `P` holds of the locks at each call, and of the callee. -/
def Calls (P : List L → C → Prop) (held : List L) (t : Trace L C) : Prop :=
  Machine.Along step (fun held op => ∀ callee, op = .call callee → P held callee) held t

structure Level (held : List L) (t : Trace L C) : Prop where
  balanced : Balanced held t
  calls : Calls (fun held' _ => held' = held) held t

variable {held : List L} {t u : Trace L C} {P Q : List L → C → Prop}

lemma Balanced.runs (h : Balanced held t) : Runs held t :=
  let ⟨os, hrun⟩ := h
  ⟨held, os, hrun⟩

/-! ## Traces one after the other -/

lemma runs_cons_iff {op : Op L C} :
    Runs held (op :: t) ↔ ∃ held' o, step held op = .ok (held', o) ∧ Runs held' t := by
  constructor
  · rintro ⟨held', os, hrun⟩
    obtain ⟨mid, o, os', hstep, hrun, -⟩ := Machine.run_cons_ok.mp hrun
    exact ⟨mid, o, hstep, held', os', hrun⟩
  · rintro ⟨mid, o, hstep, held', os, hrun⟩
    exact ⟨held', o :: os, Machine.run_cons_ok.mpr ⟨mid, o, os, hstep, hrun, rfl⟩⟩

lemma Balanced.runs_append_iff (h : Balanced held t) : Runs held (t ++ u) ↔ Runs held u := by
  obtain ⟨os, hrun⟩ := h
  constructor
  · rintro ⟨held', os', happend⟩
    obtain ⟨mid, os₁, os₂, h₁, h₂, -⟩ := Machine.run_append_ok.mp happend
    obtain ⟨rfl, -⟩ := Prod.mk.inj (Except.ok.inj (hrun.symm.trans h₁))
    exact ⟨held', os₂, h₂⟩
  · rintro ⟨held', os', hu⟩
    exact ⟨held', os ++ os', Machine.run_append_ok.mpr ⟨held, os, os', hrun, hu, rfl⟩⟩

lemma calls_cons_iff {op : Op L C} :
    Calls P held (op :: t) ↔ (∀ callee, op = .call callee → P held callee) ∧
      ∀ held' o, step held op = .ok (held', o) → Calls P held' t := Iff.rfl

/-! ## The parts of a balanced trace -/

lemma balanced_nil : Balanced held ([] : Trace L C) := ⟨[], rfl⟩

lemma balanced_call (callee : C) : Balanced held [.call callee] := ⟨[()], rfl⟩

lemma Balanced.append (ht : Balanced held t) (hu : Balanced held u) : Balanced held (t ++ u) := by
  obtain ⟨os, ht⟩ := ht
  obtain ⟨os', hu⟩ := hu
  exact ⟨os ++ os', Machine.run_append_ok.mpr ⟨held, os, os', ht, hu, rfl⟩⟩

lemma balanced_flatMap {α : Type} {l : List α} {f : α → Trace L C}
    (h : ∀ a ∈ l, Balanced held (f a)) : Balanced held (l.flatMap f) := by
  induction l with
  | nil => exact balanced_nil
  | cons a l ih =>
      rw [List.flatMap_cons]
      exact (h a List.mem_cons_self).append (ih fun b hb => h b (List.mem_cons_of_mem a hb))

variable {lock : L}

lemma run_locked (hfree : lock ∉ held) {os : List Unit}
    (h : Machine.run step (lock :: held) t = .ok (lock :: held, os)) :
    Machine.run step held (locked lock t) = .ok (held, () :: (os ++ [()])) := by
  have hacquire : step held (.acquire lock : Op L C) = .ok (lock :: held, ()) := if_neg hfree
  have hrelease : step (lock :: held) (.release lock : Op L C) = .ok (held, ()) := by
    simp only [step, List.erase_cons_head]
  exact Machine.run_cons_ok.mpr ⟨_, _, _, hacquire,
    Machine.run_concat_ok.mpr ⟨_, os, (), h, hrelease, rfl⟩, rfl⟩

lemma Balanced.locked (hfree : lock ∉ held) (h : Balanced (lock :: held) t) :
    Balanced held (locked lock t) := by
  obtain ⟨os, h⟩ := h
  exact ⟨_, run_locked hfree h⟩

lemma calls_nil : Calls P held ([] : Trace L C) := trivial

lemma calls_call_iff {callee : C} : Calls P held [.call callee] ↔ P held callee :=
  ⟨fun h => h.1 callee rfl, fun h => ⟨fun _ heq => by cases heq; exact h, fun _ _ _ => trivial⟩⟩

lemma calls_append_iff (ht : Balanced held t) :
    Calls P held (t ++ u) ↔ Calls P held t ∧ Calls P held u := by
  obtain ⟨os, ht⟩ := ht
  exact Machine.along_append_iff ht

lemma calls_flatMap_iff {α : Type} {l : List α} {f : α → Trace L C}
    (h : ∀ a ∈ l, Balanced held (f a)) :
    Calls P held (l.flatMap f) ↔ ∀ a ∈ l, Calls P held (f a) := by
  induction l with
  | nil => exact ⟨fun _ _ ha => absurd ha List.not_mem_nil, fun _ => calls_nil⟩
  | cons a l ih =>
      rw [List.flatMap_cons, calls_append_iff (h a List.mem_cons_self),
        ih fun b hb => h b (List.mem_cons_of_mem a hb), List.forall_mem_cons]

lemma calls_locked_iff (hfree : lock ∉ held) (h : Balanced (lock :: held) t) :
    Calls P held (locked lock t) ↔ Calls P (lock :: held) t := by
  have hacquire : step held (.acquire lock : Op L C) = .ok (lock :: held, ()) := if_neg hfree
  have hrelease : Calls P (lock :: held) [.release lock] :=
    ⟨fun _ heq => absurd heq (by simp), fun _ _ _ => trivial⟩
  constructor
  · rintro ⟨-, hbody⟩
    exact ((calls_append_iff h).mp (hbody _ _ hacquire)).1
  · intro hbody
    refine ⟨fun _ heq => absurd heq (by simp), fun held' o hstep => ?_⟩
    obtain ⟨rfl, -⟩ := Prod.mk.inj (Except.ok.inj (hacquire.symm.trans hstep))
    exact (calls_append_iff h).mpr ⟨hbody, hrelease⟩

lemma Calls.mono (h : Calls P held t) (himp : ∀ held callee, P held callee → Q held callee) :
    Calls Q held t :=
  Machine.along_iff.mpr fun before op after heq held' os hrun callee hop =>
    himp held' callee (Machine.along_iff.mp h before op after heq held' os hrun callee hop)

lemma calls_of_callsOf_eq_nil (h : callsOf t = []) : Calls P held t := by
  refine Machine.along_iff.mpr fun before op after heq held' os hrun callee hop => ?_
  rw [heq, hop, callsOf, List.filterMap_append] at h
  exact absurd (List.append_eq_nil_iff.mp h).2 (by simp)

/-! ## Traces that call at the level of their start -/

lemma Level.calls_of (h : Level held t) (hP : ∀ callee, P held callee) : Calls P held t :=
  h.calls.mono fun _ callee heq => heq ▸ hP callee

lemma level_nil : Level held ([] : Trace L C) := ⟨balanced_nil, calls_nil⟩

lemma level_call (callee : C) : Level held [.call callee] :=
  ⟨balanced_call callee, calls_call_iff.mpr rfl⟩

lemma Level.append (ht : Level held t) (hu : Level held u) : Level held (t ++ u) :=
  ⟨ht.balanced.append hu.balanced, (calls_append_iff ht.balanced).mpr ⟨ht.calls, hu.calls⟩⟩

lemma level_flatMap {α : Type} {l : List α} {f : α → Trace L C} (h : ∀ a ∈ l, Level held (f a)) :
    Level held (l.flatMap f) :=
  ⟨balanced_flatMap fun a ha => (h a ha).balanced,
    (calls_flatMap_iff fun a ha => (h a ha).balanced).mpr fun a ha => (h a ha).calls⟩

/-- A section that calls nothing. -/
lemma level_locked (hfree : lock ∉ held) (hbody : Balanced (lock :: held) t)
    (hcalls : callsOf t = []) : Level held (locked lock t) :=
  ⟨hbody.locked hfree, (calls_locked_iff hfree hbody).mpr (calls_of_callsOf_eq_nil hcalls)⟩

/-! ## Neat traces -/

lemma neat_nil : Neat ([] : Trace L C) := fun _ _ => balanced_nil

lemma Neat.append (ht : Neat t) (hu : Neat u) : Neat (t ++ u) := by
  rintro held ⟨held', os, happend⟩
  obtain ⟨mid, os₁, os₂, h₁, -, -⟩ := Machine.run_append_ok.mp happend
  have hbalanced := ht held ⟨mid, os₁, h₁⟩
  exact hbalanced.append (hu held (hbalanced.runs_append_iff.mp ⟨held', os, happend⟩))

lemma neat_flatMap {α : Type} {l : List α} {f : α → Trace L C} (h : ∀ a, Neat (f a)) :
    Neat (l.flatMap f) := by
  induction l with
  | nil => exact neat_nil
  | cons a l ih =>
      rw [List.flatMap_cons]
      exact (h a).append ih

lemma not_runs_locked (hheld : lock ∈ held) : ¬ Runs held (locked lock t) := by
  rintro ⟨held', os, hrun⟩
  obtain ⟨mid, o, os', hstep, -, -⟩ := Machine.run_cons_ok.mp hrun
  have hwait : step held (.acquire lock : Op L C) = .error lock := if_pos hheld
  exact absurd (hwait.symm.trans hstep) (by simp)

lemma Neat.locked (h : Neat t) (lock : L) : Neat (locked lock t) := by
  intro held hruns
  have hfree : lock ∉ held := fun hheld => not_runs_locked hheld hruns
  have hacquire : step held (.acquire lock : Op L C) = .ok (lock :: held, ()) := if_neg hfree
  obtain ⟨mid, o, hstep, held', os, hrun⟩ := runs_cons_iff.mp hruns
  obtain ⟨rfl, -⟩ := Prod.mk.inj (Except.ok.inj (hacquire.symm.trans hstep))
  obtain ⟨end', os₁, o', h₁, -, -⟩ := Machine.run_concat_ok.mp hrun
  exact (h (lock :: held) ⟨end', os₁, h₁⟩).locked hfree

/-! ## Callees that take locks -/

lemma runs_within_iff {react : C → Trace L C} (hreact : ∀ callee, Neat (react callee)) :
    Runs held (within react t) ↔
      Runs held t ∧ Calls (fun held callee => Runs held (react callee)) held t := by
  induction t generalizing held with
  | nil => exact ⟨fun h => ⟨h, calls_nil⟩, And.left⟩
  | cons op t ih =>
      rw [runs_cons_iff, calls_cons_iff]
      have hplain : (∀ callee, op ≠ .call callee) →
          (Runs held (op :: within react t) ↔
            (∃ held' o, step held op = .ok (held', o) ∧ Runs held' t) ∧
            (∀ callee, op = .call callee → Runs held (react callee)) ∧
            ∀ held' o, step held op = .ok (held', o) →
              Calls (fun held callee => Runs held (react callee)) held' t) := by
        intro hop
        rw [runs_cons_iff]
        constructor
        · rintro ⟨held', o, hstep, h⟩
          refine ⟨⟨held', o, hstep, (ih.mp h).1⟩, fun callee heq => absurd heq (hop callee), ?_⟩
          intro held'' o' hstep'
          obtain ⟨rfl, -⟩ := Prod.mk.inj (Except.ok.inj (hstep.symm.trans hstep'))
          exact (ih.mp h).2
        · rintro ⟨⟨held', o, hstep, ht⟩, -, hcalls⟩
          exact ⟨held', o, hstep, ih.mpr ⟨ht, hcalls held' o hstep⟩⟩
      cases op with
      | call callee =>
          have hwithin : Runs held (within react (.call callee :: t)) ↔
              Runs held (react callee ++ within react t) := by
            rw [within, List.flatMap_cons, List.cons_append, runs_cons_iff]
            exact ⟨fun ⟨_, _, hstep, h⟩ => by cases hstep; exact h, fun h => ⟨held, (), rfl, h⟩⟩
          rw [hwithin]
          constructor
          · intro h
            obtain ⟨held', os, happend⟩ := h
            obtain ⟨mid, os₁, os₂, h₁, h₂, -⟩ := Machine.run_append_ok.mp happend
            have hruns : Runs held (react callee) := ⟨mid, os₁, h₁⟩
            have hrest := (hreact callee held hruns).runs_append_iff.mp ⟨held', os, happend⟩
            obtain ⟨ht, hcalls⟩ := ih.mp hrest
            refine ⟨⟨held, (), rfl, ht⟩, fun _ heq => ?_, fun held' o hstep => ?_⟩
            · cases heq
              exact hruns
            · cases hstep
              exact hcalls
          · rintro ⟨⟨_, _, hstep, ht⟩, hcall, hcalls⟩
            cases hstep
            refine (hreact callee held (hcall callee rfl)).runs_append_iff.mpr (ih.mpr ⟨ht, ?_⟩)
            exact hcalls held () rfl
      | acquire lock => exact hplain fun _ heq => absurd heq (by simp)
      | release lock => exact hplain fun _ heq => absurd heq (by simp)

end Locking
