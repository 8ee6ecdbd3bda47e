import Damen.Framework.Run
import Damen.Model.Gateway.Reactor

/-!
# What periodic timers call

`process_timers` moves the function of a timer that is due into the task it queues, and puts the
timer back without it.  The first task of a timer calls what was registered; every later one calls
nothing.

One pass puts back the timers that were due, those it skipped with their functions and those it
fired without (`fireTimers_eq`).  So the timers keep their functions along a run exactly if none is
fired (`timers_keep_functions_iff`).
-/

namespace Damen
namespace Gateway

open Reactor

variable {F M : Type}

/-- What happens at a reactor with timers: one is registered, the timers are looked at, or the cpu
thread takes a task. -/
inductive TimerEvent (F : Type)
  | schedule (name : Bytes) (fn : F) (interval : Int) (skippable : Bool) (now : TimePoint)
  | process (now : TimePoint)
  | take

def timerStep (r : Reactor F M) : TimerEvent F → Except Empty (Reactor F M × Unit)
  | .schedule name fn interval skippable now =>
      .ok (r.scheduleTimer name fn interval skippable now, ())
  | .process now => .ok (r.processTimers now, ())
  | .take => .ok (r.takeTask, ())

/-- The timers that are due and not skipped, in the order of their deadlines. -/
def firing (now : TimePoint) (timers : List (TimerEntry F)) : List (TimerEntry F) :=
  timers.filter fun t => decide (t.nextDeadline ≤ now) && !t.skipped now

/-- A timer as it should be after a pass. -/
def rescheduled (now : TimePoint) (t : TimerEntry F) : TimerEntry F :=
  if t.nextDeadline ≤ now then
    { t with fn := some t.registered, nextDeadline := now + t.interval } else t

/-- The task of each timer that fires calls what was registered, and all timers are in the queue
again with what was registered. -/
structure FiresRegistered (now : TimePoint) (r r' : Reactor F M) : Prop where
  tasks : r'.cpu.items = r.cpu.items ++ (firing now r.timers).map fun t =>
    { name := t.name, fn := some (.call t.registered), skippable := t.skippable }
  timers : r'.timers.Perm (r.timers.map (rescheduled now))

/-- The cpu queue is open and has room for the tasks of a pass. -/
def HasRoom (now : TimePoint) (r : Reactor F M) : Prop :=
  r.cpu.closed = false ∧
    (r.cpu.capacity = 0 ∨ r.cpu.items.length + (firing now r.timers).length ≤ r.cpu.capacity)

/-! ## One pass -/

abbrev ByDeadline (timers : List (TimerEntry F)) : Prop :=
  timers.Pairwise fun t u => t.nextDeadline ≤ u.nextDeadline

lemma perm_pushTimer (t : TimerEntry F) (timers : List (TimerEntry F)) :
    (pushTimer t timers).Perm (t :: timers) := by
  induction timers with
  | nil => exact List.Perm.refl _
  | cons u timers ih =>
      unfold pushTimer
      split
      · exact List.Perm.refl _
      · exact (ih.cons u).trans (List.Perm.swap t u timers)

variable {timers : List (TimerEntry F)} {r : Reactor F M}

lemma byDeadline_pushTimer {t : TimerEntry F} (h : ByDeadline timers) :
    ByDeadline (pushTimer t timers) := by
  induction timers with
  | nil => exact List.pairwise_singleton _ _
  | cons u timers ih =>
      obtain ⟨hu, htimers⟩ := List.pairwise_cons.mp h
      unfold pushTimer
      split
      · next hlt =>
        refine List.pairwise_cons.mpr ⟨List.forall_mem_cons.mpr ⟨le_of_lt hlt, fun v hv => ?_⟩, h⟩
        exact (le_of_lt hlt).trans (hu v hv)
      · next hge =>
        refine List.pairwise_cons.mpr ⟨fun v hv => ?_, ih htimers⟩
        rcases List.mem_cons.mp ((perm_pushTimer t timers).mem_iff.mp hv) with rfl | hv
        · exact not_lt.mp hge
        · exact hu v hv

lemma perm_foldl_pushTimer (reinsert timers : List (TimerEntry F)) :
    (reinsert.foldl (fun timers t => pushTimer t timers) timers).Perm (timers ++ reinsert) := by
  induction reinsert generalizing timers with
  | nil => rw [List.foldl_nil, List.append_nil]
  | cons t reinsert ih =>
      refine (ih (pushTimer t timers)).trans (((perm_pushTimer t timers).append_right _).trans ?_)
      exact (List.perm_middle).symm

lemma byDeadline_foldl_pushTimer {reinsert : List (TimerEntry F)} (h : ByDeadline timers) :
    ByDeadline (reinsert.foldl (fun timers t => pushTimer t timers) timers) := by
  induction reinsert generalizing timers with
  | nil => exact h
  | cons t reinsert ih => exact ih (byDeadline_pushTimer h)

/-- A timer as it is after it was due: without its function, unless it was skipped. -/
def putBack (now : TimePoint) (t : TimerEntry F) : TimerEntry F :=
  if t.skipped now then { t with nextDeadline := now + t.interval }
  else { t with fn := none, nextDeadline := now + t.interval }

lemma tryPush_of_room {α : Type} {q : BlockingQueue α} (item : α) (hopen : q.closed = false)
    (hroom : q.capacity = 0 ∨ q.items.length < q.capacity) :
    q.tryPush item = ({ q with items := q.items ++ [item] }, true) := by
  have hrefuses : q.refuses = false := by
    rw [BlockingQueue.refuses, hopen, Bool.false_or, decide_eq_false_iff_not]
    omega
  rw [BlockingQueue.tryPush, hrefuses, if_neg Bool.false_ne_true]

/-- What the loop of a pass leaves: the timers that are not due, their tasks in the queue, and the
timers to be put back. -/
lemma fireTimers_eq {now : TimePoint} {cpu : BlockingQueue (Task F M)} (hsorted : ByDeadline timers)
    (hopen : cpu.closed = false)
    (hroom : cpu.capacity = 0 ∨ cpu.items.length + (firing now timers).length ≤ cpu.capacity) :
    fireTimers now timers cpu =
      (timers.filter fun t => decide (now < t.nextDeadline),
        { cpu with items := cpu.items ++ (firing now timers).map (TimerEntry.task M) },
        (timers.filter fun t => decide (t.nextDeadline ≤ now)).map (putBack now)) := by
  induction timers generalizing cpu with
  | nil => simp [fireTimers, firing]
  | cons top timers ih =>
      obtain ⟨htop, htimers⟩ := List.pairwise_cons.mp hsorted
      unfold fireTimers
      by_cases hdue : now < top.nextDeadline
      · -- no later timer is due either
        have hlate : ∀ t ∈ top :: timers, now < t.nextDeadline :=
          List.forall_mem_cons.mpr ⟨hdue, fun t ht => hdue.trans_le (htop t ht)⟩
        have hfiring : firing now (top :: timers) = [] :=
          List.filter_eq_nil_iff.mpr fun t ht => by simp [hlate t ht]
        have hnone : ((top :: timers).filter fun t => decide (t.nextDeadline ≤ now)) = [] :=
          List.filter_eq_nil_iff.mpr fun t ht => by simp [hlate t ht]
        have hall : ((top :: timers).filter fun t => decide (now < t.nextDeadline)) =
            top :: timers :=
          List.filter_eq_self.mpr fun t ht => by simp [hlate t ht]
        rw [if_pos hdue, hfiring, hnone, hall, List.map_nil, List.append_nil, List.map_nil]
      · have hle : top.nextDeadline ≤ now := not_lt.mp hdue
        have hleft : ((top :: timers).filter fun t => decide (now < t.nextDeadline)) =
            timers.filter fun t => decide (now < t.nextDeadline) :=
          List.filter_cons_of_neg (by simpa using hle)
        have hback : ((top :: timers).filter fun t => decide (t.nextDeadline ≤ now)) =
            top :: timers.filter fun t => decide (t.nextDeadline ≤ now) :=
          List.filter_cons_of_pos (by simpa using hle)
        rw [if_neg hdue, hleft, hback, List.map_cons, putBack]
        by_cases hskip : top.skipped now = true
        · have hfiring : firing now (top :: timers) = firing now timers :=
            List.filter_cons_of_neg (by simp [hskip])
          rw [hfiring] at hroom ⊢
          rw [if_pos hskip, if_pos hskip, ih htimers hopen hroom]
        · have hfiring : firing now (top :: timers) = top :: firing now timers :=
            List.filter_cons_of_pos (by simp [hskip, hle])
          rw [hfiring, List.length_cons] at hroom
          have hrest := @ih { cpu with items := cpu.items ++ [top.task M] } htimers hopen
            (by simp only [List.length_append, List.length_singleton]; omega)
          rw [if_neg hskip, if_neg hskip, tryPush_of_room _ hopen (by omega), hrest, hfiring,
            List.map_cons]
          simp only [List.append_assoc, List.singleton_append]

lemma byDeadline_processTimers {now : TimePoint} (h : ByDeadline r.timers) (hroom : HasRoom now r) :
    ByDeadline (r.processTimers now).timers := by
  unfold processTimers
  rw [fireTimers_eq h hroom.1 hroom.2]
  exact byDeadline_foldl_pushTimer (h.filter _)

/-- After a pass the queue has the timers that were not due and those that are put back. -/
lemma perm_processTimers {now : TimePoint} (h : ByDeadline r.timers) (hroom : HasRoom now r) :
    (r.processTimers now).timers.Perm ((r.timers.filter fun t => decide (now < t.nextDeadline)) ++
      (r.timers.filter fun t => decide (t.nextDeadline ≤ now)).map (putBack now)) := by
  unfold processTimers
  rw [fireTimers_eq h hroom.1 hroom.2]
  exact perm_foldl_pushTimer _ _

lemma items_processTimers {now : TimePoint} (h : ByDeadline r.timers) (hroom : HasRoom now r) :
    (r.processTimers now).cpu.items = r.cpu.items ++
      (firing now r.timers).map (TimerEntry.task M) := by
  unfold processTimers
  rw [fireTimers_eq h hroom.1 hroom.2]

/-! ## The functions of the timers -/

/-- Every timer has the function it was registered with. -/
def Intact (r : Reactor F M) : Prop := ∀ t ∈ r.timers, t.fn = some t.registered

/-- A timer that fires comes back without its function. -/
lemma firesRegistered_iff {now : TimePoint} (h : ByDeadline r.timers) (hintact : Intact r)
    (hroom : HasRoom now r) :
    FiresRegistered now r (r.processTimers now) ↔ firing now r.timers = [] := by
  constructor
  · intro hfires
    by_contra hne
    obtain ⟨t, ht⟩ := List.exists_mem_of_ne_nil _ hne
    obtain ⟨hmem, hcond⟩ := List.mem_filter.mp ht
    obtain ⟨hdue, hskip⟩ := Bool.and_eq_true_iff.mp hcond
    have hskip : ¬ t.skipped now = true := by simpa using hskip
    have hback : putBack now t ∈ (r.processTimers now).timers :=
      (perm_processTimers h hroom).mem_iff.mpr (List.mem_append_right _
        (List.mem_map_of_mem (List.mem_filter.mpr ⟨hmem, hdue⟩)))
    obtain ⟨u, hu, heq⟩ := List.mem_map.mp (hfires.timers.mem_iff.mp hback)
    have hnone : (rescheduled now u).fn = none := by
      rw [heq, putBack, if_neg hskip]
    have hsome : (rescheduled now u).fn = some u.registered := by
      unfold rescheduled
      split
      · rfl
      · exact hintact u hu
    exact absurd (hnone.symm.trans hsome) (by simp)
  · intro hnone
    refine ⟨by rw [items_processTimers h hroom, hnone, List.map_nil, List.map_nil], ?_⟩
    refine (perm_processTimers h hroom).trans ?_
    -- all that are due are skipped, and keep their functions
    have hlate : (r.timers.filter fun t => decide (now < t.nextDeadline)) =
        (r.timers.filter fun t => decide (now < t.nextDeadline)).map (rescheduled now) := by
      refine (List.map_id _).symm.trans (List.map_congr_left fun t ht => ?_)
      have hlt := of_decide_eq_true (List.mem_filter.mp ht).2
      rw [rescheduled, if_neg (not_le.mpr hlt)]
      rfl
    have hdue : (r.timers.filter fun t => decide (t.nextDeadline ≤ now)).map (putBack now) =
        (r.timers.filter fun t => decide (t.nextDeadline ≤ now)).map (rescheduled now) := by
      refine List.map_congr_left fun t ht => ?_
      obtain ⟨hmem, hle⟩ := List.mem_filter.mp ht
      have hskip : t.skipped now = true := by
        by_contra hskip
        exact absurd (List.filter_eq_nil_iff.mp hnone t hmem)
          (by simp [hskip, of_decide_eq_true hle])
      rw [putBack, if_pos hskip, rescheduled, if_pos (of_decide_eq_true hle), ← hintact t hmem]
    rw [hlate, hdue, ← List.map_append]
    refine List.Perm.map _ (List.perm_append_comm.trans ?_)
    have hsplit : ∀ t : TimerEntry F, decide (now < t.nextDeadline) =
        !decide (t.nextDeadline ≤ now) := by
      intro t
      rw [← decide_not, decide_eq_decide, not_le]
    simp only [hsplit]
    exact List.filter_append_perm _ _

/-- A pass that fires no timer leaves all functions in place. -/
lemma intact_processTimers {now : TimePoint} (h : ByDeadline r.timers) (hintact : Intact r)
    (hroom : HasRoom now r) (hnone : firing now r.timers = []) : Intact (r.processTimers now) := by
  intro t ht
  have hfires := (firesRegistered_iff h hintact hroom).mpr hnone
  obtain ⟨u, hu, rfl⟩ := List.mem_map.mp (hfires.timers.mem_iff.mp ht)
  unfold rescheduled
  split
  · rfl
  · exact hintact u hu

lemma intact_scheduleTimer (hintact : Intact r) (name : Bytes) (fn : F) (interval : Int)
    (skippable : Bool) (now : TimePoint) :
    Intact (r.scheduleTimer name fn interval skippable now) := by
  intro t ht
  rcases List.mem_cons.mp ((perm_pushTimer _ r.timers).mem_iff.mp ht) with rfl | ht
  · rfl
  · exact hintact t ht

/-- From an empty timer queue, with room for all tasks: what was registered is called and kept at
every pass exactly if no pass has a timer to fire. -/
theorem timers_keep_functions_iff (r : Reactor F M) (events : List (TimerEvent F))
    (hstart : r.timers = [])
    (hroom : Machine.Along timerStep (fun r ev => ∀ now, ev = .process now →
      HasRoom now r) r events) :
    Machine.Along timerStep
        (fun r ev => ∀ now, ev = .process now →
          FiresRegistered now r (r.processTimers now)) r events ↔
      Machine.Along timerStep (fun r ev => ∀ now, ev = .process now → firing now r.timers = [])
        r events := by
  refine Machine.along_congr (I := fun r => ByDeadline r.timers ∧ Intact r) ?_ ?_
    ⟨by rw [hstart]; exact .nil, fun t ht => absurd (hstart ▸ ht) List.not_mem_nil⟩ hroom
  · rintro s ev ⟨hsorted, hintact⟩ hroom
    refine forall_congr' fun now => forall_congr' fun hev => ?_
    exact firesRegistered_iff hsorted hintact (hroom now hev)
  · rintro s ev s' o ⟨hsorted, hintact⟩ hroom hnone hstep
    cases ev with
    | schedule name fn interval skippable now =>
        cases hstep
        exact ⟨byDeadline_pushTimer hsorted,
          intact_scheduleTimer hintact name fn interval skippable now⟩
    | process now =>
        cases hstep
        have hroom := hroom now rfl
        exact ⟨byDeadline_processTimers hsorted hroom,
          intact_processTimers hsorted hintact hroom (hnone now rfl)⟩
    | take =>
        cases hstep
        exact ⟨hsorted, hintact⟩

/-- Two timers, of ten seconds and of a minute, that are looked at after two and after twelve
seconds; a worker asks for a task in between.  The first one is late then and is skipped. -/
def lateOnce : List (TimerEvent Unit) :=
  [.schedule (text "heartbeat") () 10000000000 true 0,
    .schedule (text "cleanup") () 60000000000 false 0, .process 2000000000, .take,
    .process 12000000000]

theorem timers_keep_functions_skipped :
    Machine.Along timerStep
      (fun r ev => ∀ now, ev = .process now → FiresRegistered now r (r.processTimers now))
      ({} : Reactor Unit Unit) lateOnce := by
  have hnone : Machine.Along timerStep
      (fun r ev => ∀ now, ev = .process now → HasRoom now r ∧ firing now r.timers = [])
      ({} : Reactor Unit Unit) lateOnce := by
    iterate 2
      refine ⟨nofun, fun s o h => ?_⟩
      cases h
    refine ⟨fun now h => ?_, fun s o h => ?_⟩
    · cases h
      exact ⟨⟨rfl, .inr (by decide)⟩, rfl⟩
    cases h
    refine ⟨nofun, fun s o h => ?_⟩
    cases h
    refine ⟨fun now h => ?_, fun s o h => trivial⟩
    cases h
    exact ⟨⟨rfl, .inr (by decide)⟩, rfl⟩
  exact (timers_keep_functions_iff {} lateOnce rfl
    (Machine.Along.mono hnone fun _ _ h now hev => (h now hev).1)).mpr
      (Machine.Along.mono hnone fun _ _ h now hev => (h now hev).2)

/-- Looked at after ten and after twenty seconds, the timer calls its function only the first
time. -/
theorem second_firing_calls_nothing :
    let r := (({} : Reactor Unit Unit).scheduleTimer (text "heartbeat") () 10000000000 true 0)
    let first := r.processTimers 10000000000
    let second := first.processTimers 20000000000
    first.timers.map TimerEntry.fn = [none] ∧
      second.cpu.items.map Task.fn = [some (.call ()), none] := by
  decide

end Gateway
end Damen
