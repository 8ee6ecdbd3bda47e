import Damen.Model.Gateway.Server

/-!
# The reactor's timers and message batches

`process_timers` and `process_messages` of `gateway/gateway_reactor.hpp`, and the queue of the cpu
thread they feed.  Functions are of any type; an empty `std::function` is `none`, and so is one that
was moved from.  A queued task has a function, a batch of messages for the message processor, or a
call of the data evolver.

The timer queue is a list by deadline.  A timer that is put in comes behind those with the same
deadline; the heap of the source may order these in another way.
-/

namespace Damen
namespace Gateway

/-- What a task does. -/
inductive Work (F M : Type)
  | call (fn : F)
  | processMessages (batch : List M)
  | evolve
  deriving DecidableEq

structure Task (F M : Type) where
  name : Bytes
  fn : Option (Work F M)
  skippable : Bool
  deriving DecidableEq

/-- `TimerEntry`.  The function the timer was registered with is kept beside the one it has; nothing
reads it. -/
structure TimerEntry (F : Type) where
  name : Bytes
  fn : Option F
  /-- In nanoseconds, like all times. -/
  interval : Int
  skippable : Bool
  nextDeadline : TimePoint
  registered : F
  deriving DecidableEq

structure Reactor (F M : Type) where
  timers : List (TimerEntry F) := []
  cpu : BlockingQueue (Task F M) := { capacity := 512 }
  inbox : CopyChannel M := { capacity := 32768 }
  hasMessageProcessor : Bool := true
  hasDataEvolver : Bool := true

variable {F M : Type}

/-- `kSkipThreshold`: one second. -/
def kSkipThreshold : Int := 1000000000

/-! ## Timers -/

/-- The timer is late by more than the threshold and may be left out. -/
def TimerEntry.skipped (now : TimePoint) (timer : TimerEntry F) : Bool :=
  decide (kSkipThreshold < now - timer.nextDeadline) && timer.skippable

/-- The task of a timer that is due. -/
def TimerEntry.task (M : Type) (timer : TimerEntry F) : Task F M :=
  { name := timer.name, fn := timer.fn.map .call, skippable := timer.skippable }

namespace Reactor

/-- `m_timer_queue.push`. -/
def pushTimer (timer : TimerEntry F) : List (TimerEntry F) → List (TimerEntry F)
  | [] => [timer]
  | t :: timers =>
      if timer.nextDeadline < t.nextDeadline then timer :: t :: timers
      else t :: pushTimer timer timers

def scheduleTimer (r : Reactor F M) (name : Bytes) (fn : F) (interval : Int) (skippable : Bool)
    (now : TimePoint) : Reactor F M :=
  { r with
    timers := pushTimer
      { name, fn := some fn, interval, skippable, nextDeadline := now + interval, registered := fn }
      r.timers }

/-- The loop of `process_timers`: what is left in the queue, the cpu queue, and the timers to be put
back. -/
def fireTimers (now : TimePoint) :
    List (TimerEntry F) → BlockingQueue (Task F M) →
      List (TimerEntry F) × BlockingQueue (Task F M) × List (TimerEntry F)
  | [], cpu => ([], cpu, [])
  | top :: timers, cpu =>
      if now < top.nextDeadline then (top :: timers, cpu, [])
      else if top.skipped now then
        let (timers, cpu, reinsert) := fireTimers now timers cpu
        (timers, cpu, { top with nextDeadline := now + top.interval } :: reinsert)
      else
        let (timers, cpu, reinsert) := fireTimers now timers (cpu.tryPush (top.task M)).1
        -- the function was moved into the task
        (timers, cpu, { top with fn := none, nextDeadline := now + top.interval } :: reinsert)

def processTimers (r : Reactor F M) (now : TimePoint) : Reactor F M :=
  let (timers, cpu, reinsert) := fireTimers now r.timers r.cpu
  { r with timers := reinsert.foldl (fun timers timer => pushTimer timer timers) timers, cpu }

/-! ## Messages -/

/-- The task for a batch. -/
def batchTask (batch : List M) : Task F M :=
  { name := text "message_processor", fn := some (.processMessages batch), skippable := false }

def evolveTask : Task F M := { name := text "data_evolver", fn := some .evolve, skippable := true }

/-- A task goes to the cpu queue if there is something to call; the queue with the task, if
accepted. -/
def offerTask (hasCallee : Bool) (task : Task F M) (cpu : BlockingQueue (Task F M)) :
    BlockingQueue (Task F M) × List (Task F M) :=
  if hasCallee then ((cpu.tryPush task).1, if (cpu.tryPush task).2 then [task] else [])
  else (cpu, [])

/-- `process_messages`, with the batch that was taken out and the tasks that were accepted. -/
def processMessages (r : Reactor F M) : Reactor F M × List M × List (Task F M) :=
  let (inbox, batch) := r.inbox.swapOut
  if batch.isEmpty then ({ r with inbox }, [], [])
  else
    let (cpu, processing) := offerTask r.hasMessageProcessor (batchTask batch) r.cpu
    let (cpu, evolving) := offerTask r.hasDataEvolver evolveTask cpu
    ({ r with inbox, cpu }, batch, processing ++ evolving)

/-- The cpu thread takes a task, if there is one. -/
def takeTask (r : Reactor F M) : Reactor F M := { r with cpu := r.cpu.poll.1 }

end Reactor

end Gateway
end Damen
