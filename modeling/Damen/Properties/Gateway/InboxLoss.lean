import Damen.Framework.Run
import Damen.Model.Gateway.Reactor

/-!
# Messages between the inbox and the processor

`process_messages` empties the inbox first and offers the batch to the cpu queue afterwards, and
does not look at the answer.  A batch that the queue refuses is gone (`full_queue_drops_batch`); all
that is taken from the inbox reaches the queue exactly if the queue refuses no batch
(`inbox_handed_on_iff`).
-/

namespace Damen
namespace Gateway

open Reactor

variable {F M : Type}

/-- What happens at a reactor: a message comes in, the inbox is emptied, another task is submitted,
or the cpu thread takes one. -/
inductive InboxEvent (F M : Type)
  | receive (msg : M)
  | process
  | submit (task : Task F M)
  | take

/-- One event, with the messages that leave the inbox and the tasks of `process_messages` that the
cpu queue accepts. -/
def inboxStep (r : Reactor F M) :
    InboxEvent F M → Except Empty (Reactor F M × List M × List (Task F M))
  | .receive msg => .ok ({ r with inbox := (r.inbox.tryPush msg).1 }, [], [])
  | .process => .ok r.processMessages
  | .submit task => .ok ({ r with cpu := (r.cpu.tryPush task).1 }, [], [])
  | .take => .ok (r.takeTask, [], [])

/-- The messages a task holds. -/
def Task.messages (task : Task F M) : List M :=
  match task.fn with
  | some (.processMessages batch) => batch
  | _ => []

/-- The messages of some tasks. -/
def messagesOf (tasks : List (Task F M)) : List M := tasks.flatMap Task.messages

/-- The inbox is emptied only if it has no messages or the cpu queue has room. -/
def Admits (r : Reactor F M) : InboxEvent F M → Prop
  | .process => r.inbox.items = [] ∨ r.cpu.refuses = false
  | _ => True

@[simp] lemma messagesOf_append (tasks tasks' : List (Task F M)) :
    messagesOf (tasks ++ tasks') = messagesOf tasks ++ messagesOf tasks' :=
  List.flatMap_append

/-- The task for the evolver holds no messages. -/
@[simp] lemma messagesOf_offer_evolveTask (hasCallee : Bool) (cpu : BlockingQueue (Task F M)) :
    messagesOf (offerTask hasCallee evolveTask cpu).2 = [] := by
  unfold offerTask
  split
  · dsimp only
    split <;> rfl
  · rfl

lemma messagesOf_offer_batchTask (batch : List M) (cpu : BlockingQueue (Task F M)) :
    messagesOf (offerTask true (batchTask batch) cpu).2 = if cpu.refuses then [] else batch := by
  rw [offerTask, if_pos rfl, BlockingQueue.tryPush]
  split
  · rfl
  · exact List.append_nil _

variable {r : Reactor F M} {ev : InboxEvent F M} {o : List M × List (Task F M)}

lemma processMessages_spec (hproc : r.hasMessageProcessor = true) :
    r.processMessages.1.hasMessageProcessor = true ∧ r.processMessages.2.1 = r.inbox.items ∧
      messagesOf r.processMessages.2.2 = if r.cpu.refuses then [] else r.inbox.items := by
  unfold processMessages
  dsimp only [CopyChannel.swapOut]
  split
  · next hempty =>
    rw [List.isEmpty_iff.mp hempty, ite_self]
    exact ⟨hproc, rfl, rfl⟩
  · refine ⟨hproc, rfl, ?_⟩
    rw [messagesOf_append, messagesOf_offer_evolveTask, List.append_nil, hproc,
      messagesOf_offer_batchTask]

lemma inboxStep_spec {r' : Reactor F M} (hproc : r.hasMessageProcessor = true)
    (hstep : inboxStep r ev = .ok (r', o)) :
    messagesOf o.2 = o.1 ∧ Admits r ev ∨ (messagesOf o.2).length < o.1.length ∧ ¬ Admits r ev := by
  cases ev with
  | receive msg => cases hstep; exact .inl ⟨rfl, trivial⟩
  | submit task => cases hstep; exact .inl ⟨rfl, trivial⟩
  | take => cases hstep; exact .inl ⟨rfl, trivial⟩
  | process =>
      obtain rfl : r.processMessages.2 = o := congrArg Prod.snd (Except.ok.inj hstep)
      obtain ⟨-, hbatch, htasks⟩ := processMessages_spec hproc
      rw [hbatch, htasks, Admits]
      cases hrefuses : r.cpu.refuses with
      | false => exact .inl ⟨rfl, .inr rfl⟩
      | true =>
          rw [if_pos rfl]
          by_cases hempty : r.inbox.items = []
          · exact .inl ⟨hempty.symm, .inl hempty⟩
          · exact .inr ⟨List.length_pos_of_ne_nil hempty, by simp [hempty]⟩

lemma inboxStep_keeps_processor {r' : Reactor F M} (hproc : r.hasMessageProcessor = true)
    (hstep : inboxStep r ev = .ok (r', o)) : r'.hasMessageProcessor = true := by
  cases ev with
  | process =>
      obtain rfl : r.processMessages.1 = r' := congrArg Prod.fst (Except.ok.inj hstep)
      exact (processMessages_spec hproc).1
  | _ => cases hstep; exact hproc

/-- The messages taken from the inbox are, in order, those of the accepted tasks, exactly if the cpu
queue refuses no batch. -/
theorem inbox_handed_on_iff (r r' : Reactor F M) (hproc : r.hasMessageProcessor = true)
    (events : List (InboxEvent F M)) (os : List (List M × List (Task F M)))
    (hrun : Machine.run inboxStep r events = .ok (r', os)) :
    os.flatMap (fun o => messagesOf o.2) = os.flatMap Prod.fst ↔
      Machine.Along inboxStep Admits r events :=
  (Machine.passage_iff (I := fun r => r.hasMessageProcessor = true)
    (fun _ _ _ _ h hstep => inboxStep_keeps_processor h hstep)
    (fun _ _ _ _ h hstep => inboxStep_spec h hstep) hproc hrun).2

/-- Two messages that arrive one by one. -/
theorem inbox_handed_on_two :
    ∃ r' os, Machine.run inboxStep ({} : Reactor Unit ℕ) [.receive 1, .receive 2, .process] =
      .ok (r', os) ∧
      os.flatMap (fun o => messagesOf o.2) = os.flatMap Prod.fst := by
  refine ⟨_, _, rfl, (inbox_handed_on_iff {} _ rfl [.receive 1, .receive 2, .process] _ rfl).mpr ?_⟩
  refine ⟨trivial, fun r o h => ?_⟩
  cases h
  refine ⟨trivial, fun r o h => ?_⟩
  cases h
  exact ⟨.inr (by decide), fun _ _ _ => trivial⟩

/-- With 512 tasks in the cpu queue a message is taken from the inbox and no task has it. -/
theorem full_queue_drops_batch :
    let waiting : List (Task Unit ℕ) := List.replicate 512 evolveTask
    let r : Reactor Unit ℕ :=
      { cpu := { capacity := 512, items := waiting }, inbox := { items := [7] } }
    r.processMessages.2.1 = [7] ∧ messagesOf r.processMessages.2.2 = [] ∧
      r.processMessages.1.inbox.items = [] := by
  have hrefuses : ({ capacity := 512, items := List.replicate 512 evolveTask } :
      BlockingQueue (Task Unit ℕ)).refuses = true := by
    rw [BlockingQueue.refuses, List.length_replicate]
    rfl
  refine ⟨rfl, ?_, rfl⟩
  rw [(processMessages_spec rfl).2.2, if_pos hrefuses]

end Gateway
end Damen
