import Damen.Model.Gateway.BoardLocks
import Damen.Properties.Gateway.DeviceEntries

/-!
# Deadlocks at the blackboard

`create_session` locks the board under the lock of an entry, and `device_snapshot` locks the entries
under the lock of the board.  A thread in the first and another in the second wait for each other
(`create_and_snapshot_deadlock`); without such a pair of threads there is no deadlock
(`board_deadlock_free_iff`).

On its own a thread gets through every function, and the board is then as the model of the function
has it (`alone_op`).
-/

namespace Damen
namespace Gateway

open Locking
open Function (update)

variable {ι : Type} [DecidableEq ι] {place : List Bytes → Bytes → List Bytes}

/-! ## One thread -/

/-- The order of the devices after `device`. -/
def orderAfter (place : List Bytes → Bytes → List Bytes) (s : SharedBoard) (deviceId : Bytes) :
    List Bytes :=
  (access place s (.device deviceId)).1.order

variable {owner : BoardLock → Option ι} {i : ι}

lemma alone_device (s : SharedBoard) (deviceId : Bytes) (hboard : owner .board = none) :
    Alone (access place) owner i s (deviceLocks deviceId)
      ⟨s.board.device deviceId, orderAfter place s deviceId⟩ :=
  .locked hboard (.call alone_nil)

lemma alone_markChanged (s : SharedBoard) (key : Bytes) (hboard : owner .board = none) :
    Alone (access place) owner i s (markChangedLocks key) ⟨s.board.markChanged key, s.order⟩ :=
  .locked hboard (.call alone_nil)

lemma alone_change (s : SharedBoard) (deviceId : Bytes)
    (f : BlackboardEntry DeviceState → BlackboardEntry DeviceState)
    (hfree : ∀ lock, owner lock = none) :
    Alone (access place) owner i s (changeLocks deviceId f)
      ⟨s.board.modify deviceId f, orderAfter place s deviceId⟩ := by
  rw [← modify_device]
  exact (alone_device s deviceId (hfree _)).append (.locked (hfree _) (.call alone_nil))

lemma alone_visitDevices (s : SharedBoard) {devices : List Bytes}
    (hfree : ∀ deviceId ∈ devices, owner (.entry deviceId) = none) :
    Alone (access place) owner i s (devices.flatMap fun deviceId =>
      locked (.entry deviceId) []) s :=
  alone_flatMap fun deviceId hmem => .locked (hfree deviceId hmem) alone_nil

/-- While no lock is taken, a function does to the board what its model says. -/
lemma alone_op (s : SharedBoard) (op : BoardOp) (hfree : ∀ lock, owner lock = none) :
    ∃ order, Alone (access place) owner i s op.locks ⟨op.apply s.board, order⟩ := by
  have hchange : ∀ deviceId f, Alone (access place) owner i s (changeLocks deviceId f)
      ⟨s.board.modify deviceId f, orderAfter place s deviceId⟩ :=
    fun deviceId f => alone_change s deviceId f hfree
  cases op with
  | createSession deviceId address idMs now =>
      -- the board is free under the lock of the entry
      have hboard : update owner (.entry deviceId) (some i) .board = none := by
        rw [Function.update_of_ne (by simp), hfree]
      refine ⟨orderAfter place s deviceId, ?_⟩
      rw [BoardOp.apply, SessionManager.createSession, ← modify_device]
      refine (alone_device s deviceId (hfree _)).append (.locked (hfree _) ?_)
      exact .append (.call alone_nil) (alone_markChanged _ _ hboard)
  | activateSession deviceId sessionId now => exact ⟨_, hchange deviceId _⟩
  | closeSession deviceId now =>
      exact ⟨_, (hchange deviceId _).append (alone_markChanged _ _ (hfree _))⟩
  | updateStatus deviceId status now => exact ⟨_, hchange deviceId _⟩
  | recordBytesIn deviceId bytes now => exact ⟨_, hchange deviceId _⟩
  | recordBytesOut deviceId bytes now => exact ⟨_, hchange deviceId _⟩
  | recordMessage deviceId => exact ⟨_, hchange deviceId _⟩
  | deviceSnapshot =>
      refine ⟨s.order, .locked (hfree _) (.call (alone_visitDevices s fun deviceId _ => ?_))⟩
      rw [Function.update_of_ne (by simp), hfree]
  | markChanged key => exact ⟨_, alone_markChanged s key (hfree _)⟩

lemma alone_ops (s : SharedBoard) (ops : List BoardOp) (hfree : ∀ lock, owner lock = none) :
    ∃ order, Alone (access place) owner i s (ops.flatMap BoardOp.locks)
      ⟨ops.foldl BoardOp.apply s.board, order⟩ := by
  induction ops generalizing s with
  | nil => exact ⟨s.order, alone_nil⟩
  | cons op ops ih =>
      obtain ⟨order, hop⟩ := @alone_op _ _ place owner i s op hfree
      obtain ⟨order', hops⟩ := ih ⟨op.apply s.board, order⟩
      exact ⟨order', hop.append hops⟩

/-! ## The order of the locks -/

def BoardOp.creates : BoardOp → Bool
  | createSession .. => true
  | _ => false

/-- A thread that calls `create_session` may take the board under an entry, and one that calls
`device_snapshot` the entries under the board. -/
def Nests (ops : List BoardOp) (held : List BoardLock) (lock : BoardLock) : Prop :=
  held = [] ∨
    ((∃ op ∈ ops, op.creates = true) ∧ (∃ deviceId, held = [.entry deviceId]) ∧ lock = .board) ∨
    (.deviceSnapshot ∈ ops ∧ held = [.board] ∧ ∃ deviceId, lock = .entry deviceId)

/-- What a thread with these calls may do under some locks. -/
abbrev Sound (place : List Bytes → Bytes → List Bytes) (ops : List BoardOp) (held : List BoardLock)
    (t : BoardTrace) : Prop :=
  Whole (Nests ops) (Tame (access place) (Nests ops)) held t

section Sound

variable {ops : List BoardOp}

lemma sound_call {held : List BoardLock} {callee : BoardAccess} (h : callee ≠ .visitDevices) :
    Sound place ops held [.call callee] := by
  refine whole_call fun s => ?_
  cases callee with
  | visitDevices => exact absurd rfl h
  | _ => exact whole_nil

/-- Nothing forbids to take a lock first. -/
lemma sound_locked {lock : BoardLock} {t : BoardTrace} (h : Sound place ops [lock] t) :
    Sound place ops [] (locked lock t) :=
  .locked List.not_mem_nil (.inl rfl) h

lemma sound_device (deviceId : Bytes) : Sound place ops [] (deviceLocks deviceId) :=
  sound_locked (sound_call (by simp))

lemma sound_change (deviceId : Bytes)
    (f : BlackboardEntry DeviceState → BlackboardEntry DeviceState) :
    Sound place ops [] (changeLocks deviceId f) :=
  (sound_device deviceId).append (sound_locked (sound_call (by simp)))

lemma sound_createSession {deviceId : Bytes} {address idMs now : UInt64}
    (hmem : .createSession deviceId address idMs now ∈ ops) :
    Sound place ops [] (SessionManager.createSessionLocks deviceId address idMs now) := by
  refine (sound_device deviceId).append (sound_locked (.append (sound_call (by simp)) ?_))
  have hnests : Nests ops [.entry deviceId] .board :=
    .inr (.inl ⟨⟨_, hmem, rfl⟩, ⟨deviceId, rfl⟩, rfl⟩)
  exact .locked (by simp) hnests (sound_call (by simp))

lemma sound_deviceSnapshot (hmem : .deviceSnapshot ∈ ops) :
    Sound place ops [] deviceSnapshotLocks := by
  refine sound_locked (whole_call fun s => whole_flatMap fun deviceId _ => ?_)
  exact .locked (by simp) (.inr (.inr ⟨hmem, rfl, deviceId, rfl⟩)) whole_nil

lemma sound_op {op : BoardOp} (hmem : op ∈ ops) : Sound place ops [] op.locks := by
  cases op with
  | createSession deviceId address idMs now => exact sound_createSession hmem
  | activateSession deviceId sessionId now => exact sound_change deviceId _
  | closeSession deviceId now =>
      exact (sound_change deviceId _).append (sound_locked (sound_call (by simp)))
  | updateStatus deviceId status now => exact sound_change deviceId _
  | recordBytesIn deviceId bytes now => exact sound_change deviceId _
  | recordBytesOut deviceId bytes now => exact sound_change deviceId _
  | recordMessage deviceId => exact sound_change deviceId _
  | deviceSnapshot => exact sound_deviceSnapshot hmem
  | markChanged key => exact sound_locked (sound_call (by simp))

end Sound

omit [DecidableEq ι] in
lemma orderly_startThreads (start : SharedBoard) (ops : ι → List BoardOp) :
    Orderly (access place) (fun i => Nests (ops i)) (fun _ => []) (startThreads start ops) where
  owner_iff := fun _ _ => by simp [startThreads]
  nodup := fun _ => List.nodup_nil
  proper := fun i => (whole_flatMap fun _ hmem => sound_op hmem).proper

variable {ops : ι → List BoardOp} {c : Threads ι SharedBoard BoardLock BoardAccess}

/-- In a deadlock one thread is in `create_session` and another in `device_snapshot`. -/
lemma creates_and_snapshots {start : SharedBoard} {S : Set ι}
    (hreach : (startThreads start ops).Reaches (access place) c) (h : Deadlocked c S) :
    ∃ i j, i ≠ j ∧ (∃ op ∈ ops i, op.creates = true) ∧ .deviceSnapshot ∈ ops j := by
  obtain ⟨held, horderly⟩ := (orderly_startThreads start ops).run hreach
  obtain ⟨i, j, hne, mine, yours, other, rest, rest', hmine, hi, hyours, hj⟩ := h.exists_pair
  have hmine := (horderly.owner_iff mine i).mp hmine
  have hyours := (horderly.owner_iff yours j).mp hyours
  rcases horderly.waits hi with
    hnil | ⟨hcreates, ⟨deviceId, hheld⟩, rfl⟩ | ⟨hsnapshot, hheld, deviceId, rfl⟩
  · rw [hnil] at hmine
    exact absurd hmine List.not_mem_nil
  · rcases horderly.waits hj with hnil | ⟨-, ⟨deviceId', hheld'⟩, -⟩ | ⟨hsnapshot, -⟩
    · rw [hnil] at hyours
      exact absurd hyours List.not_mem_nil
    · rw [hheld'] at hyours
      exact absurd hyours (by simp)
    · exact ⟨i, j, hne.symm, hcreates, hsnapshot⟩
  · rcases horderly.waits hj with hnil | ⟨hcreates, -⟩ | ⟨-, hheld', -⟩
    · rw [hnil] at hyours
      exact absurd hyours List.not_mem_nil
    · exact ⟨j, i, hne, hcreates, hsnapshot⟩
    · rw [hheld'] at hyours
      exact absurd hyours (by simp)

lemma mem_orderAfter (hplace : ∀ order deviceId, (place order deviceId).Perm (deviceId :: order))
    (s : SharedBoard) (deviceId : Bytes) : deviceId ∈ orderAfter place s deviceId := by
  unfold orderAfter access
  dsimp only
  split
  · next hmem => exact hmem
  · exact (hplace _ _).mem_iff.mpr List.mem_cons_self

/-- The first thread takes the entry of its device, and the second comes to that entry with the lock
of the board. -/
lemma deadlock_of_create_snapshot {j : ι} {s : SharedBoard} {deviceId : Bytes}
    {address idMs now : UInt64} {rest rest' : BoardTrace}
    (hplace : ∀ order deviceId, (place order deviceId).Perm (deviceId :: order)) (hne : i ≠ j)
    (h : Gets (access place) c i j s (fun _ => none)
      (SessionManager.createSessionLocks deviceId address idMs now ++ rest)
      (deviceSnapshotLocks ++ rest')) :
    ∃ c', c.Reaches (access place) c' ∧ Deadlocked c' {i, j} := by
  rw [SessionManager.createSessionLocks, entryLocks, List.append_assoc] at h
  have hentry := (((h.alone hne (alone_device s deviceId rfl)).acquire hne rfl).call hne).swap
  have hboard := (hentry.acquire hne.symm (by simp)).call hne.symm
  obtain ⟨before, after, horder, hnot⟩ :=
    List.eq_append_cons_of_mem (mem_orderAfter hplace s deviceId)
  simp only [access] at hboard
  rw [horder, List.flatMap_append, List.flatMap_cons, List.append_assoc] at hboard
  have hvisit := hboard.alone hne.symm (alone_visitDevices _ fun other hother => by
    have hother : other ≠ deviceId := fun heq => hnot (heq ▸ hother)
    simp [hother])
  exact hvisit.swap.deadlock hne (by simp) (by simp)

/-- One thread that calls `create_session` and another that calls `device_snapshot` can get into a
deadlock. -/
lemma exists_deadlock (hplace : ∀ order deviceId, (place order deviceId).Perm (deviceId :: order))
    (start : SharedBoard) {j : ι} (hne : i ≠ j) {op : BoardOp} (hop : op ∈ ops i)
    (hcreates : op.creates = true) (hsnapshot : .deviceSnapshot ∈ ops j) :
    ∃ c, (startThreads start ops).Reaches (access place) c ∧ Deadlocked c {i, j} := by
  obtain ⟨before, after, hi⟩ := List.append_of_mem hop
  obtain ⟨before', after', hj⟩ := List.append_of_mem hsnapshot
  have hstart : Gets (access place) (startThreads start ops) i j start (fun _ => none)
      ((ops i).flatMap BoardOp.locks) ((ops j).flatMap BoardOp.locks) := gets_start
  rw [hi, hj] at hstart
  simp only [List.flatMap_append, List.flatMap_cons] at hstart
  -- both do what comes before
  obtain ⟨order', hbefore'⟩ := @alone_ops _ _ place (fun _ => none) j start before' fun _ => rfl
  obtain ⟨order, hbefore⟩ := @alone_ops _ _ place (fun _ => none) i
    ⟨before'.foldl BoardOp.apply start.board, order'⟩ before fun _ => rfl
  have hgets := (hstart.swap.alone hne.symm hbefore').swap.alone hne hbefore
  cases op with
  | createSession deviceId address idMs now => exact deadlock_of_create_snapshot hplace hne hgets
  | _ => cases hcreates

/-- However the threads take turns, they do not get into a deadlock. -/
def DeadlockFree (place : List Bytes → Bytes → List Bytes) (start : SharedBoard)
    (ops : ι → List BoardOp) : Prop :=
  ∀ turns c os,
    Machine.run (Threads.step (access place)) (startThreads start ops) turns = .ok (c, os) →
    ∀ S, ¬ Deadlocked c S

/-- Whatever the threads call, and on whatever devices: there is no deadlock exactly if no two
different threads call `create_session` and `device_snapshot`. -/
theorem board_deadlock_free_iff
    (hplace : ∀ order deviceId, (place order deviceId).Perm (deviceId :: order))
    (start : SharedBoard) (ops : ι → List BoardOp) :
    DeadlockFree place start ops ↔
      ∀ i j, i ≠ j → (∃ op ∈ ops i, op.creates = true) → .deviceSnapshot ∉ ops j := by
  constructor
  · rintro hfree i j hne ⟨op, hop, hcreates⟩ hsnapshot
    obtain ⟨c, ⟨turns, os, hrun⟩, hdead⟩ := exists_deadlock hplace start hne hop hcreates hsnapshot
    exact hfree turns c os hrun _ hdead
  · intro hcond turns c os hrun S hdead
    obtain ⟨i, j, hne, hcreates, hsnapshot⟩ := creates_and_snapshots ⟨turns, os, hrun⟩ hdead
    exact hcond i j hne hcreates hsnapshot

/-- New devices come first; one thread looks at the board while another closes a session. -/
theorem board_deadlock_free_close :
    DeadlockFree (fun order deviceId => deviceId :: order) {} fun i : Bool =>
      if i then [.closeSession [1] 0] else [.deviceSnapshot] := by
  refine (board_deadlock_free_iff (fun _ _ => List.Perm.refl _) {} _).mpr ?_
  rintro i j - ⟨op, hop, hcreates⟩ -
  cases i <;> simp at hop <;> subst hop <;> cases hcreates

/-- One thread is in `create_session` and has marked its device, but for the lock of the board; the
other is in `device_snapshot` and has come to the device. -/
theorem create_and_snapshot_deadlock :
    ∃ c os, Machine.run (Threads.step (access fun order deviceId => deviceId :: order))
        (startThreads {} fun i : Bool =>
          if i then [.createSession [1] 0 0 0] else [.deviceSnapshot])
        [true, true, true, true, true, false, false] = .ok (c, os) ∧
      Deadlocked c {true, false} := by
  refine ⟨_, _, rfl, ⟨true, .inl rfl⟩, ?_⟩
  rintro i (rfl | rfl)
  · exact ⟨.board, _, rfl, false, .inr rfl, by decide, rfl⟩
  · exact ⟨.entry [1], _, rfl, true, .inl rfl, by decide, rfl⟩

end Gateway
end Damen
