import Damen.Framework.Run
import Damen.Properties.CommandOrder

/-!
# The window of a command gap

A command that arrives behind a gap is held, and the gap is skipped once `m_cmd_gap_since` is three
round trips old.  There is one such time for all gaps.  It is set when the first command is held and
again when a gap has been skipped and others remain; it is not set again when the gap in front is
filled and a later one becomes the first.

`Watched` runs the channel and notes, for each missing sequence, when the first command behind it
was held, and whether the time of the channel is left from a gap that was filled (`carried`).
`full_window`: every sequence that is skipped has had its full window, in every run in which nothing
is skipped on a time left from another gap.

The cursor has 32 bits and may wrap: `Drained` says what is left of a loop that may run over the
last number.
-/

namespace Damen
namespace CommandChannel

open Std (ExtTreeMap)

/-! ## Draining past the last number -/

/-- What draining `held` from the cursor `next` leaves.  If something is left the cursor has not
wrapped. -/
structure Drained (held : ExtTreeMap UInt32 Bytes) (next : UInt32) (held' : ExtTreeMap UInt32 Bytes)
    (next' : UInt32) : Prop where
  kept : ∀ k ∈ held', k ∈ held ∧ next' < k
  taken : ∀ k ∈ held, k ∉ held' → ∀ j, next ≤ j → j ≤ k → j ∈ held
  rest : ∀ k ∈ held', next ≤ next' ∧ (∀ j, next ≤ j → j < next' → j ∈ held) ∧
    ∀ j ∈ held, j ∉ held' → j < next'

lemma drained_of_notMem {held : ExtTreeMap UInt32 Bytes} {next : UInt32} (h : ∀ k ∈ held, next ≤ k)
    (hnext : next ∉ held) : Drained held next held next where
  kept := fun k hk => ⟨hk, UInt32.lt_of_le_of_ne (h k hk) fun heq => hnext (heq ▸ hk)⟩
  taken := fun _ hk hnot => absurd hk hnot
  rest := fun _ _ => ⟨UInt32.le_refl _, fun _ hle hlt => absurd hlt (UInt32.not_lt.mpr hle),
    fun _ hj hnot => absurd hj hnot⟩

/-- The last number is the only one from itself on. -/
lemma drained_of_last {held : ExtTreeMap UInt32 Bytes} (h : ∀ k ∈ held, (0xFFFFFFFF : UInt32) ≤ k)
    (next' : UInt32) : Drained held 0xFFFFFFFF ∅ next' where
  kept := fun k hk => absurd hk ExtTreeMap.not_mem_empty
  taken := fun k hk _ j hj _ => by
    have hlast : ∀ x : UInt32, 0xFFFFFFFF ≤ x → x = 0xFFFFFFFF := fun x hx =>
      UInt32.le_antisymm (UInt32.le_iff_toNat_le.mpr (Nat.le_of_lt_succ x.toNat_lt)) hx
    rw [hlast j hj, ← hlast k (h k hk)]
    exact hk
  rest := fun k hk => absurd hk ExtTreeMap.not_mem_empty

lemma Drained.cons {held held' : ExtTreeMap UInt32 Bytes} {next next' : UInt32} (hmem : next ∈ held)
    (hlast : next.toNat < 2 ^ 32 - 1) (h : Drained (held.erase next) (next + 1) held' next') :
    Drained held next held' next' := by
  have herase : ∀ k, k ∈ held.erase next ↔ next ≠ k ∧ k ∈ held := fun k => by
    rw [ExtTreeMap.mem_erase, ne_eq, Std.LawfulEqCmp.compare_eq_iff_eq]
  have hstep : ∀ j, next ≤ j → next ≠ j → next + 1 ≤ j := fun j hle hne =>
    (Drain.succ_le_iff hlast).mpr (UInt32.lt_of_le_of_ne hle hne)
  refine ⟨fun k hk => ?_, fun k hk hnot j hj hjk => ?_, fun k hk => ?_⟩
  · obtain ⟨hk, hlt⟩ := h.kept k hk
    exact ⟨((herase k).mp hk).2, hlt⟩
  · by_cases hne : next = j
    · exact hne ▸ hmem
    · have hnextk : next ≠ k := fun heq =>
        hne (UInt32.le_antisymm hj (heq ▸ hjk))
      exact ((herase j).mp (h.taken k ((herase k).mpr ⟨hnextk, hk⟩) hnot j (hstep j hj hne) hjk)).2
  · obtain ⟨hle, hbetween, hbelow⟩ := h.rest k hk
    have hlt : next < next' := (Drain.succ_le_iff hlast).mp hle
    refine ⟨UInt32.le_of_lt hlt, fun j hj hjn => ?_, fun j hj hnot => ?_⟩
    · by_cases hne : next = j
      · exact hne ▸ hmem
      · exact ((herase j).mp (hbetween j (hstep j hj hne) hjn)).2
    · by_cases hne : next = j
      · exact hne ▸ hlt
      · exact hbelow j ((herase j).mpr ⟨hne, hj⟩) hnot

lemma drainHeld_empty (fuel : ℕ) (next : UInt32) : drainHeld fuel ∅ next = (∅, next, []) := by
  cases fuel with
  | zero => rfl
  | succ fuel => simp [drainHeld]

lemma drainHeld_drained (fuel : ℕ) (held : ExtTreeMap UInt32 Bytes) (next : UInt32)
    (hfuel : held.size ≤ fuel) (h : ∀ k ∈ held, next ≤ k) :
    Drained held next (drainHeld fuel held next).1 (drainHeld fuel held next).2.1 := by
  induction fuel generalizing held next with
  | zero =>
      refine drained_of_notMem h ?_
      rw [ExtTreeMap.eq_empty_iff_size_eq_zero.mpr (Nat.le_zero.mp hfuel)]
      exact ExtTreeMap.not_mem_empty
  | succ fuel ih =>
      cases hnext : held[next]? with
      | none =>
          simp only [drainHeld, hnext]
          refine drained_of_notMem h fun hmem => ?_
          rw [ExtTreeMap.mem_iff_isSome_getElem?, hnext] at hmem
          exact Bool.false_ne_true hmem
      | some payload =>
          have hmem : next ∈ held := of_getElem?_eq_some hnext
          simp only [drainHeld, hnext]
          by_cases hlast : next.toNat < 2 ^ 32 - 1
          · refine Drained.cons hmem hlast (ih _ _ ?_ fun k hk => ?_)
            · rw [ExtTreeMap.size_erase, if_pos (ExtTreeMap.mem_iff_contains.mp hmem)]
              omega
            · obtain ⟨hne, hk⟩ := ExtTreeMap.mem_erase.mp hk
              exact (Drain.succ_le_iff hlast).mpr (UInt32.lt_of_le_of_ne (h k hk) fun heq =>
                hne (Std.LawfulEqCmp.compare_eq_iff_eq.mpr heq))
          · -- behind the last number nothing is left
            obtain rfl : next = 0xFFFFFFFF := UInt32.toNat_inj.mp (by
              have := next.toNat_lt
              have hmax : (0xFFFFFFFF : UInt32).toNat = 2 ^ 32 - 1 := rfl
              omega)
            have hempty : held.erase 0xFFFFFFFF = ∅ := by
              refine ExtTreeMap.eq_empty_iff_forall_not_mem.mpr fun k hk => ?_
              obtain ⟨hne, hk⟩ := ExtTreeMap.mem_erase.mp hk
              exact hne (Std.LawfulEqCmp.compare_eq_iff_eq.mpr (UInt32.le_antisymm (h k hk)
                (UInt32.le_iff_toNat_le.mpr (Nat.le_of_lt_succ k.toNat_lt))))
            rw [hempty, drainHeld_empty]
            exact drained_of_last h _

/-! ## The channel with the times of its gaps -/

/-- The time a call is made at. -/
def Event.now : Event → TimePoint
  | .arrive _ _ _ now => now
  | .flush _ now => now

def Event.rttUs : Event → UInt32
  | .arrive _ _ rttUs _ => rttUs
  | .flush rttUs _ => rttUs

/-- Where `expire_locked` moves the cursor, if the window is over. -/
def skipsTo (peer : Peer) (rttUs : UInt32) (now : TimePoint) : Option UInt32 :=
  if now - peer.cmdGapSince < maxWait rttUs then none else peer.cmdHeld.minKey?

/-- The channel, and what is noted about its gaps. -/
structure Watched where
  peer : Peer
  /-- When the first command with a greater sequence was put into `m_cmd_held` while the sequence
  was missing. -/
  behind : UInt32 → Option TimePoint := fun _ => none
  /-- The gap for which `m_cmd_gap_since` was set has been filled, and later ones have commands
  behind them. -/
  carried : Bool := false

namespace Watched

/-- The first command sets the cursor. -/
def start (w : Watched) (seq : UInt32) : Watched :=
  if w.peer.cmdInitialized then w
  else { w with peer := { w.peer with cmdNextExpected := seq, cmdInitialized := true } }

/-- The next command arrives. -/
def deliver (w : Watched) (payload : Bytes) : Watched × List Bytes :=
  let next := w.peer.cmdNextExpected
  let (peer, out) := drainLocked { w.peer with cmdNextExpected := next + 1 }
  ({ peer
     behind := fun g => if g = next then none else w.behind g
     carried := !peer.cmdHeld.isEmpty }, payload :: out)

/-- A command behind a gap is put into `m_cmd_held`. -/
def hold (w : Watched) (seq : UInt32) (payload : Bytes) (now : TimePoint) : Watched :=
  let peer := if w.peer.cmdHeld.isEmpty then { w.peer with cmdGapSince := now } else w.peer
  { peer := { peer with cmdHeld := peer.cmdHeld.insertIfNew seq payload }
    behind := fun g =>
      if g = seq then none
      else if w.peer.cmdNextExpected ≤ g ∧ g ∉ w.peer.cmdHeld ∧ g < seq then
        (w.behind g).or (some now)
      else w.behind g
    carried := w.carried && !w.peer.cmdHeld.isEmpty }

/-- What `expire_locked` does; a sequence that is skipped is not missing any more. -/
def expire (w : Watched) (rttUs : UInt32) (now : TimePoint) : Watched × List Bytes :=
  match skipsTo w.peer rttUs now with
  | none => (w, [])
  | some first =>
      let (peer, out) := expireLocked w.peer rttUs now
      ({ peer, behind := fun g => if g < first then none else w.behind g }, out)

/-- The channel as `expire_locked` finds it, in the calls that get there. -/
def atExpiry (w : Watched) : Event → Option Watched
  | .arrive header payload _ now =>
      let seq := header.sequence
      if seq ≠ 0 ∧ (w.start seq).peer.cmdNextExpected < seq then
        some ((w.start seq).hold seq payload now)
      else none
  | .flush _ _ => some w

def step (w : Watched) : Event → Except Empty (Watched × List Bytes)
  | .arrive header payload rttUs now =>
      let seq := header.sequence
      if seq = 0 then .ok (w, [])
      else if seq < (w.start seq).peer.cmdNextExpected then .ok (w.start seq, [])
      else if seq = (w.start seq).peer.cmdNextExpected then .ok ((w.start seq).deliver payload)
      else .ok (((w.start seq).hold seq payload now).expire rttUs now)
  | .flush rttUs now => .ok (w.expire rttUs now)

variable {peer : Peer} {w : Watched} {seq : UInt32}

lemma expireLocked_of_skipsTo_none {rttUs : UInt32} {now : TimePoint}
    (h : skipsTo peer rttUs now = none) : expireLocked peer rttUs now = (peer, []) := by
  unfold expireLocked
  split
  · rfl
  · next first hfirst =>
    by_cases hwait : now - peer.cmdGapSince < maxWait rttUs
    · rw [if_pos hwait]
    · rw [skipsTo, if_neg hwait, hfirst] at h
      exact absurd h (by simp)

lemma expire_peer (w : Watched) (rttUs : UInt32) (now : TimePoint) :
    ((w.expire rttUs now).1.peer, (w.expire rttUs now).2) = expireLocked w.peer rttUs now := by
  unfold expire
  split
  · next hskip => rw [expireLocked_of_skipsTo_none hskip]
  · rfl

/-- The calls of the run are those of the channel. -/
lemma step_peer (w : Watched) (event : Event) :
    ∃ w' out, w.step event = .ok (w', out) ∧ (w'.peer, out) = match event with
      | .arrive header payload rttUs now => handle w.peer header payload rttUs now
      | .flush rttUs now => flushExpired w.peer rttUs now := by
  cases event with
  | flush rttUs now => exact ⟨_, _, rfl, w.expire_peer rttUs now⟩
  | arrive header payload rttUs now =>
      have hstart : (w.start header.sequence).peer = if w.peer.cmdInitialized then w.peer
          else { w.peer with cmdNextExpected := header.sequence, cmdInitialized := true } := by
        unfold start
        split <;> rfl
      simp only [step, handle, ← hstart]
      by_cases hzero : header.sequence = 0
      · simp only [if_pos hzero]
        exact ⟨_, _, rfl, rfl⟩
      by_cases hlt : header.sequence < (w.start header.sequence).peer.cmdNextExpected
      · simp only [if_neg hzero, if_pos hlt]
        exact ⟨_, _, rfl, rfl⟩
      by_cases heq : header.sequence = (w.start header.sequence).peer.cmdNextExpected
      · simp only [if_neg hzero, if_neg hlt, if_pos heq]
        exact ⟨_, _, rfl, rfl⟩
      · simp only [if_neg hzero, if_neg hlt, if_neg heq]
        exact ⟨_, _, rfl,
          ((w.start header.sequence).hold header.sequence payload now).expire_peer rttUs now⟩

/-! ## What holds between two calls -/

/-- What is noted about the gaps goes with the cursor and the held commands, and unless it is left
from another gap, the time of the channel is not before the first command behind the gap in
front. -/
structure Sound (w : Watched) : Prop where
  fresh : w.peer.cmdInitialized = false → w.peer.cmdHeld = ∅
  ahead : ∀ k ∈ w.peer.cmdHeld, w.peer.cmdNextExpected < k
  missing : ∀ g since, w.behind g = some since →
    w.peer.cmdNextExpected ≤ g ∧ g ∉ w.peer.cmdHeld ∧ ∃ k ∈ w.peer.cmdHeld, g < k
  noted : ∀ g, w.peer.cmdNextExpected ≤ g → g ∉ w.peer.cmdHeld → ∀ k ∈ w.peer.cmdHeld, g < k →
    ∃ since, w.behind g = some since
  dated : w.carried = false → ∀ g since, (∀ k ∈ w.peer.cmdHeld, g < k) → w.behind g = some since →
    since ≤ w.peer.cmdGapSince

/-- No command was put behind a gap after `now`. -/
def Past (w : Watched) (now : TimePoint) : Prop := ∀ g since, w.behind g = some since → since ≤ now

lemma start_initialized (w : Watched) (seq : UInt32) :
    (w.start seq).peer.cmdInitialized = true := by
  unfold start
  split
  · assumption
  · rfl

lemma Sound.start (h : w.Sound) (seq : UInt32) : (w.start seq).Sound := by
  unfold Watched.start
  split
  · exact h
  · next hinit =>
    have hheld := h.fresh (Bool.eq_false_of_not_eq_true hinit)
    have hnone : ∀ {k}, k ∉ w.peer.cmdHeld := fun {k} => by
      rw [hheld]
      exact ExtTreeMap.not_mem_empty
    have hbehind : ∀ g since, w.behind g ≠ some since := fun g since hg => by
      obtain ⟨-, -, k, hk, -⟩ := h.missing g since hg
      exact hnone hk
    exact {
      fresh := fun _ => hheld
      ahead := fun _ hk => absurd hk hnone
      missing := fun g since hg => absurd hg (hbehind g since)
      noted := fun _ _ _ _ hk => absurd hk hnone
      dated := fun _ g since _ hg => absurd hg (hbehind g since) }

/-- The gaps behind the drained commands are still there, with their times. -/
lemma Sound.drained (h : w.Sound) (peer : Peer) (next : UInt32) {behind carried}
    (hdrained : Drained w.peer.cmdHeld next peer.cmdHeld peer.cmdNextExpected)
    (hinit : peer.cmdInitialized = w.peer.cmdInitialized)
    (hnext : ∀ k ∈ w.peer.cmdHeld, w.peer.cmdNextExpected ≤ next)
    (hbehind : ∀ g, behind g = if g < next then none else w.behind g)
    (hdated : carried = false → peer.cmdHeld ≠ ∅ → w.Past peer.cmdGapSince) :
    Sound { peer, behind, carried } := by
  have hmissing : ∀ g since, behind g = some since →
      peer.cmdNextExpected ≤ g ∧ g ∉ peer.cmdHeld ∧ ∃ k ∈ peer.cmdHeld, g < k := by
    intro g since hg
    rw [hbehind] at hg
    split at hg
    · exact absurd hg (by simp)
    · next hge =>
      obtain ⟨-, hnot, k, hk, hlt⟩ := h.missing g since hg
      have hge := UInt32.not_lt.mp hge
      have hk' : k ∈ peer.cmdHeld := by
        by_contra hk'
        exact hnot (hdrained.taken k hk hk' g hge (UInt32.le_of_lt hlt))
      refine ⟨UInt32.not_lt.mp fun hgn => ?_,
        fun hmem => hnot (hdrained.kept g hmem).1, k, hk', hlt⟩
      exact hnot ((hdrained.rest k hk').2.1 g hge hgn)
  refine ⟨fun hfalse => ?_, fun k hk => (hdrained.kept k hk).2, hmissing, ?_, ?_⟩
  · have hheld := h.fresh (hinit ▸ hfalse)
    refine ExtTreeMap.eq_empty_iff_forall_not_mem.mpr fun k hk => ?_
    exact ExtTreeMap.not_mem_empty (hheld ▸ (hdrained.kept k hk).1)
  · intro g hg hnot k hk hlt
    obtain ⟨hle, -, hbelow⟩ := hdrained.rest k hk
    have hge : next ≤ g := UInt32.le_trans hle hg
    have hheld : g ∉ w.peer.cmdHeld := fun hmem =>
      UInt32.lt_irrefl _ (UInt32.lt_of_lt_of_le (hbelow g hmem hnot) hg)
    have hk := (hdrained.kept k hk).1
    simp only [hbehind, if_neg (UInt32.not_lt.mpr hge)]
    exact h.noted g (UInt32.le_trans (hnext k hk) hge) hheld k hk hlt
  · intro hcarried g since hbelow hg
    obtain ⟨-, -, k, hk, -⟩ := hmissing g since hg
    have hne : peer.cmdHeld ≠ ∅ := fun hempty => ExtTreeMap.not_mem_empty (hempty ▸ hk)
    simp only [hbehind] at hg
    split at hg
    · exact absurd hg (by simp)
    · exact hdated hcarried hne g since hg

/-- `drain_locked`, from a cursor that is not past a held command. -/
lemma drainLocked_drained (peer : Peer) (h : ∀ k ∈ peer.cmdHeld, peer.cmdNextExpected ≤ k) :
    Drained peer.cmdHeld peer.cmdNextExpected (drainLocked peer).1.cmdHeld
      (drainLocked peer).1.cmdNextExpected :=
  drainHeld_drained peer.cmdHeld.size peer.cmdHeld peer.cmdNextExpected le_rfl h

lemma Sound.deliver (h : w.Sound) (payload : Bytes) : (w.deliver payload).1.Sound := by
  set next := w.peer.cmdNextExpected with hnext
  -- beyond the last number nothing is held and nothing is noted
  have hlast : ∀ k, next < k → next.toNat < 2 ^ 32 - 1 := fun k hk => by
    have := k.toNat_lt
    have := UInt32.lt_iff_toNat_lt.mp hk
    omega
  have hle : ∀ k ∈ w.peer.cmdHeld, next + 1 ≤ k := fun k hk =>
    (Drain.succ_le_iff (hlast k (h.ahead k hk))).mpr (h.ahead k hk)
  refine h.drained _ (next + 1)
    (drainLocked_drained { w.peer with cmdNextExpected := next + 1 } hle) rfl
    (fun k hk => ?_) (fun g => ?_) fun hcarried hne => ?_
  · have hlt := (Drain.lt_succ_iff (hlast k (h.ahead k hk))).mpr (UInt32.le_refl next)
    exact UInt32.le_of_lt hlt
  · change (if g = next then none else w.behind g) = if g < next + 1 then none else w.behind g
    cases hg : w.behind g with
    | none => rw [ite_self, ite_self]
    | some since =>
        obtain ⟨hge, -, k, hk, -⟩ := h.missing g since hg
        have hsame : g < next + 1 ↔ g = next := by
          rw [Drain.lt_succ_iff (hlast k (h.ahead k hk))]
          exact ⟨fun hle => UInt32.le_antisymm hle hge, fun heq => heq ▸ UInt32.le_refl _⟩
        simp only [hsame]
  · exact absurd (ExtTreeMap.isEmpty_iff.mp (by simpa using hcarried)) hne

lemma mem_hold {payload : Bytes} {now : TimePoint} {k : UInt32} :
    k ∈ (w.hold seq payload now).peer.cmdHeld ↔ k = seq ∨ k ∈ w.peer.cmdHeld := by
  have hheld : (w.hold seq payload now).peer.cmdHeld = w.peer.cmdHeld.insertIfNew seq payload := by
    unfold hold
    dsimp only
    split <;> rfl
  rw [hheld, ExtTreeMap.mem_insertIfNew, Std.LawfulEqCmp.compare_eq_iff_eq, eq_comm]

lemma hold_fields (w : Watched) (seq : UInt32) (payload : Bytes) (now : TimePoint) :
    (w.hold seq payload now).peer.cmdNextExpected = w.peer.cmdNextExpected ∧
      (w.hold seq payload now).peer.cmdInitialized = w.peer.cmdInitialized ∧
      (w.hold seq payload now).peer.cmdGapSince =
        if w.peer.cmdHeld.isEmpty then now else w.peer.cmdGapSince := by
  unfold hold
  dsimp only
  split <;> exact ⟨rfl, rfl, rfl⟩

/-- A time that is noted was noted before, or it is the present one and nothing behind the sequence
was held. -/
lemma Sound.behind_hold (h : w.Sound) {g : UInt32} {payload : Bytes} {now since : TimePoint}
    (hg : (w.hold seq payload now).behind g = some since) :
    g ≠ seq ∧ (w.behind g = some since ∨ since = now ∧ w.peer.cmdNextExpected ≤ g ∧
      g ∉ w.peer.cmdHeld ∧ g < seq ∧ ∀ k ∈ w.peer.cmdHeld, ¬ g < k) := by
  simp only [hold] at hg
  split at hg
  · exact absurd hg (by simp)
  · next hne =>
    refine ⟨hne, ?_⟩
    split at hg
    · next hmissing =>
      cases hold : w.behind g with
      | some since' => exact Or.inl (by simpa [hold] using hg)
      | none =>
          obtain ⟨hge, hnot, hlt⟩ := hmissing
          refine Or.inr ⟨by simpa [hold, eq_comm] using hg, hge, hnot, hlt, fun k hk hgk => ?_⟩
          obtain ⟨since', hsome⟩ := h.noted g hge hnot k hk hgk
          exact absurd (hold.symm.trans hsome) (by simp)
    · exact Or.inl hg

lemma Sound.hold (h : w.Sound) (hinit : w.peer.cmdInitialized = true)
    (hseq : w.peer.cmdNextExpected < seq) (payload : Bytes) (now : TimePoint) :
    (w.hold seq payload now).Sound := by
  obtain ⟨hnext, hinitialized, hsince⟩ := hold_fields w seq payload now
  refine ⟨fun hfalse => ?_, fun k hk => ?_, fun g since hg => ?_, fun g hge hnot k hk hlt => ?_,
    fun hcarried g since hbelow hg => ?_⟩
  · exact absurd (hinit.symm.trans (hinitialized.symm.trans hfalse)) (by simp)
  · rw [hnext]
    rcases mem_hold.mp hk with rfl | hk
    · exact hseq
    · exact h.ahead k hk
  · obtain ⟨hne, hg⟩ := h.behind_hold hg
    rw [hnext, mem_hold]
    rcases hg with hg | ⟨-, hge, hnot, hlt, -⟩
    · obtain ⟨hge, hnot, k, hk, hlt⟩ := h.missing g since hg
      exact ⟨hge, not_or.mpr ⟨hne, hnot⟩, k, mem_hold.mpr (Or.inr hk), hlt⟩
    · exact ⟨hge, not_or.mpr ⟨hne, hnot⟩, seq, mem_hold.mpr (Or.inl rfl), hlt⟩
  · rw [hnext] at hge
    obtain ⟨hne, hnot⟩ := not_or.mp (mt mem_hold.mpr hnot)
    simp only [Watched.hold, if_neg hne]
    by_cases hgs : g < seq
    · rw [if_pos ⟨hge, hnot, hgs⟩]
      cases w.behind g with
      | some since => exact ⟨since, rfl⟩
      | none => exact ⟨now, rfl⟩
    · rw [if_neg fun hall => hgs hall.2.2]
      rcases mem_hold.mp hk with rfl | hk
      · exact absurd hlt hgs
      · exact h.noted g hge hnot k hk hlt
  · have hbelow : ∀ k ∈ w.peer.cmdHeld, g < k := fun k hk => hbelow k (mem_hold.mpr (Or.inr hk))
    obtain ⟨-, hg⟩ := h.behind_hold hg
    rw [hsince]
    split
    · next hempty =>
      rcases hg with hg | ⟨rfl, -⟩
      · obtain ⟨-, -, k, hk, -⟩ := h.missing g since hg
        exact absurd (ExtTreeMap.isEmpty_iff.mp hempty ▸ hk) ExtTreeMap.not_mem_empty
      · exact le_refl _
    · next hempty =>
      rcases hg with hg | ⟨-, -, -, -, hnone⟩
      · have hcarried : w.carried = false := by simpa [Watched.hold, hempty] using hcarried
        exact h.dated hcarried g since hbelow hg
      · refine absurd (ExtTreeMap.isEmpty_iff.mpr ?_) hempty
        exact ExtTreeMap.eq_empty_iff_forall_not_mem.mpr fun k hk => hnone k hk (hbelow k hk)

/-! ## Expiry -/

lemma skipsTo_eq_some_iff {rttUs first : UInt32} {now : TimePoint} :
    skipsTo peer rttUs now = some first ↔
      maxWait rttUs ≤ now - peer.cmdGapSince ∧ peer.cmdHeld.minKey? = some first := by
  unfold skipsTo
  split
  · next hwait => simp [not_le.mpr hwait]
  · next hwait => simp [not_lt.mp hwait]

lemma expireLocked_of_skipsTo_some {rttUs first : UInt32} {now : TimePoint}
    (h : skipsTo peer rttUs now = some first) :
    (expireLocked peer rttUs now).1 =
      let drained := (drainLocked { peer with cmdNextExpected := first }).1
      if drained.cmdHeld.isEmpty then drained else { drained with cmdGapSince := now } := by
  obtain ⟨hwait, hfirst⟩ := skipsTo_eq_some_iff.mp h
  simp only [expireLocked, hfirst, if_neg (not_lt.mpr hwait)]

lemma Sound.expire (h : w.Sound) {now : TimePoint} (hpast : w.Past now) (rttUs : UInt32) :
    (w.expire rttUs now).1.Sound := by
  cases hskip : skipsTo w.peer rttUs now with
  | none =>
      simp only [Watched.expire, hskip]
      exact h
  | some first =>
      obtain ⟨hmem, hmin⟩ :=
        ExtTreeMap.minKey?_eq_some_iff_mem_and_forall.mp (skipsTo_eq_some_iff.mp hskip).2
      have hdrained := drainLocked_drained { w.peer with cmdNextExpected := first }
        fun k hk => Std.isLE_compare.mp (hmin k hk)
      have hpeer := expireLocked_of_skipsTo_some hskip
      simp only [Watched.expire, hskip]
      refine h.drained (expireLocked w.peer rttUs now).1 first ?_ ?_ (fun k _ => ?_) (fun _ => rfl)
        fun _ hne => ?_
      · rw [hpeer]
        dsimp only
        split
        · exact hdrained
        · exact hdrained
      · rw [hpeer]
        dsimp only
        split <;> rfl
      · exact UInt32.le_of_lt (h.ahead first hmem)
      · have hnow : (expireLocked w.peer rttUs now).1.cmdGapSince = now := by
          rw [hpeer] at hne ⊢
          dsimp only at hne ⊢
          split
          · next hempty =>
            rw [if_pos hempty] at hne
            exact absurd (ExtTreeMap.isEmpty_iff.mp hempty) hne
          · rfl
        rw [hnow]
        exact hpast

/-! ## Runs -/

lemma Past.start {now : TimePoint} (h : w.Past now) (seq : UInt32) : (w.start seq).Past now := by
  unfold Watched.start
  split <;> exact h

lemma Past.hold {now : TimePoint} (h : w.Past now) (seq : UInt32) (payload : Bytes) :
    (w.hold seq payload now).Past now := by
  intro g since hg
  simp only [Watched.hold] at hg
  split_ifs at hg
  · cases hb : w.behind g with
    | none => exact le_of_eq (by simpa [hb, eq_comm] using hg)
    | some since' => exact h g since (by simpa [hb] using hg)
  · exact h g since hg

lemma Past.expire {now : TimePoint} (h : w.Past now) (rttUs : UInt32) :
    (w.expire rttUs now).1.Past now := by
  intro g since hg
  simp only [Watched.expire] at hg
  split at hg
  · exact h g since hg
  · simp only at hg
    split_ifs at hg
    exact h g since hg

lemma Past.deliver {now : TimePoint} (h : w.Past now) (payload : Bytes) :
    (w.deliver payload).1.Past now := by
  intro g since hg
  simp only [Watched.deliver] at hg
  split_ifs at hg
  exact h g since hg

/-- What a call leaves, from times that have passed. -/
lemma Sound.step {w' : Watched} {event : Event} {out : List Bytes} (h : w.Sound)
    (hpast : w.Past event.now) (hstep : w.step event = .ok (w', out)) :
    w'.Sound ∧ w'.Past event.now := by
  cases event with
  | flush rttUs now =>
      obtain rfl : (w.expire rttUs now).1 = w' := congrArg Prod.fst (Except.ok.inj hstep)
      exact ⟨h.expire hpast rttUs, hpast.expire rttUs⟩
  | arrive header payload rttUs now =>
      have hstart := h.start header.sequence
      have hpast' := Past.start hpast header.sequence
      simp only [Watched.step] at hstep
      split_ifs at hstep with hzero hlt heq
      · cases hstep
        exact ⟨h, hpast⟩
      · cases hstep
        exact ⟨hstart, hpast'⟩
      · cases hstep
        exact ⟨hstart.deliver payload, hpast'.deliver payload⟩
      · obtain rfl := congrArg Prod.fst (Except.ok.inj hstep)
        have hinit := w.start_initialized header.sequence
        have hseq := UInt32.lt_of_le_of_ne (UInt32.not_lt.mp hlt) (Ne.symm heq)
        have hpast' := hpast'.hold header.sequence payload
        exact ⟨(hstart.hold hinit hseq payload now).expire hpast' rttUs, hpast'.expire rttUs⟩

lemma Past.mono {now later : TimePoint} (h : w.Past now) (hle : now ≤ later) : w.Past later :=
  fun g since hg => le_trans (h g since hg) hle

/-- On a clock that does not go back, what is noted has passed at every call. -/
lemma along_past (h : w.Sound) {events : List Event} (hpast : ∀ event ∈ events, w.Past event.now)
    (hclock : events.Pairwise fun a b => a.now ≤ b.now) :
    Machine.Along Watched.step (fun w event => w.Past event.now) w events := by
  induction events generalizing w with
  | nil => trivial
  | cons event events ih =>
      obtain ⟨hlater, hclock⟩ := List.pairwise_cons.mp hclock
      have hnow := hpast event List.mem_cons_self
      refine ⟨hnow, fun w' out hstep => ?_⟩
      obtain ⟨hsound, hpast'⟩ := h.step hnow hstep
      exact ih hsound (fun later hmem => hpast'.mono (hlater later hmem)) hclock

/-- `expire_locked` moves the cursor past `g`, which is missing. -/
def Skips (w : Watched) (rttUs : UInt32) (now : TimePoint) (g : UInt32) : Prop :=
  w.peer.cmdNextExpected ≤ g ∧ ∃ first, skipsTo w.peer rttUs now = some first ∧ g < first

/-- The sequence has had a command behind it for a time. -/
def HadFor (w : Watched) (window : Int) (now : TimePoint) (g : UInt32) : Prop :=
  ∃ since, w.behind g = some since ∧ window ≤ now - since

/-- Unless the time of the channel is left from another gap, a sequence that is skipped has had its
window. -/
lemma Sound.hadFor (h : w.Sound) (hcarried : w.carried = false) {rttUs g : UInt32} {now : TimePoint}
    (hskip : w.Skips rttUs now g) : w.HadFor (maxWait rttUs) now g := by
  obtain ⟨hge, first, hfirst, hlt⟩ := hskip
  obtain ⟨hwait, hmin⟩ := skipsTo_eq_some_iff.mp hfirst
  obtain ⟨hmem, hmin⟩ := ExtTreeMap.minKey?_eq_some_iff_mem_and_forall.mp hmin
  have hbelow : ∀ k ∈ w.peer.cmdHeld, g < k := fun k hk =>
    UInt32.lt_of_lt_of_le hlt (Std.isLE_compare.mp (hmin k hk))
  have hnot : g ∉ w.peer.cmdHeld := fun hk => UInt32.lt_irrefl _ (hbelow g hk)
  obtain ⟨since, hsince⟩ := h.noted g hge hnot first hmem hlt
  have hle := h.dated hcarried g since hbelow hsince
  exact ⟨since, hsince, Int.le_trans hwait (Int.sub_le_sub_left hle now)⟩

lemma Sound.atExpiry {w' : Watched} {event : Event} (h : w.Sound)
    (hw' : w.atExpiry event = some w') : w'.Sound := by
  cases event with
  | flush rttUs now =>
      cases hw'
      exact h
  | arrive header payload rttUs now =>
      simp only [Watched.atExpiry] at hw'
      split_ifs at hw' with hlt
      cases hw'
      exact (h.start _).hold (w.start_initialized _) hlt.2 payload now

end Watched

/-- Three round trips, or 30 milliseconds if the round trip is not known; in nanoseconds. -/
def fullWindow (rttUs : UInt32) : Int := 3 * (if rttUs = 0 then 10000 else rttUs.toNat) * 1000

lemma maxWait_eq (rttUs : UInt32) : maxWait rttUs = fullWindow rttUs := by
  unfold maxWait fullWindow
  by_cases h : rttUs = 0
  · subst h
    rfl
  · have hpos : 0 < rttUs := UInt32.pos_iff_ne_zero.mpr h
    rw [if_pos hpos, if_neg h]
    rfl

/-- Each missing sequence that the call skips has had a command behind it for the full window. -/
def FullWindow (rttUs : UInt32) (w : Watched) (event : Event) : Prop :=
  ∀ w', w.atExpiry event = some w' → ∀ g, w'.Skips event.rttUs event.now g →
    w'.HadFor (fullWindow rttUs) event.now g

/-- Nothing is skipped on a time left from a gap that was filled. -/
def SkipsOnOwnTime (w : Watched) (event : Event) : Prop :=
  ∀ w', w.atExpiry event = some w' → w'.carried = true →
    skipsTo w'.peer event.rttUs event.now = none

/-- A channel that has just been reset. -/
def watch (start : Peer) : Watched := { peer := reset start }

lemma watch_sound (start : Peer) : (watch start).Sound where
  fresh := fun _ => rfl
  ahead := fun _ hk => absurd hk ExtTreeMap.not_mem_empty
  missing := fun _ _ hg => absurd hg (by simp [watch])
  noted := fun _ _ _ _ hk => absurd hk ExtTreeMap.not_mem_empty
  dated := fun _ _ _ _ hg => absurd hg (by simp [watch])

lemma minKey?_of_toList {held : ExtTreeMap UInt32 Bytes} {e : UInt32 × Bytes}
    (h : held.toList = [e]) : held.minKey? = some e.1 := by
  refine ExtTreeMap.minKey?_eq_some_iff_mem_and_forall.mpr
    ⟨OrderedMap.mem_of_mem_toList (h ▸ List.mem_singleton.mpr rfl), fun k hk => ?_⟩
  obtain ⟨p, hp⟩ := Option.isSome_iff_exists.mp (ExtTreeMap.mem_iff_isSome_getElem?.mp hk)
  have hmem := ExtTreeMap.mem_toList_iff_getElem?_eq_some.mpr hp
  rw [h, List.mem_singleton] at hmem
  rw [← hmem]
  exact Std.isLE_compare.mpr (UInt32.le_refl k)

/-- Along a run with one round-trip time and a clock that does not go back, every skipped sequence
has had its full window if nothing is skipped on a time left from a gap that was filled. -/
theorem full_window (start : Peer) (rttUs : UInt32) (events : List Event)
    (hrtt : ∀ event ∈ events, event.rttUs = rttUs)
    (hclock : events.Pairwise fun a b => a.now ≤ b.now)
    (hown : Machine.Along Watched.step SkipsOnOwnTime (watch start) events) :
    Machine.Along Watched.step (FullWindow rttUs) (watch start) events := by
  have hpast := Watched.along_past (watch_sound start)
    (fun event _ g since hg => absurd hg (by simp [watch])) hclock
  refine Machine.along_iff.mpr ?_
  rintro before event after rfl w outs hrun w' hw' g hskip
  have hsound : w.Sound := Machine.run_invariant (fun _ _ _ _ h hP hstep => (h.step hP hstep).1)
    (watch_sound start) hpast.left hrun
  cases hcarried : w'.carried with
  | true =>
      obtain ⟨-, first, hfirst, -⟩ := hskip
      have hnone := Machine.along_iff.mp hown before event after rfl w outs hrun w' hw' hcarried
      exact absurd (hfirst.symm.trans hnone) (by simp)
  | false =>
      rw [← hrtt event (List.mem_append_right _ List.mem_cons_self), ← maxWait_eq]
      exact (hsound.atExpiry hw').hadFor hcarried hskip

/-- The second command fills its gap while the fifth is held behind another one, which the fourth
then fills in time.  The sixth is missing for its whole window. -/
def refilled : List Event :=
  [.arrive { sequence := 1 } [1] 10000 0, .arrive { sequence := 3 } [3] 10000 0,
    .arrive { sequence := 5 } [5] 10000 5000000, .arrive { sequence := 2 } [2] 10000 10000000,
    .flush 10000 20000000, .arrive { sequence := 4 } [4] 10000 25000000,
    .arrive { sequence := 7 } [7] 10000 40000000, .flush 10000 70000000]

theorem full_window_refilled :
    Machine.Along Watched.step (FullWindow 10000) (watch {}) refilled ∧
      (∃ w outs, Machine.run Watched.step (watch {}) (refilled.take 4) = .ok (w, outs) ∧
        w.carried = true) ∧
      ∃ w outs, Machine.run Watched.step (watch {}) (refilled.take 7) = .ok (w, outs) ∧
        w.Skips 10000 70000000 6 := by
  refine ⟨full_window {} 10000 refilled (by decide) (by decide) ?_, ?_, ?_⟩
  · have hearly : Machine.Along Watched.step (fun w event => (w.atExpiry event).all (fun w' =>
        !w'.carried || decide (event.now - w'.peer.cmdGapSince < maxWait event.rttUs)) = true)
        (watch {}) refilled := by decide
    refine hearly.mono fun w event hwait w' hw' hcarried => ?_
    rw [hw', Option.all_some, hcarried, Bool.not_true, Bool.false_or, decide_eq_true_eq] at hwait
    rw [skipsTo, if_pos hwait]
  · obtain ⟨⟨w, outs⟩, hrun, hcarried⟩ := Machine.exists_ok_of_any
      (r := Machine.run Watched.step (watch {}) (refilled.take 4)) (p := fun r => r.1.carried)
      (by decide)
    exact ⟨w, outs, hrun, hcarried⟩
  · obtain ⟨⟨w, outs⟩, hrun, hcheck⟩ := Machine.exists_ok_of_any
      (r := Machine.run Watched.step (watch {}) (refilled.take 7))
      (p := fun r => decide (r.1.peer.cmdNextExpected ≤ 6 ∧ r.1.peer.cmdHeld.toList = [(7, [7])] ∧
        maxWait 10000 ≤ 70000000 - r.1.peer.cmdGapSince))
      (by decide)
    obtain ⟨hle, hheld, hwait⟩ := of_decide_eq_true hcheck
    exact ⟨w, outs, hrun, hle, 7, Watched.skipsTo_eq_some_iff.mpr ⟨hwait, minKey?_of_toList hheld⟩,
      by decide⟩

/-- With a window of 30 milliseconds, sequence 3 is held at time 0, sequence 5 after 29
milliseconds, and then sequence 2 arrives.  Sequence 4 is skipped one millisecond later. -/
theorem skipped_early :
    ∃ w outs, Machine.run Watched.step (watch {})
        [.arrive { sequence := 1 } [1] 10000 0, .arrive { sequence := 3 } [3] 10000 0,
          .arrive { sequence := 5 } [5] 10000 29000000,
          .arrive { sequence := 2 } [2] 10000 29000000] =
        .ok (w, outs) ∧
      w.Skips 10000 30000000 4 ∧ w.behind 4 = some 29000000 ∧
      ¬ FullWindow 10000 w (.flush 10000 30000000) := by
  obtain ⟨⟨w, outs⟩, hrun, hcheck⟩ := Machine.exists_ok_of_any
    (r := Machine.run Watched.step (watch {})
      [.arrive { sequence := 1 } [1] 10000 0, .arrive { sequence := 3 } [3] 10000 0,
        .arrive { sequence := 5 } [5] 10000 29000000, .arrive { sequence := 2 } [2] 10000 29000000])
    (p := fun r => decide (r.1.peer.cmdNextExpected ≤ 4 ∧ r.1.peer.cmdHeld.toList = [(5, [5])] ∧
      maxWait 10000 ≤ 30000000 - r.1.peer.cmdGapSince ∧ r.1.behind 4 = some 29000000))
    (by decide)
  obtain ⟨hle, hheld, hwait, hbehind⟩ := of_decide_eq_true hcheck
  have hskips : w.Skips 10000 30000000 4 :=
    ⟨hle, 5, Watched.skipsTo_eq_some_iff.mpr ⟨hwait, minKey?_of_toList hheld⟩, by decide⟩
  refine ⟨w, outs, hrun, hskips, hbehind, fun hfull => ?_⟩
  obtain ⟨since, hsince, hwindow⟩ := hfull w rfl 4 hskips
  obtain rfl := Option.some.inj (hbehind.symm.trans hsince)
  exact absurd hwindow (by decide)

end CommandChannel
end Damen
