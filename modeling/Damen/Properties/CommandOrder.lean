import Damen.Model.Command
import Damen.Framework.OrderedMap

/-!
# The order of commands

`command.hpp` promises delivery in order, each command once.  A command leaves the channel on one of
three ways: it is the next one, it is held and drained behind the next one, or the gap in front of
it expires.  All three move the cursor `m_cmd_next_expected` past what they deliver and leave
nothing held at or below it; that is the invariant (`Ordered`) from which `commands_in_order`
follows.

The channel cannot tell a cursor that wrapped from one that did not, so the sequence numbers stay
below 2^32 - 1, the last one the cursor can pass.
-/

namespace Damen
namespace CommandChannel

open Std (ExtTreeMap)

/-! ## Draining -/

/-- The result `r` of draining `held` from the cursor `next`: the commands of `log` are taken out in
order, and the cursor stops below all that are left. -/
structure Drains (held : ExtTreeMap UInt32 Bytes) (next : UInt32)
    (r : ExtTreeMap UInt32 Bytes × UInt32 × List Bytes) (log : List (UInt32 × Bytes)) : Prop where
  out : log.map Prod.snd = r.2.2
  sorted : (log.map Prod.fst).Pairwise (· < ·)
  taken : ∀ e ∈ log, held[e.1]? = some e.2 ∧ next ≤ e.1 ∧ e.1 < r.2.1
  cursor : next ≤ r.2.1
  left : ∀ k ∈ r.1, r.2.1 < k
  held : ∀ k, r.1[k]? = if k ∈ log.map Prod.fst then none else held[k]?

lemma drains_of_notMem {held : ExtTreeMap UInt32 Bytes} {next : UInt32}
    (hheld : ∀ k ∈ held, next ≤ k) (hnext : next ∉ held) : Drains held next (held, next, [])
    [] where
  out := rfl
  sorted := List.Pairwise.nil
  taken := fun e he => absurd he List.not_mem_nil
  cursor := UInt32.le_refl next
  left := fun k hk => UInt32.lt_of_le_of_ne (hheld k hk) fun (h : next = k) => hnext (h ▸ hk)
  held := fun k => by rw [List.map_nil, if_neg List.not_mem_nil]

/-- The command at the cursor is taken out, and the rest is drained from the next number. -/
lemma Drains.cons {held : ExtTreeMap UInt32 Bytes} {next : UInt32} {payload : Bytes}
    (hnext : held[next]? = some payload) (hlast : next < 0xFFFFFFFF)
    {r : ExtTreeMap UInt32 Bytes × UInt32 × List Bytes} {log : List (UInt32 × Bytes)}
    (h : Drains (held.erase next) (next + 1) r log) :
    Drains held next (r.1, r.2.1, payload :: r.2.2) ((next, payload) :: log) := by
  have hbelow : ∀ k, next + 1 ≤ k → next < k := fun k =>
    (Drain.succ_le_iff (UInt32.lt_iff_toNat_lt.mp hlast)).mp
  refine ⟨?_, ?_, ?_, UInt32.le_of_lt (hbelow _ h.cursor), h.left, ?_⟩
  · rw [List.map_cons, h.out]
  · rw [List.map_cons, List.pairwise_cons]
    refine ⟨fun k hk => ?_, h.sorted⟩
    obtain ⟨e, he, rfl⟩ := List.mem_map.mp hk
    exact hbelow _ (h.taken e he).2.1
  · intro e he
    rcases List.mem_cons.mp he with rfl | he
    · exact ⟨hnext, UInt32.le_refl _, hbelow _ h.cursor⟩
    · obtain ⟨hpayload, hfrom, hto⟩ := h.taken e he
      rw [OrderedMap.getElem?_erase,
        if_neg fun heq => UInt32.lt_irrefl _ (heq ▸ hbelow _ hfrom)] at hpayload
      exact ⟨hpayload, UInt32.le_of_lt (hbelow _ hfrom), hto⟩
  · intro k
    rw [h.held, OrderedMap.getElem?_erase, List.map_cons]
    by_cases hk : k = next
    · rw [if_pos hk, if_pos (List.mem_cons.mpr (Or.inl hk)), ite_self]
    · simp only [List.mem_cons, hk, false_or, if_false]

lemma drainHeld_spec (fuel : ℕ) (held : ExtTreeMap UInt32 Bytes) (next : UInt32)
    (hfuel : held.size ≤ fuel) (hheld : ∀ k ∈ held, next ≤ k ∧ k < 0xFFFFFFFF) :
    ∃ log, Drains held next (drainHeld fuel held next) log := by
  induction fuel generalizing held next with
  | zero =>
      have hempty : held = ∅ := ExtTreeMap.eq_empty_iff_size_eq_zero.mpr (Nat.le_zero.mp hfuel)
      refine ⟨[], drains_of_notMem (fun k hk => (hheld k hk).1) ?_⟩
      rw [hempty]
      exact ExtTreeMap.not_mem_empty
  | succ fuel ih =>
      cases hnext : held[next]? with
      | none =>
          simp only [drainHeld, hnext]
          refine ⟨[], drains_of_notMem (fun k hk => (hheld k hk).1) ?_⟩
          rw [ExtTreeMap.mem_iff_isSome_getElem?, hnext]
          exact Bool.false_ne_true
      | some payload =>
          have hmem : next ∈ held := of_getElem?_eq_some hnext
          have hlast := (hheld next hmem).2
          have hsize : (held.erase next).size ≤ fuel := by
            rw [ExtTreeMap.size_erase, if_pos (ExtTreeMap.mem_iff_contains.mp hmem)]
            omega
          have hrest : ∀ k ∈ held.erase next, next + 1 ≤ k ∧ k < 0xFFFFFFFF := by
            intro k hk
            obtain ⟨hne, hk⟩ := ExtTreeMap.mem_erase.mp hk
            obtain ⟨hle, hlt⟩ := hheld k hk
            refine ⟨(Drain.succ_le_iff (UInt32.lt_iff_toNat_lt.mp hlast)).mpr ?_, hlt⟩
            exact UInt32.lt_of_le_of_ne hle fun heq =>
              hne (Std.LawfulEqCmp.compare_eq_iff_eq.mpr heq)
          obtain ⟨log, hlog⟩ := ih (held.erase next) (next + 1) hsize hrest
          simp only [drainHeld, hnext]
          exact ⟨(next, payload) :: log, hlog.cons hnext hlast⟩

/-! ## Runs -/

/-- One call of the channel. -/
inductive Event
  | arrive (header : PacketHeader) (payload : Bytes) (rttUs : UInt32) (now : TimePoint)
  | flush (rttUs : UInt32) (now : TimePoint)

/-- The command is dropped: it has no number, or the cursor is past it. -/
def Dropped (peer : Peer) (header : PacketHeader) : Prop :=
  header.sequence = 0 ∨ peer.cmdInitialized = true ∧ header.sequence < peer.cmdNextExpected

instance (peer : Peer) (header : PacketHeader) : Decidable (Dropped peer header) :=
  inferInstanceAs (Decidable (_ ∨ _))

/-- A channel with its history. -/
structure Trace where
  peer : Peer
  /-- The arrivals that were not dropped, with their numbers. -/
  accepted : List (UInt32 × Bytes) := []
  /-- What the calls returned. -/
  returned : List Bytes := []

def Trace.step (t : Trace) : Event → Trace
  | .arrive header payload rttUs now =>
      let (peer, out) := handle t.peer header payload rttUs now
      { peer
        accepted := if Dropped t.peer header then t.accepted
          else t.accepted ++ [(header.sequence, payload)]
        returned := t.returned ++ out }
  | .flush rttUs now =>
      let (peer, out) := flushExpired t.peer rttUs now
      { t with peer, returned := t.returned ++ out }

/-- A run of calls on a channel that has just been reset. -/
def runFromReset (start : Peer) (events : List Event) : Trace :=
  events.foldl Trace.step { peer := reset start }

/-! ## The invariant -/

/-- The commands of `log` were returned, in order.  The cursor is past them and not past what is
held, and what was accepted is in one of the two places, with the payload that came first. -/
structure Reached (peer : Peer) (accepted : List (UInt32 × Bytes)) (returned : List Bytes)
    (log : List (UInt32 × Bytes)) : Prop where
  returned : log.map Prod.snd = returned
  sorted : (log.map Prod.fst).Pairwise (· < ·)
  first : ∀ e ∈ log, accepted.lookup e.1 = some e.2
  passed : ∀ e ∈ log, e.1 < peer.cmdNextExpected
  held : ∀ k ∈ peer.cmdHeld, peer.cmdNextExpected ≤ k ∧ k < 0xFFFFFFFF
  payload : ∀ k p, peer.cmdHeld[k]? = some p → accepted.lookup k = some p
  kept : ∀ e ∈ accepted, e.1 ∈ log.map Prod.fst ∨ e.1 ∈ peer.cmdHeld

/-- Between two calls the next command is not held. -/
structure Ordered (peer : Peer) (accepted : List (UInt32 × Bytes)) (returned : List Bytes)
    (log : List (UInt32 × Bytes)) : Prop extends Reached peer accepted returned log where
  next : peer.cmdNextExpected ∉ peer.cmdHeld

section

variable {peer : Peer} {accepted : List (UInt32 × Bytes)} {returned : List Bytes}
  {log : List (UInt32 × Bytes)}

lemma drainLocked_ordered (h : Reached peer accepted returned log) :
    ∃ log', Ordered (drainLocked peer).1 accepted (returned ++ (drainLocked peer).2) log' := by
  obtain ⟨new, hnew⟩ :=
    drainHeld_spec peer.cmdHeld.size peer.cmdHeld peer.cmdNextExpected le_rfl h.held
  unfold drainLocked
  generalize drainHeld peer.cmdHeld.size peer.cmdHeld peer.cmdNextExpected = r at hnew
  obtain ⟨held, next, out⟩ := r
  have hmem : ∀ k ∈ held, k ∈ peer.cmdHeld := by
    intro k hk
    rw [ExtTreeMap.mem_iff_isSome_getElem?, hnew.held] at hk
    split at hk
    · exact absurd hk (by simp)
    · exact ExtTreeMap.mem_iff_isSome_getElem?.mpr hk
  refine ⟨log ++ new, ⟨?_, ?_, ?_, ?_, ?_, ?_, ?_⟩, fun hk => UInt32.lt_irrefl _ (hnew.left _ hk)⟩
  · rw [List.map_append, h.returned, hnew.out]
  · rw [List.map_append, List.pairwise_append]
    refine ⟨h.sorted, hnew.sorted, fun a ha b hb => ?_⟩
    obtain ⟨e, he, rfl⟩ := List.mem_map.mp ha
    obtain ⟨e', he', rfl⟩ := List.mem_map.mp hb
    exact UInt32.lt_of_lt_of_le (h.passed e he) (hnew.taken e' he').2.1
  · intro e he
    rcases List.mem_append.mp he with he | he
    · exact h.first e he
    · exact h.payload e.1 e.2 (hnew.taken e he).1
  · intro e he
    rcases List.mem_append.mp he with he | he
    · exact UInt32.lt_of_lt_of_le (h.passed e he) hnew.cursor
    · exact (hnew.taken e he).2.2
  · intro k hk
    exact ⟨UInt32.le_of_lt (hnew.left k hk), (h.held k (hmem k hk)).2⟩
  · intro k p hk
    rw [hnew.held] at hk
    split at hk
    · exact absurd hk (by simp)
    · exact h.payload k p hk
  · intro e he
    rw [List.map_append, List.mem_append]
    rcases h.kept e he with hlog | hheld
    · exact Or.inl (Or.inl hlog)
    · by_cases htaken : e.1 ∈ new.map Prod.fst
      · exact Or.inl (Or.inr htaken)
      · right
        rw [ExtTreeMap.mem_iff_isSome_getElem?, hnew.held, if_neg htaken]
        exact ExtTreeMap.mem_iff_isSome_getElem?.mp hheld

/-- Only the cursor and the held commands matter. -/
lemma Ordered.of_eq {peer' : Peer} (h : Ordered peer accepted returned log)
    (hnext : peer'.cmdNextExpected = peer.cmdNextExpected) (hheld : peer'.cmdHeld = peer.cmdHeld) :
    Ordered peer' accepted returned log := by
  refine ⟨⟨h.returned, h.sorted, h.first, ?_, ?_, ?_, ?_⟩, ?_⟩
  · rw [hnext]
    exact h.passed
  · rw [hnext, hheld]
    exact h.held
  · rw [hheld]
    exact h.payload
  · rw [hheld]
    exact h.kept
  · rw [hnext, hheld]
    exact h.next

lemma expireLocked_ordered (h : Ordered peer accepted returned log) (rttUs : UInt32)
    (now : TimePoint) :
    ∃ log', Ordered (expireLocked peer rttUs now).1 accepted
      (returned ++ (expireLocked peer rttUs now).2) log' := by
  unfold expireLocked
  split
  · exact ⟨log, by rw [List.append_nil]; exact h⟩
  · next first hfirst =>
    split
    · exact ⟨log, by rw [List.append_nil]; exact h⟩
    · obtain ⟨hmem, hmin⟩ := ExtTreeMap.minKey?_eq_some_iff_mem_and_forall.mp hfirst
      have hskip : Reached { peer with cmdNextExpected := first } accepted returned log :=
        { h.toReached with
          passed := fun e he => UInt32.lt_of_lt_of_le (h.passed e he) (h.held first hmem).1
          held := fun k hk => ⟨Std.isLE_compare.mp (hmin k hk), (h.held k hk).2⟩ }
      obtain ⟨log', hlog'⟩ := drainLocked_ordered hskip
      refine ⟨log', ?_⟩
      simp only
      split
      · exact hlog'
      · exact hlog'.of_eq rfl rfl

/-- What has been accepted keeps its payload. -/
lemma lookup_concat {k : UInt32} {p : Bytes} (h : accepted.lookup k = some p) (e : UInt32 × Bytes) :
    (accepted ++ [e]).lookup k = some p := by
  rw [List.lookup_append, h]
  rfl

/-- A command at or above the cursor that is not held has not been accepted before. -/
lemma Ordered.lookup_new (h : Ordered peer accepted returned log) {seq : UInt32} (payload : Bytes)
    (hle : peer.cmdNextExpected ≤ seq) (hheld : seq ∉ peer.cmdHeld) :
    (accepted ++ [(seq, payload)]).lookup seq = some payload := by
  have hnone : accepted.lookup seq = none := by
    rw [List.lookup_eq_none_iff]
    intro e he
    rw [bne_iff_ne]
    rintro rfl
    rcases h.kept e he with hlog | hmem
    · obtain ⟨e', he', heq⟩ := List.mem_map.mp hlog
      exact UInt32.lt_irrefl _ (UInt32.lt_of_lt_of_le (heq ▸ h.passed e' he') hle)
    · exact hheld hmem
  rw [List.lookup_append, hnone]
  simp

/-- The next command is returned, and the cursor steps behind it. -/
lemma Ordered.deliver (h : Ordered peer accepted returned log) (payload : Bytes)
    (hseq : peer.cmdNextExpected < 0xFFFFFFFF) :
    Reached { peer with cmdNextExpected := peer.cmdNextExpected + 1 }
      (accepted ++ [(peer.cmdNextExpected, payload)]) (returned ++ [payload])
      (log ++ [(peer.cmdNextExpected, payload)]) := by
  have hlast : peer.cmdNextExpected.toNat < 2 ^ 32 - 1 := UInt32.lt_iff_toNat_lt.mp hseq
  refine ⟨?_, ?_, ?_, ?_, ?_, ?_, ?_⟩
  · rw [List.map_append, h.returned]
    rfl
  · rw [List.map_append, List.pairwise_append]
    refine ⟨h.sorted, List.pairwise_singleton _ _, fun a ha b hb => ?_⟩
    obtain ⟨e, he, rfl⟩ := List.mem_map.mp ha
    rw [List.mem_singleton.mp hb]
    exact h.passed e he
  · intro e he
    rcases List.mem_append.mp he with he | he
    · exact lookup_concat (h.first e he) _
    · rw [List.mem_singleton.mp he]
      exact h.lookup_new payload (UInt32.le_refl _) h.next
  · intro e he
    refine (Drain.lt_succ_iff hlast).mpr ?_
    rcases List.mem_append.mp he with he | he
    · exact UInt32.le_of_lt (h.passed e he)
    · rw [List.mem_singleton.mp he]
      exact UInt32.le_refl _
  · intro k hk
    obtain ⟨hle, hlt⟩ := h.held k hk
    refine ⟨(Drain.succ_le_iff hlast).mpr (UInt32.lt_of_le_of_ne hle fun heq => ?_), hlt⟩
    exact h.next (show peer.cmdNextExpected ∈ peer.cmdHeld from heq ▸ hk)
  · exact fun k p hk => lookup_concat (h.payload k p hk) _
  · intro e he
    rw [List.map_append, List.mem_append]
    rcases List.mem_append.mp he with he | he
    · exact (h.kept e he).imp_left Or.inl
    · rw [List.mem_singleton.mp he]
      exact Or.inl (Or.inr (List.mem_singleton.mpr rfl))

/-- A command behind a gap is held, unless one with its number is. -/
lemma Ordered.hold (h : Ordered peer accepted returned log) {seq : UInt32} (payload : Bytes)
    (hlt : peer.cmdNextExpected < seq) (hseq : seq < 0xFFFFFFFF) {peer' : Peer}
    (hnext : peer'.cmdNextExpected = peer.cmdNextExpected)
    (hheld : peer'.cmdHeld = peer.cmdHeld.insertIfNew seq payload) :
    Ordered peer' (accepted ++ [(seq, payload)]) returned log := by
  have hmem : ∀ k, k ∈ peer'.cmdHeld ↔ k = seq ∨ k ∈ peer.cmdHeld := by
    intro k
    rw [hheld, ExtTreeMap.mem_insertIfNew, Std.LawfulEqCmp.compare_eq_iff_eq, eq_comm]
  refine ⟨⟨h.returned, h.sorted, fun e he => lookup_concat (h.first e he) _, ?_, ?_, ?_, ?_⟩, ?_⟩
  · rw [hnext]
    exact h.passed
  · intro k hk
    rw [hnext]
    rcases (hmem k).mp hk with rfl | hk
    · exact ⟨UInt32.le_of_lt hlt, hseq⟩
    · exact h.held k hk
  · intro k p hk
    rw [hheld, ExtTreeMap.getElem?_insertIfNew] at hk
    split at hk
    · next hnew =>
      obtain ⟨heq, hnot⟩ := hnew
      obtain rfl := Std.LawfulEqCmp.compare_eq_iff_eq.mp heq
      obtain rfl := Option.some.inj hk
      exact h.lookup_new payload (UInt32.le_of_lt hlt) hnot
    · exact lookup_concat (h.payload k p hk) _
  · intro e he
    rw [hmem]
    rcases List.mem_append.mp he with he | he
    · exact (h.kept e he).imp_right Or.inr
    · rw [List.mem_singleton.mp he]
      exact Or.inr (Or.inl rfl)
  · rw [hnext, hmem]
    rintro (heq | hk)
    · exact UInt32.lt_irrefl _ (heq ▸ hlt)
    · exact h.next hk

end

/-! ## The invariant along a run -/

/-- The history is in order, and empty until the first command. -/
structure Trace.InOrder (t : Trace) : Prop where
  ordered : ∃ log, Ordered t.peer t.accepted t.returned log
  untouched : t.peer.cmdInitialized = false → t.accepted = [] ∧ t.peer.cmdHeld = ∅

variable {t : Trace} {header : PacketHeader}

/-- The channel of an arrival that is not dropped: its cursor is set. -/
lemma Trace.InOrder.initialized (h : t.InOrder) (haccept : ¬ Dropped t.peer header) {peer : Peer}
    (hpeer : peer = if t.peer.cmdInitialized then t.peer else { t.peer with
      cmdNextExpected := header.sequence, cmdInitialized := true }) :
    ∃ log, Ordered peer t.accepted t.returned log ∧ peer.cmdInitialized = true ∧
      peer.cmdNextExpected ≤ header.sequence := by
  obtain ⟨log, hlog⟩ := h.ordered
  subst hpeer
  by_cases hinit : t.peer.cmdInitialized = true
  · rw [if_pos hinit]
    refine ⟨log, hlog, hinit, UInt32.not_lt.mp fun hlt => haccept (Or.inr ⟨hinit, hlt⟩)⟩
  · obtain ⟨haccepted, hheld⟩ := h.untouched (Bool.eq_false_iff.mpr hinit)
    rw [if_neg hinit]
    have hnil : log = [] := by
      cases log with
      | nil => rfl
      | cons e log =>
          have hfirst := hlog.first e List.mem_cons_self
          rw [haccepted] at hfirst
          exact absurd hfirst (by simp)
    refine ⟨log, ⟨⟨hlog.returned, hlog.sorted, hlog.first, ?_, ?_, hlog.payload, hlog.kept⟩, ?_⟩,
      rfl, UInt32.le_refl _⟩
    · rw [hnil]
      exact fun e he => absurd he List.not_mem_nil
    · rw [hheld]
      exact fun k hk => absurd hk ExtTreeMap.not_mem_empty
    · rw [hheld]
      exact ExtTreeMap.not_mem_empty

lemma expireLocked_initialized (peer : Peer) (rttUs : UInt32) (now : TimePoint) :
    (expireLocked peer rttUs now).1.cmdInitialized = peer.cmdInitialized := by
  unfold expireLocked
  split
  · rfl
  · split
    · rfl
    · simp only
      split <;> rfl

lemma handle_dropped {peer : Peer} (h : Dropped peer header) (payload : Bytes) (rttUs : UInt32)
    (now : TimePoint) : handle peer header payload rttUs now = (peer, []) := by
  rcases h with hzero | ⟨hinit, hlt⟩
  · exact if_pos hzero
  · by_cases hzero : header.sequence = 0
    · exact if_pos hzero
    · simp only [handle, if_neg hzero, if_pos hinit, if_pos hlt]

/-- An arrival that is not dropped is returned or held. -/
lemma handle_inOrder (h : t.InOrder) (payload : Bytes) (rttUs : UInt32) (now : TimePoint)
    (hseq : header.sequence < 0xFFFFFFFF) (haccept : ¬ Dropped t.peer header) :
    (∃ log, Ordered (handle t.peer header payload rttUs now).1
      (t.accepted ++ [(header.sequence, payload)])
      (t.returned ++ (handle t.peer header payload rttUs now).2) log) ∧
    (handle t.peer header payload rttUs now).1.cmdInitialized = true := by
  have hzero : header.sequence ≠ 0 := fun hzero => haccept (Or.inl hzero)
  rw [handle, if_neg hzero]
  generalize hpeer : (if t.peer.cmdInitialized then t.peer
    else { t.peer with cmdNextExpected := header.sequence, cmdInitialized := true }) = peer
  obtain ⟨log, hlog, hinit, hle⟩ := h.initialized haccept hpeer.symm
  simp only [if_neg (UInt32.not_lt.mpr hle)]
  by_cases heq : header.sequence = peer.cmdNextExpected
  · rw [if_pos heq]
    obtain ⟨log', hlog'⟩ := drainLocked_ordered (hlog.deliver payload (heq ▸ hseq))
    rw [← heq, List.append_assoc] at hlog'
    rw [← heq]
    exact ⟨⟨log', hlog'⟩, hinit⟩
  · have hlt : peer.cmdNextExpected < header.sequence := UInt32.lt_of_le_of_ne hle (Ne.symm heq)
    rw [if_neg heq]
    constructor
    · refine expireLocked_ordered (hlog.hold payload hlt hseq ?_ ?_) rttUs now
      · split <;> rfl
      · split <;> rfl
    · rw [expireLocked_initialized]
      split
      · exact hinit
      · exact hinit

lemma Trace.InOrder.step (h : t.InOrder) (event : Event)
    (hseq : ∀ header payload rttUs now, event = .arrive header payload rttUs now →
      header.sequence < 0xFFFFFFFF) :
    (t.step event).InOrder := by
  cases event with
  | arrive header payload rttUs now =>
      by_cases hdrop : Dropped t.peer header
      · have hsame : t.step (.arrive header payload rttUs now) = t := by
          simp only [Trace.step, handle_dropped hdrop, if_pos hdrop, List.append_nil]
        rw [hsame]
        exact h
      · obtain ⟨hordered, hinit⟩ := handle_inOrder h payload rttUs now (hseq _ _ _ _ rfl) hdrop
        constructor
        · simp only [Trace.step, if_neg hdrop]
          exact hordered
        · intro huninit
          exact absurd (hinit.symm.trans huninit) (by simp)
  | flush rttUs now =>
      obtain ⟨log, hlog⟩ := h.ordered
      refine ⟨expireLocked_ordered hlog rttUs now, fun huninit => ?_⟩
      have hbefore : t.peer.cmdInitialized = false :=
        (expireLocked_initialized t.peer rttUs now).symm.trans huninit
      obtain ⟨haccepted, hheld⟩ := h.untouched hbefore
      refine ⟨haccepted, ?_⟩
      have hnone : t.peer.cmdHeld.minKey? = none := ExtTreeMap.minKey?_eq_none_iff.mpr hheld
      simp only [Trace.step, flushExpired, expireLocked, hnone]
      exact hheld

lemma reset_inOrder (start : Peer) : Trace.InOrder { peer := reset start } where
  ordered := ⟨[], {
    returned := rfl
    sorted := List.Pairwise.nil
    first := fun e he => absurd he List.not_mem_nil
    passed := fun e he => absurd he List.not_mem_nil
    held := fun k hk => absurd hk ExtTreeMap.not_mem_empty
    payload := fun k p hk => absurd hk (by simp [reset])
    kept := fun e he => absurd he List.not_mem_nil
    next := ExtTreeMap.not_mem_empty }⟩
  untouched := fun _ => ⟨rfl, rfl⟩

/-- The numbers that arrive are in range. -/
def InRange (events : List Event) : Prop :=
  ∀ header payload rttUs now, .arrive header payload rttUs now ∈ events →
    1 ≤ header.sequence ∧ header.sequence ≤ 0xFFFFFFFE

lemma run_inOrder (start : Peer) {events : List Event} (h : InRange events) :
    (runFromReset start events).InOrder := by
  induction events using List.reverseRecOn with
  | nil => exact reset_inOrder start
  | append_singleton events event ih =>
      rw [runFromReset, List.foldl_append]
      refine (ih fun header payload rttUs now hmem =>
        h header payload rttUs now (List.mem_append_left _ hmem)).step event ?_
      rintro header payload rttUs now rfl
      have hle :=
        (h header payload rttUs now (List.mem_append_right _ (List.mem_singleton.mpr rfl))).2
      rw [UInt32.le_iff_toNat_le] at hle
      rw [UInt32.lt_iff_toNat_lt]
      exact Nat.lt_succ_of_le hle

/-- Whatever arrives, the commands that the channel returns over a run have strictly increasing
numbers, each with the payload that was accepted first under its number, and what was accepted is
returned or held. -/
theorem commands_in_order (start : Peer) (events : List Event) (h : InRange events) :
    ∃ log : List (UInt32 × Bytes),
      log.map Prod.snd = (runFromReset start events).returned ∧
      (log.map Prod.fst).Pairwise (· < ·) ∧
      (∀ e ∈ log, (runFromReset start events).accepted.lookup e.1 = some e.2) ∧
      ∀ e ∈ (runFromReset start events).accepted,
        e.1 ∈ log.map Prod.fst ∨ e.1 ∈ (runFromReset start events).peer.cmdHeld := by
  obtain ⟨log, hlog⟩ := (run_inOrder start h).ordered
  exact ⟨log, hlog.returned, hlog.sorted, hlog.first, hlog.kept⟩

/-- Two commands, the second one repeated, and one that comes too late. -/
theorem commands_in_order_two :
    ∃ log : List (UInt32 × Bytes), log.map Prod.snd = [[7], [8]] ∧
      (log.map Prod.fst).Pairwise (· < ·) ∧
      ∀ e ∈ log, [((5 : UInt32), ([7] : Bytes)), (6, [8])].lookup e.1 = some e.2 := by
  have hrange : InRange [.arrive { sequence := 5 } [7] 1 0, .arrive { sequence := 6 } [8] 1 1,
      .arrive { sequence := 6 } [9] 1 2, .arrive { sequence := 4 } [6] 1 3] := by
    intro header payload rttUs now hmem
    simp only [List.mem_cons, Event.arrive.injEq, List.not_mem_nil, or_false] at hmem
    rcases hmem with ⟨rfl, -⟩ | ⟨rfl, -⟩ | ⟨rfl, -⟩ | ⟨rfl, -⟩ <;> decide
  obtain ⟨log, hreturned, hsorted, hfirst, -⟩ := commands_in_order {} _ hrange
  exact ⟨log, hreturned, hsorted, hfirst⟩

end CommandChannel
end Damen
