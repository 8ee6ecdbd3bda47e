import Damen.Properties.Admission
import Damen.Properties.Reassembly

/-!
# The first message of a new session

A peer that comes back under the same address opens a new session with a handshake, and its message
ids start over at 1.  `handle_handshake` resets the command channel, but neither `m_incoming` nor
`m_completed`: what the old session left under the id of the new first message stays until
`check_offline` finds it older than the dead timeout.

`new_session_clean_iff` says that the first message of the new session is delivered, whatever it is
and in whatever order its fragments arrive, exactly if the old session left nothing under its id.
-/

namespace Damen
namespace Transport

open Std (ExtTreeMap)
open Reassembler

/-! ## The machine -/

/-- What touches the reassembly state of a peer. -/
inductive SessionEvent
  /-- A call of `handle_data`. -/
  | fragment (a : Arrival)
  /-- A pass of `check_offline`. -/
  | sweep (clock : Clock)

def SessionEvent.now : SessionEvent → TimePoint
  | .fragment a => a.clock.now
  | .sweep clock => clock.now

def sessionStep (me : Local) (peer : Peer) :
    SessionEvent → Except Damen.Fault (Peer × Option Bytes)
  | .fragment a => receive me.config.lateRttMultiplier (maxMessageBytes me.config) peer a
  | .sweep clock => .ok ((checkOffline me clock peer).1, none)

/-- All data fragments of the message arrive, in any order, repeated and mixed with its parity
fragments, and within the dead timeout.  Sweeps may come at any time. -/
structure Arrives (me : Local) (m : Message) (events : List SessionEvent) : Prop where
  carries : ∀ a, .fragment a ∈ events → m.Carries a
  all : ∀ i < m.dataCount, ∃ a, .fragment a ∈ events ∧ a.header.fragmentIndex.toNat = i
  clock : events.Pairwise fun e e' => e.now ≤ e'.now
  inTime : ∀ a a', .fragment a ∈ events → .fragment a' ∈ events →
    a'.clock.now - a.clock.now < millis me.config.deadTimeout

/-- The message with id 1 is delivered once and unchanged. -/
def StartsClean (me : Local) (peer : Peer) : Prop :=
  ∀ m : Message, m.id = 1 → m.payload.length ≤ maxMessageBytes me.config →
    ∀ events, Arrives me m events → ∃ peer' outs,
      Machine.run (sessionStep me) peer events = .ok (peer', outs) ∧
        outs.reduceOption = [m.payload]

/-- A handshake with the right token, and with another session id than the one on record. -/
def OpensSession (me : Local) (peer : Peer) (header : PacketHeader) (payload : Bytes) : Prop :=
  Accepts me header payload ∧ header.sessionId ≠ peer.peerSessionId

instance (me : Local) (peer : Peer) (header : PacketHeader) (payload : Bytes) :
    Decidable (OpensSession me peer header payload) := inferInstanceAs (Decidable (_ ∧ _))

/-- The slot in which the fragments of message `k` are collected, if there is one. -/
def inUse (peer : Peer) (k : UInt32) : Option IncomingMessage :=
  peer.incoming[k]?.filter fun slot => slot.messageId ≠ 0

/-- No message with id 1 is completed or being collected. -/
def NothingLeft (peer : Peer) : Prop :=
  peer.completed[(1 : UInt32)]? = none ∧ inUse peer 1 = none

/-! ## What the handshake leaves alone -/

/-- Slots and completed messages are the same. -/
structure SameSlots (peer peer' : Peer) : Prop where
  incoming : peer'.incoming = peer.incoming
  completed : peer'.completed = peer.completed

variable {peer : Peer} {m : Message} {S : Finset ℕ} {clock : Clock} {a : Arrival} {me : Local}
  {events : List SessionEvent}

lemma SameSlots.inUse_eq {peer' : Peer} (h : SameSlots peer peer') (k : UInt32) :
    inUse peer' k = inUse peer k := by
  rw [inUse, inUse, h.incoming]

lemma handleHandshake_sameSlots (cs : CryptoSuite) (me : Local) (bw : BandwidthEstimator)
    (clock : Clock) (peer : Peer) (header : PacketHeader) (payload : Bytes) :
    SameSlots peer (handleHandshake cs me bw clock peer header payload).1 := by
  rcases handleHandshake_frame cs me bw clock peer header payload with
    ⟨-, _, hframe⟩ | ⟨_, -, -, _, _, _, _, _, _, _, _, _, _, _, _, hframe⟩
  · rw [hframe]
    exact ⟨rfl, rfl⟩
  · rw [hframe]
    exact ⟨rfl, rfl⟩

lemma bookkeep_sameSlots (lateMultiplier : Float) (peer : Peer) (a : Arrival) :
    SameSlots peer (bookkeep lateMultiplier peer a) :=
  ⟨bookkeep_incoming lateMultiplier peer a, bookkeep_completed lateMultiplier peer a⟩

/-! ## Sweeps -/

lemma sweep_getElem? {α : Type} (since : α → TimePoint) (deadTimeout : Int) (now : TimePoint)
    (m : ExtTreeMap UInt32 α) (k : UInt32) :
    (sweep since deadTimeout now m)[k]? =
      m[k]?.filter fun v => ¬ millis deadTimeout ≤ now - since v :=
  OrderedMap.getElem?_eraseAll (fun e : UInt32 × α => millis deadTimeout ≤ now - since e.2) m k

lemma checkOffline_reassembly (me : Local) (clock : Clock) (peer : Peer) :
    (checkOffline me clock peer).1.incoming =
        sweep IncomingMessage.firstSeen me.config.deadTimeout clock.now peer.incoming ∧
      (checkOffline me clock peer).1.completed =
        sweep id me.config.deadTimeout clock.now peer.completed := by
  unfold checkOffline
  simp only
  split_ifs <;> exact ⟨rfl, rfl⟩

/-! ## One message -/

/-- The message was delivered, at `start` or later. -/
def Done (m : Message) (start : TimePoint) (peer : Peer) : Prop :=
  ∃ t, peer.completed[m.id]? = some t ∧ start ≤ t

/-- The fragments in `S` are there, the first of them since `start` or later, and a data fragment is
still missing. -/
structure Underway (m : Message) (start : TimePoint) (S : Finset ℕ) (peer : Peer) : Prop where
  notDone : peer.completed[m.id]? = none
  missing : ¬ ∀ i < m.dataCount, i ∈ S
  slot : (inUse peer m.id = none ∧ S = ∅) ∨
    ∃ slot, inUse peer m.id = some slot ∧ m.Holds S slot ∧ start ≤ slot.firstSeen

lemma slotFor_eq (peer : Peer) (header : PacketHeader) (now : TimePoint) :
    slotFor peer header now = (inUse peer header.messageId).getD (openSlot header now) := by
  unfold slotFor inUse
  rw [ExtTreeMap.getD_eq_getD_getElem?]
  cases peer.incoming[header.messageId]? with
  | none => rfl
  | some slot =>
      rw [Option.getD_some, Option.filter_some]
      by_cases hslot : slot.messageId = 0
      · simp [hslot]
      · simp [hslot]

/-- Before the first fragment. -/
lemma underway_start (hdone : peer.completed[m.id]? = none) (hslot : inUse peer m.id = none)
    (start : TimePoint) : Underway m start ∅ peer where
  notDone := hdone
  missing h := absurd (h 0 m.dataCount_spec.2.2) (Finset.notMem_empty 0)
  slot := Or.inl ⟨hslot, rfl⟩

/-- A sweep within the dead timeout leaves the fragments and the mark of the message alone. -/
lemma Underway.sweep {start : TimePoint} (h : Underway m start S peer) (me : Local)
    (htime : clock.now - start < millis me.config.deadTimeout) :
    Underway m start S (checkOffline me clock peer).1 := by
  obtain ⟨hincoming, hcompleted⟩ := checkOffline_reassembly me clock peer
  have huse : inUse (checkOffline me clock peer).1 m.id = (inUse peer m.id).filter fun slot =>
      ¬ millis me.config.deadTimeout ≤ clock.now - slot.firstSeen := by
    rw [inUse, inUse, hincoming, sweep_getElem?, Option.filter_filter, Option.filter_filter]
    simp only [Bool.and_comm]
  refine ⟨?_, h.missing, ?_⟩
  · rw [hcompleted, sweep_getElem?, h.notDone]
    rfl
  · rcases h.slot with ⟨hnone, hempty⟩ | ⟨slot, hsome, hholds, hseen⟩
    · exact Or.inl ⟨by rw [huse, hnone]; rfl, hempty⟩
    · refine Or.inr ⟨slot, ?_, hholds, hseen⟩
      rw [huse, hsome, Option.filter_some, if_pos]
      exact decide_eq_true (not_le.mpr (lt_of_le_of_lt (Int.sub_le_sub_left hseen _) htime))

lemma Done.sweep {start : TimePoint} (h : Done m start peer) (me : Local)
    (htime : clock.now - start < millis me.config.deadTimeout) :
    Done m start (checkOffline me clock peer).1 := by
  obtain ⟨t, hget, ht⟩ := h
  refine ⟨t, ?_, ht⟩
  rw [(checkOffline_reassembly me clock peer).2, sweep_getElem?, hget, Option.filter_some, if_pos]
  exact decide_eq_true (not_le.mpr (lt_of_le_of_lt (Int.sub_le_sub_left ht _) htime))

/-- The check that a fragment of the message passes unless the message is completed. -/
lemma admitted_iff {maxMessageBytes : ℕ} (ha : m.Carries a)
    (hmax : m.payload.length ≤ maxMessageBytes) :
    Admitted peer a.header maxMessageBytes ↔ peer.completed[m.id]? = none := by
  obtain ⟨i, hi, hid, hidx, hcnt, -⟩ := ha.exists_index
  have hmem : m.id ∉ peer.completed ↔ peer.completed[m.id]? = none := by
    rw [ExtTreeMap.mem_iff_isSome_getElem?, Option.not_isSome_iff_eq_none]
  rw [← hmem, ← hid]
  refine ⟨fun h => h.2.1, fun h => ⟨fun h0 => ?_, h, ?_, ?_⟩⟩
  · rw [h0] at hcnt
    exact absurd hcnt (show (0 : ℕ) ≠ m.total by omega)
  · exact UInt16.lt_iff_toNat_lt.mpr (by rw [hidx, hcnt]; exact hi)
  · rw [hcnt]
    exact m.total_le hmax

lemma receive_of_not_admitted {lateMultiplier : Float} {maxMessageBytes : ℕ}
    (h : ¬ Admitted (bookkeep lateMultiplier peer a) a.header maxMessageBytes) :
    receive lateMultiplier maxMessageBytes peer a = .ok (bookkeep lateMultiplier peer a, none) := by
  rw [receive_eq, collect, if_pos h]

/-- A fragment of a message that was delivered changes nothing. -/
lemma Done.fragment {start : TimePoint} (h : Done m start peer) (lateMultiplier : Float)
    {maxMessageBytes : ℕ} (hmax : m.payload.length ≤ maxMessageBytes) (ha : m.Carries a) :
    ∃ peer', receive lateMultiplier maxMessageBytes peer a = .ok (peer', none) ∧
      Done m start peer' := by
  obtain ⟨t, hget, ht⟩ := h
  refine ⟨_, receive_of_not_admitted ?_, t, ?_, ht⟩
  · rw [admitted_iff ha hmax, bookkeep_completed, hget]
    simp
  · rw [bookkeep_completed, hget]

lemma storeFragment_firstSeen (slot : IncomingMessage) (header : PacketHeader) (payload : Bytes) :
    (storeFragment slot header payload).firstSeen = slot.firstSeen := by
  unfold storeFragment
  simp only
  split <;> rfl

/-- A fragment of a message that is underway: the message stays underway, or is delivered. -/
lemma Underway.fragment {start : TimePoint} (h : Underway m start S peer) (lateMultiplier : Float)
    {maxMessageBytes : ℕ} (hmax : m.payload.length ≤ maxMessageBytes) (ha : m.Carries a)
    (hstart : start ≤ a.clock.now) :
    ∃ peer', (receive lateMultiplier maxMessageBytes peer a = .ok (peer', none) ∧
        Underway m start (insert a.header.fragmentIndex.toNat S) peer') ∨
      (receive lateMultiplier maxMessageBytes peer a = .ok (peer', some m.payload) ∧
        Done m start peer') := by
  obtain ⟨i, hi, hid, hidx, hcnt, hflags, hsize, hpayload⟩ := ha.exists_index
  rw [receive_eq, hidx]
  have hadm : Admitted (bookkeep lateMultiplier peer a) a.header maxMessageBytes :=
    (admitted_iff ha hmax).mpr (by rw [bookkeep_completed, h.notDone])
  have huse := (bookkeep_sameSlots lateMultiplier peer a).inUse_eq m.id
  have hdone : (bookkeep lateMultiplier peer a).completed[m.id]? = none := by
    rw [bookkeep_completed, h.notDone]
  generalize bookkeep lateMultiplier peer a = booked at hadm huse hdone
  have hslot : m.Holds S (slotFor booked a.header a.clock.now) ∧
      start ≤ (slotFor booked a.header a.clock.now).firstSeen := by
    rw [slotFor_eq, hid, huse]
    rcases h.slot with ⟨hnone, rfl⟩ | ⟨slot, hsome, hholds, hseen⟩
    · rw [hnone]
      exact ⟨Message.holds_openSlot _ hid hcnt hflags, hstart⟩
    · rw [hsome]
      exact ⟨hholds, hseen⟩
  obtain ⟨hheld, hseen⟩ := hslot
  have hmatch : ¬ ((slotFor booked a.header a.clock.now).totalCount ≠ a.header.fragmentCount ∨
      (slotFor booked a.header a.clock.now).fragments.length ≤ a.header.fragmentIndex.toNat) := by
    rw [hheld.length_fragments, hidx, not_or, not_not]
    exact ⟨UInt16.toNat_inj.mp (hheld.totalCount.trans hcnt.symm), not_le.mpr hi⟩
  unfold collect
  simp only [hadm, not_true, if_false, hmatch]
  generalize slotFor booked a.header a.clock.now = slot at hheld hseen
  have hstored := Message.holds_storeFragment hheld hi hidx hsize hpayload
  rw [← storeFragment_firstSeen slot a.header a.payload] at hseen
  generalize storeFragment slot a.header a.payload = slot' at hstored hseen
  rcases Message.tryAssemble_sound hstored hmax with hnone | hsome
  · rw [hnone]
    refine ⟨_, Or.inl ⟨rfl, hdone, fun hall => ?_, Or.inr ⟨slot', ?_, hstored, hseen⟩⟩⟩
    · rw [Message.tryAssemble_all hstored hmax hall] at hnone
      exact absurd hnone (by simp)
    · have hne : slot'.messageId ≠ 0 := hstored.messageId ▸ m.id_ne_zero
      rw [inUse, OrderedMap.getElem?_insert, if_pos hid.symm, Option.filter_some, if_pos]
      exact decide_eq_true hne
  · rw [hsome]
    refine ⟨_, Or.inr ⟨rfl, a.clock.now, ?_, hstart⟩⟩
    rw [OrderedMap.getElem?_insert, if_pos hid.symm]

/-! ## Runs -/

/-- A message that was delivered is not delivered again, as long as its fragments arrive in time. -/
lemma run_done (hmax : m.payload.length ≤ maxMessageBytes me.config) {start : TimePoint}
    (hcarries : ∀ a, .fragment a ∈ events → m.Carries a)
    (hclock : events.Pairwise fun e e' => e.now ≤ e'.now)
    (htime : ∀ a, .fragment a ∈ events → a.clock.now - start < millis me.config.deadTimeout)
    (hdone : ∀ a, .fragment a ∈ events → Done m start peer) :
    ∃ peer' outs, Machine.run (sessionStep me) peer events = .ok (peer', outs) ∧
      outs.reduceOption = [] := by
  induction events generalizing peer with
  | nil => exact ⟨peer, [], rfl, rfl⟩
  | cons e events ih =>
      obtain ⟨hle, hclock⟩ := List.pairwise_cons.mp hclock
      have hih : ∀ {peer : Peer}, (∀ a, .fragment a ∈ events → Done m start peer) →
          ∃ peer' outs, Machine.run (sessionStep me) peer events = .ok (peer', outs) ∧
            outs.reduceOption = [] :=
        ih (fun a h => hcarries a (List.mem_cons_of_mem _ h)) hclock
          (fun a h => htime a (List.mem_cons_of_mem _ h))
      cases e with
      | fragment a =>
          obtain ⟨peer₁, hstep, hdone₁⟩ := (hdone a List.mem_cons_self).fragment
            me.config.lateRttMultiplier hmax (hcarries a List.mem_cons_self)
          obtain ⟨peer', outs, hrun, hnone⟩ := hih fun _ _ => hdone₁
          exact ⟨peer', none :: outs, Machine.run_cons_ok.mpr ⟨peer₁, none, outs, hstep, hrun, rfl⟩,
            hnone⟩
      | sweep clock =>
          -- a sweep that comes too late is followed by no fragment
          have hswept : ∀ a, .fragment a ∈ events → Done m start (checkOffline me clock peer).1 :=
            fun a ha => (hdone a (List.mem_cons_of_mem _ ha)).sweep me
              (lt_of_le_of_lt (Int.sub_le_sub_right (hle _ ha) start)
                (htime a (List.mem_cons_of_mem _ ha)))
          obtain ⟨peer', outs, hrun, hnone⟩ := hih hswept
          exact ⟨peer', none :: outs, Machine.run_cons_ok.mpr ⟨_, none, outs, rfl, hrun, rfl⟩,
            hnone⟩

/-- Every data fragment is in `S` or arrives in the rest of the run. -/
def Covered (m : Message) (S : Finset ℕ) (events : List SessionEvent) : Prop :=
  ∀ i < m.dataCount, i ∈ S ∨ ∃ a, .fragment a ∈ events ∧ a.header.fragmentIndex.toNat = i

lemma Covered.fragment (h : Covered m S (.fragment a :: events)) :
    Covered m (insert a.header.fragmentIndex.toNat S) events := by
  intro i hi
  rcases h i hi with hmem | ⟨b, hb, hbi⟩
  · exact Or.inl (Finset.mem_insert_of_mem hmem)
  · rcases List.mem_cons.mp hb with heq | hb
    · cases heq
      exact Or.inl (hbi ▸ Finset.mem_insert_self _ _)
    · exact Or.inr ⟨b, hb, hbi⟩

lemma Covered.sweep (h : Covered m S (.sweep clock :: events)) : Covered m S events := by
  intro i hi
  rcases h i hi with hmem | ⟨b, hb, hbi⟩
  · exact Or.inl hmem
  · rcases List.mem_cons.mp hb with heq | hb
    · exact absurd heq (by simp)
    · exact Or.inr ⟨b, hb, hbi⟩

/-- A message that is underway is delivered once the rest of its data fragments has arrived. -/
lemma run_underway (hmax : m.payload.length ≤ maxMessageBytes me.config) {start : TimePoint}
    (hcarries : ∀ a, .fragment a ∈ events → m.Carries a)
    (hclock : events.Pairwise fun e e' => e.now ≤ e'.now)
    (htime : ∀ a, .fragment a ∈ events → start ≤ a.clock.now ∧
      a.clock.now - start < millis me.config.deadTimeout)
    (hall : Covered m S events) (h : Underway m start S peer) :
    ∃ peer' outs, Machine.run (sessionStep me) peer events = .ok (peer', outs) ∧
      outs.reduceOption = [m.payload] := by
  induction events generalizing peer S with
  | nil =>
      refine absurd (fun i hi => ?_) h.missing
      rcases hall i hi with hmem | ⟨a, ha, -⟩
      · exact hmem
      · exact absurd ha List.not_mem_nil
  | cons e events ih =>
      obtain ⟨hle, hclock'⟩ := List.pairwise_cons.mp hclock
      have hcarries' : ∀ a, .fragment a ∈ events → m.Carries a :=
        fun a h => hcarries a (List.mem_cons_of_mem _ h)
      have htime' : ∀ a, .fragment a ∈ events → start ≤ a.clock.now ∧
          a.clock.now - start < millis me.config.deadTimeout :=
        fun a h => htime a (List.mem_cons_of_mem _ h)
      cases e with
      | fragment a =>
          have ha := hcarries a List.mem_cons_self
          obtain ⟨peer₁, ⟨hstep, h₁⟩ | ⟨hstep, hdone⟩⟩ :=
            h.fragment me.config.lateRttMultiplier hmax
            ha (htime a List.mem_cons_self).1
          · obtain ⟨peer', outs, hrun, hout⟩ := ih hcarries' hclock' htime' hall.fragment h₁
            exact ⟨peer', none :: outs,
              Machine.run_cons_ok.mpr ⟨peer₁, none, outs, hstep, hrun, rfl⟩, hout⟩
          · obtain ⟨peer', outs, hrun, hout⟩ := run_done hmax hcarries' hclock'
              (fun a h => (htime' a h).2) fun _ _ => hdone
            exact ⟨peer', some m.payload :: outs,
              Machine.run_cons_ok.mpr ⟨peer₁, _, outs, hstep, hrun, rfl⟩,
              congrArg (m.payload :: ·) hout⟩
      | sweep clock =>
          -- the fragment that is missing comes behind the sweep
          obtain ⟨b, hb⟩ : ∃ b, .fragment b ∈ events := by
            by_contra hno
            exact h.missing fun i hi => (hall.sweep i hi).resolve_right fun ⟨b, hb, _⟩ =>
              hno ⟨b, hb⟩
          have hswept : Underway m start S (checkOffline me clock peer).1 := h.sweep me
            (lt_of_le_of_lt (Int.sub_le_sub_right (hle _ hb) start) (htime' b hb).2)
          obtain ⟨peer', outs, hrun, hout⟩ := ih hcarries' hclock' htime' hall.sweep hswept
          exact ⟨peer', none :: outs, Machine.run_cons_ok.mpr ⟨_, none, outs, rfl, hrun, rfl⟩, hout⟩

/-- The first fragment. -/
lemma exists_first (hclock : events.Pairwise fun e e' => e.now ≤ e'.now)
    (h : ∃ a, .fragment a ∈ events) :
    ∃ a, .fragment a ∈ events ∧ ∀ b, .fragment b ∈ events → a.clock.now ≤ b.clock.now := by
  induction events with
  | nil =>
      obtain ⟨a, ha⟩ := h
      exact absurd ha List.not_mem_nil
  | cons e events ih =>
      obtain ⟨hle, hclock'⟩ := List.pairwise_cons.mp hclock
      cases e with
      | fragment a =>
          refine ⟨a, List.mem_cons_self, fun b hb => ?_⟩
          rcases List.mem_cons.mp hb with heq | hb
          · cases heq
            exact le_rfl
          · exact hle _ hb
      | sweep clock =>
          have hmem : ∀ {a}, SessionEvent.fragment a ∈ .sweep clock :: events →
              .fragment a ∈ events :=
            fun h => (List.mem_cons.mp h).resolve_left (by simp)
          obtain ⟨a, ha⟩ := h
          obtain ⟨b, hb, hfirst⟩ := ih hclock' ⟨a, hmem ha⟩
          exact ⟨b, List.mem_cons_of_mem _ hb, fun c hc => hfirst c (hmem hc)⟩

/-- If nothing is left of an earlier session, the first message is delivered. -/
lemma startsClean_of_nothingLeft (h : NothingLeft peer) : StartsClean me peer := by
  intro m hid hmax events harrives
  obtain ⟨a, ha, -⟩ := harrives.all 0 m.dataCount_spec.2.2
  obtain ⟨a, ha, hfirst⟩ := exists_first harrives.clock ⟨a, ha⟩
  have hstart : Underway m a.clock.now ∅ peer :=
    underway_start (hid ▸ h.1) (hid ▸ h.2) a.clock.now
  exact run_underway hmax harrives.carries harrives.clock
    (fun b hb => ⟨hfirst b hb, harrives.inTime a b ha hb⟩)
    (fun i hi => Or.inr (harrives.all i hi)) hstart

/-! ## Leftovers -/

/-- The old session left something that keeps the message out: the id counts as completed, or its
slot has another number of fragments. -/
def Blocked (m : Message) (peer : Peer) : Prop :=
  peer.completed[m.id]? ≠ none ∨ ∃ slot, inUse peer m.id = some slot ∧
    slot.totalCount.toNat ≠ m.total

lemma Blocked.fragment (h : Blocked m peer) (lateMultiplier : Float) {maxMessageBytes : ℕ}
    (hmax : m.payload.length ≤ maxMessageBytes) (ha : m.Carries a) :
    ∃ peer', receive lateMultiplier maxMessageBytes peer a = .ok (peer', none) ∧
      Blocked m peer' := by
  obtain ⟨i, hi, hid, hidx, hcnt, -⟩ := ha.exists_index
  have hsame := bookkeep_sameSlots lateMultiplier peer a
  by_cases hdone : peer.completed[m.id]? = none
  · obtain ⟨slot, huse, hcount⟩ := h.resolve_left (not_not.mpr hdone)
    have hadm : Admitted (bookkeep lateMultiplier peer a) a.header maxMessageBytes :=
      (admitted_iff ha hmax).mpr (hsame.completed ▸ hdone)
    rw [← hsame.inUse_eq] at huse
    rw [receive_eq]
    generalize bookkeep lateMultiplier peer a = booked at hadm huse
    have hslot : slotFor booked a.header a.clock.now = slot := by
      rw [slotFor_eq, hid, huse, Option.getD_some]
    have hother : slot.totalCount ≠ a.header.fragmentCount := by
      intro heq
      exact hcount (heq ▸ hcnt)
    unfold collect
    simp only [hadm, not_true, if_false, hslot, hother, ne_eq, not_false_eq_true, true_or, if_true]
    refine ⟨_, rfl, Or.inr ⟨slot, ?_, hcount⟩⟩
    have hne := (Option.filter_eq_some_iff.mp huse).2
    rw [inUse, OrderedMap.getElem?_insert, if_pos hid.symm, Option.filter_some, if_pos hne]
  · refine ⟨_, receive_of_not_admitted ?_, Or.inl ?_⟩
    · rw [admitted_iff ha hmax, hsame.completed]
      exact hdone
    · rw [hsame.completed]
      exact hdone

lemma run_blocked (hmax : m.payload.length ≤ maxMessageBytes me.config) {arrivals : List Arrival}
    (hcarries : ∀ a ∈ arrivals, m.Carries a) (h : Blocked m peer) :
    ∃ peer' outs, Machine.run (sessionStep me) peer (arrivals.map .fragment) = .ok (peer', outs) ∧
      outs.reduceOption = [] := by
  induction arrivals generalizing peer with
  | nil => exact ⟨peer, [], rfl, rfl⟩
  | cons a arrivals ih =>
      obtain ⟨peer₁, hstep, h₁⟩ := h.fragment me.config.lateRttMultiplier hmax
        (hcarries a List.mem_cons_self)
      obtain ⟨peer', outs, hrun, hnone⟩ :=
        ih (fun b hb => hcarries b (List.mem_cons_of_mem _ hb)) h₁
      exact ⟨peer', none :: outs, Machine.run_cons_ok.mpr ⟨peer₁, none, outs, hstep, hrun, rfl⟩,
        hnone⟩

lemma dataCountOf_byte (byte : UInt8) :
    Fragmenter.dataCountOf [byte] (Fragmenter.fragPayload 112) = 1 := by
  have hlen : (Fragmenter.fullStream [byte]).length = 5 := by
    rw [Fragmenter.fullStream, List.length_append, length_put32, List.length_singleton]
  rw [Fragmenter.dataCountOf, hlen]
  rfl

/-- A message of one byte in one data fragment. -/
def greeting (byte : UInt8) (parityCount : UInt16)
    (h : 1 ≤ parityCount.toNat ∧ parityCount.toNat ≤ 3) : Message where
  id := 1
  payload := [byte]
  mtu := 112
  parityCount
  buffers := []
  id_ne_zero := Message.threeParts.id_ne_zero
  mtu_bounds := Message.threeParts.mtu_bounds
  parity_bounds := h
  count_fits := by
    rw [dataCountOf_byte]
    omega

lemma total_greeting (byte : UInt8) {parityCount : UInt16}
    (h : 1 ≤ parityCount.toNat ∧ parityCount.toNat ≤ 3) :
    (greeting byte parityCount h).total = 1 + parityCount.toNat :=
  congrArg (· + parityCount.toNat) (dataCountOf_byte byte)

/-- Every fragment of a message, received at one time. -/
def everyFragment (m : Message) : List Arrival :=
  m.fragments.map fun frag =>
    { header := (Fragmenter.dataPacket 0 0 1 0 frag).1
      payload := (Fragmenter.dataPacket 0 0 1 0 frag).2 }

lemma carries_everyFragment (h : a ∈ everyFragment m) : m.Carries a := by
  obtain ⟨frag, hfrag, rfl⟩ := List.mem_map.mp h
  exact m.carries_dataPacket hfrag 0 0 1 0 0 ⟨0, 0⟩

lemma arrives_everyFragment (h : 0 < me.config.deadTimeout) (m : Message) :
    Arrives me m ((everyFragment m).map .fragment) := by
  have hmem : ∀ {a}, SessionEvent.fragment a ∈ (everyFragment m).map .fragment →
      a ∈ everyFragment m := by
    intro a ha
    obtain ⟨b, hb, heq⟩ := List.mem_map.mp ha
    cases heq
    exact hb
  have hclock : ∀ {a}, a ∈ everyFragment m → a.clock.now = 0 := by
    intro a ha
    obtain ⟨frag, -, rfl⟩ := List.mem_map.mp ha
    rfl
  refine ⟨fun a ha => carries_everyFragment (hmem ha), fun i hi => ?_, ?_, fun a b ha hb => ?_⟩
  · have hcount : i < m.fragments.length := by
      rw [Message.fragments, Fragmenter.length_fragmentsOf]
      exact lt_of_lt_of_le hi (Nat.le_add_right _ _)
    have hkeys := Fragmenter.fragmentsOf_keys m.id m.payload m.mtu m.parityCount m.buffers
    have hkey : (m.id, UInt16.ofNat i) ∈ m.fragments.map Fragmenter.keyOf := by
      rw [Message.fragments, hkeys]
      exact List.mem_map.mpr ⟨i, List.mem_range.mpr hcount, rfl⟩
    obtain ⟨frag, hfrag, heq⟩ := List.mem_map.mp hkey
    refine ⟨_, List.mem_map_of_mem (List.mem_map_of_mem hfrag), ?_⟩
    have hidx : frag.idx = UInt16.ofNat i := congrArg Prod.snd heq
    have htotal := m.total_lt
    have hle : i < m.total := lt_of_lt_of_le hi (Nat.le_add_right _ _)
    exact (congrArg UInt16.toNat hidx).trans (UInt16.toNat_ofNat_of_lt' (lt_trans hle htotal))
  · refine List.pairwise_map.mpr (List.pairwise_of_forall_mem_list fun a ha b hb => ?_)
    exact ((hclock ha).trans (hclock hb).symm).le
  · rw [hclock (hmem ha), hclock (hmem hb), millis]
    omega

/-- Something left under the id 1 keeps one of two messages out. -/
lemma exists_blocked (h : ¬ NothingLeft peer) :
    ∃ m : Message, m.id = 1 ∧ m.payload.length = 1 ∧ Blocked m peer := by
  by_cases hdone : peer.completed[(1 : UInt32)]? = none
  · obtain ⟨slot, hslot⟩ := Option.ne_none_iff_exists'.mp fun hnone => h ⟨hdone, hnone⟩
    by_cases hcount : slot.totalCount.toNat = 2
    · refine ⟨greeting 7 2 (by decide), rfl, rfl, Or.inr ⟨slot, hslot, ?_⟩⟩
      rw [total_greeting, hcount]
      decide
    · refine ⟨greeting 7 1 (by decide), rfl, rfl, Or.inr ⟨slot, hslot, ?_⟩⟩
      rw [total_greeting]
      exact hcount
  · exact ⟨greeting 7 1 (by decide), rfl, rfl, Or.inl hdone⟩

lemma not_startsClean (hdead : 0 < me.config.deadTimeout) (h : ¬ NothingLeft peer) :
    ¬ StartsClean me peer := by
  intro hclean
  obtain ⟨m, hid, hlen, hblocked⟩ := exists_blocked h
  have hmax : m.payload.length ≤ maxMessageBytes me.config := by
    rw [hlen, maxMessageBytes]
    omega
  obtain ⟨peer', outs, hrun, hout⟩ := hclean m hid hmax _ (arrives_everyFragment hdead m)
  obtain ⟨peer'', outs', hrun', hout'⟩ := run_blocked hmax (fun a => carries_everyFragment) hblocked
  cases hrun.symm.trans hrun'
  rw [hout] at hout'
  exact absurd hout' (by simp)

/-! ## The handshake -/

/-- The first message of a new session is delivered once and unchanged exactly if the old one left
nothing under its id.  With no dead timeout no fragment can come in time. -/
theorem new_session_clean_iff (cs : CryptoSuite) (me : Local) (bw : BandwidthEstimator)
    (clock : Clock) (peer : Peer) (header : PacketHeader) (payload : Bytes)
    (_ : OpensSession me peer header payload) :
    StartsClean me (handleHandshake cs me bw clock peer header payload).1 ↔
      me.config.deadTimeout ≤ 0 ∨ NothingLeft peer := by
  have hsame := handleHandshake_sameSlots cs me bw clock peer header payload
  have hleft : NothingLeft (handleHandshake cs me bw clock peer header payload).1 ↔
      NothingLeft peer := by
    rw [NothingLeft, NothingLeft, hsame.completed, hsame.inUse_eq]
  constructor
  · intro hclean
    by_contra hnot
    obtain ⟨hdead, hnothing⟩ := not_or.mp hnot
    exact not_startsClean (not_le.mp hdead) (mt hleft.mp hnothing) hclean
  · rintro (hdead | hnothing)
    · intro m _ _ events harrives
      obtain ⟨a, ha, -⟩ := harrives.all 0 m.dataCount_spec.2.2
      have htime := harrives.inTime a a ha ha
      rw [sub_self, millis] at htime
      omega
    · exact startsClean_of_nothingLeft (hleft.mpr hnothing)

/-- The first message of the old session is delivered, and the link stays silent until the reactor
has swept up what is left of it. -/
theorem new_session_clean_swept :
    ∃ peer outs, Machine.run (sessionStep {}) {}
        ((everyFragment (greeting 7 1 (by decide))).map .fragment ++
          [.sweep ⟨1000000000000, 1000000⟩]) = .ok (peer, outs) ∧ outs.reduceOption = [[7]] ∧
      StartsClean {} (handleHandshake noCrypto {} {} ⟨1000000000000, 1000000⟩ peer
        { type := .handshake, sessionId := 2 } [0, 0, 0]).1 := by
  refine ⟨_, _, rfl, rfl, ?_⟩
  refine (new_session_clean_iff noCrypto {} {} ⟨1000000000000, 1000000⟩ _
    { type := .handshake, sessionId := 2 } [0, 0, 0] (by decide)).mpr (Or.inr ⟨rfl, rfl⟩)

/-- The first message of the old session is delivered; the peer starts again, and the first message
of the new session is not. -/
theorem first_message_dropped :
    ∃ peer₁ outs₁ peer₂ outs₂,
      Machine.run (sessionStep {}) {} ((everyFragment (greeting 7 1 (by decide))).map .fragment) =
        .ok (peer₁, outs₁) ∧ outs₁.reduceOption = [[7]] ∧
      OpensSession {} peer₁ { type := .handshake, sessionId := 2 } [0, 0, 0] ∧
      Arrives {} (greeting 9 1 (by decide))
        ((everyFragment (greeting 9 1 (by decide))).map .fragment) ∧
      Machine.run (sessionStep {}) (handleHandshake noCrypto {} {} ⟨0, 0⟩ peer₁
        { type := .handshake, sessionId := 2 } [0, 0, 0]).1
        ((everyFragment (greeting 9 1 (by decide))).map .fragment) = .ok (peer₂, outs₂) ∧
      outs₂.reduceOption = [] := by
  refine ⟨_, _, _, _, rfl, rfl, ?_, arrives_everyFragment (by decide) _, rfl, rfl⟩
  decide

end Transport
end Damen
