import Damen.Model.DataPath
import Damen.Properties.Frames

/-!
# The retransmission buffer between two locks

`send_data_packet` puts a packet into `m_pending` under one lock, hands it over to the sender
thread, and under a second lock writes the size of the datagram with
`m_pending[sequence].m_bytes = …`.  An acknowledgement, a report or the offline sweep may remove the
entry in between, and then the assignment creates an empty one in its place.

The machine here takes these sections in any order.  Beside the peer it records the packets that
were sent and the sequences that were removed from the buffer.  Every entry carries a packet that
was sent with its sequence, and no sequence comes back, exactly in the runs in which each size is
written while the entry is there and no number is drawn again that was removed before
(`no_resurrection_iff`).
-/

namespace Damen
namespace Transport

open Std (ExtTreeMap)
open Fragmenter (Fragment)

/-! ## The machine -/

structure Outgoing where
  peer : Peer
  bandwidth : BandwidthEstimator := {}
  /-- The calls of `send_data_packet` between their sections: the header, and whether it is kept. -/
  calls : List (PacketHeader × Bool) := []
  /-- The packets that were sent. -/
  sent : List (PacketHeader × Bytes) := []
  /-- The sequences that were removed from the retransmission buffer. -/
  removed : List UInt32 := []

namespace Outgoing

inductive Section
  /-- The two sections of `send_data_packet`; the second one is that of the call at this
  position. -/
  | register (frag : Fragment) (clock : Clock)
  | record (call size : ℕ)
  /-- `send_control` with `ackable` set. -/
  | control (type : PacketType) (payload : Bytes) (clock : Clock)
  | ack (header : PacketHeader) (clock : Clock)
  | report (payload : Bytes) (now : TimePoint)
  /-- The sweep of `check_offline`. -/
  | offline (clock : Clock)

/-- The state after the peer has changed. -/
def settle (s : Outgoing) (peer : Peer) : Outgoing :=
  { s with peer, removed := s.removed ++ s.peer.pending.keys.filter fun seq => seq ∉ peer.pending }

/-- The header `send_control` gives to a packet that is to be acknowledged. -/
def controlHeader (me : Local) (clock : Clock) (peer : Peer) (type : PacketType) (payload : Bytes) :
    PacketHeader :=
  { ownHeader me type with
    sequence := peer.sequenceOut
    payloadSize := UInt16.ofNat payload.length
    tick := tickOf clock }

def step (me : Local) (s : Outgoing) : Section → Except Empty (Outgoing × Unit)
  | .register frag clock =>
      let (peer, header, payload) := registerDataPacket me clock s.peer frag
      .ok ({ s.settle peer with
        calls := s.calls ++ [(header, keepsPending me s.peer header)]
        sent := s.sent ++ [(header, payload)] }, ())
  | .record i size =>
      match s.calls[i]? with
      | none => .ok (s, ())
      | some (header, keep) =>
          let s' := if keep then s.settle (recordWireSize s.peer header.sequence size) else s
          .ok ({ s' with calls := s.calls.eraseIdx i }, ())
  | .control type payload clock =>
      let (peer, _) := sendControl me clock s.peer type payload true
      .ok ({ s.settle peer with
        sent := s.sent ++ [(controlHeader me clock s.peer type payload, payload)] }, ())
  | .ack header clock =>
      let (bandwidth, peer) := handleAck s.bandwidth clock s.peer header
      .ok ({ s.settle peer with bandwidth }, ())
  | .report payload now => .ok (s.settle (Report.handle s.peer payload now).1, ())
  | .offline clock => .ok (s.settle (checkOffline me clock s.peer).1, ())

/-- Every entry carries a packet that was sent with its sequence, and no sequence that was removed
is there. -/
structure Sound (s : Outgoing) : Prop where
  carried : ∀ (seq : UInt32) (ps : PendingSend), s.peer.pending[seq]? = some ps →
    ps.header.sequence = seq ∧ (ps.header, ps.payload) ∈ s.sent
  gone : ∀ seq ∈ s.removed, seq ∉ s.peer.pending

/-- A size is written while the entry is there, and a number that is drawn for an entry was not
removed before. -/
def Timely (me : Local) (s : Outgoing) : Section → Prop
  | .register frag clock =>
      keepsPending me s.peer (registerDataPacket me clock s.peer frag).2.1 = true →
        s.peer.sequenceOut ∉ s.removed
  | .record i _ => ∀ call ∈ s.calls[i]?, call.2 = true → call.1.sequence ∈ s.peer.pending
  | .control _ _ _ => s.peer.sequenceOut ∉ s.removed
  | .ack _ _ | .report _ _ | .offline _ => True

instance (me : Local) (s : Outgoing) : (sec : Section) → Decidable (Timely me s sec)
  | .register _ _ => inferInstanceAs (Decidable (_ → _))
  | .record i _ => inferInstanceAs (Decidable (∀ call ∈ s.calls[i]?, _ → _))
  | .control _ _ _ => inferInstanceAs (Decidable (_ ∉ _))
  | .ack _ _ | .report _ _ | .offline _ => inferInstanceAs (Decidable True)

/-! ## What a section does to the buffer -/

/-- Entries may be removed, and those that stay carry the same packet. -/
def Shrinks (pending pending' : ExtTreeMap UInt32 PendingSend) : Prop :=
  ∀ (seq : UInt32) (ps' : PendingSend), pending'[seq]? = some ps' →
    ∃ ps : PendingSend, pending[seq]? = some ps ∧ ps'.header = ps.header ∧ ps'.payload = ps.payload

lemma Shrinks.refl (pending : ExtTreeMap UInt32 PendingSend) : Shrinks pending pending :=
  fun _ ps h => ⟨ps, h, rfl, rfl⟩

lemma trySyncClock_pending (bw : BandwidthEstimator) (peer : Peer) :
    (trySyncClock bw peer).pending = peer.pending := by
  obtain ⟨_, _, _, _, _, hframe⟩ := trySyncClock_frame bw peer
  rw [hframe]

lemma handleAck_shrinks (bw : BandwidthEstimator) (clock : Clock) (peer : Peer)
    (header : PacketHeader) : Shrinks peer.pending (handleAck bw clock peer header).2.pending := by
  unfold handleAck
  simp only
  split_ifs
  · exact Shrinks.refl _
  · split
    · exact Shrinks.refl _
    · rw [trySyncClock_pending]
      intro seq ps hps
      simp only [OrderedMap.getElem?_erase] at hps
      split_ifs at hps
      exact ⟨ps, hps, rfl, rfl⟩

lemma report_shrinks (peer : Peer) (payload : Bytes) (now : TimePoint) :
    Shrinks peer.pending (Report.handle peer payload now).1.pending := by
  by_cases hform : Report.WellFormed payload
  · intro seq ps' hps'
    rw [Report.handle_pending hform, Option.bind_eq_some_iff] at hps'
    obtain ⟨ps, hps, hfate⟩ := hps'
    refine ⟨ps, hps, ?_⟩
    split_ifs at hfate <;>
    · obtain rfl := Option.some.inj hfate
      exact ⟨rfl, rfl⟩
  · rw [Report.handle_malformed hform]
    exact Shrinks.refl _

lemma checkOffline_shrinks (me : Local) (clock : Clock) (peer : Peer) :
    Shrinks peer.pending (checkOffline me clock peer).1.pending := by
  have hempty : Shrinks peer.pending ∅ := fun seq ps hps => by simp at hps
  unfold checkOffline
  simp only
  split
  · exact Shrinks.refl _
  · split
    · exact Shrinks.refl _
    · split <;> exact hempty

variable {me : Local} {peer : Peer} {header : PacketHeader} {s s' : Outgoing} {seq : UInt32}
  {ps : PendingSend} {sent : List (PacketHeader × Bytes)}

/-- The first section writes the entry of the number it draws, if the packet is kept. -/
lemma registerDataPacket_pending {clock : Clock} {peer' : Peer} {frag : Fragment} {payload : Bytes}
    (h : registerDataPacket me clock peer frag = (peer', header, payload)) :
    (keepsPending me peer header = true → header.sequence = peer.sequenceOut ∧
        ∃ ps : PendingSend, ps.header = header ∧ ps.payload = payload ∧
          peer'.pending = peer.pending.insert header.sequence ps) ∧
      (keepsPending me peer header = false → peer'.pending = peer.pending) := by
  have hnumber : header.type = .data → header.sequence = peer.sequenceOut := by
    unfold registerDataPacket at h
    simp only [Prod.mk.injEq] at h
    obtain ⟨-, rfl, -⟩ := h
    exact fun htype => if_pos htype
  have hcounter : ∀ (c : Prop) [Decidable c],
      (if c then { peer with sequenceOut := peer.sequenceOut + 1 } else peer).pending =
        peer.pending := by
    intro c _
    split <;> rfl
  unfold registerDataPacket at h
  simp only [Prod.mk.injEq] at h
  obtain ⟨hpeer, rfl, rfl⟩ := h
  refine ⟨fun hkeep => ⟨hnumber ?_, ?_⟩, fun hkeep => ?_⟩
  · exact (of_decide_eq_true hkeep).1
  · rw [if_pos hkeep] at hpeer
    rw [← hpeer]
    exact ⟨_, rfl, rfl, congrArg (ExtTreeMap.insert · _ _) (hcounter _)⟩
  · rw [if_neg (by rw [hkeep]; simp)] at hpeer
    rw [← hpeer]
    exact hcounter _

/-- The second section keeps the packet of the entry it writes, and creates one where none is. -/
lemma recordWireSize_pending (peer : Peer) (seq : UInt32) (size : ℕ) :
    ∃ ps : PendingSend, (recordWireSize peer seq size).pending = peer.pending.insert seq ps ∧
      ∀ old : PendingSend, peer.pending[seq]? = some old →
        ps.header = old.header ∧ ps.payload = old.payload := by
  refine ⟨_, rfl, fun old hold => ?_⟩
  rw [ExtTreeMap.getD_eq_getD_getElem?, hold]
  exact ⟨rfl, rfl⟩

lemma sendControl_pending (me : Local) (clock : Clock) (peer : Peer) (type : PacketType)
    (payload : Bytes) :
    ∃ ps : PendingSend, ps.header = controlHeader me clock peer type payload ∧
      ps.payload = payload ∧
      (sendControl me clock peer type payload true).1.pending =
        peer.pending.insert peer.sequenceOut ps :=
  ⟨_, rfl, rfl, rfl⟩

/-! ## The invariant -/

/-- The buffer is sound, and the entry of a call that is to be kept is there or was removed. -/
structure Inv (s : Outgoing) : Prop extends Sound s where
  calls : ∀ header : PacketHeader, (header, true) ∈ s.calls →
    header.sequence ∈ s.peer.pending ∨ header.sequence ∈ s.removed

lemma mem_settle_removed :
    seq ∈ (s.settle peer).removed ↔
      seq ∈ s.removed ∨ (seq ∈ s.peer.pending ∧ seq ∉ peer.pending) := by
  simp only [settle, List.mem_append, List.mem_filter, ExtTreeMap.mem_keys, decide_eq_true_eq]

/-- Whether an entry is there: the entry of a call stays there or is noted as removed. -/
lemma calls_settle (h : seq ∈ s.peer.pending ∨ seq ∈ s.removed) :
    seq ∈ peer.pending ∨ seq ∈ (s.settle peer).removed := by
  by_cases hseq : seq ∈ peer.pending
  · exact Or.inl hseq
  · exact Or.inr (mem_settle_removed.mpr (h.elim (fun hold => Or.inr ⟨hold, hseq⟩) Or.inl))

lemma mem_of_shrinks {pending pending' : ExtTreeMap UInt32 PendingSend}
    (h : Shrinks pending pending') (hseq : seq ∈ pending') : seq ∈ pending := by
  rw [ExtTreeMap.mem_iff_isSome_getElem?] at hseq ⊢
  obtain ⟨ps', hps'⟩ := Option.isSome_iff_exists.mp hseq
  obtain ⟨ps, hps, -⟩ := h seq ps' hps'
  rw [hps]
  rfl

lemma Inv.shrink (h : Inv s) (hshrinks : Shrinks s.peer.pending peer.pending) :
    Inv (s.settle peer) where
  carried seq ps' hps' := by
    obtain ⟨ps, hps, hheader, hpayload⟩ := hshrinks seq ps' hps'
    rw [hheader, hpayload]
    exact h.carried seq ps hps
  gone seq hseq hmem := by
    rcases mem_settle_removed.mp hseq with hold | hnew
    · exact h.gone seq hold (mem_of_shrinks hshrinks hmem)
    · exact hnew.2 hmem
  calls header hheader := calls_settle (h.calls header hheader)

lemma mem_insert_iff {pending : ExtTreeMap UInt32 PendingSend} {k : UInt32} :
    k ∈ pending.insert seq ps ↔ k = seq ∨ k ∈ pending := by
  rw [ExtTreeMap.mem_insert, Std.LawfulEqOrd.compare_eq_iff_eq, eq_comm]

/-- Writing an entry removes nothing. -/
lemma mem_settle_insert_removed {k : UInt32}
    (hpending : peer.pending = s.peer.pending.insert seq ps) :
    k ∈ (s.settle peer).removed ↔ k ∈ s.removed := by
  rw [mem_settle_removed, hpending, mem_insert_iff]
  exact ⟨fun h => h.elim id fun hnew => absurd (Or.inr hnew.1) hnew.2, Or.inl⟩

/-- An entry is written for a packet that is sent, under a number that was not removed. -/
lemma Inv.insert (h : Inv s) (hpending : peer.pending = s.peer.pending.insert ps.header.sequence ps)
    (hsent : s.sent ⊆ sent) (hpacket : (ps.header, ps.payload) ∈ sent)
    (hfree : ps.header.sequence ∉ s.removed) :
    Inv { s.settle peer with sent } where
  carried k ps' hps' := by
    have hps' : peer.pending[k]? = some ps' := hps'
    rw [hpending, OrderedMap.getElem?_insert] at hps'
    split_ifs at hps' with hk
    · obtain rfl := Option.some.inj hps'
      exact ⟨hk.symm, hpacket⟩
    · exact ⟨(h.carried k ps' hps').1, hsent (h.carried k ps' hps').2⟩
  gone k hk hmem := by
    have hk := (mem_settle_insert_removed hpending).mp hk
    have hmem : k ∈ peer.pending := hmem
    rw [hpending, mem_insert_iff] at hmem
    rcases hmem with rfl | hmem
    · exact hfree hk
    · exact h.gone k hk hmem
  calls header hheader := calls_settle (h.calls header hheader)

lemma Inv.withCalls (h : Inv s) {calls : List (PacketHeader × Bool)}
    (hcalls : ∀ header : PacketHeader, (header, true) ∈ calls → header.sequence ∈ s.peer.pending ∨
      header.sequence ∈ s.removed) :
    Inv { s with calls } :=
  ⟨⟨h.carried, h.gone⟩, hcalls⟩

lemma Inv.withSent (h : Inv s) (hsent : s.sent ⊆ sent) : Inv { s with sent } :=
  ⟨⟨fun seq ps hps => ⟨(h.carried seq ps hps).1, hsent (h.carried seq ps hps).2⟩, h.gone⟩, h.calls⟩

/-! ## Steps -/

lemma register_inv (h : Inv s) {frag : Fragment} {clock : Clock} {payload : Bytes}
    (hregister : registerDataPacket me clock s.peer frag = (peer, header, payload))
    (htimely : keepsPending me s.peer header = true → s.peer.sequenceOut ∉ s.removed) :
    Inv { s.settle peer with
      calls := s.calls ++ [(header, keepsPending me s.peer header)]
      sent := s.sent ++ [(header, payload)] } := by
  obtain ⟨hkept, hdropped⟩ := registerDataPacket_pending hregister
  cases hkeep : keepsPending me s.peer header with
  | true =>
      obtain ⟨hseq, ps, rfl, rfl, hpending⟩ := hkept hkeep
      have hinsert := h.insert hpending (List.subset_append_left s.sent [(ps.header, ps.payload)])
        (List.mem_append_right _ List.mem_cons_self) (hseq ▸ htimely hkeep)
      refine hinsert.withCalls fun header hmem => ?_
      rcases List.mem_append.mp hmem with hold | hnew
      · exact calls_settle (h.calls header hold)
      · obtain ⟨rfl, -⟩ := Prod.mk.inj (List.mem_singleton.mp hnew)
        have hmem : ps.header.sequence ∈ peer.pending := by
          rw [hpending, mem_insert_iff]
          exact Or.inl rfl
        exact Or.inl hmem
  | false =>
      have hsettle : Inv (s.settle peer) := h.shrink (by rw [hdropped hkeep]; exact Shrinks.refl _)
      have hsent := hsettle.withSent (List.subset_append_left s.sent [(header, payload)])
      refine hsent.withCalls fun header' hmem => ?_
      rcases List.mem_append.mp hmem with hold | hnew
      · exact calls_settle (h.calls header' hold)
      · exact absurd (congrArg Prod.snd (List.mem_singleton.mp hnew)) (by simp)

lemma record_inv (h : Inv s) (size : ℕ) (hseq : header.sequence ∈ s.peer.pending) :
    Inv (s.settle (recordWireSize s.peer header.sequence size)) := by
  obtain ⟨ps, hpending, hsame⟩ := recordWireSize_pending s.peer header.sequence size
  obtain ⟨old, hold⟩ := Option.isSome_iff_exists.mp (ExtTreeMap.mem_iff_isSome_getElem?.mp hseq)
  obtain ⟨hheader, hpayload⟩ := hsame old hold
  obtain ⟨hsequence, hpacket⟩ := h.carried _ old hold
  generalize recordWireSize s.peer header.sequence size = peer at hpending ⊢
  rw [← hsequence, ← hheader] at hpending hseq
  rw [← hheader, ← hpayload] at hpacket
  exact h.insert hpending (List.Subset.refl _) hpacket fun hremoved => h.gone _ hremoved hseq

/-- A timely section keeps the invariant. -/
lemma step_inv {sec : Section} {o : Unit} (h : Inv s) (htimely : Timely me s sec)
    (hstep : step me s sec = .ok (s', o)) : Inv s' := by
  cases sec with
  | register frag clock =>
      rcases hregister : registerDataPacket me clock s.peer frag with ⟨peer, header, payload⟩
      simp only [step, hregister] at hstep
      simp only [Timely, hregister] at htimely
      obtain ⟨rfl, -⟩ := Prod.mk.inj (Except.ok.inj hstep)
      exact register_inv h hregister htimely
  | record i size =>
      rcases hcall : s.calls[i]? with _ | ⟨header, keep⟩ <;> simp only [step, hcall] at hstep
      · obtain ⟨rfl, -⟩ := Prod.mk.inj (Except.ok.inj hstep)
        exact h
      obtain ⟨rfl, -⟩ := Prod.mk.inj (Except.ok.inj hstep)
      cases keep with
      | true =>
          have hrecord := record_inv h size (htimely _ hcall rfl)
          exact hrecord.withCalls fun header' hmem =>
            calls_settle (h.calls header' (List.mem_of_mem_eraseIdx hmem))
      | false =>
          exact h.withCalls fun header' hmem => h.calls header' (List.mem_of_mem_eraseIdx hmem)
  | control type payload clock =>
      obtain ⟨rfl, -⟩ := Prod.mk.inj (Except.ok.inj hstep)
      obtain ⟨ps, hheader, rfl, hpending⟩ := sendControl_pending me clock s.peer type payload
      have hseq : ps.header.sequence = s.peer.sequenceOut := by
        rw [hheader]
        rfl
      rw [← hseq] at hpending
      rw [← hheader]
      exact h.insert hpending (List.subset_append_left _ _)
        (List.mem_append_right _ List.mem_cons_self) (hseq ▸ htimely)
  | ack header clock =>
      obtain ⟨rfl, -⟩ := Prod.mk.inj (Except.ok.inj hstep)
      have hshrink := h.shrink (handleAck_shrinks s.bandwidth clock s.peer header)
      exact ⟨⟨hshrink.carried, hshrink.gone⟩, hshrink.calls⟩
  | report payload now =>
      obtain ⟨rfl, -⟩ := Prod.mk.inj (Except.ok.inj hstep)
      exact h.shrink (report_shrinks s.peer payload now)
  | offline clock =>
      obtain ⟨rfl, -⟩ := Prod.mk.inj (Except.ok.inj hstep)
      exact h.shrink (checkOffline_shrinks me clock s.peer)

/-- An entry that is written under a removed number brings it back. -/
lemma not_sound_of_insert (hpending : peer.pending = s.peer.pending.insert seq ps)
    (hremoved : seq ∈ s.removed) (hpeer : s'.peer = peer)
    (hsame : s'.removed = (s.settle peer).removed) : ¬ Sound s' := by
  intro hsound
  refine hsound.gone seq ?_ ?_
  · rw [hsame]
    exact (mem_settle_insert_removed hpending).mpr hremoved
  · rw [hpeer, hpending, mem_insert_iff]
    exact Or.inl rfl

/-- A section that is not timely brings a sequence back. -/
lemma step_not_sound {sec : Section} {o : Unit} (h : Inv s) (hlate : ¬ Timely me s sec)
    (hstep : step me s sec = .ok (s', o)) : ¬ Sound s' := by
  cases sec with
  | register frag clock =>
      rcases hregister : registerDataPacket me clock s.peer frag with ⟨peer, header, payload⟩
      simp only [step, hregister] at hstep
      simp only [Timely, hregister, Classical.not_imp, not_not] at hlate
      obtain ⟨rfl, -⟩ := Prod.mk.inj (Except.ok.inj hstep)
      obtain ⟨hseq, ps, -, -, hpending⟩ := (registerDataPacket_pending hregister).1 hlate.1
      exact not_sound_of_insert hpending (hseq ▸ hlate.2) rfl rfl
  | record i size =>
      simp only [Timely, not_forall] at hlate
      obtain ⟨⟨header, keep⟩, hcall, rfl, hseq⟩ := hlate
      simp only [step, Option.mem_def.mp hcall] at hstep
      obtain ⟨rfl, -⟩ := Prod.mk.inj (Except.ok.inj hstep)
      obtain ⟨ps, hpending, -⟩ := recordWireSize_pending s.peer header.sequence size
      have hremoved := (h.calls header (List.mem_of_getElem? hcall)).resolve_left hseq
      exact not_sound_of_insert hpending hremoved rfl rfl
  | control type payload clock =>
      obtain ⟨rfl, -⟩ := Prod.mk.inj (Except.ok.inj hstep)
      obtain ⟨ps, -, -, hpending⟩ := sendControl_pending me clock s.peer type payload
      exact not_sound_of_insert hpending (not_not.mp hlate) rfl rfl
  | ack header clock => exact absurd trivial hlate
  | report payload now => exact absurd trivial hlate
  | offline clock => exact absurd trivial hlate

/-! ## Runs -/

/-- From an empty buffer, in any order of the sections: in every state each entry carries a packet
that was sent with its sequence and no removed sequence is back, exactly if every section is
timely. -/
theorem no_resurrection_iff (me : Local) (peer : Peer) (hempty : peer.pending = ∅)
    (sections : List Section) :
    Machine.Throughout (step me) Sound { peer } sections ↔
      Machine.Along (step me) (Timely me) { peer } sections := by
  have hstart : Inv { peer } :=
    ⟨⟨fun seq ps hps => by simp [hempty] at hps, fun _ hseq => absurd hseq List.not_mem_nil⟩,
      fun _ hheader => absurd hheader List.not_mem_nil⟩
  have htotal : ∀ (s : Outgoing) (sec : Section), ∃ s' o, step me s sec = .ok (s', o) := by
    intro s sec
    cases hstep : step me s sec with
    | error e => exact e.elim
    | ok r => exact ⟨r.1, r.2, rfl⟩
  obtain ⟨s, outs, hrun⟩ := Machine.run_of_total htotal { peer } sections
  exact Machine.throughout_iff (fun _ h => h.toSound) (fun _ _ _ _ h ht hs => step_inv h ht hs)
    (fun _ _ _ _ h ht hs => step_not_sound h ht hs) hstart hrun

/-- A packet that is acknowledged after its size was written. -/
theorem no_resurrection_in_order :
    ({ peerRetransmit := true } : Peer).pending = ∅ ∧
    Machine.Throughout (step {}) Sound { peer := { peerRetransmit := true } }
      [.register ⟨1, 0, 2, 1, 5, [1, 2, 3, 4, 5], 5⟩ ⟨0, 0⟩, .record 0 61,
        .ack { type := .ack, acknowledgment := 1 } ⟨1000000, 1⟩] := by
  refine ⟨rfl, (no_resurrection_iff {} { peerRetransmit := true } rfl _).mpr ?_⟩
  decide +kernel

/-- The acknowledgement comes between the two sections: the packet's sequence is back, under an
entry without a packet. -/
theorem acked_sequence_back :
    ∃ s : Outgoing, Machine.run (step {}) { peer := { peerRetransmit := true } }
        [.register ⟨1, 0, 2, 1, 5, [1, 2, 3, 4, 5], 5⟩ ⟨0, 0⟩,
          .ack { type := .ack, acknowledgment := 1 } ⟨1000000, 1⟩, .record 0 61] =
          .ok (s, [(), (), ()]) ∧
      1 ∈ s.removed ∧ 1 ∈ s.peer.pending ∧
      s.peer.pending[(1 : UInt32)]?.map (fun ps => (ps.header.sequence, ps.payload)) =
        some (0, []) ∧ ¬ Sound s := by
  obtain ⟨⟨s, outs⟩, hrun, hs⟩ := Machine.exists_ok_of_any (p := fun r =>
      r.2 = [(), (), ()] ∧ 1 ∈ r.1.removed ∧ 1 ∈ r.1.peer.pending ∧
      r.1.peer.pending[(1 : UInt32)]?.map (fun ps => (ps.header.sequence, ps.payload)) =
        some (0, []))
    (show (Machine.run (step {}) { peer := { peerRetransmit := true } }
        [.register ⟨1, 0, 2, 1, 5, [1, 2, 3, 4, 5], 5⟩ ⟨0, 0⟩,
          .ack { type := .ack, acknowledgment := 1 } ⟨1000000, 1⟩, .record 0 61]).toOption.any _ =
        true by decide +kernel)
  obtain ⟨rfl, hremoved, hpending, hblank⟩ := of_decide_eq_true hs
  exact ⟨s, hrun, hremoved, hpending, hblank, fun h => h.gone 1 hremoved hpending⟩

end Outgoing
end Transport
end Damen
