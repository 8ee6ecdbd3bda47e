import Damen.Properties.SequenceTracking

/-!
# Received sequences that stay missing

The map of missing sequences is not exact in the way the received set is.  A sequence that arrives
behind the cursor is taken out of it; one that arrives at or above the cursor is not, although it
may have been noted when a later one arrived first.  A report then lists it as lost.

`received_never_missing_iff` says of a whole run that this is the only way for it to happen.
-/

namespace Damen
namespace Tracking

open Reassembler Report
open Std (ExtTreeMap)

/-- A sequence at or above the cursor arrives while it is noted as missing. -/
def Refill (peer : Peer) : Event → Prop
  | .data a => peer.seqInitialized = true ∧ peer.nextExpectedSeq ≤ a.header.sequence ∧
      a.header.sequence ∈ peer.missingSeqs
  | .report .. => False

instance (peer : Peer) : (ev : Event) → Decidable (Refill peer ev)
  | .data _ => inferInstanceAs (Decidable (_ ∧ _ ∧ _))
  | .report .. => inferInstanceAs (Decidable False)

/-- In every state the run reaches no received sequence is missing, and no report of it lists a
sequence received before. -/
def NeverMissing (lateMultiplier : Float) (maxMessageBytes : ℕ) (peer : Peer)
    (events : List Event) : Prop :=
  ∀ before after, events = before ++ after → ∀ mid outs,
    Machine.run (step lateMultiplier maxMessageBytes) peer before = .ok (mid, outs) →
      (∀ x ∈ received before, x ∉ mid.missingSeqs) ∧
      ∀ payload, outs.getLast? = some (some payload) →
        ∀ x ∈ received before, x ∉ listedLost payload

/-- None of the sequences `R` is noted as missing. -/
def Clean (R : List UInt32) (peer : Peer) : Prop := ∀ x ∈ R, x ∉ peer.missingSeqs

variable {R : List UInt32} {peer peer' : Peer} {lateMultiplier : Float}

lemma clean_trackSequence {seq : UInt32} (now : TimePoint) (h : Tracks R peer)
    (hclean : Clean R peer) (hR : Valid (R ++ [seq]))
    (hfill : ¬ (peer.seqInitialized = true ∧ peer.nextExpectedSeq ≤ seq ∧ seq ∈ peer.missingSeqs)) :
    Clean (R ++ [seq]) (trackSequence peer seq now) := by
  obtain ⟨hne, -⟩ := hR seq (List.mem_append_right _ List.mem_cons_self)
  intro x hx
  rw [List.mem_append, List.mem_singleton] at hx
  unfold trackSequence
  rw [if_neg hne]
  cases hinit : peer.seqInitialized with
  | false =>
      simp only [Bool.false_eq_true, not_false_eq_true, if_true]
      exact (h.fresh hinit).2.2 x
  | true =>
      simp only [not_true, if_false]
      split
      · next hge =>
        intro hmem
        rcases mem_noteGaps.mp hmem with hold | ⟨hle, hlt, hout⟩
        · rcases hx with hx | rfl
          · exact hclean x hx hold
          · exact hfill ⟨hinit, hge, hold⟩
        · rcases hx with hx | rfl
          · -- A received sequence from the cursor on is in the received set.
            refine hout ((h.recv_iff hinit x).mpr ⟨hx, lt_of_le_of_ne hle fun heq => ?_⟩)
            exact h.next_notMem hinit (UInt32.toNat_inj.mp heq ▸ hx)
          · exact lt_irrefl _ hlt
      · intro hmem
        obtain ⟨hcmp, hmem⟩ := ExtTreeMap.mem_erase.mp hmem
        rcases hx with hx | rfl
        · exact hclean x hx hmem
        · exact hcmp (Std.LawfulEqCmp.compare_eq_iff_eq.mpr rfl)

/-- A sequence that refills a gap at or above the cursor stays noted as missing. -/
lemma mem_missing_of_refill {seq : UInt32} (now : TimePoint) (hne : seq ≠ 0)
    (hinit : peer.seqInitialized = true) (hge : peer.nextExpectedSeq ≤ seq)
    (hmem : seq ∈ peer.missingSeqs) : seq ∈ (trackSequence peer seq now).missingSeqs := by
  unfold trackSequence
  rw [if_neg hne]
  simp only [hinit, not_true, if_false]
  rw [if_pos hge]
  exact mem_noteGaps.mpr (Or.inl hmem)

lemma mem_missing_of_buildPayload {reportInterval : Int} {now : TimePoint} {k : UInt32}
    (h : k ∈ (buildPayload peer reportInterval now).1.missingSeqs) : k ∈ peer.missingSeqs := by
  rw [(buildPayload_tracking peer reportInterval now).2.2.2] at h
  exact (scan_frame peer reportInterval now).2 k (capMissing_subset _ k h)

lemma clean_step {maxMessageBytes : ℕ} {ev : Event} {o : Option Bytes} (h : Tracks R peer)
    (hclean : Clean R peer) (hR : Valid (R ++ received [ev])) (hfill : ¬ Refill peer ev)
    (hstep : step lateMultiplier maxMessageBytes peer ev = .ok (peer', o)) :
    Clean (R ++ received [ev]) peer' := by
  cases ev with
  | data a =>
      intro x hx
      rw [missing_of_tracking (step_data_tracking hstep)]
      exact clean_trackSequence a.clock.now h hclean hR hfill x hx
  | report retransmit peerRetransmit senderRttUs reportInterval now =>
      simp only [step, Except.ok.injEq, Prod.mk.injEq] at hstep
      rw [← hstep.1, received_report, List.append_nil]
      intro x hx hmem
      have hold := mem_missing_of_buildPayload hmem
      exact hclean x hx hold

lemma clean_run {maxMessageBytes : ℕ} {events : List Event} {outs : List (Option Bytes)}
    (h : Tracks R peer) (hclean : Clean R peer) (hR : Valid (R ++ received events))
    (halong : Machine.Along (step lateMultiplier maxMessageBytes)
      (fun p ev => ¬ Refill p ev) peer events)
    (hrun : Machine.run (step lateMultiplier maxMessageBytes) peer events = .ok (peer', outs)) :
    Clean (R ++ received events) peer' := by
  induction events generalizing R peer outs with
  | nil =>
      obtain ⟨rfl, -⟩ := Prod.mk.inj (Except.ok.inj hrun)
      rwa [show received [] = [] from rfl, List.append_nil]
  | cons ev events ih =>
      obtain ⟨mid, o, outs', hstep, hrun', -⟩ := Machine.run_cons_ok.mp hrun
      rw [received_cons, ← List.append_assoc] at hR ⊢
      exact ih (tracks_step h hR.left hstep).1 (clean_step h hclean hR.left halong.1 hstep) hR
        (halong.2 mid o hstep) hrun'

/-- Only a report yields a payload, and it lists sequences that were missing before it. -/
lemma listedLost_step {maxMessageBytes : ℕ} {ev : Event} {payload : Bytes}
    (hstep : step lateMultiplier maxMessageBytes peer ev = .ok (peer', some payload)) :
    received [ev] = [] ∧ ∀ x ∈ listedLost payload, x ∈ peer.missingSeqs := by
  cases ev with
  | data a =>
      rw [step] at hstep
      split at hstep <;> exact absurd hstep (by simp)
  | report retransmit peerRetransmit senderRttUs reportInterval now =>
      simp only [step, Except.ok.injEq, Prod.mk.injEq, Option.some.injEq] at hstep
      refine ⟨rfl, fun x hx => ?_⟩
      rw [← hstep.2, listedLost_buildPayload] at hx
      have hscanned := mem_of_mem_scan_lost (List.mem_of_mem_take hx)
      exact hscanned

/-- A run keeps received sequences out of the missing map, and out of its reports, exactly if no
packet of it refills a gap at or above the cursor. -/
theorem received_never_missing_iff (lateMultiplier : Float) (maxMessageBytes : ℕ) (peer : Peer)
    (hpeer : Untouched peer) (events : List Event) (hvalid : Valid (received events))
    (hreturns : ∃ r, Machine.run (step lateMultiplier maxMessageBytes) peer events = .ok r) :
    NeverMissing lateMultiplier maxMessageBytes peer events ↔
      Machine.Along (step lateMultiplier maxMessageBytes) (fun p ev => ¬ Refill p ev) peer
        events := by
  constructor
  · intro hnever
    rw [Machine.along_iff]
    rintro before ev after rfl mid outs hrun hfill
    obtain ⟨⟨peer', outs'⟩, hreturns⟩ := hreturns
    obtain ⟨mid', outs₁, outs₂, hrun₁, hrun₂, -⟩ := Machine.run_append_ok.mp hreturns
    obtain ⟨rfl, -⟩ := Prod.mk.inj (Except.ok.inj (hrun.symm.trans hrun₁))
    obtain ⟨t, o, outs₃, hstep, -, -⟩ := Machine.run_cons_ok.mp hrun₂
    cases ev with
    | report => exact hfill
    | data a =>
        have hlast : a.header.sequence ∈ received (before ++ [.data a]) := by
          rw [received_data]
          exact List.mem_append_right _ List.mem_cons_self
        have hne : a.header.sequence ≠ 0 := by
          refine (hvalid _ ?_).1
          rw [received_append, received_cons]
          exact List.mem_append_right _ List.mem_cons_self
        refine (hnever (before ++ [.data a]) after (by simp) t (outs ++ [o])
          (Machine.run_concat_ok.mpr ⟨mid, outs, o, hrun, hstep, rfl⟩)).1 _ hlast ?_
        rw [missing_of_tracking (step_data_tracking hstep)]
        exact mem_missing_of_refill a.clock.now hne hfill.1 hfill.2.1 hfill.2.2
  · rintro halong before after rfl mid outs hrun
    rw [received_append] at hvalid
    have hnil : Clean [] peer := fun x hx => absurd hx List.not_mem_nil
    refine ⟨clean_run hpeer.tracks hnil hvalid.left halong.left hrun, fun payload hlast => ?_⟩
    rcases List.eq_nil_or_concat' before with rfl | ⟨init, ev, rfl⟩
    · exact fun x hx => absurd hx List.not_mem_nil
    · obtain ⟨prev, outs₁, o, hrun₁, hstep, rfl⟩ := Machine.run_concat_ok.mp hrun
      rw [List.getLast?_concat, Option.some.injEq] at hlast
      rw [hlast] at hstep
      obtain ⟨hnone, hlisted⟩ := listedLost_step hstep
      intro x hx hmem
      rw [received_append, hnone, List.append_nil] at hx
      rw [received_append] at hvalid
      exact clean_run hpeer.tracks hnil hvalid.left.left halong.left.left hrun₁ x hx
        (hlisted x hmem)

/-- Gaps that are refilled behind the cursor only. -/
theorem received_never_missing_behind :
    NeverMissing 4.0 65536 {} [numbered 1 0, numbered 3 0, .report true true 0 100 200000000,
      numbered 2 300000000, .report true true 0 100 600000000] :=
  (received_never_missing_iff 4.0 65536 {} ⟨rfl, rfl, rfl⟩ _ (by decide) ⟨_, rfl⟩).mpr
    (by decide)

/-- The sequences 1, 4 and 2: the last one fills a gap at the cursor and is reported as lost. -/
theorem received_reported_missing :
    ¬ ∀ events, Valid (received events) → NeverMissing 4.0 65536 {} events := by
  intro h
  obtain ⟨-, hlisted⟩ := h
    [numbered 1 0, numbered 4 0, numbered 2 0, .report true true 0 100 200000000] (by decide)
    _ [] (List.append_nil _).symm _ _ rfl
  exact hlisted _ rfl 2 (by decide) (by decide)

end Tracking
end Damen
