import Damen.Framework.OrderedMap
import Damen.Framework.Run
import Damen.Model.Reassembler
import Damen.Properties.Assembly
import Damen.Properties.ReportScan

/-!
# The receive cursor and the missing sequences

A receiver reads two kinds of events: calls of `handle_data` and calls of `build_payload`.  The
cursor `m_next_expected_seq`, the set `m_recv_seqs` and the map `m_missing_seqs` are written by
both.

`Tracks R` is the invariant behind everything here, `R` being the sequences received so far: the
cursor is not in `R`, the set is the part of `R` behind the cursor, and missing sequences leave
room for the cursor to move on.  `tracks_trackSequence` and `tracks_skipGap` show it for the two
ways the cursor moves, and `cursor_exact` is what a whole run keeps.
-/

namespace Damen
namespace Tracking

open Reassembler Report
open Std (ExtTreeMap ExtTreeSet)

/-! ## The walk of the cursor -/

variable {next : UInt32} {R : List UInt32} {peer peer' : Peer}
  {missing : ExtTreeMap UInt32 TimePoint} {o : Option Bytes} {lateMultiplier : Float}
  {s : Peer × List UInt32} {outs : List (Option Bytes)}

/-- Successive sequences, as long as none of them is `0`. -/
lemma toNat_iterate {k : ℕ} (h : ∀ i < k, i ≠ 0 → (· + 1)^[i] next ≠ 0) :
    ∀ i ≤ k, (i < k ∨ i = 0 → ((· + 1)^[i] next).toNat = next.toNat + i) ∧
      (· + 1)^[i] next = UInt32.ofNat (next.toNat + i) ∧ (i ≤ k → next.toNat + i ≤ 2 ^ 32) := by
  intro i
  induction i with
  | zero =>
      intro _
      refine ⟨fun _ => rfl, ?_, fun _ => next.toNat_lt.le⟩
      rw [Nat.add_zero, UInt32.ofNat_toNat]
      rfl
  | succ i ih =>
      intro hi
      obtain ⟨hnat, -, -⟩ := ih (by omega)
      have hprev := hnat (Or.inl (by omega))
      have hlt : next.toNat + i < 2 ^ 32 := hprev ▸ UInt32.toNat_lt _
      have hval : ((· + 1)^[i + 1] next).toNat = (next.toNat + (i + 1)) % 2 ^ 32 := by
        rw [Function.iterate_succ_apply', UInt32.toNat_add, hprev]
        rfl
      refine ⟨fun hk => ?_, ?_, fun _ => by omega⟩
      · have hne : ((· + 1)^[i + 1] next).toNat ≠ 0 := fun h0 =>
          h (i + 1) (by omega) (by omega) (UInt32.toNat_inj.mp h0)
        rw [hval] at hne ⊢
        omega
      · apply UInt32.toNat_inj.mp
        rw [hval, UInt32.toNat_ofNat']

/-- The cursor walks over what was received and stops at the first sequence that was not; it
stops at `0` at the latest, when it wraps. -/
lemma advance_walk {recv : ExtTreeSet UInt32} (next : UInt32)
    (h0 : (0 : UInt32) ∉ recv) :
    ∃ stop : ℕ, next.toNat ≤ stop ∧ stop ≤ 2 ^ 32 ∧
      (advance recv next).2 = UInt32.ofNat stop ∧ (advance recv next).2 ∉ recv ∧
      (∀ x : UInt32, next.toNat ≤ x.toNat → x.toNat < stop → x ∈ recv) ∧
      ∀ x : UInt32, x ∈ (advance recv next).1 ↔
        x ∈ recv ∧ ¬ (next.toNat ≤ x.toNat ∧ x.toNat < stop) := by
  obtain ⟨k, hcur, hpassed, hstop, hmem⟩ :=
    Drain.drain_spec (· + 1) recv.size recv next le_rfl
  have hiter := toNat_iterate fun i hi _ h => h0 (h ▸ hpassed i hi)
  have hle : next.toNat + k ≤ 2 ^ 32 := (hiter k le_rfl).2.2 le_rfl
  -- A sequence was passed exactly if it lies between the old and the new cursor.
  have hrange : ∀ x : UInt32, next.toNat ≤ x.toNat → x.toNat < next.toNat + k →
      ∃ i < k, x = (· + 1)^[i] next := by
    intro x hx hx'
    refine ⟨x.toNat - next.toNat, by omega, UInt32.toNat_inj.mp ?_⟩
    rw [(hiter _ (by omega)).1 (Or.inl (by omega))]
    omega
  have hwalked : ∀ x : UInt32, x ∈ (advance recv next).1 ↔
      x ∈ recv ∧ ¬ (next.toNat ≤ x.toNat ∧ x.toNat < next.toNat + k) := by
    intro x
    rw [advance, hmem]
    refine and_congr_right fun _ => ⟨fun hne hrng => ?_, fun hrng i hi heq => hrng ?_⟩
    · obtain ⟨i, hi, heq⟩ := hrange x hrng.1 hrng.2
      exact hne i hi heq
    · rw [heq, (hiter i hi.le).1 (Or.inl hi)]
      omega
  have hcur' : (advance recv next).2 = UInt32.ofNat (next.toNat + k) :=
    hcur.trans (hiter k le_rfl).2.1
  have hstop' : (advance recv next).2 ∉ (advance recv next).1 := hstop
  refine ⟨next.toNat + k, by omega, hle, hcur', fun hin => ?_, ?_, hwalked⟩
  · by_cases hlt : next.toNat + k < 2 ^ 32
    · refine hstop' ((hwalked _).mpr ⟨hin, fun hrng => ?_⟩)
      rw [hcur', UInt32.toNat_ofNat_of_lt' hlt] at hrng
      omega
    · have hzero : (advance recv next).2 = 0 := by
        rw [hcur', show next.toNat + k = 2 ^ 32 by omega]
        rfl
      exact h0 (hzero ▸ hin)
  · intro x hx hx'
    obtain ⟨i, hi, rfl⟩ := hrange x hx hx'
    exact hpassed i hi

lemma mem_of_mem_advance {recv : ExtTreeSet UInt32} {x : UInt32} (h : x ∈ (advance recv next).1) :
    x ∈ recv := by
  obtain ⟨k, -, -, -, hmem⟩ := Drain.drain_spec (· + 1) recv.size recv next le_rfl
  exact ((hmem x).mp h).1

/-- The cursor moves past a sequence that arrives at it. -/
lemma notMem_advance_insert (recv : ExtTreeSet UInt32) (next : UInt32) :
    next ∉ (advance (recv.insert next) next).1 := by
  obtain ⟨k, hcur, -, hstop, hmem⟩ :=
    Drain.drain_spec (· + 1) (recv.insert next).size (recv.insert next) next le_rfl
  intro hnext
  rcases Nat.eq_zero_or_pos k with rfl | hk
  · rw [hcur] at hstop
    exact hstop hnext
  · exact ((hmem next).mp hnext).2 0 hk rfl

/-! ## Events -/

inductive Event
  | data (a : Arrival)
  /-- A report, under the settings in force at that time. -/
  | report (retransmit peerRetransmit : Bool) (senderRttUs : UInt32) (reportInterval : Int)
      (now : TimePoint)

/-- One event; a report also yields its payload. -/
def step (lateMultiplier : Float) (maxMessageBytes : ℕ) (peer : Peer) :
    Event → Except Fault (Peer × Option Bytes)
  | .data a =>
      match receive lateMultiplier maxMessageBytes peer a with
      | .error e => .error e
      | .ok (peer, _) => .ok (peer, none)
  | .report retransmit peerRetransmit senderRttUs reportInterval now =>
      let (peer, payload) :=
        buildPayload { peer with retransmit, peerRetransmit, senderRttUs } reportInterval now
      .ok (peer, some payload)

/-- The sequences passed to `handle_data`, in order. -/
def received (events : List Event) : List UInt32 :=
  events.filterMap fun
    | .data a => some a.header.sequence
    | .report .. => none

/-- Sequences are not zero and below `2 ^ 32 - 1`. -/
def Valid (R : List UInt32) : Prop := ∀ seq ∈ R, seq ≠ 0 ∧ seq.toNat < 2 ^ 32 - 1

instance (R : List UInt32) : Decidable (Valid R) :=
  List.decidableBAll _ R

variable {events : List Event}

lemma received_data (events : List Event) (a : Arrival) :
    received (events ++ [.data a]) = received events ++ [a.header.sequence] := by
  simp [received]

lemma received_report (retransmit peerRetransmit : Bool) (senderRttUs : UInt32)
    (reportInterval : Int) (now : TimePoint) :
    received [.report retransmit peerRetransmit senderRttUs reportInterval now] = [] := rfl

lemma Valid.left {R' : List UInt32} (h : Valid (R ++ R')) : Valid R :=
  fun seq hseq => h seq (List.mem_append_left _ hseq)

/-! ## The invariant -/

/-- The fields of the gap tracking. -/
def tracking (peer : Peer) :
    Bool × UInt32 × ExtTreeSet UInt32 × ExtTreeMap UInt32 TimePoint :=
  (peer.seqInitialized, peer.nextExpectedSeq, peer.recvSeqs, peer.missingSeqs)

lemma missing_of_tracking (h : tracking peer' = tracking peer) :
    peer'.missingSeqs = peer.missingSeqs := congrArg (·.2.2.2) h

/-- The gap tracking reflects the received sequences `R`. -/
structure Tracks (R : List UInt32) (peer : Peer) : Prop where
  /-- Behind a missing sequence another one was received. -/
  missing_lt : ∀ k ∈ peer.missingSeqs, k.toNat + 2 < 2 ^ 32
  next_notMem : peer.seqInitialized = true → peer.nextExpectedSeq ∉ R
  recv_iff : peer.seqInitialized = true → ∀ x, x ∈ peer.recvSeqs ↔
    x ∈ R ∧ peer.nextExpectedSeq.toNat < x.toNat
  fresh : peer.seqInitialized = false → R = [] ∧ (∀ x, x ∉ peer.recvSeqs) ∧
    ∀ k, k ∉ peer.missingSeqs

/-- Once initialised the cursor stays so and does not move back. -/
def Advances (peer peer' : Peer) : Prop :=
  peer.seqInitialized = true → peer'.seqInitialized = true ∧
    peer.nextExpectedSeq.toNat ≤ peer'.nextExpectedSeq.toNat

lemma Advances.refl (peer : Peer) : Advances peer peer := fun h => ⟨h, le_rfl⟩

lemma Advances.trans {p q r : Peer} (h : Advances p q) (h' : Advances q r) : Advances p r :=
  fun hp => ⟨(h' (h hp).1).1, (h hp).2.trans (h' (h hp).1).2⟩

lemma Tracks.congr (h : Tracks R peer) (heq : tracking peer' = tracking peer) : Tracks R peer' := by
  simp only [tracking, Prod.mk.injEq] at heq
  obtain ⟨hinit, hnext, hrecv, hmissing⟩ := heq
  exact ⟨by rw [hmissing]; exact h.missing_lt, by rw [hinit, hnext]; exact h.next_notMem,
    by rw [hinit, hnext, hrecv]; exact h.recv_iff,
    by rw [hinit, hrecv, hmissing]; exact h.fresh⟩

lemma Advances.congr (heq : tracking peer' = tracking peer) : Advances peer peer' := by
  simp only [tracking, Prod.mk.injEq] at heq
  obtain ⟨hinit, hnext, -, -⟩ := heq
  intro h
  rw [hinit, hnext]
  exact ⟨h, le_rfl⟩

lemma Tracks.zero_notMem (h : Tracks R peer) (hR : Valid R) : 0 ∉ peer.recvSeqs := by
  intro hmem
  cases hinit : peer.seqInitialized with
  | true => exact (hR 0 ((h.recv_iff hinit 0).mp hmem).1).1 rfl
  | false => exact (h.fresh hinit).2.1 0 hmem

/-- The cursor after a walk that starts at or below what was received.  `R` are the sequences
received by then, and `recv` holds those of them from `next` on. -/
lemma walk_exact {recv : ExtTreeSet UInt32} (hR : Valid R)
    (hrecv : ∀ x, x ∈ recv ↔ x ∈ R ∧ next.toNat ≤ x.toNat) :
    next.toNat ≤ (advance recv next).2.toNat ∧ (advance recv next).2 ∉ R ∧
      ∀ x, x ∈ (advance recv next).1 ↔ x ∈ R ∧ (advance recv next).2.toNat < x.toNat := by
  have h0 : (0 : UInt32) ∉ recv := fun h => (hR 0 ((hrecv 0).mp h).1).1 rfl
  obtain ⟨stop, hle, hmax, hcur, hout, hpassed, hmem⟩ := advance_walk next h0
  have hlt : stop < 2 ^ 32 := by
    by_contra hnot
    by_cases heq : next.toNat = stop
    · have := next.toNat_lt
      omega
    · -- The last sequence passed would be the largest 32-bit number.
      have hnat : (UInt32.ofNat (2 ^ 32 - 1)).toNat = 2 ^ 32 - 1 := rfl
      have hlast := hpassed (UInt32.ofNat (2 ^ 32 - 1)) (by omega) (by omega)
      have hbound := (hR _ ((hrecv _).mp hlast).1).2
      omega
  have hnat : (advance recv next).2.toNat = stop := by
    rw [hcur, UInt32.toNat_ofNat_of_lt' hlt]
  have hnotR : (advance recv next).2 ∉ R := fun h =>
    hout ((hrecv _).mpr ⟨h, by rw [hnat]; exact hle⟩)
  refine ⟨by rw [hnat]; exact hle, hnotR, fun x => ?_⟩
  rw [hmem, hrecv, hnat]
  constructor
  · rintro ⟨⟨hxR, hx⟩, hrng⟩
    refine ⟨hxR, ?_⟩
    rcases Nat.lt_or_ge stop x.toNat with hlt' | hge
    · exact hlt'
    · have heq : x.toNat = stop := by omega
      exact absurd hxR (UInt32.toNat_inj.mp (hnat.trans heq.symm) ▸ hnotR)
  · rintro ⟨hxR, hx⟩
    exact ⟨⟨hxR, by omega⟩, by omega⟩

/-! ## A received sequence -/

lemma mem_noteGaps {recv : ExtTreeSet UInt32} {seq k : UInt32} {now : TimePoint} :
    k ∈ noteGaps missing recv next seq now ↔
      k ∈ missing ∨ (next.toNat ≤ k.toNat ∧ k.toNat < seq.toNat ∧ k ∉ recv) := by
  have hfold : ∀ (l : List ℕ) (m : ExtTreeMap UInt32 TimePoint),
      k ∈ l.foldl (fun m g => if UInt32.ofNat g ∈ recv then m
        else m.insertIfNew (UInt32.ofNat g) now) m ↔
        k ∈ m ∨ ∃ g ∈ l, UInt32.ofNat g = k ∧ k ∉ recv := by
    intro l
    induction l with
    | nil => exact fun m => ⟨Or.inl, fun h => h.resolve_right (by simp)⟩
    | cons g l ih =>
        intro m
        rw [List.foldl_cons, ih]
        by_cases hg : UInt32.ofNat g ∈ recv
        · rw [if_pos hg]
          refine or_congr_right ⟨fun ⟨j, hj, h⟩ => ⟨j, List.mem_cons_of_mem g hj, h⟩, ?_⟩
          rintro ⟨j, hj, rfl, hout⟩
          rcases List.mem_cons.mp hj with rfl | hj
          · exact absurd hg hout
          · exact ⟨j, hj, rfl, hout⟩
        · rw [if_neg hg, ExtTreeMap.mem_insertIfNew, Std.LawfulEqCmp.compare_eq_iff_eq]
          constructor
          · rintro ((rfl | hk) | ⟨j, hj, h⟩)
            · exact Or.inr ⟨g, List.mem_cons_self, rfl, hg⟩
            · exact Or.inl hk
            · exact Or.inr ⟨j, List.mem_cons_of_mem g hj, h⟩
          · rintro (hk | ⟨j, hj, rfl, hout⟩)
            · exact Or.inl (Or.inr hk)
            · rcases List.mem_cons.mp hj with rfl | hj
              · exact Or.inl (Or.inl rfl)
              · exact Or.inr ⟨j, hj, rfl, hout⟩
  unfold noteGaps
  rw [hfold]
  have hseq := seq.toNat_lt
  refine or_congr_right ⟨?_, ?_⟩
  · rintro ⟨g, hg, rfl, hout⟩
    obtain ⟨hge, hlt⟩ := List.mem_range'_1.mp hg
    rw [UInt32.toNat_ofNat_of_lt' (show g < 2 ^ 32 by omega)]
    exact ⟨hge, by omega, hout⟩
  · rintro ⟨hge, hlt, hout⟩
    exact ⟨k.toNat, List.mem_range'_1.mpr ⟨hge, by omega⟩, UInt32.ofNat_toNat, hout⟩

/-- What receiving a sequence does to the tracking. -/
lemma tracks_trackSequence {seq : UInt32} (now : TimePoint) (h : Tracks R peer)
    (hR : Valid (R ++ [seq])) :
    Tracks (R ++ [seq]) (trackSequence peer seq now) ∧
      Advances peer (trackSequence peer seq now) := by
  obtain ⟨hne, hlt⟩ := hR seq (List.mem_append_right _ List.mem_cons_self)
  unfold trackSequence
  rw [if_neg hne]
  cases hinit : peer.seqInitialized with
  | false =>
      obtain ⟨rfl, hrecv, hmissing⟩ := h.fresh hinit
      simp only [Bool.false_eq_true, not_false_eq_true, if_true, List.nil_append]
      have hsucc := Drain.toNat_succ hlt
      refine ⟨⟨fun k hk => absurd hk (hmissing k), fun _ hmem => ?_, fun _ x => ?_,
        fun hf => absurd hf (by simp)⟩, fun hf => absurd hf (by rw [hinit]; simp)⟩
      · have heq := congrArg UInt32.toNat (List.mem_singleton.mp hmem)
        rw [hsucc] at heq
        omega
      · refine ⟨fun hx => absurd hx (hrecv x), fun ⟨hx, hgt⟩ => ?_⟩
        rw [List.mem_singleton.mp hx, hsucc] at hgt
        omega
  | true =>
      simp only [not_true, if_false]
      have hnext := h.next_notMem hinit
      have hrecv := h.recv_iff hinit
      split
      · next hge =>
        have hge : peer.nextExpectedSeq.toNat ≤ seq.toNat := hge
        have hins : ∀ x, x ∈ peer.recvSeqs.insert seq ↔
            x ∈ R ++ [seq] ∧ peer.nextExpectedSeq.toNat ≤ x.toNat := by
          intro x
          rw [ExtTreeSet.mem_insert, Std.LawfulEqCmp.compare_eq_iff_eq, hrecv, List.mem_append,
            List.mem_singleton]
          constructor
          · rintro (rfl | ⟨hx, hgt⟩)
            · exact ⟨Or.inr rfl, hge⟩
            · exact ⟨Or.inl hx, hgt.le⟩
          · rintro ⟨hx | rfl, hle⟩
            · refine Or.inr ⟨hx, lt_of_le_of_ne hle fun heq => ?_⟩
              exact hnext (UInt32.toNat_inj.mp heq ▸ hx)
            · exact Or.inl rfl
        obtain ⟨hmono, hout, hmem⟩ := walk_exact hR hins
        refine ⟨⟨fun k hk => ?_, fun _ => hout, fun _ => hmem, fun hf =>
          absurd hf (by simp)⟩, fun _ => ⟨rfl, hmono⟩⟩
        rcases mem_noteGaps.mp hk with hk | ⟨-, hk, -⟩
        · exact h.missing_lt k hk
        · omega
      · next hlt' =>
        have hlow : seq.toNat < peer.nextExpectedSeq.toNat :=
          UInt32.lt_iff_toNat_lt.mp (UInt32.not_le.mp hlt')
        have hset : ∀ x, x ∈ peer.recvSeqs ↔
            x ∈ R ++ [seq] ∧ peer.nextExpectedSeq.toNat ≤ x.toNat := by
          intro x
          rw [hrecv, List.mem_append, List.mem_singleton]
          constructor
          · exact fun ⟨hx, hgt⟩ => ⟨Or.inl hx, hgt.le⟩
          · rintro ⟨hx | rfl, hle⟩
            · refine ⟨hx, lt_of_le_of_ne hle fun heq => ?_⟩
              exact hnext (UInt32.toNat_inj.mp heq ▸ hx)
            · omega
        obtain ⟨hmono, hout, hmem⟩ := walk_exact hR hset
        exact ⟨⟨fun k hk => h.missing_lt k (ExtTreeMap.mem_erase.mp hk).2, fun _ => hout,
          fun _ => hmem, fun hf => absurd hf (by simp)⟩,
          fun _ => ⟨rfl, hmono⟩⟩

lemma collect_tracking {header : PacketHeader} {payload : Bytes} {maxMessageBytes : ℕ}
    {now : TimePoint} (h : collect peer header payload maxMessageBytes now = .ok (peer', o)) :
    tracking peer' = tracking peer := by
  rw [collect_frame h]
  rfl

lemma accountTransit_tracking (peer : Peer) (transitUs : Int) (rttUs : UInt32)
    (lateMultiplier : Float) :
    tracking (accountTransit peer transitUs rttUs lateMultiplier) = tracking peer := by
  rw [accountTransit_frame]
  rfl

lemma trackSequence_congr (heq : tracking peer' = tracking peer) (seq : UInt32) (now : TimePoint) :
    tracking (trackSequence peer' seq now) = tracking (trackSequence peer seq now) := by
  simp only [tracking, Prod.mk.injEq] at heq
  obtain ⟨hinit, hnext, hrecv, hmissing⟩ := heq
  unfold trackSequence
  rw [hinit, hnext, hrecv, hmissing]
  split_ifs <;> simp only [tracking, hinit, hnext, hrecv, hmissing]

/-- The late-packet accounting in front of the gap tracking does not show in it. -/
lemma bookkeep_tracking (lateMultiplier : Float) (peer : Peer) (a : Arrival) :
    tracking (bookkeep lateMultiplier peer a) =
      tracking (trackSequence peer a.header.sequence a.clock.now) :=
  trackSequence_congr (accountTransit_tracking _ _ _ _) _ _

/-- What a call of `handle_data` does to the gap tracking. -/
lemma receive_tracking {maxMessageBytes : ℕ} {a : Arrival}
    (h : receive lateMultiplier maxMessageBytes peer a = .ok (peer', o)) :
    tracking peer' = tracking (trackSequence peer a.header.sequence a.clock.now) := by
  rw [receive_eq] at h
  exact (collect_tracking h).trans (bookkeep_tracking lateMultiplier peer a)

/-! ## A report -/

/-- Skipping a gap at the cursor. -/
lemma tracks_skipGap {g : UInt32} (h : Tracks R peer) (hR : Valid R) (hg : g.toNat + 2 < 2 ^ 32) :
    Tracks R (skipGap peer g) ∧ Advances peer (skipGap peer g) := by
  unfold skipGap
  split
  · next hcond =>
    obtain ⟨hinit, rfl⟩ := hcond
    have hnext := h.next_notMem hinit
    have hsucc := Drain.toNat_succ (show peer.nextExpectedSeq.toNat < 2 ^ 32 - 1 by omega)
    have hset : ∀ x, x ∈ peer.recvSeqs ↔
        x ∈ R ∧ (peer.nextExpectedSeq + 1).toNat ≤ x.toNat := by
      intro x
      rw [h.recv_iff hinit, hsucc]
      rfl
    obtain ⟨hmono, hout, hmem⟩ := walk_exact hR hset
    refine ⟨⟨h.missing_lt, fun _ => hout, fun _ => hmem, fun hf => ?_⟩,
      fun _ => ⟨hinit, ?_⟩⟩
    · exact absurd (hinit.symm.trans hf) (by simp)
    · exact le_trans (by omega) hmono
  · exact ⟨h, Advances.refl peer⟩

/-- Removing missing sequences keeps the invariant. -/
lemma Tracks.shrink (h : Tracks R peer) (hsub : ∀ k ∈ missing, k ∈ peer.missingSeqs) :
    Tracks R { peer with missingSeqs := missing } :=
  ⟨fun k hk => h.missing_lt k (hsub k hk), h.next_notMem, h.recv_iff, fun hf =>
    ⟨(h.fresh hf).1, (h.fresh hf).2.1, fun k hk => (h.fresh hf).2.2 k (hsub k hk)⟩⟩

lemma tracks_foldl_scanEntry (reportInterval : Int) (now : TimePoint) (hR : Valid R)
    (l : List (UInt32 × TimePoint)) (hl : ∀ e ∈ l, e.1.toNat + 2 < 2 ^ 32) (h : Tracks R s.1) :
    Tracks R (l.foldl (scanEntry reportInterval now) s).1 ∧
      Advances s.1 (l.foldl (scanEntry reportInterval now) s).1 := by
  refine foldl_scanEntry_keeps (I := fun p => Tracks R p ∧ Advances s.1 p) ?_ ?_ reportInterval now
    ⟨h, Advances.refl s.1⟩
  · rintro e he p ⟨htracks, hadv⟩
    obtain ⟨hskip, hadv'⟩ := tracks_skipGap htracks hR (hl e he)
    exact ⟨hskip, hadv.trans hadv'⟩
  · rintro p k ⟨htracks, hadv⟩
    exact ⟨htracks.shrink fun k' hk' => (ExtTreeMap.mem_erase.mp hk').2, hadv⟩

lemma tracks_buildPayload (reportInterval : Int) (now : TimePoint) (h : Tracks R peer)
    (hR : Valid R) :
    Tracks R (buildPayload peer reportInterval now).1 ∧
      Advances peer (buildPayload peer reportInterval now).1 := by
  have hkeys : ∀ e ∈ peer.missingSeqs.toList, e.1.toNat + 2 < 2 ^ 32 := fun e he =>
    h.missing_lt e.1 (OrderedMap.mem_of_mem_toList he)
  obtain ⟨hscan, hadv⟩ := tracks_foldl_scanEntry reportInterval now hR _ hkeys
    (s := (peer, [])) h
  obtain ⟨hnext, hrecv, hinit, hmissing⟩ := buildPayload_tracking peer reportInterval now
  refine ⟨(hscan.shrink fun k hk => capMissing_subset _ k hk).congr ?_, fun hi => ?_⟩
  · simp only [tracking, hnext, hrecv, hinit, hmissing]
    rfl
  · rw [hnext, hinit]
    exact hadv hi

lemma skipGap_recv_subset {g x : UInt32} (h : x ∈ (skipGap peer g).recvSeqs) :
    x ∈ peer.recvSeqs := by
  unfold skipGap at h
  split at h
  · exact mem_of_mem_advance h
  · exact h

lemma foldl_scanEntry_recv_subset (reportInterval : Int) (now : TimePoint)
    (l : List (UInt32 × TimePoint)) {x : UInt32}
    (h : x ∈ (l.foldl (scanEntry reportInterval now) s).1.recvSeqs) : x ∈ s.1.recvSeqs :=
  foldl_scanEntry_keeps (I := fun p => ∀ x ∈ p.recvSeqs, x ∈ s.1.recvSeqs)
    (fun _ _ _ hp x hx => hp x (skipGap_recv_subset hx)) (fun _ _ hp => hp) reportInterval now
    (fun _ hx => hx) x h

/-! ## Whole runs -/

lemma step_data_tracking {maxMessageBytes : ℕ} {a : Arrival}
    (h : step lateMultiplier maxMessageBytes peer (.data a) = .ok (peer', o)) :
    tracking peer' = tracking (trackSequence peer a.header.sequence a.clock.now) := by
  rw [step] at h
  split at h
  · exact absurd h (by simp)
  · next p o' hreceive =>
    obtain ⟨rfl, -⟩ := Prod.mk.inj (Except.ok.inj h)
    exact receive_tracking hreceive

lemma tracks_step {maxMessageBytes : ℕ} {ev : Event} (h : Tracks R peer)
    (hR : Valid (R ++ received [ev]))
    (hstep : step lateMultiplier maxMessageBytes peer ev = .ok (peer', o)) :
    Tracks (R ++ received [ev]) peer' ∧ Advances peer peer' := by
  cases ev with
  | data a =>
      have heq := step_data_tracking hstep
      obtain ⟨htracks, hadv⟩ := tracks_trackSequence a.clock.now h hR
      exact ⟨htracks.congr heq, hadv.trans (Advances.congr heq)⟩
  | report retransmit peerRetransmit senderRttUs reportInterval now =>
      simp only [step, Except.ok.injEq, Prod.mk.injEq] at hstep
      rw [← hstep.1]
      rw [received_report, List.append_nil] at hR ⊢
      have hset : tracking { peer with retransmit, peerRetransmit, senderRttUs } =
        tracking peer := rfl
      obtain ⟨htracks, hadv⟩ := tracks_buildPayload reportInterval now (h.congr hset) hR
      exact ⟨htracks, (Advances.congr hset).trans hadv⟩

lemma received_append (events events' : List Event) :
    received (events ++ events') = received events ++ received events' :=
  List.filterMap_append

lemma received_cons (ev : Event) (events : List Event) :
    received (ev :: events) = received [ev] ++ received events :=
  received_append [ev] events

/-- The invariant and the direction of the cursor over a run. -/
lemma tracks_run {maxMessageBytes : ℕ} (h : Tracks R peer) (hR : Valid (R ++ received events))
    (hrun : Machine.run (step lateMultiplier maxMessageBytes) peer events = .ok (peer', outs)) :
    Tracks (R ++ received events) peer' ∧ Advances peer peer' := by
  induction events generalizing R peer outs with
  | nil =>
      obtain ⟨rfl, -⟩ := Prod.mk.inj (Except.ok.inj hrun)
      rw [show received [] = [] from rfl, List.append_nil]
      exact ⟨h, Advances.refl peer⟩
  | cons ev events ih =>
      obtain ⟨mid, o, outs', hstep, hrun', -⟩ := Machine.run_cons_ok.mp hrun
      rw [received_cons, ← List.append_assoc] at hR ⊢
      obtain ⟨hmid, hadv⟩ := tracks_step h hR.left hstep
      obtain ⟨hend, hadv'⟩ := ih hmid hR hrun'
      exact ⟨hend, hadv.trans hadv'⟩

/-- A peer before its first numbered packet. -/
structure Untouched (peer : Peer) : Prop where
  seqInitialized : peer.seqInitialized = false
  recvSeqs : peer.recvSeqs = ∅
  missingSeqs : peer.missingSeqs = ∅

lemma Untouched.tracks (h : Untouched peer) : Tracks [] peer :=
  ⟨fun k hk => absurd (h.missingSeqs ▸ hk) ExtTreeMap.not_mem_empty,
    fun hi => absurd (h.seqInitialized.symm.trans hi) (by simp),
    fun hi => absurd (h.seqInitialized.symm.trans hi) (by simp),
    fun _ => ⟨rfl, fun x hx => absurd (h.recvSeqs ▸ hx) ExtTreeSet.not_mem_empty,
      fun k hk => absurd (h.missingSeqs ▸ hk) ExtTreeMap.not_mem_empty⟩⟩

/-- In every state a run of data packets and reports reaches, the cursor has not been received, the
received set is what arrived behind it, and the cursor never moved back. -/
theorem cursor_exact (lateMultiplier : Float) (maxMessageBytes : ℕ) (peer : Peer)
    (hpeer : Untouched peer) (events : List Event) (hvalid : Valid (received events))
    (peer' : Peer) (outs : List (Option Bytes))
    (hrun : Machine.run (step lateMultiplier maxMessageBytes) peer events = .ok (peer', outs))
    (hinit : peer'.seqInitialized = true) :
    peer'.nextExpectedSeq ∉ received events ∧
      (∀ x, x ∈ peer'.recvSeqs ↔ x ∈ received events ∧ peer'.nextExpectedSeq < x) ∧
      ∀ before after mid outs', events = before ++ after →
        Machine.run (step lateMultiplier maxMessageBytes) peer before = .ok (mid, outs') →
        mid.seqInitialized = true → mid.nextExpectedSeq ≤ peer'.nextExpectedSeq := by
  obtain ⟨htracks, -⟩ := tracks_run hpeer.tracks hvalid hrun
  refine ⟨htracks.next_notMem hinit, htracks.recv_iff hinit, ?_⟩
  rintro before after mid outs' rfl hbefore hmid
  obtain ⟨mid', outs₁, outs₂, hrun₁, hrun₂, -⟩ := Machine.run_append_ok.mp hrun
  obtain ⟨rfl, -⟩ := Prod.mk.inj (Except.ok.inj (hbefore.symm.trans hrun₁))
  rw [received_append] at hvalid
  obtain ⟨hmidTracks, -⟩ := tracks_run hpeer.tracks hvalid.left hbefore
  exact ((tracks_run hmidTracks hvalid hrun₂).2 hmid).2

lemma zero_notMem_trackSequence (seq : UInt32) (now : TimePoint)
    (h : (0 : UInt32) ∉ peer.recvSeqs) : (0 : UInt32) ∉ (trackSequence peer seq now).recvSeqs := by
  unfold trackSequence
  split_ifs with hzero hinit hge
  · exact h
  · intro hmem
    rcases ExtTreeSet.mem_insert.mp (mem_of_mem_advance hmem) with heq | hmem
    · exact hzero (Std.LawfulEqCmp.compare_eq_iff_eq.mp heq)
    · exact h hmem
  · exact fun hmem => h (mem_of_mem_advance hmem)
  · exact h

lemma zero_notMem_step {maxMessageBytes : ℕ} {ev : Event} (h : (0 : UInt32) ∉ peer.recvSeqs)
    (hstep : step lateMultiplier maxMessageBytes peer ev = .ok (peer', o)) :
    (0 : UInt32) ∉ peer'.recvSeqs := by
  cases ev with
  | data a =>
      have hrecv : peer'.recvSeqs =
          (trackSequence peer a.header.sequence a.clock.now).recvSeqs :=
        congrArg (·.2.2.1) (step_data_tracking hstep)
      rw [hrecv]
      exact zero_notMem_trackSequence a.header.sequence a.clock.now h
  | report retransmit peerRetransmit senderRttUs reportInterval now =>
      simp only [step, Except.ok.injEq, Prod.mk.injEq] at hstep
      rw [← hstep.1, (buildPayload_tracking _ reportInterval now).2.1]
      intro hmem
      have hold := foldl_scanEntry_recv_subset reportInterval now _ hmem
      exact h hold

/-- The sequence `0` stands for packets without a number and is never noted as received, whatever
arrives. -/
lemma zero_notMem_run {maxMessageBytes : ℕ} (h : (0 : UInt32) ∉ peer.recvSeqs)
    (hrun : Machine.run (step lateMultiplier maxMessageBytes) peer events = .ok (peer', outs)) :
    (0 : UInt32) ∉ peer'.recvSeqs := by
  induction events generalizing peer outs with
  | nil =>
      obtain ⟨rfl, -⟩ := Prod.mk.inj (Except.ok.inj hrun)
      exact h
  | cons ev events ih =>
      obtain ⟨mid, o, outs', hstep, hrun', -⟩ := Machine.run_cons_ok.mp hrun
      exact ih (zero_notMem_step h hstep) hrun'

/-- A packet with this sequence and no fragment. -/
def numbered (seq : UInt32) (now : TimePoint) : Event :=
  .data { header := { sequence := seq }, payload := [], clock := { now, unixMillis := 0 } }

/-- Packets out of order, one of them twice, and a report that skips the first gap. -/
def reordered : List Event :=
  [numbered 1 0, numbered 4 0, numbered 4 0, .report false true 0 100 1000000, numbered 7 0]

theorem cursor_exact_reordered :
    ∃ peer' outs, Machine.run (step 4.0 65536) {} reordered = .ok (peer', outs) ∧
      peer'.nextExpectedSeq ∉ received reordered ∧
      ∀ x, x ∈ peer'.recvSeqs ↔ x ∈ received reordered ∧ peer'.nextExpectedSeq < x := by
  refine ⟨_, _, rfl, ?_⟩
  have h := cursor_exact 4.0 65536 {} ⟨rfl, rfl, rfl⟩ reordered (by decide) _ _ rfl rfl
  exact ⟨h.1, h.2.1⟩

end Tracking
end Damen
