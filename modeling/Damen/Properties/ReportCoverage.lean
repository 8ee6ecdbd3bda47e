import Damen.Properties.SequenceTracking

/-!
# Which gaps a report acknowledges

A report acknowledges everything below the cursor, and the scan moves the cursor over every aged
gap it finds there.  The list in the payload is a different matter: its length is cut to 16 bits
and then to 256.

`scan_cursor` says where the scan leaves the cursor: at the first sequence that is neither aged nor
received.  `report_covers_iff` compares that with the list, for every receiver.
-/

namespace Damen
namespace Report

open Std (ExtTreeMap ExtTreeSet)
open Tracking

/-! ## Aged sequences as a sorted list -/

variable {peer : Peer} {reportInterval : Int} {k : UInt32} {done : List (UInt32 × TimePoint)}
  {e : UInt32 × TimePoint} {s : Peer × List UInt32}

lemma mem_agedSeqs {now : TimePoint} :
    k ∈ agedSeqs peer reportInterval now ↔
      ∃ e ∈ peer.missingSeqs.toList, e.1 = k ∧ Aged peer reportInterval now e.2 := by
  simp only [agedSeqs, List.mem_map, List.mem_filter, decide_eq_true_eq]
  constructor
  · rintro ⟨e, ⟨he, haged⟩, rfl⟩
    exact ⟨e, he, rfl, haged⟩
  · rintro ⟨e, he, rfl, haged⟩
    exact ⟨e, ⟨he, haged⟩, rfl⟩

lemma missing_sorted (peer : Peer) :
    peer.missingSeqs.toList.Pairwise fun a b => a.1.toNat < b.1.toNat :=
  ExtTreeMap.ordered_keys_toList.imp fun h => UInt32.lt_iff_toNat_lt.mp (Std.compare_eq_lt.mp h)

lemma agedSeqs_sorted (peer : Peer) (reportInterval : Int) (now : TimePoint) :
    (agedSeqs peer reportInterval now).Pairwise fun a b => a.toNat < b.toNat :=
  List.pairwise_map.mpr ((missing_sorted peer).filter _)

/-- In an increasing list the first `n` entries are those with fewer than `n` entries below. -/
lemma mem_take_iff {l : List UInt32} (hl : l.Pairwise fun a b => a.toNat < b.toNat) (n : ℕ)
    (k : UInt32) :
    k ∈ l.take n ↔ k ∈ l ∧ (l.filter fun j => j < k).length < n := by
  induction l generalizing n with
  | nil => simp
  | cons a l ih =>
      obtain ⟨ha, hl⟩ := List.pairwise_cons.mp hl
      cases n with
      | zero => simp
      | succ n =>
          rw [List.take_succ_cons, List.mem_cons, ih hl, List.mem_cons]
          by_cases hk : k = a
          · -- Nothing lies below the head of the list.
            have hnone : (a :: l).filter (fun j => j < k) = [] := by
              rw [List.filter_eq_nil_iff]
              intro j hj hlt
              have hlt := UInt32.lt_iff_toNat_lt.mp (of_decide_eq_true hlt)
              rcases List.mem_cons.mp hj with rfl | hj
              · exact absurd hlt (by rw [hk]; exact lt_irrefl _)
              · have := ha j hj
                rw [hk] at hlt
                omega
            rw [hnone]
            simp [hk]
          · constructor
            · rintro (h | ⟨hmem, hlen⟩)
              · exact absurd h hk
              · refine ⟨Or.inr hmem, ?_⟩
                rw [List.filter_cons]
                split
                · exact Nat.succ_lt_succ hlen
                · exact Nat.lt_succ_of_lt hlen
            · rintro ⟨h | hmem, hlen⟩
              · exact absurd h hk
              · have hlt : a < k := UInt32.lt_iff_toNat_lt.mpr (ha k hmem)
                rw [List.filter_cons_of_pos (by simpa using hlt), List.length_cons] at hlen
                exact Or.inr ⟨hmem, by omega⟩

/-! ## Where the scan leaves the cursor -/

/-- The walk of `skip_gap` from the sequence behind `g`. -/
lemma skip_walk {recv : ExtTreeSet UInt32} (h0 : (0 : UInt32) ∉ recv) (g : UInt32) :
    ∃ stop : ℕ, g.toNat < stop ∧ stop ≤ 2 ^ 32 ∧ (advance recv (g + 1)).2 = UInt32.ofNat stop ∧
      (∀ x : UInt32, g.toNat < x.toNat → x.toNat < stop → x ∈ recv) ∧
      (∀ x : UInt32, x ∈ (advance recv (g + 1)).1 ↔
        x ∈ recv ∧ ¬ (g.toNat < x.toNat ∧ x.toNat < stop)) ∧
      ∀ x : UInt32, x.toNat = stop → x ∉ recv := by
  obtain ⟨stop, hle, hmax, hcur, hout, hpassed, hmem⟩ := advance_walk (g + 1) h0
  have hsucc : (g + 1).toNat = (g.toNat + 1) % 2 ^ 32 := UInt32.toNat_add g 1
  have hg := g.toNat_lt
  by_cases hwrap : g.toNat + 1 = 2 ^ 32
  · -- The cursor wraps to 0, which was never received.
    have hzero : g + 1 = 0 := UInt32.toNat_inj.mp (by rw [hsucc, hwrap]; rfl)
    have hstop : stop = 0 := by
      by_contra hne
      exact h0 (hpassed 0 (by rw [hzero]) (by
        rw [UInt32.toNat_zero]
        omega))
    refine ⟨2 ^ 32, by omega, le_rfl, ?_, fun x hx => ?_, fun x => ?_, fun x hx => ?_⟩
    · rw [hcur, hstop]
      rfl
    · have := x.toNat_lt
      omega
    · have := x.toNat_lt
      rw [hmem, hstop]
      refine and_congr_right fun _ => ⟨fun _ => by omega, fun _ => by omega⟩
    · have := x.toNat_lt
      omega
  · rw [Nat.mod_eq_of_lt (by omega)] at hsucc
    rw [hsucc] at hle hpassed hmem
    refine ⟨stop, by omega, hmax, hcur, fun x hx => hpassed x (by omega), fun x => hmem x,
      fun x hx => ?_⟩
    have heq : x = (advance recv (g + 1)).2 := by
      rw [hcur, ← hx, UInt32.ofNat_toNat]
    exact heq ▸ hout

/-- The state of the scan behind the entries `done`: the cursor is at `p`, counted without the
wrap. -/
structure CursorAt (peer : Peer) (reportInterval : Int) (now : TimePoint)
    (done : List (UInt32 × TimePoint)) (q : Peer) (p : ℕ) : Prop where
  ge : peer.nextExpectedSeq.toNat ≤ p
  le : p ≤ 2 ^ 32
  next_eq : q.nextExpectedSeq = UInt32.ofNat p
  passed : ∀ v : UInt32, peer.nextExpectedSeq.toNat ≤ v.toNat → v.toNat < p →
    v ∈ agedSeqs peer reportInterval now ∨ v ∈ peer.recvSeqs
  recv_iff : ∀ x : UInt32, p ≤ x.toNat → (x ∈ q.recvSeqs ↔ x ∈ peer.recvSeqs)
  zero_notMem : (0 : UInt32) ∉ q.recvSeqs
  stopped : peer.nextExpectedSeq.toNat < p → ∀ v : UInt32, v.toNat = p → v ∉ peer.recvSeqs
  scanned : peer.seqInitialized = true → ∀ e ∈ done, Aged peer reportInterval now e.2 →
    e.1.toNat ≠ p
  started : peer.nextExpectedSeq.toNat < p → peer.seqInitialized = true ∧
    ∃ e ∈ done, e.1 = peer.nextExpectedSeq ∧ Aged peer reportInterval now e.2

lemma CursorAt.init (reportInterval : Int) (now : TimePoint) (h0 : (0 : UInt32) ∉ peer.recvSeqs) :
    CursorAt peer reportInterval now [] peer peer.nextExpectedSeq.toNat where
  ge := le_rfl
  le := peer.nextExpectedSeq.toNat_lt.le
  next_eq := UInt32.ofNat_toNat.symm
  passed := fun _ hge hlt => absurd hlt (not_lt.mpr hge)
  recv_iff := fun _ _ => Iff.rfl
  zero_notMem := h0
  stopped := fun h => absurd h (lt_irrefl _)
  scanned := fun _ _ he => absurd he List.not_mem_nil
  started := fun h => absurd h (lt_irrefl _)

/-- An entry that does not move the cursor. -/
lemma CursorAt.stay {q q' : Peer} {now : TimePoint} {p : ℕ}
    (h : CursorAt peer reportInterval now done q p) (e : UInt32 × TimePoint)
    (hnext : q'.nextExpectedSeq = q.nextExpectedSeq) (hrecv : q'.recvSeqs = q.recvSeqs)
    (he : peer.seqInitialized = true → Aged peer reportInterval now e.2 → e.1.toNat ≠ p) :
    CursorAt peer reportInterval now (done ++ [e]) q' p where
  ge := h.ge
  le := h.le
  next_eq := hnext.trans h.next_eq
  passed := h.passed
  recv_iff := hrecv ▸ h.recv_iff
  zero_notMem := hrecv ▸ h.zero_notMem
  stopped := h.stopped
  scanned := by
    intro hinit e' he' haged
    rcases List.mem_append.mp he' with he' | he'
    · exact h.scanned hinit e' he' haged
    · rw [List.mem_singleton.mp he'] at haged ⊢
      exact he hinit haged
  started := fun hlt => by
    obtain ⟨hinit, e', he', heq⟩ := h.started hlt
    exact ⟨hinit, e', List.mem_append_left _ he', heq⟩

/-- An aged entry at the cursor. -/
lemma CursorAt.move {q : Peer} {now : TimePoint} {p : ℕ}
    (h : CursorAt peer reportInterval now done q p) (hmem : e ∈ peer.missingSeqs.toList)
    (hsorted : ∀ d ∈ done, d.1.toNat < e.1.toNat) (haged : Aged peer reportInterval now e.2)
    (hinit : peer.seqInitialized = true) (heq : e.1 = q.nextExpectedSeq) {q' : Peer}
    (hnext : q'.nextExpectedSeq = (advance q.recvSeqs (e.1 + 1)).2)
    (hrecv : q'.recvSeqs = (advance q.recvSeqs (e.1 + 1)).1) :
    ∃ p', CursorAt peer reportInterval now (done ++ [e]) q' p' := by
  -- The cursor has not wrapped: an entry at 0 would have been the first one.
  have hp : e.1.toNat = p := by
    have hlt : p < 2 ^ 32 := by
      by_contra hnot
      have hp : p = 2 ^ 32 := le_antisymm h.le (not_lt.mp hnot)
      have hzero : e.1.toNat = 0 := by
        rw [heq, h.next_eq, hp]
        rfl
      obtain ⟨-, d, hd, -⟩ := h.started (by
        have := peer.nextExpectedSeq.toNat_lt
        omega)
      have := hsorted d hd
      omega
    rw [heq, h.next_eq, UInt32.toNat_ofNat_of_lt' hlt]
  have hge := h.ge
  obtain ⟨stop, hgt, hmax, hcur, hpassed, hset, hout⟩ := skip_walk h.zero_notMem e.1
  refine ⟨stop, ?_⟩
  exact {
    ge := by omega
    le := hmax
    next_eq := hnext.trans hcur
    passed := by
      intro v hv hv'
      rcases lt_trichotomy v.toNat p with hlt | hp' | hlt
      · exact h.passed v hv hlt
      · exact Or.inl (mem_agedSeqs.mpr ⟨e, hmem, UInt32.toNat_inj.mp (by omega), haged⟩)
      · exact Or.inr ((h.recv_iff v hlt.le).mp (hpassed v (by omega) hv'))
    recv_iff := by
      intro x hx
      rw [hrecv, hset, h.recv_iff x (by omega)]
      exact and_iff_left (by omega)
    zero_notMem := by
      rw [hrecv, hset]
      exact fun hmem => h.zero_notMem hmem.1
    stopped := fun _ v hv => by
      rw [← h.recv_iff v (by omega)]
      exact hout v hv
    scanned := by
      intro _ d hd _
      rcases List.mem_append.mp hd with hd | hd
      · have := hsorted d hd
        omega
      · rw [List.mem_singleton.mp hd]
        omega
    started := by
      intro _
      refine ⟨hinit, ?_⟩
      rcases Nat.lt_or_ge peer.nextExpectedSeq.toNat p with hlt | hle
      · obtain ⟨-, d, hd, hrest⟩ := h.started hlt
        exact ⟨d, List.mem_append_left _ hd, hrest⟩
      · exact ⟨e, List.mem_append_right _ List.mem_cons_self,
          UInt32.toNat_inj.mp (by omega), haged⟩ }

/-- One round of the scan, with retransmission on. -/
lemma CursorAt.step {now : TimePoint} {p : ℕ} (h : CursorAt peer reportInterval now done s.1 p)
    (hr : peer.retransmit = true) (hp : peer.peerRetransmit = true) (hs : SameConfig peer s.1)
    (hmem : e ∈ peer.missingSeqs.toList) (hsorted : ∀ d ∈ done, d.1.toNat < e.1.toNat) :
    ∃ p', CursorAt peer reportInterval now (done ++ [e]) (scanEntry reportInterval now s e).1
      p' := by
  have hon : ¬ (¬ s.1.retransmit = true ∨ ¬ s.1.peerRetransmit = true) := by
    rw [hs.retransmit, hs.peerRetransmit, hr, hp]
    simp
  unfold scanEntry
  simp only [if_neg hon]
  by_cases hgive : giveUpUs reportInterval < toMicros (now - e.2)
  · rw [if_pos hgive]
    exact ⟨p, h.stay e rfl rfl fun _ haged => absurd haged.2 (not_le.mpr hgive)⟩
  rw [if_neg hgive, hs.lossThreshold_eq]
  by_cases hlate : ((lossThreshold peer).toNat : Int) < toMicros (now - e.2)
  · rw [if_pos hlate]
    have haged : Aged peer reportInterval now e.2 := ⟨hlate, not_lt.mp hgive⟩
    unfold skipGap
    split
    · next hcond =>
      exact h.move hmem hsorted haged (hs.seqInitialized.symm.trans hcond.1) hcond.2
        (by rw [hcond.2]) (by rw [hcond.2])
    · next hcond =>
      refine ⟨p, h.stay e rfl rfl fun hinit _ heq => hcond ⟨hs.seqInitialized.trans hinit, ?_⟩⟩
      rw [h.next_eq, ← heq, UInt32.ofNat_toNat]
  · rw [if_neg hlate]
    exact ⟨p, h.stay e rfl rfl fun _ haged => absurd haged.1 hlate⟩

lemma CursorAt.fold {now : TimePoint} (hr : peer.retransmit = true)
    (hp : peer.peerRetransmit = true) (l done : List (UInt32 × TimePoint))
    (hl : done ++ l = peer.missingSeqs.toList) {p : ℕ}
    (h : CursorAt peer reportInterval now done s.1 p) (hs : SameConfig peer s.1) :
    ∃ p', CursorAt peer reportInterval now peer.missingSeqs.toList
      (l.foldl (scanEntry reportInterval now) s).1 p' := by
  induction l generalizing done s p with
  | nil =>
      rw [← hl, List.append_nil]
      exact ⟨p, h⟩
  | cons e l ih =>
      have hmem : e ∈ peer.missingSeqs.toList := hl ▸ List.mem_append_right _ List.mem_cons_self
      have hsorted : ∀ d ∈ done, d.1.toNat < e.1.toNat := fun d hd =>
        (List.pairwise_append.mp (hl ▸ missing_sorted peer)).2.2 d hd e List.mem_cons_self
      obtain ⟨p', h'⟩ := h.step hr hp hs hmem hsorted
      exact ih (done ++ [e]) (by rw [List.append_assoc, List.singleton_append, hl]) h'
        (hs.trans (scanEntry_frame reportInterval now s e).1)

/-- The cursor stays where it is unless the sequence there is aged; then it stops at the first one
that is neither aged nor received. -/
lemma scan_cursor (reportInterval : Int) (now : TimePoint) (hr : peer.retransmit = true)
    (hp : peer.peerRetransmit = true) (h0 : (0 : UInt32) ∉ peer.recvSeqs) :
    ∃ p, CursorAt peer reportInterval now peer.missingSeqs.toList
      (scanMissing reportInterval now peer).1 p :=
  CursorAt.fold hr hp _ [] rfl (CursorAt.init reportInterval now h0) (SameConfig.refl peer)

/-! ## The report against the cursor -/

/-- Every missing sequence that the report moves below the cursor is in its list. -/
def Covers (peer : Peer) (reportInterval : Int) (now : TimePoint) : Prop :=
  ∀ k ∈ peer.missingSeqs, peer.nextExpectedSeq ≤ k →
    k < (buildPayload peer reportInterval now).1.nextExpectedSeq →
      k ∈ listedLost (buildPayload peer reportInterval now).2

/-- From the cursor up to `k` every sequence is aged or received. -/
def Block (peer : Peer) (reportInterval : Int) (now : TimePoint) (k : UInt32) : Prop :=
  ∀ j, peer.nextExpectedSeq ≤ j → j ≤ k →
    j ∈ agedSeqs peer reportInterval now ∨ j ∈ peer.recvSeqs

/-- The missing sequence `k` is aged and has a place in the list. -/
def Listable (peer : Peer) (reportInterval : Int) (now : TimePoint) (k : UInt32) : Prop :=
  k ∈ agedSeqs peer reportInterval now ∧
    ((agedSeqs peer reportInterval now).filter fun j => j < k).length <
      min ((agedSeqs peer reportInterval now).length % 65536) 256

instance (peer : Peer) (reportInterval : Int) (now : TimePoint) (k : UInt32) :
    Decidable (Listable peer reportInterval now k) :=
  inferInstanceAs (Decidable (_ ∧ _))

lemma mem_listedLost_iff {now : TimePoint} (hr : peer.retransmit = true)
    (hp : peer.peerRetransmit = true) :
    k ∈ listedLost (buildPayload peer reportInterval now).2 ↔
      Listable peer reportInterval now k := by
  rw [listedLost_buildPayload, scan_lost reportInterval now hr hp,
    mem_take_iff (agedSeqs_sorted peer reportInterval now), lostCount_toNat]
  rfl

/-- The cursor stops before the end of a block that goes on from where the scan began. -/
lemma CursorAt.lt_of_block {q : Peer} {now : TimePoint} {p : ℕ}
    (h : CursorAt peer reportInterval now peer.missingSeqs.toList q p)
    (hinit : peer.seqInitialized = true) (hstarted : peer.nextExpectedSeq.toNat < p)
    (hblock : Block peer reportInterval now k) : k.toNat < p := by
  by_contra hnot
  have hp : p < 2 ^ 32 := lt_of_le_of_lt (not_lt.mp hnot) k.toNat_lt
  have hcur : (UInt32.ofNat p).toNat = p := UInt32.toNat_ofNat_of_lt' hp
  have hge : peer.nextExpectedSeq ≤ UInt32.ofNat p := by
    rw [UInt32.le_iff_toNat_le, hcur]
    exact h.ge
  have hle : UInt32.ofNat p ≤ k := by
    rw [UInt32.le_iff_toNat_le, hcur]
    exact not_lt.mp hnot
  -- The cursor itself is neither aged nor received.
  rcases hblock (UInt32.ofNat p) hge hle with hmem | hmem
  · obtain ⟨e, he, heq, haged⟩ := mem_agedSeqs.mp hmem
    exact h.scanned hinit e he haged (heq ▸ hcur)
  · exact h.stopped hstarted _ hcur hmem

/-- What the report moves the cursor over. -/
lemma passed_iff {now : TimePoint} (hr : peer.retransmit = true) (hp : peer.peerRetransmit = true)
    (h0 : (0 : UInt32) ∉ peer.recvSeqs) (hk : peer.nextExpectedSeq ≤ k) :
    k < (buildPayload peer reportInterval now).1.nextExpectedSeq ↔
      peer.seqInitialized = true ∧
        peer.nextExpectedSeq ∈ agedSeqs peer reportInterval now ∧
        ¬ Block peer reportInterval now (UInt32.ofNat (2 ^ 32 - 1)) ∧
        Block peer reportInterval now k := by
  obtain ⟨p, h⟩ := scan_cursor reportInterval now hr hp h0
  rw [(buildPayload_tracking peer reportInterval now).1, h.next_eq]
  have hk : peer.nextExpectedSeq.toNat ≤ k.toNat := hk
  constructor
  · intro hlt
    have hlt := UInt32.lt_iff_toNat_lt.mp hlt
    have hp32 : p < 2 ^ 32 := by
      by_contra hnot
      rw [le_antisymm h.le (not_lt.mp hnot)] at hlt
      exact absurd hlt (Nat.not_lt_zero _)
    rw [UInt32.toNat_ofNat_of_lt' hp32] at hlt
    have hstarted : peer.nextExpectedSeq.toNat < p := lt_of_le_of_lt hk hlt
    obtain ⟨hinit, e, he, heq, haged⟩ := h.started hstarted
    refine ⟨hinit, heq ▸ mem_agedSeqs.mpr ⟨e, he, rfl, haged⟩, fun hblock => ?_, fun j hj hj' =>
      h.passed j hj (lt_of_le_of_lt hj' hlt)⟩
    have hend := h.lt_of_block hinit hstarted hblock
    rw [show (UInt32.ofNat (2 ^ 32 - 1)).toNat = 2 ^ 32 - 1 from rfl] at hend
    omega
  · rintro ⟨hinit, hfirst, hend, hblock⟩
    obtain ⟨e, he, heq, haged⟩ := mem_agedSeqs.mp hfirst
    have hstarted : peer.nextExpectedSeq.toNat < p :=
      lt_of_le_of_ne h.ge (heq ▸ h.scanned hinit e he haged)
    have hp32 : p < 2 ^ 32 := by
      by_contra hnot
      exact hend fun j hj _ => h.passed j hj (lt_of_lt_of_le j.toNat_lt (not_lt.mp hnot))
    rw [UInt32.lt_iff_toNat_lt, UInt32.toNat_ofNat_of_lt' hp32]
    exact h.lt_of_block hinit hstarted hblock

/-- A report covers the gaps it acknowledges exactly if the block of aged and received sequences at
the cursor, unless it reaches up to the largest sequence and the cursor wraps, has only missing
sequences with a place in the list.  A received set never holds `0` (`zero_notMem_run`). -/
theorem report_covers_iff (peer : Peer) (hr : peer.retransmit = true)
    (hp : peer.peerRetransmit = true) (h0 : (0 : UInt32) ∉ peer.recvSeqs) (reportInterval : Int)
    (now : TimePoint) :
    Covers peer reportInterval now ↔
      (peer.seqInitialized = true →
        peer.nextExpectedSeq ∈ agedSeqs peer reportInterval now →
        ¬ Block peer reportInterval now (UInt32.ofNat (2 ^ 32 - 1)) →
        ∀ k ∈ peer.missingSeqs, peer.nextExpectedSeq ≤ k → Block peer reportInterval now k →
          Listable peer reportInterval now k) := by
  constructor
  · intro hcovers hinit hfirst hend k hk hle hblock
    exact (mem_listedLost_iff hr hp).mp
      (hcovers k hk hle ((passed_iff hr hp h0 hle).mpr ⟨hinit, hfirst, hend, hblock⟩))
  · intro hcond k hk hle hlt
    obtain ⟨hinit, hfirst, hend, hblock⟩ := (passed_iff hr hp h0 hle).mp hlt
    exact (mem_listedLost_iff hr hp).mpr (hcond hinit hfirst hend k hk hle hblock)

/-- A receiver of the sequences `1` and `n + 2`, with the `n` sequences between them missing. -/
def gapped (n : ℕ) : Peer :=
  { seqInitialized := true
    nextExpectedSeq := 2
    retransmit := true
    peerRetransmit := true
    recvSeqs := (∅ : ExtTreeSet UInt32).insert (UInt32.ofNat (n + 2))
    missingSeqs := (List.range' 2 n).foldl (fun m k => m.insert (UInt32.ofNat k) 0) ∅ }

theorem report_covers_three : Covers (gapped 3) 100 200000000 := by
  refine (report_covers_iff (gapped 3) rfl rfl (by decide) 100 200000000).mpr ?_
  intro _ _ _ k hk _ _
  have hall : (gapped 3).missingSeqs.keys.all (Listable (gapped 3) 100 200000000 ·) = true := rfl
  exact of_decide_eq_true (List.all_eq_true.mp hall k (ExtTreeMap.mem_keys.mpr hk))

/-- With 257 aged sequences at the cursor the last one is acknowledged and not listed. -/
theorem report_acknowledges_unlisted :
    ¬ ∀ (peer : Peer) (reportInterval : Int) (now : TimePoint), peer.retransmit = true →
      peer.peerRetransmit = true → Covers peer reportInterval now := by
  intro h
  have hmissing : (258 : UInt32) ∈ (gapped 257).missingSeqs := by decide +kernel
  have hpassed : (258 : UInt32) <
      (buildPayload (gapped 257) 100 200000000).1.nextExpectedSeq := by decide +kernel
  have hlisted := h (gapped 257) 100 200000000 rfl rfl 258 hmissing (by decide) hpassed
  have hunlisted : ¬ Listable (gapped 257) 100 200000000 258 := by decide +kernel
  exact hunlisted ((mem_listedLost_iff rfl rfl).mp hlisted)

end Report
end Damen
