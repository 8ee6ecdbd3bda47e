import Damen.Framework.OrderedMap
import Damen.Model.Report

/-!
# What a report does to the retransmission buffer

`handle_pending` says what becomes of each entry of `m_pending`, and `handle_resent` which packets
are sent again, in terms of the ack cursor and the list of the report.

A report sends an entry again at most once and counts it, so what is left of `kMaxRetries` goes down
with every resend (`resends_step`): `report_partitions_pending` puts the two together and bounds the
resends over any sequence of reports.
-/

namespace Damen
namespace Report

open Std (ExtTreeMap)

/-- The report is long enough for the number of sequences it gives. -/
def WellFormed (payload : Bytes) : Prop :=
  12 ≤ payload.length ∧ 12 + (get16 payload 6).toNat * 4 ≤ payload.length

variable {payload : Bytes} {k : UInt32} {ps : PendingSend} {peer : Peer}

lemma handle_malformed (h : ¬ WellFormed payload) (peer : Peer) (now : TimePoint) :
    handle peer payload now = (peer, 0, []) := by
  unfold handle
  split
  · rfl
  · next hlen =>
    exact if_pos (not_le.mp fun hlist => h ⟨not_lt.mp hlen, hlist⟩)

/-- The cursor that a report acknowledges. -/
def ackedUpTo (payload : Bytes) : UInt32 := get32 payload 0

lemma listedLost_eq (h : WellFormed payload) :
    listedLost payload = parseLost payload (get16 payload 6).toNat := by
  rw [listedLost, if_neg (not_lt.mpr h.1), if_neg (not_lt.mpr h.2)]

lemma prunePending_getElem? (pending : ExtTreeMap UInt32 PendingSend) (ack : UInt32)
    (lost : List UInt32) (k : UInt32) :
    (prunePending pending ack lost)[k]? = pending[k]?.filter fun ps =>
      ¬ ((k ≤ ack ∧ k ∉ lost) ∨ kMaxRetries ≤ ps.retries) :=
  OrderedMap.getElem?_eraseAll (fun e : UInt32 × PendingSend =>
    (e.1 ≤ ack ∧ e.1 ∉ lost) ∨ kMaxRetries ≤ e.2.retries) pending k

/-- An entry whose packet was sent again. -/
def resentOnce (now : TimePoint) (ps : PendingSend) : PendingSend :=
  { ps with lastSend := now, retries := ps.retries + 1 }

lemma noteResent_getElem? (now : TimePoint) (pending : ExtTreeMap UInt32 PendingSend)
    (e : UInt32 × PendingSend) (k : UInt32) :
    (noteResent now pending e)[k]? = pending[k]?.map fun ps =>
      if k = e.1 ∧ ps.retries < kMaxRetries then resentOnce now ps else ps := by
  unfold noteResent
  cases he : pending[e.1]? with
  | none =>
      by_cases hk : k = e.1
      · rw [hk, he]
        rfl
      · simp [hk]
  | some ps =>
      simp only
      by_cases hk : k = e.1
      · subst hk
        split
        · next hretries => simp [he, hretries, resentOnce]
        · next hretries => simp [he, hretries]
      · split
        · simp [OrderedMap.getElem?_insert, hk]
        · simp [hk]

/-- The loop over the snapshot, in which no key occurs twice. -/
lemma foldl_noteResent_getElem? (now : TimePoint) {snapshot : List (UInt32 × PendingSend)}
    (hdistinct : snapshot.Pairwise fun a b => a.1 ≠ b.1) (pending : ExtTreeMap UInt32 PendingSend)
    (k : UInt32) :
    (snapshot.foldl (noteResent now) pending)[k]? = pending[k]?.map fun ps =>
      if k ∈ snapshot.map Prod.fst ∧ ps.retries < kMaxRetries then resentOnce now ps else ps := by
  induction snapshot generalizing pending with
  | nil => simp
  | cons e snapshot ih =>
      obtain ⟨hne, hrest⟩ := List.pairwise_cons.mp hdistinct
      rw [List.foldl_cons, ih hrest, noteResent_getElem?, Option.map_map]
      refine congrArg (fun f => pending[k]?.map f) (funext fun ps => ?_)
      simp only [Function.comp_apply, List.map_cons, List.mem_cons]
      by_cases hk : k = e.1
      · have hnot : k ∉ snapshot.map Prod.fst := by
          intro hmem
          obtain ⟨e', he', heq⟩ := List.mem_map.mp hmem
          exact hne e' he' (hk.symm.trans heq.symm)
        simp only [hk, hk ▸ hnot, true_and, false_and, if_false, or_false]
      · simp only [hk, false_and, if_false, false_or]

lemma resendable_distinct (pending : ExtTreeMap UInt32 PendingSend) (lost : List UInt32) :
    (resendable pending lost).Pairwise fun a b => a.1 ≠ b.1 :=
  (pending.distinct_keys_toList.imp fun h heq =>
    h (Std.LawfulEqCmp.compare_eq_iff_eq.mpr heq)).filter
    _

lemma mem_resendable {pending : ExtTreeMap UInt32 PendingSend} {lost : List UInt32} :
    (k, ps) ∈ resendable pending lost ↔
      pending[k]? = some ps ∧ k ∈ lost ∧ ps.retries < kMaxRetries := by
  rw [resendable, List.mem_filter, ExtTreeMap.mem_toList_iff_getElem?_eq_some, decide_eq_true_eq]

/-- The fate of an entry of the retransmission buffer under a report: it is dropped if it is
acknowledged and not listed or was sent often enough, and counted once more if it is sent again. -/
lemma handle_pending (h : WellFormed payload) (peer : Peer) (now : TimePoint) (k : UInt32) :
    (handle peer payload now).1.pending[k]? = peer.pending[k]?.bind fun ps =>
      if (k ≤ ackedUpTo payload ∧ k ∉ listedLost payload) ∨ kMaxRetries ≤ ps.retries then none
      else some (if k ∈ listedLost payload then resentOnce now ps else ps) := by
  rw [listedLost_eq h]
  unfold handle
  simp only [if_neg (not_lt.mpr h.1), if_neg (not_lt.mpr h.2)]
  rw [foldl_noteResent_getElem? now (resendable_distinct _ _), prunePending_getElem?]
  cases hk : peer.pending[k]? with
  | none => rfl
  | some ps =>
      simp only [Option.filter, Option.bind_some]
      by_cases hdrop : (k ≤ ackedUpTo payload ∧ k ∉ parseLost payload (get16 payload 6).toNat) ∨
          kMaxRetries ≤ ps.retries
      · rw [if_pos hdrop]
        simp only [ackedUpTo] at hdrop
        simp only [hdrop, not_true_eq_false, decide_false, Bool.false_eq_true, if_false,
          Option.map_none]
      · have hretries : ps.retries < kMaxRetries :=
          UInt32.not_le.mp fun hle => hdrop (Or.inr hle)
        have hlisted : k ∈ (resendable peer.pending (parseLost payload (get16 payload 6).toNat)).map
            Prod.fst ↔ k ∈ parseLost payload (get16 payload 6).toNat := by
          constructor
          · intro hmem
            obtain ⟨e, hentry, rfl⟩ := List.mem_map.mp hmem
            exact (mem_resendable.mp hentry).2.1
          · intro hmem
            exact List.mem_map.mpr ⟨(k, ps), mem_resendable.mpr ⟨hk, hmem, hretries⟩, rfl⟩
        rw [if_neg hdrop]
        simp only [ackedUpTo] at hdrop
        simp only [hdrop, not_false_eq_true, decide_true, if_true, Option.map_some, hlisted,
          hretries, and_true]

/-- A report changes the retransmission buffer and the late ratio only. -/
lemma handle_frame (peer : Peer) (payload : Bytes) (now : TimePoint) :
    (handle peer payload now).1 = { peer with
      peerLateRatio := (handle peer payload now).1.peerLateRatio
      pending := (handle peer payload now).1.pending } := by
  unfold handle
  simp only
  split_ifs <;> rfl

/-- The entries that a report makes the peer send again. -/
def resentBy (peer : Peer) (payload : Bytes) : List (UInt32 × PendingSend) :=
  resendable peer.pending (listedLost payload)

lemma listedLost_malformed (h : ¬ WellFormed payload) : listedLost payload = [] := by
  unfold listedLost
  split
  · rfl
  · next hlen => exact if_pos (not_le.mp fun hlist => h ⟨not_lt.mp hlen, hlist⟩)

lemma resentBy_malformed (h : ¬ WellFormed payload) (peer : Peer) : resentBy peer payload = [] := by
  rw [resentBy, listedLost_malformed h, resendable, List.filter_eq_nil_iff]
  simp

/-- The calls of `resend`. -/
lemma handle_resent (peer : Peer) (payload : Bytes) (now : TimePoint) :
    (handle peer payload now).2.2 =
      (resentBy peer payload).map fun e => (e.2.header, e.2.payload) := by
  by_cases h : WellFormed payload
  · rw [resentBy, listedLost_eq h]
    unfold handle
    simp only [if_neg (not_lt.mpr h.1), if_neg (not_lt.mpr h.2)]
  · rw [handle_malformed h, resentBy_malformed h, List.map_nil]

/-- A listed packet that was not sent often enough is sent again. -/
lemma resent_of_listed (now : TimePoint) (hps : peer.pending[k]? = some ps)
    (hlisted : k ∈ listedLost payload) (hretries : ps.retries < kMaxRetries) :
    (ps.header, ps.payload) ∈ (handle peer payload now).2.2 := by
  rw [handle_resent]
  exact List.mem_map.mpr ⟨(k, ps), mem_resendable.mpr ⟨hps, hlisted, hretries⟩, rfl⟩

/-- The packets that a report makes the peer send again. -/
lemma mem_resent {now : TimePoint} {packet : PacketHeader × Bytes}
    (h : packet ∈ (handle peer payload now).2.2) :
    ∃ (k : UInt32) (ps : PendingSend), peer.pending[k]? = some ps ∧
      packet = (ps.header, ps.payload) := by
  rw [handle_resent] at h
  obtain ⟨⟨k, ps⟩, hmem, rfl⟩ := List.mem_map.mp h
  exact ⟨k, ps, (mem_resendable.mp hmem).1, rfl⟩

/-! ## Resends over many reports -/

/-- The entry is acknowledged and not listed, or was sent often enough. -/
def Dropped (payload : Bytes) (k : UInt32) (ps : PendingSend) : Prop :=
  (k ≤ ackedUpTo payload ∧ k ∉ listedLost payload) ∨ kMaxRetries ≤ ps.retries

instance (payload : Bytes) (k : UInt32) (ps : PendingSend) : Decidable (Dropped payload k ps) :=
  inferInstanceAs (Decidable (_ ∨ _))

lemma mem_resentBy :
    (k, ps) ∈ resentBy peer payload ↔
      peer.pending[k]? = some ps ∧ ¬ Dropped payload k ps ∧ k ∈ listedLost payload := by
  rw [resentBy, mem_resendable]
  refine and_congr_right fun _ => ⟨?_, ?_⟩
  · rintro ⟨hlisted, hretries⟩
    refine ⟨?_, hlisted⟩
    rintro (⟨-, hnot⟩ | hmax)
    · exact hnot hlisted
    · exact UInt32.not_le.mpr hretries hmax
  · rintro ⟨hkept, hlisted⟩
    exact ⟨hlisted, UInt32.not_le.mp fun hmax => hkept (Or.inr hmax)⟩

lemma nodup_resentBy (peer : Peer) (payload : Bytes) :
    ((resentBy peer payload).map Prod.fst).Nodup :=
  List.pairwise_map.mpr (resendable_distinct _ _)

/-- How often the packet can still be sent again. -/
def resendsLeft (peer : Peer) (k : UInt32) : ℕ :=
  match peer.pending[k]? with
  | some ps => 10 - ps.retries.toNat
  | none => 0

/-- The sequences that a series of reports makes the peer send again, one entry for each resend. -/
def resends (peer : Peer) : List (Bytes × TimePoint) → List UInt32
  | [] => []
  | report :: reports => (resentBy peer report.1).map Prod.fst ++
      resends (handle peer report.1 report.2).1 reports

/-- A resend is one less that is left. -/
lemma resends_step (peer : Peer) (payload : Bytes) (now : TimePoint) (k : UInt32) :
    ((resentBy peer payload).map Prod.fst).count k + resendsLeft (handle peer payload now).1 k ≤
      resendsLeft peer k := by
  by_cases hform : WellFormed payload
  · have hafter : (handle peer payload now).1.pending[k]? = peer.pending[k]?.bind fun ps =>
        if Dropped payload k ps then none
        else some (if k ∈ listedLost payload then resentOnce now ps else ps) :=
      handle_pending hform peer now k
    cases hk : peer.pending[k]? with
    | none =>
        have hnot : k ∉ (resentBy peer payload).map Prod.fst := by
          intro hmem
          obtain ⟨e, he, rfl⟩ := List.mem_map.mp hmem
          exact absurd (hk.symm.trans (mem_resentBy.mp he).1) (by simp)
        rw [hk, Option.bind_none] at hafter
        rw [List.count_eq_zero_of_not_mem hnot, resendsLeft, hafter]
        exact Nat.zero_le _
    | some ps =>
        have hmem : k ∈ (resentBy peer payload).map Prod.fst ↔
            ¬ Dropped payload k ps ∧ k ∈ listedLost payload := by
          constructor
          · intro hmem
            obtain ⟨⟨k', ps'⟩, he, rfl⟩ := List.mem_map.mp hmem
            obtain ⟨hps', hkept⟩ := mem_resentBy.mp he
            rwa [Option.some.inj (hps'.symm.trans hk)] at hkept
          · intro hkept
            exact List.mem_map.mpr ⟨(k, ps), mem_resentBy.mpr ⟨hk, hkept⟩, rfl⟩
        rw [hk, Option.bind_some] at hafter
        by_cases hdrop : Dropped payload k ps
        · rw [if_pos hdrop] at hafter
          rw [List.count_eq_zero_of_not_mem fun h => (hmem.mp h).1 hdrop, resendsLeft, hafter]
          exact Nat.zero_le _
        · rw [if_neg hdrop] at hafter
          have hretries : ps.retries.toNat < 10 :=
            UInt32.lt_iff_toNat_lt.mp (UInt32.not_le.mp fun hmax => hdrop (Or.inr hmax))
          by_cases hlisted : k ∈ listedLost payload
          · have hcount : ((resentBy peer payload).map Prod.fst).count k = 1 :=
              List.count_eq_one_of_mem (nodup_resentBy peer payload) (hmem.mpr ⟨hdrop, hlisted⟩)
            have hnext : (resentOnce now ps).retries.toNat = ps.retries.toNat + 1 := by
              rw [resentOnce, UInt32.toNat_add, UInt32.toNat_one]
              omega
            rw [if_pos hlisted] at hafter
            rw [hcount, resendsLeft, resendsLeft, hafter, hk]
            simp only [hnext]
            omega
          · rw [if_neg hlisted] at hafter
            rw [List.count_eq_zero_of_not_mem fun h => hlisted (hmem.mp h).2, resendsLeft,
              resendsLeft, hafter, hk, Nat.zero_add]
  · rw [resentBy_malformed hform, handle_malformed hform, List.map_nil,
      List.count_nil, Nat.zero_add]

lemma count_resends_le (peer : Peer) (reports : List (Bytes × TimePoint)) (k : UInt32) :
    (resends peer reports).count k ≤ resendsLeft peer k := by
  induction reports generalizing peer with
  | nil => exact Nat.zero_le _
  | cons report reports ih =>
      have hstep := resends_step peer report.1 report.2 k
      have hrest := ih (handle peer report.1 report.2).1
      rw [resends, List.count_append]
      omega

/-- A report drops the entries that are acknowledged and not listed or were sent often enough, sends
the remaining ones it lists again, once each and as they were stored, counts these, and leaves the
others alone.  No series of reports sends a packet again more than ten times. -/
theorem report_partitions_pending (peer : Peer) (payload : Bytes) (now : TimePoint)
    (h : WellFormed payload) :
    (∀ k, (handle peer payload now).1.pending[k]? = peer.pending[k]?.bind fun ps =>
        if Dropped payload k ps then none
        else some (if k ∈ listedLost payload then
          { ps with lastSend := now, retries := ps.retries + 1 } else ps)) ∧
      ((resentBy peer payload).map Prod.fst).Nodup ∧
      (∀ k ps, (k, ps) ∈ resentBy peer payload ↔
        peer.pending[k]? = some ps ∧ ¬ Dropped payload k ps ∧ k ∈ listedLost payload) ∧
      (handle peer payload now).2.2 =
        (resentBy peer payload).map (fun e => (e.2.header, e.2.payload)) ∧
      ∀ reports k, (resends peer reports).count k ≤ 10 := by
  refine ⟨handle_pending h peer now, nodup_resentBy peer payload, fun _ _ => mem_resentBy,
    handle_resent peer payload now, fun reports k => ?_⟩
  refine (count_resends_le peer reports k).trans ?_
  unfold resendsLeft
  split
  · exact Nat.sub_le _ _
  · exact Nat.zero_le _

/-- Sequences 3 and 4 are pending. -/
def twoPending : Peer :=
  { pending := ((∅ : ExtTreeMap UInt32 PendingSend).insert 3 {}).insert 4 {} }

/-- A report that acknowledges sequence 5 and lists sequence 3. -/
def ackFiveLostThree : Bytes := [0, 0, 0, 5, 0, 0, 0, 1, 0, 0, 0, 0, 0, 0, 0, 3]

/-- It drops sequence 4 and sends sequence 3 again. -/
theorem report_partitions_pending_two :
    WellFormed ackFiveLostThree ∧
      (handle twoPending ackFiveLostThree 0).1.pending[(4 : UInt32)]? = none ∧
      (3, {}) ∈ resentBy twoPending ackFiveLostThree := by
  have hform : WellFormed ackFiveLostThree := by
    unfold WellFormed
    decide
  have hthree : twoPending.pending[(3 : UInt32)]? = some {} := by
    rw [twoPending, OrderedMap.getElem?_insert, if_neg (by decide), OrderedMap.getElem?_insert,
      if_pos rfl]
  have hfour : twoPending.pending[(4 : UInt32)]? = some {} := by
    rw [twoPending, OrderedMap.getElem?_insert, if_pos rfl]
  obtain ⟨hpending, -, hresent, -⟩ := report_partitions_pending twoPending ackFiveLostThree 0 hform
  refine ⟨hform, ?_, (hresent 3 {}).mpr ⟨hthree, by decide, by decide⟩⟩
  have hdropped : Dropped ackFiveLostThree 4 {} := by decide
  rw [hpending 4, hfour, Option.bind_some, if_pos hdropped]

end Report
end Damen
