import Damen.Properties.ReportScan

/-!
# How long a listed sequence has been missing

The documentation promises that a sequence is reported as lost when it has been missing for more
than 3.5 round-trip times, and for more than 100 ms in any case.  `build_payload` computes the
threshold in 32 bits from a round-trip time the other end supplies, and uses the floor for
round-trip times below 10 ms only.

`never_early_iff` says for which values the promise is kept: not for 0, which counts as 10 ms, not
from 10 ms up to where 3.5 of them make 100 ms, and not from where seven of them wrap.
-/

namespace Damen
namespace Report

open Std (ExtTreeMap)

/-- `max(100 ms, 3.5 * rtt)`, in nanoseconds. -/
def promisedAge (rttUs : UInt32) : Int := max 100000000 (3500 * rttUs.toNat)

/-- With this round-trip time, whatever is missing and whenever the report is built, a listed
sequence has been missing for longer than promised. -/
def NeverEarly (rttUs : UInt32) : Prop :=
  ∀ (peer : Peer) (reportInterval : Int) (now : TimePoint), peer.senderRttUs = rttUs →
    ∀ g ∈ listedLost (buildPayload peer reportInterval now).2,
      ∃ since, peer.missingSeqs[g]? = some since ∧ promisedAge rttUs < now - since

/-- The threshold as a number. -/
lemma lossThreshold_toNat (peer : Peer) :
    (lossThreshold peer).toNat =
      if peer.senderRttUs.toNat = 0 then 35000
      else if peer.senderRttUs.toNat < 10000 then 100000
      else peer.senderRttUs.toNat * 7 % 2 ^ 32 / 2 := by
  have hzero : 0 < peer.senderRttUs ↔ peer.senderRttUs.toNat ≠ 0 := by
    rw [UInt32.lt_iff_toNat_lt, UInt32.toNat_zero, Nat.pos_iff_ne_zero]
  unfold lossThreshold
  by_cases hrtt : peer.senderRttUs.toNat = 0
  · simp only [if_neg (mt hzero.mp (not_not.mpr hrtt)), if_pos hrtt]
    rfl
  · simp only [if_pos (hzero.mpr hrtt), if_neg hrtt]
    by_cases hlow : peer.senderRttUs.toNat < 10000
    · rw [if_pos (UInt32.lt_iff_toNat_lt.mpr hlow), if_pos hlow]
      rfl
    · rw [if_neg (fun h => hlow (UInt32.lt_iff_toNat_lt.mp h)), if_neg hlow, UInt32.toNat_div,
        UInt32.toNat_mul]
      rfl

/-- The elapsed time is rounded down to microseconds before it is compared. -/
lemma lt_toMicros_iff {t : ℕ} {d : Int} : (t : Int) < toMicros d ↔ 1000 * (t + 1) ≤ d := by
  unfold toMicros
  constructor
  · intro h
    by_contra hlt
    rcases Int.lt_or_le d 0 with hneg | hpos
    · have hle : 0 ≤ (-d).tdiv 1000 := Int.tdiv_nonneg (by omega) (by decide)
      rw [Int.neg_tdiv] at hle
      omega
    · rw [Int.tdiv_eq_ediv_of_nonneg hpos] at h
      omega
  · intro h
    rw [Int.tdiv_eq_ediv_of_nonneg (by omega)]
    omega

/-- One sequence, missing since the beginning of time. -/
def oneMissing (rttUs : UInt32) : Peer :=
  { senderRttUs := rttUs, missingSeqs := (∅ : ExtTreeMap UInt32 TimePoint).insert 1 0 }

/-- It is listed as soon as the threshold is passed. -/
lemma listed_oneMissing (rttUs : UInt32) {t : ℕ}
    (ht : (lossThreshold (oneMissing rttUs)).toNat = t) :
    1 ∈ listedLost (buildPayload (oneMissing rttUs) (t + 1) (1000 * (t + 1))).2 := by
  have haged : Aged (oneMissing rttUs) (t + 1) (1000 * (t + 1)) 0 := by
    refine ⟨by rw [ht, lt_toMicros_iff]; omega, ?_⟩
    have hgive : giveUpUs (t + 1) = (t + 1) * 12 * 1000 := rfl
    rw [hgive, toMicros, Int.sub_zero, Int.mul_tdiv_cancel_left _ (by decide)]
    omega
  have hlist : (oneMissing rttUs).missingSeqs.toList = [(1, 0)] := rfl
  rw [listedLost_buildPayload, scan_lost _ _ rfl rfl, agedSeqs, hlist,
    List.filter_cons_of_pos (by simpa using haged)]
  exact List.mem_cons_self

/-- A report never lists a sequence before its time exactly if the round-trip time is below 10 ms
and not 0, or such that 3.5 of it are at least 100 ms and seven of it do not wrap. -/
theorem never_early_iff (rttUs : UInt32) :
    NeverEarly rttUs ↔
      0 < rttUs.toNat ∧ rttUs.toNat < 10000 ∨ 28572 ≤ rttUs.toNat ∧ rttUs.toNat ≤ 613566756 := by
  have hlt := rttUs.toNat_lt
  constructor
  · intro h
    by_contra hbad
    obtain ⟨since, hsince, hage⟩ := h (oneMissing rttUs) _ _ rfl 1 (listed_oneMissing rttUs rfl)
    have hzero : since = 0 := by
      rw [oneMissing, ExtTreeMap.getElem?_insert_self] at hsince
      exact (Option.some.inj hsince).symm
    rw [hzero, lossThreshold_toNat, promisedAge] at hage
    have hrtt : (oneMissing rttUs).senderRttUs = rttUs := rfl
    have hcut : rttUs.toNat * 7 % 2 ^ 32 / 2 < 2 ^ 31 ∧
        rttUs.toNat * 7 % 2 ^ 32 / 2 ≤ rttUs.toNat * 7 / 2 := by omega
    rw [hrtt] at hage
    generalize rttUs.toNat * 7 % 2 ^ 32 / 2 = cut at hcut hage
    split_ifs at hage <;> omega
  · rintro hgood peer reportInterval now rfl g hg
    rw [listedLost_buildPayload] at hg
    obtain ⟨since, hsince, haged⟩ := aged_of_mem_scan_lost (List.mem_of_mem_take hg)
    have hage := lt_toMicros_iff.mp haged.1
    rw [lossThreshold_toNat] at hage
    refine ⟨since, hsince, ?_⟩
    rw [promisedAge]
    split_ifs at hage <;> omega

/-- With a round-trip time of 10 ms a sequence is listed after 36 ms, and with one of 10 minutes and
14 seconds, seven of which wrap, after 1 ms. -/
theorem listed_early :
    1 ∈ listedLost (buildPayload (oneMissing 10000) 1000 36000000).2 ∧
      1 ∈ listedLost (buildPayload (oneMissing 613566757) 1000 1000000).2 := by
  decide

end Report
end Damen
