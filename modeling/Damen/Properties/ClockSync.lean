import Damen.Model.Session
import Mathlib.Tactic.Ring

/-!
# What the clock sync measures

`sync_clock` records the offset of the remote clock from one packet and the round-trip time, and
`transit_time_us` converts the tick of a later packet with it.  A packet that takes `d` ms to a
clock `D` ms behind arrives with the raw difference `D - d`; the offset is `D`, so half a round trip
has to be added.  The source subtracts it, and its offset is too small by a whole round trip.
Transit times come out `2 * d` ms short, zero at least.

Times are integers here; on the wire and in the code they are reduced to 32 bits.
-/

namespace Damen
namespace Transport

/-- The remote clock is `D` ms ahead.  This is the tick of a packet sent at local time `s`. -/
def remoteTick (D s : ℤ) : UInt32 := UInt32.ofInt (s + D)

/-- `unix_millis()` at the local time `s`. -/
def localMillis (s : ℤ) : UInt64 := UInt64.ofInt s

lemma toBitVec_ofInt (a : ℤ) : (UInt32.ofInt a).toBitVec = BitVec.ofInt 32 a := by
  apply BitVec.eq_of_toNat_eq
  rw [BitVec.toNat_ofInt]
  exact Nat.mod_eq_of_lt (by omega)

lemma toUInt32_ofInt (a : ℤ) : (UInt64.ofInt a).toUInt32 = UInt32.ofInt a := by
  apply UInt32.toNat_inj.mp
  simp only [UInt64.ofInt, UInt32.ofInt, UInt64.toNat_toUInt32, UInt64.toNat_ofNat',
    UInt32.toNat_ofNat']
  omega

/-- The difference of two reduced times, read as a signed word. -/
lemma toInt_sub_ofInt (a b : ℤ) :
    (UInt32.ofInt a - UInt32.ofInt b).toInt32.toInt = (a - b).bmod (2 ^ 32) := by
  have hword : (UInt32.ofInt a - UInt32.ofInt b).toInt32.toInt =
      (BitVec.ofInt 32 a - BitVec.ofInt 32 b).toInt := by
    rw [← toBitVec_ofInt, ← toBitVec_ofInt, ← UInt32.toBitVec_sub]
    rfl
  rw [hword, BitVec.toInt_sub, BitVec.toInt_ofInt, BitVec.toInt_ofInt, Int.sub_bmod_bmod,
    Int.bmod_sub_bmod]

variable {bw : BandwidthEstimator} {peer : Peer}

/-- The offset a first sample leaves behind, in microseconds. -/
lemma syncClock_first (hfirst : peer.clockSynced = false) {d : ℤ} (hd : 1 ≤ d)
    (hrtt : bw.rtt = 2000 * d) {D s : ℤ} (htick : remoteTick D s ≠ 0) :
    syncClock bw peer (remoteTick D s) (localMillis (s + d)) =
      { peer with
        clockOffsetUs := 1000 * ((D - d).bmod (2 ^ 32) - d)
        clockSynced := true
        clockPending := false } := by
  have hpos : ¬ bw.rtt ≤ 0 := by omega
  have hraw : (remoteTick D s - (localMillis (s + d)).toUInt32).toInt32.toInt =
      (D - d).bmod (2 ^ 32) := by
    rw [remoteTick, localMillis, toUInt32_ofInt, toInt_sub_ofInt]
    congr 1
    ring
  have hhalf : bw.rtt.tdiv 2 = 1000 * d := by
    rw [hrtt, show (2000 * d : ℤ) = 1000 * d * 2 by ring]
    exact Int.mul_tdiv_cancel _ (by decide)
  rw [syncClock, if_neg htick, if_neg hpos]
  simp only [hfirst, hraw, hhalf, Bool.false_eq_true, if_false]
  rw [show (D - d).bmod (2 ^ 32) * 1000 - 1000 * d = 1000 * ((D - d).bmod (2 ^ 32) - d) by ring]

/-- The transit time that is measured: too short by what the recorded offset lacks. -/
lemma transitTimeUs_later (hsynced : peer.clockSynced = true) {D s d : ℤ} (hD : |D| < 2 ^ 30)
    (hd : 0 ≤ d) (hd' : d < 2 ^ 20) (htick : remoteTick D s ≠ 0) :
    transitTimeUs peer (remoteTick D s) (localMillis (s + d)) =
      max 0 (1000 * (d - D) + peer.clockOffsetUs) := by
  have hraw : ((localMillis (s + d)).toUInt32 - remoteTick D s).toInt32.toInt = d - D := by
    rw [remoteTick, localMillis, toUInt32_ofInt, toInt_sub_ofInt,
      show s + d - (s + D) = d - D by ring]
    have hbounds := abs_lt.mp hD
    exact Int.bmod_eq_of_le (by omega) (by omega)
  rw [transitTimeUs, if_neg (by simp [hsynced, htick])]
  simp only [hraw]
  rw [show (d - D) * 1000 + peer.clockOffsetUs = 1000 * (d - D) + peer.clockOffsetUs by ring]
  split <;> omega

/-- After a first sample over a path of `d` ms, the transit time of a later packet is measured right
exactly if it is zero; a path so long that the raw difference wraps around is the exception. -/
theorem transit_measured_iff (bw : BandwidthEstimator) (peer : Peer)
    (hfirst : peer.clockSynced = false) (D d s s' d' : ℤ) (hD : |D| < 2 ^ 30) (hd : 1 ≤ d)
    (hrtt : bw.rtt = 2000 * d) (htick : remoteTick D s ≠ 0) (hd' : 0 ≤ d') (hlt : d' < 2 ^ 20)
    (htick' : remoteTick D s' ≠ 0) :
    transitTimeUs (syncClock bw peer (remoteTick D s) (localMillis (s + d))) (remoteTick D s')
        (localMillis (s' + d')) = 1000 * d' ↔
      (D - d).bmod (2 ^ 32) = D + d ∨ d' = 0 ∧ (D - d).bmod (2 ^ 32) < D + d := by
  rw [syncClock_first hfirst hd hrtt htick, transitTimeUs_later rfl hD hd' hlt htick']
  dsimp only
  generalize (D - d).bmod (2 ^ 32) = raw
  omega

/-- A packet that arrives in the millisecond it was sent in. -/
theorem transit_measured_instant :
    transitTimeUs (syncClock { rtt := 2000 } {} (remoteTick 5 1) (localMillis (1 + 1)))
      (remoteTick 5 7) (localMillis (7 + 0)) = 1000 * 0 :=
  (transit_measured_iff { rtt := 2000 } {} rfl 5 1 1 7 0 (by decide) le_rfl rfl (by decide) le_rfl
    (by decide) (by decide)).mpr (Or.inr ⟨rfl, by decide⟩)

/-- On a path of less than twelve days no difference wraps around, and two path delays are missing
from every transit time. -/
lemma transitTimeUs_short (hfirst : peer.clockSynced = false) {D d s s' d' : ℤ} (hD : |D| < 2 ^ 30)
    (hd : 1 ≤ d) (hlong : d < 2 ^ 30) (hrtt : bw.rtt = 2000 * d) (htick : remoteTick D s ≠ 0)
    (hd' : 0 ≤ d') (hlt : d' < 2 ^ 20) (htick' : remoteTick D s' ≠ 0) :
    transitTimeUs (syncClock bw peer (remoteTick D s) (localMillis (s + d))) (remoteTick D s')
      (localMillis (s' + d')) = max 0 (1000 * (d' - 2 * d)) := by
  have hraw : (D - d).bmod (2 ^ 32) = D - d := by
    have hbounds := abs_lt.mp hD
    exact Int.bmod_eq_of_le (by omega) (by omega)
  rw [syncClock_first hfirst hd hrtt htick, transitTimeUs_later rfl hD hd' hlt htick', hraw]
  dsimp only
  omega

/-- Equal clocks and a path of one millisecond: the second packet seems to take no time. -/
theorem transit_underestimated :
    ¬ ∀ (bw : BandwidthEstimator) (peer : Peer) (D d s s' d' : ℤ), peer.clockSynced = false →
      |D| < 2 ^ 30 → 1 ≤ d → bw.rtt = 2000 * d → remoteTick D s ≠ 0 → 0 ≤ d' → d' < 2 ^ 20 →
      remoteTick D s' ≠ 0 →
      transitTimeUs (syncClock bw peer (remoteTick D s) (localMillis (s + d))) (remoteTick D s')
        (localMillis (s' + d')) = 1000 * d' := by
  intro h
  have hright := h { rtt := 2000 } {} 0 1 1 2 1 rfl (by decide) le_rfl rfl (by decide) (by decide)
    (by decide) (by decide)
  rw [transitTimeUs_short rfl (by decide) le_rfl (by decide) rfl (by decide) (by decide) (by decide)
    (by decide)] at hright
  exact absurd hright (by decide)

end Transport
end Damen
