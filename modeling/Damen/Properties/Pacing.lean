import Damen.Model.Pacing
import Damen.Properties.BandwidthFilters
import Mathlib.Algebra.Order.Archimedean.Basic
import Mathlib.Data.Rat.Floor
import Mathlib.Tactic.Linarith
import Mathlib.Tactic.Positivity

/-!
# Which packets the token bucket lets through

The bucket never holds more than `4 * mtu` tokens, and while a packet waits for it nothing is taken
out.  So the loop of `sender_loop` is left, and the slot of `drain_sender` is emptied, exactly for
packets of at most that many bytes (`senderWait_left_iff`, `drainSlot_emptied_iff`).  What is asked
of the refills for that is that time goes on by a microsecond from one to the next, and that the
rate is not zero, which it never is (`BandwidthEstimator.bytesPerSecond_pos`).
-/

namespace Damen

/-! ## The rate -/

namespace BandwidthEstimator

lemma floor_onAck (b : BandwidthEstimator) (bytes : ℕ) (rtt : Int) :
    (b.onAck bytes rtt).floor = b.floor := by
  have hfeed : (feedRtt b rtt).floor = b.floor := by
    unfold feedRtt
    dsimp only
    split_ifs <;> rfl
  unfold onAck
  dsimp only
  split
  · rfl
  · split <;> exact hfeed

lemma floor_pos (initial : UInt64) (calls : List Call) : 0 < (runCalls initial calls).floor := by
  induction calls using List.reverseRecOn with
  | nil =>
      unfold runCalls create
      dsimp only [List.foldl_nil]
      split
      · decide
      · next hne => exact UInt64.pos_iff_ne_zero.mpr hne
  | append_singleton calls call ih =>
      rw [runCalls, List.foldl_append, ← runCalls, List.foldl_cons, List.foldl_nil]
      cases call with
      | onAck bytes rtt => exact (floor_onAck _ bytes rtt).symm ▸ ih
      | onLateRatio lateRatio => exact ih
      | seedBandwidth bytesPerSecond =>
          unfold apply seedBandwidth
          dsimp only
          split
          · exact ih
          · next hne => exact UInt64.pos_iff_ne_zero.mpr hne

/-- The pacing rate is never zero. -/
lemma bytesPerSecond_pos (initial : UInt64) (calls : List Call) :
    0 < (runCalls initial calls).bytesPerSecond := by
  have hfloor := floor_pos initial calls
  unfold bytesPerSecond
  rw [show max (runCalls initial calls).floor _ =
    if (runCalls initial calls).floor ≤ _ then _ else (runCalls initial calls).floor from rfl]
  split
  · next hle => exact UInt64.lt_of_lt_of_le hfloor hle
  · exact hfloor

end BandwidthEstimator

namespace Transport
namespace Pacer

/-! ## Refills -/

/-- The refills of a wait: each reads a rate that is not zero, at least a microsecond after the one
before. -/
structure Steady (p : Pacer) (rounds : ℕ → Refill) : Prop where
  rate : ∀ n, 0 < (rounds n).bytesPerSecond
  first : p.time + 1000 ≤ (rounds 0).now
  next : ∀ n, (rounds n).now + 1000 ≤ (rounds (n + 1)).now

/-- The bucket after some refills. -/
def after (p : Pacer) (mtu : ℕ) (rounds : ℕ → Refill) : ℕ → Pacer
  | 0 => p
  | n + 1 => (after p mtu rounds n).refill mtu (rounds n)

lemma after_succ (p : Pacer) (mtu : ℕ) (rounds : ℕ → Refill) (n : ℕ) :
    p.after mtu rounds (n + 1) = (p.refill mtu (rounds 0)).after mtu
      (fun k => rounds (k + 1)) n := by
  induction n with
  | zero => rfl
  | succ n ih => rw [after, ih, after]

section

variable {p : Pacer} {mtu : ℕ} {rounds : ℕ → Refill} {r : Refill}

lemma refill_le (h : p.tokens ≤ mtu * 4) (r : Refill) : (p.refill mtu r).tokens ≤ mtu * 4 := by
  unfold refill
  dsimp only
  split
  · exact h
  · split
    · exact le_refl _
    · next hle => exact not_lt.mp hle

lemma after_le (h : p.tokens ≤ mtu * 4) (rounds : ℕ → Refill) (n : ℕ) :
    (p.after mtu rounds n).tokens ≤ mtu * 4 := by
  induction n with
  | zero => exact h
  | succ n ih => exact refill_le ih _

lemma toMicros_pos {d : Int} (h : 1000 ≤ d) : 1 ≤ toMicros d := by
  rw [toMicros, Int.tdiv_eq_ediv_of_nonneg (by omega)]
  omega

/-- A refill after a microsecond brings in at least a millionth of a token. -/
lemma refill_spec (hrate : 0 < r.bytesPerSecond) (htime : p.time + 1000 ≤ r.now) :
    (p.refill mtu r).time = r.now ∧
      min ((mtu : ℚ) * 4) (p.tokens + 1 / 1000000) ≤ (p.refill mtu r).tokens := by
  have helapsed : 1 ≤ toMicros (r.now - p.time) := toMicros_pos (Int.le_sub_left_of_add_le htime)
  have hbytes : (1 : ℚ) ≤ r.bytesPerSecond.toNat := by
    exact_mod_cast UInt64.lt_iff_toNat_lt.mp hrate
  have hmicros : (1 : ℚ) ≤ toMicros (r.now - p.time) := by exact_mod_cast helapsed
  have hflow : (1 : ℚ) ≤ (r.bytesPerSecond.toNat : ℚ) * toMicros (r.now - p.time) :=
    one_le_mul_of_one_le_of_one_le hbytes hmicros
  unfold refill
  dsimp only
  rw [if_neg (by omega)]
  refine ⟨rfl, ?_⟩
  split
  · exact min_le_left _ _
  · refine le_trans (min_le_right _ _) ?_
    linarith

lemma after_time (h : Steady p rounds) (n : ℕ) :
    (p.after mtu rounds n).time + 1000 ≤ (rounds n).now := by
  induction n with
  | zero => exact h.first
  | succ n ih =>
      rw [after, (refill_spec (h.rate n) ih).1]
      exact h.next n

lemma le_after (h : Steady p rounds) (n : ℕ) :
    min ((mtu : ℚ) * 4) (p.tokens + n / 1000000) ≤ (p.after mtu rounds n).tokens := by
  induction n with
  | zero => simp [after]
  | succ n ih =>
      have htime : (p.after mtu rounds n).time + 1000 ≤ (rounds n).now := after_time h n
      have hstep : _ ≤ ((p.after mtu rounds n).refill mtu (rounds n)).tokens :=
        (refill_spec (h.rate n) htime).2
      have hflow : p.tokens + ((n + 1 : ℕ) : ℚ) / 1000000 =
          p.tokens + n / 1000000 + 1 / 1000000 := by
        push_cast
        ring
      refine le_trans (le_min (min_le_left _ _) ?_) hstep
      rw [hflow]
      -- what the cap cuts off it cuts off on both sides
      rcases le_total ((mtu : ℚ) * 4) (p.tokens + n / 1000000) with hle | hle
      · rw [min_eq_left hle] at ih
        exact le_trans (min_le_left _ _) (by linarith)
      · rw [min_eq_right hle] at ih
        exact le_trans (min_le_right _ _) (by linarith)

/-- There will be enough, if the cap allows it. -/
lemma exists_enough (h : Steady p rounds) {cost : ℕ} (hcost : cost ≤ 4 * mtu) :
    ∃ n, (cost : ℚ) ≤ (p.after mtu rounds (n + 1)).tokens := by
  obtain ⟨n, hn⟩ := exists_nat_ge (((cost : ℚ) - p.tokens) * 1000000)
  refine ⟨n, le_trans (le_min ?_ ?_) (le_after h (n + 1))⟩
  · have hcast : (cost : ℚ) ≤ ((4 * mtu : ℕ) : ℚ) := by exact_mod_cast hcost
    push_cast at hcast
    linarith
  · push_cast
    linarith

lemma not_enough (h : p.tokens ≤ mtu * 4) {cost : ℕ} (hcost : 4 * mtu < cost) (rounds : ℕ → Refill)
    (n : ℕ) :
    (p.after mtu rounds n).tokens < cost := by
  have hcast : ((4 * mtu : ℕ) : ℚ) < cost := by exact_mod_cast hcost
  have hle := after_le h rounds n
  push_cast at hcast
  linarith

lemma exists_steady (p : Pacer) : ∃ rounds, Steady p rounds := by
  have hone : (0 : UInt64) < 1 := by decide
  refine ⟨fun n => ⟨1, p.time + 1000 * ((n : Int) + 1)⟩, fun _ => hone, ?_, fun n => ?_⟩
  · exact Int.le_of_eq rfl
  · rw [add_assoc]
    refine Int.add_le_add_left ?_ _
    push_cast
    omega

end

/-! ## The two waits -/

/-- The first `n` of the refills. -/
def firstRounds (rounds : ℕ → Refill) (n : ℕ) : List Refill := (List.range n).map rounds

lemma firstRounds_succ (rounds : ℕ → Refill) (n : ℕ) :
    firstRounds rounds (n + 1) = rounds 0 :: firstRounds (fun k => rounds (k + 1)) n := by
  rw [firstRounds, List.range_succ_eq_map, List.map_cons, List.map_map]
  rfl

variable {mtu : ℕ}

/-- If the first refill does not give enough, one behind it has to. -/
lemma exists_enough_succ {p : Pacer} {cost : ℕ} {rounds : ℕ → Refill}
    (hless : (p.refill mtu (rounds 0)).tokens < cost) (n : ℕ) :
    (∃ k < n + 1, (cost : ℚ) ≤ (p.after mtu rounds (k + 1)).tokens) ↔
      ∃ k < n, (cost : ℚ) ≤
        ((p.refill mtu (rounds 0)).after mtu (fun k => rounds (k + 1)) (k + 1)).tokens := by
  constructor
  · rintro ⟨k, hk, henough⟩
    rw [after_succ] at henough
    cases k with
    | zero => exact absurd henough (not_le.mpr hless)
    | succ k => exact ⟨k, by omega, henough⟩
  · rintro ⟨k, hk, henough⟩
    exact ⟨k + 1, by omega, by rwa [after_succ]⟩

/-- `sender_loop` goes on at the first refill that gives enough. -/
lemma senderWait_isSome_iff (mtu cost : ℕ) (p : Pacer) (rounds : ℕ → Refill) (n : ℕ) :
    (senderWait mtu cost p (firstRounds rounds n)).isSome ↔
      ∃ k < n, (cost : ℚ) ≤ (p.after mtu rounds (k + 1)).tokens := by
  induction n generalizing p rounds with
  | zero => simp [firstRounds, senderWait]
  | succ n ih =>
      rw [firstRounds_succ, senderWait]
      split
      · next hless =>
          rw [ih]
          exact (exists_enough_succ hless n).symm
      · next henough => exact iff_of_true rfl ⟨0, by omega, not_lt.mp henough⟩

/-- The slot is emptied at the first refill that gives enough. -/
lemma drainSlot_none_iff {α : Type} (mtu : ℕ) (size : α → ℕ) {ready : α → Bool} {packet : α}
    (hready : ready packet = true) (p : Pacer) {o : Outbound α}
    (hslot : o.litePending = some packet)
    (rounds : ℕ → Refill) (n : ℕ) :
    ((firstRounds rounds n).foldl (drainSlot mtu size ready) (p, o)).2.litePending = none ↔
      ∃ k < n, (size packet : ℚ) ≤ (p.after mtu rounds (k + 1)).tokens := by
  induction n generalizing p rounds with
  | zero => simp [firstRounds, hslot]
  | succ n ih =>
      have hkept : o.flush ready false = o := by simp [Outbound.flush, hslot, hready]
      have hsent : (o.flush ready true).litePending = none := by
        simp [Outbound.flush, hslot, hready]
      have hempty : ∀ (rs : List Refill) (s : Pacer × Outbound α), s.2.litePending = none →
          (rs.foldl (drainSlot mtu size ready) s).2.litePending = none := by
        intro rs
        induction rs with
        | nil => exact fun s hs => hs
        | cons r rs ihrs =>
            intro s hs
            rw [List.foldl_cons]
            refine ihrs _ ?_
            simp only [drainSlot, hs]
      rw [firstRounds_succ, List.foldl_cons]
      simp only [drainSlot, hslot, hready, not_true_eq_false, if_false, hkept]
      split
      · next hless =>
          rw [ih]
          exact (exists_enough_succ hless n).symm
      · next henough =>
          exact iff_of_true (hempty _ _ hsent) ⟨0, by omega, not_lt.mp henough⟩

/-- A wait comes to an end, however the refills go, exactly if the cap covers the cost. -/
lemma enough_iff {p : Pacer} (h : p.tokens ≤ mtu * 4) (cost : ℕ) :
    (∀ rounds, Steady p rounds → ∃ n, ∃ k < n, (cost : ℚ) ≤ (p.after mtu rounds (k + 1)).tokens) ↔
      cost ≤ 4 * mtu := by
  constructor
  · intro hall
    by_contra hcost
    obtain ⟨rounds, hrounds⟩ := exists_steady p
    obtain ⟨n, k, -, henough⟩ := hall rounds hrounds
    exact absurd henough (not_le.mpr (not_enough h (not_le.mp hcost) rounds (k + 1)))
  · intro hcost rounds hrounds
    obtain ⟨k, hk⟩ := exists_enough hrounds hcost
    exact ⟨k + 1, k, by omega, hk⟩

lemma senderWait_left_iff {p : Pacer} (h : p.tokens ≤ mtu * 4) (cost : ℕ) :
    (∀ rounds, Steady p rounds → ∃ n, (senderWait mtu cost p (firstRounds rounds n)).isSome) ↔
      cost ≤ 4 * mtu := by
  simp only [senderWait_isSome_iff]
  exact enough_iff h cost

lemma drainSlot_emptied_iff {α : Type} {p : Pacer} (h : p.tokens ≤ mtu * 4) (size : α → ℕ)
    {ready : α → Bool} {packet : α} (hready : ready packet = true) {o : Outbound α}
    (hslot : o.litePending = some packet) :
    (∀ rounds, Steady p rounds →
        ∃ n, ((firstRounds rounds n).foldl (drainSlot mtu size ready)
          (p, o)).2.litePending = none) ↔
      size packet ≤ 4 * mtu := by
  simp only [drainSlot_none_iff mtu size hready p hslot]
  exact enough_iff h (size packet)

end Pacer
end Transport
end Damen
