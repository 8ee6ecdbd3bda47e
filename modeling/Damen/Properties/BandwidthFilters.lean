import Damen.Framework.RingBuffer
import Damen.Model.Bandwidth
import Mathlib.Algebra.Ring.Int.Defs
import Mathlib.Data.List.Induction

/-!
# The filters of the bandwidth estimator

The estimator keeps three filters over its samples: the least round-trip time, a smoothed round-trip
time and the greatest of the last ten delivery rates.  `bandwidth_filters` says what they hold after
any run of calls on a new estimator.

The smoothed time is `(7 * old + sample) / 8`, rounded down, so it stays between the least and the
greatest sample (`ewma_between`); in particular it never gets back to the zero that stands for no
sample.  The rates are in a ring of ten cells (`RingBuffer`).  `seed_bandwidth` replaces the
estimate until the next rate.

Round-trip times below 2^50 leave room for the products of `on_ack` and `recompute_gain` in 64 bits
(`products_fit`), so the model has them as integers.
-/

namespace Damen
namespace BandwidthEstimator

/-- A call of the estimator. -/
inductive Call
  | onAck (bytes : ℕ) (rtt : Int)
  | onLateRatio (lateRatio : Float)
  | seedBandwidth (bytesPerSecond : UInt64)

def apply (b : BandwidthEstimator) : Call → BandwidthEstimator
  | .onAck bytes rtt => b.onAck bytes rtt
  | .onLateRatio lateRatio => b.onLateRatio lateRatio
  | .seedBandwidth bytesPerSecond => b.seedBandwidth bytesPerSecond

/-- A new estimator after the calls. -/
def runCalls (initial : UInt64) (calls : List Call) : BandwidthEstimator :=
  calls.foldl apply (create initial)

/-- The round-trip sample of a call, if it is positive. -/
def Call.rttSample : Call → Option Int
  | .onAck _ rtt => if 0 < rtt then some rtt else none
  | _ => none

/-- The delivery-rate sample of a call, in bytes per second. -/
def Call.rateSample : Call → Option ℕ
  | .onAck bytes rtt =>
      if 0 < rtt ∧ 0 < bytes then some (max 1 (bytes * 1000000 / rtt.toNat)) else none
  | _ => none

def rttSamples (calls : List Call) : List Int := calls.filterMap Call.rttSample

def rateSamples (calls : List Call) : List ℕ := calls.filterMap Call.rateSample

/-- The last ten of a list, or all if there are fewer. -/
def lastTen (l : List ℕ) : List ℕ := l.drop (l.length - 10)

/-- Byte counts and round-trip times in the range of the estimator. -/
def Call.InRange : Call → Prop
  | .onAck bytes rtt => bytes < 2 ^ 44 ∧ rtt < 2 ^ 50
  | _ => True

/-! ## Round-trip times -/

/-- The least and the smoothed time of the samples; zero before the first one. -/
def TracksRtt (b : BandwidthEstimator) (samples : List Int) : Prop :=
  samples = [] ∧ b.rtProp = 0 ∧ b.rtt = 0 ∨
    samples.min? = some b.rtProp ∧ 0 < b.rtProp ∧ b.rtProp ≤ b.rtt ∧
      ∃ greatest, samples.max? = some greatest ∧ b.rtt ≤ greatest

lemma ewma_between {low high old sample : Int} (hlow : 0 < low) (hold : low ≤ old ∧ old ≤ high)
    (hsample : low ≤ sample ∧ sample ≤ high) :
    low ≤ (old * 7 + sample).tdiv 8 ∧ (old * 7 + sample).tdiv 8 ≤ high := by
  rw [Int.tdiv_eq_ediv_of_nonneg (by omega)]
  omega

lemma min?_concat {l : List Int} {m x : Int} (h : l.min? = some m) :
    (l ++ [x]).min? = some (min m x) := by
  obtain ⟨hmem, hle⟩ := List.min?_eq_some_iff.mp h
  refine List.min?_eq_some_iff.mpr ⟨?_, fun y hy => ?_⟩
  · rcases min_choice m x with heq | heq <;> rw [heq]
    · exact List.mem_append_left _ hmem
    · exact List.mem_append_right _ (List.mem_singleton.mpr rfl)
  · rcases List.mem_append.mp hy with hy | hy
    · exact le_trans (min_le_left m x) (hle y hy)
    · rw [List.mem_singleton.mp hy]
      exact min_le_right m x

lemma max?_concat {l : List Int} {m x : Int} (h : l.max? = some m) :
    (l ++ [x]).max? = some (max m x) := by
  obtain ⟨hmem, hle⟩ := List.max?_eq_some_iff.mp h
  refine List.max?_eq_some_iff.mpr ⟨?_, fun y hy => ?_⟩
  · rcases max_choice m x with heq | heq <;> rw [heq]
    · exact List.mem_append_left _ hmem
    · exact List.mem_append_right _ (List.mem_singleton.mpr rfl)
  · rcases List.mem_append.mp hy with hy | hy
    · exact le_trans (hle y hy) (le_max_left m x)
    · rw [List.mem_singleton.mp hy]
      exact le_max_right m x

lemma feedRtt_fields (b : BandwidthEstimator) (hprop : 0 < b.rtProp) (hne : b.rtt ≠ 0) (rtt : Int) :
    (b.feedRtt rtt).rtProp = min b.rtProp rtt ∧ (b.feedRtt rtt).rtt = (b.rtt * 7 + rtt).tdiv 8 := by
  unfold feedRtt
  by_cases hlt : rtt < b.rtProp
  · simp only [hlt, or_true, if_true, if_neg hne]
    exact ⟨(min_eq_right hlt.le).symm, trivial⟩
  · simp only [hlt, hprop.ne', or_false, if_false, if_neg hne]
    exact ⟨(min_eq_left (not_lt.mp hlt)).symm, trivial⟩

variable {b : BandwidthEstimator} {rtt : Int} {samples : List ℕ} {bytes : ℕ}

lemma feedRtt_tracks {samples : List Int} (h : TracksRtt b samples) (hpos : 0 < rtt) :
    TracksRtt (b.feedRtt rtt) (samples ++ [rtt]) := by
  right
  rcases h with ⟨rfl, hprop, hrtt⟩ | ⟨hmin, hprop, hle, greatest, hmax, hge⟩
  · have hfed : (b.feedRtt rtt).rtProp = rtt ∧ (b.feedRtt rtt).rtt = rtt := by
      simp [feedRtt, hprop, hrtt]
    rw [hfed.1, hfed.2]
    exact ⟨rfl, hpos, le_refl _, rtt, rfl, le_refl _⟩
  · have hne : b.rtt ≠ 0 := by omega
    obtain ⟨hpropNew, hrttNew⟩ := feedRtt_fields b hprop hne rtt
    rw [hpropNew, hrttNew]
    have hbetween : min b.rtProp rtt ≤ (b.rtt * 7 + rtt).tdiv 8 ∧
        (b.rtt * 7 + rtt).tdiv 8 ≤ max greatest rtt :=
      ewma_between (by omega) (by omega) (by omega)
    exact ⟨min?_concat hmin, by omega, hbetween.1, _, max?_concat hmax, hbetween.2⟩

/-! ## Delivery rates -/

/-- The ring of the estimator holds the rates, and the estimate is the greatest of the last ten. -/
def TracksRate (b : BandwidthEstimator) (samples : List ℕ) : Prop :=
  RingBuffer.Keeps kWindowSize (b.window.map UInt64.toNat) b.windowPos b.windowCount samples

/-- The round-trip part of `on_ack` leaves the ring. -/
lemma feedRtt_tracksRate (h : TracksRate b samples) (rtt : Int) :
    TracksRate (recomputeGain (b.feedRtt rtt)) samples := by
  have hring : (b.feedRtt rtt).window = b.window ∧ (b.feedRtt rtt).windowPos = b.windowPos ∧
      (b.feedRtt rtt).windowCount = b.windowCount := by
    unfold feedRtt
    dsimp only
    split_ifs <;> exact ⟨rfl, rfl, rfl⟩
  obtain ⟨hwindow, hpos, hcount⟩ := hring
  unfold TracksRate recomputeGain
  dsimp only
  rw [hwindow, hpos, hcount]
  exact h

/-- In range, the sample is computed without overflow. -/
lemma toNat_sample (hbytes : bytes < 2 ^ 44) (hrtt : rtt < 2 ^ 50) :
    (if UInt64.ofNat bytes * 1000000 / UInt64.ofNat rtt.toNat = 0 then (1 : UInt64)
      else UInt64.ofNat bytes * 1000000 / UInt64.ofNat rtt.toNat).toNat =
      max 1 (bytes * 1000000 / rtt.toNat) := by
  have hmul : (UInt64.ofNat bytes * 1000000).toNat = bytes * 1000000 := by
    rw [UInt64.toNat_mul, UInt64.toNat_ofNat_of_lt' (lt_trans hbytes (by decide))]
    exact Nat.mod_eq_of_lt (show bytes * 1000000 < 2 ^ 64 by omega)
  have hdiv : (UInt64.ofNat bytes * 1000000 / UInt64.ofNat rtt.toNat).toNat =
      bytes * 1000000 / rtt.toNat := by
    rw [UInt64.toNat_div, hmul, UInt64.toNat_ofNat_of_lt' (show rtt.toNat < 2 ^ 64 by omega)]
  split
  · next hzero =>
    rw [← hdiv, hzero]
    rfl
  · next hne =>
    have hpos : (UInt64.ofNat bytes * 1000000 / UInt64.ofNat rtt.toNat).toNat ≠ 0 := fun hzero =>
      hne (UInt64.toNat_inj.mp hzero)
    rw [hdiv] at hpos ⊢
    omega

lemma feedRate_tracks (h : TracksRate b samples) (hbytes : bytes < 2 ^ 44) (hrtt : rtt < 2 ^ 50) :
    TracksRate (b.feedRate bytes rtt) (samples ++ [max 1 (bytes * 1000000 / rtt.toNat)]) := by
  have hwrite := h.write (by decide) (max 1 (bytes * 1000000 / rtt.toNat))
  rw [← toNat_sample hbytes hrtt, ← List.map_set] at hwrite
  rw [← toNat_sample hbytes hrtt]
  exact hwrite

lemma toNat_foldl_max (l : List UInt64) (best : UInt64) :
    (l.foldl max best).toNat = (l.map UInt64.toNat).foldl max best.toNat := by
  induction l generalizing best with
  | nil => rfl
  | cons a l ih => rw [List.foldl_cons, ih, List.map_cons, List.foldl_cons, UInt64.toNat_max]

/-- Lists with the same members have the same greatest one. -/
lemma max?_congr {l l' : List ℕ} (h : ∀ x, x ∈ l ↔ x ∈ l') {m : ℕ} (hm : l.max? = some m) :
    l'.max? = some m := by
  obtain ⟨hmem, hle⟩ := List.max?_eq_some_iff.mp hm
  exact List.max?_eq_some_iff.mpr ⟨(h m).mp hmem, fun x hx => hle x ((h x).mpr hx)⟩

lemma feedRate_btlBw (h : TracksRate b samples) (hbytes : bytes < 2 ^ 44) (hrtt : rtt < 2 ^ 50) :
    (lastTen (samples ++ [max 1 (bytes * 1000000 / rtt.toNat)])).max? =
      some (b.feedRate bytes rtt).btlBw.toNat := by
  set all := samples ++ [max 1 (bytes * 1000000 / rtt.toNat)] with hall
  have hkeeps := feedRate_tracks h hbytes hrtt
  set b' := b.feedRate bytes rtt with hb'
  -- the new rate is among the last ten, so there is a greatest one, and it is positive
  have hnew : max 1 (bytes * 1000000 / rtt.toNat) ∈ lastTen all := by
    rw [lastTen, hall, List.length_append, List.length_singleton,
      List.drop_append_of_le_length (by omega)]
    exact List.mem_append_right _ (List.mem_singleton.mpr rfl)
  obtain ⟨m, hm⟩ : ∃ m, (lastTen all).max? = some m := by
    cases hmax : (lastTen all).max? with
    | some m => exact ⟨m, rfl⟩
    | none => exact absurd (List.max?_eq_none_iff.mp hmax ▸ hnew) List.not_mem_nil
  have hpos : 0 < m := by
    have hle := (List.max?_eq_some_iff.mp hm).2 _ hnew
    omega
  have hbest : ((b'.window.take b'.windowCount).foldl max 0).toNat = m := by
    have hsame : ((b'.window.take b'.windowCount).map UInt64.toNat).max? = some m := by
      refine max?_congr (fun x => ?_) hm
      rw [List.map_take, hkeeps.mem_take_iff (by decide)]
      rfl
    rw [toNat_foldl_max, List.foldl_max, hsame, Option.getD_some]
    exact Nat.zero_max m
  have hbtl : b'.btlBw = (b'.window.take b'.windowCount).foldl max 0 := by
    refine if_pos (UInt64.lt_iff_toNat_lt.mpr ?_)
    exact hbest.symm ▸ hpos
  rw [hm, hbtl, hbest]

/-! ## Runs -/

/-- Both filters. -/
structure Tracks (b : BandwidthEstimator) (calls : List Call) : Prop where
  rtt : TracksRtt b (rttSamples calls)
  rate : TracksRate b (rateSamples calls)

lemma tracks_create (initial : UInt64) : Tracks (create initial) [] where
  rtt := Or.inl ⟨rfl, rfl, rfl⟩
  rate := RingBuffer.keeps_nil rfl

lemma rttSamples_concat (calls : List Call) (call : Call) :
    rttSamples (calls ++ [call]) = rttSamples calls ++ call.rttSample.toList := by
  rw [rttSamples, List.filterMap_append]
  cases h : call.rttSample <;> simp [rttSamples, h]

lemma rateSamples_concat (calls : List Call) (call : Call) :
    rateSamples (calls ++ [call]) = rateSamples calls ++ call.rateSample.toList := by
  rw [rateSamples, List.filterMap_append]
  cases h : call.rateSample <;> simp [rateSamples, h]

/-- A call without a sample leaves the samples as they are. -/
lemma Tracks.of_no_samples {b' : BandwidthEstimator} {calls : List Call} (h : Tracks b calls)
    {call : Call} (hrtt : call.rttSample = none) (hrate : call.rateSample = none)
    (hprop : b'.rtProp = b.rtProp) (hsmooth : b'.rtt = b.rtt) (hwindow : b'.window = b.window)
    (hpos : b'.windowPos = b.windowPos) (hcount : b'.windowCount = b.windowCount) :
    Tracks b' (calls ++ [call]) := by
  constructor
  · rw [rttSamples_concat, hrtt, Option.toList_none, List.append_nil, TracksRtt, hprop, hsmooth]
    exact h.rtt
  · rw [rateSamples_concat, hrate, Option.toList_none, List.append_nil, TracksRate,
      hwindow, hpos, hcount]
    exact h.rate

lemma Tracks.onAck {calls : List Call} (h : Tracks b calls) (hbytes : bytes < 2 ^ 44)
    (hrtt : rtt < 2 ^ 50) : Tracks (b.onAck bytes rtt)
    (calls ++ [.onAck bytes rtt]) := by
  unfold BandwidthEstimator.onAck
  by_cases hpos : 0 < rtt
  · rw [if_neg (not_le.mpr hpos)]
    have hfed : TracksRtt (recomputeGain (b.feedRtt rtt))
        (rttSamples (calls ++ [.onAck bytes rtt])) := by
      rw [rttSamples_concat, Call.rttSample, if_pos hpos]
      exact feedRtt_tracks h.rtt hpos
    have hrate := feedRtt_tracksRate h.rate rtt
    dsimp only
    by_cases hzero : bytes = 0
    · rw [if_pos hzero]
      refine ⟨hfed, ?_⟩
      rw [rateSamples_concat, Call.rateSample, if_neg (by omega), Option.toList_none,
        List.append_nil]
      exact hrate
    · rw [if_neg hzero]
      refine ⟨hfed, ?_⟩
      rw [rateSamples_concat, Call.rateSample, if_pos ⟨hpos, Nat.pos_of_ne_zero hzero⟩]
      exact feedRate_tracks hrate hbytes hrtt
  · rw [if_pos (not_lt.mp hpos)]
    exact h.of_no_samples (if_neg hpos) (if_neg fun hboth => hpos hboth.1) rfl rfl rfl rfl rfl

lemma Tracks.apply {calls : List Call} (h : Tracks b calls) {call : Call} (hrange : call.InRange) :
    Tracks (b.apply call) (calls ++ [call]) := by
  cases call with
  | onAck bytes rtt => exact h.onAck hrange.1 hrange.2
  | onLateRatio lateRatio => exact h.of_no_samples rfl rfl rfl rfl rfl rfl rfl
  | seedBandwidth bytesPerSecond =>
      unfold BandwidthEstimator.apply seedBandwidth
      dsimp only
      split
      · exact h.of_no_samples rfl rfl rfl rfl rfl rfl rfl
      · exact h.of_no_samples rfl rfl rfl rfl rfl rfl rfl

lemma tracks_runCalls (initial : UInt64) {calls : List Call}
    (hrange : ∀ call ∈ calls, call.InRange) :
    Tracks (runCalls initial calls) calls := by
  induction calls using List.reverseRecOn with
  | nil => exact tracks_create initial
  | append_singleton calls call ih =>
      rw [runCalls, List.foldl_append]
      exact (ih fun c hc => hrange c (List.mem_append_left _ hc)).apply
        (hrange call (List.mem_append_right _ (List.mem_singleton.mpr rfl)))

/-- After any calls on a new estimator: once there is a positive round-trip sample, `m_rt_prop` is
the least of them and `m_rtt` lies between it and the greatest; and right behind a call with a
delivery rate, `m_btl_bw` is the greatest of the last ten rates. -/
theorem bandwidth_filters (initial : UInt64) (calls : List Call)
    (hrange : ∀ call ∈ calls, call.InRange) :
    (rttSamples calls ≠ [] →
      (rttSamples calls).min? = some (runCalls initial calls).rtProp ∧
        (runCalls initial calls).rtProp ≤ (runCalls initial calls).rtt ∧
        ∃ greatest, (rttSamples calls).max? = some greatest ∧
          (runCalls initial calls).rtt ≤ greatest) ∧
    ∀ before bytes rtt, calls = before ++ [.onAck bytes rtt] → 0 < rtt → 0 < bytes →
      (lastTen (rateSamples calls)).max? = some (runCalls initial calls).btlBw.toNat := by
  constructor
  · intro hne
    rcases (tracks_runCalls initial hrange).rtt with ⟨hnil, -⟩ | ⟨hmin, -, hle, hmax⟩
    · exact absurd hnil hne
    · exact ⟨hmin, hle, hmax⟩
  · rintro before bytes rtt rfl hpos hbytes
    obtain ⟨hbytesRange, hrttRange⟩ :=
      hrange _ (List.mem_append_right _ (List.mem_singleton.mpr rfl))
    have hbefore := tracks_runCalls initial fun c hc => hrange c (List.mem_append_left _ hc)
    have hrun : runCalls initial (before ++ [.onAck bytes rtt]) =
        feedRate (recomputeGain ((runCalls initial before).feedRtt rtt)) bytes rtt := by
      rw [runCalls, List.foldl_append]
      change (runCalls initial before).onAck bytes rtt = _
      rw [onAck, if_neg (not_le.mpr hpos)]
      exact if_neg hbytes.ne'
    rw [hrun, rateSamples_concat, Call.rateSample, if_pos ⟨hpos, hbytes⟩]
    exact feedRate_btlBw (feedRtt_tracksRate hbefore.rate rtt) hbytesRange hrttRange

/-- Two acknowledged packets and a seed in between: the least time, and the greater rate. -/
theorem bandwidth_filters_two :
    (rttSamples [.onAck 1000 20000, .seedBandwidth 5, .onAck 3000 10000]).min? = some 10000 ∧
      (lastTen (rateSamples [.onAck 1000 20000, .seedBandwidth 5, .onAck 3000 10000])).max? =
        some (runCalls 1 [.onAck 1000 20000, .seedBandwidth 5, .onAck 3000 10000]).btlBw.toNat := by
  have hrange : ∀ call ∈ [Call.onAck 1000 20000, .seedBandwidth 5, .onAck 3000 10000],
      call.InRange := by
    simp [Call.InRange]
  obtain ⟨-, hrate⟩ := bandwidth_filters 1 _ hrange
  exact ⟨by decide,
    hrate [.onAck 1000 20000, .seedBandwidth 5] 3000 10000 rfl (by decide) (by decide)⟩

/-! ## No overflow -/

/-- The previous smoothed time is one that the estimator had. -/
lemma prevRtt_apply (b : BandwidthEstimator) (call : Call) :
    (b.apply call).prevRtt = b.prevRtt ∨ (b.apply call).prevRtt = b.rtt := by
  cases call with
  | onLateRatio lateRatio => exact Or.inl rfl
  | seedBandwidth bytesPerSecond =>
      left
      unfold apply seedBandwidth
      dsimp only
      split <;> rfl
  | onAck bytes rtt =>
      have hfed : (b.feedRtt rtt).prevRtt = b.prevRtt ∨ (b.feedRtt rtt).prevRtt = b.rtt := by
        unfold feedRtt
        dsimp only
        split_ifs
        · exact Or.inl rfl
        · exact Or.inr rfl
        · exact Or.inl rfl
        · exact Or.inr rfl
      unfold apply onAck
      dsimp only
      split
      · exact Or.inl rfl
      · split
        · exact hfed
        · exact hfed

lemma TracksRtt.rtt_lt {samples : List Int} (h : TracksRtt b samples) {bound : Int}
    (hbound : 0 < bound) (hsamples : ∀ x ∈ samples, x < bound) : 0 ≤ b.rtt ∧ b.rtt < bound := by
  rcases h with ⟨-, -, hzero⟩ | ⟨-, hpos, hle, greatest, hmax, hge⟩
  · omega
  · have hlt := hsamples greatest (List.max?_eq_some_iff.mp hmax).1
    omega

lemma rttSamples_lt {calls : List Call} (hrange : ∀ call ∈ calls, call.InRange) :
    ∀ x ∈ rttSamples calls, x < 2 ^ 50 := by
  intro x hx
  obtain ⟨call, hmem, hsample⟩ := List.mem_filterMap.mp hx
  cases call with
  | onAck bytes rtt =>
      rw [Call.rttSample] at hsample
      split at hsample
      · exact Option.some.inj hsample ▸ (hrange _ hmem).2
      · exact absurd hsample (by simp)
  | onLateRatio lateRatio => exact absurd hsample (by simp [Call.rttSample])
  | seedBandwidth bytesPerSecond => exact absurd hsample (by simp [Call.rttSample])

/-- The times that `on_ack` and `recompute_gain` multiply, by 7, 100 and 105, are below 2^50. -/
theorem products_fit (initial : UInt64) (calls : List Call)
    (hrange : ∀ call ∈ calls, call.InRange) :
    (0 ≤ (runCalls initial calls).rtt ∧ (runCalls initial calls).rtt < 2 ^ 50) ∧
      0 ≤ (runCalls initial calls).prevRtt ∧ (runCalls initial calls).prevRtt < 2 ^ 50 := by
  refine ⟨(tracks_runCalls initial hrange).rtt.rtt_lt (by decide) (rttSamples_lt hrange), ?_⟩
  induction calls using List.reverseRecOn with
  | nil => exact ⟨le_refl 0, show (0 : Int) < 2 ^ 50 by decide⟩
  | append_singleton calls call ih =>
      have hcalls : ∀ c ∈ calls, c.InRange := fun c hc => hrange c (List.mem_append_left _ hc)
      rw [runCalls, List.foldl_append]
      rcases prevRtt_apply (runCalls initial calls) call with heq | heq
      · exact heq ▸ ih hcalls
      · exact heq ▸ (tracks_runCalls initial hcalls).rtt.rtt_lt (by decide) (rttSamples_lt hcalls)

end BandwidthEstimator
end Damen
