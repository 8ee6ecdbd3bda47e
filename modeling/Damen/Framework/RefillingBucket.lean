import Mathlib.Algebra.BigOperators.Group.List.Basic
import Mathlib.Algebra.Order.Ring.Defs
import Mathlib.Tactic.Linarith
import Mathlib.Tactic.Ring

/-!
# A bucket that refills

A bucket of tokens that refills at a constant rate up to its capacity, over any ordered ring.  Its
state is the number of tokens at the time it was last looked at, or `none` for a bucket that is full
because it never was; `level` is what it holds at a later time.

* `level_look`: looking at the bucket does not change what it holds later;
* `Bounded` says that what was taken since any time, and what is left, is at most the capacity and
  what has flowed in since; `Bounded.later`, `Bounded.look` and `Bounded.take` keep it, and
  `Bounded.taken_le` is the bound on a window.
-/

namespace RefillingBucket

variable {α : Type*} [CommRing α] [LinearOrder α]

/-- What the bucket holds at time `t`. -/
def level (rate capacity : α) : Option (α × α) → α → α
  | none, _ => capacity
  | some b, t => min capacity (b.1 + rate * (t - b.2))

/-- The bucket was last looked at by the time `t`, with a number of tokens in its range. -/
def Valid (capacity : α) (bucket : Option (α × α)) (t : α) : Prop :=
  ∀ b, bucket = some b → 0 ≤ b.1 ∧ b.1 ≤ capacity ∧ b.2 ≤ t

/-- What was taken since the time `s`; a taking is its time and its cost. -/
def takenSince (s : α) (takings : List (α × α)) : α := ((takings.filter (s ≤ ·.1)).map Prod.snd).sum

/-- What was taken since any time, and what is left, is at most the capacity and what has flowed
in. -/
structure Bounded (rate capacity : α) (bucket : Option (α × α)) (takings : List (α × α)) (t : α) :
    Prop where
  past : ∀ e ∈ takings, e.1 ≤ t
  since : ∀ s ≤ t, takenSince s takings + level rate capacity bucket t ≤ capacity + rate * (t - s)

variable {rate capacity t t' : α} {bucket : Option (α × α)} {takings : List (α × α)}

lemma level_le : level rate capacity bucket t ≤ capacity := by
  cases bucket with
  | none => exact le_refl _
  | some b => exact min_le_left _ _

lemma level_self {x : α} (hle : x ≤ capacity) : level rate capacity (some (x, t)) t = x := by
  rw [level, sub_self, mul_zero, add_zero, min_eq_right hle]

lemma Valid.later (h : Valid capacity bucket t) (hle : t ≤ t') : Valid capacity bucket t' :=
  fun b hb => ⟨(h b hb).1, (h b hb).2.1, le_trans (h b hb).2.2 hle⟩

lemma takenSince_of_later {s : α} (h : ∀ e ∈ takings, e.1 < s) : takenSince s takings = 0 := by
  rw [takenSince, List.filter_eq_nil_iff.mpr fun e he => by simpa using h e he]
  rfl

lemma takenSince_concat {s cost : α} (hle : s ≤ t) :
    takenSince s (takings ++ [(t, cost)]) = takenSince s takings + cost := by
  simp [takenSince, List.filter_append, hle]

/-- Looking at the bucket takes nothing out. -/
lemma Bounded.look (h : Bounded rate capacity bucket takings t) :
    Bounded rate capacity (some (level rate capacity bucket t, t)) takings t where
  past := h.past
  since := fun s hs => by
    rw [level_self level_le]
    exact h.since s hs

variable [IsStrictOrderedRing α]

/-! ## What the bucket holds -/

lemma Valid.level_nonneg (h : Valid capacity bucket t) (hrate : 0 ≤ rate)
    (hcapacity : 0 ≤ capacity) :
    0 ≤ level rate capacity bucket t := by
  cases bucket with
  | none => exact hcapacity
  | some b =>
      obtain ⟨hnonneg, -, hle⟩ := h b rfl
      have hflow : 0 ≤ rate * (t - b.2) := mul_nonneg hrate (sub_nonneg.mpr hle)
      exact le_min hcapacity (by linarith)

/-- No more flows in than the rate allows. -/
lemma level_later (hrate : 0 ≤ rate) (hle : t ≤ t') :
    level rate capacity bucket t' ≤ level rate capacity bucket t + rate * (t' - t) := by
  have hflow : 0 ≤ rate * (t' - t) := mul_nonneg hrate (sub_nonneg.mpr hle)
  cases bucket with
  | none => exact le_add_of_nonneg_right hflow
  | some b =>
      have hsum : b.1 + rate * (t' - b.2) = b.1 + rate * (t - b.2) + rate * (t' - t) := by ring
      rw [level, level, hsum, ← min_add_add_right]
      exact min_le_min_right _ (le_add_of_nonneg_right hflow)

/-- A bucket that is looked at holds the same later on. -/
lemma level_look (hrate : 0 ≤ rate) (hle : t ≤ t') :
    level rate capacity (some (level rate capacity bucket t, t)) t' =
      level rate capacity bucket t' := by
  have hflow : 0 ≤ rate * (t' - t) := mul_nonneg hrate (sub_nonneg.mpr hle)
  cases bucket with
  | none => exact min_eq_left (le_add_of_nonneg_right hflow)
  | some b =>
      have hsum : b.1 + rate * (t' - b.2) = b.1 + rate * (t - b.2) + rate * (t' - t) := by ring
      rw [level, level, level, hsum, ← min_add_add_right, ← min_assoc,
        min_eq_left (le_add_of_nonneg_right hflow)]

/-- Taking out what is there leaves a number of tokens in the range. -/
lemma valid_take {cost : α} (hcost : 0 ≤ cost) (hle : cost ≤ level rate capacity bucket t) :
    Valid capacity (some (level rate capacity bucket t - cost, t)) t := by
  rintro b hb
  cases hb
  have hlevel : level rate capacity bucket t ≤ capacity := level_le
  exact ⟨sub_nonneg.mpr hle, by linarith, le_refl _⟩

/-! ## What is taken in a window -/

lemma bounded_nil (t : α) (hrate : 0 ≤ rate) : Bounded rate capacity none [] t where
  past := fun _ he => absurd he List.not_mem_nil
  since := fun s hs => by
    have hflow : 0 ≤ rate * (t - s) := mul_nonneg hrate (sub_nonneg.mpr hs)
    simpa [takenSince, level] using hflow

lemma Bounded.later (h : Bounded rate capacity bucket takings t) (hrate : 0 ≤ rate) (hle : t ≤ t') :
    Bounded rate capacity bucket takings t' where
  past := fun e he => le_trans (h.past e he) hle
  since := by
    intro s hs
    rcases le_or_gt s t with hst | hts
    · have hsince := h.since s hst
      have hlater : level rate capacity bucket t' ≤
          level rate capacity bucket t + rate * (t' - t) :=
        level_later hrate hle
      have hsum : rate * (t' - s) = rate * (t - s) + rate * (t' - t) := by ring
      linarith
    · -- nothing has been taken since `s`
      have hlevel : level rate capacity bucket t' ≤ capacity := level_le
      have hflow : 0 ≤ rate * (t' - s) := mul_nonneg hrate (sub_nonneg.mpr hs)
      rw [takenSince_of_later fun e he => lt_of_le_of_lt (h.past e he) hts]
      linarith

lemma Bounded.take (h : Bounded rate capacity bucket takings t) {cost : α} (hcost : 0 ≤ cost) :
    Bounded rate capacity (some (level rate capacity bucket t - cost, t))
      (takings ++ [(t, cost)]) t where
  past := by
    intro e he
    rcases List.mem_append.mp he with he | he
    · exact h.past e he
    · rw [List.mem_singleton.mp he]
  since := by
    intro s hs
    have hlevel : level rate capacity bucket t ≤ capacity := level_le
    have hsince := h.since s hs
    rw [takenSince_concat hs, level_self (by linarith)]
    linarith

/-- What is taken in a window is at most the capacity and what flows in during the window. -/
lemma Bounded.taken_le (h : Bounded rate capacity bucket takings t) (hrate : 0 ≤ rate)
    (hcapacity : 0 ≤ capacity) (hvalid : Valid capacity bucket t) {s : α} (hs : s ≤ t')
    (hle : t ≤ t') :
    takenSince s takings ≤ capacity + rate * (t' - s) := by
  have hsince := (h.later hrate hle).since s hs
  have hlevel := (hvalid.later hle).level_nonneg hrate hcapacity
  linarith

end RefillingBucket
