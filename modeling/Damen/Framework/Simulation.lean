import Damen.Framework.Run

/-!
# A machine that cannot fail, and one that simulates it

`feed` runs a step function that always succeeds.  A fallible machine whose steps succeed with the
same outputs, from states related to those of such a function, succeeds along every run
(`run_simulates`).

`feed_fifo` is the law of a queue: if each step puts what it takes at the end of what is held and
hands out from the front, then all that was handed out, and what is held at the end, is all that was
held and taken, in order.
-/

namespace Machine

variable {σ τ ι ω φ α : Type*}

/-- The final state and the outputs of a run that cannot fail. -/
def feed (step : τ → ι → τ × ω) (t : τ) : List ι → τ × List ω
  | [] => (t, [])
  | i :: is => ((feed step (step t i).1 is).1, (step t i).2 :: (feed step (step t i).1 is).2)

variable {step : σ → ι → Except φ (σ × ω)} {abstract : τ → ι → τ × ω}

lemma run_simulates {R : σ → τ → Prop}
    (hstep : ∀ s t i, R s t → ∃ s', step s i = .ok (s', (abstract t i).2) ∧ R s' (abstract t i).1)
    {s : σ} {t : τ} (hR : R s t) (is : List ι) :
    ∃ s', run step s is = .ok (s', (feed abstract t is).2) ∧ R s' (feed abstract t is).1 := by
  induction is generalizing s t with
  | nil => exact ⟨s, rfl, hR⟩
  | cons i is ih =>
      obtain ⟨s', hs, hR'⟩ := hstep s t i hR
      obtain ⟨s'', hrun, hR''⟩ := ih hR'
      exact ⟨s'', run_cons_ok.mpr ⟨s', _, _, hs, hrun, rfl⟩, hR''⟩

/-- What every step keeps, a run keeps. -/
lemma feed_keeps {I : τ → Prop} (hstep : ∀ t i, I t → I (abstract t i).1) {t : τ} (ht : I t)
    (is : List ι) : I (feed abstract t is).1 := by
  induction is generalizing t with
  | nil => exact ht
  | cons i is ih => exact ih (hstep t i ht)

lemma feed_fifo {held : τ → List α} {took : ι → ω → List α} {gave : ω → List α}
    (hstep : ∀ t i, gave (abstract t i).2 ++ held (abstract t i).1 =
      held t ++ took i (abstract t i).2)
    (t : τ) (is : List ι) :
    (feed abstract t is).2.flatMap gave ++ held (feed abstract t is).1 =
      held t ++ (is.zip (feed abstract t is).2).flatMap fun e => took e.1 e.2 := by
  induction is generalizing t with
  | nil => simp [feed]
  | cons i is ih =>
      rw [feed, List.flatMap_cons, List.append_assoc, ih, List.zip_cons_cons, List.flatMap_cons,
        ← List.append_assoc, ← List.append_assoc, hstep]

end Machine
