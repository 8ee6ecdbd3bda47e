import Mathlib.Data.List.Basic

/-!
# Runs of a fallible step function

A machine that reads one input at a time, may fail, and emits one output for each input it
survives.  `run` feeds it a list of inputs; a failure ends the run.  `Along` says that a
condition on the state before a step and its input holds at every step; it is decidable when the
condition is.

* `run_append_ok` splits a run;
* `along_iff` reads `Along` off the prefixes of the input, and `along_congr` exchanges the
  condition; `outputs_exchange` exchanges it for one on the outputs, which other steps of the run
  may meet;
* `run_invariant` carries an invariant along a run that succeeds, and `throughout_iff` says when
  something holds in every state of such a run; `run_outputs` does the same for the outputs;
* `Once` and `Until` speak about the first step that meets a condition, and `run_until` carries an
  invariant up to it;
* `Agree` compares what is observed of two runs on the same input, and `agree_iff` decides it by a
  relation between their states that every step keeps but those at which they part;
* `conserved_iff` keeps account of what the states hold, what comes in with the outputs and what is
  lost, and `passage_iff` of what a step takes and gives on;
* `run_total` shows that a run does succeed.
-/

namespace Machine

variable {σ ι ω φ : Type*}

/-- The final state and the outputs, one for each input. -/
@[grind]
def run (step : σ → ι → Except φ (σ × ω)) (s : σ) : List ι → Except φ (σ × List ω)
  | [] => .ok (s, [])
  | i :: is =>
      match step s i with
      | .error e => .error e
      | .ok (s', o) =>
          match run step s' is with
          | .error e => .error e
          | .ok (s'', os) => .ok (s'', o :: os)

/-- `P` holds of the state before each step and the input of that step, as far as the run goes. -/
def Along (step : σ → ι → Except φ (σ × ω)) (P : σ → ι → Prop) (s : σ) : List ι → Prop
  | [] => True
  | i :: is => P s i ∧ ∀ s' o, step s i = .ok (s', o) → Along step P s' is

variable {step : σ → ι → Except φ (σ × ω)}

instance Along.decidable {P : σ → ι → Prop} [∀ s i, Decidable (P s i)] :
    ∀ (s : σ) (is : List ι), Decidable (Along step P s is)
  | _, [] => isTrue trivial
  | s, i :: is =>
      match hstep : step s i with
      | .error e => decidable_of_iff (P s i)
          ⟨fun h => ⟨h, fun s' o h' => absurd (hstep.symm.trans h') (by simp)⟩, And.left⟩
      | .ok (s', o) =>
          have := Along.decidable (P := P) s' is
          decidable_of_iff (P s i ∧ Along step P s' is)
            ⟨fun h => ⟨h.1, fun t o' h' => by
              cases hstep.symm.trans h'
              exact h.2⟩, fun h => ⟨h.1, h.2 s' o hstep⟩⟩

variable {s s' : σ} {i : ι} {is js : List ι} {os : List ω} {P Q : σ → ι → Prop} {I : σ → Prop}

lemma run_cons_ok {s'' : σ} :
    run step s (i :: is) = .ok (s'', os) ↔
      ∃ s' o os', step s i = .ok (s', o) ∧ run step s' is = .ok (s'', os') ∧ os = o :: os' := by
  rw [run]
  constructor
  · intro h
    split at h
    · exact absurd h (by simp)
    · next s' o hstep =>
      split at h
      · exact absurd h (by simp)
      · next t os' hrun =>
        cases h
        exact ⟨s', o, os', hstep, hrun, rfl⟩
  · rintro ⟨s', o, os', hstep, hrun, rfl⟩
    rw [hstep]
    simp only [hrun]

lemma run_append_ok {s'' : σ} :
    run step s (is ++ js) = .ok (s'', os) ↔
      ∃ s' os₁ os₂, run step s is = .ok (s', os₁) ∧ run step s' js = .ok (s'', os₂) ∧
        os = os₁ ++ os₂ := by
  induction is generalizing s os with
  | nil =>
      constructor
      · exact fun h => ⟨s, [], os, rfl, h, rfl⟩
      · rintro ⟨s', os₁, os₂, hnil, h, rfl⟩
        cases hnil
        exact h
  | cons i is ih =>
      rw [List.cons_append, run_cons_ok]
      constructor
      · rintro ⟨t, o, os', hstep, hrun, rfl⟩
        obtain ⟨s', os₁, os₂, h₁, h₂, rfl⟩ := ih.mp hrun
        exact ⟨s', o :: os₁, os₂, run_cons_ok.mpr ⟨t, o, os₁, hstep, h₁, rfl⟩, h₂, rfl⟩
      · rintro ⟨s', os₁, os₂, h₁, h₂, rfl⟩
        obtain ⟨t, o, os', hstep, hrun, rfl⟩ := run_cons_ok.mp h₁
        exact ⟨t, o, os' ++ os₂, hstep, ih.mpr ⟨s', os', os₂, hrun, h₂, rfl⟩, rfl⟩

/-- A run with one more input at the end. -/
lemma run_concat_ok {s'' : σ} :
    run step s (is ++ [i]) = .ok (s'', os) ↔
      ∃ s' os₁ o, run step s is = .ok (s', os₁) ∧ step s' i = .ok (s'', o) ∧ os = os₁ ++ [o] := by
  rw [run_append_ok]
  constructor
  · rintro ⟨s', os₁, os₂, h₁, h₂, rfl⟩
    obtain ⟨t, o, os', hstep, hnil, rfl⟩ := run_cons_ok.mp h₂
    cases hnil
    exact ⟨s', os₁, o, h₁, hstep, rfl⟩
  · rintro ⟨s', os₁, o, h₁, hstep, rfl⟩
    exact ⟨s', os₁, [o], h₁, run_cons_ok.mpr ⟨s'', o, [], hstep, rfl, rfl⟩, rfl⟩

/-- A run that fails does so at a first step. -/
lemma run_error {e : φ} (h : run step s is = .error e) :
    ∃ before i after t os, is = before ++ i :: after ∧ run step s before = .ok (t, os) ∧
      step t i = .error e := by
  induction is generalizing s with
  | nil => cases h
  | cons i is ih =>
      cases hstep : step s i with
      | error e' =>
          rw [run, hstep] at h
          cases h
          exact ⟨[], i, is, s, [], rfl, rfl, hstep⟩
      | ok r =>
          obtain ⟨s', o⟩ := r
          cases hrun : run step s' is with
          | error e' =>
              simp only [run, hstep, hrun] at h
              cases h
              obtain ⟨before, j, after, t, os, rfl, hbefore, hj⟩ := ih hrun
              exact ⟨i :: before, j, after, t, o :: os, rfl,
                run_cons_ok.mpr ⟨s', o, os, hstep, hbefore, rfl⟩, hj⟩
          | ok r' => simp [run, hstep, hrun] at h

lemma length_of_run_ok (h : run step s is = .ok (s', os)) : os.length = is.length := by
  induction is generalizing s os with
  | nil =>
      cases h
      rfl
  | cons i is ih =>
      obtain ⟨t, o, os', -, hrun, rfl⟩ := run_cons_ok.mp h
      rw [List.length_cons, List.length_cons, ih hrun]

/-- `Along` read off the prefixes of the input: the condition holds wherever a run can get. -/
lemma along_iff :
    Along step P s is ↔ ∀ before i after, is = before ++ i :: after →
      ∀ t os, run step s before = .ok (t, os) → P t i := by
  induction is generalizing s with
  | nil => exact ⟨fun _ before i after h => absurd h.symm (by simp), fun _ => trivial⟩
  | cons j is ih =>
      constructor
      · rintro ⟨hj, hrest⟩ before i after heq t os hrun
        cases before with
        | nil =>
            obtain ⟨rfl, -⟩ := List.cons.inj heq
            cases hrun
            exact hj
        | cons b before =>
            obtain ⟨rfl, rfl⟩ := List.cons.inj heq
            obtain ⟨s', o, os', hstep, hrun', -⟩ := run_cons_ok.mp hrun
            exact ih.mp (hrest s' o hstep) before i after rfl t os' hrun'
      · intro h
        refine ⟨h [] j is rfl s [] rfl, fun s' o hstep => ih.mpr ?_⟩
        rintro before i after rfl t os hrun
        exact h (j :: before) i after rfl t (o :: os)
          (run_cons_ok.mpr ⟨s', o, os, hstep, hrun, rfl⟩)

lemma along_of_forall (h : ∀ s i, P s i) (s : σ) (is : List ι) : Along step P s is :=
  along_iff.mpr fun _ i _ _ t _ _ => h t i

lemma along_cons_iff {t : σ} {o : ω} (h : step s i = .ok (t, o)) :
    Along step P s (i :: is) ↔ P s i ∧ Along step P t is := by
  rw [Along]
  refine and_congr_right fun _ => ⟨fun hall => hall t o h, fun hrest t' o' h' => ?_⟩
  obtain ⟨rfl, -⟩ := Prod.mk.inj (Except.ok.inj (h.symm.trans h'))
  exact hrest

lemma Along.mono (h : Along step P s is) (himp : ∀ s i, P s i → Q s i) : Along step Q s is :=
  along_iff.mpr fun before i after heq t os hrun =>
    himp t i (along_iff.mp h before i after heq t os hrun)

lemma Along.left (h : Along step P s (is ++ js)) : Along step P s is :=
  along_iff.mpr fun before i after heq t os hrun =>
    along_iff.mp h before i (after ++ js) (by rw [heq, List.append_assoc, List.cons_append]) t os
      hrun

lemma along_append_iff (h : run step s is = .ok (s', os)) :
    Along step P s (is ++ js) ↔ Along step P s is ∧ Along step P s' js := by
  induction is generalizing s os with
  | nil =>
      cases h
      exact ⟨fun hjs => ⟨trivial, hjs⟩, And.right⟩
  | cons i is ih =>
      obtain ⟨t, o, os', ht, hrun, -⟩ := run_cons_ok.mp h
      rw [List.cons_append, along_cons_iff ht, along_cons_iff ht, ih hrun, and_assoc]

/-- If at every step the output and what the step leaves come to the same as a condition and what
the step finds, then so they do for the outputs of a run. -/
lemma outputs_exchange {W : σ → Prop} {Q : ω → Prop}
    (hkeep : ∀ s i s' o, I s → step s i = .ok (s', o) → I s')
    (hstep : ∀ s i s' o, I s → step s i = .ok (s', o) → (Q o ∧ W s' ↔ P s i ∧ W s)) (hs : I s)
    (h : run step s is = .ok (s', os)) : (∀ o ∈ os, Q o) ∧ W s' ↔ Along step P s is ∧ W s := by
  induction is generalizing s os with
  | nil =>
      cases h
      exact and_congr_left fun _ => iff_of_true (List.forall_mem_nil Q) trivial
  | cons i is ih =>
      obtain ⟨t, o, os', ht, hrun, rfl⟩ := run_cons_ok.mp h
      rw [along_cons_iff ht, List.forall_mem_cons, and_assoc, ih (hkeep s i t o hs ht) hrun,
        and_left_comm, and_comm, hstep s i t o hs ht, and_right_comm]

/-- Two conditions that come to the same in the states of an invariant, which a step that meets the
second keeps, come to the same along a run with `R` at every step. -/
lemma along_congr {R : σ → ι → Prop} (hiff : ∀ s i, I s → R s i → (P s i ↔ Q s i))
    (hkeep : ∀ s i s' o, I s → R s i → Q s i → step s i = .ok (s', o) → I s') (hs : I s)
    (hR : Along step R s is) : Along step P s is ↔ Along step Q s is := by
  induction is generalizing s with
  | nil => exact Iff.rfl
  | cons i is ih =>
      have hi := hiff s i hs hR.1
      constructor
      · rintro ⟨hP, hrest⟩
        have hQ := hi.mp hP
        refine ⟨hQ, fun s' o hstep => ?_⟩
        exact (ih (hkeep s i s' o hs hR.1 hQ hstep) (hR.2 s' o hstep)).mp (hrest s' o hstep)
      · rintro ⟨hQ, hrest⟩
        refine ⟨hi.mpr hQ, fun s' o hstep => ?_⟩
        exact (ih (hkeep s i s' o hs hR.1 hQ hstep) (hR.2 s' o hstep)).mpr (hrest s' o hstep)

/-- What every step keeps, a run keeps. -/
lemma run_invariant
    (hstep : ∀ s i s' o, I s → P s i → step s i = .ok (s', o) → I s') (hs : I s)
    (hP : Along step P s is) (h : run step s is = .ok (s', os)) : I s' := by
  induction is generalizing s os with
  | nil =>
      cases h
      exact hs
  | cons i is ih =>
      obtain ⟨t, o, os', ht, hrun, -⟩ := run_cons_ok.mp h
      exact ih (hstep s i t o hs hP.1 ht) (hP.2 t o ht) hrun

/-- What every step keeps whatever its input, a run keeps. -/
lemma run_keeps (hkeep : ∀ s i s' o, I s → step s i = .ok (s', o) → I s') (hs : I s)
    (h : run step s is = .ok (s', os)) : I s' :=
  run_invariant (P := fun _ _ => True) (fun t i t' o ht _ => hkeep t i t' o ht) hs
    (along_of_forall (fun _ _ => trivial) _ _) h

/-- What holds of the output of every step, from states that keep an invariant, holds of the outputs
of a run. -/
lemma run_outputs {P : ι → Prop} {Q : ω → Prop}
    (hstep : ∀ s i s' o, I s → P i → step s i = .ok (s', o) → I s' ∧ Q o) (hs : I s)
    (hP : ∀ i ∈ is, P i) (h : run step s is = .ok (s', os)) : ∀ o ∈ os, Q o := by
  induction is generalizing s os with
  | nil =>
      cases h
      exact List.forall_mem_nil Q
  | cons i is ih =>
      obtain ⟨t, o, os', ht, hrun, rfl⟩ := run_cons_ok.mp h
      obtain ⟨hI, hQ⟩ := hstep s i t o hs (hP i List.mem_cons_self) ht
      exact List.forall_mem_cons.mpr ⟨hQ, ih hI (fun j hj => hP j (List.mem_cons_of_mem i hj)) hrun⟩

/-- A result that was computed and checked. -/
lemma exists_ok_of_any {α : Type*} {r : Except φ α} {p : α → Bool} (h : r.toOption.any p = true) :
    ∃ a, r = .ok a ∧ p a = true := by
  cases r with
  | error e => exact absurd h (by simp [Except.toOption])
  | ok a => exact ⟨a, rfl, h⟩

/-- `Q` holds in every state of the run, the first and the last included. -/
def Throughout (step : σ → ι → Except φ (σ × ω)) (Q : σ → Prop) (s : σ) (is : List ι) : Prop :=
  ∀ before after, is = before ++ after → ∀ t os, run step s before = .ok (t, os) → Q t

/-- If a step that meets `P` keeps an invariant with `Q` in it, and one that does not breaks `Q`,
then `Q` holds in every state of a run exactly if `P` holds at every step. -/
lemma throughout_iff {Q : σ → Prop} (hQ : ∀ s, I s → Q s)
    (hkeep : ∀ s i s' o, I s → P s i → step s i = .ok (s', o) → I s')
    (hbreak : ∀ s i s' o, I s → ¬ P s i → step s i = .ok (s', o) → ¬ Q s') (hs : I s)
    (h : run step s is = .ok (s', os)) : Throughout step Q s is ↔ Along step P s is := by
  induction is generalizing s os with
  | nil =>
      refine iff_of_true ?_ trivial
      rintro before after heq t os' hrun
      obtain ⟨rfl, -⟩ := List.append_eq_nil_iff.mp heq.symm
      cases hrun
      exact hQ s hs
  | cons i is ih =>
      obtain ⟨t, o, os', ht, hrun, -⟩ := run_cons_ok.mp h
      constructor
      · intro hall
        have hi : P s i := by
          by_contra hi
          exact hbreak s i t o hs hi ht
            (hall [i] is rfl t [o] (run_cons_ok.mpr ⟨t, o, [], ht, rfl, rfl⟩))
        refine ⟨hi, fun t' o' ht' => ?_⟩
        cases ht.symm.trans ht'
        refine (ih (hkeep s i t o hs hi ht) hrun).mp ?_
        rintro before after rfl u us hu
        exact hall (i :: before) after rfl u (o :: us) (run_cons_ok.mpr ⟨t, o, us, ht, hu, rfl⟩)
      · rintro ⟨hi, hrest⟩ before after heq u us hu
        cases before with
        | nil =>
            cases hu
            exact hQ s hs
        | cons b before =>
            obtain ⟨rfl, rfl⟩ := List.cons.inj heq
            obtain ⟨t', o', us', ht', hu', -⟩ := run_cons_ok.mp hu
            cases ht.symm.trans ht'
            exact (ih (hkeep s i t o hs hi ht) hrun).mpr (hrest t o ht) before after rfl u us' hu'

/-- A run succeeds when every step does, from states that keep an invariant. -/
lemma run_total
    (hstep : ∀ s i, I s → P s i → ∃ s' o, step s i = .ok (s', o) ∧ I s') (hs : I s)
    (hP : Along step P s is) : ∃ s' os, run step s is = .ok (s', os) := by
  induction is generalizing s with
  | nil => exact ⟨s, [], rfl⟩
  | cons i is ih =>
      obtain ⟨t, o, ht, hinv⟩ := hstep s i hs hP.1
      obtain ⟨s', os, hrun⟩ := ih hinv (hP.2 t o ht)
      exact ⟨s', o :: os, run_cons_ok.mpr ⟨t, o, os, ht, hrun, rfl⟩⟩

/-- A run of steps that never fail succeeds. -/
lemma run_of_total (hstep : ∀ s i, ∃ s' o, step s i = .ok (s', o)) (s : σ) (is : List ι) :
    ∃ s' os, run step s is = .ok (s', os) := by
  have hkeep : ∀ s i, True → True → ∃ s' o, step s i = .ok (s', o) ∧ True := by
    intro s i _ _
    obtain ⟨t, o, ht⟩ := hstep s i
    exact ⟨t, o, ht, trivial⟩
  exact run_total hkeep trivial (along_of_forall (fun _ _ => trivial) s is)

/-! ## Reaching a state -/

/-- Some inputs lead from one state to the other. -/
def Reaches (step : σ → ι → Except φ (σ × ω)) (s s' : σ) : Prop :=
  ∃ is os, run step s is = .ok (s', os)

lemma Reaches.refl (s : σ) : Reaches step s s := ⟨[], [], rfl⟩

lemma Reaches.single {o : ω} (h : step s i = .ok (s', o)) : Reaches step s s' :=
  ⟨[i], [o], run_cons_ok.mpr ⟨s', o, [], h, rfl, rfl⟩⟩

lemma Reaches.trans {t u : σ} (h : Reaches step s t) (h' : Reaches step t u) :
    Reaches step s u := by
  obtain ⟨is, os, hrun⟩ := h
  obtain ⟨is', os', hrun'⟩ := h'
  exact ⟨is ++ is', os ++ os', run_append_ok.mpr ⟨t, os, os', hrun, hrun', rfl⟩⟩

/-! ## Up to a first step -/

/-- Some step of the run meets `Q`. -/
def Once (step : σ → ι → Except φ (σ × ω)) (Q : σ → ι → Prop) (s : σ) : List ι → Prop
  | [] => False
  | i :: is => Q s i ∨ ∃ s' o, step s i = .ok (s', o) ∧ Once step Q s' is

/-- `P` holds at every step, up to and including the first one that meets `Q`. -/
def Until (step : σ → ι → Except φ (σ × ω)) (Q P : σ → ι → Prop) (s : σ) : List ι → Prop
  | [] => True
  | i :: is => P s i ∧ (Q s i ∨ ∀ s' o, step s i = .ok (s', o) → Until step Q P s' is)

lemma once_concat {t : σ} (h : run step s is = .ok (t, os)) :
    Once step Q s (is ++ [i]) ↔ Once step Q s is ∨ Q t i := by
  induction is generalizing s os with
  | nil =>
      cases h
      simp [Once]
  | cons j is ih =>
      obtain ⟨s', o, os', hstep, hrun, -⟩ := run_cons_ok.mp h
      simp only [List.cons_append, Once, hstep, Except.ok.injEq, Prod.mk.injEq]
      constructor
      · rintro (hj | ⟨t', o', ⟨rfl, rfl⟩, hrest⟩)
        · exact Or.inl (Or.inl hj)
        · rcases (ih hrun).mp hrest with hrest | hlast
          · exact Or.inl (Or.inr ⟨_, _, ⟨rfl, rfl⟩, hrest⟩)
          · exact Or.inr hlast
      · rintro ((hj | ⟨t', o', ⟨rfl, rfl⟩, hrest⟩) | hlast)
        · exact Or.inl hj
        · exact Or.inr ⟨_, _, ⟨rfl, rfl⟩, (ih hrun).mpr (Or.inl hrest)⟩
        · exact Or.inr ⟨_, _, ⟨rfl, rfl⟩, (ih hrun).mpr (Or.inr hlast)⟩

/-- `Until` read off the prefixes of the input. -/
lemma until_iff :
    Until step Q P s is ↔ ∀ before i after, is = before ++ i :: after →
      ∀ t os, run step s before = .ok (t, os) → ¬ Once step Q s before → P t i := by
  induction is generalizing s with
  | nil => exact ⟨fun _ before i after h => absurd h.symm (by simp), fun _ => trivial⟩
  | cons j is ih =>
      constructor
      · rintro ⟨hj, hrest⟩ before i after heq t os hrun hnot
        cases before with
        | nil =>
            obtain ⟨rfl, -⟩ := List.cons.inj heq
            cases hrun
            exact hj
        | cons b before =>
            obtain ⟨rfl, rfl⟩ := List.cons.inj heq
            obtain ⟨s', o, os', hstep, hrun', -⟩ := run_cons_ok.mp hrun
            rcases hrest with hQ | hrest
            · exact absurd (Or.inl hQ) hnot
            · exact ih.mp (hrest s' o hstep) before i after rfl t os' hrun' fun honce =>
                hnot (Or.inr ⟨s', o, hstep, honce⟩)
      · intro h
        refine ⟨h [] j is rfl s [] rfl id, ?_⟩
        by_cases hQ : Q s j
        · exact Or.inl hQ
        · refine Or.inr fun s' o hstep => ih.mpr ?_
          rintro before i after rfl t os hrun hnot
          refine h (j :: before) i after rfl t (o :: os)
            (run_cons_ok.mpr ⟨s', o, os, hstep, hrun, rfl⟩) ?_
          rintro (hj | ⟨t', o', hstep', honce⟩)
          · exact hQ hj
          · cases hstep.symm.trans hstep'
            exact hnot honce

lemma Until.left (h : Until step Q P s (is ++ js)) : Until step Q P s is :=
  until_iff.mpr fun before i after heq t os hrun =>
    until_iff.mp h before i (after ++ js) (by rw [heq, List.append_assoc, List.cons_append]) t os
      hrun

/-- What every step keeps that does not meet `Q`, a run keeps until `Q` is met. -/
lemma run_until
    (hstep : ∀ s i s' o, I s → P s i → ¬ Q s i → step s i = .ok (s', o) → I s') (hs : I s)
    (hP : Until step Q P s is) (h : run step s is = .ok (s', os)) : Once step Q s is ∨ I s' := by
  induction is generalizing s os with
  | nil =>
      cases h
      exact Or.inr hs
  | cons i is ih =>
      obtain ⟨t, o, os', ht, hrun, -⟩ := run_cons_ok.mp h
      by_cases hQ : Q s i
      · exact Or.inl (Or.inl hQ)
      · rcases ih (hstep s i t o hs hP.1 hQ ht) (hP.2.resolve_left hQ t o ht) hrun with
          honce | hinv
        · exact Or.inl (Or.inr ⟨t, o, ht, honce⟩)
        · exact Or.inr hinv

/-! ## Two runs -/

/-- At every step both runs get to, the same is observed of their outputs. -/
def Agree {β : Type*} (step : σ → ι → Except φ (σ × ω)) (obs : ω → β) (s₁ s₂ : σ) :
    List ι → Prop
  | [] => True
  | i :: is => ∀ t₁ o₁ t₂ o₂, step s₁ i = .ok (t₁, o₁) → step s₂ i = .ok (t₂, o₂) →
      obs o₁ = obs o₂ ∧ Agree step obs t₁ t₂ is

/-- If a relation between two states makes one step observably different exactly when `Parts` holds,
and is kept otherwise, then two runs agree exactly if `Parts` holds at no step. -/
lemma agree_iff {β : Type*} {obs : ω → β} {R : σ → σ → Prop} {Parts : σ → ι → Prop}
    (hkeep : ∀ s₁ s₂ i t₁ o₁, R s₁ s₂ → P s₁ i → ¬ Parts s₁ i → step s₁ i = .ok (t₁, o₁) → ∃ t₂ o₂,
      step s₂ i = .ok (t₂, o₂) ∧ R t₁ t₂ ∧ obs o₁ = obs o₂)
    (hparts : ∀ s₁ s₂ i, R s₁ s₂ → P s₁ i → Parts s₁ i → ∃ t₁ o₁ t₂ o₂, step s₁ i = .ok (t₁, o₁) ∧
      step s₂ i = .ok (t₂, o₂) ∧ obs o₁ ≠ obs o₂)
    {s₁ s₂ : σ} (hR : R s₁ s₂) (hP : Along step P s₁ is) :
    Agree step obs s₁ s₂ is ↔ Along step (fun s i => ¬ Parts s i) s₁ is := by
  induction is generalizing s₁ s₂ with
  | nil => exact Iff.rfl
  | cons i is ih =>
      constructor
      · intro hagree
        have hnot : ¬ Parts s₁ i := by
          intro hi
          obtain ⟨t₁, o₁, t₂, o₂, h₁, h₂, hne⟩ := hparts s₁ s₂ i hR hP.1 hi
          exact hne (hagree t₁ o₁ t₂ o₂ h₁ h₂).1
        refine ⟨hnot, fun t₁ o₁ h₁ => ?_⟩
        obtain ⟨t₂, o₂, h₂, hR', -⟩ := hkeep s₁ s₂ i t₁ o₁ hR hP.1 hnot h₁
        exact (ih hR' (hP.2 t₁ o₁ h₁)).mp (hagree t₁ o₁ t₂ o₂ h₁ h₂).2
      · rintro ⟨hnot, hrest⟩ t₁ o₁ t₂ o₂ h₁ h₂
        obtain ⟨t₂', o₂', h₂', hR', hobs⟩ := hkeep s₁ s₂ i t₁ o₁ hR hP.1 hnot h₁
        cases h₂.symm.trans h₂'
        exact ⟨hobs, (ih hR' (hP.2 t₁ o₁ h₁)).mpr (hrest t₁ o₁ h₁)⟩

/-! ## What is held, gained and lost -/

section Ledger

variable {α : Type*} {step : σ → ι → Except φ (σ × List α)} {held : σ → List α}
  {lost : σ → ι → List α}

variable {os : List (List α)}

lemma run_ledger {I : σ → Prop} (hkeep : ∀ s i s' o, I s → step s i = .ok (s', o) → I s')
    (hstep : ∀ s i s' o, I s → step s i = .ok (s', o) → (held s ++ o).Perm (held s' ++ lost s i))
    {s s' : σ} {is : List ι} (hs : I s) (h : run step s is = .ok (s', os)) :
    ∃ all, (held s ++ os.flatten).Perm (held s' ++ all) ∧
      (all = [] ↔ Along step (fun s i => lost s i = []) s is) := by
  induction is generalizing s os with
  | nil =>
      cases h
      exact ⟨[], List.Perm.refl _, iff_of_true rfl trivial⟩
  | cons i is ih =>
      obtain ⟨t, o, os', ht, hrun, rfl⟩ := run_cons_ok.mp h
      obtain ⟨all, hperm, hnil⟩ := ih (hkeep s i t o hs ht) hrun
      refine ⟨all ++ lost s i, ?_, ?_⟩
      · have hmove : (held s ++ o ++ os'.flatten).Perm (held t ++ lost s i ++ os'.flatten) :=
          (hstep s i t o hs ht).append_right _
        have hswap : (held t ++ lost s i ++ os'.flatten).Perm
            (held t ++ os'.flatten ++ lost s i) := by
          rw [List.append_assoc, List.append_assoc]
          exact List.perm_append_comm.append_left _
        rw [List.flatten_cons, ← List.append_assoc, ← List.append_assoc]
        exact hmove.trans (hswap.trans (hperm.append_right _))
      · rw [List.append_eq_nil_iff, hnil, along_cons_iff ht, and_comm]

/-- What is held at the end is what was held and what came in, exactly if nothing is lost at any
step. -/
lemma conserved_iff {I : σ → Prop} (hkeep : ∀ s i s' o, I s → step s i = .ok (s', o) → I s')
    (hstep : ∀ s i s' o, I s → step s i = .ok (s', o) → (held s ++ o).Perm (held s' ++ lost s i))
    {s s' : σ} {is : List ι} (hs : I s) (h : run step s is = .ok (s', os)) :
    (held s ++ os.flatten).Perm (held s') ↔ Along step (fun s i => lost s i = []) s is := by
  obtain ⟨all, hperm, hnil⟩ := run_ledger hkeep hstep hs h
  rw [← hnil]
  constructor
  · intro hkept
    have hlength := (hkept.symm.trans hperm).length_eq
    rw [List.length_append] at hlength
    exact List.length_eq_zero_iff.mp (by omega)
  · rintro rfl
    rwa [List.append_nil] at hperm

end Ledger

section Passage

variable {α : Type*} {took gave : ω → List α} {P : σ → ι → Prop} {I : σ → Prop}

/-- All that is taken is given on, in order, exactly if no step gives less than it takes. -/
lemma passage_iff (hkeep : ∀ s i s' o, I s → step s i = .ok (s', o) → I s')
    (hstep : ∀ s i s' o, I s → step s i = .ok (s', o) →
      gave o = took o ∧ P s i ∨ (gave o).length < (took o).length ∧ ¬ P s i)
    {s s' : σ} {is : List ι} {os : List ω} (hs : I s) (h : run step s is = .ok (s', os)) :
    (os.flatMap gave).length ≤ (os.flatMap took).length ∧
      (os.flatMap gave = os.flatMap took ↔ Along step P s is) := by
  induction is generalizing s os with
  | nil =>
      cases h
      exact ⟨Nat.le_refl _, iff_of_true rfl trivial⟩
  | cons i is ih =>
      obtain ⟨t, o, os', ht, hrun, rfl⟩ := run_cons_ok.mp h
      obtain ⟨hle, hiff⟩ := ih (hkeep s i t o hs ht) hrun
      rw [List.flatMap_cons, List.flatMap_cons, List.length_append, List.length_append,
        along_cons_iff ht, ← hiff]
      rcases hstep s i t o hs ht with ⟨heq, hP⟩ | ⟨hlt, hP⟩
      · rw [heq, List.append_right_inj, and_iff_right hP]
        exact ⟨by omega, Iff.rfl⟩
      · -- a later step cannot make up for what is missing
        refine ⟨by omega, iff_of_false (fun heq => ?_) fun h => hP h.1⟩
        have hlength := congrArg List.length heq
        rw [List.length_append, List.length_append] at hlength
        omega

end Passage

end Machine
