import Mathlib.Data.List.Basic

set_option relaxedAutoImplicit false
set_option autoImplicit false

/-!
# Runs of a deterministic machine

A machine is a step function `step : σ → ε → σ`; a run is `List.foldl step s es`. This file
fixes the two ways of speaking about a whole run, a condition on every step taken and a
property of every state passed through, and the rule that ties them together.

## Main definitions

* `Run.AllSteps` — every step of the run meets a condition on its state and event.
* `Run.AllStates` — every state of the run, first and last included, has a property.
* `Run.outputs` — what the steps of a run put out.

## Main results

* `Run.allStates_of_allSteps` — an invariant kept by every step that meets the condition.
* `Run.allStates_iff_allSteps` — the condition is exact when breaking it breaks the property.
* `Run.foldl_eq_lastOr` — what is only ever replaced is in the end what was last given.
* `Run.related_foldl`, `Run.outputs_eq_of_related` — two runs that go side by side, of one machine
  or of two.
-/

namespace Uvk5.Run

variable {σ ε : Type} (step : σ → ε → σ)

/-- Every step of the run of `es` from `s` meets the condition `C`. -/
def AllSteps (C : σ → ε → Prop) : σ → List ε → Prop
  | _, [] => True
  | s, e :: es => C s e ∧ AllSteps C (step s e) es

instance AllSteps.decidable (C : σ → ε → Prop) [∀ s e, Decidable (C s e)] :
    ∀ (s : σ) (es : List ε), Decidable (AllSteps step C s es)
  | _, [] => inferInstanceAs (Decidable True)
  | s, e :: es =>
    have := AllSteps.decidable C (step s e) es
    inferInstanceAs (Decidable (C s e ∧ AllSteps step C (step s e) es))

/-- Every state of the run of `es` from `s` has the property `P`. -/
def AllStates (P : σ → Prop) : σ → List ε → Prop
  | s, [] => P s
  | s, e :: es => P s ∧ AllStates P (step s e) es

variable {step}

/-- The last state of a run is one of its states. -/
theorem AllStates.last {P : σ → Prop} {es : List ε} {s : σ} (h : AllStates step P s es) :
    P (es.foldl step s) := by
  induction es generalizing s with
  | nil => exact h
  | cons e es ih => exact ih h.2

/-- Conditions that agree on every step agree on every run. -/
theorem AllSteps.congr {C D : σ → ε → Prop} (h : ∀ s e, C s e ↔ D s e) :
    ∀ (es : List ε) (s : σ), AllSteps step C s es ↔ AllSteps step D s es
  | [], _ => Iff.rfl
  | e :: es, s => and_congr (h s e) (AllSteps.congr h es (step s e))

/-- Two conditions on every step. -/
theorem AllSteps.and {C D : σ → ε → Prop} :
    ∀ {es : List ε} {s : σ}, AllSteps step C s es → AllSteps step D s es →
      AllSteps step (fun s e => C s e ∧ D s e) s es
  | [], _, _, _ => trivial
  | _ :: _, _, hC, hD => ⟨⟨hC.1, hD.1⟩, hC.2.and hD.2⟩

/-- Every step of a run in two parts. -/
theorem allSteps_append {C : σ → ε → Prop} {s : σ} {es es' : List ε} :
    AllSteps step C s (es ++ es') ↔
      AllSteps step C s es ∧ AllSteps step C (es.foldl step s) es' := by
  induction es generalizing s with
  | nil => exact (and_iff_right trivial).symm
  | cons e es ih => rw [List.cons_append, AllSteps, AllSteps, ih, List.foldl_cons, and_assoc]

/-- A run all of whose steps meet `C` stays inside an invariant that `C` protects. -/
theorem allStates_of_allSteps {I : σ → Prop} {C : σ → ε → Prop}
    (hok : ∀ s e, I s → C s e → I (step s e)) :
    ∀ (es : List ε) (s : σ), I s → AllSteps step C s es → AllStates step I s es
  | [], _, hs, _ => hs
  | e :: es, s, hs, hC =>
    ⟨hs, allStates_of_allSteps hok es (step s e) (hok s e hs hC.1) hC.2⟩

/-- An invariant that every step keeps holds at the end of a run. -/
theorem foldl_of_step {I : σ → Prop} (hstep : ∀ s e, I s → I (step s e)) (es : List ε) {s : σ}
    (h : I s) : I (es.foldl step s) := by
  induction es generalizing s with
  | nil => exact h
  | cons e es ih => exact ih (hstep s e h)

/-- A property that follows from another holds along a run if the other does. -/
theorem AllStates.mono {P Q : σ → Prop} {es : List ε} {s : σ} (h : AllStates step P s es)
    (hPQ : ∀ s, P s → Q s) : AllStates step Q s es := by
  induction es generalizing s with
  | nil => exact hPQ s h
  | cons e es ih => exact ⟨hPQ s h.1, ih h.2⟩

/-- **The exact condition of a run.** Suppose `I` gives `P`, a step meeting `C` keeps `I`, and
a step breaking `C` lands outside `P`. Then `P` holds all along a run exactly when every step
meets `C`.

**Proof sketch.** Induction on the events. A step that breaks `C` ends in a state without `P`,
which is the first state of the rest of the run. -/
theorem allStates_iff_allSteps {I P : σ → Prop} {C : σ → ε → Prop}
    (hP : ∀ s, I s → P s) (hok : ∀ s e, I s → C s e → I (step s e))
    (hbad : ∀ s e, I s → ¬ C s e → ¬ P (step s e)) (es : List ε) (s : σ) (hs : I s) :
    AllStates step P s es ↔ AllSteps step C s es := by
  constructor
  · induction es generalizing s with
    | nil => exact fun _ => trivial
    | cons e es ih =>
      rintro ⟨-, hrest⟩
      have hnext : P (step s e) := by
        cases es with
        | nil => exact hrest
        | cons _ _ => exact hrest.1
      have hC : C s e := by
        by_contra hne
        exact hbad s e hs hne hnext
      exact ⟨hC, ih (step s e) (hok s e hs hC) hrest⟩
  · intro hC
    exact (allStates_of_allSteps hok es s hs hC).mono hP

/-! ## What was last given -/

section Last

variable {α : Type}

/-- The last of the values that the events give, or a value from before. -/
def lastOr (given : ε → Option α) (before : α) (es : List ε) : α :=
  ((es.filterMap given).getLast?).getD before

/-- What the first event gives is there before the others. -/
lemma lastOr_cons (given : ε → Option α) (before : α) (e : ε) (es : List ε) :
    lastOr given before (e :: es) = lastOr given ((given e).getD before) es := by
  rw [lastOr, lastOr]
  cases hgiven : given e with
  | none => rw [List.filterMap_cons_none hgiven, Option.getD_none]
  | some x => rw [List.filterMap_cons_some hgiven, List.getLast?_cons, Option.getD_some,
      Option.getD_some]

/-- What every step takes from its event, or leaves as it is, is in the end what was last given. -/
theorem foldl_eq_lastOr (view : σ → α) {given : ε → Option α}
    (hstep : ∀ s e, view (step s e) = (given e).getD (view s)) (es : List ε) (s : σ) :
    view (es.foldl step s) = lastOr given (view s) es := by
  induction es generalizing s with
  | nil => rfl
  | cons e es ih => rw [List.foldl_cons, ih, hstep, lastOr_cons]

end Last

/-! ## Two runs -/

section TwoRuns

variable {τ ω : Type} {step' : τ → ε → τ} {R : σ → τ → Prop}

variable (step) in
/-- What the steps of the run of `es` from `s` put out. -/
def outputs (out : σ → ε → ω) : σ → List ε → List ω
  | _, [] => []
  | s, e :: es => out s e :: outputs out (step s e) es

/-- Two states that every step keeps related stay related; the machines may differ. -/
theorem related_foldl (hstep : ∀ s t e, R s t → R (step s e) (step' t e)) (es : List ε) {s : σ}
    {t : τ} (h : R s t) : R (es.foldl step s) (es.foldl step' t) := by
  induction es generalizing s t with
  | nil => exact h
  | cons e es ih => exact ih (hstep s t e h)

/-- Runs from related states put out the same if related states do. -/
theorem outputs_eq_of_related {out : σ → ε → ω} {out' : τ → ε → ω}
    (hstep : ∀ s t e, R s t → R (step s e) (step' t e))
    (hout : ∀ s t e, R s t → out s e = out' t e) (es : List ε) {s : σ} {t : τ} (h : R s t) :
    outputs step out s es = outputs step' out' t es := by
  induction es generalizing s t with
  | nil => rfl
  | cons e es ih => rw [outputs, outputs, hout s t e h, ih (hstep s t e h)]

end TwoRuns

end Uvk5.Run
