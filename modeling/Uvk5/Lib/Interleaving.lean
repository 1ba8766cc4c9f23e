import Uvk5.Lib.Run

set_option relaxedAutoImplicit false
set_option autoImplicit false

/-!
# One machine among others

A run of a large machine is made of events of one of its parts and of events of all the others, in
any order. What is seen of the part goes through its own run if its events do there what they do to
the part alone, and the other events leave it alone.

## Main definitions

* `Interleaving.own` — the events of the part.
* `Interleaving.ownOutputs` — what they put out in a run with other events.

## Main results

* `Interleaving.view_foldl` — the part at the end of the run.
* `Interleaving.ownOutputs_eq` — what it put out.
-/

namespace Uvk5.Interleaving

variable {σ τ ε ζ ω : Type} {step : σ → ε ⊕ ζ → σ}

/-- The events of the part. -/
def own (es : List (ε ⊕ ζ)) : List ε := es.filterMap Sum.getLeft?

/-- An event of its own is among its own events. -/
@[simp] lemma own_inl (e : ε) (es : List (ε ⊕ ζ)) : own (.inl e :: es) = e :: own es := rfl

/-- An event of the other is not. -/
@[simp] lemma own_inr (z : ζ) (es : List (ε ⊕ ζ)) : own (.inr z :: es) = own es := rfl

/-- The events of the part in one stretch after another. -/
@[simp] lemma own_append (es fs : List (ε ⊕ ζ)) : own (es ++ fs) = own es ++ own fs :=
  List.filterMap_append

/-- In a stretch without other events they are all the part's own. -/
@[simp] lemma own_map_inl (es : List ε) : own (es.map (.inl : ε → ε ⊕ ζ)) = es := by
  induction es with
  | nil => rfl
  | cons e es ih => rw [List.map_cons, own_inl, ih]

variable (step) in
/-- What the events of the part put out. -/
def ownOutputs (out : σ → ε → List ω) : σ → List (ε ⊕ ζ) → List ω
  | _, [] => []
  | s, .inl e :: es => out s e ++ ownOutputs out (step s (.inl e)) es
  | s, .inr z :: es => ownOutputs out (step s (.inr z)) es

/-- What the events of the part put out when it is alone. -/
def outputs (step : τ → ε → τ) (out : τ → ε → List ω) : τ → List ε → List ω
  | _, [] => []
  | t, e :: es => out t e ++ outputs step out (step t e) es

section View

variable {step' : τ → ε → τ} {view : σ → τ} {I : σ → Prop} {C : σ → ε ⊕ ζ → Prop}

/-- **The part goes through its own run.**

**Proof sketch.** Induction on the run; the invariant says where the large machine and the part
agree. -/
theorem view_foldl (hkeeps : ∀ s x, I s → C s x → I (step s x))
    (hown : ∀ s e, I s → view (step s (.inl e)) = step' (view s) e)
    (hother : ∀ s z, I s → C s (.inr z) → view (step s (.inr z)) = view s) (es : List (ε ⊕ ζ))
    {s : σ} (hs : I s) (hC : Run.AllSteps step C s es) :
    I (es.foldl step s) ∧ view (es.foldl step s) = (own es).foldl step' (view s) := by
  induction es generalizing s with
  | nil => exact ⟨hs, rfl⟩
  | cons x es ih =>
    obtain ⟨hinv, hview⟩ := ih (hkeeps s x hs hC.1) hC.2
    refine ⟨hinv, ?_⟩
    cases x with
    | inl e =>
      rw [own_inl, List.foldl_cons, List.foldl_cons, ← hown s e hs]
      exact hview
    | inr z =>
      rw [own_inr, List.foldl_cons, ← hother s z hs hC.1]
      exact hview

/-- **What the part puts out** is what it puts out alone. -/
theorem ownOutputs_eq {out : σ → ε → List ω} {out' : τ → ε → List ω}
    (hkeeps : ∀ s x, I s → C s x → I (step s x))
    (hown : ∀ s e, I s → view (step s (.inl e)) = step' (view s) e)
    (hother : ∀ s z, I s → C s (.inr z) → view (step s (.inr z)) = view s)
    (hout : ∀ s e, I s → C s (.inl e) → out s e = out' (view s) e) (es : List (ε ⊕ ζ)) {s : σ}
    (hs : I s) (hC : Run.AllSteps step C s es) :
    ownOutputs step out s es = outputs step' out' (view s) (own es) := by
  induction es generalizing s with
  | nil => rfl
  | cons x es ih =>
    have hrest := ih (hkeeps s x hs hC.1) hC.2
    cases x with
    | inl e =>
      rw [ownOutputs, own_inl, outputs, hout s e hs hC.1, hrest, hown s e hs]
    | inr z => rw [ownOutputs, own_inr, hrest, hother s z hs hC.1]

end View

end Uvk5.Interleaving
