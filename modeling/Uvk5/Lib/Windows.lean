import Mathlib.Algebra.Order.Ring.Int
import Mathlib.Data.Int.Notation
import Mathlib.Data.List.Pairwise
import Mathlib.Data.Nat.Notation
import Mathlib.Order.Defs.LinearOrder

set_option relaxedAutoImplicit false
set_option autoImplicit false

/-!
# Windows in an address space

Devices answer in windows of an address space. Where windows overlap, the one of the highest
priority answers, and of those with the same priority the one that was added last.

## Main definitions

* `Windows.Window`, `Windows.Window.Contains` — a window.
* `Windows.resolve` — the window that answers.
* `Windows.Apart` — no two windows of one priority overlap.

## Main results

* `Windows.resolve_eq_some_iff` — then the order in which they were added does not matter.
* `Windows.resolve_eq_none_iff` — where nothing answers.
-/

namespace Uvk5.Windows

/-- A window of a device. -/
structure Window (δ : Type) where
  /-- Where it begins. -/
  base : ℕ
  /-- How long it is. -/
  size : ℕ
  /-- Its priority. -/
  priority : ℤ
  /-- The device that answers in it. -/
  device : δ
  deriving DecidableEq

variable {δ : Type}

/-- The address is in the window. -/
def Window.Contains (w : Window δ) (addr : ℕ) : Prop := w.base ≤ addr ∧ addr < w.base + w.size

instance (w : Window δ) (addr : ℕ) : Decidable (w.Contains addr) :=
  inferInstanceAs (Decidable (_ ∧ _))

/-- The window that answers, of windows in the order in which they were added. -/
def resolve : List (Window δ) → ℕ → Option (Window δ)
  | [], _ => none
  | w :: ws, addr =>
    match resolve ws addr with
    | some w' => if w.Contains addr ∧ w'.priority < w.priority then some w else some w'
    | none => if w.Contains addr then some w else none

/-- Two windows of one priority do not overlap. -/
def Clear (w w' : Window δ) : Prop :=
  w.priority = w'.priority → w.base + w.size ≤ w'.base ∨ w'.base + w'.size ≤ w.base

instance (w w' : Window δ) : Decidable (Clear w w') := inferInstanceAs (Decidable (_ → _))

/-- No two windows of one priority overlap. -/
def Apart (ws : List (Window δ)) : Prop := ws.Pairwise Clear

instance (ws : List (Window δ)) : Decidable (Apart ws) :=
  inferInstanceAs (Decidable (ws.Pairwise Clear))

instance clearSymm : Std.Symm (Clear : Window δ → Window δ → Prop) :=
  ⟨fun _ _ h heq => (h heq.symm).symm⟩

/-- **Where nothing answers.** -/
theorem resolve_eq_none_iff {ws : List (Window δ)} {addr : ℕ} :
    resolve ws addr = none ↔ ∀ w ∈ ws, ¬ w.Contains addr := by
  induction ws with
  | nil => simp [resolve]
  | cons w ws ih =>
    rw [resolve, List.forall_mem_cons, ← ih]
    cases hws : resolve ws addr with
    | none => simp
    | some w' =>
      dsimp only
      split <;> simp

/-- What answers has the address and the highest priority.

**Proof sketch.** Induction on the windows. The first one answers if it has the address and a
higher priority than what the others find; otherwise what the others find does. -/
lemma resolve_spec {ws : List (Window δ)} {addr : ℕ} {w : Window δ} (h : resolve ws addr = some w) :
    w ∈ ws ∧ w.Contains addr ∧ ∀ w' ∈ ws, w'.Contains addr → w'.priority ≤ w.priority := by
  induction ws generalizing w with
  | nil => cases h
  | cons first ws ih =>
    rw [resolve] at h
    cases hws : resolve ws addr with
    | none =>
      have hnone := resolve_eq_none_iff.mp hws
      rw [hws] at h
      dsimp only at h
      split at h
      · next hfirst =>
        cases h
        refine ⟨List.mem_cons_self .., hfirst, fun w' hw' hcontains => ?_⟩
        rcases List.mem_cons.mp hw' with rfl | hold
        · exact le_refl _
        · exact absurd hcontains (hnone w' hold)
      · cases h
    | some best =>
      obtain ⟨hmem, hcontains, hmax⟩ := ih hws
      rw [hws] at h
      dsimp only at h
      split at h
      · next hfirst =>
        cases h
        refine ⟨List.mem_cons_self .., hfirst.1, fun w' hw' hcontains' => ?_⟩
        rcases List.mem_cons.mp hw' with rfl | hold
        · exact le_refl _
        · exact le_of_lt (lt_of_le_of_lt (hmax w' hold hcontains') hfirst.2)
      · next hfirst =>
        cases h
        refine ⟨List.mem_cons_of_mem _ hmem, hcontains, fun w' hw' hcontains' => ?_⟩
        rcases List.mem_cons.mp hw' with rfl | hold
        · exact not_lt.mp fun hlt => hfirst ⟨hcontains', hlt⟩
        · exact hmax w' hold hcontains'

/-- **What answers.** If no two windows of one priority overlap, then the window of the highest
priority answers, in whatever order they were added. -/
theorem resolve_eq_some_iff {ws : List (Window δ)} (h : Apart ws) {addr : ℕ} {w : Window δ} :
    resolve ws addr = some w ↔
      w ∈ ws ∧ w.Contains addr ∧ ∀ w' ∈ ws, w'.Contains addr → w'.priority ≤ w.priority := by
  refine ⟨resolve_spec, fun ⟨hmem, hcontains, hmax⟩ => ?_⟩
  cases hws : resolve ws addr with
  | none => exact absurd hcontains (resolve_eq_none_iff.mp hws w hmem)
  | some best =>
    obtain ⟨hmem', hcontains', hmax'⟩ := resolve_spec hws
    by_contra hne
    have hclear := h.forall hmem' hmem fun heq => hne (congrArg some heq)
    have hsame := le_antisymm (hmax best hmem' hcontains') (hmax' w hmem hcontains)
    have hoverlap := hclear hsame
    rw [Window.Contains] at hcontains hcontains'
    omega

end Uvk5.Windows
