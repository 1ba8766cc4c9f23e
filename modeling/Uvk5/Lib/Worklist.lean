import Mathlib.Data.Set.Insert
import Mathlib.Logic.Function.Iterate

set_option relaxedAutoImplicit false
set_option autoImplicit false

/-!
# A search with a stack of limited size

A search keeps what it has still to visit on a stack. It takes an element from the stack, visits it
unless it has been visited, and puts the next elements that have not been visited on the stack. An
element that finds the stack full is lost, unless it is put there again.

## Main definitions

* `Worklist.State`, `Worklist.step` — the search, element by element.
* `Worklist.lost` — the elements that find the stack full.
* `Worklist.Reached` — what there is to find.

## Main results

* `Worklist.sound_iterate` — nothing else is visited.
* `Worklist.visited_eq_iff` — everything is visited exactly if all that is lost is found again.
-/

open scoped Classical

namespace Uvk5.Worklist

/-- The elements that have been visited, and the stack, which begins with its top. -/
structure State (α : Type) where
  /-- What has been visited. -/
  visited : Set α
  /-- What is still to be visited. -/
  stack : List α

section Search

variable {α : Type} (next : α → List α) (cap : ℕ)

/-- The next elements that have not been visited. -/
noncomputable def wanted (visited : Set α) (a : α) : List α := (next a).filter (· ∉ visited)

/-- One element is taken from the stack. -/
noncomputable def step (s : State α) : State α :=
  match s.stack with
  | [] => s
  | a :: stack =>
    if a ∈ s.visited then ⟨s.visited, stack⟩
    else
      ⟨insert a s.visited,
        ((wanted next (insert a s.visited) a).take (cap - stack.length)).reverse ++ stack⟩

/-- What finds the stack full in a step. -/
noncomputable def lost (s : State α) : List α :=
  match s.stack with
  | [] => []
  | a :: stack =>
    if a ∈ s.visited then []
    else (wanted next (insert a s.visited) a).drop (cap - stack.length)

/-- What there is to find from `start`, past elements that had not been visited before. -/
inductive Reached (visited : Set α) (start : α) : α → Prop where
  /-- The beginning. -/
  | start : Reached visited start start
  /-- One step further. -/
  | step {a b : α} : Reached visited start a → b ∈ next a → b ∉ visited → Reached visited start b

end Search

section Step

variable {α : Type} {next : α → List α} {cap : ℕ}

/-- What is wanted is what comes next and has not been visited. -/
lemma mem_wanted {visited : Set α} {a b : α} :
    b ∈ wanted next visited a ↔ b ∈ next a ∧ b ∉ visited := by
  simp [wanted]

/-- An element that has been visited is dropped from the stack. -/
lemma step_of_mem (next : α → List α) (cap : ℕ) {s : State α} {a : α} {stack : List α}
    (hstack : s.stack = a :: stack) (ha : a ∈ s.visited) :
    step next cap s = ⟨s.visited, stack⟩ ∧ lost next cap s = [] := by
  simp [step, lost, hstack, ha]

/-- Any other element is visited, and what is wanted of it is pushed as far as there is room. -/
lemma step_of_not_mem (next : α → List α) (cap : ℕ) {s : State α} {a : α} {stack : List α}
    (hstack : s.stack = a :: stack) (ha : a ∉ s.visited) :
    step next cap s = ⟨insert a s.visited,
        ((wanted next (insert a s.visited) a).take (cap - stack.length)).reverse ++ stack⟩ ∧
      lost next cap s = (wanted next (insert a s.visited) a).drop (cap - stack.length) := by
  simp [step, lost, hstack, ha]

/-- What a step can do. -/
theorem step_cases (next : α → List α) (cap : ℕ) (s : State α) :
    (s.stack = [] ∧ step next cap s = s ∧ lost next cap s = []) ∨
    (∃ a stack, s.stack = a :: stack ∧ a ∈ s.visited ∧ step next cap s = ⟨s.visited, stack⟩ ∧
      lost next cap s = []) ∨
    (∃ a stack kept, s.stack = a :: stack ∧ a ∉ s.visited ∧
      step next cap s = ⟨insert a s.visited, kept.reverse ++ stack⟩ ∧
      kept.length ≤ cap - stack.length ∧
      kept ++ lost next cap s = wanted next (insert a s.visited) a) := by
  cases hstack : s.stack with
  | nil => exact .inl ⟨rfl, by simp [step, hstack], by simp [lost, hstack]⟩
  | cons a stack =>
    by_cases ha : a ∈ s.visited
    · exact .inr (.inl ⟨a, stack, rfl, ha, step_of_mem next cap hstack ha⟩)
    · obtain ⟨hstep, hlost⟩ := step_of_not_mem next cap hstack ha
      refine .inr (.inr ⟨a, stack, _, rfl, ha, hstep, List.length_take_le .., ?_⟩)
      rw [hlost]
      exact List.take_append_drop ..

/-- The stack stays within its size. -/
lemma length_step {s : State α} (h : s.stack.length ≤ cap) :
    (step next cap s).stack.length ≤ cap := by
  obtain ⟨-, hstep, -⟩ | ⟨a, stack, hstack, -, hstep, -⟩ |
    ⟨a, stack, kept, hstack, -, hstep, hkept, -⟩ := step_cases next cap s
  · rwa [hstep]
  · rw [hstack, List.length_cons] at h
    rw [hstep]
    dsimp only
    omega
  · rw [hstack, List.length_cons] at h
    rw [hstep, List.length_append, List.length_reverse]
    omega

/-- What has been visited stays so. -/
lemma visited_subset_step (s : State α) : s.visited ⊆ (step next cap s).visited := by
  obtain ⟨-, hstep, -⟩ | ⟨a, stack, -, -, hstep, -⟩ | ⟨a, stack, kept, -, -, hstep, -, -⟩ :=
    step_cases next cap s
  · rw [hstep]
  · rw [hstep]
  · rw [hstep]
    exact Set.subset_insert a s.visited

/-- What is on the stack is visited or stays there. -/
lemma mem_step {s : State α} {a : α} (h : a ∈ s.stack ∨ a ∈ s.visited) :
    a ∈ (step next cap s).stack ∨ a ∈ (step next cap s).visited := by
  rcases h with h | h
  · obtain ⟨hstack, -, -⟩ | ⟨b, stack, hstack, hb, hstep, -⟩ |
      ⟨b, stack, kept, hstack, -, hstep, -, -⟩ := step_cases next cap s
    · rw [hstack] at h
      cases h
    · rw [hstack] at h
      rw [hstep]
      rcases List.mem_cons.mp h with rfl | h
      · exact .inr hb
      · exact .inl h
    · rw [hstack] at h
      rw [hstep]
      rcases List.mem_cons.mp h with rfl | h
      · exact .inr (Set.mem_insert ..)
      · exact .inl (List.mem_append_right _ h)
  · exact .inr (visited_subset_step s h)

/-- What a step visits was on the stack. -/
lemma mem_stack_of_step {s : State α} {a : α} (hbefore : a ∉ s.visited)
    (hafter : a ∈ (step next cap s).visited) : a ∈ s.stack := by
  obtain ⟨-, hstep, -⟩ | ⟨b, stack, -, -, hstep, -⟩ | ⟨b, stack, kept, hstack, -, hstep, -, -⟩ :=
    step_cases next cap s
  · rw [hstep] at hafter
    exact absurd hafter hbefore
  · rw [hstep] at hafter
    exact absurd hafter hbefore
  · rw [hstep] at hafter
    rcases Set.mem_insert_iff.mp hafter with rfl | hafter
    · rw [hstack]
      exact List.mem_cons_self ..
    · exact absurd hafter hbefore

end Step

/-! ## Runs -/

section Run

variable {α : Type} {next : α → List α} {cap : ℕ}

/-- The stack never holds more than there is room for. -/
lemma length_iterate {s : State α} (h : s.stack.length ≤ cap) (n : ℕ) :
    ((step next cap)^[n] s).stack.length ≤ cap := by
  induction n with
  | zero => exact h
  | succ n ih =>
    rw [Function.iterate_succ_apply']
    exact length_step ih

/-- What is on the stack, or has been visited, is on the stack or has been visited at any later
time. -/
lemma mem_iterate {s : State α} {a : α} (h : a ∈ s.stack ∨ a ∈ s.visited) (n : ℕ) :
    a ∈ ((step next cap)^[n] s).stack ∨ a ∈ ((step next cap)^[n] s).visited := by
  induction n with
  | zero => exact h
  | succ n ih =>
    rw [Function.iterate_succ_apply']
    exact mem_step ih

/-- What a run visits was on the stack on the way. -/
lemma mem_stack_of_iterate {s : State α} {a : α} (hbefore : a ∉ s.visited) {n : ℕ}
    (hafter : a ∈ ((step next cap)^[n] s).visited) :
    ∃ m < n, a ∈ ((step next cap)^[m] s).stack := by
  induction n with
  | zero => exact absurd hafter hbefore
  | succ n ih =>
    by_cases hvisited : a ∈ ((step next cap)^[n] s).visited
    · obtain ⟨m, hm, hstack⟩ := ih hvisited
      exact ⟨m, by omega, hstack⟩
    · rw [Function.iterate_succ_apply'] at hafter
      exact ⟨n, Nat.lt_succ_self n, mem_stack_of_step hvisited hafter⟩

/-- A search with an empty stack is over. -/
lemma iterate_of_nil {s : State α} (h : s.stack = []) (n : ℕ) : (step next cap)^[n] s = s := by
  have hstep : step next cap s = s := by simp [step, h]
  exact Function.iterate_fixed hstep n

variable {visited : Set α} {start : α}

/-- What there is to find had not been visited before. -/
lemma Reached.not_mem (hstart : start ∉ visited) {a : α} (h : Reached next visited start a) :
    a ∉ visited := by
  cases h with
  | start => exact hstart
  | step _ _ hb => exact hb

/-- Nothing has been visited, or is going to be, that there is not to find. -/
structure Sound (next : α → List α) (visited : Set α) (start : α) (s : State α) : Prop where
  /-- What had been visited before still is. -/
  before : visited ⊆ s.visited
  /-- What has been visited since. -/
  since : ∀ a ∈ s.visited, a ∈ visited ∨ Reached next visited start a
  /-- What is on the stack. -/
  stack : ∀ a ∈ s.stack, Reached next visited start a

/-- Before the first step there is only the start to find. -/
lemma sound_start (next : α → List α) (visited : Set α) (start : α) :
    Sound next visited start ⟨visited, [start]⟩ :=
  ⟨fun _ h => h, fun _ h => .inl h, fun _ ha => List.mem_singleton.mp ha ▸ .start⟩

/-- A step visits and pushes only what there is to find. -/
lemma sound_step {s : State α} (h : Sound next visited start s) :
    Sound next visited start (step next cap s) := by
  obtain ⟨-, hstep, -⟩ | ⟨a, stack, hstack, -, hstep, -⟩ |
    ⟨a, stack, kept, hstack, -, hstep, -, hkept⟩ := step_cases next cap s
  · rwa [hstep]
  · rw [hstep]
    exact ⟨h.before, h.since, fun b hb => h.stack b (hstack ▸ List.mem_cons_of_mem a hb)⟩
  · have ha : Reached next visited start a := h.stack a (hstack ▸ List.mem_cons_self ..)
    rw [hstep]
    constructor
    · exact fun b hb => Set.mem_insert_of_mem a (h.before hb)
    · intro b hb
      rcases Set.mem_insert_iff.mp hb with rfl | hb
      · exact .inr ha
      · exact h.since b hb
    · intro b hb
      rcases List.mem_append.mp hb with hb | hb
      · have hwanted : b ∈ wanted next (insert a s.visited) a := by
          rw [← hkept]
          exact List.mem_append_left _ (List.mem_reverse.mp hb)
        obtain ⟨hnext, hnew⟩ := mem_wanted.mp hwanted
        exact .step ha hnext fun hb => hnew (Set.mem_insert_of_mem a (h.before hb))
      · exact h.stack b (hstack ▸ List.mem_cons_of_mem a hb)

/-- **Nothing else is visited.** -/
theorem sound_iterate {s : State α} (h : Sound next visited start s) (n : ℕ) :
    Sound next visited start ((step next cap)^[n] s) := by
  induction n with
  | zero => exact h
  | succ n ih =>
    rw [Function.iterate_succ_apply']
    exact sound_step ih

/-- What is lost is still to be found. -/
lemma reached_of_lost {s : State α} (h : Sound next visited start s) {a : α}
    (ha : a ∈ lost next cap s) :
    Reached next visited start a ∧ a ∉ (step next cap s).visited := by
  obtain ⟨-, -, hlost⟩ | ⟨b, stack, -, -, -, hlost⟩ |
    ⟨b, stack, kept, hstack, -, hstep, -, hkept⟩ := step_cases next cap s
  · rw [hlost] at ha
    cases ha
  · rw [hlost] at ha
    cases ha
  · have hwanted : a ∈ wanted next (insert b s.visited) b := by
      rw [← hkept]
      exact List.mem_append_right _ ha
    obtain ⟨hnext, hnew⟩ := mem_wanted.mp hwanted
    have hb : Reached next visited start b := h.stack b (hstack ▸ List.mem_cons_self ..)
    refine ⟨.step hb hnext fun ha => hnew (Set.mem_insert_of_mem b (h.before ha)), ?_⟩
    rw [hstep]
    exact hnew

/-- What comes next to an element that has been visited is visited, on the stack, or lost. -/
lemma next_iterate {s : State α} (n : ℕ) {a b : α} (ha : a ∈ ((step next cap)^[n] s).visited)
    (hbefore : a ∉ s.visited) (hb : b ∈ next a) :
    (b ∈ ((step next cap)^[n] s).stack ∨ b ∈ ((step next cap)^[n] s).visited) ∨
      ∃ k < n, b ∈ lost next cap ((step next cap)^[k] s) := by
  induction n with
  | zero => exact absurd ha hbefore
  | succ n ih =>
    rw [Function.iterate_succ_apply'] at ha ⊢
    by_cases hvisited : a ∈ ((step next cap)^[n] s).visited
    · obtain hkept | ⟨k, hk, hlost⟩ := ih hvisited
      · exact .inl (mem_step hkept)
      · exact .inr ⟨k, by omega, hlost⟩
    · -- the element is visited in this step, which pushes or loses what comes next
      obtain ⟨-, hstep, -⟩ | ⟨c, stack, -, -, hstep, -⟩ |
        ⟨c, stack, kept, -, -, hstep, -, hkept⟩ := step_cases next cap ((step next cap)^[n] s)
      · rw [hstep] at ha
        exact absurd ha hvisited
      · rw [hstep] at ha
        exact absurd ha hvisited
      · rw [hstep] at ha ⊢
        obtain rfl : a = c := (Set.mem_insert_iff.mp ha).resolve_right hvisited
        by_cases hnew : b ∈ insert a ((step next cap)^[n] s).visited
        · exact .inl (.inr hnew)
        · have hwanted := mem_wanted.mpr ⟨hb, hnew⟩
          rw [← hkept] at hwanted
          rcases List.mem_append.mp hwanted with hpushed | hlost
          · exact .inl (.inl (List.mem_append_left _ (List.mem_reverse.mpr hpushed)))
          · exact .inr ⟨n, Nat.lt_succ_self n, hlost⟩

/-- **Everything is visited exactly if all that is lost is found again**, that is, put on the stack
once more.

**Proof sketch.** What is lost is still to be found, so if it is visited, it was on the stack in the
meantime. Conversely what was on the stack is visited in the end, so the elements that are visited
in the end are closed under steps. -/
theorem visited_eq_iff (hstart : start ∉ visited) {N : ℕ}
    (hover : ((step next cap)^[N] ⟨visited, [start]⟩).stack = []) :
    ((step next cap)^[N] ⟨visited, [start]⟩).visited =
        visited ∪ {a | Reached next visited start a} ↔
      ∀ n, ∀ a ∈ lost next cap ((step next cap)^[n] ⟨visited, [start]⟩),
        ∃ m, n < m ∧ a ∈ ((step next cap)^[m] ⟨visited, [start]⟩).stack := by
  generalize hs : (⟨visited, [start]⟩ : State α) = s at hover ⊢
  have hvisited : s.visited = visited := by rw [← hs]
  have hsound : Sound next visited start s := by
    rw [← hs]
    exact sound_start ..
  have hend : ∀ m, N ≤ m → (step next cap)^[m] s = (step next cap)^[N] s := by
    intro m hm
    obtain ⟨k, rfl⟩ := Nat.exists_eq_add_of_le hm
    rw [Nat.add_comm, Function.iterate_add_apply, iterate_of_nil hover]
  constructor
  · intro hall n a hlost
    obtain ⟨hreached, hnew⟩ := reached_of_lost (sound_iterate hsound n) hlost
    rw [← Function.iterate_succ_apply' (step next cap)] at hnew
    have hfound : a ∈ ((step next cap)^[N] ((step next cap)^[n + 1] s)).visited := by
      rw [← Function.iterate_add_apply, hend _ (Nat.le_add_right ..), hall]
      exact .inr hreached
    obtain ⟨m, -, hstack⟩ := mem_stack_of_iterate hnew hfound
    rw [← Function.iterate_add_apply] at hstack
    exact ⟨m + (n + 1), by omega, hstack⟩
  · intro hagain
    -- what was on the stack at some time is visited in the end
    have hfinal : ∀ m a, a ∈ ((step next cap)^[m] s).stack →
        a ∈ ((step next cap)^[N] s).visited := by
      intro m a ha
      have hlater : a ∈ ((step next cap)^[N] ((step next cap)^[m] s)).stack ∨
          a ∈ ((step next cap)^[N] ((step next cap)^[m] s)).visited := mem_iterate (.inl ha) N
      rw [← Function.iterate_add_apply, hend _ (Nat.le_add_right ..), hover] at hlater
      exact hlater.resolve_left List.not_mem_nil
    refine Set.Subset.antisymm (fun a ha => (sound_iterate hsound N).since a ha) ?_
    rintro a (ha | ha)
    · exact (sound_iterate hsound N).before ha
    · induction ha with
      | start => exact hfinal 0 start (by rw [← hs]; exact List.mem_singleton_self start)
      | @step a b hreached hnext hb ih =>
        have hbefore : a ∉ s.visited := hvisited ▸ hreached.not_mem hstart
        rcases next_iterate N ih hbefore hnext with (hstack | hfound) | ⟨k, -, hlost⟩
        · rw [hover] at hstack
          cases hstack
        · exact hfound
        · obtain ⟨m, -, hstack⟩ := hagain k b hlost
          exact hfinal m b hstack

end Run

end Uvk5.Worklist
