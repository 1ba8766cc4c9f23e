import Mathlib.Data.ZMod.Defs
import Mathlib.Logic.Function.Basic

set_option relaxedAutoImplicit false
set_option autoImplicit false

/-!
# Ring buffers

A queue in an array of `n` cells, with the index of the next cell to fill and that of the next cell
to empty. The two are equal when the queue is empty, so one cell is always kept free.

## Main definitions

* `Ring`, `Ring.push`, `Ring.pop` — the buffer and its operations; a full buffer drops what is
  pushed.
* `Ring.contents` — the queue it holds, oldest first.

## Main results

* `Ring.contents_push`, `Ring.contents_of_pop` — the operations are those of a queue.
* `Ring.count_lt` — at least one cell is free.
-/

namespace Uvk5

/-- A queue in `n` cells. -/
structure Ring (α : Type) (n : ℕ) where
  /-- The cells. -/
  cells : Fin n → α
  /-- The next cell to fill. -/
  head : Fin n
  /-- The next cell to empty. -/
  tail : Fin n

namespace Ring

variable {α : Type} {n : ℕ} [NeZero n]

/-- The elements in `k` cells from one on. -/
def segment (cells : Fin n → α) : ℕ → Fin n → List α
  | 0, _ => []
  | k + 1, i => cells i :: segment cells k (i + 1)

/-- How many elements are queued. -/
def count (r : Ring α n) : ℕ := (r.head - r.tail).val

/-- The queued elements, oldest first. -/
def contents (r : Ring α n) : List α := segment r.cells r.count r.tail

/-- Take the oldest element. -/
def pop (r : Ring α n) : Option (α × Ring α n) :=
  if r.head = r.tail then none else some (r.cells r.tail, { r with tail := r.tail + 1 })

/-- Queue an element, or drop it if there is no room. -/
def push (r : Ring α n) (x : α) : Ring α n :=
  if r.head + 1 = r.tail then r
  else { r with cells := Function.update r.cells r.head x, head := r.head + 1 }

/-! ## Distances -/

/-- The distance to an index grows by one when the other end moves on, unless they meet. -/
lemma val_add_one_sub {i j : Fin n} (h : i + 1 ≠ j) : (i + 1 - j).val = (i - j).val + 1 := by
  have hnext : i + 1 - j = (i - j) + 1 := add_sub_right_comm i 1 j
  have hne : (i - j).val + 1 ≠ n := by
    intro hwrap
    have hzero : (i - j) + 1 = 0 := by
      apply Fin.ext
      rw [Fin.val_add, Fin.val_one', Nat.add_mod_mod, hwrap, Nat.mod_self]
      rfl
    rw [← hnext] at hzero
    exact h (sub_eq_zero.mp hzero)
  have hlt := (i - j).isLt
  rw [hnext, Fin.val_add, Fin.val_one', Nat.add_mod_mod, Nat.mod_eq_of_lt (by omega)]

/-- The distance from an index shrinks by one when that moves on. -/
lemma val_sub_eq {i j : Fin n} (h : i ≠ j) : (i - j).val = (i - (j + 1)).val + 1 := by
  have hback : i - (j + 1) + 1 = i - j := by rw [sub_add_eq_sub_sub, sub_add_cancel]
  have hne : i - (j + 1) + 1 ≠ 0 := by
    rw [hback]
    exact sub_ne_zero.mpr h
  have hstep := val_add_one_sub hne
  rwa [sub_zero, sub_zero, hback] at hstep

/-! ## Segments -/

/-- A stretch of a ring has its length. -/
@[simp] lemma length_segment (cells : Fin n → α) (k : ℕ) (i : Fin n) :
    (segment cells k i).length = k := by
  induction k generalizing i with
  | zero => rfl
  | succ k ih => rw [segment, List.length_cons, ih]

/-- A segment that does not reach a cell does not see a change of it. -/
lemma segment_update (cells : Fin n → α) (x : α) {h : Fin n} {k : ℕ} {i : Fin n}
    (hk : k ≤ (h - i).val) : segment (Function.update cells h x) k i = segment cells k i := by
  induction k generalizing i with
  | zero => rfl
  | succ k ih =>
    have hne : h ≠ i := by
      rintro rfl
      rw [sub_self, Fin.val_zero] at hk
      omega
    have hdist := val_sub_eq hne
    rw [segment, segment, Function.update_of_ne hne.symm, ih (by omega)]

/-- A stretch that is one longer has the cell behind it. -/
lemma segment_succ (cells : Fin n → α) (k : ℕ) (i : Fin n) :
    segment cells (k + 1) i = segment cells k i ++ [cells (i + Fin.ofNat n k)] := by
  induction k generalizing i with
  | zero =>
    have hzero : i + Fin.ofNat n 0 = i := add_zero i
    rw [segment, segment, segment, List.nil_append, hzero]
  | succ k ih =>
    have hnext : i + 1 + Fin.ofNat n k = i + Fin.ofNat n (k + 1) := by
      apply Fin.ext
      simp only [Fin.val_add, Fin.val_one', Fin.ofNat, Nat.add_mod_mod, Nat.mod_add_mod]
      congr 1
      omega
    rw [segment, ih (i + 1), segment, List.cons_append, hnext]

/-! ## The queue -/

omit [NeZero n] in
/-- At least one cell is free. -/
lemma count_lt (r : Ring α n) : r.count < n := (r.head - r.tail).isLt

/-- A ring has as many elements as it counts. -/
@[simp] lemma length_contents (r : Ring α n) : r.contents.length = r.count := length_segment ..

/-- In a ring that is not full the head does not run into the tail. -/
lemma head_add_one_ne {r : Ring α n} (h : r.count + 1 < n) : r.head + 1 ≠ r.tail := by
  intro hfull
  have hzero : (r.head - r.tail) + 1 = 0 := by
    rw [← add_sub_right_comm, hfull, sub_self]
  have hval := congrArg Fin.val hzero
  rw [Fin.val_add, Fin.val_one', Nat.add_mod_mod, Fin.val_zero,
    Nat.mod_eq_of_lt (show (r.head - r.tail).val + 1 < n from h)] at hval
  omega

/-- **Queueing** appends, as long as there is room. -/
theorem contents_push {r : Ring α n} (x : α) (h : r.count + 1 < n) :
    (r.push x).contents = r.contents ++ [x] := by
  have hroom := head_add_one_ne h
  have hlast : r.tail + Fin.ofNat n r.count = r.head := by
    have hval : Fin.ofNat n r.count = r.head - r.tail := Fin.ext (Nat.mod_eq_of_lt (count_lt r))
    rw [hval, add_sub_cancel]
  rw [push, if_neg hroom, contents, count, val_add_one_sub hroom, segment_succ,
    segment_update _ _ (Nat.le_refl _)]
  change _ ++ [Function.update r.cells r.head x (r.tail + Fin.ofNat n r.count)] = _
  rw [hlast, Function.update_self]
  rfl

/-- **Taking** removes the first. -/
theorem contents_of_pop {r r' : Ring α n} {x : α} (h : r.pop = some (x, r')) :
    r.contents = x :: r'.contents := by
  rw [pop] at h
  split at h
  · cases h
  · next hne =>
    obtain ⟨rfl, rfl⟩ := Prod.mk.inj (Option.some.inj h)
    rw [contents, count, val_sub_eq hne, segment]
    rfl

/-- Nothing can be taken from an empty ring only. -/
lemma contents_of_pop_none {r : Ring α n} (h : r.pop = none) : r.contents = [] := by
  rw [pop] at h
  split at h
  · next heq =>
    rw [contents, count, heq, sub_self, Fin.val_zero, segment]
  · cases h

/-- An element that is taken is one less. -/
lemma count_of_pop {r r' : Ring α n} {x : α} (h : r.pop = some (x, r')) :
    r.count = r'.count + 1 := by
  rw [← length_contents, contents_of_pop h, List.length_cons, length_contents]

/-- A ring from which nothing can be taken counts none. -/
lemma count_of_pop_none {r : Ring α n} (h : r.pop = none) : r.count = 0 := by
  rw [← length_contents, contents_of_pop_none h, List.length_nil]

end Ring

end Uvk5
