import Mathlib.Data.List.GetD
import Uvk5.Lib.Bytes

set_option relaxedAutoImplicit false
set_option autoImplicit false

/-!
# Overlays

Writing to some positions of a list and leaving the others alone. What is written is a partial
function on positions, so that two writes are compared by where they are defined.

## Main definitions

* `overlay` — a list with some positions replaced.
* `placed` — the positions of a string laid down at an offset.
* `Carries` — a list that has what an overlay writes.
* `lastOf` — what the last of several overlays that says anything says.

## Main results

* `overlay_comm` — overlays that are nowhere both defined commute.
* `foldl_overlay` — overlays one after the other: the last one wins.
* `foldl_overlay_perm` — the order of overlays that are nowhere both defined does not matter.
* `Bytes.assign_eq_overlay` — assigning a string to a range of its length.
* `Carries.slice` — reading back a part of what was written.
-/

namespace Uvk5

section Overlay

variable {α : Type}

/-- The list `l` with what `p` says in place of its own elements. -/
def overlay (p : ℕ → Option α) (l : List α) : List α := l.mapIdx fun i a => (p i).getD a

/-- The string `bytes` laid down at `off`. -/
def placed (off : ℕ) (bytes : List α) (i : ℕ) : Option α :=
  if off ≤ i then bytes[i - off]? else none

/-- `l` has everything `p` writes. -/
def Carries (l : List α) (p : ℕ → Option α) : Prop := ∀ i a, p i = some a → l[i]? = some a

/-- Laying something over a list leaves its length. -/
@[simp] lemma length_overlay (p : ℕ → Option α) (l : List α) : (overlay p l).length = l.length :=
  List.length_mapIdx

/-- An element is what is laid over it, if there is something, and otherwise as it was. -/
lemma getElem?_overlay (p : ℕ → Option α) (l : List α) (i : ℕ) :
    (overlay p l)[i]? = l[i]?.map fun a => (p i).getD a := List.getElem?_mapIdx

/-- Where nothing is written the list is as it was. -/
lemma getElem?_overlay_of_none {p : ℕ → Option α} (l : List α) {i : ℕ} (h : p i = none) :
    (overlay p l)[i]? = l[i]? := by
  rw [getElem?_overlay, h]
  exact Option.map_id'

/-- The later overlay wins. -/
lemma overlay_overlay (p q : ℕ → Option α) (l : List α) :
    overlay p (overlay q l) = overlay (fun i => (p i).or (q i)) l := by
  refine List.ext_getElem? fun i => ?_
  rw [getElem?_overlay, getElem?_overlay, getElem?_overlay, Option.map_map]
  refine congrArg (fun f => l[i]?.map f) (funext fun a => ?_)
  rw [Function.comp_apply]
  cases p i <;> rfl

/-- **Overlays that are nowhere both defined commute.** -/
theorem overlay_comm {p q : ℕ → Option α} (h : ∀ i, p i = none ∨ q i = none) (l : List α) :
    overlay p (overlay q l) = overlay q (overlay p l) := by
  rw [overlay_overlay, overlay_overlay]
  refine congrArg (fun r => overlay r l) (funext fun i => ?_)
  rcases h i with hp | hq
  · rw [hp, Option.none_or, Option.or_none]
  · rw [hq, Option.none_or, Option.or_none]

/-- Bytes that are placed say nothing in front of them and behind them. -/
lemma placed_eq_none_iff {off : ℕ} {bytes : List α} {i : ℕ} :
    placed off bytes i = none ↔ i < off ∨ off + bytes.length ≤ i := by
  rw [placed]
  split
  · rw [List.getElem?_eq_none_iff]
    omega
  · simp only [true_iff]
    omega

/-- Setting the elements of a range one after the other. -/
lemma foldl_set_eq_overlay {l : List α} {off n : ℕ} (a : α) (h : off + n ≤ l.length) :
    (List.range n).foldl (fun l k => l.set (off + k) a) l =
      overlay (placed off (List.replicate n a)) l := by
  induction n with
  | zero =>
    refine List.ext_getElem? fun i => ?_
    have hnone : placed off (List.replicate 0 a) i = none :=
      placed_eq_none_iff.mpr (by rw [List.length_replicate]; omega)
    rw [getElem?_overlay_of_none l hnone, List.range_zero, List.foldl_nil]
  | succ n ih =>
    rw [List.range_succ, List.foldl_append, ih (by omega), List.foldl_cons, List.foldl_nil]
    refine List.ext_getElem? fun i => ?_
    rw [List.getElem?_set, getElem?_overlay, getElem?_overlay, length_overlay, placed, placed]
    simp only [List.getElem?_replicate]
    split
    · next hi =>
      subst hi
      have hlt : off + n < l.length := by omega
      rw [if_pos hlt, if_pos (Nat.le_add_right off n), if_pos (by omega),
        List.getElem?_eq_getElem hlt]
      rfl
    · next hi =>
      refine congrArg (fun p : Option α => l[i]?.map fun b => p.getD b) ?_
      split
      · exact if_congr (by omega) rfl rfl
      · rfl

/-- What was written is there. -/
lemma carries_overlay {p : ℕ → Option α} {l : List α} (h : ∀ i, p i ≠ none → i < l.length) :
    Carries (overlay p l) p := by
  intro i a hp
  have hi : i < l.length := h i (by rw [hp]; exact Option.some_ne_none a)
  rw [getElem?_overlay, List.getElem?_eq_getElem hi, hp]
  rfl

/-- A list keeps carrying what an overlay does not touch. -/
lemma Carries.overlay {p q : ℕ → Option α} {l : List α} (h : Carries l p)
    (hdisj : ∀ i, q i = none ∨ p i = none) : Carries (overlay q l) p := by
  intro i a hp
  rcases hdisj i with hq | hp'
  · rw [getElem?_overlay_of_none l hq]
    exact h i a hp
  · rw [hp'] at hp
    cases hp

/-- A part of what is carried is carried. -/
lemma Carries.mono {p q : ℕ → Option α} {l : List α} (h : Carries l p)
    (hqp : ∀ i a, q i = some a → p i = some a) : Carries l q :=
  fun i a hq => h i a (hqp i a hq)

/-! ### Several overlays -/

/-- Two overlays are nowhere both defined. -/
def Apart (p q : ℕ → Option α) : Prop := ∀ i, p i = none ∨ q i = none

/-- What writes to different places does so in either order. -/
lemma Apart.symm {p q : ℕ → Option α} (h : Apart p q) : Apart q p := fun i => (h i).symm

/-- What the last of some overlays that says anything says. -/
def lastOf : List (ℕ → Option α) → ℕ → Option α
  | [], _ => none
  | p :: ps, i => (lastOf ps i).or (p i)

/-- **Overlays one after the other**: at each position the last one that is defined there wins. -/
theorem foldl_overlay (ps : List (ℕ → Option α)) (l : List α) :
    ps.foldl (fun l p => overlay p l) l = overlay (lastOf ps) l := by
  induction ps generalizing l with
  | nil =>
    refine List.ext_getElem? fun i => ?_
    rw [List.foldl_nil, getElem?_overlay_of_none l rfl]
  | cons p ps ih =>
    rw [List.foldl_cons, ih, overlay_overlay]
    rfl

/-- **The order of overlays that are nowhere both defined does not matter.** -/
theorem foldl_overlay_perm {ps qs : List (ℕ → Option α)} (h : ps.Perm qs)
    (hapart : ps.Pairwise Apart) (l : List α) :
    ps.foldl (fun l p => overlay p l) l = qs.foldl (fun l p => overlay p l) l := by
  induction h generalizing l with
  | nil => rfl
  | cons p _ ih =>
    rw [List.foldl_cons, List.foldl_cons]
    exact ih (List.pairwise_cons.mp hapart).2 _
  | swap p q ps =>
    have hpq : Apart q p := (List.pairwise_cons.mp hapart).1 p (List.mem_cons_self ..)
    rw [List.foldl_cons, List.foldl_cons, List.foldl_cons, List.foldl_cons, overlay_comm hpq.symm]
  | trans h₁ _ ih₁ ih₂ =>
    exact (ih₁ hapart l).trans (ih₂ (h₁.pairwise hapart fun h => h.symm) l)

/-- Where no overlay is defined nothing is said. -/
lemma lastOf_eq_none_iff {ps : List (ℕ → Option α)} {i : ℕ} :
    lastOf ps i = none ↔ ∀ p ∈ ps, p i = none := by
  induction ps with
  | nil => simp [lastOf]
  | cons p ps ih => rw [lastOf, Option.or_eq_none_iff, ih, List.forall_mem_cons, and_comm]

/-- Of overlays that are nowhere both defined, the one that is defined is the last. -/
lemma lastOf_of_mem {ps : List (ℕ → Option α)} (hapart : ps.Pairwise Apart) {p : ℕ → Option α}
    (hp : p ∈ ps) {i : ℕ} {a : α} (ha : p i = some a) : lastOf ps i = some a := by
  induction ps with
  | nil => cases hp
  | cons q ps ih =>
    obtain ⟨hq, hrest⟩ := List.pairwise_cons.mp hapart
    rw [lastOf]
    rcases List.mem_cons.mp hp with rfl | hp
    · have hnone : lastOf ps i = none := by
        refine lastOf_eq_none_iff.mpr fun r hr => ?_
        rcases hq r hr i with hp' | hr'
        · rw [hp'] at ha
          cases ha
        · exact hr'
      rw [hnone, Option.none_or, ha]
    · rw [ih hrest hp, Option.some_or]

/-- A list carries each of several overlays that are nowhere both defined. -/
lemma carries_lastOf {ps : List (ℕ → Option α)} (hapart : ps.Pairwise Apart) {p : ℕ → Option α}
    (hp : p ∈ ps) {l : List α} (h : ∀ i, p i ≠ none → i < l.length) :
    Carries (overlay (lastOf ps) l) p := by
  intro i a ha
  have hi : i < l.length := h i (by rw [ha]; exact Option.some_ne_none a)
  rw [getElem?_overlay, List.getElem?_eq_getElem hi, lastOf_of_mem hapart hp ha]
  rfl

end Overlay

namespace Bytes

/-- `s[i:j] = t`. -/
def assign (s : List UInt8) (i j : ℕ) (t : List UInt8) : List UInt8 :=
  s.take i ++ t ++ s.drop (max i j)

/-- The length of a list after a slice of it is replaced. -/
lemma length_assign {s : List UInt8} {i j : ℕ} {t : List UInt8} (h : i ≤ j) :
    (assign s i j t).length = min i s.length + t.length + (s.length - j) := by
  rw [assign, List.length_append, List.length_append, List.length_take, List.length_drop,
    Nat.max_eq_right h]

/-- A range that is replaced by as many bytes does not make the string shorter. -/
lemma le_length_assign {s : List UInt8} {i n : ℕ} {t : List UInt8} (ht : t.length = n) :
    s.length ≤ (assign s i (i + n) t).length := by
  rw [length_assign (Nat.le_add_right i n), ht]
  omega

/-- **Assigning a string to a range of its length** lays it down there. -/
theorem assign_eq_overlay {s : List UInt8} {i : ℕ} {t : List UInt8} (h : i + t.length ≤ s.length) :
    assign s i (i + t.length) t = overlay (placed i t) s := by
  refine List.ext_getElem? fun k => ?_
  have hfront : (s.take i).length = i := by rw [List.length_take]; omega
  rw [assign, getElem?_overlay, placed, Nat.max_eq_right (Nat.le_add_right i t.length),
    List.append_assoc]
  split
  · next hk =>
    rw [List.getElem?_append_right (by omega), hfront]
    rcases Nat.lt_or_ge (k - i) t.length with hin | hout
    · rw [List.getElem?_append_left hin, List.getElem?_eq_getElem hin,
        List.getElem?_eq_getElem (show k < s.length by omega)]
      rfl
    · have hat : i + t.length + (k - i - t.length) = k := by omega
      rw [List.getElem?_append_right hout, List.getElem?_drop, hat,
        List.getElem?_eq_none hout]
      exact Option.map_id'.symm
  · next hk =>
    rw [List.getElem?_append_left (by omega), List.getElem?_take_of_lt (by omega)]
    exact Option.map_id'.symm

end Bytes

/-- **Reading back** a part of a string that was laid down. -/
theorem Carries.slice {s t : List UInt8} {off i j : ℕ} (h : Carries s (placed off t))
    (hj : j ≤ t.length) : Bytes.slice s (off + i) (off + j) = Bytes.slice t i j := by
  refine List.ext_getElem? fun k => ?_
  rw [Bytes.slice, Bytes.slice, Nat.add_sub_add_left, List.getElem?_take, List.getElem?_take]
  split
  · next hk =>
    have hat : placed off t (off + i + k) = some (t[i + k]) := by
      have hidx : off + i + k - off = i + k := by omega
      rw [placed, if_pos (by omega), hidx, List.getElem?_eq_getElem (by omega)]
    rw [List.getElem?_drop, List.getElem?_drop, h _ _ hat,
      List.getElem?_eq_getElem (show i + k < t.length by omega)]
  · rfl

/-- Reading back all of a string that was laid down. -/
lemma Carries.whole {s t : List UInt8} {off n : ℕ} (h : Carries s (placed off t))
    (hn : t.length = n) : Bytes.slice s off (off + n) = t := by
  subst hn
  have hback := h.slice (i := 0) (j := t.length) (Nat.le_refl _)
  rwa [Nat.add_zero, Bytes.slice_zero, List.take_length] at hback

end Uvk5
