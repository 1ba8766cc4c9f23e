import Mathlib.Data.List.Basic
import Mathlib.Data.List.Induction
import Mathlib.Data.Nat.Init

set_option relaxedAutoImplicit false
set_option autoImplicit false

/-!
# A text in a window that scrolls

A window shows the last `m` characters of a text. An observer looks at the window after every
character and writes down what is behind the longest common prefix of what it showed before and
what it shows now.

## Main definitions

* `Scroll.shown`, `Scroll.news` — what the window shows, and what is written down.
* `Scroll.observed` — all that is written down of a text.
* `Scroll.heard` — the same with the newest character first, for the proofs.
* `Scroll.Settled`, `Scroll.Regular` — texts of long runs.
* `Scroll.SelfReading` — texts that spell out their own windows.

## Main results

* `Scroll.observed_append_singleton` — what is written down for one more character.
* `Scroll.observed_eq_self_iff` — the texts that are written down as they are.
* `Scroll.take_observed_eq_iff` — the same where there is only so much room.
-/

namespace Uvk5.Scroll

variable {α : Type} [DecidableEq α]

/-! ## The observer -/

/-- The length of the longest common prefix. -/
def commonPrefix : List α → List α → ℕ
  | a :: l, b :: k => if a = b then commonPrefix l k + 1 else 0
  | _, _ => 0

/-- What is written down where the window showed `before` and shows `after`. -/
def news (before after : List α) : List α := after.drop (commonPrefix before after)

/-- The empty text has nothing in common with another. -/
@[simp] lemma commonPrefix_nil_left (l : List α) : commonPrefix [] l = 0 := rfl

/-- Nothing is in common with the empty text. -/
@[simp] lemma commonPrefix_nil_right (l : List α) : commonPrefix l [] = 0 := by
  cases l <;> rfl

omit [DecidableEq α] in
/-- What a window of `m` characters shows. -/
def shown (m : ℕ) (w : List α) : List α := w.drop (w.length - m)

/-- A list without its first run. -/
def dropRun : List α → List α
  | [] => []
  | a :: l => l.dropWhile (· = a)

omit [DecidableEq α] in
/-- The stretches of `k` characters of a text. -/
def windows (k : ℕ) (w : List α) : List (List α) :=
  (List.range (w.length + 1 - k)).map fun t => (w.drop t).take k

/-- What is written down: the text as long as it fits, and then every stretch of `m + 1` characters
without its first run. -/
def observed (m : ℕ) (w : List α) : List α := w.take m ++ (windows (m + 1) w).flatMap dropRun

/-! ## Runs -/

/-- The first run is dropped, and nothing behind it. -/
lemma dropRun_replicate_append {k : ℕ} {e : α} {y : List α} (hk : 0 < k)
    (hy : y.head? ≠ some e) : dropRun (List.replicate k e ++ y) = y := by
  obtain ⟨k, rfl⟩ : ∃ n, k = n + 1 := ⟨k - 1, by omega⟩
  have hall : ∀ a ∈ List.replicate k e, decide (a = e) = true := by
    intro a ha
    exact decide_eq_true (List.eq_of_mem_replicate ha)
  rw [List.replicate_succ, List.cons_append, dropRun, List.dropWhile_append_of_pos hall]
  cases y with
  | nil => rfl
  | cons b y =>
    have hb : b ≠ e := fun heq => hy (by simp [heq])
    simp [hb]

omit [DecidableEq α] in
/-- A list that is not empty begins with a run. -/
lemma exists_run {l : List α} (h : l ≠ []) :
    ∃ a n t, 0 < n ∧ l = List.replicate n a ++ t ∧ t.head? ≠ some a := by
  induction l with
  | nil => exact absurd rfl h
  | cons x l ih =>
    cases l with
    | nil => exact ⟨x, 1, [], by omega, rfl, by simp⟩
    | cons y l =>
      obtain ⟨a, n, t, hn, hl, ht⟩ := ih (by simp)
      by_cases hx : x = a
      · exact ⟨a, n + 1, t, by omega, by rw [hl, hx]; rfl, ht⟩
      · refine ⟨x, 1, y :: l, by omega, rfl, ?_⟩
        rw [hl]
        obtain ⟨n, rfl⟩ : ∃ k, n = k + 1 := ⟨n - 1, by omega⟩
        simpa [List.replicate_succ] using Ne.symm hx

omit [DecidableEq α] in
/-- The first run of a list is determined by it. -/
lemma replicate_append_inj {b e e' : α} (he : b ≠ e) (he' : b ≠ e') :
    ∀ {x y : ℕ} {r r' : List α}, List.replicate x b ++ e :: r = List.replicate y b ++ e' :: r' →
      x = y ∧ e :: r = e' :: r'
  | 0, 0, _, _, h => ⟨rfl, h⟩
  | 0, y + 1, _, _, h => absurd (List.cons.inj h).1.symm he
  | x + 1, 0, _, _, h => absurd (List.cons.inj h).1 he'
  | x + 1, y + 1, _, _, h => by
    obtain ⟨hxy, hr⟩ := replicate_append_inj he he' (List.cons.inj h).2
    exact ⟨congrArg (· + 1) hxy, hr⟩

/-! ## Histories

A history is a text with the newest character first. -/

/-- What is written down for the newest character of a history. -/
def fresh (m : ℕ) (h : List α) : List α :=
  if h.length ≤ m then h.take 1 else (dropRun (h.take (m + 1)).reverse).reverse

/-- What is written down of a history. -/
def heard (m : ℕ) : List α → List α
  | [] => []
  | c :: h => fresh m (c :: h) ++ heard m h

variable {m : ℕ}

/-- What fits is written down as it is. -/
lemma heard_of_length_le {h : List α} (hh : h.length ≤ m) : heard m h = h := by
  induction h with
  | nil => rfl
  | cons c h ih =>
    have hle : h.length ≤ m := by simp at hh; omega
    rw [heard, ih hle, fresh, if_pos hh]
    rfl

/-- What is written down is what is in front of the oldest run that the window still touches. -/
lemma fresh_eq {h x : List α} {e : α} {k : ℕ} (hm : m < h.length) (hk : 0 < k)
    (htake : h.take (m + 1) = x ++ List.replicate k e) (hx : x.getLast? ≠ some e) :
    fresh m h = x := by
  have hrun : dropRun (x ++ List.replicate k e).reverse = x.reverse := by
    rw [List.reverse_append, List.reverse_replicate]
    exact dropRun_replicate_append hk (by rwa [List.head?_reverse])
  rw [fresh, if_neg (by omega), htake, hrun, List.reverse_reverse]

/-- There is such a run. -/
lemma exists_fresh {h : List α} (hm : m < h.length) :
    ∃ x e k, 0 < k ∧ h.take (m + 1) = x ++ List.replicate k e ∧ x.getLast? ≠ some e ∧
      fresh m h = x := by
  have hne : (h.take (m + 1)).reverse ≠ [] := by
    intro hnil
    have hlength := congrArg List.length hnil
    rw [List.length_reverse, List.length_take, List.length_nil] at hlength
    omega
  obtain ⟨e, k, t, hk, htake, ht⟩ := exists_run hne
  have htake' : h.take (m + 1) = t.reverse ++ List.replicate k e := by
    rw [← List.reverse_reverse (h.take (m + 1)), htake]
    simp
  have hlast : t.reverse.getLast? ≠ some e := by rwa [List.getLast?_reverse]
  exact ⟨t.reverse, e, k, hk, htake', hlast, fresh_eq hm hk htake' hlast⟩

/-- Nothing is written down while the window shows one character only. -/
lemma heard_long_run {n : ℕ} (hn : m ≤ n) (b : α) (h : List α) :
    heard m (List.replicate n b ++ h) = heard m (List.replicate m b ++ h) := by
  induction n, hn using Nat.le_induction with
  | base => rfl
  | succ n hn ih =>
    have htake : (b :: (List.replicate n b ++ h)).take (m + 1) =
        [] ++ List.replicate (m + 1) b := by
      rw [← List.cons_append, ← List.replicate_succ, List.take_append_of_le_length (by simp; omega),
        List.take_replicate, Nat.min_eq_left (by omega), List.nil_append]
    have hfresh := fresh_eq (by simp; omega) (by omega) htake (by simp)
    rw [List.replicate_succ, List.cons_append, heard, hfresh, ih]
    rfl

/-- The window touches two runs only: the newer one is written down as far as it shows. -/
lemma heard_two_runs {b e : α} (hne : b ≠ e) {j p : ℕ} (hj : j + 1 ≤ m) (hp : m ≤ j + p)
    (h : List α) :
    heard m (List.replicate (j + 1) b ++ (List.replicate p e ++ h)) =
      List.replicate (j + 1) b ++ heard m (List.replicate j b ++ (List.replicate p e ++ h)) := by
  have htake : (b :: (List.replicate j b ++ (List.replicate p e ++ h))).take (m + 1) =
      List.replicate (j + 1) b ++ List.replicate (m - j) e := by
    rw [← List.cons_append, ← List.replicate_succ, List.take_append, List.take_replicate,
      List.take_append, List.take_replicate, List.length_replicate, List.length_replicate]
    have h1 : m + 1 - (j + 1) - p = 0 := by omega
    have h2 : min (m + 1) (j + 1) = j + 1 := by omega
    have h3 : min (m + 1 - (j + 1)) p = m - j := by omega
    rw [h1, h2, h3, List.take_zero, List.append_nil]
  have hfresh := fresh_eq (by simp; omega) (by omega) htake
    (by simp [List.getLast?_replicate, hne])
  rw [List.replicate_succ, List.cons_append, heard, hfresh, List.replicate_succ]

/-! ## Long runs -/

/-- How long a run must be to be written down as it is behind a run of `i` characters, which are
all that came before or fill the window: `m + (m - 1) + … + (m - i)`. -/
def runLength (m : ℕ) : ℕ → ℕ
  | 0 => m
  | i + 1 => runLength m i + (m - (i + 1))

example : runLength 23 23 = 276 := by decide

/-- A run in a text that is settled is at least as long as the window. -/
lemma le_runLength {i : ℕ} (hi : i ≤ m) : m ≤ runLength m i := by
  induction i with
  | zero => exact Nat.le_refl m
  | succ i ih => exact Nat.le_trans (ih (by omega)) (Nat.le_add_right ..)

/-- **Behind a run** that the window shows, as many new characters are written down as a run of
that length makes, less those that the window still shows. -/
lemma heard_scroll {b e : α} (hne : b ≠ e) {p : ℕ} (h : List α) {k : ℕ} (hk : k ≤ m) (hp : k ≤ p) :
    ∃ n, n + (m - k) = runLength m k ∧
      heard m (List.replicate m b ++ (List.replicate p e ++ h)) =
        List.replicate n b ++
          heard m (List.replicate (m - k) b ++ (List.replicate p e ++ h)) := by
  induction k with
  | zero => exact ⟨0, Nat.zero_add m, rfl⟩
  | succ k ih =>
    obtain ⟨n, hn, hheard⟩ := ih (by omega) (by omega)
    obtain ⟨j, hj⟩ : ∃ j, m - k = j + 1 := ⟨m - k - 1, by omega⟩
    have hj' : m - (k + 1) = j := by omega
    refine ⟨n + (j + 1), by rw [runLength, ← hn, hj, hj'], ?_⟩
    rw [hheard, hj, hj', heard_two_runs hne (by omega) (by omega), ← List.append_assoc,
      List.replicate_append_replicate]

/-- The texts that end in a run so long that the window shows nothing else, and that have been
written down as they are. -/
inductive Settled (m : ℕ) : List α → Prop
  /-- The window is full for the first time. -/
  | uniform (a : α) : Settled m (List.replicate m a)
  /-- There were two runs when the window was full for the first time. -/
  | first {i : ℕ} {a b : α} (hpos : 0 < i) (hi : i < m) (hne : a ≠ b) :
    Settled m (List.replicate i a ++ List.replicate (runLength m i) b)
  /-- One more run. -/
  | next {w : List α} {a b : α} (h : Settled m w) (hlast : w.getLast? = some a) (hne : a ≠ b) :
    Settled m (w ++ List.replicate (runLength m m) b)

omit [DecidableEq α] in
/-- The window shows one character. -/
lemma Settled.exists_eq {h : List α} (hs : Settled m h.reverse) :
    ∃ a t, h = List.replicate m a ++ t := by
  have hrun : ∀ {n : ℕ} (b : α) (t : List α), m ≤ n →
      ∃ a t', List.replicate n b ++ t = List.replicate m a ++ t' := by
    intro n b t hn
    refine ⟨b, List.replicate (n - m) b ++ t, ?_⟩
    rw [← List.append_assoc, List.replicate_append_replicate]
    congr 2
    omega
  generalize hw : h.reverse = w at hs
  obtain rfl : h = w.reverse := by rw [← hw, List.reverse_reverse]
  cases hs with
  | uniform a => exact ⟨a, [], by simp⟩
  | first hpos hi hne =>
    rw [List.reverse_append, List.reverse_replicate]
    exact hrun _ _ (le_runLength (Nat.le_of_lt hi))
  | next hs hlast hne =>
    rw [List.reverse_append, List.reverse_replicate]
    exact hrun _ _ (le_runLength (Nat.le_refl m))

/-- **Settled texts are written down as they are.** -/
lemma Settled.heard_reverse (hm : 0 < m) {w : List α} (hs : Settled m w) :
    heard m w.reverse = w.reverse := by
  induction hs with
  | uniform a => exact heard_of_length_le (by simp)
  | @first i a b hpos hi hne =>
    obtain ⟨n, hn, hheard⟩ := heard_scroll hne.symm [] (Nat.le_of_lt hi) (Nat.le_refl i)
    have hfits : heard m (List.replicate (m - i) b ++ (List.replicate i a ++ [])) =
        List.replicate (m - i) b ++ (List.replicate i a ++ []) :=
      heard_of_length_le (by simp; omega)
    rw [List.reverse_append, List.reverse_replicate, List.reverse_replicate,
      ← List.append_nil (List.replicate i a), heard_long_run (le_runLength (Nat.le_of_lt hi)),
      hheard, hfits, ← List.append_assoc, List.replicate_append_replicate, hn]
  | @next w a b hs hlast hne ih =>
    obtain ⟨a', t, ht⟩ := @Settled.exists_eq α m w.reverse (by rwa [List.reverse_reverse])
    obtain rfl : a = a' := by
      obtain ⟨j, rfl⟩ : ∃ j, m = j + 1 := ⟨m - 1, by omega⟩
      rw [← List.head?_reverse, ht, List.replicate_succ] at hlast
      exact (Option.some.inj hlast).symm
    obtain ⟨n, hn, hheard⟩ := heard_scroll hne.symm t (Nat.le_refl m) (Nat.le_refl m)
    rw [Nat.sub_self, List.replicate_zero, List.nil_append, ← ht, ih] at hheard
    rw [List.reverse_append, List.reverse_replicate, heard_long_run (le_runLength (Nat.le_refl m)),
      hheard, ← hn, Nat.sub_self, Nat.add_zero]

/-- One more character behind a settled text is written down. -/
lemma Settled.heard_cons (hm : 0 < m) {h : List α} (hs : Settled m h.reverse) {c : α}
    (hc : h.head? ≠ some c) : heard m (c :: h) = c :: h := by
  have hheard := hs.heard_reverse hm
  obtain ⟨a, t, rfl⟩ := hs.exists_eq
  obtain ⟨j, rfl⟩ : ∃ j, m = j + 1 := ⟨m - 1, by omega⟩
  have hca : c ≠ a := fun heq => hc (by simp [List.replicate_succ, heq])
  have htake : (c :: (List.replicate (j + 1) a ++ t)).take (j + 1 + 1) =
      [c] ++ List.replicate (j + 1) a := by
    rw [List.take_succ_cons, List.take_left' (by simp)]
    rfl
  have hlong : j + 1 < (c :: (List.replicate (j + 1) a ++ t)).length := by
    rw [List.length_cons, List.length_append, List.length_replicate]
    omega
  rw [List.reverse_reverse] at hheard
  rw [heard, fresh_eq hlong (by omega) htake (by simpa using hca), hheard]
  rfl

/-! ## No other texts -/

omit [DecidableEq α] in
/-- A list begins with what its beginning begins with. -/
lemma replicate_append_of_take {h : List α} {a : α} {n : ℕ}
    (htake : h.take n = List.replicate n a) : ∃ t, h = List.replicate n a ++ t :=
  ⟨h.drop n, by rw [← htake, List.take_append_drop]⟩

omit [DecidableEq α] in
/-- A window whose characters behind the newest are all `a`. -/
lemma window_cases {x : List α} {c e a : α} {k : ℕ} (hm : 0 < m) (hk : 0 < k)
    (hx : x.getLast? ≠ some e) (hwindow : x ++ List.replicate k e = c :: List.replicate m a) :
    e = a ∧ (x = [] ∨ x = [c] ∧ c ≠ a) := by
  have hlast := congrArg List.getLast? hwindow
  obtain rfl : e = a := by
    simpa [List.getLast?_append, List.getLast?_replicate, List.getLast?_cons, Nat.ne_of_gt hk,
      Nat.ne_of_gt hm] using hlast
  refine ⟨rfl, ?_⟩
  cases x with
  | nil => exact .inl rfl
  | cons x₀ x =>
    rw [List.cons_append, List.cons.injEq, List.append_eq_replicate_iff] at hwindow
    obtain ⟨rfl, -, hall, -⟩ := hwindow
    rw [hall] at hx ⊢
    cases hlen : x.length with
    | zero =>
      rw [hlen] at hx
      exact .inr ⟨rfl, by simpa using hx⟩
    | succ j =>
      rw [hlen] at hx
      simp [List.getLast?_cons, List.getLast?_replicate] at hx

/-- **What is missing was lost in a long run.** If the newest characters of a history are missing
in what is written down, the history begins with that many of one character and a whole window.

**Proof sketch.** Induction on the history. What is written down at its first character is `x`, so
the rest has lost `d` and the length of `x`. If that is nothing, the window is one run. Otherwise
the rest begins with a long run, and the window with the new character either continues it or
would write down a character that is not there. -/
lemma exists_long_run (hm : 0 < m) {h : List α} {d : ℕ} (hd : 0 < d) (hdh : d ≤ h.length)
    (hheard : heard m h = h.drop d) : ∃ a t, h = List.replicate (m + d) a ++ t := by
  induction h generalizing d with
  | nil => simp at hdh; omega
  | cons c h ih =>
    rcases Nat.lt_or_ge m (c :: h).length with hlong | hshort
    · obtain ⟨x, e, k, hk, htake, hx, hfresh⟩ := exists_fresh hlong
      obtain ⟨d, rfl⟩ : ∃ n, d = n + 1 := ⟨d - 1, by omega⟩
      rw [heard, hfresh, List.drop_succ_cons] at hheard
      have hlen : x.length + k = m + 1 := by
        have hl := congrArg List.length htake
        rw [List.length_take, List.length_append, List.length_replicate] at hl
        omega
      rw [List.length_cons] at hdh
      -- the rest of the history has lost as much, and what is written down now
      have hrest : heard m h = h.drop (d + x.length) := by
        rw [← List.drop_drop, ← hheard, List.drop_left]
      have hbound : d + x.length ≤ h.length := by
        have hl := congrArg List.length hheard
        rw [List.length_append, List.length_drop] at hl
        omega
      rcases Nat.eq_zero_or_pos (d + x.length) with hzero | hpos
      · obtain rfl : d = 0 := by omega
        obtain rfl : x = [] := List.length_eq_zero_iff.mp (by omega)
        obtain rfl : k = m + 1 := by simpa using hlen
        exact ⟨e, replicate_append_of_take htake⟩
      · obtain ⟨a, t, rfl⟩ := ih hpos hbound hrest
        have hwindow : x ++ List.replicate k e = c :: List.replicate m a := by
          rw [← htake, List.take_succ_cons, List.take_append_of_le_length (by simp),
            List.take_replicate, Nat.min_eq_left (by omega)]
        obtain ⟨rfl, rfl | ⟨rfl, hce⟩⟩ := window_cases hm hk hx hwindow
        · have hce : e = c := by
            obtain ⟨k, rfl⟩ : ∃ n, k = n + 1 := ⟨k - 1, by omega⟩
            exact (List.cons.inj hwindow).1
          subst hce
          exact ⟨e, t, rfl⟩
        · -- what is written down would begin with a character that is not there
          have hfirst := congrArg List.head? hheard
          rw [List.head?_drop, List.getElem?_append_left (by simp; omega),
            List.getElem?_replicate, if_pos (by omega)] at hfirst
          exact absurd (Option.some.inj hfirst) hce
    · rw [heard_of_length_le hshort] at hheard
      have hl := congrArg List.length hheard
      rw [List.length_drop] at hl
      omega

/-- Behind a full window, all that the window shows is written down if its oldest run has scrolled
out. -/
lemma heard_window {y : List α} (hm : 0 < m) (hy : y.length = m) {f : α}
    (hf : y.getLast? ≠ some f) (t : List α) : ∃ r, heard m (y ++ f :: t) = y ++ r := by
  cases y with
  | nil => simp at hy; omega
  | cons c y =>
    have htake : (c :: (y ++ f :: t)).take (m + 1) = (c :: y) ++ List.replicate 1 f := by
      rw [← List.cons_append, List.take_append, List.take_of_length_le (by omega), hy]
      simp
    have hfresh := fresh_eq (by simp at hy ⊢; omega) (by omega) htake hf
    exact ⟨heard m (y ++ f :: t), by rw [List.cons_append, heard, hfresh]⟩

/-- What is written down where the window has scrolled from one run to the next. -/
lemma heard_boundary (hm : 0 < m) {b e : α} {p : ℕ} (hp : 0 < p) {h : List α}
    (hh : h.head? ≠ some e) :
    ∃ r, heard m (List.replicate (m - min p m) b ++ (List.replicate p e ++ h)) =
      List.replicate (m - min p m) b ++ e :: r := by
  obtain ⟨k, hk⟩ : ∃ k, min p m = k + 1 := ⟨min p m - 1, by omega⟩
  have hshort : heard m (List.replicate (m - min p m) b ++ (List.replicate p e ++ h)) =
      heard m (List.replicate (m - min p m) b ++ (List.replicate (min p m) e ++ h)) := by
    rcases Nat.le_total p m with hle | hle
    · rw [Nat.min_eq_left hle]
    · rw [Nat.min_eq_right hle, Nat.sub_self, List.replicate_zero, List.nil_append,
        List.nil_append, heard_long_run hle]
  rw [hshort, hk, ← List.append_assoc]
  cases h with
  | nil =>
    rw [List.append_nil, heard_of_length_le (by simp; omega), List.replicate_succ]
    exact ⟨_, rfl⟩
  | cons f t =>
    have hf : (List.replicate (m - (k + 1)) b ++ List.replicate (k + 1) e).getLast? ≠ some f := by
      intro hlast
      refine hh ?_
      simpa [List.getLast?_append, List.getLast?_replicate, eq_comm] using hlast
    obtain ⟨r, hr⟩ := heard_window hm (by simp; omega) hf t
    rw [hr, List.replicate_succ, List.append_assoc]
    exact ⟨_, rfl⟩

/-- **A long newest run.** If a history is written down as it is, its newest run has the right
length, and what the window had shown before it was written down as it is. -/
lemma heard_of_long_run (hm : 0 < m) {b e : α} (hne : b ≠ e) {n p : ℕ} (hn : m < n) (hp : 0 < p)
    {h : List α} (hh : h.head? ≠ some e)
    (hheard : heard m (List.replicate n b ++ (List.replicate p e ++ h)) =
      List.replicate n b ++ (List.replicate p e ++ h)) :
    n = runLength m (min p m) ∧
      heard m (List.replicate (m - min p m) b ++ (List.replicate p e ++ h)) =
        List.replicate (m - min p m) b ++ (List.replicate p e ++ h) := by
  obtain ⟨q, hq, hscroll⟩ := heard_scroll hne h (Nat.min_le_right p m) (Nat.min_le_left p m)
  obtain ⟨r, hr⟩ := @heard_boundary α _ m hm b e p hp h hh
  obtain ⟨p, rfl⟩ : ∃ k, p = k + 1 := ⟨p - 1, by omega⟩
  rw [heard_long_run (Nat.le_of_lt hn), hscroll] at hheard
  have hlength : n = q + (m - min (p + 1) m) := by
    have hruns := hheard
    rw [hr, ← List.append_assoc, List.replicate_append_replicate, List.replicate_succ,
      List.cons_append] at hruns
    exact (replicate_append_inj hne hne hruns).1.symm
  refine ⟨by omega, ?_⟩
  have hsplit : List.replicate n b =
      List.replicate q b ++ List.replicate (m - min (p + 1) m) b := by
    rw [List.replicate_append_replicate, hlength]
  rw [hsplit, List.append_assoc] at hheard
  exact List.append_cancel_left hheard

/-- **A short newest run.** If a history is written down as it is and the window shows two
characters, the newest one has just come, behind a window of one character.

**Proof sketch.** What is written down first is the newest character, and perhaps more. If it is
that one alone, the window behind it is one run. More would mean that the rest has lost something,
so it begins with a long run (`exists_long_run`), and then the window shows one character only. -/
lemma heard_of_short_run (hm : 0 < m) {c : α} {h : List α} (hlong : m ≤ h.length)
    (hfresh : fresh m (c :: h) ≠ []) (hheard : heard m (c :: h) = c :: h) :
    heard m h = h ∧ ∃ a t, h = List.replicate m a ++ t ∧ c ≠ a := by
  obtain ⟨x, e, k, hk, htake, hx, hx'⟩ := @exists_fresh α _ m (c :: h) (by simp; omega)
  rw [heard, hx'] at hheard
  rw [hx'] at hfresh
  have hlen : x.length + k = m + 1 := by
    have hl := congrArg List.length htake
    rw [List.length_take, List.length_append, List.length_replicate] at hl
    simp at hl
    omega
  cases x with
  | nil => exact absurd rfl hfresh
  | cons x₀ x =>
    rw [List.cons_append, List.cons.injEq] at hheard
    obtain ⟨rfl, hrest⟩ := hheard
    cases x with
    | nil =>
      obtain rfl : k = m := by simp at hlen; omega
      rw [List.take_succ_cons] at htake
      obtain ⟨t, rfl⟩ := replicate_append_of_take (List.cons.inj htake).2
      exact ⟨hrest, e, t, rfl, by simpa using hx⟩
    | cons y x =>
      have hdrop : heard m h = h.drop (y :: x).length := by
        conv_rhs => rw [← hrest, List.drop_left]
      have hle : (y :: x).length ≤ h.length := by
        have hl := congrArg List.length hrest
        rw [List.length_append] at hl
        omega
      obtain ⟨a, t, rfl⟩ := exists_long_run hm (by simp) hle hdrop
      rw [List.take_succ_cons, List.take_append_of_le_length (by simp),
        List.take_replicate, Nat.min_eq_left (by omega)] at htake
      obtain ⟨-, hnil | ⟨hone, -⟩⟩ := window_cases hm hk hx htake.symm
      · cases hnil
      · cases hone

/-- The texts that fill the window and are written down as they are: those that are settled, and
those with one more character. -/
def Regular (m : ℕ) (w : List α) : Prop :=
  Settled m w ∨ ∃ v c, w = v ++ [c] ∧ Settled m v ∧ v.getLast? ≠ some c

omit [DecidableEq α] in
/-- A settled text with one more character, another than the last, is regular. -/
lemma regular_reverse_cons {c : α} {h : List α} (hs : Settled m h.reverse)
    (hc : h.head? ≠ some c) : Regular m (c :: h).reverse :=
  .inr ⟨h.reverse, c, List.reverse_cons, hs, by rwa [List.getLast?_reverse]⟩

omit [DecidableEq α] in
/-- A regular history begins with a window of one character, or with one character before it. -/
lemma Regular.cases {h : List α} (hr : Regular m h.reverse) :
    Settled m h.reverse ∨ ∃ c t a s, h = c :: t ∧ Settled m t.reverse ∧
      t = List.replicate m a ++ s ∧ t.head? ≠ some c := by
  rcases hr with hs | ⟨v, c, hv, hs, hc⟩
  · exact .inl hs
  · obtain rfl : h = c :: v.reverse := by
      rw [← List.reverse_reverse h, hv]
      simp
    have hs' : Settled m v.reverse.reverse := by rwa [List.reverse_reverse]
    obtain ⟨a, s, hvs⟩ := hs'.exists_eq
    exact .inr ⟨c, v.reverse, a, s, rfl, hs', hvs, by rwa [List.head?_reverse]⟩

omit [DecidableEq α] in
/-- Within a run there is its character. -/
lemma getElem?_run {n i : ℕ} (hi : i < n) (a : α) (l : List α) :
    (List.replicate n a ++ l)[i]? = some a := by
  rw [List.getElem?_append_left (by simpa using hi), List.getElem?_replicate, if_pos hi]

/-- Something is written down if the window shows two characters. -/
lemma fresh_ne_nil {b : α} {n : ℕ} {h : List α} (hlong : m < (List.replicate n b ++ h).length)
    (hpos : 0 < n) (hn : n ≤ m) (hh : h.head? ≠ some b) :
    fresh m (List.replicate n b ++ h) ≠ [] := by
  intro hnil
  obtain ⟨x, e, k, -, htake, -, hx⟩ := exists_fresh hlong
  obtain rfl : x = [] := hx.symm.trans hnil
  have hk : k = m + 1 := by
    have hl := congrArg List.length htake
    rw [List.length_take] at hl
    simp only [List.nil_append, List.length_replicate] at hl
    omega
  have hat : ∀ i < m + 1, (List.replicate n b ++ h)[i]? = some e := by
    intro i hi
    rw [← List.getElem?_take_of_lt hi, htake, List.nil_append, List.getElem?_replicate,
      if_pos (by omega)]
  have hnew := hat 0 (by omega)
  have hold := hat n (by omega)
  rw [getElem?_run hpos] at hnew
  rw [List.getElem?_append_right (by simp), List.length_replicate, Nat.sub_self,
    ← List.head?_eq_getElem?, ← hnew] at hold
  exact hh hold

omit [DecidableEq α] in
/-- A history of two equal characters is not one of a character before a different one. -/
lemma head?_of_run {n : ℕ} (hn : 2 ≤ n) {a c : α} {l t : List α}
    (h : List.replicate n a ++ l = c :: t) : t.head? = some c := by
  obtain ⟨j, rfl⟩ : ∃ j, n = j + 2 := ⟨n - 2, by omega⟩
  rw [List.replicate_succ, List.replicate_succ, List.cons_append, List.cons.injEq] at h
  obtain ⟨rfl, rfl⟩ := h
  rfl

omit [DecidableEq α] in
/-- In a regular history the window does not show two runs and what is older. -/
lemma not_regular_of_boundary {b e : α} (hne : b ≠ e) {j q : ℕ} (hm : j + 1 + (q + 1) = m)
    {h : List α} (hh : h.head? ≠ some e) :
    ¬ Regular m (List.replicate (j + 1) b ++ (List.replicate (q + 1) e ++ h)).reverse := by
  intro hregular
  rcases hregular.cases with hs | ⟨c, t, a, s, hcons, hs, ht, hc⟩
  · -- the window would show two characters of a settled text
    obtain ⟨a, s, has⟩ := hs.exists_eq
    have hnew : some b = some a := by
      rw [← getElem?_run (show 0 < j + 1 by omega) b, has, getElem?_run (by omega)]
    have hold : some e = some a := by
      rw [← getElem?_run (show j + 1 < m by omega) a s, ← has,
        List.getElem?_append_right (by simp), List.length_replicate, Nat.sub_self,
        getElem?_run (by omega)]
    exact hne (Option.some.inj (hnew.trans hold.symm))
  · rcases Nat.eq_zero_or_pos j with rfl | hj
    · -- the older run would be longer
      obtain ⟨rfl, rfl⟩ := List.cons.inj hcons
      have hfirst : some e = some a := by
        rw [← getElem?_run (show 0 < q + 1 by omega) e h]
        exact (congrArg (·[0]?) ht).trans (getElem?_run (by omega) a s)
      have hlast : h.head? = some a := by
        rw [← getElem?_run (show q + 1 < m by omega) a s, ← ht]
        change h.head? = (List.replicate (q + 1) e ++ h)[q + 1]?
        rw [List.getElem?_append_right (by simp), List.length_replicate, Nat.sub_self,
          List.head?_eq_getElem?]
      exact hh (hlast.trans hfirst.symm)
    · exact hc (head?_of_run (by omega) hcons)

omit [DecidableEq α] in
/-- Where the window scrolled from one run to the next, both runs had to be long. -/
lemma settled_of_boundary (hm : 2 ≤ m) {b e : α} (hne : b ≠ e) {p : ℕ} (hp : 0 < p) {h : List α}
    (hh : h.head? ≠ some e)
    (hprev : (List.replicate (m - min p m) b ++ (List.replicate p e ++ h)).length ≤ m ∨
      Regular m (List.replicate (m - min p m) b ++ (List.replicate p e ++ h)).reverse) :
    Settled m (List.replicate (runLength m (min p m)) b ++ (List.replicate p e ++ h)).reverse := by
  obtain ⟨q, rfl⟩ : ∃ q, p = q + 1 := ⟨p - 1, by omega⟩
  rcases hprev with hfits | hregular
  · -- the window was full for the first time
    simp only [List.length_append, List.length_replicate] at hfits
    obtain rfl : h = [] := List.length_eq_zero_iff.mp (by omega)
    rw [List.append_nil, List.reverse_append, List.reverse_replicate, List.reverse_replicate]
    rcases Nat.lt_or_ge (q + 1) m with hlt | hge
    · rw [Nat.min_eq_left (Nat.le_of_lt hlt)]
      exact .first hp hlt hne.symm
    · obtain rfl : m = q + 1 := by omega
      rw [Nat.min_self]
      exact .next (.uniform e) (by simp [List.getLast?_replicate]) hne.symm
  · rcases Nat.lt_or_ge (q + 1) m with hlt | hge
    · obtain ⟨j, hj⟩ : ∃ j, m - min (q + 1) m = j + 1 := ⟨m - min (q + 1) m - 1, by omega⟩
      rw [hj] at hregular
      exact absurd hregular (not_regular_of_boundary hne (by omega) hh)
    · rw [Nat.min_eq_right hge] at hregular ⊢
      rw [Nat.sub_self, List.replicate_zero, List.nil_append] at hregular
      rcases hregular.cases with hs | ⟨c, t, a, s, hcons, hs, ht, hc⟩
      · rw [List.reverse_append, List.reverse_replicate]
        refine .next hs ?_ hne.symm
        rw [List.getLast?_reverse]
        rfl
      · exact absurd (head?_of_run (by omega) hcons) hc

/-- A history whose newest run is longer than the window. -/
lemma regular_of_long_run (hm : 2 ≤ m) {b : α} {n : ℕ} (hn : m < n) {h : List α}
    (hh : h.head? ≠ some b) (hheard : heard m (List.replicate n b ++ h) = List.replicate n b ++ h)
    (ih : ∀ h' : List α, h'.length < (List.replicate n b ++ h).length → m < h'.length →
      heard m h' = h' → Regular m h'.reverse) :
    Regular m (List.replicate n b ++ h).reverse := by
  by_cases hnil : h = []
  · subst hnil
    rw [heard_long_run (Nat.le_of_lt hn), heard_of_length_le (by simp)] at hheard
    have hl := congrArg List.length hheard
    simp only [List.append_nil, List.length_replicate] at hl
    omega
  · obtain ⟨e, p, h₀, hp, rfl, hh₀⟩ := exists_run hnil
    have hne : b ≠ e := by
      rintro rfl
      obtain ⟨q, rfl⟩ : ∃ q, p = q + 1 := ⟨p - 1, by omega⟩
      exact hh rfl
    obtain ⟨rfl, hprev⟩ := heard_of_long_run (by omega) hne hn hp hh₀ hheard
    refine .inl (settled_of_boundary hm hne hp hh₀ ?_)
    rcases Nat.lt_or_ge m (List.replicate (m - min p m) b ++ (List.replicate p e ++ h₀)).length
      with hlong | hfits
    · refine .inr (ih _ ?_ hlong hprev)
      simp only [List.length_append, List.length_replicate]
      omega
    · exact .inl hfits

/-- A history whose newest run the window shows with what is older. -/
lemma regular_of_short_run (hm : 2 ≤ m) {b : α} {n : ℕ} (hn : n + 1 ≤ m) {h : List α}
    (hh : h.head? ≠ some b) (hlong : m < (b :: (List.replicate n b ++ h)).length)
    (hheard : heard m (b :: (List.replicate n b ++ h)) = b :: (List.replicate n b ++ h))
    (ih : ∀ h' : List α, h'.length < (b :: (List.replicate n b ++ h)).length → m < h'.length →
      heard m h' = h' → Regular m h'.reverse) :
    Regular m (b :: (List.replicate n b ++ h)).reverse := by
  have hfresh : fresh m (b :: (List.replicate n b ++ h)) ≠ [] := by
    rw [← List.cons_append, ← List.replicate_succ] at hlong ⊢
    exact fresh_ne_nil hlong (by omega) hn hh
  obtain ⟨hprev, a, t, ht, hba⟩ :=
    heard_of_short_run (by omega) (Nat.lt_succ_iff.mp hlong) hfresh hheard
  rw [ht] at hprev ih hlong ⊢
  have hhead : (List.replicate m a ++ t).head? ≠ some b := by
    rw [List.head?_eq_getElem?, getElem?_run (by omega)]
    simpa using Ne.symm hba
  refine regular_reverse_cons ?_ hhead
  rcases Nat.lt_or_ge m (List.replicate m a ++ t).length with hlong' | hfits
  · have hregular := ih _ (by simp) hlong' hprev
    rcases hregular.cases with hs | ⟨c, t', a', s, hcons, hs, ht', hc⟩
    · exact hs
    · exact absurd (head?_of_run hm hcons) hc
  · rw [List.length_append, List.length_replicate] at hfits
    obtain rfl : t = [] := List.length_eq_zero_iff.mp (by omega)
    rw [List.append_nil, List.reverse_replicate]
    exact .uniform a

/-- **Only regular texts are written down as they are.**

**Proof sketch.** Induction on the length. If the newest run is longer than the window, it was
written down while the window scrolled off the run before, and what the window showed at that time
is a shorter text that was written down as it is. If it is not, then the newest character has come
behind a window of one character. -/
theorem regular_of_heard (hm : 2 ≤ m) {h : List α} (hlong : m < h.length)
    (hheard : heard m h = h) : Regular m h.reverse := by
  induction hlength : h.length using Nat.strongRecOn generalizing h with
  | ind len ih =>
    subst hlength
    have ih' : ∀ h' : List α, h'.length < h.length → m < h'.length → heard m h' = h' →
        Regular m h'.reverse :=
      fun h' hlt hlong' hheard' => ih _ hlt hlong' hheard' rfl
    obtain ⟨b, n, h₁, hn, rfl, hh₁⟩ := exists_run (l := h) (by rintro rfl; simp at hlong)
    rcases Nat.lt_or_ge m n with hrun | hrun
    · exact regular_of_long_run hm hrun hh₁ hheard ih'
    · obtain ⟨n, rfl⟩ : ∃ k, n = k + 1 := ⟨n - 1, by omega⟩
      rw [List.replicate_succ, List.cons_append] at hheard hlong ih' ⊢
      exact regular_of_short_run hm hrun hh₁ hlong hheard ih'

/-- **Regular texts are written down as they are.** -/
lemma Regular.heard_reverse (hm : 0 < m) {w : List α} (hr : Regular m w) :
    heard m w.reverse = w.reverse := by
  rcases hr with hs | ⟨v, c, rfl, hs, hc⟩
  · exact hs.heard_reverse hm
  · rw [List.reverse_append, List.reverse_singleton, List.singleton_append]
    exact Settled.heard_cons hm (by rwa [List.reverse_reverse]) (by rwa [List.head?_reverse])

/-! ## Texts -/

/-- What is written down when the window scrolls by one. -/
lemma news_scrolled (a c : α) (l : List α) :
    news (a :: l) (l ++ [c]) = dropRun (a :: (l ++ [c])) := by
  rw [news, dropRun]
  induction l generalizing a with
  | nil =>
    by_cases hac : a = c
    · simp [commonPrefix, hac]
    · simp [commonPrefix, hac, Ne.symm hac]
  | cons b l ih =>
    by_cases hab : a = b
    · subst hab
      have hrest := ih a
      simpa [commonPrefix] using hrest
    · simp [commonPrefix, hab, Ne.symm hab]

/-- What is written down while the text still fits. -/
lemma news_append (l k : List α) : news l (l ++ k) = k := by
  rw [news]
  induction l with
  | nil => cases k <;> rfl
  | cons a l ih => simpa [commonPrefix] using ih

omit [DecidableEq α] in
/-- The window behind one more character. -/
lemma shown_append_singleton {w : List α} (hw : m ≤ w.length) (c : α) :
    shown m (w ++ [c]) = (shown m w ++ [c]).drop 1 := by
  have hdrop : w.length + 1 - m = w.length - m + 1 := by omega
  rw [shown, shown, List.length_append, List.length_singleton, hdrop,
    ← List.drop_append_of_le_length (by omega), List.drop_drop]

omit [DecidableEq α] in
/-- A text that fits is shown whole. -/
lemma shown_of_length_le {w : List α} (hw : w.length ≤ m) : shown m w = w := by
  rw [shown, Nat.sub_eq_zero_of_le hw, List.drop_zero]

/-- The observer writes down the newest stretch without its first run. -/
lemma news_shown (hm : 0 < m) {w : List α} (hw : m ≤ w.length) (c : α) :
    news (shown m w) (shown m (w ++ [c])) = dropRun (shown m w ++ [c]) := by
  rw [shown_append_singleton hw]
  have hlength : (shown m w).length = m := by rw [shown, List.length_drop]; omega
  cases hshown : shown m w with
  | nil =>
    rw [hshown] at hlength
    simp at hlength
    omega
  | cons a l => exact news_scrolled a c l

omit [DecidableEq α] in
/-- One more character is one more stretch, which ends with it. -/
lemma windows_append_singleton {w : List α} (hw : m ≤ w.length) (c : α) :
    windows (m + 1) (w ++ [c]) = windows (m + 1) w ++ [shown m w ++ [c]] := by
  have hcount : (w ++ [c]).length + 1 - (m + 1) = w.length + 1 - (m + 1) + 1 := by simp; omega
  rw [windows, hcount, List.range_succ, List.map_append, List.map_singleton, windows]
  refine congrArg₂ _ (List.map_congr_left fun t ht => ?_) ?_
  · rw [List.mem_range] at ht
    rw [List.drop_append_of_le_length (by omega),
      List.take_append_of_le_length (by rw [List.length_drop]; omega)]
  · have hstart : w.length + 1 - (m + 1) = w.length - m := by omega
    rw [hstart, List.drop_append_of_le_length (by omega), shown,
      List.take_of_length_le (by simp; omega)]

omit [DecidableEq α] in
/-- A text that is shorter than a stretch has none. -/
lemma windows_of_length_lt {k : ℕ} {w : List α} (hw : w.length < k) : windows k w = [] := by
  rw [windows, Nat.sub_eq_zero_of_le hw]
  rfl

/-- A text that fits is written down as it is. -/
lemma observed_of_length_le {w : List α} (hw : w.length ≤ m) : observed m w = w := by
  rw [observed, windows_of_length_lt (by omega), List.take_of_length_le hw, List.flatMap_nil,
    List.append_nil]

/-- What is left behind a run was there before. -/
lemma mem_of_mem_dropRun {a : α} {l : List α} (h : a ∈ dropRun l) : a ∈ l := by
  cases l with
  | nil => exact h
  | cons b l => exact List.mem_cons_of_mem b ((List.dropWhile_suffix _).subset h)

/-- Nothing is written down that was not there. -/
lemma mem_of_mem_observed {a : α} {w : List α} (h : a ∈ observed m w) : a ∈ w := by
  rw [observed, List.mem_append, List.mem_flatMap] at h
  rcases h with htake | ⟨l, hl, ha⟩
  · exact List.mem_of_mem_take htake
  · obtain ⟨t, -, rfl⟩ := List.mem_map.mp hl
    exact List.mem_of_mem_drop (List.mem_of_mem_take (mem_of_mem_dropRun ha))

/-- **One more character** adds what the observer sees of it. -/
theorem observed_append_singleton (hm : 0 < m) (w : List α) (c : α) :
    observed m (w ++ [c]) = observed m w ++ news (shown m w) (shown m (w ++ [c])) := by
  rcases Nat.lt_or_ge w.length m with hlt | hge
  · have hlength : (w ++ [c]).length ≤ m := by simp; omega
    rw [observed_of_length_le hlength, observed_of_length_le (Nat.le_of_lt hlt),
      shown_of_length_le (Nat.le_of_lt hlt), shown_of_length_le hlength, news_append]
  · rw [news_shown hm hge, observed, observed, windows_append_singleton hge,
      List.take_append_of_le_length hge, List.flatMap_append, List.flatMap_singleton,
      List.append_assoc]

/-- What is written down of a text is what is written down of its history. -/
lemma observed_eq_heard (hm : 0 < m) (w : List α) : observed m w = (heard m w.reverse).reverse := by
  induction w using List.reverseRecOn with
  | nil => rw [observed_of_length_le (Nat.zero_le m)]; rfl
  | append_singleton w c ih =>
    rw [observed_append_singleton hm, ih, List.reverse_append, List.reverse_singleton,
      List.singleton_append, heard, List.reverse_append]
    rcases Nat.lt_or_ge w.length m with hlt | hge
    · have hlength : (w ++ [c]).length ≤ m := by simp; omega
      rw [shown_of_length_le (Nat.le_of_lt hlt), shown_of_length_le hlength, news_append, fresh,
        if_pos (by simp; omega)]
      rfl
    · have hwindow : ((c :: w.reverse).take (m + 1)).reverse = shown m w ++ [c] := by
        rw [List.take_succ_cons, List.take_reverse, List.reverse_cons, List.reverse_reverse, shown]
      rw [news_shown hm hge, fresh, if_neg (by simp; omega), hwindow, List.reverse_reverse]

/-- **The texts that are written down as they are**: those that fit, and the regular ones. -/
theorem observed_eq_self_iff (hm : 2 ≤ m) {w : List α} :
    observed m w = w ↔ w.length ≤ m ∨ Regular m w := by
  rw [observed_eq_heard (by omega)]
  constructor
  · intro h
    rcases Nat.lt_or_ge m w.length with hlong | hfits
    · have hheard : heard m w.reverse = w.reverse := by
        rw [List.reverse_eq_iff] at h
        exact h
      have hregular := regular_of_heard hm (by simpa using hlong) hheard
      rw [List.reverse_reverse] at hregular
      exact .inr hregular
    · exact .inl hfits
  · rintro (hfits | hregular)
    · rw [heard_of_length_le (by simpa using hfits), List.reverse_reverse]
    · rw [hregular.heard_reverse (by omega), List.reverse_reverse]

/-- A text that spells out its own stretches: behind the first `m` characters come the first
stretch of `m + 1` without its first run, the second, and so on. -/
def SelfReading (m : ℕ) (w : List α) : Prop :=
  w.drop m <+: (windows (m + 1) w).flatMap dropRun

/-- **Where there is room for `n` characters only**, longer texts are as good as regular ones if
they fill it. -/
theorem take_observed_eq_iff (hm : 2 ≤ m) {n : ℕ} {w : List α} (hw : w.length ≤ n) :
    (observed m w).take n = w ↔
      w.length ≤ m ∨ Regular m w ∨ w.length = n ∧ SelfReading m w := by
  have hself : SelfReading m w ↔ w.take m ++ w.drop m <+: observed m w := by
    rw [observed, List.prefix_append_right_inj, SelfReading]
  rw [List.take_append_drop] at hself
  rw [← or_assoc, ← observed_eq_self_iff hm, hself]
  constructor
  · intro h
    have hlength := congrArg List.length h
    rw [List.length_take] at hlength
    rcases Nat.lt_or_ge w.length n with hlt | hge
    · rw [List.take_of_length_le (by omega)] at h
      exact .inl h
    · have hprefix := List.take_prefix n (observed m w)
      rw [h] at hprefix
      exact .inr ⟨by omega, hprefix⟩
  · rintro (h | ⟨hlength, hprefix⟩)
    · rw [h, List.take_of_length_le hw]
    · rw [← hlength]
      exact (List.prefix_iff_eq_take.mp hprefix).symm

end Uvk5.Scroll
