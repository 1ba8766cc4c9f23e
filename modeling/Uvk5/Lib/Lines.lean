import Mathlib.Data.List.Basic

set_option relaxedAutoImplicit false
set_option autoImplicit false

/-!
# The last lines of a text

A text that grows at its end and is cut to its last lines whenever it has become too long.

## Main definitions

* `Lines.lastPieces` — the text is split at a separator, and the last pieces are joined again.
* `Lines.lastLines` — the longest end of the text with fewer separators than pieces.

## Main results

* `Lines.lastPieces_eq` — the two agree.
* `Lines.lastPieces_append` — what was cut off before something is added makes no difference.
-/

namespace Uvk5.Lines

section

variable {α : Type} [DecidableEq α] {sep : α} {n : ℕ}

/-- `lines.slice(-n).join(sep)` if `s.split(sep)` gives more than `n` pieces, and `s` otherwise. -/
def lastPieces (sep : α) (n : ℕ) (s : List α) : List α :=
  let pieces := s.splitOn sep
  if n < pieces.length then [sep].intercalate (pieces.drop (pieces.length - n)) else s

/-- The longest end of a text with fewer than `n` separators. -/
def lastLines (sep : α) (n : ℕ) : List α → List α
  | [] => []
  | a :: s => if (a :: s).count sep < n then a :: s else lastLines sep n s

/-- There is one line more than there are separators. -/
lemma length_splitOn (s : List α) : (s.splitOn sep).length = s.count sep + 1 := by
  induction s with
  | nil => simp
  | cons a s ih =>
    rw [List.splitOn_cons_eq_if_modifyHead, List.count_cons]
    split
    · rw [List.length_cons, ih]
    · rw [List.length_modifyHead, ih, Nat.add_zero]

/-- A separator splits off an empty piece. -/
lemma splitOn_sep (s : List α) : (sep :: s).splitOn sep = [] :: s.splitOn sep := by
  rw [List.splitOn_cons_eq_if_modifyHead, if_pos (beq_self_eq_true sep)]

/-- Anything else goes to the first piece. -/
lemma drop_splitOn_of_ne {a : α} (ha : a ≠ sep) (s : List α) {k : ℕ} (hk : 0 < k) :
    ((a :: s).splitOn sep).drop k = (s.splitOn sep).drop k := by
  obtain ⟨k, rfl⟩ := Nat.exists_eq_succ_of_ne_zero (Nat.ne_of_gt hk)
  rw [List.splitOn_cons_eq_if_modifyHead, if_neg (by simpa using ha)]
  cases s.splitOn sep with
  | nil => rfl
  | cons piece pieces => rfl

/-- The pieces are those of the longest end. -/
lemma lastPieces_eq (hn : 0 < n) (s : List α) : lastPieces sep n s = lastLines sep n s := by
  have hcut : ∀ s : List α, n ≤ s.count sep + 1 →
      [sep].intercalate ((s.splitOn sep).drop (s.count sep + 1 - n)) = lastPieces sep n s := by
    intro s hs
    rw [lastPieces, length_splitOn]
    split
    · rfl
    · rw [show s.count sep + 1 - n = 0 by omega, List.drop_zero, List.intercalate_splitOn]
  induction s with
  | nil => simp [lastPieces, lastLines, Nat.not_lt.mpr (Nat.succ_le_of_lt hn)]
  | cons a s ih =>
    rw [lastLines]
    split
    · next hfew =>
      rw [lastPieces, length_splitOn]
      exact if_neg (by omega)
    · next hmany =>
      rw [← ih, ← hcut (a :: s) (by omega)]
      by_cases ha : a = sep
      · subst ha
        rw [List.count_cons_self] at hmany ⊢
        rw [splitOn_sep, show s.count a + 1 + 1 - n = (s.count a + 1 - n) + 1 by omega,
          List.drop_succ_cons]
        exact hcut s (by omega)
      · rw [List.count_cons_of_ne ha] at hmany ⊢
        rw [drop_splitOn_of_ne ha s (by omega)]
        exact hcut s (by omega)

/-- What is cut off once would be cut off later. -/
lemma lastLines_append (s t : List α) :
    lastLines sep n (lastLines sep n s ++ t) = lastLines sep n (s ++ t) := by
  induction s with
  | nil => rfl
  | cons a s ih =>
    rw [lastLines]
    split
    · rfl
    · next hmany =>
      have hmore : ¬ (a :: (s ++ t)).count sep < n := by
        rw [← List.cons_append, List.count_append]
        omega
      rw [ih, List.cons_append, lastLines, if_neg hmore]

/-- **Cutting twice.** A text that is cut, made longer and cut again is the same as if it had not
been cut in between. -/
theorem lastPieces_append (hn : 0 < n) (s t : List α) :
    lastPieces sep n (lastPieces sep n s ++ t) = lastPieces sep n (s ++ t) := by
  rw [lastPieces_eq hn, lastPieces_eq hn, lastPieces_eq hn, lastLines_append]

end

end Uvk5.Lines
