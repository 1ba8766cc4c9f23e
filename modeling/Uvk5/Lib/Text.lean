import Mathlib.Data.Int.Notation
import Mathlib.Data.List.DropRight
import Mathlib.Data.List.TakeWhile

set_option relaxedAutoImplicit false
set_option autoImplicit false

/-!
# Splitting and reading text

Splitting at the first or at the last occurrence of a character, and reading a number, as a
scripting language does it.

## Main definitions

* `Text.partition`, `Text.rpartition` — what is before and after the first or the last occurrence.
* `Text.CharTable` — what is known of digits and white space; only ASCII is fixed.
* `Text.toInt` — the number a text denotes.

## Main results

* `Text.partition_append`, `Text.rpartition_append` — splitting where the separator is known to be.
* `Text.stripped_eq_self_iff` — a text that stripping leaves alone.
* `Text.toInt_of_digits` — decimal digits denote their value.
-/

namespace Uvk5.Text

section Partition

variable {α : Type} [DecidableEq α]

/-- `s.partition(sep)` without the separator: all of `s` and nothing if there is none. -/
def partition (sep : α) (s : List α) : List α × List α :=
  (s.takeWhile (· ≠ sep), (s.dropWhile (· ≠ sep)).drop 1)

/-- `s.rpartition(sep)` without the separator: nothing and all of `s` if there is none. -/
def rpartition (sep : α) (s : List α) : List α × List α :=
  (((s.reverse.dropWhile (· ≠ sep)).drop 1).reverse, (s.reverse.takeWhile (· ≠ sep)).reverse)

/-- Without a separator everything is in front of it. -/
lemma partition_of_not_mem {sep : α} {s : List α} (h : sep ∉ s) : partition sep s = (s, []) := by
  have hall : ∀ a ∈ s, (decide (a ≠ sep)) = true := by
    intro a ha
    exact decide_eq_true fun heq => h (heq ▸ ha)
  rw [partition, List.takeWhile_eq_self_iff.mpr hall, List.dropWhile_eq_nil_iff.mpr hall,
    List.drop_nil]

/-- **The first occurrence.** -/
theorem partition_append {sep : α} {a : List α} (b : List α) (h : sep ∉ a) :
    partition sep (a ++ sep :: b) = (a, b) := by
  have hall : ∀ c ∈ a, (decide (c ≠ sep)) = true := by
    intro c hc
    exact decide_eq_true fun heq => h (heq ▸ hc)
  rw [partition, List.takeWhile_append_of_pos hall, List.dropWhile_append_of_pos hall]
  simp

/-- Without a separator everything is behind the last one. -/
lemma rpartition_of_not_mem {sep : α} {s : List α} (h : sep ∉ s) : rpartition sep s = ([], s) := by
  have hsplit := partition_of_not_mem (s := s.reverse) (mt List.mem_reverse.mp h)
  rw [partition, Prod.mk.injEq] at hsplit
  rw [rpartition, hsplit.1, hsplit.2, List.reverse_nil, List.reverse_reverse]

/-- **The last occurrence.** -/
theorem rpartition_append {sep : α} (a : List α) {b : List α} (h : sep ∉ b) :
    rpartition sep (a ++ sep :: b) = (a, b) := by
  have hreverse : (a ++ sep :: b).reverse = b.reverse ++ sep :: a.reverse := by simp
  have hsplit := partition_append a.reverse (mt List.mem_reverse.mp h)
  rw [partition, Prod.mk.injEq] at hsplit
  rw [rpartition, hreverse, hsplit.1, hsplit.2, List.reverse_reverse, List.reverse_reverse]

omit [DecidableEq α] in
/-- A text with the separator has a last occurrence of it. -/
lemma exists_last {sep : α} {s : List α} (h : sep ∈ s) : ∃ a b, s = a ++ sep :: b ∧ sep ∉ b := by
  obtain ⟨a, b, hs, ha⟩ := List.eq_append_cons_of_mem (List.mem_reverse.mpr h)
  refine ⟨b.reverse, a.reverse, ?_, mt List.mem_reverse.mp ha⟩
  rw [← List.reverse_reverse s, hs]
  simp

/-- What is in front of the last separator is no longer than the whole. -/
lemma length_rpartition_le (sep : α) (s : List α) : (rpartition sep s).1.length ≤ s.length := by
  by_cases h : sep ∈ s
  · obtain ⟨a, b, rfl, hb⟩ := exists_last h
    rw [rpartition_append a hb, List.length_append]
    exact Nat.le_add_right _ _
  · rw [rpartition_of_not_mem h]
    exact Nat.zero_le _

end Partition

section Strip

variable {α : Type}

/-- `l` without the elements at either end that satisfy `p`. -/
def stripped (p : α → Bool) (l : List α) : List α := ((l.dropWhile p).reverse.dropWhile p).reverse

/-- What is left after stripping is no longer than the whole. -/
lemma length_stripped_le (p : α → Bool) (l : List α) : (stripped p l).length ≤ l.length := by
  rw [stripped, List.length_reverse]
  refine Nat.le_trans (List.dropWhile_suffix p).length_le ?_
  rw [List.length_reverse]
  exact (List.dropWhile_suffix p).length_le

/-- **A text that stripping leaves alone**: nothing is to be dropped at either end. -/
theorem stripped_eq_self_iff {p : α → Bool} {l : List α} :
    stripped p l = l ↔ (∀ a ∈ l.head?, p a = false) ∧ ∀ a ∈ l.getLast?, p a = false := by
  have hfront : l.dropWhile p = l ↔ ∀ a ∈ l.head?, p a = false := by
    cases l with
    | nil => simp
    | cons a l => simp [List.dropWhile_eq_self_iff]
  have hback : l.rdropWhile p = l ↔ ∀ a ∈ l.getLast?, p a = false := by
    rw [List.rdropWhile_eq_self_iff]
    constructor
    · intro h a ha
      obtain ⟨hne, rfl⟩ := List.mem_getLast?_eq_getLast ha
      simpa using h hne
    · intro h hne
      simpa using h _ (List.getLast?_eq_some_getLast hne)
  rw [← hfront, ← hback]
  constructor
  · intro h
    have hdrop : l.dropWhile p = l := by
      refine (List.dropWhile_suffix p).eq_of_length (Nat.le_antisymm ?_ ?_)
      · exact (List.dropWhile_suffix p).length_le
      · calc l.length = (stripped p l).length := by rw [h]
          _ ≤ (l.dropWhile p).length := by
            rw [stripped, List.length_reverse]
            refine Nat.le_trans (List.dropWhile_suffix p).length_le ?_
            rw [List.length_reverse]
    rw [stripped, hdrop] at h
    exact ⟨hdrop, h⟩
  · rintro ⟨hdrop, hrdrop⟩
    rw [stripped, hdrop]
    exact hrdrop

end Strip

/-- What a table of characters says about digits and white space. -/
structure CharTable where
  /-- `str.isdigit` of one character. -/
  isDigit : Char → Bool
  /-- The value of a decimal digit. -/
  decimal : Char → Option ℕ
  /-- `str.isspace` of one character. -/
  isSpace : Char → Bool
  /-- The digits of ASCII. -/
  isDigit_ascii : ∀ c, c.val < 128 → isDigit c = c.isDigit
  /-- The values of the digits of ASCII. -/
  decimal_ascii : ∀ c, c.val < 128 → decimal c = if c.isDigit then some (c.toNat - 48) else none
  /-- The white space of ASCII. -/
  isSpace_ascii : ∀ c, c.val < 128 →
    isSpace c = ((9 ≤ c.toNat && c.toNat ≤ 13) || (28 ≤ c.toNat && c.toNat ≤ 32))

namespace CharTable

/-- ASCII alone. -/
def ascii : CharTable where
  isDigit c := c.isDigit
  decimal c := if c.isDigit then some (c.toNat - 48) else none
  isSpace c := (9 ≤ c.toNat && c.toNat ≤ 13) || (28 ≤ c.toNat && c.toNat ≤ 32)
  isDigit_ascii _ _ := rfl
  decimal_ascii _ _ := rfl
  isSpace_ascii _ _ := rfl

variable (t : CharTable)

/-- The digits after the first, single underscores between them allowed. -/
def digitsFrom : ℕ → List Char → Option ℕ
  | n, [] => some n
  | n, c :: cs =>
    match t.decimal c with
    | some d => digitsFrom (10 * n + d) cs
    | none =>
      if c = '_' then
        match cs with
        | [] => none
        | c' :: cs' => (t.decimal c').bind fun d => digitsFrom (10 * n + d) cs'
      else none

/-- `s.isdigit()`. -/
def isdigit (s : List Char) : Bool := !s.isEmpty && s.all t.isDigit

/-- A text of digits. -/
def digits : List Char → Option ℕ
  | [] => none
  | c :: cs => (t.decimal c).bind fun d => digitsFrom t d cs

/-- `s.strip()`. -/
def strip (s : List Char) : List Char :=
  ((s.dropWhile t.isSpace).reverse.dropWhile t.isSpace).reverse

/-- `int(s)`, with `none` for the `ValueError`. The limit on the number of digits is left out. -/
def toInt (s : List Char) : Option ℤ :=
  match t.strip s with
  | '-' :: ds => (t.digits ds).map fun n => -(n : ℤ)
  | '+' :: ds => (t.digits ds).map fun n => (n : ℤ)
  | ds => (t.digits ds).map fun n => (n : ℤ)

end CharTable

/-- A text of at least one ASCII digit. -/
def IsNumeric (s : List Char) : Prop := s ≠ [] ∧ ∀ c ∈ s, c.isDigit = true

/-- The number that ASCII digits denote. -/
def decimalValue (s : List Char) : ℕ := s.foldl (fun n c => 10 * n + (c.toNat - 48)) 0

/-- A decimal digit is an ASCII character, between `0` and `9`. -/
lemma ascii_of_isDigit {c : Char} (h : c.isDigit = true) :
    c.val < 128 ∧ 48 ≤ c.toNat ∧ c.toNat ≤ 57 := by
  rw [Char.isDigit, Bool.and_eq_true, decide_eq_true_eq, decide_eq_true_eq] at h
  have hlow : 48 ≤ c.val.toNat := UInt32.le_iff_toNat_le.mp h.1
  have hhigh : c.val.toNat ≤ 57 := UInt32.le_iff_toNat_le.mp h.2
  exact ⟨UInt32.lt_iff_toNat_lt.mpr (Nat.lt_of_le_of_lt hhigh (by decide)), hlow, hhigh⟩

namespace CharTable

variable {t : CharTable}

/-- The value of an ASCII digit. -/
lemma decimal_of_isDigit {c : Char} (h : c.isDigit = true) :
    t.decimal c = some (c.toNat - 48) := by
  rw [t.decimal_ascii c (ascii_of_isDigit h).1, if_pos h]

/-- The number that ASCII digits spell. -/
lemma digitsFrom_of_digits {cs : List Char} (h : ∀ c ∈ cs, c.isDigit = true) (n : ℕ) :
    t.digitsFrom n cs = some (cs.foldl (fun n c => 10 * n + (c.toNat - 48)) n) := by
  induction cs generalizing n with
  | nil => rfl
  | cons c cs ih =>
    have hc := decimal_of_isDigit (t := t) (h c (List.mem_cons_self ..))
    rw [digitsFrom.eq_def]
    dsimp only
    rw [hc]
    exact ih (fun c' hc' => h c' (List.mem_cons_of_mem c hc')) _

/-- A text of ASCII digits is numeric. -/
lemma isdigit_of_digits {s : List Char} (h : IsNumeric s) : t.isdigit s = true := by
  rw [isdigit, Bool.and_eq_true, List.all_eq_true]
  refine ⟨by simpa using h.1, fun c hc => ?_⟩
  rw [t.isDigit_ascii c (ascii_of_isDigit (h.2 c hc)).1, h.2 c hc]

/-- Digits have no white space around them. -/
lemma strip_of_digits {s : List Char} (h : ∀ c ∈ s, c.isDigit = true) : t.strip s = s := by
  have hspace : ∀ c ∈ s, t.isSpace c = false := by
    intro c hc
    obtain ⟨hascii, hlow, hhigh⟩ := ascii_of_isDigit (h c hc)
    rw [t.isSpace_ascii c hascii]
    simp
    omega
  refine stripped_eq_self_iff.mpr ⟨fun c hc => ?_, fun c hc => ?_⟩
  · exact hspace c (List.mem_of_mem_head? hc)
  · exact hspace c (List.mem_of_mem_getLast? hc)

/-- **Decimal digits denote their value.** -/
theorem toInt_of_digits {s : List Char} (h : IsNumeric s) : t.toInt s = some (decimalValue s : ℤ) := by
  obtain ⟨hne, hdigits⟩ := h
  cases s with
  | nil => exact absurd rfl hne
  | cons c cs =>
    have hc := hdigits c (List.mem_cons_self ..)
    have hvalue : t.digits (c :: cs) = some (decimalValue (c :: cs)) := by
      rw [digits, decimal_of_isDigit hc]
      exact (digitsFrom_of_digits (fun c' hc' => hdigits c' (List.mem_cons_of_mem c hc')) _).trans
        (by rw [decimalValue, List.foldl_cons, Nat.mul_zero, Nat.zero_add])
    rw [toInt, strip_of_digits hdigits]
    split
    · next heq =>
      rw [(List.cons.inj heq).1] at hc
      exact absurd hc (by decide)
    · next heq =>
      rw [(List.cons.inj heq).1] at hc
      exact absurd hc (by decide)
    · rw [hvalue]
      rfl

end CharTable

end Uvk5.Text
