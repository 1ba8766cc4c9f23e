import Mathlib.Data.List.Basic
import Mathlib.Data.Nat.Notation

set_option relaxedAutoImplicit false
set_option autoImplicit false

/-!
# Lines, and UTF-8 with replacement

Reading a byte stream line by line, and decoding a line of it. Where the bytes are not UTF-8, the
longest beginning of a character becomes U+FFFD and decoding goes on behind it.

## Main definitions

* `Utf8.readLines` — the lines of a stream, each with its line feed.
* `Utf8.decode` — the characters of a byte string.

## Main results

* `Utf8.readLines_cons` — a line that is ended.
* `Utf8.decode_ascii` — an ASCII text.
-/

namespace Uvk5.Utf8

/-! ## Lines -/

/-- `stream.readline()`, until it returns nothing: a line ends behind its line feed, and the last
one at the end of the stream. -/
def readLines : List UInt8 → List (List UInt8)
  | [] => []
  | b :: bs =>
    if b = 0x0a then [b] :: readLines bs
    else match readLines bs with
      | [] => [[b]]
      | line :: lines => (b :: line) :: lines

/-- **A line that is ended.** -/
theorem readLines_cons {line : List UInt8} (h : 0x0a ∉ line) (rest : List UInt8) :
    readLines (line ++ 0x0a :: rest) = (line ++ [0x0a]) :: readLines rest := by
  induction line with
  | nil => exact if_pos rfl
  | cons b line ih =>
    have hb : b ≠ 0x0a := fun heq => h (heq ▸ List.mem_cons_self ..)
    rw [List.cons_append, readLines, if_neg hb, ih fun hmem => h (List.mem_cons_of_mem _ hmem)]
    rfl

/-! ## Characters -/

/-- A byte that continues a character. -/
def Tail (b : UInt8) : Prop := 0x80 ≤ b ∧ b ≤ 0xbf

instance (b : UInt8) : Decidable (Tail b) := inferInstanceAs (Decidable (_ ∧ _))

/-- The bytes that may follow the first of a character of three or four bytes. -/
def second (b : UInt8) : UInt8 × UInt8 :=
  if b = 0xe0 then (0xa0, 0xbf)
  else if b = 0xed then (0x80, 0x9f)
  else if b = 0xf0 then (0x90, 0xbf)
  else if b = 0xf4 then (0x80, 0x8f)
  else (0x80, 0xbf)

/-- The byte may follow. -/
def Follows (b b' : UInt8) : Prop := (second b).1 ≤ b' ∧ b' ≤ (second b).2

instance (b b' : UInt8) : Decidable (Follows b b') := inferInstanceAs (Decidable (_ ∧ _))

/-- U+FFFD. -/
def replacement : Char := Char.ofNat 0xfffd

/-- The low six bits. -/
def low (b : UInt8) : ℕ := b.toNat % 64

/-- The next character, and how many bytes it takes behind the first. -/
def next (b : UInt8) (rest : List UInt8) : Char × ℕ :=
  if b ≤ 0x7f then (Char.ofNat b.toNat, 0)
  else if 0xc2 ≤ b ∧ b ≤ 0xdf then
    match rest with
    | b₁ :: _ => if Tail b₁ then (Char.ofNat (b.toNat % 32 * 64 + low b₁), 1) else (replacement, 0)
    | [] => (replacement, 0)
  else if 0xe0 ≤ b ∧ b ≤ 0xef then
    match rest with
    | b₁ :: b₂ :: _ =>
      if ¬ Follows b b₁ then (replacement, 0)
      else if Tail b₂ then (Char.ofNat (b.toNat % 16 * 4096 + low b₁ * 64 + low b₂), 2)
      else (replacement, 1)
    | [b₁] => if Follows b b₁ then (replacement, 1) else (replacement, 0)
    | [] => (replacement, 0)
  else if 0xf0 ≤ b ∧ b ≤ 0xf4 then
    match rest with
    | b₁ :: b₂ :: b₃ :: _ =>
      if ¬ Follows b b₁ then (replacement, 0)
      else if ¬ Tail b₂ then (replacement, 1)
      else if Tail b₃ then
        (Char.ofNat (b.toNat % 8 * 262144 + low b₁ * 4096 + low b₂ * 64 + low b₃), 3)
      else (replacement, 2)
    | [b₁, b₂] =>
      if ¬ Follows b b₁ then (replacement, 0)
      else if Tail b₂ then (replacement, 2)
      else (replacement, 1)
    | [b₁] => if Follows b b₁ then (replacement, 1) else (replacement, 0)
    | [] => (replacement, 0)
  else (replacement, 0)

/-- The loop of `decode`; every turn takes a byte at least. -/
def decodeLoop : ℕ → List UInt8 → List Char
  | fuel + 1, b :: rest => (next b rest).1 :: decodeLoop fuel (rest.drop (next b rest).2)
  | _, _ => []

/-- `bs.decode("utf-8", "replace")`. -/
def decode (bs : List UInt8) : List Char := decodeLoop bs.length bs

/-- **An ASCII text** is its bytes. -/
theorem decode_ascii {bs : List UInt8} (h : ∀ b ∈ bs, b ≤ 0x7f) :
    decode bs = bs.map fun b => Char.ofNat b.toNat := by
  rw [decode]
  induction bs with
  | nil => rfl
  | cons b bs ih =>
    have hb : b ≤ 0x7f := h b (List.mem_cons_self ..)
    have hnext : next b bs = (Char.ofNat b.toNat, 0) := by
      unfold next
      exact if_pos hb
    rw [List.length_cons, decodeLoop, hnext, List.drop_zero,
      ih fun c hc => h c (List.mem_cons_of_mem _ hc), List.map_cons]

/-- Something comes of something. -/
lemma decode_ne_nil {bs : List UInt8} (h : bs ≠ []) : decode bs ≠ [] := by
  cases bs with
  | nil => exact absurd rfl h
  | cons b bs => exact List.cons_ne_nil _ _

end Uvk5.Utf8
