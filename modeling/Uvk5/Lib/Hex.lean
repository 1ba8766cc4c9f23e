import Mathlib.Data.List.Basic
import Mathlib.Data.Nat.Notation

set_option relaxedAutoImplicit false
set_option autoImplicit false

/-!
# Byte strings in hexadecimal

## Main definitions

* `Hex.encode` — two lower-case digits a byte.
* `Hex.decode` — pairs of digits of either case, with white space between the pairs.

## Main results

* `Hex.decode_encode` — what was encoded is read back.
-/

namespace Uvk5.Hex

/-- The digit for a number below 16. -/
def digit (d : ℕ) : Char := Char.ofNat (if d < 10 then 48 + d else 87 + d)

/-- The value of a digit. -/
def value (c : Char) : Option ℕ :=
  if '0' ≤ c ∧ c ≤ '9' then some (c.toNat - 48)
  else if 'a' ≤ c ∧ c ≤ 'f' then some (c.toNat - 87)
  else if 'A' ≤ c ∧ c ≤ 'F' then some (c.toNat - 55)
  else none

/-- Two digits a byte. -/
def encode : List UInt8 → List Char
  | [] => []
  | b :: bs => digit (b.toNat / 16) :: digit (b.toNat % 16) :: encode bs

/-- The bytes of pairs of digits, with white space between the pairs. -/
def decode : List Char → Option (List UInt8)
  | [] => some []
  | [c] => if c.isWhitespace then some [] else none
  | c :: c' :: cs =>
    if c.isWhitespace then decode (c' :: cs)
    else do
      let high ← value c
      let low ← value c'
      let bs ← decode cs
      some (UInt8.ofNat (16 * high + low) :: bs)

/-- A digit has its value, and is no white space. -/
lemma value_digit {d : ℕ} (h : d < 16) : value (digit d) = some d ∧ (digit d).isWhitespace = false := by
  have hall : ∀ d < 16, value (digit d) = some d ∧ (digit d).isWhitespace = false := by decide
  exact hall d h

/-- What was encoded is read back. -/
theorem decode_encode (bs : List UInt8) : decode (encode bs) = some bs := by
  induction bs with
  | nil => rfl
  | cons b bs ih =>
    have hb := b.toNat_lt
    obtain ⟨hhigh, hspace⟩ := value_digit (show b.toNat / 16 < 16 by omega)
    obtain ⟨hlow, -⟩ := value_digit (show b.toNat % 16 < 16 by omega)
    have hjoin : 16 * (b.toNat / 16) + b.toNat % 16 = b.toNat := Nat.div_add_mod _ _
    rw [encode, decode, if_neg (by rw [hspace]; exact Bool.false_ne_true), hhigh, hlow, ih]
    simp only [Option.bind_eq_bind, Option.bind_some, hjoin, UInt8.ofNat_toNat]

end Uvk5.Hex
