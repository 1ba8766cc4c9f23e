import Mathlib.Algebra.Group.Nat.Defs
import Mathlib.Data.List.Basic

set_option relaxedAutoImplicit false
set_option autoImplicit false

/-!
# Byte strings

Little-endian fields, slices and substring search, as binary formats use them.

## Main definitions

* `Bytes.toLe`, `Bytes.ofLe` — a number in a field of given width, and back.
* `Bytes.slice` — the bytes from one offset up to another, short at the end of the string.
* `Bytes.find` — the first occurrence of a pattern.

## Main results

* `Bytes.ofLe_toLe` — a field that is wide enough gives the number back.
* `Bytes.find_spec` — an occurrence that is found is there.
-/

namespace Uvk5.Bytes

/-- `v` in `k` bytes, least significant first. -/
def toLe : ℕ → ℕ → List UInt8
  | 0, _ => []
  | k + 1, v => UInt8.ofNat v :: toLe k (v / 256)

/-- The number in a little-endian field. -/
def ofLe : List UInt8 → ℕ
  | [] => 0
  | b :: bs => b.toNat + 256 * ofLe bs

/-- A field has its width. -/
@[simp] lemma length_toLe (k v : ℕ) : (toLe k v).length = k := by
  induction k generalizing v with
  | zero => rfl
  | succ k ih => rw [toLe, List.length_cons, ih]

/-- A field that is wide enough gives the number back. -/
theorem ofLe_toLe (k : ℕ) {v : ℕ} (h : v < 256 ^ k) : ofLe (toLe k v) = v := by
  induction k generalizing v with
  | zero =>
    rw [Nat.pow_zero] at h
    rw [toLe, ofLe]
    omega
  | succ k ih =>
    have hdiv : v / 256 < 256 ^ k := by
      rw [Nat.div_lt_iff_lt_mul (by decide)]
      rwa [Nat.pow_succ] at h
    rw [toLe, ofLe, ih hdiv, UInt8.toNat_ofNat']
    omega

/-- A field is the number in it. -/
theorem toLe_ofLe (bs : List UInt8) : toLe bs.length (ofLe bs) = bs := by
  induction bs with
  | nil => rfl
  | cons b bs ih =>
    have hb := b.toNat_lt
    have hlow : UInt8.ofNat (b.toNat + 256 * ofLe bs) = b := by
      refine UInt8.toNat_inj.mp ?_
      rw [UInt8.toNat_ofNat']
      omega
    have hrest : (b.toNat + 256 * ofLe bs) / 256 = ofLe bs := by omega
    rw [List.length_cons, ofLe, toLe, hlow, hrest, ih]

/-- A field has room for its number. -/
lemma ofLe_lt (bs : List UInt8) : ofLe bs < 256 ^ bs.length := by
  induction bs with
  | nil => exact Nat.one_pos
  | cons b bs ih =>
    have hb := b.toNat_lt
    rw [ofLe, List.length_cons, Nat.pow_succ]
    omega

/-- `s[i:j]`. -/
def slice (s : List UInt8) (i j : ℕ) : List UInt8 := (s.drop i).take (j - i)

/-- A slice is cut off at the end of the bytes. -/
lemma length_slice (s : List UInt8) (i j : ℕ) :
    (slice s i j).length = min (j - i) (s.length - i) := by
  rw [slice, List.length_take, List.length_drop]

/-- A number in a slice fits a field of its width. -/
lemma ofLe_slice_lt (s : List UInt8) {i j k : ℕ} (h : j - i ≤ k) :
    ofLe (slice s i j) < 256 ^ k := by
  refine Nat.lt_of_lt_of_le (ofLe_lt _) (Nat.pow_le_pow_right (by decide) ?_)
  rw [length_slice]
  omega

/-- A slice depends on its own bytes. -/
lemma slice_congr {s t : List UInt8} {i j : ℕ} (h : ∀ k, i ≤ k → k < j → s[k]? = t[k]?) :
    slice s i j = slice t i j := by
  refine List.ext_getElem? fun k => ?_
  rw [slice, slice, List.getElem?_take, List.getElem?_take]
  split
  · rw [List.getElem?_drop, List.getElem?_drop]
    exact h _ (Nat.le_add_right ..) (by omega)
  · rfl

/-- A slice behind bytes that are dropped. -/
lemma slice_drop (s : List UInt8) (k i j : ℕ) : slice (s.drop k) i j = slice s (k + i) (k + j) := by
  rw [slice, slice, List.drop_drop, Nat.add_sub_add_left]

/-- A slice from the beginning. -/
lemma slice_zero (s : List UInt8) (j : ℕ) : slice s 0 j = s.take j := rfl

/-- A slice of a slice. -/
lemma slice_slice (s : List UInt8) (b : ℕ) {n i j : ℕ} (h : j ≤ n) :
    slice (slice s b (b + n)) i j = slice s (b + i) (b + j) := by
  have hwidth : min (j - i) (n - i) = b + j - (b + i) := by omega
  rw [slice, slice, slice, Nat.add_sub_cancel_left, List.drop_take, List.take_take, List.drop_drop,
    hwidth]

/-- A slice does not see bytes that come later. -/
lemma slice_append_left {s : List UInt8} (t : List UInt8) {i j : ℕ} (h : j ≤ s.length) :
    slice (s ++ t) i j = slice s i j := by
  rcases Nat.le_total i j with hij | hij
  · rw [slice, slice, List.drop_append_of_le_length (by omega), List.take_append_of_le_length]
    rw [List.length_drop]
    omega
  · rw [slice, slice, Nat.sub_eq_zero_of_le hij, List.take_zero, List.take_zero]

/-- A field with something before it and something after it. -/
lemma slice_field (a b c : List UInt8) {i j : ℕ} (hi : i = a.length)
    (hj : j = a.length + b.length) : slice (a ++ (b ++ c)) i j = b := by
  subst hi hj
  rw [slice, List.drop_left, Nat.add_sub_cancel_left, List.take_left]

/-- The last field. -/
lemma slice_last (a b : List UInt8) {i j : ℕ} (hi : i = a.length) (hj : j = a.length + b.length) :
    slice (a ++ b) i j = b := by
  have hfield := slice_field a b [] hi hj
  rwa [List.append_nil] at hfield

/-- The first field. -/
lemma slice_append_self (a b : List UInt8) {j : ℕ} (hj : a.length = j) : slice (a ++ b) 0 j = a := by
  subst hj
  rw [slice, List.drop_zero, Nat.sub_zero, List.take_left]

/-- A slice that starts after the first field. -/
lemma slice_append_right {a : List UInt8} (b : List UInt8) {i j : ℕ} (hi : a.length ≤ i) :
    slice (a ++ b) i j = slice b (i - a.length) (j - a.length) := by
  have hwidth : j - a.length - (i - a.length) = j - i := by omega
  rw [slice, slice, List.drop_append, List.drop_eq_nil_of_le hi, List.nil_append, hwidth]

/-- `s.find(pat)`: where `pat` first occurs. -/
def find (pat : List UInt8) : List UInt8 → Option ℕ
  | [] => if pat = [] then some 0 else none
  | b :: s => if pat.isPrefixOf (b :: s) then some 0 else (find pat s).map (· + 1)

/-- An occurrence that is found is there. -/
theorem find_spec {pat s : List UInt8} {k : ℕ} (h : find pat s = some k) : pat <+: s.drop k := by
  induction s generalizing k with
  | nil =>
    rw [find] at h
    split at h
    · next hpat => rw [hpat]; exact List.nil_prefix
    · cases h
  | cons b s ih =>
    rw [find] at h
    split at h
    · next hpre =>
      obtain rfl := Option.some.inj h
      exact List.isPrefixOf_iff_prefix.mp hpre
    · obtain ⟨k', hk', rfl⟩ := Option.map_eq_some_iff.mp h
      exact ih hk'

/-- A string that begins with the pattern. -/
lemma find_of_prefix {pat s : List UInt8} (h : pat <+: s) : find pat s = some 0 := by
  cases s with
  | nil => rw [find, if_pos (List.prefix_nil.mp h)]
  | cons b s => rw [find, if_pos (List.isPrefixOf_iff_prefix.mpr h)]

end Uvk5.Bytes
