import Mathlib.Data.List.GetD
import Mathlib.Tactic.SplitIfs

set_option relaxedAutoImplicit false
set_option autoImplicit false

/-!
# Writing a range of a file in place

A file is the list of its bytes. `File.pwrite` is the effect of seeking to an offset and
writing there without truncation: a write that starts past the end of the file fills the gap,
and a write of nothing leaves the file alone.

## Main definitions

* `File.pwrite` — the file after a write at an offset.

## Main results

* `File.length_pwrite`, `File.getD_pwrite` — the length and the contents after a write, the
  contents read with a default past the end.
* `File.getD_pwrite_gap` — the bytes between the old end and the start of the write.
-/

namespace Uvk5.File

variable {α : Type}

/-- The file after `bytes` were written at offset `off`, a gap being filled with `fill`. -/
def pwrite (fill : α) (file : List α) (off : ℕ) (bytes : List α) : List α :=
  if bytes.isEmpty then file
  else file.take off ++ List.replicate (off - file.length) fill ++
    (bytes ++ file.drop (off + bytes.length))

/-- Writing nothing changes nothing. -/
@[simp] theorem pwrite_nil (fill : α) (file : List α) (off : ℕ) :
    pwrite fill file off [] = file := by
  simp [pwrite]

/-- The part of the file in front of a write has length `off`. -/
private theorem length_front (fill : α) (file : List α) (off : ℕ) :
    (file.take off ++ List.replicate (off - file.length) fill).length = off := by
  simp only [List.length_append, List.length_take, List.length_replicate]
  omega

/-- A nonempty write grows the file only as far as it reaches. -/
theorem length_pwrite (fill : α) (file : List α) (off : ℕ) {bytes : List α} (hb : bytes ≠ []) :
    (pwrite fill file off bytes).length = max file.length (off + bytes.length) := by
  have hne : bytes.isEmpty = false := by simpa using hb
  rw [pwrite, hne, if_neg (by simp), List.length_append, length_front]
  simp only [List.length_append, List.length_drop]
  omega

/-- The bytes in front of a write: those of the file, then the filling. -/
private theorem getD_front (fill d : α) (file : List α) (off : ℕ) {i : ℕ} (hi : i < off) :
    (file.take off ++ List.replicate (off - file.length) fill).getD i d =
      if i < file.length then file.getD i d else fill := by
  simp only [List.getD_eq_getElem?_getD]
  split_ifs with h
  · rw [List.getElem?_append_left (by simp; omega), List.getElem?_take, if_pos hi]
  · rw [List.getElem?_append_right (by simp; omega), List.length_take,
      List.getElem?_replicate, if_pos (by omega)]
    rfl

/-- The contents of a file after a write of `bytes` at `off`, read with the default `d` past
the end. -/
theorem getD_pwrite (fill d : α) (file : List α) (off : ℕ) {bytes : List α} (hb : bytes ≠ [])
    (i : ℕ) :
    (pwrite fill file off bytes).getD i d =
      if i < off then (if i < file.length then file.getD i d else fill)
      else if i < off + bytes.length then bytes.getD (i - off) d
      else file.getD i d := by
  have hne : bytes.isEmpty = false := by simpa using hb
  have hlen := length_front fill file off
  rw [pwrite, hne, if_neg (by simp)]
  rcases Nat.lt_or_ge i off with hi | hi
  · rw [if_pos hi, ← getD_front fill d file off hi, List.getD_append _ _ _ _ (by omega)]
  · rw [if_neg (by omega), List.getD_append_right _ _ _ _ (by omega), hlen]
    split_ifs with h
    · rw [List.getD_append _ _ _ _ (by omega)]
    · rw [List.getD_append_right _ _ _ _ (by omega)]
      simp only [List.getD_eq_getElem?_getD, List.getElem?_drop]
      congr 2
      omega

/-- A write that starts inside the file or right at its end replaces its range and nothing
else. -/
theorem getD_pwrite_of_le (fill d : α) (file : List α) {off : ℕ} (hoff : off ≤ file.length)
    (bytes : List α) (i : ℕ) :
    (pwrite fill file off bytes).getD i d =
      if off ≤ i ∧ i < off + bytes.length then bytes.getD (i - off) d else file.getD i d := by
  by_cases hb : bytes = []
  · subst hb
    rw [pwrite_nil, if_neg (by simp)]
  · rw [getD_pwrite fill d file off hb]
    split_ifs <;> first | rfl | omega

/-- A write that starts past the end leaves the filling at the old end of the file. -/
theorem getD_pwrite_gap (fill d : α) (file : List α) {off : ℕ} (hoff : file.length < off)
    {bytes : List α} (hb : bytes ≠ []) :
    (pwrite fill file off bytes).getD file.length d = fill := by
  rw [getD_pwrite fill d file off hb, if_pos hoff, if_neg (by omega)]

/-- A write inside the file keeps its length. -/
theorem length_pwrite_of_le (fill : α) (file : List α) {off : ℕ} {bytes : List α}
    (h : off + bytes.length ≤ file.length) :
    (pwrite fill file off bytes).length = file.length := by
  by_cases hb : bytes = []
  · rw [hb, pwrite_nil]
  · rw [length_pwrite fill file off hb]
    omega

end Uvk5.File
