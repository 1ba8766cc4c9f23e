import Mathlib.Data.Finset.Card
import Mathlib.Data.Finset.Prod
import Mathlib.Data.Fintype.Card
import Mathlib.Data.Int.Interval
import Uvk5.Lib.ByteBits
import Uvk5.Lib.Lcg
import Uvk5.Minesweeper.Game

set_option relaxedAutoImplicit false
set_option autoImplicit false

/-!
# The field as sets of cells

The arrays of bits are sets of cells. In these terms the loop that places the mines ends with ten
mines outside the 3x3 around the first reveal, and the flood ends and opens cells that have neither
a mine nor a flag.

## Main definitions

* `Minesweeper.Cell`, `Minesweeper.marked` — the cells, and those of an array of bits.
* `Minesweeper.block` — the 3x3 around a cell.
* `Minesweeper.around` — the cells around another that are to be opened.

## Main results

* `Minesweeper.marked_setbit_true`, `Minesweeper.marked_setbit_false` — a bit is set or cleared.
* `Minesweeper.placeMines_spec`, `Minesweeper.placeMines_exact` — the mines are placed.
* `Minesweeper.pushAround_eq` — what is put on the stack.
* `Minesweeper.reveal_spec` — a cell is revealed.
-/

namespace Uvk5.Minesweeper

/-- A cell. -/
abbrev Cell := Fin 81

/-- The number of a cell. -/
def Cell.code (c : Cell) : UInt8 := UInt8.ofNat c

/-- The number of a cell is the cell. -/
@[simp] lemma Cell.toNat_code (c : Cell) : c.code.toNat = c := by
  rw [Cell.code, UInt8.toNat_ofNat']
  omega

/-- Different cells have different numbers. -/
lemma Cell.code_injective : Function.Injective Cell.code := by
  intro c d h
  have hnat := congrArg UInt8.toNat h
  rw [Cell.toNat_code, Cell.toNat_code] at hnat
  exact Fin.ext hnat

/-- Every number below 81 is that of a cell. -/
lemma exists_code {cell : UInt8} (h : cell.toNat < 81) : ∃ c : Cell, c.code = cell :=
  ⟨⟨cell.toNat, h⟩, UInt8.toNat_inj.mp (Cell.toNat_code _)⟩

/-- The cells of an array of bits. -/
def marked (set : Bits) : Finset Cell := Finset.univ.filter fun c => bit set c.code = true

/-- A cell is marked if its bit is set. -/
@[simp] lemma mem_marked {set : Bits} {c : Cell} : c ∈ marked set ↔ bit set c.code = true := by
  simp [marked]

/-! ## Bits -/

/-- The byte of an array in which the bit of a cell is. -/
lemma toNat_shift (cell : UInt8) : (cell >>> 3).toNat = cell.toNat / 8 := by
  rw [UInt8.toNat_shiftRight, Nat.shiftRight_eq_div_pow]
  rfl

/-- The place of the bit of a cell in its byte. -/
lemma toNat_low (cell : UInt8) : (cell &&& 7).toNat = cell.toNat % 8 := by
  rw [UInt8.toNat_and]
  exact Nat.and_two_pow_sub_one_eq_mod cell.toNat 3

/-- The bit of a cell, as a bit of a number. -/
lemma bit_eq_testBit (set : Bits) (cell : UInt8) :
    bit set cell = (set[cell.toNat / 8]?.getD 0).toNat.testBit (cell.toNat % 8) := by
  have hlow := toNat_low cell
  rw [bit, ByteBits.shiftRight_and_one (by omega), toNat_shift, hlow]

/-- What a bit is after one is written. -/
lemma bit_setbit (set : Bits) {cell : UInt8} (hcell : cell.toNat < 81) (on : Bool) (c : UInt8) :
    bit (setbit set cell on) c = if c = cell then on else bit set c := by
  have hlow := toNat_low cell
  have heq : c = cell ↔ cell.toNat / 8 = c.toNat / 8 ∧ cell.toNat % 8 = c.toNat % 8 := by
    rw [← UInt8.toNat_inj]
    omega
  rw [bit_eq_testBit, bit_eq_testBit, setbit, toNat_shift]
  by_cases hindex : cell.toNat / 8 = c.toNat / 8
  · rw [← hindex, Vector.getElem?_setIfInBounds_self_of_lt (by omega), Option.getD_some]
    cases on with
    | true =>
      rw [if_pos rfl, ByteBits.testBit_or_mask (by omega), hlow]
      by_cases hbit : cell.toNat % 8 = c.toNat % 8
      · simp [heq, hindex, hbit]
      · simp [heq, hbit]
    | false =>
      rw [if_neg Bool.false_ne_true, ByteBits.testBit_and_not_mask (by omega) (by omega), hlow]
      by_cases hbit : cell.toNat % 8 = c.toNat % 8
      · simp [heq, hindex, hbit]
      · simp [heq, hbit]
  · rw [Vector.getElem?_setIfInBounds_ne hindex, if_neg (fun h => hindex (heq.mp h).1)]

/-- In an array of zeros no cell is marked. -/
@[simp] lemma marked_noCells : marked noCells = ∅ := by
  refine Finset.filter_eq_empty_iff.mpr fun c _ => ?_
  rw [bit_eq_testBit, noCells, Vector.getElem?_replicate, Cell.toNat_code, if_pos (by omega)]
  simp

/-- **Setting a bit** adds a cell. -/
theorem marked_setbit_true (set : Bits) (c : Cell) :
    marked (setbit set c.code true) = insert c (marked set) := by
  ext d
  rw [mem_marked, bit_setbit set (by rw [Cell.toNat_code]; exact c.isLt), Finset.mem_insert,
    mem_marked]
  by_cases h : d = c
  · simp [h]
  · simp [h, Cell.code_injective.ne h]

/-- **Clearing a bit** removes a cell. -/
theorem marked_setbit_false (set : Bits) (c : Cell) :
    marked (setbit set c.code false) = (marked set).erase c := by
  ext d
  rw [mem_marked, bit_setbit set (by rw [Cell.toNat_code]; exact c.isLt), Finset.mem_erase,
    mem_marked]
  by_cases h : d = c
  · simp [h]
  · simp [h, Cell.code_injective.ne h]

/-! ## The mines -/

/-- The 3x3 around a cell. -/
def block (safe : UInt8) : Finset Cell := Finset.univ.filter fun c => inBlock safe c.code = true

/-- The cells around another are those that `in_block` finds. -/
@[simp] lemma mem_block {safe : UInt8} {c : Cell} :
    c ∈ block safe ↔ inBlock safe c.code = true := by
  simp [block]

/-- Row and column tell the cells apart, and each is one of three. -/
lemma card_block (safe : UInt8) : (block safe).card ≤ 9 := by
  have hbox : ∀ row col : ℤ, (Finset.Icc (row - 1) (row + 1) ×ˢ
      Finset.Icc (col - 1) (col + 1)).card = 9 := by
    intro row col
    rw [Finset.card_product, Int.card_Icc, Int.card_Icc]
    have hthree : ∀ n : ℤ, (n + 1 + 1 - (n - 1)).toNat = 3 := by omega
    rw [hthree, hthree]
  rw [← hbox (safe.toNat / 9 : ℕ) (safe.toNat % 9 : ℕ)]
  refine Finset.card_le_card_of_injOn
    (fun c : Cell => (((c.val / 9 : ℕ) : ℤ), ((c.val % 9 : ℕ) : ℤ))) ?_ ?_
  · intro c hc
    rw [Finset.mem_coe, mem_block, inBlock, decide_eq_true_iff, Cell.toNat_code] at hc
    rw [Finset.mem_coe, Finset.mem_product, Finset.mem_Icc, Finset.mem_Icc]
    exact ⟨⟨hc.1, hc.2.1⟩, hc.2.2.1, hc.2.2.2⟩
  · intro c _ d _ heq
    rw [Prod.mk.injEq] at heq
    ext
    omega

/-- The cell that is drawn is taken from the upper half of the seed. -/
lemma toNat_drawnCell (seed : UInt32) :
    (drawnCell seed).toNat = seed.toNat / 65536 % 81 := by
  rw [drawnCell, UInt32.toNat_toUInt8, UInt32.toNat_mod, UInt32.toNat_shiftRight,
    Nat.shiftRight_eq_div_pow]
  have hlt := Nat.mod_lt (seed.toNat / 65536) (show 81 > 0 by decide)
  exact Nat.mod_eq_of_lt (Nat.lt_trans hlt (by decide))

/-- Every cell is drawn with some seed. -/
lemma exists_seed (c : Cell) : ∃ seed, drawnCell seed = c.code := by
  refine ⟨UInt32.ofNat (c * 65536), UInt8.toNat_inj.mp ?_⟩
  rw [toNat_drawnCell, Cell.toNat_code, UInt32.toNat_ofNat']
  omega

/-- The draw is neither a mine nor too close. -/
def Free (safe : UInt8) (mine : Bits) (cell : UInt8) : Prop :=
  bit mine cell = false ∧ inBlock safe cell = false

/-- With fewer than ten mines there is a free cell. -/
lemma exists_free (safe : Cell) {mine : Bits} (h : (marked mine).card < 10) :
    ∃ c : Cell, Free safe.code mine c.code := by
  by_contra hnone
  have hall : Finset.univ ⊆ marked mine ∪ block safe.code := by
    intro c _
    rw [Finset.mem_union, mem_marked, mem_block]
    by_contra hc
    rw [not_or, Bool.not_eq_true, Bool.not_eq_true] at hc
    exact hnone ⟨c, hc⟩
  have hcard := Finset.card_le_card hall
  have hunion := Finset.card_union_le (marked mine) (block safe.code)
  have hblock := card_block safe.code
  rw [Finset.card_univ, Fintype.card_fin] at hcard
  omega

/-- A free cell is drawn before the seeds repeat. -/
lemma exists_draw (safe : Cell) {mine : Bits} (h : (marked mine).card < 10) (seed : UInt32) :
    ∃ n < 2 ^ 32, Free safe.code mine (drawnCell (nextSeed^[n + 1] seed)) := by
  obtain ⟨c, hc⟩ := exists_free safe h
  obtain ⟨target, htarget⟩ := exists_seed c
  obtain ⟨n, hn, hreach⟩ := Lcg.exists_iterate_uint32 (a := 1103515245) (c := 12345) (by decide)
    (by decide) (nextSeed seed) target
  refine ⟨n, hn, ?_⟩
  have hnext : nextSeed = fun x => x * 1103515245 + 12345 := rfl
  rw [← hnext] at hreach
  rw [Function.iterate_succ_apply, hreach, htarget]
  exact hc

section PlaceLoop

variable {safe : UInt8} {mine : Bits}

/-- More fuel changes nothing. -/
lemma placeLoop_mono {fuel want : ℕ} {seed : UInt32} {r : UInt32 × Bits}
    (h : placeLoop safe fuel seed mine want = some r) (k : ℕ) :
    placeLoop safe (fuel + k) seed mine want = some r := by
  induction fuel generalizing seed mine want with
  | zero =>
    rw [placeLoop] at h
    split at h
    · rename_i hwant
      subst hwant
      cases k with
      | zero => exact h
      | succ k => exact h
    · cases h
  | succ fuel ih =>
    rw [Nat.add_right_comm, placeLoop]
    rw [placeLoop] at h
    split at h
    · rename_i hwant
      rw [if_pos hwant]
      exact h
    · rename_i hwant
      rw [if_neg hwant]
      dsimp only at h ⊢
      split at h
      · rename_i hmine
        rw [if_pos hmine]
        exact ih h
      · rename_i hmine
        rw [if_neg hmine]
        split at h
        · rename_i hblock
          rw [if_pos hblock]
          exact ih h
        · rename_i hblock
          rw [if_neg hblock]
          exact ih h

/-- The loop goes on until a free cell is drawn.

**Proof sketch.** Induction on the number of draws there may be. A draw that is free is taken; one
that is not leaves the mines, and the free one comes one draw earlier. -/
lemma placeLoop_draw (want : ℕ) {m : ℕ} {seed : UInt32}
    (h : ∃ n < m, Free safe mine (drawnCell (nextSeed^[n + 1] seed))) (fuel : ℕ) :
    ∃ k seed' cell, Free safe mine cell ∧ cell.toNat < 81 ∧
      placeLoop safe (fuel + m) seed mine (want + 1) =
        placeLoop safe (fuel + k) seed' (setbit mine cell true) want := by
  induction m generalizing seed with
  | zero =>
    obtain ⟨n, hn, -⟩ := h
    exact absurd hn (Nat.not_lt_zero n)
  | succ m ih =>
    rw [← Nat.add_assoc, placeLoop, if_neg (Nat.succ_ne_zero want)]
    dsimp only
    by_cases hfree : Free safe mine (drawnCell (nextSeed seed))
    · refine ⟨m, nextSeed seed, drawnCell (nextSeed seed), hfree, ?_, ?_⟩
      · rw [toNat_drawnCell]
        exact Nat.mod_lt _ (by decide)
      · rw [if_neg (by rw [hfree.1]; exact Bool.false_ne_true),
          if_neg (by rw [hfree.2]; exact Bool.false_ne_true), Nat.add_sub_cancel]
    · have hlater : ∃ n < m, Free safe mine (drawnCell (nextSeed^[n + 1] (nextSeed seed))) := by
        obtain ⟨n, hn, hn'⟩ := h
        cases n with
        | zero => exact absurd hn' hfree
        | succ n =>
          rw [Function.iterate_succ_apply] at hn'
          exact ⟨n, Nat.lt_of_succ_lt_succ hn, hn'⟩
      have hskip : placeLoop safe (fuel + m) (nextSeed seed) mine (want + 1) =
          if bit mine (drawnCell (nextSeed seed)) = true then
            placeLoop safe (fuel + m) (nextSeed seed) mine (want + 1)
          else if inBlock safe (drawnCell (nextSeed seed)) = true then
            placeLoop safe (fuel + m) (nextSeed seed) mine (want + 1)
          else placeLoop safe (fuel + m) (nextSeed seed)
            (setbit mine (drawnCell (nextSeed seed)) true) (want + 1 - 1) := by
        split
        · rfl
        · split
          · rfl
          · rename_i hmine hblock
            exact absurd ⟨Bool.not_eq_true _ ▸ hmine, Bool.not_eq_true _ ▸ hblock⟩ hfree
      rw [← hskip]
      exact ih hlater

end PlaceLoop

/-- The loop ends with ten mines outside the block. -/
lemma placeLoop_spec {safe : Cell} (want : ℕ) (seed : UInt32) {mine : Bits}
    (hcard : (marked mine).card + want = 10) (hblock : Disjoint (marked mine) (block safe.code)) :
    ∃ seed' mine', placeLoop safe.code (want * 2 ^ 32) seed mine want = some (seed', mine') ∧
      (marked mine').card = 10 ∧ Disjoint (marked mine') (block safe.code) := by
  induction want generalizing seed mine with
  | zero => exact ⟨seed, mine, by rw [Nat.zero_mul]; rfl, hcard, hblock⟩
  | succ want ih =>
    have hdraw := exists_draw safe (show (marked mine).card < 10 by omega) seed
    obtain ⟨k, seed₁, cell, hfree, hcell, hloop⟩ := placeLoop_draw want hdraw (want * 2 ^ 32)
    obtain ⟨c, rfl⟩ := exists_code hcell
    have hnew : c ∉ marked mine := by
      rw [mem_marked, hfree.1]
      exact Bool.false_ne_true
    have hfar : c ∉ block safe.code := by
      rw [mem_block, hfree.2]
      exact Bool.false_ne_true
    have hcard' : (marked (setbit mine c.code true)).card + want = 10 := by
      rw [marked_setbit_true, Finset.card_insert_of_notMem hnew]
      omega
    have hblock' : Disjoint (marked (setbit mine c.code true)) (block safe.code) := by
      rw [marked_setbit_true, Finset.disjoint_insert_left]
      exact ⟨hfar, hblock⟩
    obtain ⟨seed', mine', hrest, hspec⟩ := ih seed₁ hcard' hblock'
    refine ⟨seed', mine', ?_, hspec⟩
    rw [Nat.succ_mul, hloop]
    exact placeLoop_mono hrest k

/-- **The mines are placed**: ten of them, and none in the 3x3 around the cell that stays safe. -/
theorem placeMines_spec (safe : Cell) (seed : UInt32) :
    ∃ seed' mine, placeMines safe.code seed = some (seed', mine) ∧
      (marked mine).card = 10 ∧ Disjoint (marked mine) (block safe.code) := by
  refine placeLoop_spec 10 _ ?_ ?_
  · rw [marked_noCells]
    rfl
  · rw [marked_noCells]
    exact Finset.disjoint_empty_left _

/-- A cell outside the 3x3 around another is two rows or two columns away from it. -/
lemma far_of_not_inBlock {safe cell : UInt8} (h : inBlock safe cell = false) :
    1 < |((cell.toNat / 9 : ℕ) : ℤ) - (safe.toNat / 9 : ℕ)| ∨
      1 < |((cell.toNat % 9 : ℕ) : ℤ) - (safe.toNat % 9 : ℕ)| := by
  rw [inBlock, decide_eq_false_iff_not] at h
  rw [lt_abs, lt_abs]
  omega

/-- **The loop ends with exactly ten mines**, whatever the seed is: more fuel than `placeMines`
gives it changes nothing, and every mine is two rows or two columns away from the cell that stays
safe.

**Proof sketch.** Every cell is drawn within `2 ^ 32` turns, since the generator goes through all
its values, and there are always more than ten cells outside the block; so each mine costs at most
so many turns. What is drawn inside the block is skipped. -/
theorem placeMines_exact {safe : UInt8} (hsafe : safe.toNat < 81) (seed : UInt32) :
    ∃ seed' mine, placeMines safe seed = some (seed', mine) ∧
      (∀ k, placeLoop safe (10 * 2 ^ 32 + k) (seed + (safe.toUInt32 * 2654435761 + 1)) noCells 10 =
        some (seed', mine)) ∧
      (marked mine).card = 10 ∧
      ∀ c ∈ marked mine, 1 < |((c.val / 9 : ℕ) : ℤ) - (safe.toNat / 9 : ℕ)| ∨
        1 < |((c.val % 9 : ℕ) : ℤ) - (safe.toNat % 9 : ℕ)| := by
  obtain ⟨cell, rfl⟩ := exists_code hsafe
  obtain ⟨seed', mine, hplace, hcard, hblock⟩ := placeMines_spec cell seed
  refine ⟨seed', mine, hplace, fun k => placeLoop_mono hplace k, hcard, fun c hc => ?_⟩
  have hout : inBlock cell.code c.code = false := by
    have hnot := Finset.disjoint_left.mp hblock hc
    rwa [mem_block, Bool.not_eq_true] at hnot
  have hfar := far_of_not_inBlock hout
  rwa [Cell.toNat_code c] at hfar

/-- Mines that are placed around the cell in the middle, from the seed 1. -/
theorem placeMines_exact_centre :
    ∃ seed' mine, placeMines 40 1 = some (seed', mine) ∧
      (∀ k, placeLoop 40 (10 * 2 ^ 32 + k) (1 + ((40 : UInt8).toUInt32 * 2654435761 + 1)) noCells
        10 = some (seed', mine)) ∧
      (marked mine).card = 10 ∧
      ∀ c ∈ marked mine, 1 < |((c.val / 9 : ℕ) : ℤ) - ((40 : UInt8).toNat / 9 : ℕ)| ∨
        1 < |((c.val % 9 : ℕ) : ℤ) - ((40 : UInt8).toNat % 9 : ℕ)| :=
  placeMines_exact (by decide) 1

/-! ## The flood -/

/-- A neighbour is a cell of the field. -/
lemma toNat_cellAt {cell c : UInt8} {step : ℤ × ℤ} (h : cellAt cell step = some c) :
    c.toNat < 81 := by
  rw [cellAt] at h
  split at h
  · cases h
  · rename_i hfield
    push Not at hfield
    cases h
    rw [UInt8.toNat_ofNat']
    omega

/-- A cell is among its own neighbours. -/
lemma cellAt_zero {cell : UInt8} (hcell : cell.toNat < 81) : cellAt cell (0, 0) = some cell := by
  rw [cellAt, if_neg (by omega)]
  congr 1
  rw [← UInt8.toNat_inj, UInt8.toNat_ofNat']
  omega

/-- No mine is counted, so there is none around. -/
lemma no_mine_around {mine : Bits} {cell c : UInt8} (h : neighbours mine cell = 0)
    {step : ℤ × ℤ} (hstep : step ∈ offsets) (hne : step ≠ (0, 0)) (hc : cellAt cell step = some c) :
    bit mine c = false := by
  rw [neighbours, List.countP_eq_zero] at h
  have hnone := h step (List.mem_filter.mpr ⟨hstep, by simpa using hne⟩)
  rw [hc, Option.any_some, Bool.not_eq_true] at hnone
  exact hnone

/-- The cells around another that are neither open nor flagged. -/
def around (opened flag : Bits) (cur : UInt8) : List UInt8 :=
  (offsets.filterMap (cellAt cur)).filter fun next => !bit opened next && !bit flag next

/-- What is pushed, one step after another, as long as there is room. -/
lemma foldl_push_eq (opened flag : Bits) (cur : UInt8) (l : List (ℤ × ℤ)) (stack : List UInt8) :
    l.foldl (fun stack step =>
      match cellAt cur step with
      | none => stack
      | some next =>
        if !bit opened next && !bit flag next && decide (stack.length < 81) then next :: stack
        else stack) stack =
      (((l.filterMap (cellAt cur)).filter fun next =>
        !bit opened next && !bit flag next).take (81 - stack.length)).reverse ++ stack := by
  induction l generalizing stack with
  | nil => simp
  | cons step l ih =>
    rw [List.foldl_cons, ih]
    cases hnext : cellAt cur step with
    | none => simp [hnext]
    | some next =>
      dsimp only
      by_cases hwanted : (!bit opened next && !bit flag next) = true
      · by_cases hroom : stack.length < 81
        · obtain ⟨room, hroom'⟩ : ∃ room, 81 - stack.length = room + 1 :=
            ⟨80 - stack.length, by omega⟩
          have hrest : 81 - (stack.length + 1) = room := by omega
          simp [hnext, hwanted, hroom, hroom', hrest]
        · have hfull : 81 - stack.length = 0 := by omega
          simp [hroom, hfull]
      · simp [hnext, hwanted]

/-- **What is pushed**: as many of the cells around as there is room for. -/
theorem pushAround_eq (opened flag : Bits) (cur : UInt8) (stack : List UInt8) :
    pushAround opened flag cur stack =
      ((around opened flag cur).take (81 - stack.length)).reverse ++ stack :=
  foldl_push_eq opened flag cur offsets stack

/-- There are at most nine cells around a cell, itself among them. -/
lemma length_around_le (opened flag : Bits) (cur : UInt8) :
    (around opened flag cur).length ≤ 9 := by
  refine Nat.le_trans (List.length_filter_le ..) ?_
  exact Nat.le_trans (List.length_filterMap_le ..) (by decide)

/-- What is on the stack after the cells around another were pushed. -/
lemma mem_pushAround {opened flag : Bits} {cur : UInt8} {stack : List UInt8} {c : UInt8}
    (h : c ∈ pushAround opened flag cur stack) :
    c ∈ stack ∨ (∃ step ∈ offsets, cellAt cur step = some c) ∧ bit flag c = false := by
  rw [pushAround_eq] at h
  rcases List.mem_append.mp h with hpushed | hmem
  · obtain ⟨haround, hclear⟩ := List.mem_filter.mp
      (List.mem_of_mem_take (List.mem_reverse.mp hpushed))
    rw [Bool.and_eq_true, Bool.not_eq_true', Bool.not_eq_true'] at hclear
    exact .inr ⟨List.mem_filterMap.mp haround, hclear.2⟩
  · exact .inl hmem

/-- At most nine cells are pushed. -/
lemma length_pushAround (opened flag : Bits) (cur : UInt8) (stack : List UInt8) :
    (pushAround opened flag cur stack).length ≤ stack.length + 9 := by
  have haround := length_around_le opened flag cur
  rw [pushAround_eq, List.length_append, List.length_reverse, List.length_take]
  omega

/-- The cells on the stack have neither a mine nor a flag. -/
def Clear (mine flag : Bits) (cell : UInt8) : Prop :=
  cell.toNat < 81 ∧ bit mine cell = false ∧ bit flag cell = false

/-- Around a cell without mines next to it, clear cells are pushed. -/
lemma clear_pushAround {mine flag opened : Bits} {cur : UInt8} {stack : List UInt8}
    (hcur : Clear mine flag cur) (hstack : ∀ c ∈ stack, Clear mine flag c)
    (hnone : neighbours mine cur = 0) :
    ∀ c ∈ pushAround opened flag cur stack, Clear mine flag c := by
  intro c hc
  rcases mem_pushAround hc with hmem | ⟨⟨step, hstep, hat⟩, hflag⟩
  · exact hstack c hmem
  · by_cases hzero : step = (0, 0)
    · rw [hzero, cellAt_zero hcur.1] at hat
      cases hat
      exact hcur
    · exact ⟨toNat_cellAt hat, no_mine_around hnone hstep hzero hat, hflag⟩

/-- The open cells after a flood that began with some: it only adds clear ones. -/
def Floods (mine flag opened opened' : Bits) : Prop :=
  ∀ c : Cell, c ∈ marked opened' → c ∈ marked opened ∨ Clear mine flag c.code

/-- The loop ends, and opens clear cells only.

**Proof sketch.** Induction on the fuel. A cell that is opened puts nine cells on the stack at most,
so the length of the stack and nine times the number of closed cells go down together. -/
lemma revealLoop_spec {mine flag : Bits} (fuel : ℕ) {opened : Bits} {stack : List UInt8}
    (hstack : ∀ c ∈ stack, Clear mine flag c)
    (hfuel : stack.length + 9 * (81 - (marked opened).card) ≤ fuel) :
    ∃ opened', revealLoop mine flag fuel opened stack = some opened' ∧
      Floods mine flag opened opened' := by
  induction fuel generalizing opened stack with
  | zero =>
    cases stack with
    | nil => exact ⟨opened, rfl, fun c hc => .inl hc⟩
    | cons cur stack => simp at hfuel
  | succ fuel ih =>
    cases stack with
    | nil => exact ⟨opened, rfl, fun c hc => .inl hc⟩
    | cons cur stack =>
      have hcur := hstack cur List.mem_cons_self
      have hrest : ∀ c ∈ stack, Clear mine flag c := fun c hc =>
        hstack c (List.mem_cons_of_mem _ hc)
      rw [List.length_cons] at hfuel
      rw [revealLoop]
      split
      · exact ih hrest (by omega)
      · rename_i hclosed
        obtain ⟨d, hd⟩ := exists_code hcur.1
        have hnew : d ∉ marked opened := by
          rw [mem_marked, hd]
          exact hclosed
        have hopened : marked (setbit opened cur true) = insert d (marked opened) := by
          rw [← hd, marked_setbit_true]
        have hcard : (marked (setbit opened cur true)).card = (marked opened).card + 1 := by
          rw [hopened, Finset.card_insert_of_notMem hnew]
        have hle : (marked (setbit opened cur true)).card ≤ 81 := by
          simpa using Finset.card_le_univ (marked (setbit opened cur true))
        have hfloods : ∀ {opened' : Bits}, Floods mine flag (setbit opened cur true) opened' →
            Floods mine flag opened opened' := by
          intro opened' h c hc
          rcases h c hc with hmem | hclear
          · rw [hopened, Finset.mem_insert] at hmem
            rcases hmem with rfl | hmem
            · exact .inr (hd ▸ hcur)
            · exact .inl hmem
          · exact .inr hclear
        have hnext : ∀ {stack' : List UInt8}, (∀ c ∈ stack', Clear mine flag c) →
            stack'.length ≤ stack.length + 9 →
            ∃ opened', revealLoop mine flag fuel (setbit opened cur true) stack' = some opened' ∧
              Floods mine flag opened opened' := by
          intro stack' hclear hlength
          obtain ⟨opened', hloop, hspec⟩ := ih hclear
            (show stack'.length + 9 * (81 - (marked (setbit opened cur true)).card) ≤ fuel by omega)
          exact ⟨opened', hloop, hfloods hspec⟩
        dsimp only
        split
        · exact hnext hrest (by omega)
        · rename_i hnone
          exact hnext (clear_pushAround hcur hrest (not_not.mp hnone)) (length_pushAround ..)

/-- **A cell without a mine and a flag is revealed**: the flood ends, and opens only such cells. -/
theorem reveal_spec {mine flag : Bits} {cell : UInt8} (h : Clear mine flag cell) (opened : Bits) :
    ∃ opened', reveal mine flag opened cell = some opened' ∧ Floods mine flag opened opened' := by
  refine revealLoop_spec _ (fun c hc => ?_) ?_
  · rw [List.mem_singleton.mp hc]
    exact h
  · rw [List.length_singleton]
    omega

end Uvk5.Minesweeper
