import Mathlib.Data.List.Basic
import Mathlib.Data.Nat.Factorization.Basic
import Mathlib.Data.Nat.ModEq
import Mathlib.Logic.Function.Basic
import Uvk5.Lib.Run

set_option relaxedAutoImplicit false
set_option autoImplicit false

/-!
# TIM2 (`qemu/py32f071.c`)

The firmware measures time with a counter of milliseconds. The model has no counter: it keeps the
value the counter had and the time at which that was, and writes to CR1 and CNT move both. The time
it keeps is in whole milliseconds, and the clock it takes it from is finer.

## Main definitions

* `Tim2.State`, `Tim2.count`, `Tim2.write` — the timer.
* `Tim2.Meter` — what a counter counts: the value written last, and the milliseconds of the clock
  that ended since then while the counter was enabled.

## Main results

* `Tim2.counts_step` — every step of the timer is one of the counter.
* `Tim2.cnt_continuous` — CNT is what a counter would show, in every run.
* `Tim2.cnt_not_elapsed` — which is not the time during which the counter was enabled.

## Design

The virtual clock is a number of nanoseconds. The timer sees it in whole milliseconds, as an
`int64_t`, and the difference of two such times as a `uint32_t`, as in the C code.
-/

namespace Uvk5.Tim2

/-- `TIM_CR1`. -/
def cr1 : ℕ := 0x00
/-- `TIM_CNT`. -/
def cnt : ℕ := 0x24
/-- `TIM_CR1_CEN`. -/
def cr1Cen : UInt32 := (1 : UInt32) <<< 0

/-- `PY32Tim2State`. -/
structure State where
  /-- The registers, as they were written. -/
  regs : Fin 0x20 → UInt32
  /-- `started_ms`: when the counter had the value in `offset`. -/
  startedMs : Int64
  /-- `offset`. -/
  offset : UInt32
  /-- Whether it counts. -/
  running : Bool

/-- `py32_tim2_reset`. -/
def reset : State := ⟨fun _ => 0, 0, 0, false⟩

/-- `SCALE_MS`: the nanoseconds of a millisecond. -/
def scaleMs : ℕ := 1000000

/-- `qemu_clock_get_ms`: the clock, in whole milliseconds. -/
def getMs (clock : ℕ) : Int64 := Int64.ofNat (clock / scaleMs)

/-- `(uint32_t)` of an `int64_t`. -/
def truncate (ms : Int64) : UInt32 := ms.toUInt64.toUInt32

/-- `py32_tim2_count`. -/
def count (s : State) (clock : ℕ) : UInt32 :=
  if s.running then s.offset + truncate (getMs clock - s.startedMs) else s.offset

/-- `py32_tim2_read`. -/
def read (s : State) (clock addr : ℕ) : UInt32 :=
  if addr = cnt then count s clock
  else if h : addr >>> 2 < 0x20 then s.regs ⟨addr >>> 2, h⟩
  else 0

/-- A write to CNT: the counter has this value from now on. -/
def writeCnt (s : State) (clock : ℕ) (value : UInt32) : State :=
  { s with offset := value, startedMs := getMs clock }

/-- A write to CR1: start at the value it has, or freeze at it. -/
def writeCr1 (s : State) (clock : ℕ) (value : UInt32) : State :=
  if value &&& cr1Cen ≠ 0 ∧ s.running = false then
    { s with offset := count s clock, startedMs := getMs clock, running := true }
  else if ¬ value &&& cr1Cen ≠ 0 ∧ s.running = true then
    { s with offset := count s clock, running := false }
  else s

/-- `py32_tim2_write`. -/
def write (s : State) (clock addr : ℕ) (value : UInt32) : State :=
  if h : addr >>> 2 < 0x20 then
    let s := if addr = cnt then writeCnt s clock value
      else if addr = cr1 then writeCr1 s clock value
      else s
    { s with regs := Function.update s.regs ⟨addr >>> 2, h⟩ value }
  else s

/-! ## The machine and the counter -/

/-- The timer and the virtual clock. -/
structure Machine where
  /-- The timer. -/
  timer : State
  /-- The clock, in nanoseconds. -/
  clock : ℕ

/-- What happens. -/
inductive Event where
  /-- Time passes, in nanoseconds. -/
  | advance (ns : ℕ)
  /-- A register is written. -/
  | write (addr : ℕ) (value : UInt32)
  /-- The timer is reset. -/
  | reset

/-- One event. -/
def Machine.step (m : Machine) : Event → Machine
  | .advance ns => { m with clock := m.clock + ns }
  | .write addr value => { m with timer := Tim2.write m.timer m.clock addr value }
  | .reset => { m with timer := Tim2.reset }

/-- The machine when the timer is reset. -/
def Machine.start (clock : ℕ) : Machine := ⟨Tim2.reset, clock⟩

/-- What CNT reads. -/
def Machine.readCnt (m : Machine) : UInt32 := Tim2.read m.timer m.clock cnt

/-- How many milliseconds of the clock end while it goes from one time on. -/
def boundaries (clock ns : ℕ) : ℕ := (clock + ns) / scaleMs - clock / scaleMs

/-- A counter of milliseconds. -/
structure Meter where
  /-- The clock, in nanoseconds. -/
  clock : ℕ
  /-- The value written to CNT last, and 0 if none has been written since the reset. -/
  written : UInt32
  /-- How many milliseconds of the clock ended since then while CEN was set. -/
  ended : ℕ
  /-- For how many nanoseconds CEN has been set since then. -/
  held : ℕ
  /-- Whether CEN is set. -/
  cen : Bool

/-- One event. -/
def Meter.step (c : Meter) : Event → Meter
  | .advance ns =>
    if c.cen then { c with clock := c.clock + ns, ended := c.ended + boundaries c.clock ns,
                           held := c.held + ns }
    else { c with clock := c.clock + ns }
  | .write addr value =>
    if addr = cnt then { c with written := value, ended := 0, held := 0 }
    else if addr = cr1 then { c with cen := decide (value &&& cr1Cen ≠ 0) }
    else c
  | .reset => ⟨c.clock, 0, 0, 0, false⟩

/-- The counter after a reset. -/
def Meter.start (clock : ℕ) : Meter := ⟨clock, 0, 0, 0, false⟩

/-- What it shows. -/
def Meter.shows (c : Meter) : UInt32 := c.written + UInt32.ofNat c.ended

/-- The clock goes on by whole milliseconds only. -/
def Event.Whole : Event → Prop
  | .advance ns => scaleMs ∣ ns
  | _ => True

/-! ## The timer is a counter -/

/-- The milliseconds that end are the multiples of a millisecond that the clock reaches. -/
lemma boundaries_eq_card (clock ns : ℕ) :
    boundaries clock ns =
      ((Finset.Ioc clock (clock + ns)).filter (scaleMs ∣ ·)).card := by
  have hsplit : Finset.Ioc 0 clock ∪ Finset.Ioc clock (clock + ns) = Finset.Ioc 0 (clock + ns) :=
    Finset.Ioc_union_Ioc_eq_Ioc (Nat.zero_le _) (Nat.le_add_right _ _)
  have hdisjoint : Disjoint ((Finset.Ioc 0 clock).filter (scaleMs ∣ ·))
      ((Finset.Ioc clock (clock + ns)).filter (scaleMs ∣ ·)) :=
    Finset.disjoint_filter_filter (Finset.Ioc_disjoint_Ioc_of_le le_rfl)
  have hcard := Nat.Ioc_filter_dvd_card_eq_div (clock + ns) scaleMs
  rw [← hsplit, Finset.filter_union, Finset.card_union_of_disjoint hdisjoint,
    Nat.Ioc_filter_dvd_card_eq_div] at hcard
  rw [boundaries, ← hcard, Nat.add_sub_cancel_left]

/-- The time in whole milliseconds, and how many of them end, make up the later time. -/
lemma div_add_boundaries (clock ns : ℕ) :
    (clock + ns) / scaleMs = clock / scaleMs + boundaries clock ns :=
  (Nat.add_sub_of_le (Nat.div_le_div_right (Nat.le_add_right _ _))).symm

/-- While the clock goes on by whole milliseconds, as many of them end. -/
lemma boundaries_of_dvd {ns : ℕ} (h : scaleMs ∣ ns) (clock : ℕ) :
    boundaries clock ns = ns / scaleMs := by
  rw [boundaries, Nat.add_div_of_dvd_left h, Nat.add_sub_cancel_left]

/-- The time that has passed since some moment is measured right modulo `2 ^ 32`. -/
lemma truncate_add (clock ns : ℕ) (start : Int64) :
    truncate (getMs (clock + ns) - start) =
      truncate (getMs clock - start) + UInt32.ofNat (boundaries clock ns) := by
  rw [truncate, truncate, getMs, getMs, div_add_boundaries, Int64.toUInt64_sub, Int64.toUInt64_sub,
    Int64.toUInt64_ofNat', Int64.toUInt64_ofNat', UInt64.toUInt32_sub, UInt64.toUInt32_sub,
    UInt64.toUInt32_ofNat', UInt64.toUInt32_ofNat', UInt32.ofNat_add]
  generalize start.toUInt64.toUInt32 = t
  rw [UInt32.sub_eq_add_neg, UInt32.sub_eq_add_neg, UInt32.add_assoc, UInt32.add_assoc,
    UInt32.add_comm (UInt32.ofNat (boundaries clock ns))]

/-- No time has passed since the moment itself. -/
lemma truncate_self (ms : Int64) : truncate (ms - ms) = 0 := by
  rw [truncate, Int64.sub_self]
  rfl

/-- While it runs, the count grows with the milliseconds of the clock that end. -/
lemma count_advance (s : State) (clock ns : ℕ) :
    count s (clock + ns) =
      if s.running then count s clock + UInt32.ofNat (boundaries clock ns) else count s clock := by
  rw [count, count]
  split
  · rw [truncate_add, UInt32.add_assoc]
  · rfl

/-- After a write to CNT the count is what was written. -/
lemma count_writeCnt (s : State) (clock : ℕ) (value : UInt32) :
    count (writeCnt s clock value) clock = value := by
  rw [count, writeCnt]
  dsimp only
  rw [truncate_self, UInt32.add_zero, ite_self]

/-- A write to CR1 does not change the count. -/
lemma count_writeCr1 (s : State) (clock : ℕ) (value : UInt32) :
    count (writeCr1 s clock value) clock = count s clock := by
  rw [writeCr1]
  split
  · rw [count]
    dsimp only
    rw [if_pos rfl, truncate_self, UInt32.add_zero]
  · split
    · exact if_neg Bool.false_ne_true
    · rfl

/-- After a write to CR1 the timer counts exactly if the bit for that is set. -/
lemma running_writeCr1 (s : State) (clock : ℕ) (value : UInt32) :
    (writeCr1 s clock value).running = decide (value &&& cr1Cen ≠ 0) := by
  rw [writeCr1]
  by_cases hcen : value &&& cr1Cen ≠ 0
  · by_cases hrun : s.running = false
    · rw [if_pos ⟨hcen, hrun⟩, decide_eq_true hcen]
    · rw [if_neg fun h => hrun h.2, if_neg fun h => h.1 hcen, decide_eq_true hcen]
      exact Bool.not_eq_false _ ▸ hrun
  · by_cases hrun : s.running = true
    · rw [if_neg fun h => hcen h.1, if_pos ⟨hcen, hrun⟩, decide_eq_false hcen]
    · rw [if_neg fun h => hcen h.1, if_neg fun h => hrun h.2, decide_eq_false hcen]
      exact Bool.not_eq_true _ ▸ hrun

/-- The register file does not count. -/
lemma count_setRegs (s : State) (regs : Fin 0x20 → UInt32) (clock : ℕ) :
    count { s with regs := regs } clock = count s clock := rfl

/-- The timer shows what a counter shows. -/
structure Counts (m : Machine) (c : Meter) : Prop where
  clock : m.clock = c.clock
  running : m.timer.running = c.cen
  count : count m.timer m.clock = c.shows

/-- **One step** of the timer is a step of the counter. -/
theorem counts_step {m : Machine} {c : Meter} (h : Counts m c) (e : Event) :
    Counts (m.step e) (c.step e) := by
  cases e with
  | advance ns =>
    rw [Machine.step, Meter.step]
    by_cases hcen : c.cen = true
    · rw [if_pos hcen]
      refine ⟨congrArg (· + ns) h.clock, h.running, ?_⟩
      dsimp only
      rw [count_advance, if_pos (h.running.trans hcen), h.count, Meter.shows, Meter.shows,
        UInt32.ofNat_add, UInt32.add_assoc, h.clock]
    · rw [if_neg hcen]
      refine ⟨congrArg (· + ns) h.clock, h.running, ?_⟩
      dsimp only
      rw [count_advance, if_neg (by rw [h.running]; exact hcen), h.count]
      rfl
  | write addr value =>
    rw [Machine.step, Meter.step, write]
    by_cases hcnt : addr = cnt
    · subst hcnt
      rw [dif_pos (by decide), if_pos rfl, if_pos rfl]
      refine ⟨h.clock, h.running, ?_⟩
      dsimp only
      rw [count_setRegs, count_writeCnt, Meter.shows]
      exact (UInt32.add_zero value).symm
    · by_cases hcr1 : addr = cr1
      · subst hcr1
        rw [dif_pos (by decide), if_neg hcnt, if_pos rfl, if_neg hcnt, if_pos rfl]
        refine ⟨h.clock, running_writeCr1 .., ?_⟩
        dsimp only
        rw [count_setRegs, count_writeCr1]
        exact h.count
      · rw [if_neg hcnt, if_neg hcr1, if_neg hcnt, if_neg hcr1]
        split
        · exact ⟨h.clock, h.running, h.count⟩
        · exact h
  | reset => exact ⟨h.clock, rfl, rfl⟩

/-- CNT reads what the counter shows. -/
lemma Counts.readCnt {m : Machine} {c : Meter} (h : Counts m c) : m.readCnt = c.shows := by
  rw [Machine.readCnt, read, if_pos rfl]
  exact h.count

/-- While the clock goes on by whole milliseconds, the milliseconds that end while CEN is set are the
time during which it is set. -/
lemma held_step {c : Meter} {e : Event} (he : e.Whole) (h : c.held = c.ended * scaleMs) :
    (c.step e).held = (c.step e).ended * scaleMs := by
  cases e with
  | advance ns =>
    rw [Meter.step]
    by_cases hcen : c.cen = true
    · rw [if_pos hcen]
      dsimp only
      rw [boundaries_of_dvd he, Nat.add_mul, Nat.div_mul_cancel he, h]
    · rw [if_neg hcen]
      exact h
  | write addr value =>
    rw [Meter.step]
    split
    · exact (Nat.zero_mul _).symm
    · split
      · exact h
      · exact h
  | reset => exact (Nat.zero_mul _).symm

/-- The same over a run. -/
lemma held_run {es : List Event} (hes : ∀ e ∈ es, e.Whole) (c : Meter)
    (h : c.held = c.ended * scaleMs) :
    (es.foldl Meter.step c).held = (es.foldl Meter.step c).ended * scaleMs := by
  induction es generalizing c with
  | nil => exact h
  | cons e es ih =>
    exact ih (fun e' he' => hes e' (List.mem_cons_of_mem _ he')) _
      (held_step (hes e List.mem_cons_self) h)

/-- **CNT is a counter of milliseconds.** From a reset on, whatever is written and however time
passes, CNT reads the value written to it last, plus the number of milliseconds of the clock that
ended since then while CEN was set, modulo `2 ^ 32`. So it stands still while CEN is clear, goes on by
the multiples of a millisecond that the clock reaches while CEN is set, and a write to CR1 does not
change it. If the clock goes on by whole milliseconds only, it is the time during which CEN was set
that is added.

**Proof sketch.** The timer and the counter stay related step by step (`counts_step`). The
milliseconds that end are the quotients of the clock, so the fractions that `qemu_clock_get_ms`
drops never add up to one. -/
theorem cnt_continuous (clock : ℕ) (es : List Event) :
    let m := es.foldl Machine.step (.start clock)
    let c := es.foldl Meter.step (.start clock)
    m.readCnt = c.written + UInt32.ofNat c.ended ∧
      (c.cen = false → ∀ ns, (m.step (.advance ns)).readCnt = m.readCnt) ∧
      (c.cen = true → ∀ ns, (m.step (.advance ns)).readCnt = m.readCnt +
        UInt32.ofNat ((Finset.Ioc m.clock (m.clock + ns)).filter (scaleMs ∣ ·)).card) ∧
      (∀ value, (m.step (.write cr1 value)).readCnt = m.readCnt) ∧
      ((∀ e ∈ es, e.Whole) → m.readCnt = c.written + UInt32.ofNat (c.held / scaleMs)) := by
  intro m c
  have hstart : Counts (.start clock) (.start clock) := ⟨rfl, rfl, rfl⟩
  have h : Counts m c := Run.related_foldl (R := Counts) (fun _ _ e h => counts_step h e) es hstart
  refine ⟨h.readCnt, fun hcen ns => ?_, fun hcen ns => ?_, fun value => ?_, fun hes => ?_⟩
  · rw [(counts_step h _).readCnt, h.readCnt, Meter.step, if_neg (by rw [hcen]; decide)]
    rfl
  · rw [(counts_step h _).readCnt, h.readCnt, Meter.step, if_pos hcen, Meter.shows, Meter.shows,
      UInt32.ofNat_add, UInt32.add_assoc, boundaries_eq_card, h.clock]
  · rw [(counts_step h _).readCnt, h.readCnt]
    rfl
  · have hheld : c.held = c.ended * scaleMs := held_run hes (.start clock) (Nat.zero_mul _).symm
    rw [h.readCnt, hheld, Nat.mul_div_cancel _ (by decide)]
    rfl

/-- Ten times CEN is set for a fifth of a millisecond, in which a millisecond of the clock ends: CNT
reads 10, after two milliseconds. -/
theorem cnt_not_elapsed : ¬ ∀ (clock : ℕ) (es : List Event),
    let c := es.foldl Meter.step (.start clock)
    (es.foldl Machine.step (.start clock)).readCnt =
      c.written + UInt32.ofNat (c.held / scaleMs) := by
  intro h
  have hten := h 900000 (List.replicate 10 ([.write cr1 1, .advance 200000, .write cr1 0,
    .advance 800000] : List Event)).flatten
  revert hten
  decide +kernel

/-- The counter is set to its last value, started, stopped and started again: it wraps, and the time
in between does not count. -/
example : ((([.write cnt 0xffffffff, .write cr1 1, .advance 3000000, .write cr1 0, .advance 7000000,
    .write cr1 1, .advance 2000000] : List Event).foldl Machine.step (.start 5)).readCnt) = 4 := by
  decide

end Uvk5.Tim2
