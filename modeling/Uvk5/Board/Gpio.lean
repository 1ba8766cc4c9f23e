import Uvk5.Lib.WordBits

set_option relaxedAutoImplicit false
set_option autoImplicit false

/-!
# A port of pins (`qemu/py32f071.c`)

The guest drives the pins of a port through three registers. Whoever is wired to a pin is told when
its level changes, and the board drives the input bits.

## Main definitions

* `Gpio.Port` — the registers.
* `Gpio.Port.setInput`, `Gpio.Port.reset` — the board's side, and the reset.
* `Gpio.Port.read`, `Gpio.nextOdr`, `Gpio.Port.writeOther` — the guest's side.

## Main results

* `Gpio.bit_readIdr` — what the guest reads at a pin.
-/

namespace Uvk5.Gpio

open WordBits

/-- `PY32GpioState`, without the lines. -/
structure Port where
  /-- The modes, two bits for a pin. -/
  moder : UInt32
  /-- The output types. -/
  otyper : UInt32
  /-- The output speeds. -/
  ospeedr : UInt32
  /-- The pulls. -/
  pupdr : UInt32
  /-- The output levels. -/
  odr : UInt32
  /-- The lock. -/
  lckr : UInt32
  /-- The low alternate functions. -/
  afrl : UInt32
  /-- The high alternate functions. -/
  afrh : UInt32
  /-- The input levels, which the board drives. -/
  idr : UInt32

/-- `py32_gpio_set_input`. -/
def Port.setInput (p : Port) (line : ℕ) (level : Bool) : Port :=
  if 16 ≤ line then p
  else if level then { p with idr := p.idr ||| mask line }
  else { p with idr := p.idr &&& ~~~mask line }

/-- `py32_gpio_reset` of port B, whose pin 9 idles low. -/
def resetB : Port := ⟨0, 0, 0, 0, 0, 0, 0, 0, 0xffff &&& ~~~mask 9⟩

/-- The pin is an output. -/
def Port.isOutput (p : Port) (i : ℕ) : Prop := (p.moder >>> UInt32.ofNat (i * 2)) &&& 3 = 1

instance (p : Port) (i : ℕ) : Decidable (p.isOutput i) := inferInstanceAs (Decidable (_ = _))

/-- The pins that are outputs. -/
def Port.outMask (p : Port) : UInt32 :=
  (List.range 16).foldl (fun out i => if p.isOutput i then out ||| mask i else out) 0

/-- `py32_gpio_read`. -/
def Port.read (p : Port) (addr : ℕ) : UInt32 :=
  match addr with
  | 0x00 => p.moder
  | 0x04 => p.otyper
  | 0x08 => p.ospeedr
  | 0x0c => p.pupdr
  | 0x10 => (p.odr &&& p.outMask) ||| (p.idr &&& ~~~p.outMask)
  | 0x14 => p.odr
  | 0x1c => p.lckr
  | 0x20 => p.afrl
  | 0x24 => p.afrh
  | _ => 0

/-- The output levels that a write to one of the three registers of the outputs asks for. -/
def nextOdr (odr : UInt32) (addr : ℕ) (value : UInt32) : Option UInt32 :=
  match addr with
  | 0x14 => some value
  | 0x18 => some ((odr ||| (value &&& (0xffff : UInt32))) &&& ~~~(value >>> 16))
  | 0x28 => some (odr &&& ~~~(value &&& (0xffff : UInt32)))
  | _ => none

/-- `py32_gpio_write` to any other register. -/
def Port.writeOther (p : Port) (addr : ℕ) (value : UInt32) : Port :=
  match addr with
  | 0x00 => { p with moder := value }
  | 0x04 => { p with otyper := value }
  | 0x08 => { p with ospeedr := value }
  | 0x0c => { p with pupdr := value }
  | 0x1c => { p with lckr := value }
  | 0x20 => { p with afrl := value }
  | 0x24 => { p with afrh := value }
  | _ => p

section Port

variable (p : Port)

/-- An input bit is driven. -/
lemma bit_setInput {line j : ℕ} (hline : line < 16) (hj : j < 16) (level : Bool) :
    bit (p.setInput line level).idr j = if line = j then level else bit p.idr j := by
  rw [Port.setInput, if_neg (Nat.not_le.mpr hline)]
  have hline' : line < 32 := by omega
  cases level with
  | true =>
    rw [if_pos rfl, bit_or_mask hline']
    by_cases h : line = j
    · rw [if_pos h, decide_eq_true h, Bool.or_true]
    · rw [if_neg h, decide_eq_false h, Bool.or_false]
  | false =>
    rw [if_neg Bool.false_ne_true, bit_and_not_mask hline' (by omega)]
    by_cases h : line = j
    · rw [if_pos h, decide_eq_false (not_not.mpr h), Bool.and_false]
    · rw [if_neg h, decide_eq_true h, Bool.and_true]

/-- An input leaves the output register. -/
@[simp] lemma setInput_odr (line : ℕ) (level : Bool) : (p.setInput line level).odr = p.odr := by
  rw [Port.setInput]
  split
  · rfl
  · split
    · rfl
    · rfl

/-- A write to another register leaves the output register. -/
@[simp] lemma writeOther_odr (addr : ℕ) (value : UInt32) :
    (p.writeOther addr value).odr = p.odr := by
  rw [Port.writeOther.eq_def]
  split <;> rfl

/-- A write to another register leaves the input register. -/
@[simp] lemma writeOther_idr (addr : ℕ) (value : UInt32) :
    (p.writeOther addr value).idr = p.idr := by
  rw [Port.writeOther.eq_def]
  split <;> rfl

/-- The mask of the outputs has their bits. -/
lemma bit_outMask {i : ℕ} (hi : i < 16) : bit p.outMask i = decide (p.isOutput i) := by
  have hfold : ∀ n ≤ 16, bit ((List.range n).foldl
      (fun out i => if p.isOutput i then out ||| mask i else out) 0) i =
        decide (i < n ∧ p.isOutput i) := by
    intro n
    induction n with
    | zero => exact fun _ => bit_zero i
    | succ n ih =>
      intro hn
      rw [List.range_succ, List.foldl_append, List.foldl_cons, List.foldl_nil]
      by_cases hout : p.isOutput n
      · rw [if_pos hout, bit_or_mask (by omega), ih (by omega)]
        by_cases heq : n = i
        · subst heq
          simp [hout]
        · have hnext : i < n + 1 ↔ i < n := by omega
          rw [decide_eq_false heq, Bool.or_false]
          simp only [hnext]
      · rw [if_neg hout, ih (by omega)]
        by_cases heq : n = i
        · subst heq
          simp [hout]
        · have hnext : i < n + 1 ↔ i < n := by omega
          simp only [hnext]
  rw [Port.outMask, hfold 16 (Nat.le_refl 16)]
  simp [hi]

/-- **What the guest reads** at a pin: its own level if it is an output, and the input otherwise. -/
theorem bit_readIdr {i : ℕ} (hi : i < 16) :
    bit (p.read 0x10) i = if p.isOutput i then bit p.odr i else bit p.idr i := by
  have hlt : i < 32 := Nat.lt_trans hi (by decide)
  rw [Port.read, bit_or, bit_and, bit_and, bit_not _ hlt, bit_outMask p hi]
  by_cases hout : p.isOutput i
  · simp [hout]
  · simp [hout]

end Port

end Uvk5.Gpio
