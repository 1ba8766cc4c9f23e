import Mathlib.Data.List.Basic
import Uvk5.Lib.Run

set_option relaxedAutoImplicit false
set_option autoImplicit false

/-!
# The controller of the internal flash (`qemu/py32f071.c`)

The guest erases its internal flash, a page or the whole array, through the registers of the flash
controller: it unlocks the controller with two keys, puts the address of the page in AR, and starts
the erase with a write to CR. The array is host memory, so a page outside it would be host memory of
something else.

## Main definitions

* `FlashCtl.erase`, `FlashCtl.write` — the registers, and what is written to the array.
* `FlashCtl.Unlocked` — the keys have been written since the last lock.

## Main results

* `FlashCtl.erase_inBounds_iff` — every byte written lies in the array exactly if no page is erased
  at an address less than a page below it.
* `FlashCtl.erase_unlocked_iff` — nothing is erased while the controller is locked exactly if the
  guest does not ask for it: the lock itself stops nothing.

## Design

The offsets are computed as the C code computes them, in 32 bits. `PY32_FLASH_SIZE` is a multiple of
`KiB`, which has 64 bits, so the comparison with it is one of numbers.
-/

namespace Uvk5.FlashCtl

/-- `PY32_FLASH_BASE`. -/
def flashBase : UInt32 := 0x08000000
/-- `PY32_FLASH_SIZE`. -/
def flashSize : ℕ := 128 * 1024
/-- `PY32_FLASH_PAGE`. -/
def flashPage : UInt32 := 0x100
/-- `PY32_FLASH_CR_PER`. -/
def crPer : UInt32 := (1 : UInt32) <<< 1
/-- `PY32_FLASH_CR_MER`. -/
def crMer : UInt32 := (1 : UInt32) <<< 2
/-- `PY32_FLASH_CR_STRT`. -/
def crStrt : UInt32 := (1 : UInt32) <<< 6
/-- `PY32_FLASH_CR_LOCK`. -/
def crLock : UInt32 := (1 : UInt32) <<< 7
/-- `PY32_FLASH_SR_EOP`. -/
def srEop : UInt32 := (1 : UInt32) <<< 0
/-- `PY32_FLASH_KEY1`. -/
def key1 : UInt32 := 0x45670123
/-- `PY32_FLASH_KEY2`. -/
def key2 : UInt32 := 0xCDEF89AB

/-- The fields of `PY32StubState` that belong to the flash controller. -/
structure Controller where
  /-- `int_flash`: the host memory from the beginning of the array on. -/
  intFlash : Option (ℕ → UInt8)
  /-- `flash_cr`. -/
  cr : UInt32
  /-- `flash_ar`. -/
  ar : UInt32
  /-- `flash_sr`. -/
  sr : UInt32
  /-- `flash_key1`. -/
  sawKey1 : Bool

/-- The controller at power-on: the object is filled with zeros, and there is no reset. -/
def powerOn (array : ℕ → UInt8) : Controller where
  intFlash := some array
  cr := 0
  ar := 0
  sr := 0
  sawKey1 := false

/-- A call `memset(base + offset, 0xff, length)`. -/
structure Memset where
  /-- Where it begins. -/
  offset : ℕ
  /-- How many bytes are written. -/
  length : ℕ
  deriving DecidableEq

/-- The bytes that are written. -/
def Memset.Writes (m : Memset) (i : ℕ) : Prop := m.offset ≤ i ∧ i < m.offset + m.length

instance (m : Memset) (i : ℕ) : Decidable (m.Writes i) := inferInstanceAs (Decidable (_ ∧ _))

/-- The memory after the call. -/
def Memset.apply (m : Memset) (memory : ℕ → UInt8) : ℕ → UInt8 := fun i =>
  if m.Writes i then 0xff else memory i

/-- The call that erases the whole array, or the page at AR if the sum is not past the end. -/
def eraseCall (ar : UInt32) (whole : Bool) : Option Memset :=
  if whole then some ⟨0, flashSize⟩
  else
    let off := ar - flashBase
    if (off + flashPage).toNat ≤ flashSize then some ⟨off.toNat, flashPage.toNat⟩ else none

/-- `py32_flash_ctl_erase`: what is written, and the controller after it. -/
def erase (s : Controller) (whole : Bool) : Option Memset × Controller :=
  match s.intFlash with
  | none => (none, s)
  | some memory =>
    let call := eraseCall s.ar whole
    (call, { s with
      intFlash := some (call.elim memory fun m => m.apply memory)
      sr := s.sr ||| srEop })

/-- The registers that are modelled. -/
inductive Register where
  /-- Offset 0x04. -/
  | keyr
  /-- Offset 0x0c. -/
  | sr
  /-- Offset 0x10. -/
  | cr
  /-- Offset 0x14. -/
  | ar
  deriving DecidableEq

/-- A write of 32 bits. -/
structure Write where
  /-- The register. -/
  register : Register
  /-- The value. -/
  value : UInt32
  deriving DecidableEq

/-- A write to CR: an erase is started by the value written, which replaces the lock bit too. -/
def writeCr (s : Controller) (value : UInt32) : Option Memset × Controller :=
  let s := { s with cr := value }
  if s.cr &&& crLock = 0 ∧ s.cr &&& crStrt ≠ 0 then
    let (call, s) :=
      if s.cr &&& crMer ≠ 0 then erase s true
      else if s.cr &&& crPer ≠ 0 then erase s false
      else (none, s)
    (call, { s with cr := s.cr &&& ~~~crStrt })
  else (none, s)

/-- `py32_flash_ctl_write`: what is written to the array, and the controller after it. -/
def write (s : Controller) (w : Write) : Option Memset × Controller :=
  match w.register with
  | .keyr =>
    if w.value = key1 then (none, { s with sawKey1 := true })
    else if w.value = key2 ∧ s.sawKey1 = true then
      (none, { s with cr := s.cr &&& ~~~crLock, sawKey1 := false })
    else (none, s)
  | .sr => (none, { s with sr := s.sr &&& ~~~w.value })
  | .cr => writeCr s w.value
  | .ar => (none, { s with ar := w.value })

/-! ## What a write erases -/

/-- The write starts an erase of the whole array (`true`) or of the page at AR (`false`). -/
def Write.Starts (w : Write) (whole : Bool) : Prop :=
  w.register = .cr ∧ w.value &&& crLock = 0 ∧ w.value &&& crStrt ≠ 0 ∧
    if whole then w.value &&& crMer ≠ 0 else w.value &&& crMer = 0 ∧ w.value &&& crPer ≠ 0

instance (w : Write) (whole : Bool) : Decidable (w.Starts whole) :=
  inferInstanceAs (Decidable (_ ∧ _ ∧ _ ∧ ite _ _ _))

/-- **What a write erases**: only a write that starts an erase writes to the array, and it writes
what `eraseCall` says.

**Proof sketch.** By the register. Only the control register starts an erase, and only with a value
that has the lock bit clear and the start bit set; the mass erase is tested before the page erase. -/
theorem write_eq_some_iff {s : Controller} {w : Write} {m : Memset} :
    (write s w).1 = some m ↔
      s.intFlash.isSome = true ∧ ∃ whole, w.Starts whole ∧ eraseCall s.ar whole = some m := by
  obtain ⟨register, value⟩ := w
  cases register with
  | keyr =>
    have hnone : (write s ⟨.keyr, value⟩).1 = none := by
      simp only [write]
      split
      · rfl
      · split
        · rfl
        · rfl
    simp [hnone, Write.Starts]
  | sr => simp [write, Write.Starts]
  | ar => simp [write, Write.Starts]
  | cr =>
    simp only [write, writeCr, Write.Starts, true_and, Bool.exists_bool]
    split
    · next hstart =>
      split
      · next hmer =>
        cases hflash : s.intFlash with
        | none => simp [erase]
        | some memory => simp [erase, hstart, hmer]
      · next hmer =>
        split
        · next hper =>
          cases hflash : s.intFlash with
          | none => simp [erase]
          | some memory => simp [erase, hstart, not_not.mp hmer, hper]
        · next hper => simp [not_not.mp hmer, not_not.mp hper]
    · next hno =>
      rw [not_and, not_not] at hno
      simp only [reduceCtorEq, false_iff]
      rintro ⟨-, ⟨⟨hlock, hstrt, -⟩, -⟩ | ⟨⟨hlock, hstrt, -⟩, -⟩⟩
      · exact hstrt (hno hlock)
      · exact hstrt (hno hlock)

/-! ## Runs -/

/-- An erase, and the writes to the registers that came before it. -/
structure Erase where
  /-- What was written to the array. -/
  call : Memset
  /-- The writes before it. -/
  past : List Write
  deriving DecidableEq

/-- The controller, with what was written to it and to the array. -/
structure Trace where
  /-- The controller. -/
  ctl : Controller
  /-- The writes to the registers, from the first on. -/
  past : List Write
  /-- The erases. -/
  erases : List Erase

/-- A controller to which nothing has been written yet. -/
def Trace.start (ctl : Controller) : Trace := ⟨ctl, [], []⟩

/-- A write to a register. -/
def Trace.step (t : Trace) (w : Write) : Trace where
  ctl := (write t.ctl w).2
  past := t.past ++ [w]
  erases := (write t.ctl w).1.toList.map (⟨·, t.past⟩) ++ t.erases

/-- The erases after a write are those before it, and the one it starts. -/
lemma Trace.mem_step_erases {t : Trace} {w : Write} {e : Erase} :
    e ∈ (t.step w).erases ↔ ((write t.ctl w).1 = some e.call ∧ e.past = t.past) ∨ e ∈ t.erases := by
  obtain ⟨call, past⟩ := e
  simp [Trace.step, eq_comm (a := t.past)]

/-! ## Inside the array -/

/-- The call writes inside the array only. -/
def Memset.InBounds (m : Memset) : Prop := ∀ i, m.Writes i → i < flashSize

/-- A call that writes something is in bounds if its end is. -/
lemma Memset.inBounds_iff {m : Memset} (h : 0 < m.length) :
    m.InBounds ↔ m.offset + m.length ≤ flashSize := by
  constructor
  · intro hm
    have hlast := hm (m.offset + m.length - 1) ⟨by omega, by omega⟩
    omega
  · intro hm i hi
    exact Nat.lt_of_lt_of_le hi.2 hm

/-- The sum of the offset and the size of a page does not fit in 32 bits: AR is below the base of
the flash by at most a page. -/
def Wraps (ar : UInt32) : Prop := 0x07FFFF00 ≤ ar.toNat ∧ ar.toNat < 0x08000000

instance (ar : UInt32) : Decidable (Wraps ar) := inferInstanceAs (Decidable (_ ∧ _))

/-- A page that is erased lies in the array, unless the sum wrapped. -/
lemma eraseCall_page {ar : UInt32} {m : Memset} (h : eraseCall ar false = some m) :
    m.InBounds ↔ ¬ Wraps ar := by
  simp only [eraseCall, Bool.false_eq_true, if_false] at h
  split at h
  · next hle =>
    obtain rfl := Option.some.inj h
    have har : ar.toNat < 2 ^ 32 := ar.toNat_lt
    have hoff : (ar - flashBase).toNat = (2 ^ 32 - 0x08000000 + ar.toNat) % 2 ^ 32 := by
      rw [UInt32.toNat_sub]
      rfl
    have hsum : (ar - flashBase + flashPage).toNat =
        ((ar - flashBase).toNat + 0x100) % 2 ^ 32 := by
      rw [UInt32.toNat_add]
      rfl
    have hpage : flashPage.toNat = 0x100 := rfl
    rw [Memset.inBounds_iff (by decide : 0 < flashPage.toNat), Wraps]
    rw [hsum, flashSize] at hle
    dsimp only
    rw [hpage, flashSize]
    omega
  · cases h

/-- The whole array is in the array. -/
lemma eraseCall_whole {ar : UInt32} {m : Memset} (h : eraseCall ar true = some m) :
    m.InBounds := by
  obtain rfl := Option.some.inj h
  intro i hi
  simpa using hi.2

/-- A page whose address wraps passes the test of the bound. -/
lemma eraseCall_of_wraps {ar : UInt32} (h : Wraps ar) : ∃ m, eraseCall ar false = some m := by
  have hle : (ar - flashBase + flashPage).toNat ≤ flashSize := by
    rw [UInt32.toNat_add, UInt32.toNat_sub]
    have hpage : flashPage.toNat = 0x100 := rfl
    have hbase : flashBase.toNat = 0x08000000 := rfl
    obtain ⟨hlo, hhi⟩ := h
    rw [hpage, hbase, flashSize]
    omega
  exact ⟨_, if_pos hle⟩

/-- **Which bytes an erase writes**: in every run of writes to the registers, from any state of the
controller, every byte that is written lies in the array exactly if no page is erased while AR is
below the flash by at most a page.

**Proof sketch.** `write_eq_some_iff` says what a write erases, and `eraseCall_page` when that is in
the array; a page at an address that wraps is always erased. -/
theorem erase_inBounds_iff (ctl : Controller) (ws : List Write) :
    Run.AllStates Trace.step (fun t => ∀ e ∈ t.erases, e.call.InBounds) (.start ctl) ws ↔
      Run.AllSteps Trace.step
        (fun t w => t.ctl.intFlash.isSome = true → w.Starts false → ¬ Wraps t.ctl.ar)
        (.start ctl) ws := by
  refine Run.allStates_iff_allSteps (fun _ h => h) (fun t w ht hw e he => ?_)
    (fun t w ht hw hbounds => ?_) ws _ nofun
  · rcases Trace.mem_step_erases.mp he with ⟨hcall, -⟩ | he
    · obtain ⟨hflash, whole, hstarts, hcall⟩ := write_eq_some_iff.mp hcall
      cases whole with
      | true => exact eraseCall_whole hcall
      | false => exact (eraseCall_page hcall).mpr (hw hflash hstarts)
    · exact ht e he
  · refine hw fun hflash hstarts hwraps => ?_
    obtain ⟨m, hm⟩ := eraseCall_of_wraps hwraps
    have hcall := write_eq_some_iff.mpr ⟨hflash, false, hstarts, hm⟩
    have hin := hbounds ⟨m, t.past⟩ (Trace.mem_step_erases.mpr (.inl ⟨hcall, rfl⟩))
    exact (eraseCall_page hm).mp hin hwraps

/-- AR one page below the flash, and a page erase: the bytes before the array are overwritten, at
offsets that wrapped. -/
theorem erase_page_below :
    ¬ ∀ (ctl : Controller) (ws : List Write),
      Run.AllStates Trace.step (fun t => ∀ e ∈ t.erases, e.call.InBounds) (.start ctl) ws := by
  intro h
  have hrun := (h (powerOn fun _ => 0) [⟨.keyr, key1⟩, ⟨.keyr, key2⟩, ⟨.ar, 0x07FFFF00⟩,
    ⟨.cr, crPer ||| crStrt⟩]).last
  have hin := hrun ⟨⟨0xFFFFFF00, 0x100⟩, [⟨.keyr, key1⟩, ⟨.keyr, key2⟩, ⟨.ar, 0x07FFFF00⟩]⟩
    (by decide)
  exact absurd (hin 0xFFFFFF00 (by decide)) (by decide)

/-! ## The lock -/

/-- The write sets the lock. -/
def Write.Locks (w : Write) : Prop := w.register = .cr ∧ w.value &&& crLock ≠ 0

/-- The two keys have been written to KEYR, one after the other, and the lock has not been set
since. -/
def Unlocked (past : List Write) : Prop :=
  ∃ before between after, past = before ++ ⟨.keyr, key1⟩ :: between ++ ⟨.keyr, key2⟩ :: after ∧
    (∀ w ∈ between, w.register ≠ .keyr) ∧ ∀ w ∈ after, ¬ w.Locks

/-- The write asks for an erase that is carried out: of the whole array, or of a page that passes
the test of the bound. -/
def Write.Asks (w : Write) (ar : UInt32) : Prop :=
  w.Starts true ∨ w.Starts false ∧ (ar - flashBase + flashPage).toNat ≤ flashSize

/-- A write asks for an erase if it starts one that comes to a call. -/
lemma Write.asks_iff {w : Write} {ar : UInt32} :
    w.Asks ar ↔ ∃ whole m, w.Starts whole ∧ eraseCall ar whole = some m := by
  constructor
  · rintro (hwhole | ⟨hpage, hle⟩)
    · exact ⟨true, _, hwhole, rfl⟩
    · exact ⟨false, _, hpage, if_pos hle⟩
  · rintro ⟨whole, m, hstarts, hcall⟩
    cases whole with
    | true => exact .inl hstarts
    | false =>
      refine .inr ⟨hstarts, ?_⟩
      by_contra hgt
      rw [eraseCall, if_neg Bool.false_ne_true, if_neg hgt] at hcall
      cases hcall

/-- The array stays attached. -/
lemma write_intFlash {s : Controller} (w : Write) (h : s.intFlash.isSome = true) :
    (write s w).2.intFlash.isSome = true := by
  obtain ⟨memory, hmemory⟩ := Option.isSome_iff_exists.mp h
  obtain ⟨register, value⟩ := w
  cases register with
  | keyr =>
    simp only [write]
    split
    · exact h
    · split
      · exact h
      · exact h
  | sr => exact h
  | ar => exact h
  | cr =>
    simp only [write, writeCr, erase, hmemory]
    split
    · split
      · rfl
      · split
        · rfl
        · rfl
    · rfl

/-- **What the lock is worth**: in every run of writes to the registers from power-on, nothing is
erased while the controller is locked exactly if the guest does not ask for it then.

**Proof sketch.** A write to CR replaces the lock bit before it is tested, so whether it erases
depends on its own value and on AR only (`write_eq_some_iff`). -/
theorem erase_unlocked_iff (array : ℕ → UInt8) (ws : List Write) :
    Run.AllStates Trace.step (fun t => ∀ e ∈ t.erases, Unlocked e.past)
        (.start (powerOn array)) ws ↔
      Run.AllSteps Trace.step (fun t w => w.Asks t.ctl.ar → Unlocked t.past)
        (.start (powerOn array)) ws := by
  refine Run.allStates_iff_allSteps
    (I := fun t : Trace => t.ctl.intFlash.isSome = true ∧ ∀ e ∈ t.erases, Unlocked e.past)
    (fun _ h => h.2) (fun t w ht hw => ⟨write_intFlash w ht.1, fun e he => ?_⟩)
    (fun t w ht hw hunlocked => ?_) ws _ ⟨rfl, nofun⟩
  · rcases Trace.mem_step_erases.mp he with ⟨hcall, hpast⟩ | he
    · obtain ⟨-, whole, hstarts, hcall⟩ := write_eq_some_iff.mp hcall
      rw [hpast]
      exact hw (Write.asks_iff.mpr ⟨whole, _, hstarts, hcall⟩)
    · exact ht.2 e he
  · refine hw fun hasks => ?_
    obtain ⟨whole, m, hstarts, hm⟩ := Write.asks_iff.mp hasks
    have hcall := write_eq_some_iff.mpr ⟨ht.1, whole, hstarts, hm⟩
    exact hunlocked ⟨m, t.past⟩ (Trace.mem_step_erases.mpr (.inl ⟨hcall, rfl⟩))

/-- The first write after power-on erases the whole array, without a key. -/
theorem erase_without_keys :
    ¬ ∀ (array : ℕ → UInt8) (ws : List Write),
      Run.AllStates Trace.step (fun t => ∀ e ∈ t.erases, Unlocked e.past)
        (.start (powerOn array)) ws := by
  intro h
  have hrun := (h (fun _ => 0) [⟨.cr, crMer ||| crStrt⟩]).last
  obtain ⟨before, between, after, hpast, -⟩ := hrun ⟨⟨0, flashSize⟩, []⟩ (by decide)
  simp at hpast

end Uvk5.FlashCtl
