import Mathlib.Tactic.Ring
import Mathlib.Tactic.SplitIfs
import Uvk5.Flash.Chip

set_option relaxedAutoImplicit false
set_option autoImplicit false

/-!
# One chip-select frame of the serial flash

A frame is a falling chip-select edge, some bytes, and a rising edge. What a frame answers and
leaves behind depends on the array and the write-enable latch at its start and on its bytes,
and on nothing an earlier frame left in the command, address or phase counters.

## Main definitions

* `PY25Q16.frame` — a frame run through the device.
* `PY25Q16.reference` — what the part is for: the reply bytes, the array and the latch after a
  frame, as a function of the array, the latch and the bytes.

## Main results

* `PY25Q16.frame_eq_reference` — every frame of fewer than `2 ^ 32` bytes meets the reference.

## Design

The reference gives each command in closed form: a read by offset from the 24-bit address, a
page program by the mask it puts on each offset of one page, an erase by its sector. The
device is brought to it in two stages: the three address bytes, then the data bytes by
induction, with the phase counter bounded away from its wrap-around.
-/

namespace Uvk5.PY25Q16

/-- Bytes passed one by one to `xfer`: the replies and the state after the last one. -/
def xfers (s : State) : List UInt8 → List UInt8 × State
  | [] => ([], s)
  | out :: outs =>
    let r := xfer s out
    let rest := xfers r.2 outs
    (r.1 :: rest.1, rest.2)

/-- A chip-select frame: falling edge, bytes, rising edge. -/
def frame (m : Machine) (bytes : List UInt8) (io : Host) : List UInt8 × Machine :=
  let m := setCs m false io
  let r := xfers m.chip bytes
  (r.1, setCs { m with chip := r.2 } true io)

/-! ## The reference -/

/-- What is observed of a frame: its replies, and the array and latch it leaves. -/
@[ext] structure Outcome where
  /-- The reply bytes. -/
  replies : List UInt8
  /-- The array after the frame. -/
  data : Memory
  /-- The write-enable latch after the frame. -/
  writeEnabled : Bool

/-- The same outcome after one more leading `0xff` reply. -/
def Outcome.idle (o : Outcome) : Outcome := { o with replies := 0xff :: o.replies }

/-- The 24-bit address in three bytes, most significant first. -/
def address (b₂ b₁ b₀ : UInt8) : ℕ := b₂.toNat * 65536 + b₁.toNat * 256 + b₀.toNat

/-- `READ`: `0xff` for the address bytes, then the array from the address on, wrapping at the
end of the part. -/
def referenceRead (data : Memory) : List UInt8 → List UInt8
  | b₂ :: b₁ :: b₀ :: rest =>
    0xff :: 0xff :: 0xff :: rest.mapIdx fun k _ => data (wrap (address b₂ b₁ b₀ + k))
  | short => short.map fun _ => 0xff

/-- The bits the bytes of a page program from address `a` on leave set at offset `o` of the
page: the `k`-th byte applies at offset `(a + k) % 256`. -/
def pageMask (o : ℕ) : ℕ → List UInt8 → UInt8
  | _, [] => 0xff
  | a, b :: rest => (if a % 256 = o then b else 0xff) &&& pageMask o (a + 1) rest

/-- `PAGE PROGRAM` with the latch set: only bytes of the addressed page change. -/
def referenceProgram (data : Memory) : List UInt8 → Memory
  | b₂ :: b₁ :: b₀ :: rest => fun i =>
    if i.val / 256 = (wrap (address b₂ b₁ b₀)).val / 256 then
      data i &&& pageMask (i.val % 256) (address b₂ b₁ b₀) rest
    else data i
  | _ => data

/-- `SECTOR ERASE` with the latch set: the addressed 4 KiB sector becomes `0xff` once the
third address byte has come. -/
def referenceErase (data : Memory) : List UInt8 → Memory
  | b₂ :: b₁ :: b₀ :: _ => fun i =>
    if i.val / 4096 = (wrap (address b₂ b₁ b₀)).val / 4096 then 0xff else data i
  | _ => data

/-- **The reference.** Leading `0x06`, `0x04` and `0x00` bytes set, clear and leave the latch
and the part keeps waiting for an opcode; any other opcode owns the rest of the frame. -/
def reference (data : Memory) (writeEnabled : Bool) : List UInt8 → Outcome
  | [] => ⟨[], data, writeEnabled⟩
  | op :: rest =>
    if op = cmdWren then (reference data true rest).idle
    else if op = cmdWrdi then (reference data false rest).idle
    else if op = cmdNone then (reference data writeEnabled rest).idle
    else Outcome.idle <|
      if op = cmdRead then ⟨referenceRead data rest, data, writeEnabled⟩
      else if op = cmdPp then
        ⟨rest.map fun _ => 0xff, if writeEnabled then referenceProgram data rest else data,
          writeEnabled⟩
      else if op = cmdSe then
        ⟨rest.map fun _ => 0xff, if writeEnabled then referenceErase data rest else data,
          writeEnabled⟩
      else if op = cmdRdsr then
        ⟨rest.map fun _ => if writeEnabled then 0x02 else 0x00, data, writeEnabled⟩
      else if op = cmdJedec then
        ⟨rest.mapIdx fun k _ => [0x85, 0x60, 0x15].getD k 0xff, data, writeEnabled⟩
      else ⟨rest.map fun _ => 0xff, data, writeEnabled⟩

/-! ## Machine words -/

/-- Shifting one more byte into an address of at most two. -/
theorem toNat_shiftAddr (a : UInt32) (b : UInt8) (ha : a.toNat < 2 ^ 24) :
    ((a <<< 8) ||| b.toUInt32).toNat = a.toNat * 256 + b.toNat := by
  have hb := b.toNat_lt
  have h8 : (8 : UInt32).toNat % 32 = 8 := rfl
  rw [UInt32.toNat_or, UInt32.toNat_shiftLeft, UInt8.toNat_toUInt32, h8,
    Nat.mod_eq_of_lt (by rw [Nat.shiftLeft_eq]; omega),
    ← Nat.shiftLeft_add_eq_or_of_lt (by omega), Nat.shiftLeft_eq]

/-- Masking off the low byte of a 32-bit number. -/
theorem and_high_bytes (n : ℕ) (hn : n < 2 ^ 32) : n &&& (2 ^ 24 - 1) <<< 8 = n / 256 * 256 := by
  have he : n / 256 * 256 = (n >>> 8) <<< 8 := by
    rw [Nat.shiftLeft_eq, Nat.shiftRight_eq_div_pow]
  apply Nat.eq_of_testBit_eq
  intro i
  rw [he, Nat.testBit_and, Nat.testBit_shiftLeft, Nat.testBit_shiftLeft,
    Nat.testBit_two_pow_sub_one, Nat.testBit_shiftRight]
  by_cases hi : 8 ≤ i
  · have hback : 8 + (i - 8) = i := by omega
    by_cases hlt : i < 32
    · have h24 : i - 8 < 24 := by omega
      simp [hi, h24, hback]
    · have hbit : n.testBit i = false :=
        Nat.testBit_lt_two_pow
          (lt_of_lt_of_le hn (Nat.pow_le_pow_right (by omega) (by omega)))
      simp [hback, hbit]
  · simp [hi]

/-- The address step of a page program stays inside its page. -/
theorem toNat_pageStep (a : UInt32) :
    ((a &&& ~~~(pageSize - 1)) ||| ((a + 1) &&& (pageSize - 1))).toNat =
      a.toNat / 256 * 256 + (a.toNat + 1) % 256 := by
  have hlo : ((a + 1) &&& (pageSize - 1)).toNat = (a.toNat + 1) % 256 := by
    have hmask : (pageSize - 1).toNat = 2 ^ 8 - 1 := rfl
    rw [UInt32.toNat_and, hmask, Nat.and_two_pow_sub_one_eq_mod, UInt32.toNat_add]
    exact Nat.mod_mod_of_dvd _ (by decide)
  have hhi : (a &&& ~~~(pageSize - 1)).toNat = (a.toNat / 256) <<< 8 := by
    have hmask : (~~~(pageSize - 1)).toNat = (2 ^ 24 - 1) <<< 8 := rfl
    rw [UInt32.toNat_and, hmask, and_high_bytes _ a.toNat_lt, Nat.shiftLeft_eq]
  rw [UInt32.toNat_or, hhi, hlo, ← Nat.shiftLeft_add_eq_or_of_lt (by omega), Nat.shiftLeft_eq]

/-- A phase counter that has not reached `2 ^ 32` steps without wrapping. -/
theorem toNat_phase_succ {p : UInt32} (h : p.toNat + 1 < 2 ^ 32) :
    (p + 1).toNat = p.toNat + 1 := by
  rw [UInt32.toNat_add]
  exact Nat.mod_eq_of_lt h

/-! ## The device, command by command -/

/-- What is observed of a run of bytes. -/
def outcome (r : List UInt8 × State) : Outcome := ⟨r.1, r.2.data, r.2.writeEnabled⟩

/-- Past the opcode the device dispatches with the phase counter advanced. -/
theorem xfer_of_cmd {s : State} (hsel : s.selected = true) (hc : s.cmd ≠ cmdNone) (b : UInt8) :
    xfer s b = clockByte { s with phase := s.phase + 1 } b := by
  simp [xfer, hsel, hc]

/-- The phase after one more data byte is past the address. -/
theorem not_phase_succ_le {p : UInt32} (h3 : 3 ≤ p.toNat) (h : p.toNat + 1 < 2 ^ 32) :
    ¬ p + 1 ≤ 3 := by
  rw [UInt32.le_iff_toNat_le, toNat_phase_succ h]
  have he : (3 : UInt32).toNat = 3 := rfl
  omega

/-- A data byte of a read answers the addressed byte and advances the address. -/
theorem xfer_read {s : State} (hsel : s.selected = true) (hc : s.cmd = cmdRead)
    (h3 : 3 ≤ s.phase.toNat) (h : s.phase.toNat + 1 < 2 ^ 32) (b : UInt8) :
    xfer s b = (s.data (wrap s.addr.toNat),
      { s with phase := s.phase + 1, addr := s.addr + 1 }) := by
  have hp := not_phase_succ_le h3 h
  rw [xfer_of_cmd hsel (by rw [hc]; decide)]
  simp [clockByte, readByte, hc, hp]

/-- The address counter of a read wraps at `2 ^ 32`, a multiple of the size of the part. -/
theorem wrap_toNat_succ (a : UInt32) (k : ℕ) :
    wrap ((a + 1).toNat + k) = wrap (a.toNat + (k + 1)) := by
  rw [UInt32.toNat_add, Fin.ext_iff]
  simp only [wrap, size, UInt32.reduceToNat]
  omega

/-- The data bytes of a read answer the array from the address on. -/
theorem xfers_read (rest : List UInt8) : ∀ s : State, s.selected = true → s.cmd = cmdRead →
    3 ≤ s.phase.toNat → s.phase.toNat + rest.length < 2 ^ 32 →
    outcome (xfers s rest) =
      ⟨rest.mapIdx fun k _ => s.data (wrap (s.addr.toNat + k)), s.data, s.writeEnabled⟩ := by
  induction rest with
  | nil => intro s _ _ _ _; rfl
  | cons b rest ih =>
    intro s hsel hc h3 hlen
    rw [List.length_cons] at hlen
    have hp := toNat_phase_succ (p := s.phase) (by omega)
    have hrest := ih { s with phase := s.phase + 1, addr := s.addr + 1 } hsel hc
      (by simp only; omega) (by simp only; omega)
    simp only [outcome, Outcome.mk.injEq, wrap_toNat_succ] at hrest ⊢
    simp only [xfers, xfer_read hsel hc h3 (by omega), List.mapIdx_cons, Nat.add_zero]
    exact ⟨by rw [hrest.1], hrest.2⟩

/-- The state after a data byte of a page program. -/
def afterProgram (s : State) (b : UInt8) : State :=
  let s := if s.writeEnabled then program { s with phase := s.phase + 1 } b
    else { s with phase := s.phase + 1 }
  { s with addr := (s.addr &&& ~~~(pageSize - 1)) ||| ((s.addr + 1) &&& (pageSize - 1)) }

/-- A data byte of a page program. -/
theorem xfer_pp {s : State} (hsel : s.selected = true) (hc : s.cmd = cmdPp)
    (h3 : 3 ≤ s.phase.toNat) (h : s.phase.toNat + 1 < 2 ^ 32) (b : UInt8) :
    xfer s b = (0xff, afterProgram s b) := by
  have hp := not_phase_succ_le h3 h
  rw [xfer_of_cmd hsel (by rw [hc]; decide)]
  simp [clockByte, ppByte, afterProgram, hc, hp, cmdPp, cmdRead]

/-- A data byte of a page program leaves the frame's bookkeeping in place. -/
theorem afterProgram_frame (s : State) (b : UInt8) :
    (afterProgram s b).selected = s.selected ∧ (afterProgram s b).cmd = s.cmd ∧
      (afterProgram s b).phase = s.phase + 1 ∧
      (afterProgram s b).writeEnabled = s.writeEnabled ∧
      (afterProgram s b).addr.toNat = s.addr.toNat / 256 * 256 + (s.addr.toNat + 1) % 256 := by
  have haddr : (afterProgram s b).addr =
      (s.addr &&& ~~~(pageSize - 1)) ||| ((s.addr + 1) &&& (pageSize - 1)) := by
    by_cases hwe : s.writeEnabled = true <;> simp [afterProgram, program, markDirty, hwe]
  refine ⟨?_, ?_, ?_, ?_, by rw [haddr, toNat_pageStep]⟩ <;>
    by_cases hwe : s.writeEnabled = true <;> simp [afterProgram, program, markDirty, hwe]

/-- A data byte of a page program with the latch set clears bits of the addressed byte. -/
theorem afterProgram_data (s : State) (b : UInt8) :
    (afterProgram s b).data =
      if s.writeEnabled then
        Function.update s.data (wrap s.addr.toNat) (s.data (wrap s.addr.toNat) &&& b)
      else s.data := by
  by_cases hwe : s.writeEnabled = true
  · simp [afterProgram, program, markDirty, hwe]
  · simp [afterProgram, hwe]

/-- The mask of a page program depends on its start only through the offset in the page. -/
theorem pageMask_congr (o : ℕ) (rest : List UInt8) : ∀ {a a' : ℕ}, a % 256 = a' % 256 →
    pageMask o a rest = pageMask o a' rest := by
  induction rest with
  | nil => intro a a' _; rfl
  | cons b rest ih =>
    intro a a' h
    simp only [pageMask, h, ih (show (a + 1) % 256 = (a' + 1) % 256 by omega)]

/-- Two offsets of the part are equal when they lie in one page at one offset of it. -/
theorem eq_wrap_iff (i : Fin size) (a : ℕ) :
    i = wrap a ↔ i.val / 256 = (wrap a).val / 256 ∧ a % 256 = i.val % 256 := by
  have hi := i.isLt
  rw [Fin.ext_iff]
  simp only [wrap, size] at hi ⊢
  omega

/-- The data bytes of a page program mask the bytes of the page holding the address.

**Proof sketch.** Induction on the bytes. The first byte masks the addressed byte; the address
then moves to the next offset of the same page, and the mask of the remaining bytes depends
only on that offset. -/
theorem xfers_pp (rest : List UInt8) : ∀ s : State, s.selected = true → s.cmd = cmdPp →
    3 ≤ s.phase.toNat → s.phase.toNat + rest.length < 2 ^ 32 →
    outcome (xfers s rest) =
      ⟨rest.map fun _ => 0xff,
        if s.writeEnabled then fun i =>
          if i.val / 256 = (wrap s.addr.toNat).val / 256 then
            s.data i &&& pageMask (i.val % 256) s.addr.toNat rest
          else s.data i
        else s.data,
        s.writeEnabled⟩ := by
  induction rest with
  | nil =>
    intro s _ _ _ _
    have hall : ∀ x : UInt8, x &&& 0xff = x := fun x => by
      rw [show (0xff : UInt8) = -1 by rfl, UInt8.and_neg_one]
    simp [outcome, xfers, pageMask, hall]
  | cons b rest ih =>
    intro s hsel hc h3 hlen
    rw [List.length_cons] at hlen
    have hp := toNat_phase_succ (p := s.phase) (by omega)
    obtain ⟨hsel', hc', hph', hwe', haddr'⟩ := afterProgram_frame s b
    have hrest := ih (afterProgram s b) (by rw [hsel', hsel]) (by rw [hc', hc])
      (by rw [hph']; omega) (by rw [hph']; omega)
    simp only [outcome, Outcome.mk.injEq] at hrest ⊢
    simp only [xfers, xfer_pp hsel hc h3 (by omega), List.map_cons]
    refine ⟨by rw [hrest.1], ?_, by rw [hrest.2.2, hwe']⟩
    rw [hrest.2.1, hwe', afterProgram_data]
    by_cases hwe : s.writeEnabled = true
    · simp only [hwe, if_true]
      funext i
      -- the page is the one the address was in before the step
      have hpage : (wrap (afterProgram s b).addr.toNat).val / 256 =
          (wrap s.addr.toNat).val / 256 := by
        rw [haddr']; simp only [wrap, size]; omega
      have hmask := pageMask_congr (i.val % 256) rest
        (show (afterProgram s b).addr.toNat % 256 = (s.addr.toNat + 1) % 256 by
          rw [haddr']; omega)
      rw [hpage, hmask]
      simp only [pageMask, Function.update_apply]
      by_cases hin : i.val / 256 = (wrap s.addr.toNat).val / 256
      · simp only [hin, if_true]
        by_cases hoff : s.addr.toNat % 256 = i.val % 256
        · have hi := (eq_wrap_iff i s.addr.toNat).mpr ⟨hin, hoff⟩
          rw [if_pos hi, if_pos hoff, ← hi, UInt8.and_assoc]
        · have hi : i ≠ wrap s.addr.toNat := fun h => hoff ((eq_wrap_iff i _).mp h).2
          rw [if_neg hi, if_neg hoff, show (0xff : UInt8) = -1 by rfl, UInt8.neg_one_and]
      · have hi : i ≠ wrap s.addr.toNat := fun h => hin ((eq_wrap_iff i _).mp h).1
        simp only [hin, hi, if_false]
    · simp only [hwe, if_false, Bool.false_eq_true]

/-- The array after an erase: the aligned sector holding the address is all `0xff`. -/
theorem eraseSector_data (s : State) :
    (eraseSector s).data = fun i =>
      if i.val / 4096 = (wrap s.addr.toNat).val / 4096 then 0xff else s.data i := by
  have ha := s.addr.toNat_lt
  have hsec : (wrap (s.addr / 0x1000 * 0x1000).toNat).val =
      (wrap s.addr.toNat).val / 4096 * 4096 := by
    simp only [wrap, size, UInt32.toNat_mul, UInt32.toNat_div, UInt32.reduceToNat]
    omega
  funext i
  simp only [eraseSector, markDirty, hsec]
  by_cases h : i.val / 4096 = (wrap s.addr.toNat).val / 4096
  · rw [if_pos h, if_pos (by omega)]
  · rw [if_neg h, if_neg (by omega)]

/-- A command whose bytes, past the first `lo`, change nothing but the phase: the replies are
those of `reply` at the phase of each byte. -/
theorem xfers_of_reply {c : UInt8} (hc0 : c ≠ cmdNone) (lo : ℕ) (reply : Bool → ℕ → UInt8)
    (hreply : ∀ (s : State) (b : UInt8), s.cmd = c → lo < s.phase.toNat →
      clockByte s b = (reply s.writeEnabled s.phase.toNat, s)) (rest : List UInt8) :
    ∀ s : State, s.selected = true → s.cmd = c → lo ≤ s.phase.toNat →
      s.phase.toNat + rest.length < 2 ^ 32 →
      outcome (xfers s rest) =
        ⟨rest.mapIdx fun k _ => reply s.writeEnabled (s.phase.toNat + 1 + k), s.data,
          s.writeEnabled⟩ := by
  induction rest with
  | nil => intro s _ _ _ _; rfl
  | cons b rest ih =>
    intro s hsel hc hlo hlen
    rw [List.length_cons] at hlen
    have hp := toNat_phase_succ (p := s.phase) (by omega)
    have hx : xfer s b = (reply s.writeEnabled (s.phase + 1).toNat,
        { s with phase := s.phase + 1 }) := by
      rw [xfer_of_cmd hsel (by rw [hc]; exact hc0)]
      exact hreply { s with phase := s.phase + 1 } b hc (by simp only; omega)
    have hrest := ih { s with phase := s.phase + 1 } hsel hc (by simp only; omega)
      (by simp only; omega)
    simp only [outcome, Outcome.mk.injEq] at hrest ⊢
    simp only [xfers, hx, List.mapIdx_cons, hp, Nat.add_zero]
    refine ⟨?_, hrest.2⟩
    rw [hrest.1]
    simp only [hp, Nat.add_assoc, Nat.add_comm 1]

/-- The identification bytes by position after the opcode. -/
theorem jedecReply_eq {p : UInt32} (hp : 0 < p.toNat) :
    jedecReply p = [0x85, 0x60, 0x15].getD (p.toNat - 1) 0xff := by
  simp only [jedecReply, ← UInt32.toNat_inj, UInt32.reduceToNat]
  obtain ⟨n, hn⟩ : ∃ n, p.toNat = n + 1 := ⟨p.toNat - 1, by omega⟩
  rw [hn]
  rcases n with _ | _ | _ | n <;> simp

/-! ## The address bytes -/

/-- The state right after an opcode that owns the rest of the frame. -/
def opened (s : State) (op : UInt8) : State := { s with cmd := op, phase := 0, addr := 0 }

/-- The address counter after three address bytes. -/
def addrWord (b₂ b₁ b₀ : UInt8) : UInt32 :=
  ((((0 : UInt32) <<< 8 ||| b₂.toUInt32) <<< 8 ||| b₁.toUInt32) <<< 8) ||| b₀.toUInt32

/-- The address counter holds the 24-bit address. -/
theorem toNat_addrWord (b₂ b₁ b₀ : UInt8) : (addrWord b₂ b₁ b₀).toNat = address b₂ b₁ b₀ := by
  have h₂ := b₂.toNat_lt
  have h₁ := b₁.toNat_lt
  have e₂ : ((0 : UInt32) <<< 8 ||| b₂.toUInt32).toNat = b₂.toNat := by
    rw [toNat_shiftAddr _ _ (by decide)]; simp
  have e₁ : (((0 : UInt32) <<< 8 ||| b₂.toUInt32) <<< 8 ||| b₁.toUInt32).toNat =
      b₂.toNat * 256 + b₁.toNat := by
    rw [toNat_shiftAddr _ _ (by omega), e₂]
  rw [addrWord, toNat_shiftAddr _ _ (by omega), e₁, address]
  ring

/-- An address byte is shifted in and answered `0xff`; the third one of an erase does more. -/
theorem xfer_address {s : State} {op : UInt8} (hsel : s.selected = true) (p a : UInt32)
    (hp : p + 1 ≤ 3) (hop : op = cmdRead ∨ op = cmdPp ∨ op = cmdSe ∧ p + 1 ≠ 3) (b : UInt8) :
    xfer { s with cmd := op, phase := p, addr := a } b =
      (0xff, { s with cmd := op, phase := p + 1, addr := (a <<< 8) ||| b.toUInt32 }) := by
  rcases hop with rfl | rfl | ⟨rfl, hne⟩
  · simp [xfer, hsel, clockByte, readByte, shiftAddr, hp, cmdRead, cmdNone]
  · simp [xfer, hsel, clockByte, ppByte, shiftAddr, hp, cmdPp, cmdNone, cmdRead]
  · simp [xfer, hsel, clockByte, seByte, shiftAddr, hp, hne, cmdSe, cmdNone, cmdRead, cmdPp]

/-- The state after the third address byte of an erase. -/
def afterErase (s : State) (a : UInt32) : State :=
  let s : State := { s with cmd := cmdSe, phase := 3, addr := a }
  if s.writeEnabled then eraseSector s else s

/-- The third address byte of an erase erases if the latch is set. -/
theorem xfer_erase {s : State} (hsel : s.selected = true) (a : UInt32) (b : UInt8) :
    xfer { s with cmd := cmdSe, phase := 2, addr := a } b =
      ((0xff : UInt8), afterErase s ((a <<< 8) ||| b.toUInt32)) := by
  have h3 : (2 : UInt32) + 1 = 3 := rfl
  simp [xfer, hsel, clockByte, seByte, shiftAddr, afterErase, h3, cmdSe, cmdNone, cmdRead, cmdPp]

/-- An erase leaves the frame's bookkeeping in place. -/
theorem afterErase_frame (s : State) (a : UInt32) :
    (afterErase s a).selected = s.selected ∧ (afterErase s a).cmd = cmdSe ∧
      (afterErase s a).phase = 3 ∧ (afterErase s a).writeEnabled = s.writeEnabled := by
  by_cases hwe : s.writeEnabled = true <;> simp [afterErase, eraseSector, markDirty, hwe]

/-! ## Whole commands -/

/-- Replies that ignore the index are a constant map. -/
private theorem mapIdx_const (x : UInt8) (l : List UInt8) :
    l.mapIdx (fun _ _ => x) = l.map fun _ => x := by
  apply List.ext_getElem?
  intro k
  rw [List.getElem?_mapIdx, List.getElem?_map]

section Commands

variable {s : State} (hsel : s.selected = true) {rest : List UInt8}
  (hlen : rest.length + 1 < 2 ^ 32)

include hsel hlen

/-- A `READ` from its opcode on. -/
theorem outcome_read : outcome (xfers (opened s cmdRead) rest) =
    ⟨referenceRead s.data rest, s.data, s.writeEnabled⟩ := by
  have hx := fun p a hp b => xfer_address (s := s) hsel p a hp (Or.inl rfl) b
  rcases rest with _ | ⟨b₂, _ | ⟨b₁, _ | ⟨b₀, rest⟩⟩⟩
  · rfl
  · simp only [opened, xfers, hx 0 _ (by decide)]; rfl
  · simp only [opened, xfers, hx 0 _ (by decide), hx (0 + 1) _ (by decide)]; rfl
  · have h := xfers_read rest
      { s with cmd := cmdRead, phase := 3, addr := addrWord b₂ b₁ b₀ } hsel rfl (by simp)
      (by simp only [List.length_cons] at hlen; simp; omega)
    simp only [outcome, Outcome.mk.injEq, toNat_addrWord] at h ⊢
    simp only [opened, xfers, hx 0 _ (by decide), hx (0 + 1) _ (by decide),
      hx (0 + 1 + 1) _ (by decide), referenceRead]
    exact ⟨by rw [← h.1]; rfl, h.2⟩

/-- A `PAGE PROGRAM` from its opcode on. -/
theorem outcome_pp : outcome (xfers (opened s cmdPp) rest) =
    ⟨rest.map fun _ => 0xff, if s.writeEnabled then referenceProgram s.data rest else s.data,
      s.writeEnabled⟩ := by
  have hx := fun p a hp b => xfer_address (s := s) hsel p a hp (Or.inr (Or.inl rfl)) b
  rcases rest with _ | ⟨b₂, _ | ⟨b₁, _ | ⟨b₀, rest⟩⟩⟩
  · simp [outcome, xfers, opened, referenceProgram]
  · simp only [opened, xfers, hx 0 _ (by decide)]; simp [outcome, referenceProgram]
  · simp only [opened, xfers, hx 0 _ (by decide), hx (0 + 1) _ (by decide)]
    simp [outcome, referenceProgram]
  · have h := xfers_pp rest
      { s with cmd := cmdPp, phase := 3, addr := addrWord b₂ b₁ b₀ } hsel rfl (by simp)
      (by simp only [List.length_cons] at hlen; simp; omega)
    simp only [outcome, Outcome.mk.injEq, toNat_addrWord] at h ⊢
    simp only [opened, xfers, hx 0 _ (by decide), hx (0 + 1) _ (by decide),
      hx (0 + 1 + 1) _ (by decide), referenceProgram, List.map_cons]
    exact ⟨by rw [← h.1]; rfl, h.2⟩

omit hlen in
/-- Bytes after the address of an erase are ignored. -/
theorem outcome_se_tail (hc : s.cmd = cmdSe) (hp : s.phase = 3)
    (hfit : 3 + rest.length < 2 ^ 32) :
    outcome (xfers s rest) = ⟨rest.map fun _ => 0xff, s.data, s.writeEnabled⟩ := by
  have h := xfers_of_reply (c := cmdSe) (by decide) 3 (fun _ _ => 0xff)
    (fun t b ht hph => by
      have hgt : ¬ t.phase ≤ 3 := by rw [UInt32.le_iff_toNat_le]; simpa using hph
      simp [clockByte, seByte, ht, hgt, cmdSe, cmdRead, cmdPp])
    rest s hsel hc (by rw [hp]; decide) (by rw [hp]; exact hfit)
  rw [h, mapIdx_const]

/-- A `SECTOR ERASE` from its opcode on. -/
theorem outcome_se : outcome (xfers (opened s cmdSe) rest) =
    ⟨rest.map fun _ => 0xff, if s.writeEnabled then referenceErase s.data rest else s.data,
      s.writeEnabled⟩ := by
  have hx := fun p a hp hne b => xfer_address (s := s) hsel p a hp (Or.inr (Or.inr ⟨rfl, hne⟩)) b
  rcases rest with _ | ⟨b₂, _ | ⟨b₁, _ | ⟨b₀, rest⟩⟩⟩
  · simp [outcome, xfers, opened, referenceErase]
  · simp only [opened, xfers, hx 0 _ (by decide) (by decide)]; simp [outcome, referenceErase]
  · simp only [opened, xfers, hx 0 _ (by decide) (by decide), hx (0 + 1) _ (by decide) (by decide)]
    simp [outcome, referenceErase]
  · obtain ⟨hsel', hc', hph', hwe'⟩ := afterErase_frame s (addrWord b₂ b₁ b₀)
    have hfit : 3 + rest.length < 2 ^ 32 := by
      simp only [List.length_cons] at hlen
      omega
    have h := outcome_se_tail (hsel'.trans hsel) hc' hph' hfit
    simp only [outcome, Outcome.mk.injEq] at h ⊢
    simp only [opened, xfers, hx 0 _ (by decide) (by decide),
      hx (0 + 1) _ (by decide) (by decide), List.map_cons]
    have h2 : (0 + 1 + 1 : UInt32) = 2 := rfl
    rw [h2, xfer_erase hsel]
    refine ⟨by rw [← h.1]; rfl, ?_, by rw [← hwe']; exact h.2.2⟩
    refine h.2.1.trans ?_
    by_cases hwe : s.writeEnabled = true
    · simp only [afterErase, hwe, if_true, eraseSector_data, referenceErase, toNat_addrWord]
    · simp [afterErase, hwe]

/-- A `READ STATUS` from its opcode on: never busy, the latch in bit 1. -/
theorem outcome_rdsr : outcome (xfers (opened s cmdRdsr) rest) =
    ⟨rest.map fun _ => if s.writeEnabled then 0x02 else 0x00, s.data, s.writeEnabled⟩ := by
  have h := xfers_of_reply (c := cmdRdsr) (by decide) 0
    (fun we _ => if we then 0x02 else 0x00)
    (fun t b ht _ => by simp [clockByte, ht, cmdRdsr, cmdRead, cmdPp, cmdSe])
    rest (opened s cmdRdsr) hsel rfl (Nat.zero_le _) (by simp [opened]; omega)
  rw [h, mapIdx_const]
  rfl

/-- The identification from its opcode on. -/
theorem outcome_jedec : outcome (xfers (opened s cmdJedec) rest) =
    ⟨rest.mapIdx fun k _ => [0x85, 0x60, 0x15].getD k 0xff, s.data, s.writeEnabled⟩ := by
  have h := xfers_of_reply (c := cmdJedec) (by decide) 0
    (fun _ p => [0x85, 0x60, 0x15].getD (p - 1) 0xff)
    (fun t b ht hp => by
      simp only [clockByte, ht, cmdJedec, cmdRead, cmdPp, cmdSe, cmdRdsr, jedecReply_eq hp]
      rfl)
    rest (opened s cmdJedec) hsel rfl (Nat.zero_le _) (by simp [opened]; omega)
  rw [h]
  simp [opened]

/-- An opcode the model does not implement is answered `0xff` to the end of the frame. -/
theorem outcome_unknown {op : UInt8} (h0 : op ≠ cmdNone) (h1 : op ≠ cmdRead) (h2 : op ≠ cmdPp)
    (h3 : op ≠ cmdSe) (h4 : op ≠ cmdRdsr) (h5 : op ≠ cmdJedec) :
    outcome (xfers (opened s op) rest) =
      ⟨rest.map fun _ => 0xff, s.data, s.writeEnabled⟩ := by
  have h := xfers_of_reply (c := op) h0 0 (fun _ _ => 0xff)
    (fun t b ht _ => by simp [clockByte, ht, h1, h2, h3, h4, h5])
    rest (opened s op) hsel rfl (Nat.zero_le _) (by simp [opened]; omega)
  rw [h, mapIdx_const]
  rfl

end Commands

/-! ## Whole frames -/

/-- The outcome of one byte more. -/
theorem outcome_cons {s : State} {b : UInt8} {t : State} (hx : xfer s b = (0xff, t))
    (rest : List UInt8) : outcome (xfers s (b :: rest)) = (outcome (xfers t rest)).idle := by
  simp only [xfers, hx]
  rfl

/-- A selected device waiting for an opcode answers as the reference does.

**Proof sketch.** Induction on the bytes. The three opcodes that leave the device waiting use
the induction hypothesis; any other opcode hands the rest of the bytes to its command. -/
theorem outcome_waiting (bytes : List UInt8) : ∀ s : State, s.selected = true →
    s.cmd = cmdNone → bytes.length < 2 ^ 32 →
    outcome (xfers s bytes) = reference s.data s.writeEnabled bytes := by
  induction bytes with
  | nil => intro s _ _ _; rfl
  | cons op rest ih =>
    intro s hsel hc hlen
    rw [List.length_cons] at hlen
    have hx : xfer s op = (0xff, latchOpcode s op) := by simp [xfer, hsel, hc]
    rw [outcome_cons hx, reference]
    by_cases hwren : op = cmdWren
    · simp only [latchOpcode, hwren, if_true]
      exact congrArg Outcome.idle (ih _ hsel rfl (by omega))
    by_cases hwrdi : op = cmdWrdi
    · simp only [latchOpcode, hwrdi, if_true, show cmdWrdi ≠ cmdWren by decide, if_false]
      exact congrArg Outcome.idle (ih _ hsel rfl (by omega))
    have hlatch : latchOpcode s op = opened s op := by simp [latchOpcode, opened, hwren, hwrdi]
    rw [hlatch]
    simp only [hwren, hwrdi, if_false]
    by_cases hnone : op = cmdNone
    · simp only [hnone, if_true]
      exact congrArg Outcome.idle (ih _ hsel rfl (by omega))
    simp only [hnone, if_false]
    congr 1
    by_cases hread : op = cmdRead
    · simp only [hread, if_true]
      exact outcome_read hsel (by omega)
    by_cases hpp : op = cmdPp
    · simp only [hpp, if_true, show cmdPp ≠ cmdRead by decide, if_false]
      exact outcome_pp hsel (by omega)
    by_cases hse : op = cmdSe
    · simp only [hse, if_true, show cmdSe ≠ cmdRead by decide, show cmdSe ≠ cmdPp by decide,
        if_false]
      exact outcome_se hsel (by omega)
    by_cases hrdsr : op = cmdRdsr
    · subst hrdsr
      exact outcome_rdsr hsel (by omega)
    by_cases hjedec : op = cmdJedec
    · subst hjedec
      exact outcome_jedec hsel (by omega)
    simp only [hread, hpp, hse, hrdsr, hjedec, if_false]
    exact outcome_unknown hsel (by omega) hnone hread hpp hse hrdsr hjedec

/-- A write-back touches neither the array nor the latch. -/
theorem flush_memory (m : Machine) (io : Host) :
    (flush m io).chip.data = m.chip.data ∧
      (flush m io).chip.writeEnabled = m.chip.writeEnabled := by
  rcases flush_cases m io with ⟨h, -⟩ | ⟨f, -, -, -, h⟩ | ⟨f, -, -, -, h⟩ | ⟨-, -, h⟩ <;>
    simp [h]

/-- The falling edge readies the device for an opcode, whatever the last frame left. -/
theorem setCs_falling {m : Machine} (hsel : m.chip.selected = false) (io : Host) :
    setCs m false io =
      { m with chip := { m.chip with cmd := cmdNone, phase := 0, selected := true } } := by
  simp [setCs, hsel]

/-- The rising edge touches neither the array nor the latch. -/
theorem setCs_rising_memory (m : Machine) (io : Host) :
    (setCs m true io).chip.data = m.chip.data ∧
      (setCs m true io).chip.writeEnabled = m.chip.writeEnabled := by
  unfold setCs
  by_cases hsel : m.chip.selected = true
  · simp [hsel, flush_memory]
  · simp [hsel]

/-- **Every frame meets the reference.** From any deselected state, the replies of a frame of
fewer than `2 ^ 32` bytes and the array and latch it leaves are those the reference computes
from the array, the latch and the bytes; the command, address and phase of earlier frames, the
backing file and the outcome of the write-back play no part.

**Proof sketch.** The falling edge leaves the device waiting for an opcode (`setCs_falling`),
the bytes go by `outcome_waiting`, and the rising edge only writes back. -/
theorem frame_eq_reference (m : Machine) (bytes : List UInt8) (io : Host)
    (hsel : m.chip.selected = false) (hlen : bytes.length < 2 ^ 32) :
    (⟨(frame m bytes io).1, (frame m bytes io).2.chip.data,
        (frame m bytes io).2.chip.writeEnabled⟩ : Outcome) =
      reference m.chip.data m.chip.writeEnabled bytes := by
  simp only [frame, setCs_falling hsel, setCs_rising_memory]
  exact outcome_waiting bytes _ rfl rfl hlen

/-- An erased part on which a page program was broken off after one address byte. -/
def abortedPart : Machine := (frame (realize none none) [0x02, 0x00] Host.ok).2

/-- The array after `aa bb cc` have been programmed at `0xff` into an erased part. -/
def programmedPage : Memory := fun i =>
  if i.val = 0xff then 0xaa else if i.val = 0 then 0xbb else if i.val = 1 then 0xcc else 0xff

/-- The three bytes clear the bits of the last and of the first two places of their page. -/
theorem pageMask_programmed (o : ℕ) :
    pageMask o (address 0x00 0x00 0xff) [0xaa, 0xbb, 0xcc] =
      if o = 0xff then 0xaa else if o = 0 then 0xbb else if o = 1 then 0xcc else 0xff := by
  by_cases hlast : o = 0xff
  · subst hlast; rfl
  by_cases hfirst : o = 0
  · subst hfirst; rfl
  by_cases hnext : o = 1
  · subst hnext; rfl
  simp [pageMask, address, hlast, hfirst, hnext, Ne.symm hlast, Ne.symm hfirst, Ne.symm hnext]

/-- A write enable and a page program that wraps in its page, in one frame on that part. -/
theorem frame_eq_reference_wrapping :
    (⟨(frame abortedPart [0x06, 0x02, 0x00, 0x00, 0xff, 0xaa, 0xbb, 0xcc] Host.ok).1,
        (frame abortedPart [0x06, 0x02, 0x00, 0x00, 0xff, 0xaa, 0xbb, 0xcc] Host.ok).2.chip.data,
        (frame abortedPart [0x06, 0x02, 0x00, 0x00, 0xff, 0xaa, 0xbb, 0xcc]
          Host.ok).2.chip.writeEnabled⟩ : Outcome) =
      ⟨[0xff, 0xff, 0xff, 0xff, 0xff, 0xff, 0xff, 0xff], programmedPage, true⟩ := by
  have hend : abortedPart.chip.data = load [] :=
    congrArg Outcome.data
      (frame_eq_reference (realize none none) [0x02, 0x00] Host.ok rfl (by decide))
  rw [frame_eq_reference abortedPart _ Host.ok rfl (by decide), hend]
  refine Outcome.ext rfl (funext fun i => ?_) rfl
  change (if i.val / 256 = 0 then
    (0xff &&& pageMask (i.val % 256) (address 0x00 0x00 0xff) [0xaa, 0xbb, 0xcc]) else 0xff) =
      programmedPage i
  rw [pageMask_programmed, programmedPage]
  by_cases hpage : i.val / 256 = 0
  · rw [if_pos hpage, Nat.mod_eq_of_lt (by omega)]
    split_ifs <;> rfl
  · rw [if_neg hpage, if_neg (by omega), if_neg (by omega), if_neg (by omega)]

end Uvk5.PY25Q16
