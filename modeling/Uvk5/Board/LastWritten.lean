import Mathlib.Data.List.Nodup
import Mathlib.Tactic.IntervalCases
import Uvk5.Board.MemoryMap
import Uvk5.Lib.Run

set_option relaxedAutoImplicit false
set_option autoImplicit false

/-!
# Reading what was last written

Each register, each byte of the internal flash and each flag of the converter takes its value from
the events that give it one, and keeps it through all others. A read therefore finds what was last
given to the place it asks, however many events lie in between.

## Main definitions

* `MemoryMap.flashByte`, `MemoryMap.stubWord`, `MemoryMap.rccWord`, `MemoryMap.adcEoc` — what an
  event gives a byte, a register or a flag.
* `MemoryMap.Reads` — what an access finds.

## Main results

* `MemoryMap.flash_step`, `MemoryMap.stub_step`, `MemoryMap.rcc_step`, `MemoryMap.eoc_step` — one
  event.
* `MemoryMap.reads_last_written` — what is read is what was last written there.
-/

namespace Uvk5.MemoryMap

open FlashCtl (flashSize eraseCall)
open Image (py32FlashBase)
open Windows (Window resolve)
open WordBits

variable (appOffset : ℕ)

/-! ## What an event gives -/

/-- What an event gives a byte of the internal flash. -/
def flashByte (off : ℕ) : Event → Option UInt8
  | .write a value =>
    if a.Covers (py32FlashBase + off) then some (byteOf value (py32FlashBase + off - a.addr))
    else if appOffset ≤ off ∧ a.Covers (off - appOffset) then
      some (byteOf value (off - appOffset - a.addr))
    else none
  | .erase ar whole =>
    (eraseCall ar whole).bind fun call => if call.Writes off then some 0xff else none
  | .reset loaded => loaded off
  | _ => none

/-- What an event gives a register of a stub. -/
def stubWord (name : String) (base idx : ℕ) : Event → Option UInt32
  | .write a value =>
    if a.addr / 4 * 4 = base + 4 * idx ∧
        ¬ (name = "flash-ctl" ∧ a.addr - base ∈ flashCtlWrites) then
      some (a.masked value)
    else none
  | _ => none

/-- What an event gives a register of the clock control. -/
def rccWord (idx : ℕ) : Event → Option UInt32
  | .write a value => if a.size = 4 ∧ a.addr = 0x40021000 + 4 * idx then some value else none
  | .reset _ => some (rccReset idx)
  | _ => none

/-- What an event gives the result of the converter. -/
def adcValue : Event → Option UInt32
  | .adcResult value => some (if value > 0xfff then 0xfff else UInt32.ofNat value)
  | .reset _ => some 2200
  | _ => none

/-- What an event gives the flag of the converter that a conversion has ended. -/
def adcEoc : Event → Option Bool
  | .write a value =>
    if a.size = 4 ∧ a.addr = 0x40012408 ∧ bit value 0 = true then some true
    else if a.size = 4 ∧ a.addr = 0x40012400 ∧ bit value 1 = false then some false
    else none
  | .read a => if a.size = 4 ∧ a.addr = 0x40012450 then some false else none
  | .reset _ => some false
  | _ => none

/-! ## One event -/

section Step

variable {appOffset : ℕ} {s : State} {a : Access} {value : UInt32}

/-- The windows of the flash. -/
lemma flash_windows {w : Window Device} (h : w ∈ windows appOffset) {offset : ℕ}
    (hdevice : w.device = .flash offset) :
    w = ⟨py32FlashBase, flashSize, 0, .flash 0⟩ ∧ offset = 0 ∨
      w = ⟨0, flashSize - appOffset, 0, .flash appOffset⟩ ∧ offset = appOffset := by
  rcases List.mem_append.mp h with hold | hnew
  · rcases (fixedWindows_spec w hold).2.2 with rfl | hother
    · cases hdevice
      exact .inl ⟨rfl, rfl⟩
    · rw [hdevice] at hother
      cases hother
  · rw [List.mem_singleton.mp hnew] at hdevice ⊢
    cases hdevice
    exact .inr ⟨rfl, rfl⟩

/-- Each device has one window. -/
lemma nodup_devices : (fixedWindows.map Window.device).Nodup := by decide +kernel

/-- The window of a device. -/
lemma window_unique {w w' : Window Device} (h : w ∈ windows appOffset) (h' : w' ∈ fixedWindows)
    (hdevice : w.device = w'.device) (hother : w'.device.flashOffset = none) : w = w' := by
  rcases List.mem_append.mp h with hold | hnew
  · exact List.inj_on_of_nodup_map nodup_devices hold h' hdevice
  · rw [List.mem_singleton.mp hnew] at hdevice
    rw [← hdevice] at hother
    cases hother

/-- The clock control block has a window of its own. -/
lemma mem_rcc : (⟨0x40021000, 0x400, 0, .rcc⟩ : Window Device) ∈ fixedWindows := by
  simp [fixedWindows]

/-- The converter has a window of its own. -/
lemma mem_adc : (⟨0x40012400, 0x400, 0, .adc⟩ : Window Device) ∈ fixedWindows := by
  simp [fixedWindows]

/-- A stub has the window of its base and size. -/
lemma mem_stub {stub : String × ℕ × ℕ} (h : stub ∈ py32Stubs) :
    stubWindow stub ∈ fixedWindows :=
  List.mem_append_right _ (List.mem_map_of_mem h)

/-- The fixed window of the flash. -/
lemma resolve_flash {addr : ℕ} (hlow : py32FlashBase ≤ addr)
    (hhigh : addr < py32FlashBase + flashSize) :
    resolve (windows appOffset) addr = some ⟨py32FlashBase, flashSize, 0, .flash 0⟩ :=
  resolve_named appOffset (List.mem_append_left _ (List.mem_cons_self ..)) rfl ⟨hlow, hhigh⟩

/-- The window at address 0. -/
lemma resolve_alias {addr : ℕ} (haddr : addr < flashSize - appOffset) :
    resolve (windows appOffset) addr = some ⟨0, flashSize - appOffset, 0, .flash appOffset⟩ :=
  resolve_named appOffset (List.mem_append_right _ (List.mem_singleton_self _)) rfl
    ⟨Nat.zero_le _, by rwa [Nat.zero_add]⟩

/-- A byte after a `memset` is `0xff` where it writes, and as before elsewhere. -/
lemma apply_memset (call : FlashCtl.Memset) (memory : ℕ → UInt8) (i : ℕ) :
    call.apply memory i = (if call.Writes i then some 0xff else none).getD (memory i) := by
  rw [FlashCtl.Memset.apply]
  split <;> rfl

/-- A write that a window answers. -/
lemma write_of_resolve {w : Window Device} (s : State) (a : Access) (value : UInt32)
    (h : resolve (windows appOffset) a.addr = some w) :
    s.write appOffset a value = s.writeDevice a value (a.addr - w.base) w.device := by
  rw [State.write, h, Option.elim_some]

/-- A read that a window answers. -/
lemma read_of_resolve {w : Window Device} (s : State) (a : Access)
    (h : resolve (windows appOffset) a.addr = some w) :
    s.read appOffset a = s.readDevice a (a.addr - w.base) w.device := by
  rw [State.read, h, Option.elim_some]

/-- Something that only one kind of device changes. -/
lemma view_write {α : Type} (view : State → α) (s : State) (a : Access) (value : UInt32)
    (h : ∀ w ∈ windows appOffset, w.Contains a.addr →
      view (s.writeDevice a value (a.addr - w.base) w.device) = view s) :
    view (s.write appOffset a value) = view s := by
  rw [State.write]
  cases hres : resolve (windows appOffset) a.addr with
  | none => rfl
  | some w =>
    obtain ⟨hmem, hcontains⟩ := resolve_contains appOffset hres
    exact h w hmem hcontains

/-- Something that only reads of one kind of device change. -/
lemma view_read {α : Type} (view : State → α) (s : State) (a : Access)
    (h : ∀ w ∈ windows appOffset, w.Contains a.addr →
      view (s.readDevice a (a.addr - w.base) w.device).2 = view s) :
    view (s.read appOffset a).2 = view s := by
  rw [State.read]
  cases hres : resolve (windows appOffset) a.addr with
  | none => rfl
  | some w =>
    obtain ⟨hmem, hcontains⟩ := resolve_contains appOffset hres
    exact h w hmem hcontains

/-- A write anywhere else leaves the flash alone. -/
lemma flash_write_other (s : State) (value : UInt32)
    (hfixed : ¬ (py32FlashBase ≤ a.addr ∧ a.addr < py32FlashBase + flashSize))
    (halias : ¬ a.addr < flashSize - appOffset) :
    (s.write appOffset a value).flash = s.flash := by
  refine view_write State.flash s a value fun w hmem hcontains => ?_
  rw [Window.Contains] at hcontains
  cases hdevice : w.device with
  | flash offset =>
    rcases flash_windows hmem hdevice with ⟨rfl, -⟩ | ⟨rfl, -⟩
    · exact absurd hcontains hfixed
    · exact absurd (Nat.zero_add (flashSize - appOffset) ▸ hcontains.2) halias
  | rcc => rw [State.writeDevice]; split <;> rfl
  | adc => rw [State.writeDevice]; split <;> rfl
  | stub name => rfl
  | sram => rfl
  | tim2 => rfl
  | spi name => rfl
  | dma => rfl
  | gpio name => rfl

/-- Stored bytes. -/
lemma store_eq {memory : ℕ → UInt8} {offset size off i : ℕ} {p : Prop} [Decidable p]
    (hp : p ↔ offset ≤ off ∧ off < offset + size) (hi : p → off - offset = i) :
    store memory offset size value off =
      (if p then some (byteOf value i) else none).getD (memory off) := by
  rw [store]
  by_cases hhit : p
  · rw [if_pos hhit, if_pos (hp.mp hhit), Option.getD_some, hi hhit]
  · rw [if_neg hhit, if_neg fun h => hhit (hp.mpr h), Option.getD_none]

/-- An access that begins below a limit ends there. -/
lemma Access.end_le (a : Access) {limit : ℕ} (hlimit : limit % 4 = 0) (h : a.addr < limit) :
    a.addr + a.size ≤ limit := by
  obtain ⟨hsize, halign⟩ := a.aligned
  rcases hsize with hsize | hsize | hsize
  all_goals
    rw [hsize] at halign ⊢
    omega

/-- A byte of the flash after a write is the one the write puts there, if it puts one.

**Proof sketch.** By where the access goes: to the flash at its own addresses, to the application
at address 0, or elsewhere. An access of aligned bytes lies in one of the three as a whole. -/
lemma flash_write (s : State) (a : Access) (value : UInt32) (happ : appOffset ≤ flashSize) {off : ℕ}
    (hoff : off < flashSize) : (s.write appOffset a value).flash off =
      (flashByte appOffset off (.write a value)).getD (s.flash off) := by
  have hbyte : flashByte appOffset off (.write a value) =
      if a.Covers (py32FlashBase + off) then some (byteOf value (py32FlashBase + off - a.addr))
      else if appOffset ≤ off ∧ a.Covers (off - appOffset) then
        some (byteOf value (off - appOffset - a.addr))
      else none := rfl
  have hlow := a.end_le (show py32FlashBase % 4 = 0 by decide)
  have hbelow : flashSize ≤ py32FlashBase := by decide
  rw [hbyte]
  by_cases hfixed : py32FlashBase ≤ a.addr ∧ a.addr < py32FlashBase + flashSize
  · have hwrite : (s.write appOffset a value).flash =
        store s.flash (0 + (a.addr - py32FlashBase)) a.size value := by
      rw [write_of_resolve s a value (resolve_flash hfixed.1 hfixed.2), State.writeDevice]
    have hnot : ¬ (appOffset ≤ off ∧ a.Covers (off - appOffset)) := by
      rw [Access.Covers]
      omega
    rw [hwrite, if_neg hnot]
    refine store_eq ?_ fun _ => ?_
    · rw [Access.Covers]
      omega
    · omega
  have hnot : ¬ a.Covers (py32FlashBase + off) := by
    rw [Access.Covers]
    omega
  rw [if_neg hnot]
  by_cases halias : a.addr < flashSize - appOffset
  · have hwrite : (s.write appOffset a value).flash =
        store s.flash (appOffset + (a.addr - 0)) a.size value := by
      rw [write_of_resolve s a value (resolve_alias halias), State.writeDevice]
    rw [hwrite]
    refine store_eq ?_ fun _ => ?_
    · rw [Access.Covers]
      omega
    · omega
  have hnot' : ¬ (appOffset ≤ off ∧ a.Covers (off - appOffset)) := by
    rw [Access.Covers]
    omega
  rw [if_neg hnot', Option.getD_none, flash_write_other s value hfixed halias]

/-- A read changes nothing but the flags of the converter. -/
lemma read_cases (s : State) (a : Access) :
    ∃ adc, (s.read appOffset a).2 = { s with adc := adc } := by
  rw [State.read]
  cases resolve (windows appOffset) a.addr with
  | none => exact ⟨s.adc, rfl⟩
  | some w =>
    rw [Option.elim_some, State.readDevice.eq_def]
    split
    · exact ⟨s.adc, rfl⟩
    · split <;> exact ⟨s.adc, rfl⟩
    · split
      · exact ⟨_, rfl⟩
      · exact ⟨s.adc, rfl⟩
    · split <;> exact ⟨s.adc, rfl⟩
    · exact ⟨s.adc, rfl⟩

/-- What is not part of the converter is as before. -/
lemma step_read {α : Type} (view : State → α) (h : ∀ s adc, view { s with adc := adc } = view s)
    (s : State) (a : Access) : view (s.step appOffset (.read a)) = view s := by
  obtain ⟨adc, hread⟩ : ∃ adc, (s.read appOffset a).2 = { s with adc := adc } := read_cases s a
  rw [State.step, hread]
  exact h s adc

/-- **A byte of the internal flash** after an event. -/
lemma flash_step (s : State) (happ : appOffset ≤ flashSize) {off : ℕ} (hoff : off < flashSize)
    (e : Event) :
    (s.step appOffset e).flash off = (flashByte appOffset off e).getD (s.flash off) := by
  cases e with
  | write a value => exact flash_write s a value happ hoff
  | read a => exact step_read (fun s => s.flash off) (fun _ _ => rfl) s a
  | erase ar whole =>
    rw [State.step, flashByte]
    cases eraseCall ar whole with
    | none => rfl
    | some call => exact apply_memset call s.flash off
  | adcResult value => rfl
  | reset loaded => rfl

/-- The window of the clock control. -/
lemma resolve_rcc {addr : ℕ} (hlow : 0x40021000 ≤ addr) (hhigh : addr < 0x40021400) :
    resolve (windows appOffset) addr = some ⟨0x40021000, 0x400, 0, .rcc⟩ :=
  resolve_named appOffset (List.mem_append_left _ mem_rcc) rfl ⟨hlow, hhigh⟩

/-- The window of the converter. -/
lemma resolve_adc {addr : ℕ} (hlow : 0x40012400 ≤ addr) (hhigh : addr < 0x40012800) :
    resolve (windows appOffset) addr = some ⟨0x40012400, 0x400, 0, .adc⟩ :=
  resolve_named appOffset (List.mem_append_left _ mem_adc) rfl ⟨hlow, hhigh⟩

/-- The window of a stub. -/
lemma resolve_stub {name : String} {base size : ℕ} (hstub : (name, base, size) ∈ py32Stubs)
    (hname : name ≠ "catchall") {addr : ℕ} (hlow : base ≤ addr) (hhigh : addr < base + size) :
    resolve (windows appOffset) addr = some (stubWindow (name, base, size)) := by
  have hmem : stubWindow (name, base, size) ∈ windows appOffset :=
    List.mem_append_left _ (mem_stub hstub)
  exact resolve_named appOffset hmem (if_neg hname) ⟨hlow, hhigh⟩

/-- A value that is there under a condition, and the one in its place. -/
lemma getD_ite {α : Type} (p : Prop) [Decidable p] (x y : α) :
    (if p then some x else none).getD y = if p then x else y := by
  split <;> rfl

/-- A write to the clock control block changes the word it is for, and no other. -/
lemma rccWrite_apply (regs : ℕ → UInt32) (addr : ℕ) (value : UInt32) {idx : ℕ} (hidx : idx < 0x40) :
    rccWrite regs addr value idx = if addr / 4 = idx then value else regs idx := by
  rw [rccWrite]
  by_cases hhit : addr / 4 = idx
  · rw [hhit, if_neg (Nat.not_le.mpr hidx), Function.update_self, if_pos rfl]
  · rw [if_neg hhit]
    split
    · rfl
    · exact Function.update_of_ne (Ne.symm hhit) _ _

/-- A write to a stub changes the word it is for, unless it is an order to the flash controller. -/
lemma stubWrite_apply (name : String) (regs : ℕ → UInt32) (addr : ℕ) (value : UInt32) {idx : ℕ}
    (hidx : idx < 0x100) : stubWrite name regs addr value idx =
      if addr / 4 = idx ∧ ¬ (name = "flash-ctl" ∧ addr ∈ flashCtlWrites) then value
      else regs idx := by
  rw [stubWrite]
  by_cases hctl : name = "flash-ctl" ∧ addr ∈ flashCtlWrites
  · rw [if_pos hctl, if_neg fun h => h.2 hctl]
  · rw [if_neg hctl]
    by_cases hhit : addr / 4 = idx
    · rw [hhit, if_pos hidx, Function.update_self, if_pos ⟨rfl, hctl⟩]
    · have hnot : ¬ (addr / 4 = idx ∧ ¬ (name = "flash-ctl" ∧ addr ∈ flashCtlWrites)) :=
        fun h => hhit h.1
      rw [if_neg hnot]
      split
      · exact Function.update_of_ne (Ne.symm hhit) _ _
      · rfl

/-- **A register of the clock control** after an event. -/
lemma rcc_step (s : State) {idx : ℕ} (hidx : idx < 0x40) (e : Event) :
    (s.step appOffset e).rcc idx = (rccWord idx e).getD (s.rcc idx) := by
  cases e with
  | write a value =>
    rw [State.step, rccWord]
    by_cases hin : 0x40021000 ≤ a.addr ∧ a.addr < 0x40021400
    · rw [write_of_resolve s a value (resolve_rcc hin.1 hin.2), State.writeDevice]
      by_cases hsize : a.size = 4
      · have halign := a.aligned.2
        rw [hsize] at halign
        have hhit : (a.addr - 0x40021000) / 4 = idx ↔
            a.size = 4 ∧ a.addr = 0x40021000 + 4 * idx := by omega
        rw [if_pos hsize, getD_ite]
        dsimp only
        rw [rccWrite_apply s.rcc _ value hidx]
        exact if_congr hhit rfl rfl
      · rw [if_neg hsize, if_neg fun h => hsize h.1, Option.getD_none]
    · rw [if_neg (by omega), Option.getD_none]
      refine view_write (fun s => s.rcc idx) s a value fun w hmem hcontains => ?_
      rw [State.writeDevice.eq_def]
      split
      · rfl
      · next hdevice =>
        rw [window_unique hmem mem_rcc hdevice rfl] at hcontains
        exact absurd hcontains hin
      · split <;> rfl
      · rfl
      · rfl
  | read a => exact step_read (fun s => s.rcc idx) (fun _ _ => rfl) s a
  | erase ar whole => rfl
  | adcResult value => rfl
  | reset loaded => rfl

/-- **A register of a stub** after an event. -/
lemma stub_step (s : State) {name : String} {base size idx : ℕ}
    (hstub : (name, base, size) ∈ py32Stubs) (hname : name ≠ "catchall") (hidx : idx < 0x100)
    (e : Event) :
    (s.step appOffset e).stub name idx = (stubWord name base idx e).getD (s.stub name idx) := by
  have hshape : ∀ stub ∈ py32Stubs, stub.2.1 % 4 = 0 ∧ 0x400 ≤ stub.2.2 := by decide
  obtain ⟨hbase, hsize⟩ : base % 4 = 0 ∧ 0x400 ≤ size := hshape _ hstub
  cases e with
  | write a value =>
    rw [State.step, stubWord]
    by_cases hin : base ≤ a.addr ∧ a.addr < base + size
    · have hresolve : resolve (windows appOffset) a.addr = some (stubWindow (name, base, size)) :=
        resolve_stub hstub hname hin.1 hin.2
      rw [write_of_resolve s a value hresolve]
      dsimp only [stubWindow, State.writeDevice]
      rw [Function.update_self, stubWrite_apply name _ _ _ hidx, getD_ite]
      refine if_congr (and_congr_left' ?_) rfl rfl
      omega
    · rw [if_neg (by omega), Option.getD_none]
      refine view_write (fun s => s.stub name idx) s a value fun w hmem hcontains => ?_
      rw [State.writeDevice.eq_def]
      split
      · rfl
      · split <;> rfl
      · split <;> rfl
      · next name' hdevice =>
        have hne : name ≠ name' := by
          rintro rfl
          rw [window_unique hmem (mem_stub hstub) hdevice rfl] at hcontains
          exact hin hcontains
        dsimp only
        rw [Function.update_of_ne hne]
      · rfl
  | read a => exact step_read (fun s => s.stub name idx) (fun _ _ => rfl) s a
  | erase ar whole => rfl
  | adcResult value => rfl
  | reset loaded => rfl

/-! ## The converter -/

/-- A write to the converter leaves its result. -/
lemma adcWrite_result (adc : Adc) (addr : ℕ) (value : UInt32) :
    (adcWrite adc addr value).result = adc.result := by
  rw [adcWrite]
  split
  · rfl
  split
  · dsimp only
    split <;> rfl
  split <;> rfl

/-- The status after a write of a word. -/
lemma adcWrite_status (adc : Adc) {addr : ℕ} (halign : addr % 4 = 0) (value : UInt32) :
    (adcWrite adc addr value).regs 0 =
      if addr = 0x08 ∧ bit value 0 = true then adc.regs 0 ||| (srEoc ||| srStrt)
      else if addr = 0x00 then adc.regs 0 &&& value else adc.regs 0 := by
  have hadon : value &&& cr2Adon ≠ 0 ↔ bit value 0 = true := and_mask_ne_zero_iff (by decide)
  rw [adcWrite]
  by_cases hfar : addr / 4 ≥ 0x20
  · rw [if_pos hfar, if_neg (by omega), if_neg (by omega)]
  rw [if_neg hfar]
  by_cases hcr : addr = 0x08
  · subst hcr
    by_cases hon : bit value 0 = true
    · rw [if_pos rfl, if_pos (hadon.mpr hon), if_pos ⟨rfl, hon⟩]
      rfl
    · rw [if_pos rfl, if_neg (mt hadon.mp hon), if_neg fun h => hon h.2, if_neg (by decide)]
      rfl
  have hnot : ¬ (addr = 0x08 ∧ bit value 0 = true) := fun h => hcr h.1
  rw [if_neg hcr, if_neg hnot]
  by_cases hsr : addr = 0x00
  · subst hsr
    rfl
  · rw [if_neg hsr, if_neg hsr]
    exact Function.update_of_ne (by omega) _ _

/-- The second control register after a write of a word. -/
lemma adcWrite_control (adc : Adc) {addr : ℕ} (halign : addr % 4 = 0) (value : UInt32) :
    (adcWrite adc addr value).regs 2 =
      if addr = 0x08 then value &&& ~~~(cr2Cal ||| cr2Rstcal) else adc.regs 2 := by
  rw [adcWrite]
  by_cases hfar : addr / 4 ≥ 0x20
  · rw [if_pos hfar, if_neg (by omega)]
  rw [if_neg hfar]
  by_cases hcr : addr = 0x08
  · subst hcr
    rw [if_pos rfl, if_pos rfl]
    split <;> rfl
  rw [if_neg hcr, if_neg hcr]
  by_cases hsr : addr = 0x00
  · subst hsr
    rfl
  · rw [if_neg hsr]
    exact Function.update_of_ne (by omega) _ _

/-- What a write does to the converter. -/
lemma adc_write (s : State) (a : Access) (value : UInt32) :
    (s.write appOffset a value).adc =
      if a.size = 4 ∧ 0x40012400 ≤ a.addr ∧ a.addr < 0x40012800 then
        adcWrite s.adc (a.addr - 0x40012400) value
      else s.adc := by
  by_cases hin : 0x40012400 ≤ a.addr ∧ a.addr < 0x40012800
  · rw [write_of_resolve s a value (resolve_adc hin.1 hin.2), State.writeDevice]
    by_cases hsize : a.size = 4
    · rw [if_pos hsize, if_pos ⟨hsize, hin⟩]
    · rw [if_neg hsize, if_neg fun h => hsize h.1]
  · rw [if_neg fun h => hin h.2]
    refine view_write State.adc s a value fun w hmem hcontains => ?_
    rw [State.writeDevice.eq_def]
    split
    · rfl
    · split <;> rfl
    · next hdevice =>
      rw [window_unique hmem mem_adc hdevice rfl] at hcontains
      exact absurd hcontains hin
    · rfl
    · rfl

/-- A word that is read from the converter may change it, and a narrower read does not. -/
lemma readDevice_adc (s : State) (a : Access) (addr : ℕ) :
    (s.readDevice a addr .adc).2.adc = if a.size = 4 then (adcRead s.adc addr).2 else s.adc := by
  rw [State.readDevice]
  split <;> rfl

/-- What a read does to the converter. -/
lemma adc_read (s : State) (a : Access) :
    (s.read appOffset a).2.adc =
      if a.size = 4 ∧ 0x40012400 ≤ a.addr ∧ a.addr < 0x40012800 then
        (adcRead s.adc (a.addr - 0x40012400)).2
      else s.adc := by
  by_cases hin : 0x40012400 ≤ a.addr ∧ a.addr < 0x40012800
  · rw [read_of_resolve s a (resolve_adc hin.1 hin.2), readDevice_adc]
    by_cases hsize : a.size = 4
    · rw [if_pos hsize, if_pos ⟨hsize, hin⟩]
    · rw [if_neg hsize, if_neg fun h => hsize h.1]
  · rw [if_neg fun h => hin h.2]
    refine view_read State.adc s a fun w hmem hcontains => ?_
    rw [State.readDevice.eq_def]
    split
    · rfl
    · split <;> rfl
    · next hdevice =>
      rw [window_unique hmem mem_adc hdevice rfl] at hcontains
      exact absurd hcontains hin
    · split <;> rfl
    · rfl

/-- **The result of the converter** after an event. -/
lemma result_step (s : State) (e : Event) :
    (s.step appOffset e).adc.result = (adcValue e).getD s.adc.result := by
  cases e with
  | write a value =>
    have hnone : adcValue (.write a value) = none := rfl
    rw [State.step, adc_write, hnone, Option.getD_none]
    split
    · exact adcWrite_result ..
    · rfl
  | read a =>
    have hnone : adcValue (.read a) = none := rfl
    rw [State.step, adc_read, hnone, Option.getD_none]
    split
    · rw [adcRead]
      split
      · rfl
      split <;> rfl
    · rfl
  | erase ar whole => rfl
  | adcResult value => rfl
  | reset loaded => rfl

/-- A conversion has ended. -/
def State.eoc (s : State) : Bool := bit (s.adc.regs 0) 1

/-- The flag after a write of a word. -/
lemma eoc_adcWrite (adc : Adc) {addr : ℕ} (halign : addr % 4 = 0) (value : UInt32) :
    bit ((adcWrite adc addr value).regs 0) 1 =
      if addr = 0x08 ∧ bit value 0 = true then true
      else if addr = 0x00 ∧ bit value 1 = false then false else bit (adc.regs 0) 1 := by
  have hset : bit (srEoc ||| srStrt) 1 = true := by decide
  rw [adcWrite_status adc halign value]
  by_cases hon : addr = 0x08 ∧ bit value 0 = true
  · rw [if_pos hon, if_pos hon, bit_or, hset, Bool.or_true]
  rw [if_neg hon, if_neg hon]
  by_cases hsr : addr = 0x00
  · rw [if_pos hsr, bit_and]
    cases hkeep : bit value 1 <;> simp [hsr]
  · rw [if_neg hsr, if_neg fun h => hsr h.1]

/-- The flag after a read of a word. -/
lemma eoc_adcRead (adc : Adc) {addr : ℕ} :
    bit ((adcRead adc addr).2.regs 0) 1 = if addr = 0x50 then false else bit (adc.regs 0) 1 := by
  have hclear : bit (~~~srEoc) 1 = false := by decide
  rw [adcRead]
  by_cases hfar : addr / 4 ≥ 0x20
  · rw [if_pos hfar, if_neg (by omega)]
  rw [if_neg hfar]
  by_cases hdr : addr = 0x50
  · rw [if_pos hdr, if_pos hdr]
    dsimp only
    rw [Function.update_self, bit_and, hclear, Bool.and_false]
  · rw [if_neg hdr, if_neg hdr]

/-- **The flag of the converter** after an event. -/
lemma eoc_step (s : State) (e : Event) : (s.step appOffset e).eoc = (adcEoc e).getD s.eoc := by
  cases e with
  | write a value =>
    rw [State.step, State.eoc, adc_write, adcEoc]
    by_cases hin : a.size = 4 ∧ 0x40012400 ≤ a.addr ∧ a.addr < 0x40012800
    · have halign := a.aligned.2
      rw [hin.1] at halign
      rw [if_pos hin, eoc_adcWrite s.adc (by omega) value]
      by_cases hon : a.addr = 0x40012408 ∧ bit value 0 = true
      · rw [if_pos ⟨by omega, hon.2⟩, if_pos ⟨hin.1, hon⟩, Option.getD_some]
      have hnot : ¬ (a.addr - 0x40012400 = 0x08 ∧ bit value 0 = true) :=
        fun h => hon ⟨by omega, h.2⟩
      have hnot' : ¬ (a.size = 4 ∧ a.addr = 0x40012408 ∧ bit value 0 = true) := fun h => hon h.2
      rw [if_neg hnot, if_neg hnot']
      by_cases hoff : a.addr = 0x40012400 ∧ bit value 1 = false
      · rw [if_pos ⟨by omega, hoff.2⟩, if_pos ⟨hin.1, hoff⟩, Option.getD_some]
      have hstays : ¬ (a.addr - 0x40012400 = 0x00 ∧ bit value 1 = false) :=
        fun h => hoff ⟨by omega, h.2⟩
      have hstays' : ¬ (a.size = 4 ∧ a.addr = 0x40012400 ∧ bit value 1 = false) := fun h => hoff h.2
      rw [if_neg hstays, if_neg hstays', Option.getD_none, State.eoc]
    · rw [if_neg hin, if_neg (by omega), if_neg (by omega), Option.getD_none, State.eoc]
  | read a =>
    rw [State.step, State.eoc, adc_read, adcEoc]
    by_cases hin : a.size = 4 ∧ 0x40012400 ≤ a.addr ∧ a.addr < 0x40012800
    · rw [if_pos hin, eoc_adcRead]
      by_cases hdr : a.addr = 0x40012450
      · rw [if_pos (by omega), if_pos ⟨hin.1, hdr⟩, Option.getD_some]
      · rw [if_neg (by omega), if_neg fun h => hdr h.2, Option.getD_none, State.eoc]
    · rw [if_neg hin, if_neg (by omega), Option.getD_none, State.eoc]
  | erase ar whole => rfl
  | adcResult value => rfl
  | reset loaded => exact bit_zero 1

/-- Neither calibration is going on. -/
def State.Calibrated (s : State) : Prop :=
  bit (s.adc.regs 2) 2 = false ∧ bit (s.adc.regs 2) 3 = false

/-- A calibration that was asked for is over at once. -/
lemma calibrated_step (h : s.Calibrated) (e : Event) : (s.step appOffset e).Calibrated := by
  cases e with
  | write a value =>
    rw [State.Calibrated, State.step, adc_write]
    by_cases hin : a.size = 4 ∧ 0x40012400 ≤ a.addr ∧ a.addr < 0x40012800
    · have halign := a.aligned.2
      rw [hin.1] at halign
      rw [if_pos hin, adcWrite_control s.adc (by omega) value]
      split
      · have hcal : bit (~~~(cr2Cal ||| cr2Rstcal)) 2 = false := by decide
        have hrstcal : bit (~~~(cr2Cal ||| cr2Rstcal)) 3 = false := by decide
        rw [bit_and, bit_and, hcal, hrstcal, Bool.and_false, Bool.and_false]
        exact ⟨rfl, rfl⟩
      · exact h
    · rw [if_neg hin]
      exact h
  | read a =>
    have hkeeps (adc : Adc) (addr : ℕ) : (adcRead adc addr).2.regs 2 = adc.regs 2 := by
      rw [adcRead]
      split
      · rfl
      split <;> rfl
    rw [State.Calibrated, State.step, adc_read]
    split
    · rw [hkeeps]
      exact h
    · exact h
  | erase ar whole => exact h
  | adcResult value => exact h
  | reset loaded => exact ⟨bit_zero 2, bit_zero 3⟩

end Step

/-! ## What is read -/

/-- A load depends on the bytes it covers only. -/
lemma load_congr {memory memory' : ℕ → UInt8} {offset size : ℕ}
    (h : ∀ i, offset ≤ i → i < offset + size → memory i = memory' i) :
    load memory offset size = load memory' offset size := by
  rw [load, load]
  congr 2
  refine List.map_congr_left fun i hi => ?_
  rw [List.mem_range] at hi
  exact h _ (by omega) (by omega)

/-- A read of the clock control block depends on its 64 words only. -/
lemma rccRead_congr {regs regs' : ℕ → UInt32} (h : ∀ idx < 0x40, regs idx = regs' idx) (addr : ℕ) :
    rccRead regs addr = rccRead regs' addr := by
  rw [rccRead, rccRead]
  by_cases hfar : addr / 4 ≥ 0x40
  · rw [if_pos hfar, if_pos hfar]
  · rw [if_neg hfar, if_neg hfar, h _ (Nat.not_le.mp hfar)]

/-- The oscillators: where each is turned on, and where it says that it is ready. -/
def oscillators : List (ℕ × ℕ) := [(8, 10), (16, 17), (24, 25)]

/-- A clock that is switched on is ready, and every other bit is as it was. -/
lemma bit_ready (w : UInt32) {on ready : ℕ} (hon : on < 32) (hready : ready < 32) (i : ℕ) :
    bit (if w &&& mask on ≠ 0 then w ||| mask ready else w) i =
      (bit w i || bit w on && decide (ready = i)) := by
  have hset := and_mask_ne_zero_iff (w := w) hon
  split
  · next hbit => rw [bit_or, bit_mask hready, hset.mp hbit, Bool.true_and]
  · next hbit =>
    rw [Bool.eq_false_of_not_eq_true (mt hset.mpr hbit), Bool.false_and, Bool.or_false]

/-- An oscillator that is on is ready. -/
lemma rccRead_ready (regs : ℕ → UInt32) {on ready : ℕ} (h : (on, ready) ∈ oscillators)
    (hon : bit (rccRead regs 0x00) on = true) : bit (rccRead regs 0x00) ready = true := by
  have hread (i : ℕ) : bit (rccRead regs 0x00) i =
      (bit (regs 0) i || bit (regs 0) 8 && decide (10 = i) || bit (regs 0) 16 && decide (17 = i) ||
        bit (regs 0) 24 && decide (25 = i) || decide (1 = i)) := by
    rw [rccRead]
    dsimp only
    rw [if_neg (by decide), if_pos rfl]
    simp (disch := decide) only [bit_or, bit_mask, bit_ready]
    simp
  simp only [oscillators, List.mem_cons, Prod.mk.injEq, List.not_mem_nil, or_false] at h
  rw [hread] at hon ⊢
  rcases h with ⟨rfl, rfl⟩ | ⟨rfl, rfl⟩ | ⟨rfl, rfl⟩
  · have hset : bit (regs 0) 8 = true := by simpa using hon
    simp [hset]
  · have hset : bit (regs 0) 16 = true := by simpa using hon
    simp [hset]
  · have hset : bit (regs 0) 24 = true := by simpa using hon
    simp [hset]

/-- The switch of the clock is where it was asked to be. -/
lemma rccRead_switch (regs : ℕ → UInt32) {i : ℕ} (hi : i < 3) :
    bit (rccRead regs 0x08) (3 + i) = bit (rccRead regs 0x08) i := by
  have hread : rccRead regs 0x08 =
      (regs 2 &&& ~~~(0x38 : UInt32)) ||| ((regs 2 &&& 0x7) <<< (3 : UInt32)) := rfl
  rw [hread]
  interval_cases i <;> simp [bit]

section Read

variable {appOffset : ℕ} {a : Access}

/-- A read from the flash loads its bytes. -/
lemma read_flash (s : State) (hlow : py32FlashBase ≤ a.addr)
    (hhigh : a.addr < py32FlashBase + flashSize) :
    (s.read appOffset a).1 = some (load s.flash (a.addr - py32FlashBase) a.size) := by
  rw [read_of_resolve s a (resolve_flash hlow hhigh), State.readDevice, Nat.zero_add]

/-- A read from address zero on loads the bytes of the application in the flash. -/
lemma read_alias (s : State) (h : a.addr < flashSize - appOffset) :
    (s.read appOffset a).1 = some (load s.flash (appOffset + a.addr) a.size) := by
  rw [read_of_resolve s a (resolve_alias h), State.readDevice]
  rfl

/-- A word from the window of the clock control block is read from that block. -/
lemma read_rcc (s : State) (hsize : a.size = 4) (hlow : 0x40021000 ≤ a.addr)
    (hhigh : a.addr < 0x40021400) :
    (s.read appOffset a).1 = some (rccRead s.rcc (a.addr - 0x40021000)) := by
  rw [read_of_resolve s a (resolve_rcc hlow hhigh), State.readDevice, if_pos hsize]

/-- A word that is read from the converter is what it answers. -/
lemma readDevice_adc_fst (s : State) (hsize : a.size = 4) (addr : ℕ) :
    (s.readDevice a addr .adc).1 = some (adcRead s.adc addr).1 := by
  rw [State.readDevice, if_pos hsize]

/-- A word from the window of the converter is read from the converter. -/
lemma read_adc (s : State) (hsize : a.size = 4) (offset : ℕ) (haddr : a.addr = 0x40012400 + offset)
    (hoffset : offset < 0x400) : (s.read appOffset a).1 = some (adcRead s.adc offset).1 := by
  have hin : a.addr - 0x40012400 = offset := by omega
  rw [read_of_resolve s a (resolve_adc (by omega) (by omega)), readDevice_adc_fst s hsize]
  dsimp only
  rw [hin]

/-- A read from the window of a stub gives the word that was stored there. -/
lemma read_stub (s : State) {w : Window Device}
    (hresolve : resolve (windows appOffset) a.addr = some w) {name : String}
    (hdevice : w.device = .stub name) (hhere : ¬ Elsewhere name (a.addr - w.base)) :
    (s.read appOffset a).1 = some (a.masked (stubRead (s.stub name) (a.addr - w.base))) := by
  rw [read_of_resolve s a hresolve, hdevice, State.readDevice, if_neg hhere]

/-- The device behind the others has no register that it is ever asked for. -/
lemma read_catchall (s : State) (hlow : 0x40000000 ≤ a.addr) (hhigh : a.addr < 0x40080000)
    (hnone : ∀ w ∈ windows appOffset, w.Contains a.addr → w.priority ≠ 0) :
    (s.read appOffset a).1 = some 0 := by
  have htim2 : (⟨0x40000000, 0x400, 0, .tim2⟩ : Window Device) ∈ fixedWindows := by
    simp [fixedWindows]
  have hbehind : ¬ a.addr < 0x40000400 := fun h =>
    hnone _ (List.mem_append_left _ htim2) ⟨hlow, h⟩ rfl
  have hzero : stubRead (s.stub "catchall") (a.addr - 0x40000000) = 0 := if_neg (by omega)
  have hhere : ¬ Elsewhere "catchall" (a.addr - 0x40000000) := by
    rintro (⟨hname, -⟩ | ⟨hname, -⟩)
    · exact absurd hname (by decide)
    · exact absurd hname (by decide)
  rw [read_stub s (resolve_catchall appOffset hlow hhigh hnone) rfl hhere]
  have hmasked : a.masked 0 = 0 := by simp [Access.masked]
  exact congrArg some ((congrArg a.masked hzero).trans hmasked)

end Read

/-! ## Reading what was written -/

/-- What an access finds after some events: what was last given to the place, or what was there
before. -/
structure Reads (appOffset : ℕ) (s : State) (es : List Event) (a : Access)
    (found : Option UInt32) : Prop where
  /-- The flash. -/
  flash : py32FlashBase ≤ a.addr → a.addr < py32FlashBase + flashSize → found = some
    (load (fun off => Run.lastOr (flashByte appOffset off) (s.flash off) es)
      (a.addr - py32FlashBase) a.size)
  /-- The flash, where it shows at address 0. -/
  app : a.addr + a.size ≤ flashSize - appOffset → found = some
    (load (fun off => Run.lastOr (flashByte appOffset off) (s.flash off) es)
      (appOffset + a.addr) a.size)
  /-- A register that keeps what is written to it. -/
  stub : ∀ name base size, (name, base, size) ∈ py32Stubs → name ≠ "catchall" →
    base ≤ a.addr → a.addr < base + size → ¬ Elsewhere name (a.addr - base) → found = some
      (a.masked (stubRead (fun idx => Run.lastOr (stubWord name base idx) (s.stub name idx) es)
        (a.addr - base)))
  /-- No named device. -/
  behind : 0x40000000 ≤ a.addr → a.addr < 0x40080000 →
    (∀ w ∈ windows appOffset, w.Contains a.addr → w.priority ≠ 0) → found = some 0
  /-- A register of the clock control. -/
  clock : a.size = 4 → 0x40021000 ≤ a.addr → a.addr < 0x40021400 → found = some
    (rccRead (fun idx => Run.lastOr (rccWord idx) (s.rcc idx) es) (a.addr - 0x40021000))
  /-- The clock control: every oscillator that is on is ready. -/
  ready : a.size = 4 → a.addr = 0x40021000 → ∃ w, found = some w ∧
    ∀ p ∈ oscillators, bit w p.1 = true → bit w p.2 = true
  /-- The clock control: the switch is where it was asked to be. -/
  switch : a.size = 4 → a.addr = 0x40021008 → ∃ w, found = some w ∧
    ∀ i < 3, bit w (3 + i) = bit w i
  /-- The converter: its result. -/
  result : a.size = 4 → a.addr = 0x40012450 → found = some (Run.lastOr adcValue s.adc.result es)
  /-- The converter: a conversion has ended. -/
  ended : a.size = 4 → a.addr = 0x40012400 → ∃ w, found = some w ∧
    bit w 1 = Run.lastOr adcEoc s.eoc es
  /-- The converter: no calibration is going on. -/
  calibrated : s.Calibrated → a.size = 4 → a.addr = 0x40012408 → ∃ w, found = some w ∧
    bit w 2 = false ∧ bit w 3 = false

section LastWritten

variable {appOffset : ℕ}

/-- After a run a byte of the flash is the one that was put there last. -/
lemma flash_run (happ : appOffset ≤ flashSize) (s : State) (es : List Event) {off : ℕ}
    (hoff : off < flashSize) : (es.foldl (State.step appOffset) s).flash off =
      Run.lastOr (flashByte appOffset off) (s.flash off) es :=
  Run.foldl_eq_lastOr (fun s : State => s.flash off) (fun s e => flash_step s happ hoff e) es s

/-- After a run a word of the clock control block is the one that was written last. -/
lemma rcc_run (s : State) (es : List Event) {idx : ℕ} (hidx : idx < 0x40) :
    (es.foldl (State.step appOffset) s).rcc idx = Run.lastOr (rccWord idx) (s.rcc idx) es :=
  Run.foldl_eq_lastOr (fun s : State => s.rcc idx) (fun s e => rcc_step s hidx e) es s

/-- After a run a word of a stub is the one that was written last. -/
lemma stub_run (s : State) (es : List Event) {name : String} {base size : ℕ}
    (hstub : (name, base, size) ∈ py32Stubs) (hname : name ≠ "catchall") (addr : ℕ) :
    stubRead ((es.foldl (State.step appOffset) s).stub name) addr =
      stubRead (fun idx => Run.lastOr (stubWord name base idx) (s.stub name idx) es) addr := by
  rw [stubRead, stubRead]
  refine ite_congr rfl (fun hidx => ?_) fun _ => rfl
  exact Run.foldl_eq_lastOr (fun s : State => s.stub name (addr / 4))
    (fun s e => stub_step s hstub hname hidx e) es s

/-- A converter that is calibrated stays so in every run. -/
lemma calibrated_run {s : State} (h : s.Calibrated) (es : List Event) :
    (es.foldl (State.step appOffset) s).Calibrated := by
  induction es generalizing s with
  | nil => exact h
  | cons e es ih => exact ih (calibrated_step h e)

/-- **The machine reads what was last written.** After any events, in any order, whatever a read
finds in the flash, in a register that only keeps what is written to it, in the clock control or in
the converter is what was last given to that very place, as long as the application begins in the
flash; and the flags that the guest waits for are set.

**Proof sketch.** One step lemma for each kind of register says what an event puts there, if
anything. The run lemma then is that of a cell: it holds what the last event gave it. What a read
of the device makes of its cells is the lemma on that read. -/
theorem reads_last_written (happ : appOffset ≤ flashSize) (s : State) (es : List Event)
    (a : Access) :
    Reads appOffset s es a ((es.foldl (State.step appOffset) s).read appOffset a).1 where
  flash hlow hhigh := by
    have hend := a.end_le (show (py32FlashBase + flashSize) % 4 = 0 by decide) hhigh
    rw [read_flash _ hlow hhigh]
    exact congrArg some (load_congr fun i _ hi => flash_run happ s es (by omega))
  app hend := by
    have hsize := a.aligned.1
    rw [read_alias _ (by omega)]
    exact congrArg some (load_congr fun i _ hi => flash_run happ s es (by omega))
  stub name base size hstub hname hlow hhigh hhere := by
    rw [read_stub _ (resolve_stub hstub hname hlow hhigh) rfl hhere]
    exact congrArg (fun w => some (a.masked w)) (stub_run s es hstub hname _)
  behind hlow hhigh hnone := read_catchall _ hlow hhigh hnone
  clock hsize hlow hhigh := by
    rw [read_rcc _ hsize hlow hhigh]
    exact congrArg some (rccRead_congr (fun idx hidx => rcc_run s es hidx) _)
  ready hsize haddr := by
    rw [read_rcc _ hsize (by omega) (by omega), haddr]
    exact ⟨_, rfl, fun p hp => rccRead_ready _ hp⟩
  switch hsize haddr := by
    rw [read_rcc _ hsize (by omega) (by omega), haddr]
    exact ⟨_, rfl, fun i hi => rccRead_switch _ hi⟩
  result hsize haddr := by
    rw [read_adc _ hsize 0x50 haddr (by decide)]
    exact congrArg some (Run.foldl_eq_lastOr (fun s : State => s.adc.result) result_step es s)
  ended hsize haddr := by
    rw [read_adc _ hsize 0x00 haddr (by decide)]
    exact ⟨_, rfl, Run.foldl_eq_lastOr State.eoc eoc_step es s⟩
  calibrated h hsize haddr := by
    rw [read_adc _ hsize 0x08 haddr (by decide)]
    exact ⟨_, rfl, calibrated_run h es⟩

/-- A word at a multiple of four is an access the guest may make. -/
lemma word_aligned {addr : ℕ} (h : addr % 4 = 0) :
    ((4 = 1 ∨ 4 = 2 ∨ 4 = 4) ∧ addr % 4 = 0) := ⟨.inr (.inr rfl), h⟩

/-- The word at an address. -/
def word (addr : ℕ) (h : addr % 4 = 0) : Access := ⟨addr, 4, word_aligned h⟩

/-- Where the application begins, unless the user says otherwise. -/
lemma sniffAppOffset_le (file : Option (List UInt8)) : Image.sniffAppOffset file ≤ flashSize := by
  cases file with
  | none => decide
  | some data =>
    rw [Image.sniffAppOffset]
    split_ifs <;> decide

/-- The flash is empty, and nothing was written to a register. -/
def powerUp : State := ⟨fun _ => 0xff, rccReset, adcReset, fun _ _ => 0⟩

/-- `RCC->CR` is at a multiple of four. -/
lemma cr_aligned : 0x40021000 % 4 = 0 := rfl

/-- `RCC->CFGR` is at a multiple of four. -/
lemma cfgr_aligned : 0x40021008 % 4 = 0 := rfl

/-- The PLL is turned on, and the clock is switched to it. -/
def switched : List Event :=
  [.write (word 0x40021000 cr_aligned) 0x01000100, .write (word 0x40021008 cfgr_aligned) 0x2]

/-- The guest finds that it has happened. -/
theorem reads_switched :
    ((switched.foldl (State.step (Image.sniffAppOffset none)) powerUp).read
      (Image.sniffAppOffset none) (word 0x40021008 cfgr_aligned)).1 = some 0x12 := by
  have hread := (reads_last_written (sniffAppOffset_le none) powerUp switched
    (word 0x40021008 cfgr_aligned)).clock rfl (by decide) (by decide)
  rw [hread]
  decide

end LastWritten

end Uvk5.MemoryMap
