import Uvk5.Display.Panel
import Uvk5.Dma.Spi
import Uvk5.Flash.Frame

set_option relaxedAutoImplicit false
set_option autoImplicit false

/-!
# The devices at the SPI controllers (`qemu/py32f071.c`)

The panel is wired to SPI1 and the serial flash to SPI2. A driver opens a chip-select frame, sends a
command through the data register, and lets the DMA controller move the bytes that follow.

## Main definitions

* `Dma.exchange` — some bytes through a device; `Dma.stored` — bytes a channel stores.
* `Dma.Device`, `Dma.Board` — the devices, and the board with the backing file of the flash.
* `Dma.Board.transfer` — a frame of the flash with a DMA transfer in it.
* `Dma.sendPage` — a page of the panel, its pixels by DMA.

## Main results

* `Dma.polled_eq` — what a transfer sends and stores.
* `Dma.transfer_eq_frame` — a frame with a transfer is a frame of bytes.
* `Dma.flash_read_by_dma`, `Dma.flash_program_then_read` — reading, and programming first.
* `Dma.sendPage_eq` — a page of the panel.
-/

namespace Uvk5.Dma

open PY25Q16 (Machine Host)

variable {δ : Type}

/-! ## Bytes through a device -/

/-- Some bytes through a transfer function: what comes back, and the device. -/
def exchange (f : δ → UInt8 → UInt8 × δ) : δ → List UInt8 → List UInt8 × δ
  | d, [] => ([], d)
  | d, b :: bs => ((f d b).1 :: (exchange f (f d b).2 bs).1, (exchange f (f d b).2 bs).2)

/-- For every byte that is sent one comes back. -/
@[simp] lemma length_exchange (f : δ → UInt8 → UInt8 × δ) (d : δ) (bs : List UInt8) :
    (exchange f d bs).1.length = bs.length := by
  induction bs generalizing d with
  | nil => rfl
  | cons b bs ih => rw [exchange, List.length_cons, ih, List.length_cons]

/-- Some bytes are exchanged, and then others. -/
lemma exchange_append (f : δ → UInt8 → UInt8 × δ) (d : δ) (bs cs : List UInt8) :
    exchange f d (bs ++ cs) = ((exchange f d bs).1 ++ (exchange f (exchange f d bs).2 cs).1,
      (exchange f (exchange f d bs).2 cs).2) := by
  induction bs generalizing d with
  | nil => rfl
  | cons b bs ih => rw [List.cons_append, exchange, ih, exchange, List.cons_append]

/-- The memory after a channel has stored some bytes. -/
def stored (c : Channel) (bytes : List UInt8) (memory : UInt32 → UInt8) : UInt32 → UInt8 :=
  bytes.zipIdx.foldl (fun memory p => Function.update memory (c.address p.2) p.1) memory

/-- The last byte is stored behind the others. -/
lemma stored_append (c : Channel) (bytes : List UInt8) (b : UInt8) (memory : UInt32 → UInt8) :
    stored c (bytes ++ [b]) memory =
      Function.update (stored c bytes memory) (c.address bytes.length) b := by
  rw [stored, List.zipIdx_append, List.foldl_append, Nat.zero_add]
  rfl

/-- Other addresses are left alone. -/
lemma stored_of_ne (c : Channel) (bytes : List UInt8) (memory : UInt32 → UInt8) {a : UInt32}
    (h : ∀ i < bytes.length, c.address i ≠ a) : stored c bytes memory a = memory a := by
  induction bytes using List.reverseRecOn with
  | nil => rfl
  | append_singleton bytes b ih =>
    rw [List.length_append, List.length_singleton] at h
    have hlast : c.address bytes.length ≠ a := h bytes.length (by omega)
    rw [stored_append, Function.update_of_ne hlast.symm]
    exact ih fun i hi => h i (by omega)

/-- With `MINC` set the bytes go to different addresses. -/
lemma address_inj {c : Channel} (hminc : c.ccr &&& ccrMinc ≠ 0) {i j : ℕ} (hi : i < 2 ^ 32)
    (hj : j < 2 ^ 32) (h : c.address i = c.address j) : i = j := by
  rw [Channel.address, Channel.address, if_pos hminc, if_pos hminc, UInt32.add_right_inj] at h
  have hnat := congrArg UInt32.toNat h
  rwa [UInt32.toNat_ofNat', UInt32.toNat_ofNat', Nat.mod_eq_of_lt hi, Nat.mod_eq_of_lt hj] at hnat

/-- They are all there then. -/
lemma stored_address {c : Channel} (hminc : c.ccr &&& ccrMinc ≠ 0) {bytes : List UInt8}
    (memory : UInt32 → UInt8) (hlength : bytes.length ≤ 2 ^ 32) {i : ℕ} (hi : i < bytes.length) :
    stored c bytes memory (c.address i) = bytes[i] := by
  induction bytes using List.reverseRecOn with
  | nil => cases hi
  | append_singleton bytes b ih =>
    rw [List.length_append, List.length_singleton] at hlength
    rw [stored_append]
    rcases Nat.lt_or_ge i bytes.length with hin | hout
    · have hne : c.address i ≠ c.address bytes.length := fun h => by
        have heq := address_inj hminc (by omega) (by omega) h
        omega
      rw [Function.update_of_ne hne, ih (by omega) hin, List.getElem_append_left hin]
    · obtain rfl : i = bytes.length := by
        rw [List.length_append, List.length_singleton] at hi
        omega
      rw [Function.update_self, List.getElem_concat_length]
      rfl

/-! ## What a transfer sends and stores -/

/-- Some bytes have come back from a device for some that were sent. -/
structure Sent (k : Fin 2) (f : δ → UInt8 → UInt8 × δ) (rx : Option Channel) (bytes : List UInt8)
    (s s' : Soc δ) : Prop where
  xfer : (s'.spi k).xfer = some f
  device : (s'.spi k).device = (exchange f (s.spi k).device bytes).2
  memory : s'.dma.memory = rx.elim s.dma.memory fun c =>
    stored c (exchange f (s.spi k).device bytes).1 s.dma.memory

section Polled

variable {k : Fin 2} {f : δ → UInt8 → UInt8 × δ} {tx : Channel} {rx : Option Channel}

/-- One more byte. -/
lemma Sent.pollByte {bytes : List UInt8} {s s' : Soc δ} (h : Sent k f rx bytes s s') :
    Sent k f rx (bytes ++ [s'.dma.memory (tx.address bytes.length)]) s
      (pollByte k tx rx s' bytes.length) := by
  have hvalue : ∀ b : UInt8, b.toUInt32.toUInt8 = b := fun b => UInt8.toUInt8_toUInt32 b
  have hxfer := h.xfer
  have hdevice := h.device
  have hmemory := h.memory
  cases rx with
  | none =>
    refine ⟨?_, ?_, ?_⟩
    · simp [Dma.pollByte, writeSpi, readSpi, Soc.setSpi, Spi.writeDr, Spi.readDr, Spi.xferByte,
        hxfer]
    · simp [Dma.pollByte, writeSpi, readSpi, Soc.setSpi, Spi.writeDr, Spi.readDr, Spi.xferByte,
        hxfer, hvalue, hdevice, exchange_append, exchange]
    · exact hmemory
  | some c =>
    refine ⟨?_, ?_, ?_⟩
    · simp [Dma.pollByte, writeSpi, readSpi, Soc.setSpi, Soc.setByte, Spi.writeDr, Spi.readDr,
        Spi.xferByte, hxfer]
    · simp [Dma.pollByte, writeSpi, readSpi, Soc.setSpi, Soc.setByte, Spi.writeDr, Spi.readDr,
        Spi.xferByte, hxfer, hvalue, hdevice, exchange_append, exchange]
    · simp [Dma.pollByte, writeSpi, readSpi, Soc.setSpi, Soc.setByte, Spi.writeDr, Spi.readDr,
        Spi.xferByte, hxfer, hvalue, hdevice, hmemory, exchange_append, exchange, stored_append]

/-- **What a transfer sends**: as many bytes as it counts, each the one at its address unless one
that came back has overwritten it.

**Proof sketch.** Induction on the number of bytes, from the last one. -/
theorem polled_eq (tx : Channel) (rx : Option Channel) {s : Soc δ}
    (hxfer : (s.spi k).xfer = some f) (n : ℕ) :
    ∃ bytes, bytes.length = n ∧ Sent k f rx bytes s (polled k tx rx n s) ∧
      ∀ i < n, (∀ c ∈ rx, ∀ j < i, c.address j ≠ tx.address i) →
        bytes[i]? = some (s.dma.memory (tx.address i)) := by
  induction n with
  | zero =>
    refine ⟨[], rfl, ⟨hxfer, rfl, ?_⟩, fun i hi => absurd hi (Nat.not_lt_zero i)⟩
    cases rx <;> rfl
  | succ n ih =>
    obtain ⟨bytes, rfl, hsent, hbytes⟩ := ih
    rw [polled, List.range_succ, List.foldl_append]
    refine ⟨_, ?_, hsent.pollByte, fun i hi hfresh => ?_⟩
    · rw [List.length_append, List.length_singleton]
    · rcases Nat.lt_or_ge i bytes.length with hin | hout
      · rw [List.getElem?_append_left hin]
        exact hbytes i hin hfresh
      · obtain rfl : i = bytes.length := by omega
        have hmemory := hsent.memory
        rw [List.getElem?_concat_length, Option.some.injEq, hmemory]
        cases rx with
        | none => rfl
        | some c =>
          refine stored_of_ne c _ _ fun j hj => hfresh c rfl j ?_
          rwa [length_exchange] at hj

end Polled

/-! ## The board -/

/-- What is attached to a controller. -/
inductive Device where
  /-- The display controller. -/
  | panel (s : Panel.State)
  /-- The serial flash. -/
  | flash (s : PY25Q16.State)

/-- `st7565_xfer` or `py25q16_xfer`. -/
def Device.xfer : Device → UInt8 → UInt8 × Device
  | .panel s, out => ((Panel.xfer s out).1, .panel (Panel.xfer s out).2)
  | .flash s, out => ((PY25Q16.xfer s out).1, .flash (PY25Q16.xfer s out).2)

/-- Bytes through the flash. -/
lemma exchange_flash (c : PY25Q16.State) (bytes : List UInt8) :
    exchange Device.xfer (.flash c) bytes =
      ((PY25Q16.xfers c bytes).1, .flash (PY25Q16.xfers c bytes).2) := by
  induction bytes generalizing c with
  | nil => rfl
  | cons b bytes ih => simp only [exchange, Device.xfer, ih, PY25Q16.xfers]

/-- Some bytes are passed to the flash, and then others. -/
lemma xfers_append (c : PY25Q16.State) (bytes more : List UInt8) :
    PY25Q16.xfers c (bytes ++ more) =
      ((PY25Q16.xfers c bytes).1 ++ (PY25Q16.xfers (PY25Q16.xfers c bytes).2 more).1,
        (PY25Q16.xfers (PY25Q16.xfers c bytes).2 more).2) := by
  induction bytes generalizing c with
  | nil => rfl
  | cons b bytes ih => rw [List.cons_append, PY25Q16.xfers, ih, PY25Q16.xfers, List.cons_append]

/-- The flash answers every byte with one. -/
lemma length_xfers (c : PY25Q16.State) (bytes : List UInt8) :
    (PY25Q16.xfers c bytes).1.length = bytes.length := by
  induction bytes generalizing c with
  | nil => rfl
  | cons b bytes ih => rw [PY25Q16.xfers, List.length_cons, ih, List.length_cons]

/-- The controllers with their devices, and the backing file of the flash. -/
structure Board where
  /-- The controllers. -/
  soc : Soc Device
  /-- The backing file. -/
  file : Option (List UInt8)

/-- The chip-select line of the flash, which is PA3. -/
def Board.setFlashCs (b : Board) (level : Bool) (io : Host) : Board :=
  match (b.soc.spi 1).device with
  | .panel _ => b
  | .flash c =>
    let m := PY25Q16.setCs ⟨c, b.file⟩ level io
    { soc := b.soc.setSpi 1 { b.soc.spi 1 with device := .flash m.chip }, file := m.file }

/-- Write a byte to the data register and read the one that comes back. -/
def sendByte (k : Fin 2) (s : Soc δ) (b : UInt8) : Soc δ :=
  (readSpi k 0x0c (writeSpi k 0x0c b.toUInt32 s)).2

/-- A frame of the flash: some bytes through the data register, then the write to a control register
that starts the channels. -/
def Board.transfer (b : Board) (header : List UInt8) (r : Control) (value : UInt32) (io : Host) :
    Board :=
  let b := b.setFlashCs false io
  let b := { b with soc := writeSpi 1 r.addr value (header.foldl (sendByte 1) b.soc) }
  b.setFlashCs true io

/-- The flash of the board, with its file. -/
structure Board.Flash (b : Board) (m : Machine) : Prop where
  xfer : (b.soc.spi 1).xfer = some Device.xfer
  device : (b.soc.spi 1).device = .flash m.chip
  file : b.file = m.file

/-- The chip-select line reaches the flash, and leaves the channels. -/
lemma Board.Flash.setFlashCs {b : Board} {m : Machine} (h : b.Flash m) (level : Bool) (io : Host) :
    (b.setFlashCs level io).Flash (PY25Q16.setCs m level io) ∧
      (b.setFlashCs level io).soc.dma = b.soc.dma := by
  have hmachine : (⟨m.chip, b.file⟩ : Machine) = m := by rw [h.file]
  rw [Board.setFlashCs, h.device]
  dsimp only
  rw [hmachine]
  refine ⟨⟨?_, ?_, rfl⟩, rfl⟩
  · simp [Soc.setSpi, h.xfer]
  · simp [Soc.setSpi]

/-- What is sent through the data register. -/
lemma foldl_sendByte {k : Fin 2} {f : δ → UInt8 → UInt8 × δ} (header : List UInt8) {s : Soc δ}
    (hxfer : (s.spi k).xfer = some f) :
    ((header.foldl (sendByte k) s).spi k).xfer = some f ∧
      ((header.foldl (sendByte k) s).spi k).device = (exchange f (s.spi k).device header).2 ∧
      ((header.foldl (sendByte k) s).spi k).cr1 = (s.spi k).cr1 ∧
      ((header.foldl (sendByte k) s).spi k).cr2 = (s.spi k).cr2 ∧
      (header.foldl (sendByte k) s).dma = s.dma := by
  induction header generalizing s with
  | nil => exact ⟨hxfer, rfl, rfl, rfl, rfl⟩
  | cons b header ih =>
    have hbyte : ((sendByte k s b).spi k).xfer = some f ∧
        ((sendByte k s b).spi k).device = (f (s.spi k).device b).2 ∧
        ((sendByte k s b).spi k).cr1 = (s.spi k).cr1 ∧
        ((sendByte k s b).spi k).cr2 = (s.spi k).cr2 ∧ (sendByte k s b).dma = s.dma := by
      simp [sendByte, writeSpi, readSpi, Soc.setSpi, Spi.writeDr, Spi.readDr, Spi.xferByte, hxfer]
    obtain ⟨hx, hd, h1, h2, hdma⟩ := hbyte
    obtain ⟨hx', hd', h1', h2', hdma'⟩ := ih hx
    refine ⟨hx', ?_, h1'.trans h1, h2'.trans h2, hdma'.trans hdma⟩
    rw [List.foldl_cons, hd', hd]
    rfl

/-- A request depends on the two control registers. -/
lemma requests_congr {k : Fin 2} {s s' : Soc δ} (h1 : (s'.spi k).cr1 = (s.spi k).cr1)
    (h2 : (s'.spi k).cr2 = (s.spi k).cr2) {r : Control} {value : UInt32}
    (h : (s.setControl k r value).Requests k) : (s'.setControl k r value).Requests k := by
  cases r with
  | cr1 => simpa [Soc.Requests, Soc.setControl, Soc.setSpi, h2] using h
  | cr2 => simpa [Soc.Requests, Soc.setControl, Soc.setSpi, h1] using h

/-- Two channels are armed for the flash, which has the latch set. -/
def smallDma : State where
  isr := 0
  ch := fun i =>
    if i = 4 then ⟨ccrEn ||| ccrDir ||| ccrMinc, 2, 0x4000380c, 0x20000000, 2⟩
    else if i = 3 then ⟨ccrEn ||| ccrMinc, 2, 0x4000380c, 0x20000100, 2⟩
    else ⟨0, 0, 0, 0, 0⟩
  irq123 := false
  irq4567 := false
  usart1 := ⟨fun _ => 0, 0, 0⟩
  memory := fun a => a.toUInt8

/-- A flash without a file, the latch set. -/
def smallMachine : Machine :=
  { PY25Q16.realize none none with
    chip := { (PY25Q16.realize none none).chip with writeEnabled := true } }

/-- A board with the flash alone. -/
def smallBoard : Board where
  soc :=
    { spi := fun _ => ⟨cr1Spe, 0, srTxe, 0xff, some Device.xfer, .flash smallMachine.chip⟩
      dma := smallDma }
  file := none

/-- The two channels of the small board, one from memory and one to memory. -/
lemma duplex_smallBoard : Duplex 1 4 (some 3) 2 smallBoard.soc.dma.ch where
  sends := by decide
  collects i hi := by
    cases hi
    decide
  only := by decide

/-- The write that starts two channels moves what the polled loop moves. -/
lemma sameBus_request {k : Fin 2} {tx : Fin 7} {rx : Option (Fin 7)} {n : UInt32} {s : Soc δ}
    (harmed : Duplex k tx rx n s.dma.ch) {r : Control} {value : UInt32}
    (hrequests : (s.setControl k r value).Requests k) :
    SameBus k (writeSpi k r.addr value s)
      (polled k (s.dma.ch tx) (rx.map s.dma.ch) n.toNat s) := by
  have hch : Duplex k tx rx n (s.setControl k r value).dma.ch := harmed
  rw [writeSpi_control, kick, if_pos hrequests]
  exact (runForSpi_eq hch (sameBus_setControl k r value s)).1

section Transfer

variable {b : Board} {m : Machine} {tx : Fin 7} {rx : Option (Fin 7)} {n : UInt32} {r : Control}
  {value : UInt32}

/-- **A frame with a transfer is a frame of bytes**: the flash and its file are those of the frame
in which the header and the bytes of the transfer follow each other, and the bytes that come back
for the transfer are in memory.

**Proof sketch.** The request moves what the polled loop would move, and each byte of that goes
through the flash as one of the header does. -/
theorem transfer_eq_frame (header : List UInt8) (h : b.Flash m)
    (harmed : Duplex 1 tx rx n b.soc.dma.ch)
    (hrequests : (b.soc.setControl 1 r value).Requests 1) (io : Host) :
    ∃ bytes, bytes.length = n.toNat ∧
      (b.transfer header r value io).Flash (PY25Q16.frame m (header ++ bytes) io).2 ∧
      (b.transfer header r value io).soc.dma.memory =
        (rx.map b.soc.dma.ch).elim b.soc.dma.memory (fun c =>
          stored c ((PY25Q16.frame m (header ++ bytes) io).1.drop header.length)
            b.soc.dma.memory) ∧
      ∀ i < n.toNat, (∀ c ∈ rx.map b.soc.dma.ch, ∀ j < i,
          c.address j ≠ (b.soc.dma.ch tx).address i) →
        bytes[i]? = some (b.soc.dma.memory ((b.soc.dma.ch tx).address i)) := by
  obtain ⟨hopen, hdma⟩ := h.setFlashCs false io
  obtain ⟨hx, hd, h1, h2, hdma'⟩ := foldl_sendByte header hopen.xfer
  have hkeep : ((b.setFlashCs false io).soc.spi 1).cr1 = (b.soc.spi 1).cr1 ∧
      ((b.setFlashCs false io).soc.spi 1).cr2 = (b.soc.spi 1).cr2 := by
    rw [Board.setFlashCs, h.device]
    simp [Soc.setSpi]
  generalize hs : header.foldl (sendByte 1) (b.setFlashCs false io).soc = s at hx hd h1 h2 hdma'
  have hsame : s.dma = b.soc.dma := hdma'.trans hdma
  have hdevice : (s.spi 1).device =
      .flash (PY25Q16.xfers (PY25Q16.setCs m false io).chip header).2 := by
    rw [hd, hopen.device, exchange_flash]
  rw [← hsame] at harmed ⊢
  have hbus := sameBus_request harmed
    (requests_congr (h1.trans hkeep.1) (h2.trans hkeep.2) hrequests)
  obtain ⟨bytes, hlength, hsent, hbytes⟩ :=
    polled_eq (s.dma.ch tx) (rx.map s.dma.ch) hx n.toNat
  have hexchange : exchange Device.xfer (s.spi 1).device bytes =
      ((PY25Q16.frame m (header ++ bytes) io).1.drop header.length,
        .flash (PY25Q16.xfers (PY25Q16.setCs m false io).chip (header ++ bytes)).2) := by
    rw [hdevice, exchange_flash, PY25Q16.frame, xfers_append]
    dsimp only
    rw [List.drop_left' (length_xfers _ _)]
  have hguest : ({ b.setFlashCs false io with soc := writeSpi 1 r.addr value s } : Board).Flash
      { PY25Q16.setCs m false io with
        chip := (PY25Q16.xfers (PY25Q16.setCs m false io).chip (header ++ bytes)).2 } := by
    refine ⟨hbus.xfer.trans hsent.xfer, ?_, hopen.file⟩
    rw [hbus.device, hsent.device, hexchange]
  obtain ⟨hclose, hmemory⟩ := hguest.setFlashCs true io
  have htransfer : b.transfer header r value io =
      ({ b.setFlashCs false io with
        soc := writeSpi 1 r.addr value s } : Board).setFlashCs true io := by
    rw [Board.transfer, ← hs]
  refine ⟨bytes, hlength, ?_, ?_, hbytes⟩
  · rw [htransfer]
    exact hclose
  · rw [htransfer, hmemory]
    refine hbus.memory.trans (hsent.memory.trans ?_)
    rw [hexchange]

/-- What a frame with a transfer does, by the reference of the flash.

**Proof sketch.** The frame is that of the header and of the bytes that the channel sends
(`transfer_eq_frame`). What a frame does is the reference of the flash, which chip select opens
and leaves as it is. -/
lemma transfer_outcome (header : List UInt8) (h : b.Flash m) (hsel : m.chip.selected = false)
    (harmed : Duplex 1 tx rx n b.soc.dma.ch)
    (hrequests : (b.soc.setControl 1 r value).Requests 1)
    (hfit : header.length + n.toNat < 2 ^ 32) (io : Host) :
    ∃ bytes m' outcome, bytes.length = n.toNat ∧
      outcome = PY25Q16.reference m.chip.data m.chip.writeEnabled (header ++ bytes) ∧
      (b.transfer header r value io).Flash m' ∧ m'.chip.selected = false ∧
      m'.chip.data = outcome.data ∧ m'.chip.writeEnabled = outcome.writeEnabled ∧
      (b.transfer header r value io).soc.dma.memory =
        (rx.map b.soc.dma.ch).elim b.soc.dma.memory (fun c =>
          stored c (outcome.replies.drop header.length) b.soc.dma.memory) ∧
      ∀ i < n.toNat, (∀ c ∈ rx.map b.soc.dma.ch, ∀ j < i,
          c.address j ≠ (b.soc.dma.ch tx).address i) →
        bytes[i]? = some (b.soc.dma.memory ((b.soc.dma.ch tx).address i)) := by
  obtain ⟨bytes, hlength, hflash, hmemory, hbytes⟩ :=
    transfer_eq_frame header h harmed hrequests io
  have hopened := PY25Q16.setCs_falling hsel io
  have hwaiting := PY25Q16.outcome_waiting (header ++ bytes) (PY25Q16.setCs m false io).chip
    (by rw [hopened]) (by rw [hopened]) (by rw [List.length_append, hlength]; exact hfit)
  have hstart : PY25Q16.reference (PY25Q16.setCs m false io).chip.data
      (PY25Q16.setCs m false io).chip.writeEnabled (header ++ bytes) =
        PY25Q16.reference m.chip.data m.chip.writeEnabled (header ++ bytes) := by
    rw [hopened]
  rw [hstart] at hwaiting
  refine ⟨bytes, _, _, hlength, rfl, hflash, rfl, ?_, ?_, ?_, hbytes⟩
  · rw [← hwaiting]
    exact (PY25Q16.setCs_rising_memory _ io).1
  · rw [← hwaiting]
    exact (PY25Q16.setCs_rising_memory _ io).2
  · rw [hmemory, ← hwaiting]
    rfl

/-- **Reading the flash by DMA**: the bytes from the address on are in the buffer, the rest of the
memory is as it was, and so are the array and the latch, whatever the other channel sends.

**Proof sketch.** `transfer_outcome` with the reference of a read: four replies to the header and
then the cells, with nothing programmed. The addresses of a channel with increment are different,
so each reply is where it was put. -/
theorem flash_read_by_dma {rx : Fin 7} (h : b.Flash m) (hsel : m.chip.selected = false)
    (harmed : Duplex 1 tx (some rx) n b.soc.dma.ch)
    (hminc : (b.soc.dma.ch rx).ccr &&& ccrMinc ≠ 0)
    (hrequests : (b.soc.setControl 1 r value).Requests 1) (hfit : 4 + n.toNat < 2 ^ 32)
    (b₂ b₁ b₀ : UInt8) (io : Host) :
    let b' := b.transfer [PY25Q16.cmdRead, b₂, b₁, b₀] r value io
    (∀ i < n.toNat, b'.soc.dma.memory ((b.soc.dma.ch rx).address i) =
        m.chip.data (PY25Q16.wrap (PY25Q16.address b₂ b₁ b₀ + i))) ∧
      (∀ a, (∀ i < n.toNat, (b.soc.dma.ch rx).address i ≠ a) →
        b'.soc.dma.memory a = b.soc.dma.memory a) ∧
      ∃ m', b'.Flash m' ∧ m'.chip.selected = false ∧ m'.chip.data = m.chip.data ∧
        m'.chip.writeEnabled = m.chip.writeEnabled := by
  intro b'
  obtain ⟨bytes, m', outcome, hlength, houtcome, hflash, hsel', hdata, hlatch, hmemory, -⟩ :=
    transfer_outcome [PY25Q16.cmdRead, b₂, b₁, b₀] h hsel harmed hrequests hfit io
  have hreference : outcome = ⟨[0xff, 0xff, 0xff, 0xff] ++ bytes.mapIdx fun k _ =>
      m.chip.data (PY25Q16.wrap (PY25Q16.address b₂ b₁ b₀ + k)), m.chip.data,
        m.chip.writeEnabled⟩ := houtcome
  rw [hreference] at hdata hlatch hmemory
  have hstored : b'.soc.dma.memory = stored (b.soc.dma.ch rx) (bytes.mapIdx fun k _ =>
      m.chip.data (PY25Q16.wrap (PY25Q16.address b₂ b₁ b₀ + k))) b.soc.dma.memory := hmemory
  refine ⟨fun i hi => ?_, fun a ha => ?_, m', hflash, hsel', hdata, hlatch⟩
  · rw [hstored, stored_address hminc _ (by rw [List.length_mapIdx]; omega)
      (by rw [List.length_mapIdx]; omega), List.getElem_mapIdx]
  · rw [hstored]
    refine stored_of_ne _ _ _ fun i hi => ha i ?_
    rwa [List.length_mapIdx, hlength] at hi

/-- A read of two bytes from an erased flash brings `0xff` to the second place of the buffer. -/
theorem flash_read_by_dma_small :
    (smallBoard.transfer [PY25Q16.cmdRead, 0x01, 0x02, 0x03] .cr2 cr2Txdmaen
      Host.ok).soc.dma.memory 0x20000101 = 0xff :=
  (flash_read_by_dma (b := smallBoard) (m := smallMachine) ⟨rfl, rfl, rfl⟩ rfl duplex_smallBoard
    (by decide) (by decide) (by decide) 0x01 0x02 0x03 Host.ok).1 1 (by decide)

/-- Inside a page each byte of a page program meets its own offset. -/
lemma pageMask_eq {o a : ℕ} (ho : o < 256) {bytes : List UInt8} (h : a + bytes.length ≤ 256) :
    PY25Q16.pageMask o a bytes = if a ≤ o then bytes.getD (o - a) 0xff else 0xff := by
  induction bytes generalizing a with
  | nil =>
    rw [PY25Q16.pageMask]
    split <;> rfl
  | cons b bytes ih =>
    rw [List.length_cons] at h
    have hmod : a % 256 = a := Nat.mod_eq_of_lt (by omega)
    have hones : ∀ c : UInt8, c &&& 0xff = c := fun c => UInt8.and_neg_one
    have hones' : ∀ c : UInt8, 0xff &&& c = c := fun c => by rw [UInt8.and_comm, hones]
    rw [PY25Q16.pageMask, ih (by omega), hmod]
    rcases Nat.lt_trichotomy a o with hlt | rfl | hgt
    · have hsub : o - a = o - (a + 1) + 1 := by omega
      rw [if_neg (by omega), if_pos (by omega), if_pos (by omega), hones', hsub]
      rfl
    · rw [if_pos rfl, if_neg (by omega), if_pos (Nat.le_refl a), hones, Nat.sub_self]
      rfl
    · rw [if_neg (by omega), if_neg (by omega), if_neg (by omega), hones]

/-- A program of erased cells inside a page stores the bytes. -/
lemma referenceProgram_erased {data : PY25Q16.Memory} {b₂ b₁ b₀ : UInt8} {bytes : List UInt8}
    (hpage : PY25Q16.address b₂ b₁ b₀ % 256 + bytes.length ≤ 256) {i : ℕ} (hi : i < bytes.length)
    (herased : data (PY25Q16.wrap (PY25Q16.address b₂ b₁ b₀ + i)) = 0xff) :
    PY25Q16.referenceProgram data (b₂ :: b₁ :: b₀ :: bytes)
      (PY25Q16.wrap (PY25Q16.address b₂ b₁ b₀ + i)) = bytes[i] := by
  generalize ha : PY25Q16.address b₂ b₁ b₀ = a at *
  have hsame : (PY25Q16.wrap (a + i)).val / 256 = (PY25Q16.wrap a).val / 256 := by
    simp only [PY25Q16.wrap, PY25Q16.size]
    omega
  have hoffset : (PY25Q16.wrap (a + i)).val % 256 = a % 256 + i := by
    simp only [PY25Q16.wrap, PY25Q16.size]
    omega
  rw [PY25Q16.referenceProgram, ha]
  dsimp only
  rw [if_pos hsame, herased, hoffset,
    PY25Q16.pageMask_congr _ bytes (Nat.mod_mod a 256).symm, pageMask_eq (by omega) hpage,
    if_pos (by omega), Nat.add_sub_cancel_left, List.getD_eq_getElem _ _ hi, UInt8.and_comm]
  exact UInt8.and_neg_one

/-- **What is programmed by DMA is what is read by DMA**: the bytes of a buffer that go to erased
cells of one page come back into any other buffer, whatever happens in between to the memory, the
DMA controller and the control registers of the SPI controller.

**Proof sketch.** The buffer is not overwritten while it is sent, so the page holds its bytes, and
the frame that reads the page answers them. -/
theorem flash_program_then_read (h : b.Flash m) (hsel : m.chip.selected = false)
    (hlatch : m.chip.writeEnabled = true) (harmed : Duplex 1 tx rx n b.soc.dma.ch)
    (hapart : ∀ c ∈ rx.map b.soc.dma.ch, ∀ i < n.toNat, ∀ j < n.toNat,
      c.address j ≠ (b.soc.dma.ch tx).address i)
    (hrequests : (b.soc.setControl 1 r value).Requests 1) {b₂ b₁ b₀ : UInt8}
    (hpage : PY25Q16.address b₂ b₁ b₀ % 256 + n.toNat ≤ 256)
    (herased : ∀ i < n.toNat, m.chip.data (PY25Q16.wrap (PY25Q16.address b₂ b₁ b₀ + i)) = 0xff)
    (io io' : Host) {c : Board} {tx' rx' : Fin 7} {r' : Control} {value' : UInt32}
    (hxfer : (c.soc.spi 1).xfer =
      ((b.transfer [PY25Q16.cmdPp, b₂, b₁, b₀] r value io).soc.spi 1).xfer)
    (hdevice : (c.soc.spi 1).device =
      ((b.transfer [PY25Q16.cmdPp, b₂, b₁, b₀] r value io).soc.spi 1).device)
    (harmed' : Duplex 1 tx' (some rx') n c.soc.dma.ch)
    (hminc' : (c.soc.dma.ch rx').ccr &&& ccrMinc ≠ 0)
    (hrequests' : (c.soc.setControl 1 r' value').Requests 1) {i : ℕ} (hi : i < n.toNat) :
    (c.transfer [PY25Q16.cmdRead, b₂, b₁, b₀] r' value' io').soc.dma.memory
        ((c.soc.dma.ch rx').address i) =
      b.soc.dma.memory ((b.soc.dma.ch tx).address i) := by
  obtain ⟨bytes, m', outcome, hlength, houtcome, hflash, hsel', hdata, -, -, hbytes⟩ :=
    transfer_outcome [PY25Q16.cmdPp, b₂, b₁, b₀] h hsel harmed hrequests
      (by simp only [List.length_cons, List.length_nil]; omega) io
  have hprogram : outcome.data =
      PY25Q16.referenceProgram m.chip.data (b₂ :: b₁ :: b₀ :: bytes) := by
    rw [houtcome, hlatch]
    rfl
  have hc : c.Flash ⟨m'.chip, c.file⟩ := by
    refine ⟨?_, ?_, rfl⟩
    · rw [hxfer, hflash.xfer]
    · rw [hdevice, hflash.device]
  obtain ⟨bytes', m'', outcome', hlength', houtcome', -, -, -, -, hmemory', -⟩ :=
    transfer_outcome [PY25Q16.cmdRead, b₂, b₁, b₀] hc hsel' harmed' hrequests'
      (by simp only [List.length_cons, List.length_nil]; omega) io'
  have hreplies : outcome'.replies.drop 4 = bytes'.mapIdx fun k _ =>
      m'.chip.data (PY25Q16.wrap (PY25Q16.address b₂ b₁ b₀ + k)) := by
    rw [houtcome']
    rfl
  have hstored : (c.transfer [PY25Q16.cmdRead, b₂, b₁, b₀] r' value' io').soc.dma.memory =
      stored (c.soc.dma.ch rx') (outcome'.replies.drop 4) c.soc.dma.memory := hmemory'
  have hbyte : bytes[i]? = some (b.soc.dma.memory ((b.soc.dma.ch tx).address i)) :=
    hbytes i hi fun d hd j hj => hapart d hd i hi j (by omega)
  obtain ⟨hin, hvalue⟩ := List.getElem?_eq_some_iff.mp hbyte
  rw [hstored, hreplies, stored_address hminc' _ (by rw [List.length_mapIdx]; omega)
    (by rw [List.length_mapIdx]; omega), List.getElem_mapIdx, hdata, hprogram,
    referenceProgram_erased (by omega) hin (herased i hi), hvalue]

/-- The small board after it has programmed two bytes, the requests cleared and the channels armed
anew. -/
def smallRearmed : Board :=
  let b := smallBoard.transfer [PY25Q16.cmdPp, 0x01, 0x02, 0x03] .cr2 cr2Txdmaen Host.ok
  { b with soc := { b.soc.setControl 1 .cr2 0 with dma := smallDma } }

/-- The write that sets `TXDMAEN` again makes the request. -/
lemma requests_smallRearmed : (smallRearmed.soc.setControl 1 .cr2 cr2Txdmaen).Requests 1 := by
  decide +kernel

/-- The second of two bytes that are programmed comes back. -/
theorem flash_program_then_read_small :
    (smallRearmed.transfer [PY25Q16.cmdRead, 0x01, 0x02, 0x03] .cr2 cr2Txdmaen
      Host.ok).soc.dma.memory ((smallRearmed.soc.dma.ch 3).address 1) =
        smallBoard.soc.dma.memory ((smallBoard.soc.dma.ch 4).address 1) := by
  have hflash : smallBoard.Flash smallMachine := ⟨rfl, rfl, rfl⟩
  have hrequests : (smallBoard.soc.setControl 1 .cr2 cr2Txdmaen).Requests 1 := by decide
  have hapart : ∀ c ∈ (some 3 : Option (Fin 7)).map smallBoard.soc.dma.ch,
      ∀ i < (2 : UInt32).toNat, ∀ j < (2 : UInt32).toNat,
        c.address j ≠ (smallBoard.soc.dma.ch 4).address i := by
    decide
  have hpage : PY25Q16.address 0x01 0x02 0x03 % 256 + (2 : UInt32).toNat ≤ 256 := by decide
  have herased : ∀ i < (2 : UInt32).toNat,
      smallMachine.chip.data (PY25Q16.wrap (PY25Q16.address 0x01 0x02 0x03 + i)) = 0xff :=
    fun _ _ => rfl
  have hxfer : (smallRearmed.soc.spi 1).xfer = ((smallBoard.transfer
      [PY25Q16.cmdPp, 0x01, 0x02, 0x03] .cr2 cr2Txdmaen Host.ok).soc.spi 1).xfer := by
    simp [smallRearmed, Soc.setControl, Soc.setSpi]
  have hdevice : (smallRearmed.soc.spi 1).device = ((smallBoard.transfer
      [PY25Q16.cmdPp, 0x01, 0x02, 0x03] .cr2 cr2Txdmaen Host.ok).soc.spi 1).device := by
    simp [smallRearmed, Soc.setControl, Soc.setSpi]
  have hrearmed : Duplex 1 4 (some 3) 2 smallRearmed.soc.dma.ch := duplex_smallBoard
  exact flash_program_then_read hflash rfl rfl duplex_smallBoard hapart hrequests hpage herased
    Host.ok Host.ok hxfer hdevice hrearmed (by decide) requests_smallRearmed (by decide)

end Transfer

/-! ## The panel -/

/-- Bytes through the panel. -/
lemma exchange_panel (p : Panel.State) (bytes : List UInt8) :
    (exchange Device.xfer (.panel p) bytes).2 = .panel (Panel.run p (bytes.map .spi)) := by
  induction bytes generalizing p with
  | nil => rfl
  | cons b bytes ih => exact ih (Panel.xfer p b).2

/-- The A0 line of the panel, which is PA6. -/
def setPanelA0 (s : Soc Device) (level : Bool) : Soc Device :=
  match (s.spi 0).device with
  | .panel p => s.setSpi 0 { s.spi 0 with device := .panel (Panel.setA0 p level) }
  | .flash _ => s

/-- The A0 line reaches the panel. -/
lemma setPanelA0_eq {s : Soc Device} {p : Panel.State} (hdevice : (s.spi 0).device = .panel p)
    (level : Bool) : setPanelA0 s level =
      s.setSpi 0 { s.spi 0 with device := .panel (Panel.setA0 p level) } := by
  rw [setPanelA0, hdevice]

/-- A page of the panel: the commands through the data register, the pixels by DMA. -/
def sendPage (s : Soc Device) (page : Fin 8) (highFirst : Bool) (r : Control) (value : UInt32) :
    Soc Device :=
  let s := setPanelA0 s false
  let s := ((0xb0 + UInt8.ofNat page) :: if highFirst then [0x10, 0x04] else [0x04, 0x10]).foldl
    (sendByte 0) s
  writeSpi 0 r.addr value (setPanelA0 s true)

/-- **A page sent by DMA** leaves the panel as its 128 bytes sent one by one do, and the memory as
it was.

**Proof sketch.** The commands for the page go byte by byte through the panel and leave the DMA
controller and the control registers. The transfer then is the exchange of the 128 bytes at the
addresses of the channel, and the panel after commands and data is what `Panel.run_sendPage`
says. -/
theorem sendPage_eq {s : Soc Device} {p : Panel.State} {tx : Fin 7} {r : Control}
    {value : UInt32} (hxfer : (s.spi 0).xfer = some Device.xfer)
    (hdevice : (s.spi 0).device = .panel p) (hsel : p.selected = true)
    (hexpect : p.expectContrast = false) (harmed : Duplex 0 tx none 128 s.dma.ch)
    (hrequests : (s.setControl 0 r value).Requests 0) (page : Fin 8) (highFirst : Bool) :
    ((sendPage s page highFirst r value).spi 0).xfer = some Device.xfer ∧
      ((sendPage s page highFirst r value).spi 0).device = .panel { p with
        a0 := true
        page := UInt8.ofNat page
        col := 0
        gram := Function.update p.gram page fun i => s.dma.memory ((s.dma.ch tx).address i) } ∧
      (sendPage s page highFirst r value).dma.memory = s.dma.memory := by
  let commands : List UInt8 :=
    (0xb0 + UInt8.ofNat page) :: if highFirst then [0x10, 0x04] else [0x04, 0x10]
  have hlow := setPanelA0_eq hdevice false
  obtain ⟨hx, hd, h1, h2, hdma⟩ := foldl_sendByte (k := 0) (f := Device.xfer) commands
    (s := setPanelA0 s false) (by rw [hlow]; simpa [Soc.setSpi] using hxfer)
  generalize hs : commands.foldl (sendByte 0) (setPanelA0 s false) = t at hx hd h1 h2 hdma
  have hpanel : (t.spi 0).device =
      .panel (Panel.run (Panel.setA0 p false) (commands.map .spi)) := by
    rw [hd, hlow, ← exchange_panel]
    simp [Soc.setSpi]
  have hhigh := setPanelA0_eq hpanel true
  generalize hu : setPanelA0 t true = u at hhigh
  have hsame : u.dma = s.dma := by
    rw [hhigh]
    exact hdma.trans (by rw [hlow]; rfl)
  have hx' : (u.spi 0).xfer = some Device.xfer := by
    rw [hhigh]
    simpa [Soc.setSpi] using hx
  have hd' : (u.spi 0).device =
      .panel (Panel.setA0 (Panel.run (Panel.setA0 p false) (commands.map .spi)) true) := by
    rw [hhigh]
    simp [Soc.setSpi]
  have hrequests' : (u.setControl 0 r value).Requests 0 := by
    refine requests_congr ?_ ?_ hrequests
    · rw [hhigh]
      simpa [Soc.setSpi, hlow] using h1
    · rw [hhigh]
      simpa [Soc.setSpi, hlow] using h2
  have hresult : sendPage s page highFirst r value = writeSpi 0 r.addr value u := by
    rw [sendPage, ← hu, ← hs]
  rw [← hsame] at harmed ⊢
  have hbus := sameBus_request harmed hrequests'
  obtain ⟨bytes, hlength, hsent, hbytes⟩ :=
    polled_eq (u.dma.ch tx) (Option.map u.dma.ch none) hx' (128 : UInt32).toNat
  have hbuffer : bytes = (List.finRange 128).map fun i : Fin 128 =>
      u.dma.memory ((u.dma.ch tx).address i) := by
    refine List.ext_getElem (by rw [hlength, List.length_map, List.length_finRange]; rfl) ?_
    intro i hi _
    have hbyte := hbytes i (hlength ▸ hi) (fun c hc => by cases hc)
    rw [List.getElem_map, List.getElem_finRange]
    exact (List.getElem?_eq_some_iff.mp hbyte).2
  have hrun : Panel.run (Panel.setA0 (Panel.run (Panel.setA0 p false) (commands.map .spi)) true)
      (bytes.map .spi) = Panel.run p (Panel.sendPage page highFirst fun i =>
        u.dma.memory ((u.dma.ch tx).address i)) := by
    rw [Panel.sendPage, hbuffer, List.map_map]
    cases highFirst with
    | true => simp [commands, Panel.step, Function.comp_def]
    | false => simp [commands, Panel.step, Function.comp_def]
  rw [hresult]
  refine ⟨hbus.xfer.trans hsent.xfer, ?_, hbus.memory.trans hsent.memory⟩
  rw [hbus.device, hsent.device, hd', exchange_panel, hrun,
    Panel.run_sendPage page highFirst _ hsel hexpect]

/-- A selected panel, and a channel for a page of it. -/
def smallPanel : Soc Device where
  spi := fun _ => ⟨cr1Spe, 0, srTxe, 0xff, some Device.xfer,
    .panel { Panel.reset with selected := true }⟩
  dma :=
    { smallDma with
      ch := fun i =>
        if i = 2 then ⟨ccrEn ||| ccrDir ||| ccrMinc, 128, 0x4001300c, 0x20000000, 128⟩
        else ⟨0, 0, 0, 0, 0⟩ }

/-- The one channel of the small panel, from memory. -/
lemma duplex_smallPanel : Duplex 0 2 none 128 smallPanel.dma.ch where
  sends := by decide
  collects i hi := by cases hi
  only := by decide

end Uvk5.Dma
