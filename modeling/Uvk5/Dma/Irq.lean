import Uvk5.Dma.Spi

set_option relaxedAutoImplicit false
set_option autoImplicit false

/-!
# The interrupt lines of the DMA controller (`qemu/py32f071.c`)

Two lines serve the seven channels. They are driven when something calls `py32_dma_update_irq`, and
hold their level until then.

## Main definitions

* `Dma.Line`, `Dma.Pending` — the lines, and what asks for an interrupt.
* `Dma.Driven` — the lines have the level that the registers ask for.
* `Dma.IrqEvent`, `Dma.Stale` — what may happen, and what happens without driving a line that
  changes.

## Main results

* `Dma.driven_iff` — when the lines have the right level all along a run.
-/

namespace Uvk5.Dma

/-! ## The lines -/

/-- The interrupt lines. -/
inductive Line where
  /-- `irq_1_2_3`. -/
  | low
  /-- `irq_4_5_6_7`. -/
  | high
  deriving DecidableEq

instance : Fintype Line := ⟨{.low, .high}, fun l => by cases l <;> decide⟩

/-- The line of a channel. -/
def lineOf (ch : Fin 7) : Line := if ch.val < 3 then .low else .high

/-- The level that was driven last. -/
def State.level (s : State) : Line → Bool
  | .low => s.irq123
  | .high => s.irq4567

/-- The channel has completed a transfer, and its interrupt is enabled. -/
def Pending (s : State) (ch : Fin 7) : Prop :=
  (s.ch ch).ccr &&& ccrTcie ≠ 0 ∧ s.isr &&& flagTcif ch ≠ 0

instance (s : State) (ch : Fin 7) : Decidable (Pending s ch) := inferInstanceAs (Decidable (_ ∧ _))

/-- Some channel of the line asks for an interrupt. -/
def Asks (s : State) (l : Line) : Prop := ∃ ch, lineOf ch = l ∧ Pending s ch

instance (s : State) (l : Line) : Decidable (Asks s l) := inferInstanceAs (Decidable (∃ _, _))

/-- The lines have the level that the registers ask for. -/
def Driven (s : State) : Prop := ∀ l, s.level l = true ↔ Asks s l

instance (s : State) : Decidable (Driven s) := inferInstanceAs (Decidable (∀ _, _))

/-- `py32_dma_update_irq` drives both lines. -/
lemma driven_updateIrq (s : State) : Driven (updateIrq s) := by
  intro l
  cases l with
  | low =>
    have hlow : ∀ ch : Fin 7, lineOf ch = .low ↔ ch.val < 3 := by decide
    simp only [Asks, hlow]
    simp [State.level, updateIrq, Pending]
  | high =>
    have hhigh : ∀ ch : Fin 7, lineOf ch = .high ↔ 3 ≤ ch.val := by decide
    simp only [Asks, hhigh]
    simp [State.level, updateIrq, Pending]

section Held

variable {s s' : State}

/-- While the levels are held, they are right exactly for what is asked as before. -/
lemma Driven.iff_of_level (h : Driven s) (hlevel : s'.level = s.level) :
    Driven s' ↔ ∀ l, Asks s' l ↔ Asks s l := by
  refine forall_congr' fun l => ?_
  rw [hlevel, h l]
  exact Iff.comm

/-- The flags and the interrupt enables are as before. -/
lemma Driven.of_same (h : Driven s) (hlevel : s'.level = s.level) (hisr : s'.isr = s.isr)
    (hccr : ∀ i, (s'.ch i).ccr = (s.ch i).ccr) : Driven s' := by
  refine (h.iff_of_level hlevel).mpr fun l => ?_
  simp only [Asks, Pending, hisr, hccr]

end Held

/-! ## What drives the lines -/

variable {δ : Type}

/-- A transfer drives the lines of its channels. -/
lemma driven_runForSpi (k : Fin 2) {s : Soc δ} (h : Driven s.dma) :
    Driven (runForSpi k s).dma := by
  rw [runForSpi]
  dsimp only
  split
  · exact h
  · exact driven_updateIrq _

/-- Serving a channel drives its line. -/
lemma driven_serviceChannel {s : State} (h : Driven s) (i : Fin 7) :
    Driven (serviceChannel s i).2 := by
  rw [serviceChannel]
  split
  · exact driven_updateIrq _
  · exact h

/-! ## What does not -/

/-- The write changes what the channel asks for, and no other channel of its line asks. -/
def Flips (s : State) (i : Fin 7) (value : UInt32) : Prop :=
  s.isr &&& flagTcif i ≠ 0 ∧
    ¬ (value &&& ccrTcie ≠ 0 ↔ (s.ch i).ccr &&& ccrTcie ≠ 0) ∧
    ∀ j, j ≠ i → lineOf j = lineOf i → ¬ Pending s j

instance (s : State) (i : Fin 7) (value : UInt32) : Decidable (Flips s i value) :=
  inferInstanceAs (Decidable (_ ∧ _))

/-- What is asked stays the same if one channel changes, unless no other of its line asks.

**Proof sketch.** If the channel changes and no other of its line asks, its line asks before the
change or after it and not both. If another one asks, the line does in either case. -/
lemma asks_iff_of_ne {s s' : State} {i : Fin 7}
    (hother : ∀ j, j ≠ i → (Pending s' j ↔ Pending s j)) :
    (∀ l, Asks s' l ↔ Asks s l) ↔
      (Pending s' i ↔ Pending s i) ∨ ∃ j, j ≠ i ∧ lineOf j = lineOf i ∧ Pending s j := by
  constructor
  · intro hasks
    by_contra hnot
    rw [not_or] at hnot
    obtain ⟨hchanges, hnone⟩ := hnot
    have honly : ∀ j, lineOf j = lineOf i → Pending s j → j = i := by
      intro j hline hj
      by_contra hne
      exact hnone ⟨j, hne, hline, hj⟩
    apply hchanges
    constructor
    · intro hi
      obtain ⟨j, hline, hj⟩ := (hasks (lineOf i)).mp ⟨i, rfl, hi⟩
      exact honly j hline hj ▸ hj
    · intro hi
      obtain ⟨j, hline, hj⟩ := (hasks (lineOf i)).mpr ⟨i, rfl, hi⟩
      by_cases hne : j = i
      · exact hne ▸ hj
      · exact absurd (honly j hline ((hother j hne).mp hj)) hne
  · rintro (hsame | ⟨j, hne, hline, hj⟩) l
    · refine exists_congr fun j => and_congr_right fun _ => ?_
      by_cases hne : j = i
      · exact hne ▸ hsame
      · exact hother j hne
    · by_cases hl : lineOf i = l
      · exact iff_of_true ⟨j, hline.trans hl, (hother j hne).mpr hj⟩ ⟨j, hline.trans hl, hj⟩
      · refine exists_congr fun j => and_congr_right fun hj => hother j ?_
        rintro rfl
        exact hl hj

/-- A write to the configuration of a channel. -/
lemma Driven.writeCcr {s : State} (h : Driven s) (i : Fin 7) (value : UInt32) :
    Driven (s.setChannel i { s.ch i with ccr := value }) ↔ ¬ Flips s i value := by
  have hself : Pending (s.setChannel i { s.ch i with ccr := value }) i ↔
      value &&& ccrTcie ≠ 0 ∧ s.isr &&& flagTcif i ≠ 0 := by
    rw [Pending, setChannel_self]
    rfl
  have hother : ∀ j, j ≠ i → (Pending (s.setChannel i { s.ch i with ccr := value }) j ↔
      Pending s j) := by
    intro j hj
    rw [Pending, setChannel_of_ne _ _ hj, Pending]
    rfl
  have hlevel : (s.setChannel i { s.ch i with ccr := value }).level = s.level := by
    funext l
    cases l <;> rfl
  rw [h.iff_of_level hlevel, asks_iff_of_ne hother, hself, Pending, Flips]
  constructor
  · rintro (hsame | ⟨j, hne, hline, hj⟩) ⟨hflag, hchanges, hnone⟩
    · rw [and_iff_left hflag, and_iff_left hflag] at hsame
      exact hchanges hsame
    · exact hnone j hne hline hj
  · intro hnot
    by_contra hnone
    rw [not_or] at hnone
    obtain ⟨hchanges, hothers⟩ := hnone
    refine hnot ⟨?_, ?_, fun j hne hline hj => hothers ⟨j, hne, hline, hj⟩⟩
    · intro hclear
      exact hchanges (iff_of_false (fun h => h.2 hclear) fun h => h.2 hclear)
    · exact fun hsame => hchanges (and_congr_left fun _ => hsame)

/-- What may happen. -/
inductive IrqEvent (δ : Type) where
  /-- An access to a register, or to the device and the memory. -/
  | access (a : Access δ)
  /-- A request of an SPI controller. -/
  | kick (k : Fin 2)
  /-- The channels of USART1 are served. -/
  | service
  /-- The controller is reset. -/
  | reset

/-- One event. -/
def Soc.apply (s : Soc δ) : IrqEvent δ → Soc δ
  | .access a => s.step a
  | .kick k => runForSpi k s
  | .service => { s with dma := (serviceUsartRx s.dma).2 }
  | .reset => { s with dma := Dma.reset s.dma }

/-- What is asked of a line changes, and the line is not driven. -/
def Stale (s : Soc δ) : IrqEvent δ → Prop
  | .access (.writeDma addr value) =>
    ∃ i, channelRegister addr = some (i, 0x00) ∧ Flips s.dma i value
  | .reset => ∃ i, Pending s.dma i
  | _ => False

instance (s : Soc δ) (e : IrqEvent δ) : Decidable (Stale s e) :=
  match e with
  | .access (.writeDma _ _) => inferInstanceAs (Decidable (∃ _, _))
  | .access (.writeSpi _ _ _) => isFalse id
  | .access (.readSpi _ _) => isFalse id
  | .access (.readDma _) => isFalse id
  | .access (.receive _) => isFalse id
  | .access .readUsart => isFalse id
  | .access (.store _ _) => isFalse id
  | .access (.device _ _) => isFalse id
  | .kick _ => isFalse id
  | .service => isFalse id
  | .reset => inferInstanceAs (Decidable (∃ _, _))

/-- A reset clears all flags and leaves the lines. -/
lemma Driven.reset {s : State} (h : Driven s) : Driven (reset s) ↔ ¬ ∃ i, Pending s i := by
  have hnone : ∀ l, ¬ Asks (Dma.reset s) l := by
    rintro l ⟨i, -, -, hflag⟩
    exact hflag UInt32.zero_and
  have hlevel : (Dma.reset s).level = s.level := by
    funext l
    cases l <;> rfl
  rw [h.iff_of_level hlevel]
  constructor
  · rintro hasks ⟨i, hi⟩
    exact hnone _ ((hasks (lineOf i)).mpr ⟨i, rfl, hi⟩)
  · intro hidle l
    exact iff_of_false (hnone l) fun ⟨i, _, hi⟩ => hidle ⟨i, hi⟩

/-- A write to a register. -/
lemma driven_writeDma {s : State} (h : Driven s) (addr : ℕ) (value : UInt32) :
    Driven (writeDma addr value s) ↔
      ¬ ∃ i, channelRegister addr = some (i, 0x00) ∧ Flips s i value := by
  have hkept : ∀ (i : Fin 7) (c : Channel), c.ccr = (s.ch i).ccr → Driven (s.setChannel i c) := by
    intro i c hccr
    refine h.of_same (by funext l; cases l <;> rfl) rfl fun j => ?_
    by_cases hj : j = i
    · subst hj
      rw [setChannel_self, hccr]
    · rw [setChannel_of_ne _ _ hj]
  rw [writeDma]
  by_cases haddr : addr = 0x04
  · subst haddr
    rw [if_pos rfl]
    refine iff_of_true (driven_updateIrq _) ?_
    rintro ⟨i, hi, -⟩
    cases hi
  · rw [if_neg haddr]
    split
    · next i hregister =>
      rw [h.writeCcr]
      simp [hregister]
    · next i hregister =>
      exact iff_of_true (hkept i _ rfl) (by simp [hregister])
    · next i hregister =>
      exact iff_of_true (hkept i _ rfl) (by simp [hregister])
    · next i hregister =>
      exact iff_of_true (hkept i _ rfl) (by simp [hregister])
    · next hccr _ _ _ =>
      refine iff_of_true h ?_
      rintro ⟨i, hi, -⟩
      exact hccr i hi

/-- **One event** leaves the lines right exactly if it is not one that forgets them. -/
lemma driven_apply {s : Soc δ} (h : Driven s.dma) (e : IrqEvent δ) :
    Driven (s.apply e).dma ↔ ¬ Stale s e := by
  cases e with
  | access a =>
    cases a with
    | writeDma addr value => exact driven_writeDma h addr value
    | writeSpi k addr value =>
      refine iff_of_true ?_ id
      exact writeSpi_keeps (I := Driven) (fun k _ h => driven_runForSpi k h) h k addr value
    | readSpi k addr =>
      refine iff_of_true ?_ id
      rw [Soc.apply, Soc.step, readSpi_dma]
      exact h
    | readDma addr =>
      refine iff_of_true ?_ id
      exact readDma_keeps (I := Driven) (fun _ i h => driven_serviceChannel h i) h addr
    | receive bytes => exact iff_of_true h id
    | readUsart =>
      refine iff_of_true ?_ id
      rw [Soc.apply, Soc.step, readDr]
      split
      · exact h
      · exact h
    | store address byte => exact iff_of_true h id
    | device k device => exact iff_of_true h id
  | kick k => exact iff_of_true (driven_runForSpi k h) id
  | service =>
    refine iff_of_true ?_ id
    exact serviceUsartRx_keeps (I := Driven) (fun _ i h => driven_serviceChannel h i) h
  | reset => exact h.reset

/-- **When the lines are right.** The lines have the level that the registers ask for; then
registers are read and written, transfers run, channels are served and the controller is reset, in
any order. At all times each line is high exactly when one of its channels has `TCIE` and `TCIF`
set, if and only if no write to a configuration ever enables or disables the interrupt of a channel
that has `TCIF` set while no other channel of its line asks for one, and no reset comes while a
channel asks for one.

**Proof sketch.** Every other event drives both lines, or changes neither flags nor enables. Of
these two, one leaves the level right only if what is asked of the line stays the same. -/
theorem driven_iff (s : Soc δ) (h : Driven s.dma) (es : List (IrqEvent δ)) :
    Run.AllStates Soc.apply (fun s => Driven s.dma) s es ↔
      Run.AllSteps Soc.apply (fun s e => ¬ Stale s e) s es :=
  Run.allStates_iff_allSteps (I := fun s : Soc δ => Driven s.dma) (fun _ h => h)
    (fun _ e h he => (driven_apply h e).mpr he) (fun _ e h he => mt (driven_apply h e).mp he)
    es s h

/-- After power-on. -/
def idle : Soc ℕ := ⟨fun _ => counter, reset staleCount.dma⟩

/-- A byte is sent to SPI1 through the first channel, with its interrupt enabled before. -/
def enabledBefore : List (IrqEvent ℕ) :=
  [.access (.writeDma 0x0c 1), .access (.writeDma 0x10 0x4001300c),
    .access (.writeDma 0x08 (ccrEn ||| ccrTcie ||| ccrDir)), .kick 0,
    .access (.writeDma 0x04 (flagTcif 0)), .reset]

/-- The interrupt is enabled before the byte is sent, and its line is right all the time. -/
theorem driven_enabledBefore :
    Run.AllStates Soc.apply (fun s => Driven s.dma) idle enabledBefore :=
  (driven_iff idle (by decide) enabledBefore).mpr (by decide +kernel)

/-- The interrupt is enabled when the byte has been sent, and the line stays low. -/
theorem late_enable_missed : ¬ ∀ (s : Soc ℕ), Driven s.dma → ∀ es : List (IrqEvent ℕ),
    Run.AllStates Soc.apply (fun s => Driven s.dma) s es := by
  intro h
  have hlast := (h idle (by decide) [.access (.writeDma 0x0c 1),
    .access (.writeDma 0x10 0x4001300c), .access (.writeDma 0x08 (ccrEn ||| ccrDir)), .kick 0,
    .access (.writeDma 0x08 (ccrEn ||| ccrTcie ||| ccrDir))]).last
  exact absurd hlast (by decide +kernel)

end Uvk5.Dma
