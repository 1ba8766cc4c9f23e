import Uvk5.Dma.Receive
import Uvk5.Dma.SpiBounds

set_option relaxedAutoImplicit false
set_option autoImplicit false

/-!
# Where received bytes are stored (`qemu/py32f071.c`)

A channel that receives from USART1 derives the next address from the length that was programmed and
the count that is left. The guest may write the registers, read counts and reset the controller in
any order, while bytes arrive.

## Main definitions

* `Dma.Watch`, `Dma.UsartEvent` — the controller with what was programmed and stored since, and what
  may happen.
* `Dma.InBounds` — everything went into the buffers, and one-shot channels kept to their length.
* `Dma.Reuses` — a channel without a count left gets another byte.

## Main results

* `Dma.step_dev` — watching changes nothing.
* `Dma.serviceLoop_moved` — what serving a channel with a count does.
* `Dma.stores_inBounds_iff` — when everything stays in the buffers.
-/

namespace Uvk5.Dma

/-! ## One byte -/

/-- The next byte goes into the buffer, unless the address moves and the count is through. -/
lemma dest_inBuffer_iff {c : Channel} (htotal : c.total ≠ 0) (hle : c.cndtr ≤ c.total) :
    InBuffer c.cmar c.total c.dest ↔ c.ccr &&& ccrMinc = 0 ∨ c.cndtr ≠ 0 := by
  have hpos : 0 < c.total.toNat :=
    Nat.pos_of_ne_zero fun h => htotal (UInt32.toNat_inj.mp h)
  rw [InBuffer, Channel.dest, UInt32.add_comm, UInt32.add_sub_cancel, UInt32.lt_iff_toNat_lt]
  by_cases hminc : c.ccr &&& ccrMinc = 0
  · rw [if_neg (not_not.mpr hminc)]
    exact iff_of_true hpos (.inl hminc)
  · have hle' := UInt32.le_iff_toNat_le.mp hle
    rw [if_pos hminc, UInt32.toNat_sub_of_le _ _ hle, or_iff_right hminc, ne_eq,
      ← UInt32.toNat_inj, UInt32.toNat_zero]
    omega

/-! ## Serving a channel -/

/-- How many of `n` bytes a channel leaves: none in circular mode, and otherwise it takes what it
counts, but at least one. -/
def Channel.leaves (c : Channel) (n : ℕ) : ℕ :=
  if c.ccr &&& ccrCirc ≠ 0 then 0 else n - max 1 c.cndtr.toNat

/-- Of no bytes none is left. -/
@[simp] lemma leaves_zero (c : Channel) : c.leaves 0 = 0 := by
  rw [Channel.leaves]
  split
  · rfl
  · exact Nat.zero_sub _

/-- What serving a channel does with `n` bytes. -/
structure Moved (c : Channel) (n : ℕ) (ts : List Transfer) (c' : Channel) (n' : ℕ) : Prop where
  inside : ∀ t ∈ ts, InBuffer c.cmar c.total t.address
  total : c'.total = c.total
  le : c'.cndtr ≤ c.total
  oneShot : c.ccr &&& ccrCirc = 0 → ts.length + c'.cndtr.toNat = c.cndtr.toNat
  idle : ts = [] → c' = c
  left : n' = c.leaves n

/-- A byte, and then the rest. -/
lemma Moved.cons {c c' : Channel} {v : UInt32} {n n' : ℕ} {ts : List Transfer}
    (h : Moved { c with cndtr := v } n ts c' n') (hdest : InBuffer c.cmar c.total c.dest)
    (hcount : c.ccr &&& ccrCirc = 0 → v.toNat + 1 = c.cndtr.toNat ∧ v ≠ 0) (byte : UInt8) :
    Moved c (n + 1) (⟨c.dest, byte⟩ :: ts) c' n' where
  inside := List.forall_mem_cons.mpr ⟨hdest, h.inside⟩
  total := h.total
  le := h.le
  oneShot hcirc := by
    have hrest := h.oneShot hcirc
    dsimp only at hrest
    rw [List.length_cons, Nat.add_right_comm, hrest, (hcount hcirc).1]
  idle := nofun
  left := by
    rw [h.left, Channel.leaves, Channel.leaves]
    dsimp only
    split
    · rfl
    · next hcirc =>
      obtain ⟨hone, hne⟩ := hcount (not_not.mp hcirc)
      have hpos : v.toNat ≠ 0 := fun hzero => hne (UInt32.toNat_inj.mp hzero)
      omega

/-- **Serving a channel with a count** stores into the buffer, and counts every byte.

**Proof sketch.** Induction on the bytes. A byte that is not the last one of the buffer leaves a
channel with a count; the last one starts a circular channel again and stops another one. -/
lemma serviceLoop_moved {fuel : ℕ} {c : Channel} {r : Ring UInt8 256} (hcount : c.cndtr ≠ 0)
    (hle : c.cndtr ≤ c.total) (hfuel : r.count < fuel) :
    Moved c r.count (serviceLoop fuel c r).1 (serviceLoop fuel c r).2.1
      (serviceLoop fuel c r).2.2.count := by
  induction fuel generalizing c r with
  | zero => omega
  | succ fuel ih =>
    have hle' := UInt32.le_iff_toNat_le.mp hle
    have hpos : c.cndtr.toNat ≠ 0 := fun h => hcount (UInt32.toNat_inj.mp h)
    have htotal : c.total ≠ 0 := by
      rw [ne_eq, ← UInt32.toNat_inj, UInt32.toNat_zero]
      omega
    have hdest : InBuffer c.cmar c.total c.dest :=
      (dest_inBuffer_iff htotal hle).mpr (.inr hcount)
    rw [serviceLoop]
    cases hpop : r.pop with
    | none =>
      refine ⟨List.forall_mem_nil _, rfl, hle, fun _ => Nat.zero_add _, fun _ => rfl, ?_⟩
      rw [Ring.count_of_pop_none hpop, leaves_zero]
    | some popped =>
      obtain ⟨byte, r₁⟩ := popped
      rw [Ring.count_of_pop hpop] at hfuel ⊢
      have hfuel' : r₁.count < fuel := by omega
      dsimp only
      rcases Nat.lt_or_ge 1 c.cndtr.toNat with hmore | hlast
      · have hsub : (c.cndtr - 1).toNat = c.cndtr.toNat - 1 :=
          UInt32.toNat_sub_of_le _ _ (UInt32.le_iff_toNat_le.mpr (Nat.le_of_lt hmore))
        have hne : c.cndtr - 1 ≠ 0 := by
          rw [ne_eq, ← UInt32.toNat_inj, hsub, UInt32.toNat_zero]
          omega
        have hnext : c.cndtr - 1 ≤ c.total := by
          rw [UInt32.le_iff_toNat_le, hsub]
          omega
        rw [advance_of_one_lt hmore]
        have hrest := @ih { c with cndtr := c.cndtr - 1 } r₁ hne hnext hfuel'
        exact hrest.cons hdest (fun _ => ⟨by omega, hne⟩) byte
      · by_cases hcirc : c.ccr &&& ccrCirc = 0
        · have hone : c.cndtr.toNat = 1 := by omega
          rw [advance_oneShot hlast hcirc]
          refine ⟨List.forall_mem_singleton.mpr hdest, rfl, UInt32.zero_le, fun _ => ?_,
            fun hnil => absurd hnil (List.cons_ne_nil _ _), ?_⟩
          · rw [hone]
            rfl
          · rw [Channel.leaves, if_neg (not_not.mpr hcirc), hone]
            rfl
        · rw [advance_circular hlast hcirc]
          have hrest := @ih { c with cndtr := c.total } r₁ htotal (UInt32.le_refl _) hfuel'
          exact hrest.cons hdest (fun h => absurd h hcirc) byte

/-! ## What was programmed and stored -/

/-- What was programmed into a channel, and what it stored since. -/
structure Tally where
  /-- The count that was written last. -/
  programmed : UInt32
  /-- How many bytes were stored since. -/
  stored : ℕ
  /-- Whether one of them was stored in circular mode. -/
  circular : Bool

/-- A channel stores some bytes. -/
def Tally.add (t : Tally) (c : Channel) (n : ℕ) : Tally :=
  { t with
    stored := t.stored + n
    circular := t.circular || decide (0 < n ∧ c.ccr &&& ccrCirc ≠ 0) }

/-- A channel that was never circular has stored no more bytes than were programmed. -/
def Tally.Kept (t : Tally) : Prop := t.circular = false → t.stored ≤ t.programmed.toNat

/-- The length is the one that was programmed, and the count tells what is missing. -/
structure Counted (c : Channel) (t : Tally) : Prop where
  programmed : c.total = t.programmed
  le : c.cndtr ≤ c.total
  sum : t.circular = false → t.stored + c.cndtr.toNat = c.total.toNat

/-- The count is through, and another byte goes behind the buffer or is one too many. -/
def Spent (c : Channel) (t : Tally) : Prop :=
  c.cndtr = 0 ∧ (c.ccr &&& ccrMinc ≠ 0 ∨ c.ccr &&& ccrCirc = 0 ∧ t.circular = false)

instance (c : Channel) (t : Tally) : Decidable (Spent c t) := inferInstanceAs (Decidable (_ ∧ _))

section Channel

variable {c : Channel} {t : Tally} {r : Ring UInt8 256}

/-- A channel whose count tells what is missing has not stored too much. -/
lemma Counted.kept (h : Counted c t) : t.Kept := by
  intro hcirc
  have hsum := h.sum hcirc
  rw [h.programmed] at hsum
  omega

/-- A channel was never circular if it was not before and did not store as one. -/
lemma add_circular_eq_false (n : ℕ) :
    (t.add c n).circular = false ↔ t.circular = false ∧ (0 < n → c.ccr &&& ccrCirc = 0) := by
  simp [Tally.add]

/-- A channel whose count is through, and a byte for it. -/
lemma serviceLoop_through (fuel : ℕ) {byte : UInt8} {r₁ : Ring UInt8 256} (htotal : c.total ≠ 0)
    (hzero : c.cndtr = 0) (hpop : r.pop = some (byte, r₁)) (hfuel : r.count < fuel + 1) :
    ∃ ts, (serviceLoop (fuel + 1) c r).1 = ⟨c.dest, byte⟩ :: ts ∧
      (∀ x ∈ ts, InBuffer c.cmar c.total x.address) ∧
      (serviceLoop (fuel + 1) c r).2.1.total = c.total ∧
      (serviceLoop (fuel + 1) c r).2.1.cndtr ≤ c.total ∧
      (serviceLoop (fuel + 1) c r).2.2.count = c.leaves r.count := by
  have hcount := Ring.count_of_pop hpop
  have hlast : c.cndtr.toNat ≤ 1 := by
    rw [hzero]
    decide
  rw [serviceLoop, hpop]
  dsimp only
  by_cases hcirc : c.ccr &&& ccrCirc = 0
  · rw [advance_oneShot hlast hcirc]
    refine ⟨[], rfl, List.forall_mem_nil _, rfl, UInt32.zero_le, ?_⟩
    rw [Channel.leaves, if_neg (not_not.mpr hcirc), hzero, hcount]
    rfl
  · rw [advance_circular hlast hcirc]
    have hmoved := @serviceLoop_moved fuel { c with cndtr := c.total } r₁ htotal
      (UInt32.le_refl _) (by omega)
    refine ⟨_, rfl, hmoved.inside, hmoved.total, hmoved.le, hmoved.left.trans ?_⟩
    rw [Channel.leaves, Channel.leaves, if_pos hcirc]
    exact (if_pos hcirc).symm

/-- A channel is served, and nothing goes wrong.

**Proof sketch.** If the count is 0 and there is a byte, the channel has no increment, and it is or
was circular, since otherwise it is spent; then the loop runs through (`serviceLoop_through`). If the
count is not 0, the bytes that are moved stay in the buffer, and a channel that is not circular counts
down by each. -/
lemma serviceLoop_counted (h : Counted c t) (htotal : c.total ≠ 0)
    (hspent : ¬ (0 < r.count ∧ Spent c t)) :
    (∀ x ∈ (serviceLoop 256 c r).1, InBuffer c.cmar t.programmed x.address) ∧
      Counted (serviceLoop 256 c r).2.1 (t.add c (serviceLoop 256 c r).1.length) ∧
      (serviceLoop 256 c r).2.2.count = c.leaves r.count := by
  obtain ⟨hprogrammed, hle, hcount⟩ := h
  by_cases hzero : c.cndtr = 0
  · cases hpop : r.pop with
    | none =>
      have hempty := Ring.count_of_pop_none hpop
      rw [serviceLoop, hpop]
      refine ⟨List.forall_mem_nil _, ⟨hprogrammed, hle, fun hcirc => ?_⟩, ?_⟩
      · exact hcount ((add_circular_eq_false 0).mp hcirc).1
      · rw [hempty, leaves_zero]
    | some popped =>
      obtain ⟨byte, r₁⟩ := popped
      have hsome := Ring.count_of_pop hpop
      obtain ⟨ts, hts, hinside, htotal', hle', hleft⟩ :=
        serviceLoop_through 255 htotal hzero hpop (Ring.count_lt r)
      have hgood : ¬ Spent c t := fun hbad => hspent ⟨by omega, hbad⟩
      rw [Spent, and_iff_right hzero, not_or, not_not] at hgood
      obtain ⟨hminc, hmode⟩ := hgood
      refine ⟨?_, ⟨htotal'.trans hprogrammed, htotal'.symm ▸ hle', fun hcirc => ?_⟩, hleft⟩
      · rw [hts, ← hprogrammed]
        exact List.forall_mem_cons.mpr ⟨(dest_inBuffer_iff htotal hle).mpr (.inl hminc), hinside⟩
      · obtain ⟨hbefore, hnow⟩ := (add_circular_eq_false _).mp hcirc
        rw [hts] at hnow
        exact absurd ⟨hnow (Nat.zero_lt_succ _), hbefore⟩ hmode
  · have hmoved := serviceLoop_moved hzero hle (Ring.count_lt r)
    refine ⟨hprogrammed ▸ hmoved.inside, ⟨hmoved.total.trans hprogrammed,
      hmoved.total.symm ▸ hmoved.le, fun hcirc => ?_⟩, hmoved.left⟩
    obtain ⟨hbefore, hnow⟩ := (add_circular_eq_false _).mp hcirc
    rw [hmoved.total, ← hcount hbefore, Tally.add]
    dsimp only
    by_cases hnone : (serviceLoop 256 c r).1 = []
    · rw [hmoved.idle hnone, hnone, List.length_nil, Nat.add_zero]
    · have hone := hmoved.oneShot (hnow (List.length_pos_iff.mpr hnone))
      omega

/-- A channel without a count gets a byte. -/
lemma serviceLoop_spent (h : Counted c t) (htotal : c.total ≠ 0) (hsome : 0 < r.count)
    (hspent : Spent c t) :
    (∃ x ∈ (serviceLoop 256 c r).1, ¬ InBuffer c.cmar t.programmed x.address) ∨
      ¬ (t.add c (serviceLoop 256 c r).1.length).Kept := by
  obtain ⟨hprogrammed, hle, hcount⟩ := h
  obtain ⟨hzero, hwrong⟩ := hspent
  obtain ⟨⟨byte, r₁⟩, hpop⟩ : ∃ popped, r.pop = some popped := by
    rw [← Option.ne_none_iff_exists']
    intro hnone
    rw [Ring.count_of_pop_none hnone] at hsome
    exact Nat.lt_irrefl 0 hsome
  rcases hwrong with hminc | ⟨hcirc, hbefore⟩
  · obtain ⟨ts, hts, -⟩ := serviceLoop_through 255 htotal hzero hpop (Ring.count_lt r)
    refine .inl ⟨⟨c.dest, byte⟩, hts ▸ List.mem_cons_self .., ?_⟩
    rw [← hprogrammed]
    intro hin
    exact ((dest_inBuffer_iff htotal hle).mp hin).elim hminc (· hzero)
  · -- the byte is one more than was programmed
    refine .inr fun hkept => ?_
    have hmode : (t.add c (serviceLoop 256 c r).1.length).circular = false :=
      (add_circular_eq_false _).mpr ⟨hbefore, fun _ => hcirc⟩
    obtain ⟨ts, hts, -⟩ := serviceLoop_through 255 htotal hzero hpop (Ring.count_lt r)
    have hbound := hkept hmode
    have hfull := hcount hbefore
    rw [hzero, UInt32.toNat_zero, hprogrammed] at hfull
    rw [Tally.add, hts, List.length_cons] at hbound
    dsimp only at hbound
    omega

end Channel

/-! ## Runs -/

/-- A byte that a channel stored. -/
structure Stored where
  /-- Where the buffer of the channel began. -/
  base : UInt32
  /-- The length that was programmed. -/
  length : UInt32
  /-- Where the byte went. -/
  address : UInt32
  deriving DecidableEq

/-- The controller, with what was programmed and stored. -/
structure Watch where
  /-- The controller. -/
  dev : State
  /-- What was programmed into the channels. -/
  tally : Fin 7 → Tally
  /-- All that channels stored. -/
  stores : List Stored

/-- What may happen. -/
inductive UsartEvent where
  /-- The guest writes a register of the controller. -/
  | write (addr : ℕ) (value : UInt32)
  /-- The guest reads such a register. -/
  | read (addr : ℕ)
  /-- USART1 receives bytes. -/
  | receive (bytes : List UInt8)
  /-- The guest reads the data register of USART1. -/
  | dr
  /-- The controller is reset. -/
  | reset

/-- What an event does to the controller. -/
def State.step (s : State) : UsartEvent → State
  | .write addr value => writeDma addr value s
  | .read addr => (readDma addr s).2
  | .receive bytes => { s with usart1 := Dma.receive s.usart1 bytes }
  | .dr => (readDr s).2
  | .reset => Dma.reset s

/-- The address is that of the count of a channel. -/
def IsCount (addr : ℕ) : Prop := ∃ i, channelRegister addr = some (i, 0x04)

instance (addr : ℕ) : Decidable (IsCount addr) := inferInstanceAs (Decidable (∃ _, _))

/-- Serve one channel. -/
def Watch.serve (w : Watch) (i : Fin 7) : Watch :=
  let (transfers, dev) := serviceChannel w.dev i
  { dev := dev
    tally := Function.update w.tally i ((w.tally i).add (w.dev.ch i) transfers.length)
    stores := w.stores ++
      transfers.map fun t => ⟨(w.dev.ch i).cmar, (w.tally i).programmed, t.address⟩ }

/-- One event. -/
def Watch.step (w : Watch) (e : UsartEvent) : Watch :=
  match e with
  | .write addr value =>
    { w with
      dev := w.dev.step e
      tally := match channelRegister addr with
        | some (i, 0x04) => Function.update w.tally i ⟨value, 0, false⟩
        | _ => w.tally }
  | .read addr => if IsCount addr then (List.finRange 7).foldl Watch.serve w else w
  | _ => { w with dev := w.dev.step e }

/-- After a reset, with nothing programmed. -/
def Watch.start (s : State) : Watch := ⟨reset s, fun _ => ⟨0, 0, false⟩, []⟩

/-- Every byte went into the buffer, and one-shot channels have kept to their length. -/
def InBounds (w : Watch) : Prop :=
  (∀ x ∈ w.stores, InBuffer x.base x.length x.address) ∧ ∀ i, (w.tally i).Kept

/-- One of some channels gets one of `n` bytes although its count is through. -/
def Overruns (w : Watch) : List (Fin 7) → ℕ → Prop
  | [], _ => False
  | i :: is, n =>
    if (w.dev.ch i).serves then
      (0 < n ∧ Spent (w.dev.ch i) (w.tally i)) ∨ Overruns w is ((w.dev.ch i).leaves n)
    else Overruns w is n

/-- A count is read, and a channel gets a queued byte although its own count is through. -/
def Reuses (w : Watch) : UsartEvent → Prop
  | .read addr => IsCount addr ∧ Overruns w (List.finRange 7) w.dev.usart1.count
  | _ => False

/-! ## One event -/

/-- Serving a channel, without what is noted of it. -/
lemma serve_dev (w : Watch) (i : Fin 7) : (w.serve i).dev = (serviceChannel w.dev i).2 := rfl

/-- Serving several channels, without what is noted of them. -/
lemma foldl_serve_dev (is : List (Fin 7)) (w : Watch) :
    (is.foldl Watch.serve w).dev = (serviceChannels is w.dev).2 := by
  induction is generalizing w with
  | nil => rfl
  | cons i is ih =>
    rw [List.foldl_cons, ih, serve_dev]
    rfl

/-- Watching changes nothing. -/
lemma step_dev (w : Watch) (e : UsartEvent) : (w.step e).dev = w.dev.step e := by
  cases e with
  | write addr value => rfl
  | read addr =>
    rw [Watch.step, State.step]
    split
    · next hcount =>
      obtain ⟨i, hi⟩ := hcount
      have haddr : addr ≠ 0 := by
        rintro rfl
        cases hi
      rw [foldl_serve_dev, readDma, if_neg haddr, hi]
      rfl
    · next hnot =>
      rw [readDma]
      split
      · rfl
      · split
        · rfl
        · next i hi => exact absurd ⟨i, hi⟩ hnot
        · rfl
        · rfl
        · rfl
  | receive bytes => rfl
  | dr => rfl
  | reset => rfl

/-- What holds along a run in which nothing goes wrong. -/
structure InOrder (w : Watch) : Prop where
  inBounds : InBounds w
  counted : ∀ i, (w.dev.ch i).total ≠ 0 → Counted (w.dev.ch i) (w.tally i)

/-- Something went wrong, with a channel if it is a length. -/
def Broken (i : Fin 7) (w : Watch) : Prop :=
  (∃ x ∈ w.stores, ¬ InBuffer x.base x.length x.address) ∨ ¬ (w.tally i).Kept

section Serve

variable {w : Watch} {i : Fin 7}

/-- Something that went wrong is a byte behind a buffer or one too many. -/
lemma Broken.not_inBounds (h : Broken i w) : ¬ InBounds w := by
  rintro ⟨hinside, hkept⟩
  rcases h with ⟨x, hx, hout⟩ | hlength
  · exact hout (hinside x hx)
  · exact hlength (hkept i)

/-- It stays wrong while other channels are served. -/
lemma Broken.serve (h : Broken i w) {j : Fin 7} (hj : i ≠ j) : Broken i (w.serve j) := by
  rcases h with ⟨x, hx, hout⟩ | hlength
  · exact .inl ⟨x, List.mem_append_left _ hx, hout⟩
  · refine .inr ?_
    rw [Watch.serve]
    dsimp only
    rw [Function.update_of_ne hj]
    exact hlength

/-- What went wrong with a channel stays so while others are served. -/
lemma Broken.foldl_serve (h : Broken i w) {is : List (Fin 7)} (his : i ∉ is) :
    Broken i (is.foldl Watch.serve w) := by
  induction is generalizing w with
  | nil => exact h
  | cons j is ih =>
    rw [List.mem_cons, not_or] at his
    exact ih (h.serve his.1) his.2

/-- A channel that is not to be served is left as it is. -/
lemma serve_idle (h : (w.dev.ch i).serves = false) : w.serve i = w := by
  have hnone : (w.tally i).add (w.dev.ch i) 0 = w.tally i := by simp [Tally.add]
  have hchannel : serviceChannel w.dev i = ([], w.dev) := by
    rw [serviceChannel, h]
    rfl
  rw [Watch.serve, hchannel]
  dsimp only [List.length_nil]
  rw [hnone, Function.update_eq_self, List.map_nil, List.append_nil]

/-- Serving a channel that serves USART1. -/
lemma serve_eq (h : (w.dev.ch i).serves = true) :
    let out := serviceLoop 256 (w.dev.ch i) w.dev.usart1
    (w.serve i).dev.ch = Function.update w.dev.ch i out.2.1 ∧
      (w.serve i).dev.usart1 = out.2.2 ∧
      (w.serve i).tally = Function.update w.tally i ((w.tally i).add (w.dev.ch i) out.1.length) ∧
      (w.serve i).stores = w.stores ++
        out.1.map fun t => ⟨(w.dev.ch i).cmar, (w.tally i).programmed, t.address⟩ := by
  rw [Watch.serve, serviceChannel, if_pos h]
  exact ⟨rfl, rfl, rfl, rfl⟩

/-- A channel that is to be served has a length. -/
lemma total_ne_zero (h : (w.dev.ch i).serves = true) : (w.dev.ch i).total ≠ 0 :=
  (of_decide_eq_true h).2.2.2

/-- A channel is served in order. -/
lemma InOrder.serve (h : InOrder w) (hserves : (w.dev.ch i).serves = true)
    (hspent : ¬ (0 < w.dev.usart1.count ∧ Spent (w.dev.ch i) (w.tally i))) :
    InOrder (w.serve i) ∧
      (w.serve i).dev.usart1.count = (w.dev.ch i).leaves w.dev.usart1.count := by
  have htotal := total_ne_zero hserves
  obtain ⟨hch, hqueue, htally, hstores⟩ := serve_eq hserves
  obtain ⟨hinside, hcounted, hleft⟩ := serviceLoop_counted (h.counted i htotal) htotal hspent
  refine ⟨⟨⟨?_, fun j => ?_⟩, fun j => ?_⟩, by rw [hqueue, hleft]⟩
  · rw [hstores, List.forall_mem_append, List.forall_mem_map]
    exact ⟨h.inBounds.1, hinside⟩
  · rw [htally]
    by_cases hj : j = i
    · subst hj
      rw [Function.update_self]
      exact hcounted.kept
    · rw [Function.update_of_ne hj]
      exact h.inBounds.2 j
  · rw [hch, htally]
    by_cases hj : j = i
    · subst hj
      rw [Function.update_self, Function.update_self]
      exact fun _ => hcounted
    · rw [Function.update_of_ne hj, Function.update_of_ne hj]
      exact h.counted j

/-- A channel without a count gets a byte. -/
lemma InOrder.broken_serve (h : InOrder w) (hserves : (w.dev.ch i).serves = true)
    (hsome : 0 < w.dev.usart1.count) (hspent : Spent (w.dev.ch i) (w.tally i)) :
    Broken i (w.serve i) := by
  obtain ⟨-, -, htally, hstores⟩ := serve_eq hserves
  rw [Broken, htally, hstores, Function.update_self]
  have htotal := total_ne_zero hserves
  refine (serviceLoop_spent (h.counted i htotal) htotal hsome hspent).imp_left ?_
  rintro ⟨x, hx, hout⟩
  exact ⟨_, List.mem_append_right _ (List.mem_map_of_mem hx), hout⟩

end Serve

/-- Only the channels that are served matter. -/
lemma overruns_congr {w w' : Watch} {is : List (Fin 7)}
    (h : ∀ i ∈ is, w.dev.ch i = w'.dev.ch i ∧ w.tally i = w'.tally i) (n : ℕ) :
    Overruns w is n ↔ Overruns w' is n := by
  induction is generalizing n with
  | nil => exact Iff.rfl
  | cons i is ih =>
    obtain ⟨hch, htally⟩ := h i (List.mem_cons_self ..)
    have hrest := ih fun j hj => h j (List.mem_cons_of_mem _ hj)
    rw [Overruns, Overruns, hch, htally, hrest, hrest]

/-- **Serving all channels** goes wrong exactly if one of them gets a byte without a count.

**Proof sketch.** Induction on the channels. Serving one of them leaves the others as they were, and
what has gone wrong stays wrong. -/
lemma InOrder.foldl_serve {is : List (Fin 7)} (his : is.Nodup) {w : Watch} (h : InOrder w) :
    (¬ Overruns w is w.dev.usart1.count → InOrder (is.foldl Watch.serve w)) ∧
      (Overruns w is w.dev.usart1.count → ¬ InBounds (is.foldl Watch.serve w)) := by
  induction is generalizing w with
  | nil => exact ⟨fun _ => h, False.elim⟩
  | cons i is ih =>
    rw [List.nodup_cons] at his
    rw [List.foldl_cons, Overruns]
    by_cases hserves : (w.dev.ch i).serves = true
    · rw [if_pos hserves]
      by_cases hbad : 0 < w.dev.usart1.count ∧ Spent (w.dev.ch i) (w.tally i)
      · have hbroken := h.broken_serve hserves hbad.1 hbad.2
        exact ⟨fun hgood => absurd (.inl hbad) hgood,
          fun _ => (hbroken.foldl_serve his.1).not_inBounds⟩
      · obtain ⟨hnext, hleft⟩ := h.serve hserves hbad
        obtain ⟨hch, -, htally, -⟩ := serve_eq hserves
        have hsame : ∀ j ∈ is, w.dev.ch j = (w.serve i).dev.ch j ∧
            w.tally j = (w.serve i).tally j := by
          intro j hj
          have hne : j ≠ i := fun heq => his.1 (heq ▸ hj)
          rw [hch, htally, Function.update_of_ne hne, Function.update_of_ne hne]
          exact ⟨rfl, rfl⟩
        rw [or_iff_right hbad, overruns_congr hsame, ← hleft]
        exact ih his.2 hnext
    · rw [if_neg hserves, serve_idle (Bool.eq_false_iff.mpr hserves)]
      exact ih his.2 h

/-! ## All events -/

/-- A register of a channel is written, but not its count. -/
lemma InOrder.setChannel {w : Watch} (h : InOrder w) {i : Fin 7} {c : Channel}
    (htotal : c.total = (w.dev.ch i).total) (hcndtr : c.cndtr = (w.dev.ch i).cndtr) :
    InOrder { w with dev := w.dev.setChannel i c } := by
  refine ⟨h.inBounds, fun j => ?_⟩
  dsimp only
  by_cases hj : j = i
  · subst hj
    rw [setChannel_self, htotal]
    intro hne
    obtain ⟨hprogrammed, hle, hsum⟩ := h.counted j hne
    refine ⟨htotal.trans hprogrammed, ?_, ?_⟩
    · rw [htotal, hcndtr]
      exact hle
    · rw [htotal, hcndtr]
      exact hsum
  · rw [setChannel_of_ne _ _ hj]
    exact h.counted j

/-- A count is written. -/
lemma InOrder.setCount {w : Watch} (h : InOrder w) (i : Fin 7) (value : UInt32) :
    InOrder { w with
      dev := w.dev.setChannel i { w.dev.ch i with cndtr := value, total := value }
      tally := Function.update w.tally i ⟨value, 0, false⟩ } := by
  refine ⟨⟨h.inBounds.1, fun j => ?_⟩, fun j => ?_⟩
  · dsimp only
    by_cases hj : j = i
    · subst hj
      rw [Function.update_self]
      exact fun _ => Nat.zero_le _
    · rw [Function.update_of_ne hj]
      exact h.inBounds.2 j
  · dsimp only
    by_cases hj : j = i
    · subst hj
      rw [setChannel_self, Function.update_self]
      exact fun _ => ⟨rfl, UInt32.le_refl _, fun _ => Nat.zero_add _⟩
    · rw [setChannel_of_ne _ _ hj, Function.update_of_ne hj]
      exact h.counted j

/-- A write to the controller, which starts or stops channels, keeps the order. -/
lemma InOrder.write {w : Watch} (h : InOrder w) (addr : ℕ) (value : UInt32) :
    InOrder (w.step (.write addr value)) := by
  rw [Watch.step, State.step, writeDma]
  dsimp only
  by_cases haddr : addr = 0x04
  · subst haddr
    exact ⟨h.inBounds, h.counted⟩
  · rw [if_neg haddr]
    split
    · next i hregister =>
      rw [hregister]
      exact h.setChannel rfl rfl
    · next i hregister =>
      rw [hregister]
      exact h.setCount i value
    · next i hregister =>
      rw [hregister]
      exact h.setChannel rfl rfl
    · next i hregister =>
      rw [hregister]
      exact h.setChannel rfl rfl
    · next hcount _ _ =>
      split
      · next i hregister => exact absurd hregister (hcount i)
      · exact h

/-- An event that gives no byte to a channel without a count. -/
lemma InOrder.step {w : Watch} (h : InOrder w) {e : UsartEvent} (he : ¬ Reuses w e) :
    InOrder (w.step e) := by
  cases e with
  | write addr value => exact h.write addr value
  | read addr =>
    rw [Watch.step]
    split
    · next hcount =>
      exact (h.foldl_serve (List.nodup_finRange 7)).1 fun hover => he ⟨hcount, hover⟩
    · exact h
  | receive bytes => exact ⟨h.inBounds, h.counted⟩
  | dr =>
    have hch : (readDr w.dev).2.ch = w.dev.ch := by
      rw [readDr]
      split
      · rfl
      · rfl
    refine ⟨h.inBounds, fun i => ?_⟩
    change ((readDr w.dev).2.ch i).total ≠ 0 → Counted ((readDr w.dev).2.ch i) (w.tally i)
    rw [hch]
    exact h.counted i
  | reset => exact ⟨h.inBounds, fun _ hne => absurd rfl hne⟩

/-- An event that gives a byte to one. -/
lemma InOrder.not_inBounds_step {w : Watch} (h : InOrder w) {e : UsartEvent} (he : Reuses w e) :
    ¬ InBounds (w.step e) := by
  cases e with
  | read addr =>
    rw [Watch.step, if_pos he.1]
    exact (h.foldl_serve (List.nodup_finRange 7)).2 he.2
  | write addr value => exact he.elim
  | receive bytes => exact he.elim
  | dr => exact he.elim
  | reset => exact he.elim

/-- **When everything stays in the buffers.** After a reset the guest writes and reads registers of
the controller, reads the data register, resets the controller, and bytes arrive, in any order. At
all times every byte that a channel has stored went into the buffer that was programmed, and a
channel that stored nothing in circular mode has stored no more than was programmed, exactly if no
count is ever read while a queued byte comes to a channel that is enabled although its own count is
through, and that moves its address, or is not circular and has not been since its count was
written.

**Proof sketch.** What a one-shot channel has stored and what it counts add up to what was
programmed, and a count never exceeds that. The first byte that a channel gets without a count goes
behind the buffer, or is one too many. -/
theorem stores_inBounds_iff (s : State) (es : List UsartEvent) :
    Run.AllStates Watch.step InBounds (.start s) es ↔
      Run.AllSteps Watch.step (fun w e => ¬ Reuses w e) (.start s) es := by
  have hstart : InOrder (.start s) :=
    ⟨⟨List.forall_mem_nil _, fun _ _ => Nat.zero_le _⟩, fun _ hne => absurd rfl hne⟩
  exact Run.allStates_iff_allSteps (I := InOrder) (fun _ h => h.inBounds)
    (fun _ _ h he => h.step he) (fun _ _ h he => h.not_inBounds_step (not_not.mp he)) es _ hstart

/-- A buffer of one byte is filled, and the channel is enabled again. -/
def rearmed : List UsartEvent :=
  [.write 0x0c 1, .write 0x10 (usart1Base + 4), .write 0x14 0x20000000,
    .write 0x08 (ccrEn ||| ccrMinc), .receive [10], .read 0x0c,
    .write 0x08 (ccrEn ||| ccrMinc), .receive [20], .read 0x0c]

/-- The second byte goes behind the buffer. -/
theorem rearmed_overrun : ¬ ∀ (s : State) (es : List UsartEvent),
    Run.AllStates Watch.step InBounds (.start s) es := by
  intro h
  have hinside := (h armedState rearmed).last.1 ⟨0x20000000, 1, 0x20000001⟩ (by decide +kernel)
  exact absurd hinside (by decide)

end Uvk5.Dma
