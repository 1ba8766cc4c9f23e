import Uvk5.Transceiver.Squelch

set_option relaxedAutoImplicit false
set_option autoImplicit false

/-!
# The firmware's interrupt-collection loop

The firmware collects interrupts with a loop that has no timeout:

    while (ReadRegister(REG_0C) & 1) { WriteRegister(REG_02, 0); flags = ReadRegister(REG_02); }

Each test of its condition evaluates the receiver again, which may raise the very bit the loop
clears. The loop ends all the same, and collects every flag.

## Main definitions

* `BK4819.readRegister`, `BK4819.writeRegister` — one transaction on the pins.
* `BK4819.collect` — the loop, with a bound on its tests.

## Main results

* `BK4819.collect_terminates` — from every reachable state of the bus and any contents of the
  registers the loop ends after at most three iterations, and once it has acknowledged anything
  no flag is lost.

## Design

The loop is brought down to the registers by `collect_succ`. After one acknowledgement nothing
is pending and the request is clear, so an iteration is due exactly to a new report
(`Acked.request_iff`). Two reports in a row take an announcement and the close after it, and no
third can follow: announcements are 64 evaluations apart.
-/

namespace Uvk5.BK4819

open ShiftRegister

/-! ## Register access on the pins -/

/-- The pin events of one access: select with the clock low, the transaction, deselect. -/
def accessPins (t : Txn) : List Pin :=
  [.cs true, .line (.scl false), .cs false] ++ t.pins ++ [.cs true]

/-- The word in a sequence of samples. -/
def sampledWord (bits : List Bool) : UInt16 := (bits.foldl ShiftRegister.shiftIn 0).toUInt16

/-- `ReadRegister` over the pins. -/
def readRegister (s : State) (r : Reg) : UInt16 × State :=
  (sampledWord (samples s (accessPins (.read r))), pins s (accessPins (.read r)))

/-- `WriteRegister` over the pins. -/
def writeRegister (s : State) (r : Reg) (v : UInt16) : State := pins s (accessPins (.write r v))

/-- What the loop did. -/
structure Collected where
  /-- The values of `REG_0C` that the tests of the condition read, in order. -/
  requests : List UInt16
  /-- The flags pending after each evaluation, in order. -/
  pending : List UInt16
  /-- The flags delivered in each iteration, in order. -/
  delivered : List UInt16
  /-- The device at exit. -/
  final : State

/-- The loop, with at most `fuel` tests of its condition. -/
def collect : ℕ → State → Option Collected
  | 0, _ => none
  | fuel + 1, s =>
    let (request, s) := readRegister s regInterrupt
    let pending := s.pendingInt
    if request &&& 1 = 0 then some ⟨[request], [pending], [], s⟩
    else
      let s := writeRegister s regIntFlags 0
      let (flags, s) := readRegister s regIntFlags
      (collect fuel s).map fun c =>
        ⟨request :: c.requests, pending :: c.pending, flags :: c.delivered, c.final⟩

/-- An access leaves the registers the transaction leaves, and the bus idle. -/
lemma access {s : State} (h : IdleDeselected s) (t : Txn) :
    (pins s (accessPins t)).toRadio = t.apply s.toRadio ∧
      IdleDeselected (pins s (accessPins t)) := by
  have hready : Ready s.toRadio (pins s [.cs true, .line (.scl false), .cs false]) :=
    ready_reselect h []
  refine ⟨?_, h.pins _⟩
  rw [accessPins, pins_append, pins_append]
  exact (setCs_radio _ true).trans (hready.txn t).radio

/-- The sixteen bits of a word, sampled one after the other, are the word. -/
lemma sampledWord_msbBits (w : UInt16) : sampledWord (msbBits 16 w.toNat) = w := by
  apply UInt16.toNat_inj.mp
  rw [sampledWord, UInt32.toNat_toUInt16, toNat_foldl_shiftIn 16 _ 0 0 (by decide) (by decide)]
  simp

/-- A read delivers the register. -/
lemma readRegister_value {s : State} (h : IdleDeselected s) (r : Reg) :
    (readRegister s r).1 = readValue s.toRadio r := by
  have hready : Ready s.toRadio (pins s [.cs true, .line (.scl false), .cs false]) :=
    ready_reselect h []
  have hselect : samples s [.cs true, .line (.scl false), .cs false] = [] := rfl
  have hrelease : ∀ s', samples s' [.cs true] = [] := fun _ => rfl
  rw [readRegister, accessPins, samples_append, samples_append, hselect, hrelease,
    hready.samples_read r, List.nil_append, List.append_nil, sampledWord_msbBits]

/-! ## The loop on the registers -/

/-- The registers after one iteration: evaluate, acknowledge. -/
def iterate (s : Radio) : Radio := (Txn.write regIntFlags 0).apply (evalReceiver s)

/-- A write of zero to the flags is an acknowledgement. -/
lemma write_intFlags (s : Radio) :
    (Txn.write regIntFlags 0).apply s =
      acknowledge { s with regs := Function.update s.regs regIntFlags 0 } := rfl

/-- An iteration evaluates the receiver once. -/
lemma iterate_tick (s : Radio) : (iterate s).tick = s.tick + 1 := by
  rw [iterate, write_intFlags, evalReceiver_eq, acknowledge]

/-- After an iteration the squelch is held open exactly if it has just been announced. -/
lemma iterate_squelchOpen (s : Radio) :
    (iterate s).squelchOpen = decide (report s = .opened) := by
  rw [iterate, write_intFlags, evalReceiver_eq, acknowledge]

/-- An iteration leaves the interrupt register of its evaluation, with bit 0 clear. -/
lemma iterate_interrupt (s : Radio) :
    (iterate s).regs regInterrupt = (evalReceiver s).regs regInterrupt &&& ~~~1 := by
  simp only [iterate, write_intFlags, acknowledge]
  rw [Function.update_self, Function.update_of_ne (by decide)]

/-- Just acknowledged: nothing is pending and the request is clear. -/
def Acked (s : Radio) : Prop := s.pendingInt = 0 ∧ s.regs regInterrupt &&& 1 = 0

/-- An iteration ends with an acknowledgement. -/
lemma acked_iterate (s : Radio) : Acked (iterate s) := by
  refine ⟨rfl, ?_⟩
  rw [iterate_interrupt, UInt16.and_assoc]
  exact UInt16.and_zero

/-- After an acknowledgement an evaluation leaves pending what it reports. -/
lemma Acked.pendingInt {s : Radio} (h : Acked s) :
    (evalReceiver s).pendingInt = (report s).flag := by
  rw [evalReceiver_eq]
  change s.pendingInt ||| _ = _
  rw [h.1, UInt16.zero_or]

/-- Bit 0 is set once it has been set. -/
lemma or_one_and_one_ne_zero (w : UInt16) : (w ||| 1) &&& 1 ≠ 0 := by
  intro h
  have hbit := congrArg (fun v => v.toNat.testBit 0) h
  simp only [UInt16.toNat_and, UInt16.toNat_or, Nat.testBit_and, Nat.testBit_or] at hbit
  simp at hbit

/-- Nothing is reported by a receiver that does not listen. -/
lemma listening_of_report {s : Radio} (h : report s ≠ .silent) : listening s.regs = true := by
  by_contra hl
  exact h (by simp [report, hl])

/-- After an acknowledgement the request is raised exactly when there is something to report. -/
lemma Acked.request_iff {s : Radio} (h : Acked s) :
    (evalReceiver s).regs regInterrupt &&& 1 = 0 ↔ report s = .silent := by
  rw [evalReceiver_eq]
  change evalRegs s regInterrupt &&& 1 = 0 ↔ _
  rw [evalRegs, Function.update_self, h.1, UInt16.zero_or]
  by_cases hreport : report s = .silent
  · simp [hreport, Report.flag, h.2]
  · have hflag : (report s).flag ≠ 0 := by
      revert hreport
      cases report s <;> decide
    rw [if_pos ⟨listening_of_report hreport, hflag⟩]
    exact iff_of_false (or_one_and_one_ne_zero _) hreport

/-- Announcements are 64 evaluations apart. -/
lemma tick_apart {t : UInt32} (h : (t + 1) % 64 = 0) :
    (t + 1 + 1) % 64 ≠ 0 ∧ (t + 1 + 1 + 1) % 64 ≠ 0 := by
  have h64 : (64 : UInt32).toNat = 64 := rfl
  have h1 : (1 : UInt32).toNat = 1 := rfl
  have h0 : (0 : UInt32).toNat = 0 := rfl
  simp only [ne_eq, ← UInt32.toNat_inj, UInt32.toNat_mod, UInt32.toNat_add, h64, h1, h0] at h ⊢
  constructor <;> omega

/-- An announcement comes with every 64th evaluation only. -/
lemma report_eq_opened {s : Radio} (h : report s = .opened) : (s.tick + 1) % 64 = 0 := by
  by_contra htick
  rw [report] at h
  split_ifs at h with hl hopen
  exact htick hopen.1

/-- Between announcements a closed squelch has nothing to report. -/
lemma report_eq_silent {s : Radio} (htick : (s.tick + 1) % 64 ≠ 0)
    (hsq : s.squelchOpen = false) : report s = .silent := by
  simp [report, htick, hsq]

/-- **No three reports in a row** once the loop has acknowledged: after an announcement comes
the close, and then nothing until the next announcement is due.

**Proof sketch.** If the first of the three announces, the second can only close and the third
finds the squelch shut and no announcement due. If the first closes, the evaluation before it
announced, so the second finds the squelch shut and no announcement due. -/
lemma silent_within_three (s : Radio) :
    report (iterate s) = .silent ∨ report (iterate (iterate s)) = .silent ∨
      report (iterate (iterate (iterate s))) = .silent := by
  cases hfirst : report (iterate s) with
  | silent => exact Or.inl rfl
  | opened =>
    have hdue := report_eq_opened hfirst
    obtain ⟨h₂, h₃⟩ := tick_apart hdue
    have hsecond : report (iterate (iterate s)) ≠ .opened := by
      intro hopen
      have htick := report_eq_opened hopen
      rw [iterate_tick] at htick
      exact h₂ htick
    refine Or.inr (Or.inr (report_eq_silent ?_ ?_))
    · rw [iterate_tick, iterate_tick]
      exact h₃
    · rw [iterate_squelchOpen, decide_eq_false hsecond]
  | closed =>
    obtain ⟨-, hsq, -⟩ := (report_eq_closed _).mp hfirst
    rw [iterate_squelchOpen, decide_eq_true_eq] at hsq
    obtain ⟨-, h₃⟩ := tick_apart (report_eq_opened hsq)
    refine Or.inr (Or.inl (report_eq_silent ?_ ?_))
    · rw [iterate_tick, iterate_tick]
      exact h₃
    · rw [iterate_squelchOpen, hfirst]
      rfl

/-! ## The loop on the pins -/

/-- One test of the condition, and the iteration behind it, in terms of the registers.

**Proof sketch.** The read of the condition evaluates the receiver and puts the request bit in
`REG_0C`. With the bit set the acknowledgement and the read of the flags follow, which are two
more transactions on an idle bus. -/
lemma collect_succ {s : State} (h : IdleDeselected s) (fuel : ℕ) :
    ((evalReceiver s.toRadio).regs regInterrupt &&& 1 = 0 →
      ∃ s', s'.toRadio = evalReceiver s.toRadio ∧
        collect (fuel + 1) s = some ⟨[(evalReceiver s.toRadio).regs regInterrupt],
          [(evalReceiver s.toRadio).pendingInt], [], s'⟩) ∧
    ((evalReceiver s.toRadio).regs regInterrupt &&& 1 ≠ 0 →
      ∃ s', IdleDeselected s' ∧ s'.toRadio = iterate s.toRadio ∧
        collect (fuel + 1) s = (collect fuel s').map fun c =>
          ⟨(evalReceiver s.toRadio).regs regInterrupt :: c.requests,
            (evalReceiver s.toRadio).pendingInt :: c.pending,
            (evalReceiver s.toRadio).pendingInt :: c.delivered, c.final⟩) := by
  obtain ⟨hradio, hidle⟩ := access h (.read regInterrupt)
  have hvalue := readRegister_value h regInterrupt
  rw [readValue, read_interrupt] at hvalue
  rw [read_interrupt] at hradio
  have hpending : (readRegister s regInterrupt).2.pendingInt =
      (evalReceiver s.toRadio).pendingInt := congrArg Radio.pendingInt hradio
  simp only [collect, hvalue, hpending]
  refine ⟨fun hclear => ⟨_, hradio, if_pos hclear⟩, fun hset => ?_⟩
  obtain ⟨hradio₂, hidle₂⟩ := access hidle (.write regIntFlags 0)
  obtain ⟨hradio₃, hidle₃⟩ := access hidle₂ (.read regIntFlags)
  have hiter : (Txn.write regIntFlags 0).apply (pins s (accessPins (.read regInterrupt))).toRadio =
      iterate s.toRadio := by rw [hradio, iterate]
  rw [hiter] at hradio₂
  have hflags := readRegister_value hidle₂ regIntFlags
  rw [hradio₂] at hflags hradio₃
  refine ⟨_, hidle₃, hradio₃, ?_⟩
  rw [if_neg hset]
  simp only [writeRegister, readRegister] at hflags ⊢
  rw [hflags]
  congr 1

/-- The loop goes on as long as the request is set, and ends when it is clear: there is one test
more than there are iterations, and the last one alone reads bit 0 clear. -/
lemma collect_requests (fuel : ℕ) {s : State} {c : Collected} (hc : collect fuel s = some c) :
    ∃ set last, c.requests = set ++ [last] ∧ set.length = c.delivered.length ∧
      (∀ r ∈ set, r &&& 1 ≠ 0) ∧ last &&& 1 = 0 := by
  induction fuel generalizing s c with
  | zero => cases hc
  | succ fuel ih =>
    simp only [collect] at hc
    split_ifs at hc with hclear
    · obtain rfl := Option.some.inj hc
      exact ⟨[], _, rfl, rfl, List.forall_mem_nil _, hclear⟩
    · obtain ⟨c', hc', rfl⟩ := Option.map_eq_some_iff.mp hc
      obtain ⟨set, last, hrequests, hlength, hset, hlast⟩ := ih hc'
      refine ⟨_ :: set, last, by rw [hrequests, List.cons_append], ?_, ?_, hlast⟩
      · rw [List.length_cons, List.length_cons, hlength]
      · exact List.forall_mem_cons.mpr ⟨hclear, hset⟩

/-- Once acknowledged, the loop leaves nothing pending, and delivers whatever an evaluation
leaves pending. -/
lemma collect_flags (fuel : ℕ) {s : State} (h : IdleDeselected s) (hacked : Acked s.toRadio)
    {c : Collected} (hc : collect fuel s = some c) :
    c.final.pendingInt = 0 ∧ ∀ p ∈ c.pending, p = 0 ∨ p ∈ c.delivered := by
  induction fuel generalizing s c with
  | zero => cases hc
  | succ fuel ih =>
    obtain ⟨hclear, hset⟩ := collect_succ h fuel
    by_cases hreq : (evalReceiver s.toRadio).regs regInterrupt &&& 1 = 0
    · obtain ⟨s', hs', hstop⟩ := hclear hreq
      obtain rfl := Option.some.inj (hstop.symm.trans hc)
      have hnone : (evalReceiver s.toRadio).pendingInt = 0 := by
        rw [hacked.pendingInt, hacked.request_iff.mp hreq, Report.flag]
      refine ⟨(congrArg Radio.pendingInt hs').trans hnone, fun p hp => Or.inl ?_⟩
      rw [List.mem_singleton.mp hp, hnone]
    · obtain ⟨s', hidle, hs', hgo⟩ := hset hreq
      rw [hgo, Option.map_eq_some_iff] at hc
      obtain ⟨c', hc', rfl⟩ := hc
      obtain ⟨hfinal, hdelivered⟩ := ih hidle (hs' ▸ acked_iterate s.toRadio) hc'
      refine ⟨hfinal, fun p hp => ?_⟩
      cases hp with
      | head => exact Or.inr (List.mem_cons_self ..)
      | tail _ hp => exact (hdelivered p hp).imp_right (List.mem_cons_of_mem _)

/-- A loop whose next evaluation is silent stops there. -/
lemma collect_of_silent {s : State} (h : IdleDeselected s) (hacked : Acked s.toRadio)
    (hsilent : report s.toRadio = .silent) (fuel : ℕ) :
    ∃ c, collect (fuel + 1) s = some c ∧ c.delivered.length = 0 := by
  obtain ⟨s', -, hstop⟩ := (collect_succ h fuel).1 (hacked.request_iff.mpr hsilent)
  exact ⟨_, hstop, rfl⟩

/-- One more iteration in front of a loop that ends. -/
lemma collect_bound {s : State} (h : IdleDeselected s) {fuel n : ℕ}
    (hnext : ∀ s', IdleDeselected s' → s'.toRadio = iterate s.toRadio →
      ∃ c, collect fuel s' = some c ∧ c.delivered.length ≤ n) :
    ∃ c, collect (fuel + 1) s = some c ∧ c.delivered.length ≤ n + 1 := by
  obtain ⟨hclear, hset⟩ := collect_succ h fuel
  by_cases hreq : (evalReceiver s.toRadio).regs regInterrupt &&& 1 = 0
  · obtain ⟨s', -, hstop⟩ := hclear hreq
    exact ⟨_, hstop, Nat.zero_le _⟩
  · obtain ⟨s', hidle, hs', hgo⟩ := hset hreq
    obtain ⟨c, hc, hlen⟩ := hnext s' hidle hs'
    rw [hgo, hc]
    exact ⟨_, rfl, Nat.succ_le_succ hlen⟩

/-- The loop ends, after at most three iterations. -/
lemma collect_ends {s : State} (h : IdleDeselected s) :
    ∃ c, collect 4 s = some c ∧ c.delivered.length ≤ 3 := by
  have hsilent := silent_within_three s.toRadio
  refine collect_bound h fun s₁ hidle₁ h₁ => ?_
  rw [← h₁] at hsilent
  have hacked₁ : Acked s₁.toRadio := h₁ ▸ acked_iterate _
  rcases hsilent with hsil | hsilent
  · obtain ⟨c, hc, hlen⟩ := collect_of_silent hidle₁ hacked₁ hsil 2
    exact ⟨c, hc, by omega⟩
  refine collect_bound hidle₁ fun s₂ hidle₂ h₂ => ?_
  rw [← h₂] at hsilent
  have hacked₂ : Acked s₂.toRadio := h₂ ▸ acked_iterate _
  rcases hsilent with hsil | hsil
  · obtain ⟨c, hc, hlen⟩ := collect_of_silent hidle₂ hacked₂ hsil 1
    exact ⟨c, hc, by omega⟩
  refine collect_bound hidle₂ fun s₃ hidle₃ h₃ => ?_
  rw [← h₃] at hsil
  have hacked₃ : Acked s₃.toRadio := h₃ ▸ acked_iterate _
  obtain ⟨c, hc, hlen⟩ := collect_of_silent hidle₃ hacked₃ hsil 0
  exact ⟨c, hc, hlen.le⟩

/-- **The collection loop.** From every reachable state of the bus, with any contents of the
registers and the receiver, the loop ends after at most three iterations; it goes on as long as
bit 0 of `REG_0C` is set, and ends on a value with that bit clear. If it acknowledges at all,
every flag pending at entry or after any of its evaluations is in a value it delivers, and none is
pending at exit.

**Proof sketch.** The bus is idle whatever its history, so an iteration is what `collect_succ` says.
After at most three nothing is requested (`collect_ends`). The first one delivers what is pending
then, and `collect_flags` says that what the later evaluations raise is delivered as well. -/
theorem collect_terminates (s₀ : State) (history : List Pin) (radio : Radio) :
    let s : State := { pins (reset s₀) history with toRadio := radio }
    ∃ c, collect 4 s = some c ∧ c.delivered.length ≤ 3 ∧
      (∃ set last, c.requests = set ++ [last] ∧ set.length = c.delivered.length ∧
        (∀ r ∈ set, r &&& 1 ≠ 0) ∧ last &&& 1 = 0) ∧
      (c.delivered ≠ [] → c.final.pendingInt = 0 ∧
        ∀ p ∈ s.pendingInt :: c.pending, ∀ i, p.toNat.testBit i = true →
          ∃ f ∈ c.delivered, f.toNat.testBit i = true) := by
  intro s
  have hidle : IdleDeselected s := (idleDeselected_reset s₀).pins history
  obtain ⟨c, hc, hlen⟩ := collect_ends hidle
  refine ⟨c, hc, hlen, collect_requests 4 hc, fun hne => ?_⟩
  obtain ⟨hclear, hset⟩ := collect_succ hidle 3
  by_cases hreq : (evalReceiver s.toRadio).regs regInterrupt &&& 1 = 0
  · obtain ⟨s', -, hstop⟩ := hclear hreq
    obtain rfl := Option.some.inj (hstop.symm.trans hc)
    exact absurd rfl hne
  obtain ⟨s', hidle', hs', hgo⟩ := hset hreq
  rw [hgo, Option.map_eq_some_iff] at hc
  obtain ⟨c', hc', rfl⟩ := hc
  obtain ⟨hfinal, hdelivered⟩ := collect_flags 3 hidle' (hs' ▸ acked_iterate _) hc'
  refine ⟨hfinal, fun p hp i hi => ?_⟩
  have hentry : ∀ i, s.pendingInt.toNat.testBit i = true →
      (evalReceiver s.toRadio).pendingInt.toNat.testBit i = true := by
    intro i hi
    rw [evalReceiver_eq, UInt16.toNat_or, Nat.testBit_or, hi, Bool.true_or]
  cases hp with
  | head => exact ⟨_, List.mem_cons_self .., hentry i hi⟩
  | tail _ hp =>
    cases hp with
    | head => exact ⟨_, List.mem_cons_self .., hi⟩
    | tail _ hp =>
      rcases hdelivered p hp with rfl | hmem
      · simp at hi
      · exact ⟨p, List.mem_cons_of_mem _ hmem, hi⟩

end Uvk5.BK4819
