import Mathlib.Logic.Function.Basic
import Uvk5.Lib.Run
import Uvk5.Serial.Framing
import Uvk5.Slots.Header

set_option relaxedAutoImplicit false
set_option autoImplicit false

/-!
# The link to the slot commands

A serial link with a queue of frames in each direction, the device that answers the slot commands
at one end, and the messages the host has reassembled but not yet taken at the other. Frames keep
their order, and any of them may be dropped or delayed.

## Main definitions

* `Serial.Device` — a device, with what the host relies on; `Serial.slotDevice` — one with a slot.
* `Serial.Link`, `Serial.Move`, `Serial.Link.step` — the link, and what may happen on it while the
  host waits.
* `Serial.Link.pump` — `Radio._pump`: a wait of the host, as a list of polls.
* `Serial.Stable` — an invariant of the link that no event breaks.

## Main results

* `Serial.Exchange.stable`, `Serial.Exchange.pump_answered` — once a command is the only one of its
  kind on the link, an acknowledgement that arrives answers it.
* `Serial.Ordered.stable`, `Serial.SentFrom.stable` — the device processes commands in the order
  they were sent, and only those.

## Design

Each command is numbered as it is sent, and the device's log keeps the number and the state it was
processed in. Neither exists on the wire: acknowledgements carry only their type, and the results
about the host say what that is enough for.
-/

namespace Uvk5.Serial

open Bytes

/-! ## The device -/

/-- A device that answers the slot commands. -/
structure Device where
  /-- Its state. -/
  State : Type
  /-- Process a command: the state after it and the reply, if any. -/
  handle : State → Msg → State × Option Msg
  /-- Whether it carries out a slot write it processes. -/
  accepts : State → Msg → Bool
  /-- The status and the CRC of the contents of a slot. -/
  check : State → UInt8 → UInt8 × UInt32
  /-- A reply has the type of its command, plus one. -/
  answers : ∀ d m r, (handle d m).2 = some r → r.msgType = m.msgType + 1
  /-- A slot write is answered with status 0 only if it is carried out. -/
  confirms : ∀ d m r, (handle d m).2 = some r → m.msgType = 0x0724 → r.data[1]? = some 0 →
    accepts d m = true
  /-- A validation is answered with the CRC and the status of the slot at that moment. -/
  validates : ∀ d s, (handle d ⟨0x0726, [s]⟩).2 =
    some ⟨0x0727, toLe 4 (check d s).2.toNat ++ [s, (check d s).1]⟩

/-- A device with a single slot. -/
structure SlotState where
  /-- The timestamp of the session. -/
  session : ℕ
  /-- The start of the slot, since it was erased. -/
  header : List UInt8
  /-- The slot from `slotImageOffset` on, since it was erased. -/
  image : List UInt8

/-- Flash contents after a write at an offset. -/
def overwrite (old : List UInt8) (offset : ℕ) (new : List UInt8) : List UInt8 :=
  (old.rightpad offset 0xFF).take offset ++ new ++ old.drop (offset + new.length)

/-- The slot after a write at an offset in it. -/
def SlotState.put (d : SlotState) (offset : ℕ) (new : List UInt8) : SlotState :=
  if offset < Slots.slotImageOffset then { d with header := overwrite d.header offset new }
  else { d with image := overwrite d.image (offset - Slots.slotImageOffset) new }

/-- The CRC of the image in the slot, over the size in the header, and whether it is the one in the
header. -/
def SlotState.check (d : SlotState) : UInt8 × UInt32 :=
  let crc := Slots.crc32 (d.image.take (ofLe (slice d.header 8 12)))
  (if ofLe (slice d.header 12 16) = crc.toNat then 0 else 5, crc)

/-- The slot commands on a single slot: erases and writes need the timestamp of the session. -/
def SlotState.handle (d : SlotState) (m : Msg) : SlotState × Option Msg :=
  let slot := m.data.headD 0
  if m.msgType = 0x0514 then ({ d with session := ofLe (slice m.data 0 4) }, some ⟨0x0515, []⟩)
  else if m.msgType = 0x0722 then
    if ofLe (slice m.data 2 6) = d.session then
      ({ d with header := [], image := [] }, some ⟨0x0723, [slot, 0]⟩)
    else (d, some ⟨0x0723, [slot, 8]⟩)
  else if m.msgType = 0x0724 then
    if ofLe (slice m.data 8 12) = d.session then
      (d.put (ofLe (slice m.data 2 6)) (slice m.data 12 (12 + ofLe (slice m.data 6 8))),
        some ⟨0x0725, [slot, 0]⟩)
    else (d, some ⟨0x0725, [slot, 8]⟩)
  else if m.msgType = 0x0726 then
    (d, some ⟨0x0727, toLe 4 d.check.2.toNat ++ [slot, d.check.1]⟩)
  else (d, none)

/-- A device that does what the slot commands are documented to do. -/
def slotDevice : Device where
  State := SlotState
  handle := SlotState.handle
  accepts d m := ofLe (slice m.data 8 12) = d.session
  check d _ := d.check
  answers := by
    intro d m r hr
    rw [SlotState.handle] at hr
    split_ifs at hr <;> cases hr <;> simp [*]
  confirms := by
    intro d m r hr htype hstatus
    rw [SlotState.handle, htype] at hr
    simp only [Nat.reduceEqDiff, if_false, if_true] at hr
    split_ifs at hr with hsession
    · exact decide_eq_true hsession
    · cases hr
      cases hstatus
  validates := fun _ _ => rfl

/-- A command on its way, with its number. -/
structure Command where
  /-- How many were sent before it. -/
  seq : ℕ
  /-- The message. -/
  msg : Msg

/-- A command the device processed. -/
structure Processed (dev : Device) where
  /-- The command. -/
  command : Command
  /-- The state it was processed in. -/
  before : dev.State

/-- The device carried out the slot write in this entry of its log. -/
def Processed.accepted {dev : Device} (e : Processed dev) : Bool :=
  dev.accepts e.before e.command.msg

/-! ## The link -/

/-- The link and the device. -/
structure Link (dev : Device) where
  /-- Commands on their way to the device, oldest first. -/
  toDevice : List Command
  /-- Replies on their way to the host, oldest first. -/
  toHost : List Msg
  /-- Messages the host has reassembled and not taken. -/
  buffered : List Msg
  /-- The state of the device. -/
  device : dev.State
  /-- The commands the device processed, oldest first. -/
  log : List (Processed dev)
  /-- How many commands were sent. -/
  sends : ℕ

/-- What may happen on the link. -/
inductive Move where
  /-- A command is lost. -/
  | dropCommand (k : ℕ)
  /-- A reply is lost. -/
  | dropReply (k : ℕ)
  /-- The device processes the oldest command. -/
  | handle
  /-- The oldest reply arrives. -/
  | arrive

variable {dev : Device}

/-- A link before the host does anything, with these messages on it. -/
def Link.start (device : dev.State) (commands replies buffered : List Msg) : Link dev where
  toDevice := commands.mapIdx Command.mk
  toHost := replies
  buffered := buffered
  device := device
  log := []
  sends := commands.length

/-- The device processes a command. -/
def Link.process (w : Link dev) (c : Command) (rest : List Command) : Link dev :=
  { w with
    toDevice := rest
    toHost := w.toHost ++ (dev.handle w.device c.msg).2.toList
    device := (dev.handle w.device c.msg).1
    log := w.log ++ [⟨c, w.device⟩] }

/-- One event. -/
def Link.step (w : Link dev) : Move → Link dev
  | .dropCommand k => { w with toDevice := w.toDevice.eraseIdx k }
  | .dropReply k => { w with toHost := w.toHost.eraseIdx k }
  | .handle =>
    match w.toDevice with
    | [] => w
    | c :: rest => w.process c rest
  | .arrive =>
    match w.toHost with
    | [] => w
    | m :: rest => { w with toHost := rest, buffered := w.buffered ++ [m] }

/-- The host sends a message. -/
def Link.send (w : Link dev) (m : Msg) : Link dev :=
  { w with toDevice := w.toDevice ++ [⟨w.sends, m⟩], sends := w.sends + 1 }

/-- The host takes the messages it has reassembled. -/
def Link.take (w : Link dev) : Link dev := { w with buffered := [] }

/-- `got`: the last message of each type. -/
abbrev Got := ℕ → Option (List UInt8)

/-- `got[msg[0]] = msg[1]` for each message. -/
def Got.add (got : Got) (msgs : List Msg) : Got :=
  msgs.foldl (fun got m => Function.update got m.msgType (some m.data)) got

/-- What holds of all messages collected, and of all that are added, holds of all after that. -/
lemma Got.add_forall {S : Msg → Prop} {msgs : List Msg} (hmsgs : ∀ m ∈ msgs, S m) {got : Got}
    (hgot : ∀ id data, got id = some data → S ⟨id, data⟩) :
    ∀ id data, got.add msgs id = some data → S ⟨id, data⟩ := by
  induction msgs generalizing got with
  | nil => exact hgot
  | cons m msgs ih =>
    apply ih fun m' hm' => hmsgs m' (List.mem_cons_of_mem _ hm')
    intro id data hid
    simp only at hid
    by_cases hm : id = m.msgType
    · subst hm
      rw [Function.update_self] at hid
      obtain rfl := Option.some.inj hid
      exact hmsgs m (List.mem_cons_self ..)
    · rw [Function.update_of_ne hm] at hid
      exact hgot id data hid

/-- The polls of `Radio._pump`, each after some events, until `want` has come or the time is up. -/
def Link.pumpLoop (want : ℕ) : List (List Move) → Got → Link dev → Got × Link dev
  | [], got, w => (got, w)
  | moves :: polls, got, w =>
    let w := moves.foldl Link.step w
    let got := got.add w.buffered
    if (got want).isSome then (got, w.take) else pumpLoop want polls got w.take

/-- `Radio._pump(seconds, want)`, with the events before each poll. -/
def Link.pump (want : ℕ) (polls : List (List Move)) (w : Link dev) : Got × Link dev :=
  pumpLoop want polls (fun _ => none) w

/-! ## Invariants -/

/-- An invariant that neither the link nor the host breaks, as long as the host sends only messages
with `Sends`. -/
structure Stable (I : Link dev → Prop) (Sends : Msg → Prop) : Prop where
  step : ∀ w move, I w → I (w.step move)
  take : ∀ w, I w → I w.take
  send : ∀ w m, Sends m → I w → I (w.send m)

/-- What no event breaks holds after any number of events. -/
lemma Stable.steps {I : Link dev → Prop} {Sends : Msg → Prop} (h : Stable I Sends)
    (moves : List Move) {w : Link dev} (hw : I w) : I (moves.foldl Link.step w) :=
  Run.foldl_of_step h.step moves hw

/-- Two such invariants hold together. -/
lemma Stable.and {I J : Link dev → Prop} {Sends : Msg → Prop} (hI : Stable I Sends)
    (hJ : Stable J Sends) : Stable (fun w => I w ∧ J w) Sends where
  step := fun w move hw => ⟨hI.step w move hw.1, hJ.step w move hw.2⟩
  take := fun w hw => ⟨hI.take w hw.1, hJ.take w hw.2⟩
  send := fun w m hm hw => ⟨hI.send w m hm hw.1, hJ.send w m hm hw.2⟩

/-- A host that sends less breaks no more. -/
lemma Stable.mono {I : Link dev → Prop} {Sends Sends' : Msg → Prop} (hI : Stable I Sends)
    (hle : ∀ m, Sends' m → Sends m) : Stable I Sends' :=
  ⟨hI.step, hI.take, fun w m hm hw => hI.send w m (hle m hm) hw⟩

/-- A wait keeps a stable invariant. -/
theorem Stable.pump {I : Link dev → Prop} {Sends : Msg → Prop} (h : Stable I Sends) (want : ℕ)
    (polls : List (List Move)) {w : Link dev} (hw : I w) : I (w.pump want polls).2 := by
  have hloop : ∀ (polls : List (List Move)) (got : Got) (w : Link dev), I w →
      I (w.pumpLoop want polls got).2 := by
    intro polls
    induction polls with
    | nil => exact fun _ _ hw => hw
    | cons moves polls ih =>
      intro got w hw
      have htake := h.take _ (h.steps moves hw)
      rw [Link.pumpLoop]
      split
      · exact htake
      · exact ih _ _ htake
  exact hloop polls _ w hw

/-- What stays true of the log as it grows is an invariant. -/
lemma log_stable {P : List (Processed dev) → Prop} (hmono : ∀ log e, P log → P (log ++ [e])) :
    Stable (fun w : Link dev => P w.log) fun _ => True where
  step := by
    intro w move hw
    cases move with
    | dropCommand k => exact hw
    | dropReply k => exact hw
    | handle =>
      rw [Link.step]
      split
      · exact hw
      · exact hmono _ _ hw
    | arrive =>
      rw [Link.step]
      split <;> exact hw
  take := fun _ hw => hw
  send := fun _ _ _ hw => hw

/-! ## What is on the link -/

/-- From the `s₀`-th on only commands with `P` are sent, the commands on their way have `P`, and
the replies on their way or waiting have `R`, which may depend on the log. -/
structure Carries (s₀ : ℕ) (P : Command → Prop) (R : List (Processed dev) → Msg → Prop)
    (w : Link dev) : Prop where
  sends : s₀ ≤ w.sends
  commands : ∀ c ∈ w.toDevice, P c
  inFlight : ∀ m ∈ w.toHost, R w.log m
  waiting : ∀ m ∈ w.buffered, R w.log m

section Carries

variable {s₀ : ℕ} {P : Command → Prop} {R : List (Processed dev) → Msg → Prop} {Sends : Msg → Prop}
  (hmono : ∀ log e m, R log m → R (log ++ [e]) m)
  (hreply : ∀ log c d r, P c → (dev.handle d c.msg).2 = some r → R (log ++ [⟨c, d⟩]) r)
  (hsend : ∀ n m, s₀ ≤ n → Sends m → P ⟨n, m⟩)

include hmono hreply hsend

/-- **What is on the link** is an invariant, if replies to commands with `P` have `R`.

**Proof sketch.** By the move. A message that is lost leaves the others; a command that is handled
takes the device on, so what was known of the messages before is known still, and its reply has
`R` by assumption; a message that arrives was in flight. -/
theorem Carries.stable : Stable (Carries s₀ P R) Sends where
  step := by
    rintro w move ⟨hsends, hcommands, hinFlight, hwaiting⟩
    cases move with
    | dropCommand k =>
      exact ⟨hsends, fun c hc => hcommands c (List.mem_of_mem_eraseIdx hc), hinFlight, hwaiting⟩
    | dropReply k =>
      exact ⟨hsends, hcommands, fun m hm => hinFlight m (List.mem_of_mem_eraseIdx hm), hwaiting⟩
    | handle =>
      rw [Link.step]
      split
      · exact ⟨hsends, hcommands, hinFlight, hwaiting⟩
      · next c rest hqueue =>
        rw [hqueue] at hcommands
        refine ⟨hsends, fun c' hc' => hcommands c' (List.mem_cons_of_mem _ hc'), ?_,
          fun m hm => hmono _ _ _ (hwaiting m hm)⟩
        intro m hm
        rcases List.mem_append.mp hm with hm | hm
        · exact hmono _ _ _ (hinFlight m hm)
        · rw [Option.mem_toList] at hm
          exact hreply _ c w.device m (hcommands c (List.mem_cons_self ..)) hm
    | arrive =>
      rw [Link.step]
      split
      · exact ⟨hsends, hcommands, hinFlight, hwaiting⟩
      · next m rest hqueue =>
        rw [hqueue] at hinFlight
        refine ⟨hsends, hcommands, fun m' hm' => hinFlight m' (List.mem_cons_of_mem _ hm'), ?_⟩
        intro m' hm'
        rcases List.mem_append.mp hm' with hm' | hm'
        · exact hwaiting m' hm'
        · rw [List.mem_singleton.mp hm']
          exact hinFlight m (List.mem_cons_self ..)
  take := fun w hw => ⟨hw.sends, hw.commands, hw.inFlight, List.forall_mem_nil _⟩
  send := by
    rintro w m hm ⟨hsends, hcommands, hinFlight, hwaiting⟩
    refine ⟨Nat.le_succ_of_le hsends, ?_, hinFlight, hwaiting⟩
    intro c hc
    rcases List.mem_append.mp hc with hc | hc
    · exact hcommands c hc
    · rw [List.mem_singleton.mp hc]
      exact hsend _ _ hsends hm

/-- **What a wait collects** are replies with `R`.

**Proof sketch.** Along the polls, everything collected so far has `R` of the log so far, which
only grows; and each poll adds messages that were on the link. -/
theorem Carries.pump_got {w : Link dev} (hw : Carries s₀ P R w) {want : ℕ} {polls : List (List Move)}
    {id : ℕ} {data : List UInt8} (hgot : (w.pump want polls).1 id = some data) :
    R (w.pump want polls).2.log ⟨id, data⟩ := by
  have hstable := Carries.stable hmono hreply hsend
  have hloop : ∀ (polls : List (List Move)) (got : Got) (w : Link dev), Carries s₀ P R w →
      (∀ id data, got id = some data → R w.log ⟨id, data⟩) →
      ∀ id data, (w.pumpLoop want polls got).1 id = some data →
        R (w.pumpLoop want polls got).2.log ⟨id, data⟩ := by
    intro polls
    induction polls with
    | nil => exact fun got w _ hold => hold
    | cons moves polls ih =>
      intro got w hw hold
      have hw' := hstable.steps moves hw
      have hold' := fun id data hid =>
        (log_stable fun log e => hmono log e ⟨id, data⟩).steps moves (hold id data hid)
      have hnew := Got.add_forall hw'.waiting hold'
      rw [Link.pumpLoop]
      split
      · exact hnew
      · exact ih _ _ (hstable.take _ hw') hnew
  exact hloop polls _ w hw (fun _ _ hnone => by cases hnone) id data hgot

end Carries

/-! ## One exchange -/

/-- No command of type `id` is on its way, and no reply to one is on its way or waiting. -/
def Quiet (id : ℕ) (w : Link dev) : Prop :=
  (∀ c ∈ w.toDevice, c.msg.msgType ≠ id) ∧ (∀ m ∈ w.toHost, m.msgType ≠ id + 1) ∧
    ∀ m ∈ w.buffered, m.msgType ≠ id + 1

instance (id : ℕ) (w : Link dev) : Decidable (Quiet id w) :=
  inferInstanceAs (Decidable (_ ∧ _ ∧ _))

/-- The data is the device's reply to a `cmd` it processed, the `s₀`-th command sent or a later
one. -/
def Answered (s₀ : ℕ) (cmd : Msg) (log : List (Processed dev)) (data : List UInt8) : Prop :=
  ∃ e ∈ log, s₀ ≤ e.command.seq ∧ e.command.msg = cmd ∧
    (dev.handle e.before cmd).2 = some ⟨cmd.msgType + 1, data⟩

/-- Since the `s₀`-th command, `cmd` is the only one of its type on the link, and every reply of its
type answers it. -/
def Exchange (s₀ : ℕ) (cmd : Msg) (w : Link dev) : Prop :=
  Carries s₀ (fun c => c.msg.msgType = cmd.msgType → s₀ ≤ c.seq ∧ c.msg = cmd)
    (fun log m => m.msgType = cmd.msgType + 1 → Answered s₀ cmd log m.data) w

/-- On a link that is quiet an exchange can begin. -/
lemma Quiet.exchange {cmd : Msg} {w : Link dev} (h : Quiet cmd.msgType w) :
    Exchange w.sends cmd w where
  sends := Nat.le_refl _
  commands := fun c hc htype => absurd htype (h.1 c hc)
  inFlight := fun m hm htype => absurd htype (h.2.1 m hm)
  waiting := fun m hm htype => absurd htype (h.2.2 m hm)

section Exchange

variable {s₀ : ℕ} {cmd : Msg}

/-- A reply that answers a command does so still when more is processed. -/
lemma answered_mono (log : List (Processed dev)) (e : Processed dev) (m : Msg)
    (h : m.msgType = cmd.msgType + 1 → Answered s₀ cmd log m.data)
    (htype : m.msgType = cmd.msgType + 1) : Answered s₀ cmd (log ++ [e]) m.data := by
  obtain ⟨e', he', hrest⟩ := h htype
  exact ⟨e', List.mem_append_left _ he', hrest⟩

/-- The reply of the device to a command answers it. -/
lemma answered_reply (log : List (Processed dev)) (c : Command) (d : dev.State) (r : Msg)
    (hc : c.msg.msgType = cmd.msgType → s₀ ≤ c.seq ∧ c.msg = cmd)
    (hr : (dev.handle d c.msg).2 = some r) (htype : r.msgType = cmd.msgType + 1) :
    Answered s₀ cmd (log ++ [⟨c, d⟩]) r.data := by
  have hsame : c.msg.msgType = cmd.msgType := by
    have hanswer := dev.answers d c.msg r hr
    omega
  obtain ⟨hseq, hmsg⟩ := hc hsame
  refine ⟨⟨c, d⟩, List.mem_append_right _ (List.mem_singleton_self _), hseq, hmsg, ?_⟩
  rw [← htype, ← hmsg]
  exact hr

/-- Of the type of the exchange only its command is sent. -/
lemma exchange_send (n : ℕ) (m : Msg) (hn : s₀ ≤ n) (hm : m.msgType = cmd.msgType → m = cmd)
    (htype : m.msgType = cmd.msgType) : s₀ ≤ n ∧ m = cmd := ⟨hn, hm htype⟩

/-- An exchange goes on while nothing else of the type of `cmd` is sent. -/
theorem Exchange.stable :
    Stable (fun w : Link dev => Exchange s₀ cmd w) fun m => m.msgType = cmd.msgType → m = cmd :=
  Carries.stable answered_mono answered_reply exchange_send

/-- **An acknowledgement that arrives** during an exchange answers its command. -/
theorem Exchange.pump_answered {w : Link dev} (h : Exchange s₀ cmd w) {want : ℕ}
    {polls : List (List Move)} {data : List UInt8}
    (hgot : (w.pump want polls).1 (cmd.msgType + 1) = some data) :
    Answered s₀ cmd (w.pump want polls).2.log data :=
  Carries.pump_got answered_mono answered_reply exchange_send h hgot rfl

/-- No command of a type is on the link while none is sent. -/
theorem Quiet.stable (id : ℕ) : Stable (fun w : Link dev => Quiet id w) fun m => m.msgType ≠ id := by
  have hcarries : ∀ w : Link dev, Quiet id w ↔
      Carries 0 (fun c => c.msg.msgType ≠ id) (fun _ m => m.msgType ≠ id + 1) w :=
    fun w => ⟨fun h => ⟨Nat.zero_le _, h.1, h.2.1, h.2.2⟩,
      fun h => ⟨h.commands, h.inFlight, h.waiting⟩⟩
  have hstable : Stable (fun w : Link dev => Carries 0 (fun c => c.msg.msgType ≠ id)
      (fun _ m => m.msgType ≠ id + 1) w) fun m => m.msgType ≠ id := by
    refine Carries.stable (fun _ _ _ h => h) ?_ fun _ _ _ h => h
    intro _ c d r hc hr htype
    have hanswer := dev.answers d c.msg r hr
    omega
  exact ⟨fun w move h => (hcarries _).mpr (hstable.step w move ((hcarries w).mp h)),
    fun w h => (hcarries _).mpr (hstable.take w ((hcarries w).mp h)),
    fun w m hm h => (hcarries _).mpr (hstable.send w m hm ((hcarries w).mp h))⟩

end Exchange

/-! ## The order of commands -/

/-- The commands processed and those on their way, oldest first. -/
def Link.history (w : Link dev) : List Command := w.log.map Processed.command ++ w.toDevice

/-- Events on the link add no command and change no order. -/
lemma history_step (w : Link dev) (move : Move) : (w.step move).history.Sublist w.history := by
  cases move with
  | dropCommand k => exact (List.Sublist.refl _).append (List.eraseIdx_sublist _ _)
  | dropReply k => exact List.Sublist.refl _
  | handle =>
    rw [Link.step]
    split
    · exact List.Sublist.refl _
    · next c rest hqueue =>
      rw [Link.history, Link.history, hqueue, Link.process]
      simp
  | arrive =>
    rw [Link.step]
    split <;> exact List.Sublist.refl _

/-- A message that is sent is the last in the history. -/
lemma history_send (w : Link dev) (m : Msg) :
    (w.send m).history = w.history ++ [⟨w.sends, m⟩] := by
  rw [Link.history, Link.history, Link.send, List.append_assoc]

/-- Commands stand in the order of their numbers. -/
def Ordered (w : Link dev) : Prop :=
  w.history.Pairwise (fun c c' => c.seq < c'.seq) ∧ ∀ c ∈ w.history, c.seq < w.sends

/-- Every command sent from the `s₀`-th on has `P`. -/
def SentFrom (s₀ : ℕ) (P : Msg → Prop) (w : Link dev) : Prop :=
  ∀ c ∈ w.history, s₀ ≤ c.seq → P c.msg

/-- An event on the link sends nothing. -/
lemma sends_step (w : Link dev) (move : Move) : (w.step move).sends = w.sends := by
  cases move with
  | dropCommand k => rfl
  | dropReply k => rfl
  | handle => rw [Link.step]; split <;> rfl
  | arrive => rw [Link.step]; split <;> rfl

/-- **First in, first out.** -/
theorem Ordered.stable : Stable (fun w : Link dev => Ordered w) fun _ => True where
  step := by
    rintro w move ⟨hpair, hlt⟩
    have hsub := history_step w move
    refine ⟨hpair.sublist hsub, fun c hc => ?_⟩
    rw [sends_step]
    exact hlt c (hsub.subset hc)
  take := fun _ h => h
  send := by
    rintro w m - ⟨hpair, hlt⟩
    rw [Ordered, history_send]
    refine ⟨?_, fun c hc => ?_⟩
    · rw [List.pairwise_append]
      refine ⟨hpair, List.pairwise_singleton _ _, fun c hc c' hc' => ?_⟩
      rw [List.mem_singleton.mp hc']
      exact hlt c hc
    · rcases List.mem_append.mp hc with hc | hc
      · exact Nat.lt_succ_of_lt (hlt c hc)
      · rw [List.mem_singleton.mp hc]
        exact Nat.lt_succ_self _

/-- Nothing has been sent from the next number on. -/
lemma Ordered.sentFrom {w : Link dev} (h : Ordered w) (P : Msg → Prop) : SentFrom w.sends P w :=
  fun c hc hle => absurd (h.2 c hc) (by omega)

/-- That every command from some number on has a property is broken by nothing but a command without
it. -/
theorem SentFrom.stable (s₀ : ℕ) (P : Msg → Prop) :
    Stable (fun w : Link dev => SentFrom s₀ P w) P where
  step := fun w move h c hc => h c ((history_step w move).subset hc)
  take := fun _ h => h
  send := by
    intro w m hm h c hc hle
    rw [history_send] at hc
    rcases List.mem_append.mp hc with hc | hc
    · exact h c hc hle
    · rw [List.mem_singleton.mp hc]
      exact hm

/-- The number of commands sent does not go back. -/
lemma sends_stable (s₀ : ℕ) : Stable (fun w : Link dev => s₀ ≤ w.sends) fun _ => True where
  step := fun w move h => by rwa [sends_step]
  take := fun _ h => h
  send := fun _ _ _ h => Nat.le_succ_of_le h

/-- The commands on a link at the start are in order. -/
lemma ordered_start (device : dev.State) (commands replies buffered : List Msg) :
    Ordered (Link.start device commands replies buffered) := by
  refine ⟨?_, fun c hc => ?_⟩
  · rw [Link.history, Link.start, List.map_nil, List.nil_append, List.pairwise_iff_getElem]
    intro i j hi hj hij
    rw [List.getElem_mapIdx, List.getElem_mapIdx]
    exact hij
  · rw [Link.history, Link.start, List.map_nil, List.nil_append, List.mem_mapIdx] at hc
    obtain ⟨i, hi, rfl⟩ := hc
    exact hi

end Uvk5.Serial
