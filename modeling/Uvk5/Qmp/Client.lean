import Mathlib.Data.List.Range
import Uvk5.Lib.Run
import Uvk5.Lib.Text

set_option relaxedAutoImplicit false
set_option autoImplicit false

/-!
# The QMP client (`tools/uvk5_qmp.py`)

The client sends a command and reads lines until one is a return or an error; lines of other kinds
are events. Replies carry no number. A receive that times out ends the call, but not the command:
its reply is still on its way. The first call is the constructor's own, and an exception out of it
leaves no client.

## Main definitions

* `Qmp.State`, `Qmp.step` — the client, the bytes on their way, and a server that answers in order.
* `Qmp.OwnReply` — every call that ended with a reply ended with that of its own command.
* `Qmp.InStep` — a reply is taken only when every earlier call took one.

## Main results

* `Qmp.ownReply_iff` — the calls of a run get their own replies exactly when no reply is taken after
  a call that ended without one.

## Design

What `json.loads` makes of a line is a parameter. The number of the command that a line answers is
kept beside it; it is not on the wire, and no step of the client looks at it.
-/

namespace Uvk5.Qmp

open Text

/-- What `json.loads` makes of a line, as far as `command` looks at it. -/
inductive Kind where
  /-- A dictionary with `"error"`. -/
  | error
  /-- A dictionary with `"return"` and no `"error"`. -/
  | result
  /-- A dictionary with neither. -/
  | event
  /-- Not a dictionary in JSON: an exception. -/
  | malformed
  deriving DecidableEq

/-- Where the client is. -/
inductive Phase where
  /-- The constructor reads the greeting. -/
  | greeting
  /-- No call is in progress. -/
  | idle
  /-- The call that sent this command reads lines. -/
  | call (command : ℕ)
  /-- The constructor raised. -/
  | failed
  deriving DecidableEq

/-- Where the client is after an exception out of the call that sent this command. The call that
sends command 0 is that of the constructor, `self.command("qmp_capabilities")`. -/
def Phase.raised (command : ℕ) : Phase := if command = 0 then .failed else .idle

/-- A line of the server, without its newline, and the command it answers. -/
structure Line where
  /-- The command, if it is a reply. -/
  command : Option ℕ
  /-- The line. -/
  text : List UInt8
  deriving DecidableEq

/-- A call that returned, or raised a QMP error. -/
structure Outcome where
  /-- The command of the call. -/
  command : ℕ
  /-- The line it ended with. -/
  text : List UInt8
  /-- The command that line answers. -/
  answers : Option ℕ
  deriving DecidableEq

/-- The client, the bytes on their way, and the server. -/
structure State where
  /-- Where the client is. -/
  phase : Phase
  /-- `_buf`. -/
  buf : List UInt8
  /-- How many commands were sent. -/
  sent : ℕ
  /-- The calls that ended with a reply, in order. -/
  outcomes : List Outcome
  /-- The bytes the server sent and the client did not receive. -/
  wire : List UInt8
  /-- The replies the server sent, in the order of the commands. -/
  replies : List (List UInt8)
  /-- The lines the server sent and the client did not read. -/
  flight : List Line
  deriving DecidableEq

/-- What can happen. -/
inductive Event where
  /-- A thread enters `command` and sends. -/
  | call
  /-- `recv` returns so many bytes. -/
  | recv (n : ℕ)
  /-- `recv` raises, or finds the connection closed. -/
  | recvFails
  /-- `_read_json` returns a line, and the caller looks at it. -/
  | read
  /-- The server sends an event. -/
  | emit (text : List UInt8)
  /-- The server answers the oldest command it did not answer. -/
  | reply (text : List UInt8)
  deriving DecidableEq

variable (kind : List UInt8 → Kind)

/-- The newline. -/
def newline : UInt8 := 10

/-- `_read_json` has to receive. -/
def State.receiving (s : State) : Bool :=
  match s.phase with
  | .greeting => newline ∉ s.buf
  | .call _ => newline ∉ s.buf
  | _ => false

/-- A line goes over the wire. -/
def State.transmit (s : State) (line : Line) : State :=
  { s with wire := s.wire ++ (line.text ++ [newline]), flight := s.flight ++ [line] }

/-- The client takes a line out of its buffer. -/
def State.take (s : State) : State :=
  { s with buf := (partition newline s.buf).2, flight := s.flight.drop 1 }

/-- The line the client takes next. -/
def State.next (s : State) : List UInt8 := (partition newline s.buf).1

/-- One step. -/
def step (s : State) : Event → State
  | .call => if s.phase = .idle then { s with phase := .call s.sent, sent := s.sent + 1 } else s
  | .recv n =>
    if s.receiving ∧ 0 < n ∧ n ≤ 65536 ∧ n ≤ s.wire.length then
      { s with buf := s.buf ++ s.wire.take n, wire := s.wire.drop n }
    else s
  | .recvFails =>
    if s.receiving then
      match s.phase with
      | .call n => { s with phase := .raised n }
      | _ => { s with phase := .failed }
    else s
  | .read =>
    if newline ∈ s.buf then
      match s.phase with
      | .greeting =>
        if kind s.next = .malformed then { s.take with phase := .failed }
        else { s.take with phase := .idle }
      | .call n =>
        match kind s.next with
        | .event => s.take
        | .malformed => { s.take with phase := .raised n }
        | .error => { s.take with
            phase := .raised n
            outcomes := s.outcomes ++ [⟨n, s.next, s.flight.head?.bind Line.command⟩] }
        | .result => { s.take with
            phase := .idle
            outcomes := s.outcomes ++ [⟨n, s.next, s.flight.head?.bind Line.command⟩] }
      | _ => s
    else s
  | .emit text =>
    if newline ∉ text ∧ kind text = .event then s.transmit ⟨none, text⟩ else s
  | .reply text =>
    if s.replies.length < s.sent ∧ newline ∉ text ∧ (kind text = .error ∨ kind text = .result) then
      { s.transmit ⟨some s.replies.length, text⟩ with replies := s.replies ++ [text] }
    else s

/-- A new connection: the server has sent its greeting. -/
def start (greeting : List UInt8) : State where
  phase := .greeting
  buf := []
  sent := 0
  outcomes := []
  wire := greeting ++ [newline]
  replies := []
  flight := [⟨none, greeting⟩]

/-- Every call that ended with a reply ended with the one the server produced for its command. -/
def OwnReply (s : State) : Prop :=
  ∀ o ∈ s.outcomes, o.answers = some o.command ∧ s.replies[o.command]? = some o.text

/-- The step ends the call of this command with a reply. -/
def Completes (s : State) (e : Event) (command : ℕ) : Prop :=
  e = .read ∧ newline ∈ s.buf ∧ s.phase = .call command ∧
    (kind s.next = .error ∨ kind s.next = .result)

/-- If the step ends a call with a reply, then every earlier call ended with one. -/
def InStep (s : State) (e : Event) : Prop :=
  ∀ command, Completes kind s e command → s.outcomes.length = command

/-- The command of the call in progress. -/
def Phase.command? : Phase → Option ℕ
  | .call command => some command
  | _ => none

instance (s : State) (e : Event) (command : ℕ) : Decidable (Completes kind s e command) :=
  inferInstanceAs (Decidable (_ ∧ _))

instance (s : State) (e : Event) : Decidable (InStep kind s e) :=
  decidable_of_iff
    (∀ command ∈ s.phase.command?, Completes kind s e command → s.outcomes.length = command)
    ⟨fun h command hc => h command (by rw [hc.2.2.1]; rfl) hc, fun h command _ => h command⟩

variable {kind}

/-- After an exception no call is in progress. -/
lemma Phase.raised_ne_call (command n : ℕ) : Phase.raised command ≠ .call n := by
  rw [Phase.raised]
  split
  · exact Phase.noConfusion
  · exact Phase.noConfusion

/-- After an exception the greeting has been read. -/
lemma Phase.raised_ne_greeting (command : ℕ) : Phase.raised command ≠ .greeting := by
  rw [Phase.raised]
  split
  · exact Phase.noConfusion
  · exact Phase.noConfusion

/-! ## The lines on their way -/

/-- What holds of every connection: the bytes received and on their way are the lines sent and not
read, and the replies among these are those of the oldest commands without one. -/
structure Inv (kind : List UInt8 → Kind) (s : State) : Prop where
  bytes : s.buf ++ s.wire = s.flight.flatMap fun l => l.text ++ [newline]
  lines : ∀ l ∈ s.flight, newline ∉ l.text
  events : ∀ l ∈ s.flight, l.command = none → kind l.text = .event
  answers : ∀ l ∈ s.flight, ∀ m, l.command = some m →
    (kind l.text = .error ∨ kind l.text = .result) ∧ s.replies[m]? = some l.text
  order : s.flight.filterMap Line.command =
    List.range' s.outcomes.length (s.replies.length - s.outcomes.length)
  taken : s.outcomes.length ≤ s.replies.length
  answered : s.replies.length ≤ s.sent
  calling : ∀ n, s.phase = .call n → n + 1 = s.sent
  greeted : s.phase = .greeting → s.sent = 0

/-- The line in the buffer is the first of those on their way. -/
lemma Inv.next_line {s : State} (h : Inv kind s) (hnl : newline ∈ s.buf) :
    ∃ l rest, s.flight = l :: rest ∧ s.next = l.text ∧
      s.take.buf ++ s.wire = rest.flatMap fun l => l.text ++ [newline] := by
  obtain ⟨a, b, hbuf, ha⟩ := List.eq_append_cons_of_mem hnl
  have hbytes := h.bytes
  rw [hbuf, List.append_assoc, List.cons_append] at hbytes
  cases hflight : s.flight with
  | nil =>
    rw [hflight, List.flatMap_nil] at hbytes
    exact absurd hbytes (by simp)
  | cons l rest =>
    have hl : newline ∉ l.text := h.lines l (by rw [hflight]; exact List.mem_cons_self ..)
    rw [hflight, List.flatMap_cons, List.append_assoc, List.singleton_append] at hbytes
    have hsplit := congrArg (partition newline) hbytes
    rw [partition_append _ ha, partition_append _ hl, Prod.mk.injEq] at hsplit
    refine ⟨l, rest, rfl, ?_, ?_⟩
    · rw [State.next, hbuf, partition_append _ ha]
      exact hsplit.1
    · rw [State.take, hbuf, partition_append _ ha]
      exact hsplit.2

/-- The lines on their way after one was taken were on their way before. -/
lemma mem_of_mem_take {s : State} {l : Line} (h : l ∈ s.take.flight) : l ∈ s.flight :=
  List.mem_of_mem_drop h

/-- Taking an event. -/
lemma Inv.take_event {s : State} (h : Inv kind s) (hnl : newline ∈ s.buf) {phase : Phase}
    (hkind : kind s.next = .event) (hcalling : ∀ n, phase = .call n → n + 1 = s.sent)
    (hgreeted : phase = .greeting → s.sent = 0) : Inv kind { s.take with phase := phase } := by
  obtain ⟨l, rest, hflight, hnext, hbytes⟩ := h.next_line hnl
  have hmem : l ∈ s.flight := by rw [hflight]; exact List.mem_cons_self ..
  have hnone : l.command = none := by
    cases hcommand : l.command with
    | none => rfl
    | some m =>
      have hk := (h.answers l hmem m hcommand).1
      rw [← hnext, hkind] at hk
      rcases hk with hk | hk <;> cases hk
  have hrest : s.take.flight = rest := by rw [State.take, hflight]; rfl
  refine ⟨?_, fun l' hl' => h.lines l' (mem_of_mem_take hl'),
    fun l' hl' => h.events l' (mem_of_mem_take hl'),
    fun l' hl' => h.answers l' (mem_of_mem_take hl'), ?_, h.taken, h.answered, hcalling, hgreeted⟩
  · exact hbytes.trans (by rw [hrest])
  · have horder := h.order
    rw [hflight, List.filterMap_cons_none hnone] at horder
    rw [hrest]
    exact horder

/-- Taking a reply: it is that of the oldest command without one. The call ends with it, in one way
or another.

**Proof sketch.** The line on top is the first in flight. It answers a command, since events are
no replies; and the commands in flight are numbered from the number of calls that ended, so it is
that one's. -/
lemma Inv.take_reply {s : State} (h : Inv kind s) (hnl : newline ∈ s.buf)
    (hkind : kind s.next = .error ∨ kind s.next = .result) {phase : Phase}
    (hcall : ∀ n, phase ≠ .call n) (hgreeting : phase ≠ .greeting) (o : Outcome) :
    s.flight.head?.bind Line.command = some s.outcomes.length ∧
      s.replies[s.outcomes.length]? = some s.next ∧
      Inv kind { s.take with phase := phase, outcomes := s.outcomes ++ [o] } := by
  obtain ⟨l, rest, hflight, hnext, hbytes⟩ := h.next_line hnl
  have hmem : l ∈ s.flight := by rw [hflight]; exact List.mem_cons_self ..
  have hrest : s.take.flight = rest := by rw [State.take, hflight]; rfl
  cases hcommand : l.command with
  | none =>
    rw [hnext, h.events l hmem hcommand] at hkind
    rcases hkind with hk | hk <;> cases hk
  | some m =>
    have horder := h.order
    rw [hflight, List.filterMap_cons_some hcommand] at horder
    cases hcount : s.replies.length - s.outcomes.length with
    | zero =>
      rw [hcount] at horder
      cases horder
    | succ k =>
      rw [hcount, List.range'_succ, List.cons.injEq] at horder
      obtain ⟨rfl, htail⟩ := horder
      have hreply := (h.answers l hmem _ hcommand).2
      refine ⟨by rw [hflight, List.head?_cons, Option.bind_some, hcommand], by rw [hreply, hnext],
        hbytes.trans (by rw [hrest]), fun l' hl' => h.lines l' (mem_of_mem_take hl'),
        fun l' hl' => h.events l' (mem_of_mem_take hl'),
        fun l' hl' => h.answers l' (mem_of_mem_take hl'), ?_, ?_,
        h.answered, fun n hn => absurd hn (hcall n), fun hn => absurd hn hgreeting⟩
      · have hk : s.replies.length - (s.outcomes.length + 1) = k := by omega
        change s.take.flight.filterMap Line.command =
          List.range' (s.outcomes ++ [o]).length (s.replies.length - (s.outcomes ++ [o]).length)
        rw [hrest, List.length_append, List.length_singleton, hk]
        exact htail
      · rw [List.length_append, List.length_singleton]
        change s.outcomes.length + 1 ≤ s.replies.length
        omega

/-- A line goes over the wire. -/
lemma Inv.transmit_bytes {s : State} (h : Inv kind s) (line : Line) :
    s.buf ++ (s.wire ++ (line.text ++ [newline])) =
      (s.flight ++ [line]).flatMap fun l => l.text ++ [newline] := by
  rw [List.flatMap_append, ← h.bytes, List.append_assoc, List.flatMap_singleton]

/-- The server sends an event. -/
lemma Inv.emit {s : State} (h : Inv kind s) {text : List UInt8} (hnl : newline ∉ text)
    (hkind : kind text = .event) : Inv kind (s.transmit ⟨none, text⟩) := by
  refine ⟨h.transmit_bytes _, fun l hl => ?_, fun l hl hnone => ?_, fun l hl m hm => ?_, ?_, h.taken,
    h.answered, h.calling, h.greeted⟩
  · rcases List.mem_append.mp hl with hl | hl
    · exact h.lines l hl
    · rw [List.mem_singleton.mp hl]
      exact hnl
  · rcases List.mem_append.mp hl with hl | hl
    · exact h.events l hl hnone
    · rw [List.mem_singleton.mp hl]
      exact hkind
  · rcases List.mem_append.mp hl with hl | hl
    · exact h.answers l hl m hm
    · rw [List.mem_singleton.mp hl] at hm
      cases hm
  · rw [State.transmit, List.filterMap_append, h.order]
    exact List.append_nil _

/-- The server answers the oldest command it did not answer.

**Proof sketch.** The new line is the last in flight, with the number after those in flight, and
its text is the reply of that number. -/
lemma Inv.reply {s : State} (h : Inv kind s) {text : List UInt8} (hnl : newline ∉ text)
    (hkind : kind text = .error ∨ kind text = .result) (hsent : s.replies.length < s.sent) :
    Inv kind { s.transmit ⟨some s.replies.length, text⟩ with replies := s.replies ++ [text] } := by
  have htaken := h.taken
  refine ⟨h.transmit_bytes _, fun l hl => ?_, fun l hl hnone => ?_, fun l hl m hm => ?_, ?_, ?_, ?_,
    h.calling, h.greeted⟩
  · rcases List.mem_append.mp hl with hl | hl
    · exact h.lines l hl
    · rw [List.mem_singleton.mp hl]
      exact hnl
  · rcases List.mem_append.mp hl with hl | hl
    · exact h.events l hl hnone
    · rw [List.mem_singleton.mp hl] at hnone
      cases hnone
  · rcases List.mem_append.mp hl with hl | hl
    · obtain ⟨hk, hreply⟩ := h.answers l hl m hm
      obtain ⟨hlt, -⟩ := List.getElem?_eq_some_iff.mp hreply
      exact ⟨hk, (List.getElem?_append_left hlt).trans hreply⟩
    · rw [List.mem_singleton.mp hl] at hm ⊢
      obtain rfl := Option.some.inj hm
      exact ⟨hkind, List.getElem?_concat_length⟩
  · have hcount : (s.replies ++ [text]).length - s.outcomes.length =
        s.replies.length - s.outcomes.length + 1 := by
      rw [List.length_append, List.length_singleton]
      omega
    have hnumber : s.outcomes.length + (s.replies.length - s.outcomes.length) = s.replies.length := by
      omega
    rw [State.transmit, List.filterMap_append, h.order, hcount, List.range'_1_concat, hnumber]
    rfl
  · exact htaken.trans (by rw [List.length_append]; omega)
  · rw [List.length_append, List.length_singleton]
    exact hsent

/-- The server sends JSON. -/
lemma Inv.next_ne_malformed {s : State} (h : Inv kind s) (hnl : newline ∈ s.buf) :
    kind s.next ≠ .malformed := by
  obtain ⟨l, rest, hflight, hnext, -⟩ := h.next_line hnl
  have hmem : l ∈ s.flight := by rw [hflight]; exact List.mem_cons_self ..
  intro hbad
  rw [hnext] at hbad
  cases hcommand : l.command with
  | none =>
    rw [h.events l hmem hcommand] at hbad
    cases hbad
  | some m =>
    rcases (h.answers l hmem m hcommand).1 with hk | hk <;> rw [hk] at hbad <;> cases hbad

/-- The first line is no reply: no command was sent before it was read. -/
lemma Inv.next_greeting {s : State} (h : Inv kind s) (hnl : newline ∈ s.buf)
    (hphase : s.phase = .greeting) : kind s.next = .event := by
  obtain ⟨l, rest, hflight, hnext, -⟩ := h.next_line hnl
  have hmem : l ∈ s.flight := by rw [hflight]; exact List.mem_cons_self ..
  rw [hnext]
  refine h.events l hmem ?_
  cases hcommand : l.command with
  | none => rfl
  | some m =>
    have horder := h.order
    have hsent := h.greeted hphase
    have hcount : s.replies.length - s.outcomes.length = 0 := by
      have := h.answered
      omega
    rw [hflight, List.filterMap_cons_some hcommand, hcount] at horder
    cases horder

/-! ## Steps -/

/-- **What a step can do**: it keeps the invariant, and either no call ends with a reply, or one
does, with the reply of the oldest command without one.

**Proof sketch.** Events of the server add a line. A receive moves bytes from the wire to the
buffer. Reading takes the first line on its way; its kind tells whether it is a reply. -/
theorem step_cases {s : State} (h : Inv kind s) (e : Event) :
    Inv kind (step kind s e) ∧
      (((step kind s e).outcomes = s.outcomes ∧ s.replies <+: (step kind s e).replies ∧
          ∀ command, ¬ Completes kind s e command) ∨
        ∃ command, Completes kind s e command ∧ (step kind s e).replies = s.replies ∧
          (step kind s e).outcomes =
            s.outcomes ++ [⟨command, s.next, some s.outcomes.length⟩] ∧
          s.replies[s.outcomes.length]? = some s.next) := by
  cases e with
  | call =>
    refine ⟨?_, .inl ?_⟩
    · rw [step]
      split
      · refine ⟨h.bytes, h.lines, h.events, h.answers, h.order, h.taken,
          h.answered.trans (Nat.le_succ _), ?_, nofun⟩
        intro n hn
        rw [Phase.call.inj hn]
      · exact h
    · rw [step]
      split
      · exact ⟨rfl, List.prefix_rfl, fun _ hc => nomatch hc.1⟩
      · exact ⟨rfl, List.prefix_rfl, fun _ hc => nomatch hc.1⟩
  | recv n =>
    rw [step]
    split
    · refine ⟨⟨?_, h.lines, h.events, h.answers, h.order, h.taken, h.answered, h.calling,
        h.greeted⟩, .inl ⟨rfl, List.prefix_rfl, fun _ hc => nomatch hc.1⟩⟩
      change s.buf ++ s.wire.take n ++ s.wire.drop n = _
      rw [List.append_assoc, List.take_append_drop]
      exact h.bytes
    · exact ⟨h, .inl ⟨rfl, List.prefix_rfl, fun _ hc => nomatch hc.1⟩⟩
  | recvFails =>
    rw [step]
    split
    · cases s.phase with
      | call n =>
        exact ⟨⟨h.bytes, h.lines, h.events, h.answers, h.order, h.taken, h.answered,
          fun m hm => absurd hm (Phase.raised_ne_call n m),
          fun hm => absurd hm (Phase.raised_ne_greeting n)⟩,
          .inl ⟨rfl, List.prefix_rfl, fun _ hc => nomatch hc.1⟩⟩
      | greeting =>
        exact ⟨⟨h.bytes, h.lines, h.events, h.answers, h.order, h.taken, h.answered, nofun, nofun⟩,
          .inl ⟨rfl, List.prefix_rfl, fun _ hc => nomatch hc.1⟩⟩
      | idle =>
        exact ⟨⟨h.bytes, h.lines, h.events, h.answers, h.order, h.taken, h.answered, nofun, nofun⟩,
          .inl ⟨rfl, List.prefix_rfl, fun _ hc => nomatch hc.1⟩⟩
      | failed =>
        exact ⟨⟨h.bytes, h.lines, h.events, h.answers, h.order, h.taken, h.answered, nofun, nofun⟩,
          .inl ⟨rfl, List.prefix_rfl, fun _ hc => nomatch hc.1⟩⟩
    · exact ⟨h, .inl ⟨rfl, List.prefix_rfl, fun _ hc => nomatch hc.1⟩⟩
  | emit text =>
    rw [step]
    split
    · next hok => exact ⟨h.emit hok.1 hok.2, .inl ⟨rfl, List.prefix_rfl, fun _ hc => nomatch hc.1⟩⟩
    · exact ⟨h, .inl ⟨rfl, List.prefix_rfl, fun _ hc => nomatch hc.1⟩⟩
  | reply text =>
    rw [step]
    split
    · next hok =>
      exact ⟨h.reply hok.2.1 hok.2.2 hok.1,
        .inl ⟨rfl, List.prefix_append .., fun _ hc => nomatch hc.1⟩⟩
    · exact ⟨h, .inl ⟨rfl, List.prefix_rfl, fun _ hc => nomatch hc.1⟩⟩
  | read =>
    rw [step]
    by_cases hnl : newline ∈ s.buf
    · rw [if_pos hnl]
      cases hphase : s.phase with
      | idle => exact ⟨h, .inl ⟨rfl, List.prefix_rfl, fun _ hc => by cases hphase.symm.trans hc.2.2.1⟩⟩
      | failed =>
        exact ⟨h, .inl ⟨rfl, List.prefix_rfl, fun _ hc => by cases hphase.symm.trans hc.2.2.1⟩⟩
      | greeting =>
        have hevent := h.next_greeting hnl hphase
        dsimp only
        rw [if_neg (by rw [hevent]; decide)]
        exact ⟨h.take_event hnl hevent nofun nofun,
          .inl ⟨rfl, List.prefix_rfl, fun _ hc => by cases hphase.symm.trans hc.2.2.1⟩⟩
      | call n =>
        cases hkind : kind s.next with
        | malformed => exact absurd hkind (h.next_ne_malformed hnl)
        | event =>
          refine ⟨h.take_event hnl hkind h.calling h.greeted,
            .inl ⟨rfl, List.prefix_rfl, fun _ hc => ?_⟩⟩
          have hc := hc.2.2.2
          rw [hkind] at hc
          rcases hc with hc | hc <;> cases hc
        | error =>
          obtain ⟨hhead, hreply, hinv⟩ := h.take_reply hnl (.inl hkind) (Phase.raised_ne_call n)
            (Phase.raised_ne_greeting n) ⟨n, s.next, s.flight.head?.bind Line.command⟩
          refine ⟨hinv, .inr ⟨n, ⟨rfl, hnl, hphase, .inl hkind⟩, rfl, ?_, hreply⟩⟩
          dsimp only
          rw [hhead]
        | result =>
          obtain ⟨hhead, hreply, hinv⟩ := h.take_reply hnl (.inr hkind)
            (show ∀ m, Phase.idle ≠ .call m by simp) (by simp)
            ⟨n, s.next, s.flight.head?.bind Line.command⟩
          refine ⟨hinv, .inr ⟨n, ⟨rfl, hnl, hphase, .inr hkind⟩, rfl, ?_, hreply⟩⟩
          dsimp only
          rw [hhead]
    · rw [if_neg hnl]
      exact ⟨h, .inl ⟨rfl, List.prefix_rfl, fun _ hc => hnl hc.2.1⟩⟩

/-- A new connection. -/
lemma inv_start {greeting : List UInt8} (hnl : newline ∉ greeting)
    (hkind : kind greeting = .event) : Inv kind (start greeting) := by
  refine ⟨(List.append_nil _).symm, fun l hl => ?_, fun l hl _ => ?_, fun l hl m hm => ?_, rfl,
    Nat.le_refl _, Nat.le_refl _, nofun, fun _ => rfl⟩
  · rw [List.mem_singleton.mp hl]
    exact hnl
  · rw [List.mem_singleton.mp hl]
    exact hkind
  · rw [List.mem_singleton.mp hl] at hm
    cases hm

/-- A reply that is known stays known. -/
lemma ownReply_of_prefix {s s' : State} (h : OwnReply s) (houtcomes : s'.outcomes = s.outcomes)
    (hreplies : s.replies <+: s'.replies) : OwnReply s' := by
  intro o ho
  rw [houtcomes] at ho
  obtain ⟨hanswers, hreply⟩ := h o ho
  obtain ⟨later, hlater⟩ := hreplies
  obtain ⟨hlt, -⟩ := List.getElem?_eq_some_iff.mp hreply
  exact ⟨hanswers, by rw [← hlater, List.getElem?_append_left hlt, hreply]⟩

/-- **When the calls of a connection get their own replies**: in every run from a new connection,
with any calls, any receives, any timeouts and a server that answers in order, every call that ended
with a reply ended with that of its command exactly when no call ends with a reply after one that
ended without.

**Proof sketch.** `step_cases` with the rule for exact conditions: the reply a call ends with is
that of the oldest command without one, and this is the command of the call exactly when as many
calls ended with a reply as there were commands before it. -/
theorem ownReply_iff (kind : List UInt8 → Kind) (greeting : List UInt8)
    (hnl : newline ∉ greeting) (hkind : kind greeting = .event) (events : List Event) :
    Run.AllStates (step kind) OwnReply (start greeting) events ↔
      Run.AllSteps (step kind) (InStep kind) (start greeting) events := by
  refine Run.allStates_iff_allSteps (I := fun s => Inv kind s ∧ OwnReply s) (fun s h => h.2)
    (fun s e h hstep => ?_) (fun s e h hstep hown => ?_) events _
    ⟨inv_start hnl hkind, fun o ho => absurd ho List.not_mem_nil⟩
  · obtain ⟨hinv, ⟨houtcomes, hreplies, -⟩ | ⟨command, hcompletes, hreplies, houtcomes, hreply⟩⟩ :=
      step_cases h.1 e
    · exact ⟨hinv, ownReply_of_prefix h.2 houtcomes hreplies⟩
    · refine ⟨hinv, fun o ho => ?_⟩
      rw [houtcomes, List.mem_append, List.mem_singleton] at ho
      rw [hreplies]
      rcases ho with ho | rfl
      · exact h.2 o ho
      · have hcount := hstep command hcompletes
        rw [hcount] at hreply
        exact ⟨congrArg some hcount, hreply⟩
  · obtain ⟨-, ⟨-, -, hnone⟩ | ⟨command, hcompletes, hreplies, houtcomes, -⟩⟩ := step_cases h.1 e
    · exact hstep fun command hcompletes => absurd hcompletes (hnone command)
    · refine hstep fun command' hcompletes' => ?_
      have hlast := hown ⟨command, s.next, some s.outcomes.length⟩ (by rw [houtcomes]; simp)
      have hsame := Phase.call.inj (hcompletes.2.2.1.symm.trans hcompletes'.2.2.1)
      rw [← hsame]
      exact Option.some.inj hlast.1

/-- The bytes of a text. -/
def bytesOf (s : String) : List UInt8 := s.toList.map fun c => UInt8.ofNat c.toNat

/-- `json.loads` on lines with one key. -/
def oneKey (text : List UInt8) : Kind :=
  if (bytesOf "\x7b\"return\"").isPrefixOf text then .result
  else if (bytesOf "\x7b\"error\"").isPrefixOf text then .error
  else .event

/-- A new connection: the greeting is read, and the constructor's own command is answered. -/
def connected : List Event :=
  [.recv 11, .read, .call, .reply (bytesOf "\x7b\"return\": 0\x7d"), .recv 14, .read]

/-- A call and its reply, with an event before it. -/
theorem ownReply_iff_call :
    Run.AllStates (step oneKey) OwnReply (start (bytesOf "\x7b\"QMP\": 0\x7d"))
      (connected ++ [.call, .emit (bytesOf "\x7b\"event\": 0\x7d"),
        .reply (bytesOf "\x7b\"return\": 0\x7d"), .recv 20, .read, .recv 7, .read]) :=
  (ownReply_iff oneKey _ (by decide) (by decide) _).mpr
    (by decide +kernel)

/-- **A late reply is taken for the next command's**: the connection stands, a call times out, its
reply arrives, and the next call returns it. -/
theorem late_reply_misread :
    ¬ Run.AllStates (step oneKey) OwnReply (start (bytesOf "\x7b\"QMP\": 0\x7d"))
      (connected ++ [.call, .recvFails, .reply (bytesOf "\x7b\"return\": 1\x7d"), .call,
        .recv 14, .read]) := by
  intro h
  have hlast := h.last ⟨2, bytesOf "\x7b\"return\": 1\x7d", some 1⟩ (by decide +kernel)
  exact absurd hlast.1 (by decide)

end Uvk5.Qmp
