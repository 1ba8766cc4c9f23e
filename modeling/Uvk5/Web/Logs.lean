import Mathlib.Data.List.Nodup
import Uvk5.Lib.Run

set_option relaxedAutoImplicit false
set_option autoImplicit false

/-!
# The log and its readers (`tools/uvk5_logs.py`, `api_logs` of `tools/webui.py`)

The log keeps the last lines it was given, numbered from 1 on. A client polls it: an answer carries
the lines after the number the client has, and the number to ask with the next time. The two are
read one after the other, each under the lock, so a line may be added between them.

## Main definitions

* `Logs.LogBuffer`, `Logs.add`, `Logs.cursor`, `Logs.entries` — the log.
* `Logs.State`, `Logs.step` — the log and one client, with polls cut where the lock is released.

## Main results

* `Logs.exactlyOnce_iff` — every line that a poll finds in the log is delivered exactly once, and in
  order, exactly if none of them was added between the two reads of an earlier poll.
-/

namespace Uvk5.Logs

/-- An entry. -/
structure Entry where
  /-- `seq`. -/
  seq : ℕ
  /-- `time`. -/
  time : String
  /-- `ip`. -/
  ip : Option String
  /-- `source`. -/
  source : String
  /-- `text`. -/
  text : String
  deriving DecidableEq

/-- `LogBuffer`. -/
structure LogBuffer where
  /-- `maxlen` of the deque. -/
  capacity : ℕ
  /-- `_entries`. -/
  kept : List Entry
  /-- `_seq`. -/
  seq : ℕ
  deriving DecidableEq

/-- `LogBuffer(capacity)`. -/
def LogBuffer.new (capacity : ℕ) : LogBuffer := ⟨capacity, [], 0⟩

/-- `deque.append`: the oldest elements make room. -/
def append {α : Type} (capacity : ℕ) (xs : List α) (x : α) : List α :=
  (xs ++ [x]).drop ((xs ++ [x]).length - capacity)

/-- The entry that is added next. -/
def LogBuffer.next (b : LogBuffer) (time : String) (ip : Option String) (source text : String) :
    Entry := ⟨b.seq + 1, time, ip, source, text⟩

/-- `add`, at a time of day. -/
def add (b : LogBuffer) (time : String) (ip : Option String) (source text : String) : LogBuffer :=
  { b with
    seq := b.seq + 1
    kept := append b.capacity b.kept (b.next time ip source text) }

/-- `cursor`. -/
def cursor (b : LogBuffer) : ℕ := b.seq

/-- `entries`. -/
def entries (b : LogBuffer) (since : ℕ) : List Entry := b.kept.filter fun e => since < e.seq

/-! ## A client -/

/-- Where a poll is. -/
inductive Phase where
  /-- There is none. -/
  | idle
  /-- `entries` has been evaluated, with the log as it was then and what it returned. -/
  | answering (found fetched : List Entry)
  deriving DecidableEq

/-- The log and one client. -/
structure State where
  /-- The log. -/
  log : LogBuffer
  /-- The number the client asks with. -/
  since : ℕ
  /-- The poll in progress. -/
  phase : Phase
  /-- What the client was given. -/
  delivered : List Entry
  /-- What was in the log when a poll that is through evaluated `entries`. -/
  due : List Entry
  /-- What was added between `entries` and `cursor` of a poll. -/
  between : List Entry
  deriving DecidableEq

/-- A new log, and a client that has not polled yet. -/
def State.start (capacity : ℕ) : State where
  log := .new capacity
  since := 0
  phase := .idle
  delivered := []
  due := []
  between := []

/-- What can happen. -/
inductive Event where
  /-- A line is added. -/
  | add (time : String) (ip : Option String) (source text : String)
  /-- The client polls, and `api_logs` evaluates `entries`. -/
  | entries
  /-- `api_logs` evaluates `cursor` and answers. -/
  | cursor
  deriving DecidableEq

/-- One step. -/
def step (s : State) : Event → State
  | .add time ip source text =>
    { s with
      log := add s.log time ip source text
      between := match s.phase with
        | .idle => s.between
        | .answering .. => s.log.next time ip source text :: s.between }
  | .entries =>
    match s.phase with
    | .idle => { s with phase := .answering s.log.kept (entries s.log s.since) }
    | .answering .. => s
  | .cursor =>
    match s.phase with
    | .idle => s
    | .answering found fetched =>
      { s with
        since := cursor s.log
        phase := .idle
        delivered := s.delivered ++ fetched
        due := s.due ++ found }

/-- What the client was given is in the order of the numbers, and every line that a poll found in
the log was given to it exactly once. -/
def ExactlyOnce (s : State) : Prop :=
  s.delivered.Pairwise (fun e e' => e.seq < e'.seq) ∧ ∀ e ∈ s.due, s.delivered.count e = 1

/-- If the step ends a poll, then no line that the poll found was added between the two reads of a
poll. -/
def NoneBetween (s : State) (e : Event) : Prop :=
  e = .cursor → ∀ found fetched, s.phase = .answering found fetched → ∀ x ∈ found, x ∉ s.between

/-! ## The invariant -/

/-- What is known of the lines with which a poll deals: those up to the number of the client were
delivered, or added between two reads. -/
structure Inv (s : State) : Prop where
  /-- The log is in order. -/
  sorted : s.log.kept.Pairwise fun e e' => e.seq < e'.seq
  /-- The numbers in the log have been given out. -/
  numbered : ∀ e ∈ s.log.kept, e.seq ≤ s.log.seq
  /-- So has the number of the client. -/
  since_le : s.since ≤ s.log.seq
  /-- What was delivered is in order. -/
  ordered : s.delivered.Pairwise fun e e' => e.seq < e'.seq
  /-- What was delivered is not after the number of the client. -/
  delivered_le : ∀ e ∈ s.delivered, e.seq ≤ s.since
  /-- What was added between two reads was not delivered. -/
  between_lost : ∀ e ∈ s.between, e.seq ≤ s.log.seq ∧ e ∉ s.delivered
  /-- Between polls, the lines of the log up to the number of the client are accounted for. -/
  idle : s.phase = .idle →
    (∀ e ∈ s.between, e.seq ≤ s.since) ∧
      ∀ e ∈ s.log.kept, e.seq ≤ s.since → e ∈ s.delivered ∨ e ∈ s.between
  /-- In a poll, so are the lines it found, and those of the log that it did not fetch. -/
  answering : ∀ found fetched, s.phase = .answering found fetched →
    fetched = found.filter (fun e => s.since < e.seq) ∧
      found.Pairwise (fun e e' => e.seq < e'.seq) ∧ (∀ e ∈ found, e.seq ≤ s.log.seq) ∧
      (∀ e ∈ found, e.seq ≤ s.since → e ∈ s.delivered ∨ e ∈ s.between) ∧
      (∀ e ∈ s.log.kept, e ∈ found ∨ e ∈ s.between) ∧ ∀ e ∈ fetched, e ∉ s.between

/-- An empty log is numbered. -/
lemma inv_start (capacity : ℕ) : Inv (.start capacity) where
  sorted := List.Pairwise.nil
  numbered := nofun
  since_le := Nat.le_refl 0
  ordered := List.Pairwise.nil
  delivered_le := nofun
  between_lost := nofun
  idle := fun _ => ⟨nofun, nofun⟩
  answering := nofun

section Add

variable {b : LogBuffer} {time : String} {ip : Option String} {source text : String}

/-- What is in the log after a line was added was there before, or is that line. -/
lemma mem_add {e : Entry} (h : e ∈ (add b time ip source text).kept) :
    e ∈ b.kept ∨ e = b.next time ip source text := by
  have hmem := List.mem_of_mem_drop h
  simpa using hmem

/-- A line that is added has the largest number. -/
lemma add_sorted (hsorted : b.kept.Pairwise fun e e' => e.seq < e'.seq)
    (hnumbered : ∀ e ∈ b.kept, e.seq ≤ b.seq) :
    (add b time ip source text).kept.Pairwise fun e e' => e.seq < e'.seq := by
  refine List.Pairwise.sublist (List.drop_sublist _ _) ?_
  rw [List.pairwise_append]
  refine ⟨hsorted, List.pairwise_singleton .., fun e he e' he' => ?_⟩
  rw [List.mem_singleton.mp he']
  exact Nat.lt_succ_of_le (hnumbered e he)

end Add

/-- The invariant survives a line that is added.

**Proof sketch.** The new line has a number above all others. While no answer is being made it is
above what the page has; while one is, it is added to the lines between the two reads, and no line
that was found has its number. -/
lemma inv_add {s : State} (h : Inv s) (time : String) (ip : Option String) (source text : String) :
    Inv (step s (.add time ip source text)) := by
  have hnext : ∀ e ∈ s.delivered, e.seq < (s.log.next time ip source text).seq := fun e he =>
    Nat.lt_succ_of_le (Nat.le_trans (h.delivered_le e he) h.since_le)
  have hnumbered : ∀ e ∈ (add s.log time ip source text).kept, e.seq ≤ s.log.seq + 1 := by
    intro e he
    rcases mem_add he with hold | rfl
    · exact Nat.le_succ_of_le (h.numbered e hold)
    · exact Nat.le_refl _
  cases hphase : s.phase with
  | idle =>
    obtain ⟨hbetween, hkept⟩ := h.idle hphase
    have hstep : step s (.add time ip source text) =
        { s with log := add s.log time ip source text } := by
      simp [step, hphase]
    rw [hstep]
    refine ⟨add_sorted h.sorted h.numbered, hnumbered, Nat.le_succ_of_le h.since_le, h.ordered,
      h.delivered_le, fun e he => ?_, fun _ => ⟨hbetween, fun e he hle => ?_⟩,
      fun found fetched hanswering => ?_⟩
    · exact ⟨Nat.le_succ_of_le (h.between_lost e he).1, (h.between_lost e he).2⟩
    · rcases mem_add he with hold | rfl
      · exact hkept e hold hle
      · exact absurd (Nat.le_trans hle h.since_le) (Nat.not_succ_le_self _)
    · rw [hphase] at hanswering
      cases hanswering
  | answering found fetched =>
    obtain ⟨hfetched, hsorted, hfound, hearly, hkept, hnew⟩ := h.answering found fetched hphase
    have hstep : step s (.add time ip source text) =
        { s with
          log := add s.log time ip source text
          between := s.log.next time ip source text :: s.between } := by
      simp [step, hphase]
    rw [hstep]
    refine ⟨add_sorted h.sorted h.numbered, hnumbered, Nat.le_succ_of_le h.since_le, h.ordered,
      h.delivered_le, fun e he => ?_, fun hidle => ?_, ?_⟩
    · rcases List.mem_cons.mp he with rfl | hold
      · exact ⟨Nat.le_refl _, fun hmem => Nat.lt_irrefl _ (hnext _ hmem)⟩
      · exact ⟨Nat.le_succ_of_le (h.between_lost e hold).1, (h.between_lost e hold).2⟩
    · rw [hphase] at hidle
      cases hidle
    · intro found' fetched' hanswering
      obtain ⟨rfl, rfl⟩ := Phase.answering.inj (hphase.symm.trans hanswering)
      refine ⟨hfetched, hsorted, fun e he => Nat.le_succ_of_le (hfound e he),
        fun e he hle => (hearly e he hle).imp id (List.mem_cons_of_mem _), fun e he => ?_,
        fun e he hmem => ?_⟩
      · rcases mem_add he with hold | rfl
        · exact (hkept e hold).imp id (List.mem_cons_of_mem _)
        · exact .inr (List.mem_cons_self ..)
      · rcases List.mem_cons.mp hmem with rfl | hold
        -- The new line has a number that no line found can have.
        · rw [hfetched] at he
          exact absurd (hfound _ (List.mem_of_mem_filter he)) (Nat.not_succ_le_self _)
        · exact hnew e he hold

/-- The invariant survives the first half of a poll. -/
lemma inv_entries {s : State} (h : Inv s) : Inv (step s .entries) := by
  cases hphase : s.phase with
  | answering found fetched => simpa [step, hphase] using h
  | idle =>
    obtain ⟨hbetween, hkept⟩ := h.idle hphase
    have hstep : step s .entries =
        { s with phase := .answering s.log.kept (entries s.log s.since) } := by
      simp [step, hphase]
    rw [hstep]
    refine ⟨h.sorted, h.numbered, h.since_le, h.ordered, h.delivered_le, h.between_lost, nofun,
      fun found fetched hanswering => ?_⟩
    obtain ⟨rfl, rfl⟩ := Phase.answering.inj hanswering
    refine ⟨rfl, h.sorted, h.numbered, hkept, fun e he => .inl he, fun e he hmem => ?_⟩
    have hlt : s.since < e.seq := of_decide_eq_true (List.mem_filter.mp he).2
    exact Nat.not_lt.mpr (hbetween e hmem) hlt

/-- The invariant survives the second half of a poll.

**Proof sketch.** What is delivered is what was found with numbers above those the page had, so it
comes in order after what was delivered before. The cursor is the number of the last line, so
every line that is kept was delivered, or was added between the two reads. -/
lemma inv_cursor {s : State} (h : Inv s) : Inv (step s .cursor) := by
  cases hphase : s.phase with
  | idle => simpa [step, hphase] using h
  | answering found fetched =>
    obtain ⟨hfetched, hsorted, hfound, hearly, hkept, hnew⟩ := h.answering found fetched hphase
    have hstep : step s .cursor =
        { s with
          since := cursor s.log
          phase := .idle
          delivered := s.delivered ++ fetched
          due := s.due ++ found } := by
      simp [step, hphase]
    have hlate : ∀ e ∈ fetched, s.since < e.seq ∧ e ∈ found := by
      intro e he
      rw [hfetched, List.mem_filter] at he
      exact ⟨of_decide_eq_true he.2, he.1⟩
    rw [hstep]
    refine ⟨h.sorted, h.numbered, Nat.le_refl _, ?_, fun e he => ?_, fun e he => ?_,
      fun _ => ⟨fun e he => (h.between_lost e he).1, fun e he _ => ?_⟩, nofun⟩
    · refine List.pairwise_append.mpr ⟨h.ordered, ?_, fun e he e' he' => ?_⟩
      · rw [hfetched]
        exact hsorted.sublist List.filter_sublist
      · exact Nat.lt_of_le_of_lt (h.delivered_le e he) (hlate e' he').1
    · rcases List.mem_append.mp he with hold | hfresh
      · exact Nat.le_trans (h.delivered_le e hold) h.since_le
      · exact hfound e (hlate e hfresh).2
    · refine ⟨(h.between_lost e he).1, fun hmem => ?_⟩
      rcases List.mem_append.mp hmem with hold | hfresh
      · exact (h.between_lost e he).2 hold
      · exact hnew e hfresh he
    · rcases hkept e he with hwas | hbetween
      · rcases Nat.lt_or_ge s.since e.seq with hlt | hle
        · refine .inl (List.mem_append_right _ ?_)
          rw [hfetched]
          exact List.mem_filter.mpr ⟨hwas, decide_eq_true hlt⟩
        · exact (hearly e hwas hle).imp (List.mem_append_left _) id
      · exact .inr hbetween

/-- Every step keeps the numbers. -/
lemma inv_step {s : State} (h : Inv s) (e : Event) : Inv (step s e) := by
  cases e with
  | add time ip source text => exact inv_add h time ip source text
  | entries => exact inv_entries h
  | cursor => exact inv_cursor h

/-! ## What a poll delivers -/

/-- What is in order has nothing twice. -/
lemma count_eq_one_iff {xs : List Entry} (h : xs.Pairwise fun e e' => e.seq < e'.seq) {e : Entry} :
    xs.count e = 1 ↔ e ∈ xs := by
  have hnodup : xs.Nodup := h.imp fun hlt heq => Nat.ne_of_lt hlt (congrArg Entry.seq heq)
  constructor
  · intro hone
    exact List.count_pos_iff.mp (by rw [hone]; exact Nat.one_pos)
  · exact List.count_eq_one_of_mem hnodup

/-- A line that a poll found is delivered when the poll is through, unless it was added between two
reads. -/
lemma mem_delivered_cursor {s : State} (h : Inv s) {found fetched : List Entry}
    (hphase : s.phase = .answering found fetched) {e : Entry} (he : e ∈ found) :
    e ∈ (step s .cursor).delivered ↔ e ∉ s.between := by
  obtain ⟨hfetched, -, -, hearly, -, hnew⟩ := h.answering found fetched hphase
  have hdelivered : (step s .cursor).delivered = s.delivered ++ fetched := by
    simp [step, hphase]
  rw [hdelivered, List.mem_append]
  constructor
  · rintro (hold | hfresh) hbetween
    · exact (h.between_lost e hbetween).2 hold
    · exact hnew e hfresh hbetween
  · intro hnot
    rcases Nat.lt_or_ge s.since e.seq with hlt | hle
    · rw [hfetched]
      exact .inr (List.mem_filter.mpr ⟨he, decide_eq_true hlt⟩)
    · exact .inl ((hearly e he hle).resolve_right hnot)

/-- **What polling gives**: for every log, and every order of lines that are added and of the two
reads of each poll, every line that a poll finds in the log is delivered by the end of that poll,
exactly once and in order, exactly if no line it finds was added between the two reads of an earlier
poll.

**Proof sketch.** The answer of a poll has the lines after the number the client has, but the number
it gives is read later; a line added in between is not in the answer, and never asked for again.
`Inv` says that those are the only ones. -/
theorem exactlyOnce_iff (capacity : ℕ) (events : List Event) :
    Run.AllStates step ExactlyOnce (.start capacity) events ↔
      Run.AllSteps step NoneBetween (.start capacity) events := by
  refine Run.allStates_iff_allSteps
    (I := fun s : State => Inv s ∧ ∀ e ∈ s.due, s.delivered.count e = 1)
    (fun s h => ⟨h.1.ordered, h.2⟩) (fun s e h hnone => ⟨inv_step h.1 e, ?_⟩)
    (fun s e h hnone honce => ?_) events _ ⟨inv_start capacity, nofun⟩
  · intro x hx
    rw [count_eq_one_iff (inv_step h.1 e).ordered]
    have hdue := fun y hy => (count_eq_one_iff h.1.ordered).mp (h.2 y hy)
    match e with
    | .add time ip source text => exact hdue x hx
    | .entries =>
      cases hphase : s.phase with
      | idle =>
        simp only [step, hphase] at hx ⊢
        exact hdue x hx
      | answering found fetched =>
        simp only [step, hphase] at hx ⊢
        exact hdue x hx
    | .cursor =>
      cases hphase : s.phase with
      | idle =>
        simp only [step, hphase] at hx ⊢
        exact hdue x hx
      | answering found fetched =>
        have hmem : x ∈ s.due ++ found := by simpa [step, hphase] using hx
        rcases List.mem_append.mp hmem with hold | hfound
        · have hdelivered : (step s .cursor).delivered = s.delivered ++ fetched := by
            simp [step, hphase]
          rw [hdelivered]
          exact List.mem_append_left _ (hdue x hold)
        · exact (mem_delivered_cursor h.1 hphase hfound).mpr
            (hnone rfl found fetched hphase x hfound)
  · refine hnone ?_
    rintro rfl found fetched hphase x hfound hbetween
    have hdue : x ∈ (step s .cursor).due := by
      simp [step, hphase, hfound]
    have hmem := (count_eq_one_iff honce.1).mp (honce.2 x hdue)
    exact (mem_delivered_cursor h.1 hphase hfound).mp hmem hbetween

/-- A line that is added between the two reads of the first poll is not in the answer of the
second. -/
theorem line_between_reads_lost :
    ¬ ∀ (capacity : ℕ) (events : List Event),
      Run.AllStates step ExactlyOnce (.start capacity) events := by
  intro h
  have hrun := (h 500
    [.entries, .add "12:00:00" none "qemu" "one", .cursor, .entries, .cursor]).last
  exact absurd (hrun.2 ⟨1, "12:00:00", none, "qemu", "one"⟩ (by decide)) (by decide)

end Uvk5.Logs
