import Mathlib.Algebra.Order.Ring.Nat
import Uvk5.Lib.Lines
import Uvk5.Web.Logs

set_option relaxedAutoImplicit false
set_option autoImplicit false

/-!
# The log on the page (`pollLogs` and `api_logs` in `tools/webui.py`)

The page asks for the lines after the number it has, every two seconds, whether or not the last poll
has been answered. So polls overlap: they wait at the server, are answered in any order, fail, or
arrive when the page has long gone on. What arrives is added to a text that is cut to its last
lines.

## Main definitions

* `LogPane.Page`, `LogPane.Page.receive` — the page, and what it does with an answer.
* `LogPane.Poll`, `LogPane.System`, `LogPane.System.step` — polls under way, and the whole.
* `LogPane.Answer`, `LogPane.Watch` — the answers that arrived, in order.

## Main results

* `LogPane.pane_shows` — what the pane shows, and which lines it does not.

## Design

Every reload of the page begins a new one. Of all pages one is followed; the lines that the others
cause are lines that are added.
-/

namespace Uvk5.LogPane

open Logs (LogBuffer Entry)

/-! ## The page -/

/-- `MAX_LOG_LINES`. -/
def maxLogLines : ℕ := 500

/-- `e.ip ? e.ip : '-'`. -/
def shownIp : Option String → List Char
  | none => ['-']
  | some ip => if ip = "" then ['-'] else ip.toList

/-- What is added to the text for an entry. -/
def line (e : Entry) : List Char :=
  e.time.toList ++ [' '] ++ shownIp e.ip ++ [' ', '['] ++ e.source.toList ++ [']', ' '] ++
    e.text.toList ++ ['\n']

/-- The page. -/
structure Page where
  /-- `logCursor`. -/
  logCursor : ℕ
  /-- The text of the pane. -/
  pane : List Char
  deriving DecidableEq

/-- A page that was just opened. -/
def Page.start : Page := ⟨0, []⟩

/-- `pollLogs` when the answer is there. -/
def Page.receive (p : Page) (fetched : List Entry) (cursor : ℕ) : Page :=
  let p := { p with logCursor := cursor }
  if fetched.isEmpty then p
  else { p with pane := Lines.lastPieces '\n' maxLogLines (p.pane ++ fetched.flatMap line) }

/-! ## Polls under way -/

/-- A poll. -/
inductive Poll where
  /-- It has not been looked at, or not got to the server. -/
  | asked (since : ℕ)
  /-- `api_logs` has evaluated `entries`, when the log had had so many lines. -/
  | reading (since readAt : ℕ) (fetched : List Entry)
  /-- `api_logs` has evaluated `cursor`, and the answer is on its way. -/
  | answered (since readAt : ℕ) (fetched : List Entry) (cursor : ℕ)
  deriving DecidableEq

/-- The number with which it was asked. -/
def Poll.since : Poll → ℕ
  | .asked since => since
  | .reading since _ _ => since
  | .answered since _ _ _ => since

/-- The log, the page and its polls. -/
structure System where
  /-- The log. -/
  log : LogBuffer
  /-- The page. -/
  page : Page
  /-- The polls that are under way. -/
  polls : List Poll
  deriving DecidableEq

/-- What can happen. -/
inductive Event where
  /-- A line is added. -/
  | add (time : String) (ip : Option String) (source text : String)
  /-- The page is opened or loaded again. -/
  | load
  /-- The timer of the page goes off. -/
  | tick
  /-- `api_logs` evaluates `entries` for a poll. -/
  | entries (i : ℕ)
  /-- `api_logs` evaluates `cursor` for a poll and answers. -/
  | cursor (i : ℕ)
  /-- The answer of a poll arrives. -/
  | arrive (i : ℕ)
  /-- A poll fails. -/
  | fail (i : ℕ)
  deriving DecidableEq

/-- One step. -/
def System.step (s : System) : Event → System
  | .add time ip source text => { s with log := Logs.add s.log time ip source text }
  | .load => { s with page := .start, polls := [] }
  | .tick => { s with polls := s.polls ++ [.asked s.page.logCursor] }
  | .entries i =>
    match s.polls[i]? with
    | some (.asked since) =>
      { s with polls := s.polls.set i (.reading since s.log.seq (Logs.entries s.log since)) }
    | _ => s
  | .cursor i =>
    match s.polls[i]? with
    | some (.reading since readAt fetched) =>
      { s with polls := s.polls.set i (.answered since readAt fetched (Logs.cursor s.log)) }
    | _ => s
  | .arrive i =>
    match s.polls[i]? with
    | some (.answered _ _ fetched cursor) =>
      { s with page := s.page.receive fetched cursor, polls := s.polls.eraseIdx i }
    | _ => s
  | .fail i => { s with polls := s.polls.eraseIdx i }

/-! ## What arrived -/

/-- An answer that arrived. -/
structure Answer where
  /-- The number with which the poll was asked. -/
  since : ℕ
  /-- How many lines the log had had when `entries` was evaluated. -/
  readAt : ℕ
  /-- The entries. -/
  fetched : List Entry
  /-- The number to ask with next. -/
  cursor : ℕ
  deriving DecidableEq

/-- The system with what there has been. -/
structure Watch where
  /-- The system. -/
  system : System
  /-- All lines that were added. -/
  all : List Entry
  /-- The answers that arrived at the page. -/
  answers : List Answer
  deriving DecidableEq

/-- The answer that arrives with an event. -/
def System.arriving (s : System) : Event → List Answer
  | .arrive i =>
    match s.polls[i]? with
    | some (.answered since readAt fetched cursor) => [⟨since, readAt, fetched, cursor⟩]
    | _ => []
  | _ => []

/-- One step. -/
def Watch.step (w : Watch) (e : Event) : Watch where
  system := w.system.step e
  all :=
    match e with
    | .add time ip source text => w.all ++ [w.system.log.next time ip source text]
    | _ => w.all
  answers := if e = .load then [] else w.answers ++ w.system.arriving e

/-- An empty log, and a page that was just opened. -/
def Watch.start (capacity : ℕ) : Watch := ⟨⟨.new capacity, .start, []⟩, [], []⟩

/-- The entries the page was given, in the order in which they came. -/
def Watch.received (w : Watch) : List Entry := w.answers.flatMap Answer.fetched

/-- The entry was in the log when `entries` was evaluated, and is after the number asked with. -/
def Answer.Has (capacity : ℕ) (since readAt : ℕ) (e : Entry) : Prop :=
  since < e.seq ∧ e.seq ≤ readAt ∧ readAt < e.seq + capacity

instance (capacity since readAt : ℕ) : DecidablePred (Answer.Has capacity since readAt) :=
  fun _ => inferInstanceAs (Decidable (_ ∧ _ ∧ _))

/-- The entry is one that the answer leaves out for good: it was added between the two reads of the
poll, or had been pushed out of the log when the first was made. -/
def Answer.Skips (capacity : ℕ) (a : Answer) (e : Entry) : Prop :=
  a.since < e.seq ∧ (a.readAt < e.seq ∧ e.seq ≤ a.cursor ∨ e.seq + capacity ≤ a.readAt)

/-! ## The log as a part of what was added -/

/-- Lines numbered from one number on: those from some place are those above some number. -/
lemma drop_eq_filter {all : List Entry} {first : ℕ}
    (h : all.map Entry.seq = List.range' (first + 1) all.length) (k : ℕ) :
    all.drop k = all.filter fun e => first + k < e.seq := by
  induction all generalizing first k with
  | nil => simp
  | cons e all ih =>
    rw [List.map_cons, List.length_cons, List.range'_succ, List.cons.injEq] at h
    obtain ⟨hseq, hrest⟩ := h
    cases k with
    | zero =>
      have hall := ih hrest 0
      rw [List.drop_zero] at hall ⊢
      rw [List.filter_cons_of_pos (by simp [hseq])]
      refine congrArg (e :: ·) (hall.trans (List.filter_congr fun x hx => ?_))
      have hx := List.mem_map_of_mem (f := Entry.seq) hx
      rw [hrest, List.mem_range'_1] at hx
      exact decide_eq_decide.mpr (by omega)
    | succ k =>
      rw [List.drop_succ_cons, ih hrest k, List.filter_cons_of_neg (by simp [hseq])]
      refine List.filter_congr fun x _ => decide_eq_decide.mpr ?_
      omega

section

variable {capacity : ℕ} {w : Watch}

/-- The log has the last lines that were added, and they are numbered. -/
structure Kept (capacity : ℕ) (w : Watch) : Prop where
  size : w.system.log.capacity = capacity
  seq : w.system.log.seq = w.all.length
  numbered : w.all.map Entry.seq = List.range' 1 w.all.length
  kept : w.system.log.kept = w.all.drop (w.all.length - capacity)

/-- The entries are numbered from one on, up to the number that was given last. -/
lemma Kept.seq_le (h : Kept capacity w) {e : Entry} (he : e ∈ w.all) :
    1 ≤ e.seq ∧ e.seq ≤ w.system.log.seq := by
  have hmem := List.mem_map_of_mem (f := Entry.seq) he
  rw [h.numbered, List.mem_range'_1] at hmem
  rw [h.seq]
  omega

/-- The numbers of the entries increase. -/
lemma Kept.sorted (h : Kept capacity w) : w.all.Pairwise fun e e' => e.seq < e'.seq := by
  have hsorted := List.pairwise_lt_range' (s := 1) (n := w.all.length)
  rwa [← h.numbered, List.pairwise_map] at hsorted

/-- What `entries` gives. -/
lemma Kept.entries (h : Kept capacity w) (since : ℕ) :
    Logs.entries w.system.log since =
      w.all.filter fun e => Answer.Has capacity since w.system.log.seq e := by
  have hlast : w.all.drop (w.all.length - capacity) = w.all.filter _ :=
    drop_eq_filter h.numbered _
  rw [Logs.entries, h.kept, hlast, List.filter_filter]
  refine List.filter_congr fun e he => ?_
  have hle := h.seq_le he
  rw [← h.seq, ← Bool.decide_and]
  refine decide_eq_decide.mpr ?_
  rw [Answer.Has]
  omega

/-- A line that is added is numbered next, and the log has the last ones still. -/
lemma Kept.add (h : Kept capacity w) (time : String) (ip : Option String) (source text : String) :
    Kept capacity (w.step (.add time ip source text)) where
  size := h.size
  seq := by
    simp only [Watch.step, System.step, Logs.add, List.length_append, List.length_singleton]
    rw [h.seq]
  numbered := by
    simp only [Watch.step, List.map_append, List.length_append, List.length_singleton]
    rw [h.numbered, List.range'_concat, ← h.seq]
    simp [LogBuffer.next, Nat.add_comm]
  kept := by
    simp only [Watch.step, System.step, Logs.add, Logs.append, List.length_append,
      List.length_singleton]
    rw [h.kept, h.size, List.length_drop]
    rcases Nat.le_total capacity w.all.length with hle | hge
    · rw [← List.drop_append_of_le_length (by omega), List.drop_drop]
      congr 1
      omega
    · rw [show w.all.length - capacity = 0 by omega, List.drop_zero]
      congr 1

/-! ## The invariant -/

/-- The page was given the entry, or an answer that arrived left it out. -/
def Accounted (capacity : ℕ) (w : Watch) (e : Entry) : Prop :=
  e ∈ w.received ∨ ∃ a ∈ w.answers, a.Skips capacity e

/-- All entries up to a number are accounted for. -/
def Covered (capacity : ℕ) (w : Watch) (n : ℕ) : Prop :=
  n ≤ w.system.log.seq ∧ ∀ e ∈ w.all, e.seq ≤ n → Accounted capacity w e

/-- What was read for a poll. -/
structure Reads (capacity : ℕ) (w : Watch) (since readAt : ℕ) (fetched : List Entry) : Prop where
  since_le : since ≤ readAt
  readAt_le : readAt ≤ w.system.log.seq
  fetched_eq : fetched = w.all.filter fun e => Answer.Has capacity since readAt e

/-- A poll under way is what it should be. -/
def Poll.Right (capacity : ℕ) (w : Watch) : Poll → Prop
  | .asked _ => True
  | .reading since readAt fetched => Reads capacity w since readAt fetched
  | .answered since readAt fetched cursor =>
    Reads capacity w since readAt fetched ∧ readAt ≤ cursor ∧ cursor ≤ w.system.log.seq

/-- What holds at any time. -/
structure Inv (capacity : ℕ) (w : Watch) : Prop where
  /-- The log has the last lines. -/
  kept : Kept capacity w
  /-- The pane shows the last lines of what was received. -/
  pane : w.system.page.pane = Lines.lastPieces '\n' maxLogLines (w.received.flatMap line)
  /-- What arrived was read from the log. -/
  answers : ∀ a ∈ w.answers, Reads capacity w a.since a.readAt a.fetched
  /-- All entries up to the number of the page are accounted for. -/
  page : Covered capacity w w.system.page.logCursor
  /-- So are those up to the number of a poll. -/
  polls : ∀ p ∈ w.system.polls, Covered capacity w p.since ∧ p.Right capacity w

/-- Lines were added, and answers arrived. -/
structure Extends (w w' : Watch) : Prop where
  seq_le : w.system.log.seq ≤ w'.system.log.seq
  all : ∃ more, w'.all = w.all ++ more ∧ ∀ e ∈ more, w.system.log.seq < e.seq
  answers : ∀ a ∈ w.answers, a ∈ w'.answers

section Extends

variable {w' : Watch} {since readAt : ℕ} {fetched : List Entry}

/-- What was read for a poll stays what was read. -/
lemma Reads.extend (h : Reads capacity w since readAt fetched) (hext : Extends w w') :
    Reads capacity w' since readAt fetched where
  since_le := h.since_le
  readAt_le := Nat.le_trans h.readAt_le hext.seq_le
  fetched_eq := by
    obtain ⟨more, hall, hmore⟩ := hext.all
    have hnone : more.filter (fun e => Answer.Has capacity since readAt e) = [] := by
      rw [List.filter_eq_nil_iff]
      intro e he hhas
      have hlt := hmore e he
      have hle := (of_decide_eq_true hhas).2.1
      have hread := h.readAt_le
      omega
    rw [hall, List.filter_append, hnone, List.append_nil]
    exact h.fetched_eq

/-- Entries that are accounted for stay so. -/
lemma Covered.extend {n : ℕ} (h : Covered capacity w n) (hext : Extends w w') :
    Covered capacity w' n := by
  refine ⟨Nat.le_trans h.1 hext.seq_le, fun e he hle => ?_⟩
  obtain ⟨more, hall, hmore⟩ := hext.all
  rw [hall, List.mem_append] at he
  rcases he with hold | hnew
  · rcases h.2 e hold hle with hreceived | ⟨a, ha, hskips⟩
    · obtain ⟨a, ha, he⟩ := List.mem_flatMap.mp hreceived
      exact .inl (List.mem_flatMap.mpr ⟨a, hext.answers a ha, he⟩)
    · exact .inr ⟨a, hext.answers a ha, hskips⟩
  · have hlt := hmore e hnew
    have hn := h.1
    omega

/-- A poll under way stays what it should be, whatever else happens. -/
lemma Poll.Right.extend {p : Poll} (h : p.Right capacity w) (hext : Extends w w') :
    p.Right capacity w' := by
  cases p with
  | asked since => trivial
  | reading since readAt fetched => exact Reads.extend h hext
  | answered since readAt fetched cursor =>
    exact ⟨Reads.extend h.1 hext, h.2.1, Nat.le_trans h.2.2 hext.seq_le⟩

end Extends

/-! ## One step -/

/-- It holds of an empty log and a page that was just opened. -/
lemma inv_start (capacity : ℕ) : Inv capacity (.start capacity) where
  kept := ⟨rfl, rfl, rfl, List.drop_nil.symm⟩
  pane := rfl
  answers _ ha := absurd ha List.not_mem_nil
  page := ⟨Nat.le_refl 0, fun _ he => absurd he List.not_mem_nil⟩
  polls _ hp := absurd hp List.not_mem_nil

/-- A line is added. -/
lemma Inv.add (h : Inv capacity w) (time : String) (ip : Option String) (source text : String) :
    Inv capacity (w.step (.add time ip source text)) := by
  have hanswers : (w.step (.add time ip source text)).answers = w.answers := by
    simp [Watch.step, System.arriving]
  have hext : Extends w (w.step (.add time ip source text)) := by
    refine ⟨Nat.le_succ _, ⟨_, rfl, fun e he => ?_⟩, fun a ha => ?_⟩
    · rw [List.mem_singleton.mp he]
      exact Nat.lt_succ_self _
    · rw [hanswers]
      exact ha
  have hreceived : (w.step (.add time ip source text)).received = w.received := by
    rw [Watch.received, Watch.received, hanswers]
  refine ⟨h.kept.add time ip source text, ?_, fun a ha => ?_, h.page.extend hext, fun p hp => ?_⟩
  · rw [hreceived]
    exact h.pane
  · rw [hanswers] at ha
    exact (h.answers a ha).extend hext
  · exact ⟨(h.polls p hp).1.extend hext, (h.polls p hp).2.extend hext⟩

/-- The page is loaded again. -/
lemma Inv.load (h : Inv capacity w) : Inv capacity (w.step .load) where
  kept := ⟨h.kept.size, h.kept.seq, h.kept.numbered, h.kept.kept⟩
  pane := rfl
  answers _ ha := absurd ha List.not_mem_nil
  page := by
    refine ⟨Nat.zero_le _, fun e he hle => ?_⟩
    have hpos := (h.kept.seq_le he).1
    have hzero : e.seq ≤ 0 := hle
    omega
  polls _ hp := absurd hp List.not_mem_nil

/-- Only the polls change. -/
lemma Inv.setPolls (h : Inv capacity w) {polls : List Poll}
    (hpolls : ∀ p ∈ polls, Covered capacity w p.since ∧ p.Right capacity w) :
    Inv capacity { w with system := { w.system with polls := polls } } where
  kept := ⟨h.kept.size, h.kept.seq, h.kept.numbered, h.kept.kept⟩
  pane := h.pane
  answers a ha := ⟨(h.answers a ha).since_le, (h.answers a ha).readAt_le,
    (h.answers a ha).fetched_eq⟩
  page := h.page
  polls p hp := by
    obtain ⟨hcovered, hright⟩ := hpolls p hp
    refine ⟨hcovered, hright.extend ⟨Nat.le_refl _, ⟨[], (List.append_nil _).symm, ?_⟩, ?_⟩⟩
    · exact fun _ he => absurd he List.not_mem_nil
    · exact fun _ ha => ha

/-- The timer goes off. -/
lemma Inv.tick (h : Inv capacity w) : Inv capacity (w.step .tick) := by
  have hstep : w.step .tick = { w with
      system := { w.system with
        polls := w.system.polls ++ [.asked w.system.page.logCursor] } } := by
    simp [Watch.step, System.step, System.arriving]
  rw [hstep]
  refine h.setPolls fun p hp => ?_
  rcases List.mem_append.mp hp with hold | hnew
  · exact h.polls p hold
  · rw [List.mem_singleton.mp hnew]
    exact ⟨h.page, trivial⟩

/-- A poll fails. -/
lemma Inv.fail (h : Inv capacity w) (i : ℕ) : Inv capacity (w.step (.fail i)) := by
  have hstep : w.step (.fail i) = { w with
      system := { w.system with polls := w.system.polls.eraseIdx i } } := by
    simp [Watch.step, System.step, System.arriving]
  rw [hstep]
  exact h.setPolls fun p hp => h.polls p (List.mem_of_mem_eraseIdx hp)

/-- A poll gets on. -/
lemma Inv.setPoll (h : Inv capacity w) {i : ℕ} {p p' : Poll} (hp : w.system.polls[i]? = some p)
    (hsince : p'.since = p.since) (hright : p'.Right capacity w) :
    Inv capacity { w with system := { w.system with polls := w.system.polls.set i p' } } := by
  refine h.setPolls fun q hq => ?_
  rcases List.mem_or_eq_of_mem_set hq with hold | rfl
  · exact h.polls q hold
  · rw [hsince]
    exact ⟨(h.polls p (List.mem_of_getElem? hp)).1, hright⟩

/-- `api_logs` evaluates `entries`. -/
lemma Inv.entries (h : Inv capacity w) (i : ℕ) : Inv capacity (w.step (.entries i)) := by
  have hstep : w.step (.entries i) = { w with system := w.system.step (.entries i) } := by
    simp [Watch.step, System.arriving]
  rw [hstep, System.step]
  split
  · next since hp =>
    refine h.setPoll hp rfl ⟨?_, Nat.le_refl _, h.kept.entries since⟩
    exact (h.polls _ (List.mem_of_getElem? hp)).1.1
  · exact h

/-- `api_logs` evaluates `cursor`. -/
lemma Inv.cursor (h : Inv capacity w) (i : ℕ) : Inv capacity (w.step (.cursor i)) := by
  have hstep : w.step (.cursor i) = { w with system := w.system.step (.cursor i) } := by
    simp [Watch.step, System.arriving]
  rw [hstep, System.step]
  split
  · next since readAt fetched hp =>
    have hreads : Reads capacity w since readAt fetched :=
      (h.polls _ (List.mem_of_getElem? hp)).2
    exact h.setPoll hp rfl ⟨hreads, hreads.readAt_le, Nat.le_refl _⟩
  · exact h

/-- The pane when entries arrive. -/
lemma pane_receive {p : Page} {text : List Char}
    (h : p.pane = Lines.lastPieces '\n' maxLogLines text) (fetched : List Entry) (cursor : ℕ) :
    (p.receive fetched cursor).pane =
      Lines.lastPieces '\n' maxLogLines (text ++ fetched.flatMap line) := by
  have happend (t : List Char) :
      Lines.lastPieces '\n' maxLogLines (Lines.lastPieces '\n' maxLogLines text ++ t) =
        Lines.lastPieces '\n' maxLogLines (text ++ t) :=
    Lines.lastPieces_append (by decide) text t
  rw [Page.receive]
  cases fetched with
  | nil =>
    rw [List.isEmpty_nil, if_pos rfl, List.flatMap_nil, List.append_nil]
    exact h
  | cons e fetched =>
    rw [List.isEmpty_cons, if_neg Bool.false_ne_true]
    dsimp only
    rw [h, happend]

/-- What an answer that arrives does. -/
structure Arrives (w : Watch) (i : ℕ) (a : Answer) : Prop where
  poll : w.system.polls[i]? = some (.answered a.since a.readAt a.fetched a.cursor)
  step_eq : w.step (.arrive i) = { w with
    system := { w.system with
      page := w.system.page.receive a.fetched a.cursor
      polls := w.system.polls.eraseIdx i }
    answers := w.answers ++ [a] }

/-- Something arrives, or nothing happens. -/
lemma step_arrive (w : Watch) (i : ℕ) :
    w.step (.arrive i) = w ∨ ∃ a, Arrives w i a := by
  cases hp : w.system.polls[i]? with
  | none => exact .inl (by simp [Watch.step, System.step, System.arriving, hp])
  | some p =>
    cases p with
    | asked since => exact .inl (by simp [Watch.step, System.step, System.arriving, hp])
    | reading since readAt fetched =>
      exact .inl (by simp [Watch.step, System.step, System.arriving, hp])
    | answered since readAt fetched cursor =>
      refine .inr ⟨⟨since, readAt, fetched, cursor⟩, hp, ?_⟩
      simp [Watch.step, System.step, System.arriving, hp]

section Arrives

variable {i : ℕ} {a : Answer}

/-- The answer that arrives is that of a poll. -/
lemma Arrives.mem (h : Arrives w i a) :
    .answered a.since a.readAt a.fetched a.cursor ∈ w.system.polls := List.mem_of_getElem? h.poll

/-- The page is given what the poll has fetched. -/
lemma Arrives.received (h : Arrives w i a) :
    (w.step (.arrive i)).received = w.received ++ a.fetched := by
  rw [h.step_eq, Watch.received, Watch.received, List.flatMap_append, List.flatMap_singleton]

/-- The page goes on from the number that came with it. -/
lemma Arrives.logCursor (h : Arrives w i a) :
    (w.step (.arrive i)).system.page.logCursor = a.cursor := by
  rw [h.step_eq, Page.receive]
  dsimp only
  split <;> rfl

/-- An answer that arrives adds no line to the log. -/
lemma Arrives.extends (h : Arrives w i a) : Extends w (w.step (.arrive i)) := by
  rw [h.step_eq]
  refine ⟨Nat.le_refl _, ⟨[], (List.append_nil _).symm, fun _ he => ?_⟩, fun b hb => ?_⟩
  · exact absurd he List.not_mem_nil
  · exact List.mem_append_left _ hb

/-- An entry up to the new number was accounted for, is in the answer, or is left out by it. -/
lemma Arrives.covered (h : Arrives w i a) (hcovered : Covered capacity w a.since)
    (hreads : Reads capacity w a.since a.readAt a.fetched) (hcursor : a.cursor ≤ w.system.log.seq) :
    Covered capacity (w.step (.arrive i)) a.cursor := by
  refine ⟨Nat.le_trans hcursor h.extends.seq_le, fun e he hle => ?_⟩
  rcases Nat.lt_or_ge a.since e.seq with hlt | hge
  · by_cases hhas : Answer.Has capacity a.since a.readAt e
    · refine .inl ?_
      rw [h.received, hreads.fetched_eq]
      exact List.mem_append_right _ (List.mem_filter.mpr ⟨he, decide_eq_true hhas⟩)
    · refine .inr ⟨a, ?_, hlt, ?_⟩
      · rw [h.step_eq]
        exact List.mem_append_right _ (List.mem_singleton_self a)
      · rw [Answer.Has] at hhas
        omega
  · exact (hcovered.extend h.extends).2 e he hge

end Arrives

/-- An answer arrives. -/
lemma Inv.arrive (h : Inv capacity w) (i : ℕ) : Inv capacity (w.step (.arrive i)) := by
  rcases step_arrive w i with hsame | ⟨a, ha⟩
  · rwa [hsame]
  obtain ⟨hcovered, hreads, -, hcursor⟩ := h.polls _ ha.mem
  have hext := ha.extends
  refine ⟨?_, ?_, fun b hb => ?_, ?_, fun q hq => ?_⟩
  · rw [ha.step_eq]
    exact ⟨h.kept.size, h.kept.seq, h.kept.numbered, h.kept.kept⟩
  · rw [ha.received, List.flatMap_append, ha.step_eq]
    exact pane_receive h.pane a.fetched a.cursor
  · rw [ha.step_eq] at hb
    rcases List.mem_append.mp hb with hold | hnew
    · exact (h.answers b hold).extend hext
    · rw [List.mem_singleton.mp hnew]
      exact hreads.extend hext
  · rw [ha.logCursor]
    exact ha.covered hcovered hreads hcursor
  · rw [ha.step_eq] at hq
    have hold := h.polls q (List.mem_of_mem_eraseIdx hq)
    exact ⟨hold.1.extend hext, hold.2.extend hext⟩

/-- It holds after every step. -/
lemma Inv.step (h : Inv capacity w) (e : Event) : Inv capacity (w.step e) := by
  cases e with
  | add time ip source text => exact h.add time ip source text
  | load => exact h.load
  | tick => exact h.tick
  | entries i => exact h.entries i
  | cursor i => exact h.cursor i
  | arrive i => exact h.arrive i
  | fail i => exact h.fail i

/-! ## One poll at a time -/

/-- The page polls only when its last poll is over. -/
def Alone (w : Watch) (e : Event) : Prop := e = .tick → w.system.polls = []

/-- What holds when every poll was alone. -/
structure InOrder (w : Watch) : Prop where
  /-- There is one poll at most. -/
  few : w.system.polls.length ≤ 1
  /-- It was asked with the number of the page. -/
  asked : ∀ p ∈ w.system.polls, p.since = w.system.page.logCursor
  /-- What the page was given is in order. -/
  sorted : w.received.Pairwise fun e e' => e.seq < e'.seq
  /-- It is not after the number of the page. -/
  below : ∀ e ∈ w.received, e.seq ≤ w.system.page.logCursor

/-- Only the polls change. -/
lemma InOrder.setPolls (h : InOrder w) {polls : List Poll} (hfew : polls.length ≤ 1)
    (hasked : ∀ p ∈ polls, p.since = w.system.page.logCursor) :
    InOrder { w with system := { w.system with polls := polls } } :=
  ⟨hfew, hasked, h.sorted, h.below⟩

/-- A poll that goes on with the number it was asked with keeps the order. -/
lemma InOrder.setPoll (h : InOrder w) {i : ℕ} {p p' : Poll} (hp : w.system.polls[i]? = some p)
    (hsince : p'.since = p.since) :
    InOrder { w with system := { w.system with polls := w.system.polls.set i p' } } := by
  refine h.setPolls (by rw [List.length_set]; exact h.few) fun q hq => ?_
  rcases List.mem_or_eq_of_mem_set hq with hold | rfl
  · exact h.asked q hold
  · rw [hsince]
    exact h.asked p (List.mem_of_getElem? hp)

/-- An answer that arrives keeps the order: nothing has been asked since it was asked for.

**Proof sketch.** The poll was the only one, so it asked with the page's cursor. Its lines are
above that cursor and in order, those received before are not, and the new cursor is not below
any. -/
lemma InOrder.arrive (h : InOrder w) (hinv : Inv capacity w) (i : ℕ) :
    InOrder (w.step (.arrive i)) := by
  rcases step_arrive w i with hsame | ⟨a, ha⟩
  · rwa [hsame]
  obtain ⟨-, hreads, hread, -⟩ := hinv.polls _ ha.mem
  have hsince : a.since = w.system.page.logCursor := h.asked _ ha.mem
  have hnone : w.system.polls.eraseIdx i = [] := by
    have hlen := List.length_eraseIdx_of_lt (List.getElem?_eq_some_iff.mp ha.poll).1
    have hfew := h.few
    exact List.eq_nil_of_length_eq_zero (by omega)
  have hfetched : ∀ e ∈ a.fetched, a.since < e.seq ∧ e.seq ≤ a.readAt := by
    intro e he
    rw [hreads.fetched_eq, List.mem_filter] at he
    have hhas := of_decide_eq_true he.2
    exact ⟨hhas.1, hhas.2.1⟩
  have hpolls : (w.step (.arrive i)).system.polls = [] := by
    rw [ha.step_eq]
    exact hnone
  refine ⟨?_, fun q hq => ?_, ?_, fun e he => ?_⟩
  · rw [hpolls]
    exact Nat.zero_le 1
  · rw [hpolls] at hq
    exact absurd hq List.not_mem_nil
  · rw [ha.received, List.pairwise_append]
    refine ⟨h.sorted, ?_, fun e he e' he' => ?_⟩
    · rw [hreads.fetched_eq]
      exact hinv.kept.sorted.sublist List.filter_sublist
    · have hbelow := h.below e he
      have habove := (hfetched e' he').1
      omega
  · rw [ha.logCursor]
    rw [ha.received, List.mem_append] at he
    rcases he with hold | hnew
    · have hbelow := h.below e hold
      have hle := hreads.since_le
      omega
    · have hle := (hfetched e hnew).2
      omega

/-- A step keeps the order, if the page polls only when its last poll is over.

**Proof sketch.** By the kind of event. A poll starts only when there is none, and asks with the
page's cursor; the two reads of the server change its stage only; an answer that arrives is
`InOrder.arrive`. -/
lemma InOrder.step (h : InOrder w) (hinv : Inv capacity w) {e : Event} (he : Alone w e) :
    InOrder (w.step e) := by
  cases e with
  | add time ip source text =>
    have hanswers : (w.step (.add time ip source text)).answers = w.answers := by
      simp [Watch.step, System.arriving]
    refine ⟨h.few, h.asked, ?_, ?_⟩
    · rw [Watch.received, hanswers]
      exact h.sorted
    · rw [Watch.received, hanswers]
      exact h.below
  | load =>
    exact ⟨Nat.zero_le 1, fun _ hp => absurd hp List.not_mem_nil, List.Pairwise.nil,
      fun _ he => absurd he List.not_mem_nil⟩
  | tick =>
    have hstep : w.step .tick = { w with
        system := { w.system with polls := [.asked w.system.page.logCursor] } } := by
      simp [Watch.step, System.step, System.arriving, he rfl]
    rw [hstep]
    refine h.setPolls (Nat.le_refl 1) fun p hp => ?_
    rw [List.mem_singleton.mp hp]
    rfl
  | entries i =>
    have hstep : w.step (.entries i) = { w with system := w.system.step (.entries i) } := by
      simp [Watch.step, System.arriving]
    rw [hstep, System.step]
    split
    · next since hp => exact h.setPoll hp rfl
    · exact h
  | cursor i =>
    have hstep : w.step (.cursor i) = { w with system := w.system.step (.cursor i) } := by
      simp [Watch.step, System.arriving]
    rw [hstep, System.step]
    split
    · next since readAt fetched hp => exact h.setPoll hp rfl
    · exact h
  | arrive i => exact h.arrive hinv i
  | fail i =>
    have hstep : w.step (.fail i) = { w with
        system := { w.system with polls := w.system.polls.eraseIdx i } } := by
      simp [Watch.step, System.step, System.arriving]
    rw [hstep]
    refine h.setPolls ?_ fun p hp => h.asked p (List.mem_of_mem_eraseIdx hp)
    exact Nat.le_trans (List.eraseIdx_sublist _ _).length_le h.few

end

/-! ## Runs -/

/-- What the pane shows. -/
structure Shows (capacity : ℕ) (w : Watch) : Prop where
  /-- It shows the last lines of what the page was given, in the order in which it came. -/
  pane : w.system.page.pane = Lines.lastPieces '\n' maxLogLines (w.received.flatMap line)
  /-- An answer has what the log had when it was read, after the number asked with. -/
  answers : ∀ a ∈ w.answers,
    a.fetched = w.all.filter fun e => Answer.Has capacity a.since a.readAt e
  /-- Nothing up to the number of the page is missing but for what an answer left out. -/
  covered : ∀ e ∈ w.all, e.seq ≤ w.system.page.logCursor → Accounted capacity w e

/-- The pane shows what was received, the last lines of it. -/
lemma Inv.shows {capacity : ℕ} {w : Watch} (h : Inv capacity w) : Shows capacity w :=
  ⟨h.pane, fun a ha => (h.answers a ha).fetched_eq, h.page.2⟩

/-- **What the pane shows**, for every order of lines that are added, polls, reads of the log by the
server, answers that arrive and polls that fail: the last lines of the entries it was given. Every
entry up to the number it asks with was given to it at least once, apart from those that a poll left
out because they were added between its two reads or had been pushed out of the log. If every poll
is over before the next one begins, no entry is given to it twice, and they come in order.

**Proof sketch.** An answer accounts for the entries between the number it was asked with and the
number it carries, and all up to the first of these were accounted for when it was asked. So it does
no harm that a late answer takes the page back to a smaller number. -/
theorem pane_shows (capacity : ℕ) (es : List Event) :
    Shows capacity (es.foldl Watch.step (.start capacity)) ∧
      (Run.AllSteps Watch.step Alone (.start capacity) es →
        (es.foldl Watch.step (.start capacity)).received.Pairwise fun e e' => e.seq < e'.seq) := by
  constructor
  · have hinv : Inv capacity (es.foldl Watch.step (.start capacity)) :=
      Run.foldl_of_step (I := Inv capacity) (fun _ e h => h.step e) es (inv_start capacity)
    exact hinv.shows
  · intro halone
    have hstart : InOrder (.start capacity) :=
      ⟨Nat.zero_le 1, fun _ hp => absurd hp List.not_mem_nil, List.Pairwise.nil,
        fun _ he => absurd he List.not_mem_nil⟩
    have hrun := Run.allStates_of_allSteps (I := fun w => Inv capacity w ∧ InOrder w)
      (fun w e h he => ⟨h.1.step e, h.2.step h.1 he⟩) es _ ⟨inv_start capacity, hstart⟩ halone
    exact hrun.last.2.sorted

/-- Two polls that overlap bring a line twice. -/
example :
    let es : List Event := [.add "12:00:00" none "qemu" "on", .tick, .tick, .entries 0, .entries 1,
      .cursor 1, .cursor 0, .arrive 0, .arrive 0]
    (es.foldl Watch.step (.start 500)).received.map Entry.seq = [1, 1] := by rfl

end Uvk5.LogPane
