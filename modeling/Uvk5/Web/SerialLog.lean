import Mathlib.Data.List.DropRight
import Uvk5.Lib.Hex
import Uvk5.Lib.Utf8
import Uvk5.Serial.Console
import Uvk5.Web.Logs

set_option relaxedAutoImplicit false
set_option autoImplicit false

/-!
# From the serial line to the log (`qemu/py32f071.c`, `pump_stream` of `tools/uvk5_logs.py`)

What the firmware prints goes to the standard error of the emulator, a line behind a tag, among
whatever else is written there. The launcher reads that stream line by line into the log, under the
source its tag says.

## Main definitions

* `Logs.Output`, `Logs.stderr` — what is written to the stream.
* `Logs.describeLine`, `Logs.pumpStream` — what becomes of a line, and of the stream.

## Main results

* `Logs.shown_pumpStream` — what the log keeps of a stream.
* `Logs.serial_logged` — every line of the firmware is an entry of its own, text as it is.
-/

namespace Uvk5.Logs

/-! ## The stream -/

/-- `b"SERIAL "`. -/
def serialTag : List UInt8 := [0x53, 0x45, 0x52, 0x49, 0x41, 0x4c, 0x20]

/-- What is written while the emulator runs. -/
inductive Output where
  /-- The firmware writes a byte to the data register of USART1. -/
  | byte (b : UInt8)
  /-- Something else prints a line. -/
  | other (line : List UInt8)

/-- The bytes the firmware writes. -/
def bytesOf (outs : List Output) : List UInt8 :=
  outs.flatMap fun | .byte b => [b] | .other _ => []

/-- The other lines. -/
def othersOf (outs : List Output) : List (List UInt8) :=
  outs.flatMap fun | .byte _ => [] | .other line => [line]

/-- Another line is among the other lines. -/
@[simp] lemma othersOf_other (line : List UInt8) (outs : List Output) :
    othersOf (.other line :: outs) = line :: othersOf outs := rfl

/-- The lines that a byte prints: `fprintf(stderr, "SERIAL %s\\n", line)`. -/
def printedBy (s : Console.State) (b : UInt8) : List (List UInt8) :=
  (Console.serialByte s b).printed.drop s.printed.length

/-- The standard error of the emulator. -/
def stderr : Console.State → List Output → List UInt8
  | _, [] => []
  | s, .byte b :: outs =>
    ((printedBy s b).flatMap fun line => serialTag ++ line ++ [0x0a]) ++
      stderr (Console.serialByte s b) outs
  | s, .other line :: outs => line ++ 0x0a :: stderr s outs

/-! ## The log -/

/-- `_TEXT_BYTES`. -/
def TextByte (b : UInt8) : Prop := (0x20 ≤ b ∧ b < 0x7f) ∨ b = 0x09

instance (b : UInt8) : Decidable (TextByte b) := inferInstanceAs (Decidable (_ ∨ _))

/-- `body.hex(" ")`. -/
def hexSpaced (body : List UInt8) : List Char :=
  [' '].intercalate (body.map fun b => Hex.encode [b])

/-- `describe_line`. -/
def describeLine (raw : List UInt8) : List Char :=
  let body := raw.rdropWhile fun b => b = 0x0d ∨ b = 0x0a
  if body = [] then []
  else if body.countP (fun b => ¬ TextByte b) * 4 ≤ body.length then Utf8.decode body
  else "<binary ".toList ++ (toString body.length).toList ++ " bytes> ".toList ++
    hexSpaced (body.take 24) ++
      if body.length ≤ 24 then []
      else " … +".toList ++ (toString (body.length - 24)).toList ++ " bytes".toList

/-- The source and the text of a line of the stream. -/
def pumpLine (defaultSource : String) (raw : List UInt8) : String × String :=
  if serialTag <+: raw then ("serial", String.ofList (describeLine (raw.drop serialTag.length)))
  else (defaultSource, String.ofList (describeLine raw))

/-- `pump_stream`, with the time of day at which an entry of a number is added. -/
def pumpStream (log : LogBuffer) (clock : ℕ → String) (stream : List UInt8)
    (defaultSource : String) : LogBuffer :=
  (Utf8.readLines stream).foldl (fun log raw =>
    let (source, text) := pumpLine defaultSource raw
    if text = "" then log else add log (clock log.seq) none source text) log

/-! ## Lines of the firmware -/

/-- The line that is collected can be printed as it is. -/
def Clean (s : Console.State) : Prop := ∀ b ∈ s.line, Console.Kept b

/-- A line that has not begun can be printed as it is. -/
lemma clean_start : Clean Console.start := fun _ h => absurd h List.not_mem_nil

/-- What a byte prints, and what it leaves. -/
lemma serialByte_cases {s : Console.State} (hclean : Clean s) (b : UInt8) :
    Clean (Console.serialByte s b) ∧
      (Console.serialByte s b).printed = s.printed ++ printedBy s b ∧
      ∀ line ∈ printedBy s b, line ≠ [] ∧ ∀ c ∈ line, Console.Kept c := by
  unfold printedBy Console.serialByte
  split
  · exact ⟨hclean, by simp, by simp⟩
  · next hnul =>
    split
    · refine ⟨fun _ h => absurd h List.not_mem_nil, ?_, ?_⟩
      · dsimp only
        split <;> simp
      · dsimp only
        split
        · next hpos =>
          intro line hline
          rw [List.drop_left, List.mem_singleton] at hline
          subst hline
          exact ⟨List.ne_nil_of_length_pos hpos, hclean⟩
        · simp
    · next hroom =>
      refine ⟨fun c hc => ?_, by simp, by simp⟩
      rcases List.mem_append.mp hc with hold | hnew
      · exact hclean c hold
      · rw [List.mem_singleton.mp hnew]
        exact ⟨hnul, fun hend => hroom (.inl hend)⟩

/-- A line of the firmware has no end of a line in it. -/
lemma describeLine_kept {line : List UInt8} (h : ∀ c ∈ line, Console.Kept c) :
    line.rdropWhile (fun b => b = 0x0d ∨ b = 0x0a) = line := by
  rw [List.rdropWhile_eq_self_iff]
  intro hne hend
  have hkept := h _ (List.getLast_mem hne)
  rcases of_decide_eq_true hend with hcr | hlf
  · exact hkept.2 (.inr hcr)
  · exact hkept.2 (.inl hlf)

/-- Every line of the firmware is shown. -/
lemma describeLine_ne_nil {line : List UInt8} (hne : line ≠ []) (h : ∀ c ∈ line, Console.Kept c) :
    describeLine line ≠ [] := by
  unfold describeLine
  dsimp only
  rw [describeLine_kept h, if_neg hne]
  split
  · exact Utf8.decode_ne_nil hne
  · simp

/-! ## What is added -/

/-- What the log shows of an entry. -/
def Entry.shown (e : Entry) : String × String := (e.source, e.text)

/-- A line that is not blank. -/
def nonblank (p : String × String) : List (String × String) := if p.2 = "" then [] else [p]

/-- The last `n` elements. -/
def lastN {α : Type} (n : ℕ) (xs : List α) : List α := xs.drop (xs.length - n)

/-- What is dropped once would be dropped later. -/
lemma lastN_append {α : Type} (n : ℕ) (xs ys : List α) :
    lastN n (lastN n xs ++ ys) = lastN n (xs ++ ys) := by
  rw [lastN, lastN, lastN, List.length_append, List.length_drop, List.length_append]
  rcases Nat.le_total n xs.length with hle | hge
  · rw [← List.drop_append_of_le_length (by omega), List.drop_drop]
    congr 1
    omega
  · have hzero : xs.length - n = 0 := by omega
    rw [hzero, List.drop_zero]
    congr 1

/-- The log shows the last lines, the new one among them. -/
lemma shown_add (log : LogBuffer) (time source text : String) :
    (add log time none source text).kept.map Entry.shown =
      lastN log.capacity (log.kept.map Entry.shown ++ [(source, text)]) := by
  rw [add, append, List.map_drop, List.map_append, lastN, List.length_append, List.length_append,
    List.length_map]
  rfl

/-- **What the log keeps of a stream**: the last of its lines that are not blank. -/
theorem shown_pumpStream (log : LogBuffer) (hlog : log.kept.length ≤ log.capacity)
    (clock : ℕ → String) (stream : List UInt8) (defaultSource : String) :
    (pumpStream log clock stream defaultSource).kept.map Entry.shown =
      lastN log.capacity (log.kept.map Entry.shown ++
        (Utf8.readLines stream).flatMap fun raw => nonblank (pumpLine defaultSource raw)) := by
  rw [pumpStream]
  generalize Utf8.readLines stream = lines
  induction lines generalizing log with
  | nil =>
    have hzero : (log.kept.map Entry.shown).length - log.capacity = 0 := by
      rw [List.length_map]
      omega
    rw [List.flatMap_nil, List.append_nil, lastN, hzero, List.drop_zero]
    rfl
  | cons raw lines ih =>
    rw [List.foldl_cons, List.flatMap_cons, nonblank]
    dsimp only
    split
    · next hblank => rw [ih log hlog, List.nil_append]
    · next htext =>
      have hlen : (add log (clock log.seq) none (pumpLine defaultSource raw).1
          (pumpLine defaultSource raw).2).kept.length ≤ log.capacity := by
        rw [add, append, List.length_drop]
        omega
      refine (ih _ hlen).trans ?_
      rw [shown_add, ← List.append_assoc]
      exact lastN_append ..

/-- The entry of a line of the firmware. -/
def serialEntry (line : List UInt8) : String × String :=
  ("serial", String.ofList (describeLine line))

/-- The entry of another line. -/
def otherEntry (line : List UInt8) : String × String := ("qemu", String.ofList (describeLine line))

/-- What is to be logged of what is written. -/
def logged : Console.State → List Output → List (String × String)
  | _, [] => []
  | s, .byte b :: outs => (printedBy s b).map serialEntry ++ logged (Console.serialByte s b) outs
  | s, .other line :: outs => nonblank (otherEntry line) ++ logged s outs

/-- The line feed does not count. -/
lemma describeLine_lf (line : List UInt8) : describeLine (line ++ [0x0a]) = describeLine line := by
  unfold describeLine
  rw [List.rdropWhile_concat_pos _ _ _ (by decide)]

/-- A line that something else prints: it has no line feed, and does not look like one of the
firmware. -/
def Foreign (line : List UInt8) : Prop := 0x0a ∉ line ∧ ¬ serialTag <+: line ++ [0x0a]

/-- The lines of the stream.

**Proof sketch.** Induction on what is printed, and on the lines that a byte prints. Neither kind
of line holds a line feed, so each is read as one; the tag tells them apart, and a line of the
firmware is not blank. -/
lemma entries_stderr {s : Console.State} (hclean : Clean s) {outs : List Output}
    (hothers : ∀ line ∈ othersOf outs, Foreign line) :
    ((Utf8.readLines (stderr s outs)).flatMap fun raw => nonblank (pumpLine "qemu" raw)) =
      logged s outs := by
  induction outs generalizing s with
  | nil => rfl
  | cons out outs ih =>
    cases out with
    | other line =>
      rw [othersOf_other] at hothers
      obtain ⟨hlf, htag⟩ := hothers line (List.mem_cons_self ..)
      rw [stderr, Utf8.readLines_cons hlf, List.flatMap_cons, logged,
        ih hclean fun l hl => hothers l (List.mem_cons_of_mem _ hl)]
      congr 1
      rw [pumpLine, if_neg htag, describeLine_lf, otherEntry]
    | byte b =>
      obtain ⟨hclean', -, hlines⟩ := serialByte_cases hclean b
      have hrest := ih hclean' hothers
      rw [stderr, logged, ← hrest]
      generalize printedBy s b = lines at hlines ⊢
      induction lines with
      | nil => rfl
      | cons line lines ihl =>
        obtain ⟨hne, hkept⟩ := hlines line (List.mem_cons_self ..)
        have hlf : 0x0a ∉ serialTag ++ line := by
          rw [List.mem_append]
          rintro (htag | hline)
          · exact absurd htag (by decide)
          · exact (hkept _ hline).2 (.inl rfl)
        have hshown : nonblank (serialEntry line) = [serialEntry line] := by
          rw [nonblank, if_neg]
          intro hblank
          have hnil := congrArg String.toList hblank
          rw [serialEntry, String.toList_ofList] at hnil
          exact describeLine_ne_nil hne hkept hnil
        have hpump : pumpLine "qemu" (serialTag ++ line ++ [0x0a]) = serialEntry line := by
          rw [pumpLine, if_pos (by rw [List.append_assoc]; exact List.prefix_append ..),
            List.append_assoc, List.drop_left, describeLine_lf, serialEntry]
        rw [List.flatMap_cons, List.append_assoc (serialTag ++ line), List.append_assoc,
          List.singleton_append, List.cons_append, Utf8.readLines_cons hlf, List.flatMap_cons,
          hpump, hshown, List.singleton_append, List.map_cons, List.cons_append,
          ihl fun l hl => hlines l (List.mem_cons_of_mem _ hl)]

/-! ## The log of a run -/

/-- The entries of one source. -/
def ofSource (source : String) (entries : List (String × String)) : List String :=
  (entries.filter (·.1 = source)).map (·.2)

/-- The entries of a source, and those of it that come later. -/
lemma ofSource_append (source : String) (entries more : List (String × String)) :
    ofSource source (entries ++ more) = ofSource source entries ++ ofSource source more := by
  rw [ofSource, List.filter_append, List.map_append, ofSource, ofSource]

/-- Lines of the firmware are entries of the source `serial`, and of no other. -/
lemma ofSource_serial (lines : List (List UInt8)) :
    ofSource "serial" (lines.map serialEntry) =
        lines.map (fun line => String.ofList (describeLine line)) ∧
      ofSource "qemu" (lines.map serialEntry) = [] := by
  simp [ofSource, serialEntry, List.filter_map, Function.comp_def]

/-- Another line is an entry of the source `qemu`, unless it is blank. -/
lemma ofSource_other (line : List UInt8) :
    ofSource "serial" (nonblank (otherEntry line)) = [] ∧
      ofSource "qemu" (nonblank (otherEntry line)) =
        [String.ofList (describeLine line)].filter (· ≠ "") := by
  unfold nonblank
  split
  · next hblank => simpa [ofSource, otherEntry] using hblank
  · next htext =>
    refine ⟨rfl, (List.filter_eq_self.mpr fun text hmem => ?_).symm⟩
    rw [List.mem_singleton.mp hmem]
    exact decide_eq_true htext

/-- The firmware, byte by byte. -/
lemma run_eq_foldl (bytes : List UInt8) :
    Console.run bytes = bytes.foldl Console.serialByte Console.start := by
  rw [Console.run]
  congr 1
  funext s b
  exact Console.writeDr_toUInt32 s b

/-- What is to be logged, source by source. -/
lemma ofSource_logged {s : Console.State} (hclean : Clean s) (outs : List Output) :
    s.printed.map (fun line => String.ofList (describeLine line)) ++
        ofSource "serial" (logged s outs) =
      ((bytesOf outs).foldl Console.serialByte s).printed.map
        (fun line => String.ofList (describeLine line)) ∧
    ofSource "qemu" (logged s outs) =
      ((othersOf outs).map fun line => String.ofList (describeLine line)).filter (· ≠ "") := by
  induction outs generalizing s with
  | nil => exact ⟨List.append_nil _, rfl⟩
  | cons out outs ih =>
    cases out with
    | byte b =>
      obtain ⟨hclean', hprinted, -⟩ := serialByte_cases hclean b
      obtain ⟨hserial, hqemu⟩ := ih hclean'
      rw [logged, ofSource_append, ofSource_append, (ofSource_serial _).1, (ofSource_serial _).2,
        ← List.append_assoc, ← List.map_append, ← hprinted]
      exact ⟨hserial, hqemu⟩
    | other line =>
      obtain ⟨hserial, hqemu⟩ := ih hclean
      rw [logged, ofSource_append, ofSource_append, (ofSource_other line).1,
        (ofSource_other line).2, hqemu, List.nil_append]
      exact ⟨hserial, (List.filter_append ..).symm⟩

/-! ## Text -/

/-- The console keeps the bytes of a text. -/
lemma TextByte.kept {b : UInt8} (h : TextByte b) : Console.Kept b := by
  rcases h with ⟨hlow, -⟩ | rfl
  · refine ⟨?_, ?_⟩
    · rintro rfl
      exact absurd hlow (by decide)
    · rintro (rfl | rfl)
      · exact absurd hlow (by decide)
      · exact absurd hlow (by decide)
  · decide

/-- The bytes of a text are ASCII characters. -/
lemma TextByte.ascii {b : UInt8} (h : TextByte b) : b ≤ 0x7f := by
  rcases h with ⟨-, hhigh⟩ | rfl
  · exact UInt8.le_of_lt hhigh
  · decide

/-- A line of text is shown as it is. -/
lemma describeLine_text {line : List UInt8} (h : ∀ b ∈ line, TextByte b) :
    describeLine line = line.map fun b => Char.ofNat b.toNat := by
  unfold describeLine
  dsimp only
  rw [describeLine_kept fun c hc => (h c hc).kept]
  split
  · next hnil => rw [hnil, List.map_nil]
  · have hnone : line.countP (fun b => ¬ TextByte b) = 0 := by
      rw [List.countP_eq_zero]
      intro b hb
      simpa using h b hb
    rw [hnone, Nat.zero_mul, if_pos (Nat.zero_le _)]
    exact Utf8.decode_ascii fun b hb => (h b hb).ascii

/-- Text that has room is collected. -/
lemma foldl_serialByte_text {text : List UInt8} (h : ∀ b ∈ text, Console.Kept b)
    (s : Console.State) (hroom : s.line.length + text.length ≤ 255) :
    (text.foldl Console.serialByte s).line = s.line ++ text ∧
      (text.foldl Console.serialByte s).printed = s.printed := by
  induction text generalizing s with
  | nil => exact ⟨(List.append_nil _).symm, rfl⟩
  | cons b text ih =>
    rw [List.length_cons] at hroom
    obtain ⟨hnul, hend⟩ := h b (List.mem_cons_self ..)
    have hno : ¬ (Console.Terminator b ∨ s.line.length ≥ 256 - 1) := by
      rintro (hterminator | hfull)
      · exact hend hterminator
      · omega
    have hbyte : (Console.serialByte s b).line = s.line ++ [b] ∧
        (Console.serialByte s b).printed = s.printed := by
      rw [Console.serialByte, if_neg hnul, dif_neg hno]
      exact ⟨rfl, rfl⟩
    obtain ⟨hline, hprinted⟩ := ih (fun c hc => h c (List.mem_cons_of_mem _ hc))
      (Console.serialByte s b) (by rw [hbyte.1, List.length_append, List.length_singleton]; omega)
    rw [List.foldl_cons, hline, hprinted, hbyte.1, hbyte.2, List.append_assoc]
    exact ⟨rfl, rfl⟩

/-- The end of a line prints it. -/
lemma serialByte_end (s : Console.State) {b : UInt8} (hb : b = 0x0d ∨ b = 0x0a) :
    (Console.serialByte s b).line = [] ∧
      (Console.serialByte s b).printed = s.printed ++ if s.line = [] then [] else [s.line] := by
  have hnul : b ≠ 0 := by rcases hb with rfl | rfl <;> decide
  rw [Console.serialByte, if_neg hnul, dif_pos (.inl hb.symm)]
  refine ⟨rfl, ?_⟩
  dsimp only
  split
  · next hpos => rw [if_neg (List.ne_nil_of_length_pos hpos)]
  · next hzero =>
    rw [if_pos (List.length_eq_zero_iff.mp (Nat.eq_zero_of_not_pos hzero)), List.append_nil]

/-- Lines of text that end with CR and LF are printed. -/
lemma printed_lines {lines : List (List UInt8)}
    (htext : ∀ line ∈ lines, line.length ≤ 255 ∧ ∀ b ∈ line, TextByte b) (s : Console.State)
    (hs : s.line = []) :
    ((lines.flatMap (· ++ [0x0d, 0x0a])).foldl Console.serialByte s).printed =
      s.printed ++ lines.filter (· ≠ []) := by
  induction lines generalizing s with
  | nil => exact (List.append_nil _).symm
  | cons line lines ih =>
    obtain ⟨hlength, hbytes⟩ := htext line (List.mem_cons_self ..)
    obtain ⟨hline, hprinted⟩ := foldl_serialByte_text (fun b hb => (hbytes b hb).kept) s
      (by rw [hs]; simpa using hlength)
    rw [List.flatMap_cons, List.foldl_append, List.foldl_append]
    generalize line.foldl Console.serialByte s = t at hline hprinted ⊢
    rw [hs, List.nil_append] at hline
    obtain ⟨hcr, hcr'⟩ := serialByte_end t (.inl rfl)
    obtain ⟨hlf, hlf'⟩ := serialByte_end (Console.serialByte t 0x0d) (.inr rfl)
    rw [hcr, if_pos rfl, List.append_nil] at hlf'
    rw [List.foldl_cons, List.foldl_cons, List.foldl_nil,
      ih (fun l hl => htext l (List.mem_cons_of_mem _ hl)) _ hlf, hlf', hcr', hline, hprinted,
      List.append_assoc, List.filter_cons]
    by_cases hnil : line = []
    · simp [hnil]
    · simp [hnil]

/-- **The log of a run.** Whatever the firmware writes to the serial line and whatever else is
printed meanwhile, the log keeps the last of the entries to be made, which are, source by source,
every line of the firmware and every other line that is not blank, in order. Lines of at most 255
printable characters that end with CR and LF are shown character by character.

**Proof sketch.** A line of the firmware has no line feed in it, so the stream is cut where it was
printed, and it is not empty, so it is not skipped. -/
theorem serial_logged (capacity : ℕ) (clock : ℕ → String) (outs : List Output)
    (hothers : ∀ line ∈ othersOf outs, Foreign line) :
    ∃ entries, (pumpStream (.new capacity) clock (stderr Console.start outs) "qemu").kept.map
        Entry.shown = lastN capacity entries ∧
      ofSource "serial" entries = (Console.run (bytesOf outs)).printed.map
        (fun line => String.ofList (describeLine line)) ∧
      ofSource "qemu" entries =
        ((othersOf outs).map fun line => String.ofList (describeLine line)).filter (· ≠ "") ∧
      ∀ lines : List (List UInt8), (∀ line ∈ lines, line.length ≤ 255 ∧ ∀ b ∈ line, TextByte b) →
        bytesOf outs = lines.flatMap (· ++ [0x0d, 0x0a]) →
        ofSource "serial" entries = (lines.filter (· ≠ [])).map fun line =>
          String.ofList (line.map fun b => Char.ofNat b.toNat) := by
  obtain ⟨hserial, hqemu⟩ := ofSource_logged clean_start outs
  rw [← run_eq_foldl] at hserial
  refine ⟨logged Console.start outs, ?_, hserial, hqemu, fun lines htext hbytes => ?_⟩
  · rw [shown_pumpStream _ (Nat.zero_le _), entries_stderr clean_start hothers]
    rfl
  · refine hserial.trans ?_
    rw [run_eq_foldl, hbytes, printed_lines htext _ rfl]
    refine List.map_congr_left fun line hline => ?_
    rw [describeLine_text (htext line (List.mem_of_mem_filter hline)).2]

/-- The firmware writes `Hi` and ends its line, and something else prints `q` in between. -/
theorem serial_logged_small :
    ∃ entries, (pumpStream (.new 500) (fun _ => "00:00:00") (stderr Console.start
        [.byte 0x48, .other [0x71], .byte 0x69, .byte 0x0d, .byte 0x0a]) "qemu").kept.map
        Entry.shown = lastN 500 entries ∧
      ofSource "serial" entries = ["Hi"] ∧ ofSource "qemu" entries = ["q"] := by
  have hforeign : ∀ line ∈ othersOf
      [.byte 0x48, .other [0x71], .byte 0x69, .byte 0x0d, .byte 0x0a], Foreign line := by
    intro line hline
    obtain rfl : line = [0x71] := List.mem_singleton.mp hline
    exact ⟨by decide, by decide⟩
  obtain ⟨entries, hkept, -, hqemu, htext⟩ := serial_logged 500 (fun _ => "00:00:00") _ hforeign
  refine ⟨entries, hkept, (htext [[0x48, 0x69]] ?_ rfl).trans rfl, hqemu.trans ?_⟩
  · simp [TextByte]
  · decide +kernel

end Uvk5.Logs
