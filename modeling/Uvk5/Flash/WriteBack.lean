import Mathlib.Tactic.SplitIfs
import Mathlib.Data.List.OfFn
import Uvk5.Flash.Chip

set_option relaxedAutoImplicit false
set_option autoImplicit false

/-!
# The write-back of the serial flash under host failures

The device keeps a dirty range and writes it back to its file on deselect and on exit. The
range is an over-approximation: outside it the file and the array agree. This file shows that
the over-approximation survives every mixture of programs, erases, and write-backs that the
host lets through, refuses, or tears.

## Main definitions

* `PY25Q16.Tracks` — the dirty range is well formed and the file agrees with the array
  outside it.
* `PY25Q16.attempt` — the write-back an event makes, if it makes one.

## Main results

* `PY25Q16.tracks_xfer` — a byte on the bus keeps the tracking, whatever it does to the array.
* `PY25Q16.writeBack_coherent` — coherence in every reachable state, with what a failed and a
  successful write-back do.
-/

namespace Uvk5.PY25Q16

/-! ## What a byte can do to the array -/

/-- The offset is inside the dirty range. -/
def InDirty (s : State) (i : ℕ) : Prop := s.dirty = true ∧ s.dirtyLo ≤ i ∧ i < s.dirtyHi

/-- The dirty range is nonempty and inside the part. -/
def DirtyInBounds (s : State) : Prop :=
  s.dirty = true → s.dirtyLo < s.dirtyHi ∧ s.dirtyHi ≤ size

/-- Marking a range inside the part keeps the dirty range in bounds. -/
theorem dirtyInBounds_markDirty {s : State} (hs : DirtyInBounds s) {addr len : ℕ}
    (hlen : 0 < len) (hfit : addr + len ≤ size) : DirtyInBounds (markDirty s addr len) := by
  intro _
  have h1 : ¬ size ≤ addr := by omega
  have h2 : ¬ size < len := by omega
  have h3 : ¬ size < addr + len := by omega
  simp only [markDirty, h1, h2, h3, if_false]
  rcases hd : s.dirty with _ | _
  · simp; omega
  · have := hs hd
    simp only [Bool.not_true, Bool.false_or, decide_eq_true_eq]
    split_ifs <;> omega

/-- The dirty range after marking covers the old range and the marked one. -/
theorem inDirty_markDirty {s : State} {addr len : ℕ} (hlen : 0 < len) (hfit : addr + len ≤ size)
    {i : ℕ} (h : InDirty s i ∨ addr ≤ i ∧ i < addr + len) :
    InDirty (markDirty s addr len) i := by
  have h1 : ¬ size ≤ addr := by omega
  have h2 : ¬ size < len := by omega
  have h3 : ¬ size < addr + len := by omega
  refine ⟨rfl, ?_⟩
  simp only [markDirty, h1, h2, h3, if_false]
  rcases hd : s.dirty with _ | _
  · rcases h with ⟨hd', -⟩ | h
    · rw [hd] at hd'; simp at hd'
    · simpa using h
  · simp only [Bool.not_true, Bool.false_or, decide_eq_true_eq]
    rcases h with ⟨-, h⟩ | h <;> split_ifs <;> omega

/-- `t` is `s` after a change of the array that the dirty range covers. -/
structure Covers (s t : State) : Prop where
  /-- The line state and the file name are untouched. -/
  selected : t.selected = s.selected
  imagePath : t.imagePath = s.imagePath
  /-- The range stays in bounds. -/
  bounds : DirtyInBounds s → DirtyInBounds t
  /-- The range does not shrink. -/
  grows : ∀ i, InDirty s i → InDirty t i
  /-- Every changed offset is in the range. -/
  changed : ∀ i : Fin size, ¬ InDirty t i → t.data i = s.data i
  /-- A clean device becomes dirty only by a change. -/
  dirty : s.dirty = true → t.dirty = true

/-- A step that leaves the array and the range alone. -/
theorem Covers.of_eq {s t : State} (h1 : t.selected = s.selected) (h2 : t.imagePath = s.imagePath)
    (h3 : t.data = s.data) (h4 : t.dirty = s.dirty) (h5 : t.dirtyLo = s.dirtyLo)
    (h6 : t.dirtyHi = s.dirtyHi) : Covers s t where
  selected := h1
  imagePath := h2
  bounds := by unfold DirtyInBounds; rw [h4, h5, h6]; exact id
  grows := by unfold InDirty; rw [h4, h5, h6]; exact fun _ => id
  changed := by rw [h3]; exact fun _ _ => rfl
  dirty := by rw [h4]; exact id

/-- Changing a range of the array and marking it. -/
theorem Covers.markDirty {s : State} {data : Memory} {addr len : ℕ} (hlen : 0 < len)
    (hfit : addr + len ≤ size)
    (hdata : ∀ i : Fin size, ¬ (addr ≤ i ∧ i < addr + len) → data i = s.data i) :
    Covers s (markDirty { s with data := data } addr len) where
  selected := rfl
  imagePath := rfl
  bounds := fun hs => dirtyInBounds_markDirty (s := { s with data := data }) hs hlen hfit
  grows := fun i hi => inDirty_markDirty (s := { s with data := data }) hlen hfit (Or.inl hi)
  changed := by
    intro i hi
    refine hdata i fun hin => hi ?_
    exact inDirty_markDirty hlen hfit (Or.inr hin)
  dirty := fun _ => rfl

/-- A change of the address counter or the phase after a covered change. -/
theorem Covers.trans {s t u : State} (h : Covers s t) (h' : Covers t u) : Covers s u where
  selected := h'.selected.trans h.selected
  imagePath := h'.imagePath.trans h.imagePath
  bounds := fun hs => h'.bounds (h.bounds hs)
  grows := fun i hi => h'.grows i (h.grows i hi)
  changed := fun i hi => (h'.changed i hi).trans (h.changed i fun ht => hi (h'.grows i ht))
  dirty := fun hs => h'.dirty (h.dirty hs)

/-- Programming a byte. -/
theorem covers_program (s : State) (out : UInt8) : Covers s (program s out) := by
  have hi := (wrap s.addr.toNat).isLt
  refine Covers.markDirty (by omega) (by omega) fun j hj => ?_
  have hne : j ≠ wrap s.addr.toNat := by
    rintro rfl
    omega
  exact Function.update_of_ne hne _ _

/-- Erasing a sector, which is aligned and so inside the part. -/
theorem covers_eraseSector (s : State) : Covers s (eraseSector s) := by
  have ha := s.addr.toNat_lt
  have hfit : (wrap (s.addr / 0x1000 * 0x1000).toNat : ℕ) + 0x1000 ≤ size := by
    simp only [wrap, size, UInt32.toNat_mul, UInt32.toNat_div, UInt32.reduceToNat]
    omega
  exact Covers.markDirty (by omega) hfit fun j hj => if_neg hj

/-- A byte after the opcode. -/
theorem covers_clockByte (s : State) (out : UInt8) : Covers s (clockByte s out).2 := by
  have hshift : Covers s (shiftAddr s out) := Covers.of_eq rfl rfl rfl rfl rfl rfl
  have hself : Covers s s := Covers.of_eq rfl rfl rfl rfl rfl rfl
  unfold clockByte
  split_ifs
  · unfold readByte
    split_ifs
    · exact hshift
    · exact Covers.of_eq rfl rfl rfl rfl rfl rfl
  · unfold ppByte
    split_ifs
    · exact hshift
    · exact (covers_program s out).trans (Covers.of_eq rfl rfl rfl rfl rfl rfl)
    · exact Covers.of_eq rfl rfl rfl rfl rfl rfl
  · unfold seByte
    dsimp only
    split_ifs
    · exact hshift.trans (covers_eraseSector _)
    · exact hshift
    · exact hself
  all_goals exact hself

/-- **A byte on the bus** changes the array only inside the dirty range it leaves. -/
theorem covers_xfer (s : State) (out : UInt8) : Covers s (xfer s out).2 := by
  unfold xfer
  split_ifs
  · exact Covers.of_eq rfl rfl rfl rfl rfl rfl
  · unfold latchOpcode
    split_ifs <;> exact Covers.of_eq rfl rfl rfl rfl rfl rfl
  · exact (Covers.of_eq rfl rfl rfl rfl rfl rfl : Covers s { s with phase := s.phase + 1 }).trans
      (covers_clockByte _ out)

/-! ## The tracking invariant -/

/-- The dirty range tracks `file`: it is in bounds, and what a fresh start would load from
`file` agrees with the array outside it. -/
structure Tracks (s : State) (file : List UInt8) : Prop where
  bounds : DirtyInBounds s
  agree : ∀ i : Fin size, ¬ InDirty s i → load file i = s.data i

/-- A covered change of the array keeps the tracking. -/
theorem Tracks.covers {s t : State} {file : List UInt8} (h : Tracks s file) (hc : Covers s t) :
    Tracks t file where
  bounds := hc.bounds h.bounds
  agree := fun i hi => by
    rw [hc.changed i hi]
    exact h.agree i fun hs => hi (hc.grows i hs)

/-- A byte on the bus keeps the tracking. -/
theorem tracks_xfer {s : State} {file : List UInt8} (h : Tracks s file) (out : UInt8) :
    Tracks (xfer s out).2 file :=
  h.covers (covers_xfer s out)

/-- A clean device that tracks a file has the array the file loads. -/
theorem Tracks.load_eq {s : State} {file : List UInt8} (h : Tracks s file)
    (hd : s.dirty = false) : load file = s.data :=
  funext fun i => h.agree i fun hi => by simp [InDirty, hd] at hi

/-- A clean device tracks the file its array was loaded from, whatever its stale bounds. -/
theorem tracks_of_clean {s : State} {file : List UInt8} (hd : s.dirty = false)
    (h : load file = s.data) : Tracks s file where
  bounds := fun hd' => by simp [hd] at hd'
  agree := fun i _ => congrFun h i

/-- Offsets of the part are their own reduction. -/
theorem wrap_of_lt {a : ℕ} (h : a < size) : wrap a = ⟨a, h⟩ :=
  Fin.ext (Nat.mod_eq_of_lt h)

/-- A byte of a range of the array. -/
theorem getD_dataRange (s : State) (off len : ℕ) {k : ℕ} (hk : k < len) (d : UInt8) :
    (dataRange s off len).getD k d = s.data (wrap (off + k)) := by
  simp [dataRange, List.getD_eq_getElem?_getD, hk]

/-- A range has the length asked for. -/
@[simp] theorem length_dataRange (s : State) (off len : ℕ) : (dataRange s off len).length = len := by
  simp [dataRange]

/-- The whole array as a file is loaded back as the array. -/
theorem load_dataRange (s : State) : load (dataRange s 0 size) = s.data := by
  funext i
  rw [load, getD_dataRange s 0 size i.isLt, Nat.zero_add, wrap_of_lt i.isLt]

/-- Writing the dirty range in place, starting inside the file or at its end, makes the file
load as the array. -/
theorem load_pwrite_dirty {s : State} {file : List UInt8} (h : Tracks s file)
    (hd : s.dirty = true) (hlo : s.dirtyLo ≤ file.length) :
    load (File.pwrite 0 file s.dirtyLo (dataRange s s.dirtyLo (s.dirtyHi - s.dirtyLo))) =
      s.data := by
  obtain ⟨hlt, hsz⟩ := h.bounds hd
  funext i
  rw [load, File.getD_pwrite_of_le 0 0xff file hlo, length_dataRange]
  split_ifs with hin
  · have he : s.dirtyLo + (i.val - s.dirtyLo) = i.val := by omega
    rw [getD_dataRange _ _ _ (by omega), he, wrap_of_lt i.isLt]
  · exact h.agree i fun ⟨_, h1, h2⟩ => hin ⟨h1, by omega⟩

/-- A torn write of the dirty range changes the file only where it was allowed to differ. -/
theorem Tracks.torn {s : State} {file : List UInt8} (h : Tracks s file)
    (hlo : s.dirtyLo ≤ file.length) (hd : s.dirty = true) {bytes : List UInt8}
    (hb : bytes.length ≤ s.dirtyHi - s.dirtyLo) :
    Tracks s (File.pwrite 0 file s.dirtyLo bytes) where
  bounds := h.bounds
  agree := by
    intro i hi
    rw [load, File.getD_pwrite_of_le 0 0xff file hlo, if_neg, ← h.agree i hi, load]
    exact fun hin => hi ⟨hd, hin.1, by omega⟩

/-! ## Coherence -/

/-- The device is coherent with a full-size backing file. -/
structure Coherent (m : Machine) : Prop where
  image : hasImage m.chip = true
  tracked : ∃ f, m.file = some f ∧ f.length = size ∧ Tracks m.chip f

/-- The write-back an event makes, if it makes one. -/
def attempt (m : Machine) : Event → Option Host
  | .xfer _ => none
  | .setCs level io => if m.chip.selected && level then some io else none
  | .exitNotify io => some io

/-- What a write-back does to a coherent device: the array is untouched, and either the device
is clean afterwards or the host refused and the range is as before.

**Proof sketch.** By the four cases of `flush_cases`. The dirty range in place and the whole image
make the file what the chip holds; a torn range lies within the dirty one, so the file still
differs only there. -/
theorem coherent_flush {m : Machine} (h : Coherent m) (io : Host) :
    Coherent (flush m io) ∧
      (m.chip.dirty = true → io.succeeds m.file = false →
        (flush m io).chip = m.chip) ∧
      (io.succeeds m.file = true → (flush m io).chip.dirty = false) := by
  obtain ⟨f, hf, hlen, ht⟩ := h.tracked
  rcases flush_cases m io with ⟨he, hno⟩ | ⟨f', hf', hd, hs, he⟩ | ⟨f', hf', hd, hs, he⟩ |
    ⟨hd, hs, he⟩
  · refine ⟨by rwa [he], fun _ _ => by rw [he], fun hs => ?_⟩
    rw [he]
    by_contra hd
    have := hno (by simpa using hd) h.image
    rw [hs] at this
    simp at this
  · obtain rfl : f' = f := Option.some.inj (hf'.symm.trans hf)
    obtain ⟨hlt, hsz⟩ := ht.bounds hd
    have hload := load_pwrite_dirty ht hd (by omega)
    refine ⟨⟨by rw [he]; exact h.image, _, by rw [he], ?_, ?_⟩, fun _ hs' => ?_, fun _ => by rw [he]⟩
    · rw [File.length_pwrite_of_le _ _ (by rw [length_dataRange]; omega), hlen]
    · rw [he]
      exact tracks_of_clean rfl hload
    · rw [hs] at hs'
      simp at hs'
  · obtain rfl : f' = f := Option.some.inj (hf'.symm.trans hf)
    obtain ⟨hlt, hsz⟩ := ht.bounds hd
    have hb : (io.reached.take (m.chip.dirtyHi - m.chip.dirtyLo)).length ≤
        m.chip.dirtyHi - m.chip.dirtyLo := List.length_take_le _ _
    refine ⟨⟨by rw [he]; exact h.image, _, by rw [he], ?_, ?_⟩, fun _ _ => by rw [he],
      fun hs' => ?_⟩
    · rw [File.length_pwrite_of_le _ _ (by omega), hlen]
    · rw [he]
      exact ht.torn (by omega) hd hb
    · rw [hs] at hs'
      simp at hs'
  · refine ⟨⟨by rw [he]; exact h.image, _, by rw [he], length_dataRange _ _ _, ?_⟩,
      fun _ hs' => ?_, fun _ => by rw [he]⟩
    · rw [he]
      exact tracks_of_clean rfl (load_dataRange m.chip)
    · rw [hs] at hs'
      simp at hs'

/-- Moving the chip-select line and forgetting the command touches nothing that is tracked. -/
theorem Coherent.line {m : Machine} (h : Coherent m) {s : State}
    (himg : s.imagePath = m.chip.imagePath) (hdata : s.data = m.chip.data)
    (hd : s.dirty = m.chip.dirty) (hlo : s.dirtyLo = m.chip.dirtyLo)
    (hhi : s.dirtyHi = m.chip.dirtyHi) : Coherent { m with chip := s } := by
  obtain ⟨f, hf, hlen, ht⟩ := h.tracked
  refine ⟨by simpa [hasImage, himg] using h.image, f, hf, hlen, ?_⟩
  constructor
  · simpa [DirtyInBounds, hd, hlo, hhi] using ht.bounds
  · simpa [InDirty, hd, hlo, hhi, hdata] using ht.agree

/-- The device with the command in progress forgotten. -/
def Machine.forget (m : Machine) : Machine :=
  { m with chip := { m.chip with cmd := cmdNone, phase := 0 } }

/-- The device with the chip-select state set. -/
def Machine.select (m : Machine) (selected : Bool) : Machine :=
  { m with chip := { m.chip with selected := selected } }

/-- What the chip-select line does: an edge forgets the command, the rising one also writes
back. -/
theorem setCs_eq (m : Machine) (level : Bool) (io : Host) :
    setCs m level io =
      (if m.chip.selected && level then flush m.forget io
        else if !m.chip.selected && !level then m.forget else m).select (!level) := by
  rcases hsel : m.chip.selected with _ | _ <;> cases level <;>
    simp [setCs, hsel, Machine.forget, Machine.select]

/-- The exit notification widens the range of a dirty device to the whole part. -/
theorem Coherent.widen {m : Machine} (h : Coherent m) (hd : m.chip.dirty = true) :
    Coherent { m with chip := { m.chip with dirtyLo := 0, dirtyHi := size } } := by
  obtain ⟨f, hf, hlen, ht⟩ := h.tracked
  refine ⟨h.image, f, hf, hlen, fun _ => ⟨(by decide : 0 < size), le_rfl⟩, fun i hi => ?_⟩
  exact absurd ⟨hd, Nat.zero_le _, i.isLt⟩ hi

/-- Every event keeps the device coherent; a refused write-back keeps the range and the dirty
flag, and one that goes through leaves the device clean.

**Proof sketch.** A byte keeps what is tracked (`covers_xfer`). Chip select writes back when the
chip is deselected, and the exit notifier with the range widened to the whole image;
`coherent_flush` says what either leaves. -/
theorem coherent_step {m : Machine} (h : Coherent m) (e : Event) :
    Coherent (step m e) ∧
      ∀ io, attempt m e = some io →
        (m.chip.dirty = true → io.succeeds m.file = false →
          (step m e).chip.dirty = true ∧ (step m e).chip.dirtyLo ≤ m.chip.dirtyLo ∧
            m.chip.dirtyHi ≤ (step m e).chip.dirtyHi) ∧
        (io.succeeds m.file = true → (step m e).chip.dirty = false) := by
  cases e with
  | xfer out =>
    obtain ⟨f, hf, hlen, ht⟩ := h.tracked
    have hc := covers_xfer m.chip out
    refine ⟨⟨?_, f, hf, hlen, tracks_xfer ht out⟩, fun io hio => by simp [attempt] at hio⟩
    simpa [step, hasImage, hc.imagePath] using h.image
  | setCs level io =>
    have hidle : Coherent m.forget := h.line rfl rfl rfl rfl rfl
    obtain ⟨hco, hno, hyes⟩ := coherent_flush hidle io
    simp only [step, setCs_eq, attempt]
    by_cases hfl : (m.chip.selected && level) = true
    · simp only [hfl, if_true]
      refine ⟨hco.line rfl rfl rfl rfl rfl, fun io' hio' => ?_⟩
      obtain rfl := Option.some.inj hio'
      refine ⟨fun hd hs => ?_, hyes⟩
      simp only [Machine.select, hno hd hs]
      exact ⟨hd, le_rfl, le_rfl⟩
    · simp only [hfl, if_false, Bool.false_eq_true]
      refine ⟨?_, fun io' hio' => by simp at hio'⟩
      split_ifs
      · exact hidle.line rfl rfl rfl rfl rfl
      · exact h.line rfl rfl rfl rfl rfl
  | exitNotify io =>
    simp only [step, exitNotify, attempt]
    by_cases hd : m.chip.dirty = true
    · simp only [if_pos hd]
      obtain ⟨f, hf, hlen, ht⟩ := h.tracked
      obtain ⟨hco, hno, hyes⟩ := coherent_flush (h.widen hd) io
      refine ⟨hco, fun io' hio' => ?_⟩
      obtain rfl := Option.some.inj hio'
      refine ⟨fun _ hs => ?_, hyes⟩
      rw [hno hd hs]
      exact ⟨hd, Nat.zero_le _, (ht.bounds hd).2⟩
    · simp only [if_neg hd]
      obtain ⟨hco, -, hyes⟩ := coherent_flush h io
      refine ⟨hco, fun io' hio' => ?_⟩
      obtain rfl := Option.some.inj hio'
      exact ⟨fun hd' => absurd hd' hd, hyes⟩

/-- Every state reached from a full-size file is coherent. -/
theorem coherent_run {path : String} (hpath : path ≠ "") {file : List UInt8}
    (hfile : file.length = size) (es : List Event) :
    Coherent (es.foldl step (realize (some path) (some file))) := by
  refine List.foldlRecOn es step ?_ fun m hm e _ => (coherent_step hm e).1
  refine ⟨by simp [hasImage, realize, hpath], file, rfl, hfile, ?_⟩
  have hload : load file = (realize (some path) (some file)).chip.data := by
    simp [realize, hpath]
  exact tracks_of_clean rfl hload

/-- A full-size file that loads as an array is that array. -/
theorem eq_ofFn_of_load {file : List UInt8} {data : Memory} (hlen : file.length = size)
    (h : load file = data) : file = List.ofFn data := by
  subst h
  apply List.ext_getElem
  · rw [hlen, List.length_ofFn]
  · intro i h1 h2
    rw [List.getElem_ofFn]
    exact (List.getD_eq_getElem file 0xff h1).symm

/-- **Write-back coherence.** Start from a full-size file and let the bus, the chip-select
line, the exit notification and the host do anything. In every state reached there is a backing
file, and
* a clean device has exactly its array in the file;
* a dirty device has a nonempty range inside the part, outside which file and array agree;
* a write-back the host refuses keeps the device dirty and does not shrink the range;
* a write-back the host lets through leaves a file of 2 MiB equal to the array.

**Proof sketch.** `coherent_run` puts the state reached inside the invariant `Coherent`, whose
step lemma `coherent_step` describes both outcomes of one more write-back. -/
theorem writeBack_coherent (path : String) (hpath : path ≠ "") (file : List UInt8)
    (hfile : file.length = size) (es : List Event) :
    let m := es.foldl step (realize (some path) (some file))
    (∃ f, m.file = some f ∧
      (m.chip.dirty = false → f = List.ofFn m.chip.data) ∧
      (m.chip.dirty = true → m.chip.dirtyLo < m.chip.dirtyHi ∧ m.chip.dirtyHi ≤ size ∧
        f.length = size ∧
        ∀ i : Fin size, i.val < m.chip.dirtyLo ∨ m.chip.dirtyHi ≤ i.val →
          f[i.val]? = some (m.chip.data i))) ∧
    ∀ e io, attempt m e = some io →
      (m.chip.dirty = true → io.succeeds m.file = false →
        (step m e).chip.dirty = true ∧ (step m e).chip.dirtyLo ≤ m.chip.dirtyLo ∧
          m.chip.dirtyHi ≤ (step m e).chip.dirtyHi) ∧
      (io.succeeds m.file = true →
        (step m e).chip.dirty = false ∧
          (step m e).file = some (List.ofFn (step m e).chip.data) ∧
          (List.ofFn (step m e).chip.data).length = size) := by
  intro m
  have hm : Coherent m := coherent_run hpath hfile es
  obtain ⟨f, hf, hlen, ht⟩ := hm.tracked
  refine ⟨⟨f, hf, fun hd => eq_ofFn_of_load hlen (ht.load_eq hd), fun hd => ?_⟩, ?_⟩
  · obtain ⟨hlt, hsz⟩ := ht.bounds hd
    refine ⟨hlt, hsz, hlen, fun i hi => ?_⟩
    have hload := ht.agree i fun ⟨_, h1, h2⟩ => by omega
    have hil : i.val < f.length := by rw [hlen]; exact i.isLt
    rw [← hload, load, List.getD_eq_getElem _ _ hil, List.getElem?_eq_getElem hil]
  · intro e io hio
    obtain ⟨hco, hatt⟩ := coherent_step hm e
    refine ⟨(hatt io hio).1, fun hs => ?_⟩
    have hd := (hatt io hio).2 hs
    obtain ⟨g, hg, hglen, hgt⟩ := hco.tracked
    exact ⟨hd, by rw [hg, eq_ofFn_of_load hglen (hgt.load_eq hd)], List.length_ofFn⟩

/-- A host that opens the file, tears the in-place write of every deselect after one byte, and
lets nothing else through. -/
def tearingHost : Host := ⟨true, true, false, true, [0x00], false, false, false⟩

/-- The bus programs the first byte of an erased part, and the deselect tears its write-back. -/
theorem writeBack_coherent_torn :
    let es : List Event := [.setCs false Host.ok, .xfer 0x06, .setCs true Host.ok,
      .setCs false Host.ok, .xfer 0x02, .xfer 0, .xfer 0, .xfer 0, .xfer 0x5a,
      .setCs true tearingHost]
    let m := es.foldl step (realize (some "flash.img") (some (List.replicate size 0xff)))
    m.chip.dirty = true ∧ m.chip.dirtyLo < m.chip.dirtyHi ∧ m.chip.dirtyHi ≤ size := by
  intro es m
  have hd : m.chip.dirty = true := by decide
  obtain ⟨⟨f, -, -, h⟩, -⟩ := writeBack_coherent "flash.img" (by decide)
    (List.replicate size 0xff) (List.length_replicate ..) es
  exact ⟨hd, (h hd).1, (h hd).2.1⟩

end Uvk5.PY25Q16
