import Uvk5.Flash.WriteBack
import Uvk5.Lib.Run

set_option relaxedAutoImplicit false
set_option autoImplicit false

/-!
# Power-cycling the serial flash

A stopped machine leaves its backing file behind, and the next start loads it over a `0xff`
prefill. On a file shorter than the part the two conventions disagree: loading takes the
missing bytes as `0xff`, while a write-back that starts past the end of the file makes the host
fill the gap with `0x00`.

## Main definitions

* `PY25Q16.BusEvent`, `PY25Q16.busStep` — bus traffic on a host where nothing fails.
* `PY25Q16.Reloads` — a fresh start on the file left behind has the array of the machine.
* `PY25Q16.NoGap` — the write-back of a deselect does not start past the end of the file.

## Main results

* `PY25Q16.reloads_iff_noGap` — deselected states of a run reload exactly when no deselect of
  the run leaves a gap.
* `PY25Q16.gap_not_reloads` — an empty file and one programmed byte at address 1.
-/

namespace Uvk5.PY25Q16

open Run

/-- Traffic on the bus. -/
inductive BusEvent where
  /-- A byte. -/
  | xfer (out : UInt8)
  /-- The chip-select line is driven. -/
  | setCs (level : Bool)

/-- The event with a host on which nothing fails. -/
def BusEvent.event : BusEvent → Event
  | .xfer out => .xfer out
  | .setCs level => .setCs level Host.ok

/-- One bus event with every host call succeeding. -/
def busStep (m : Machine) (e : BusEvent) : Machine := step m e.event

/-- Once the chip is deselected, a fresh device on the file left behind has its array. -/
def Reloads (m : Machine) : Prop :=
  m.chip.selected = false → (realize m.chip.imagePath m.file).chip.data = m.chip.data

/-- A deselect that writes back starts inside its file or right at its end. -/
def NoGap (m : Machine) : BusEvent → Prop
  | .xfer _ => True
  | .setCs level => level = true → m.chip.selected = true → m.chip.dirty = true →
      ∀ f, m.file = some f → m.chip.dirtyLo ≤ f.length

/-- The invariant of a run on a reliable host: the dirty range tracks the file, a missing file
counting as an empty one, and a deselected device is clean. -/
structure Steady (m : Machine) : Prop where
  image : hasImage m.chip = true
  tracked : Tracks m.chip (m.file.getD [])
  clean : m.chip.selected = false → m.chip.dirty = false

/-- A fresh device loads its file, a missing one counting as an empty one. -/
theorem realize_data {s : State} (himg : hasImage s = true) (file : Option (List UInt8)) :
    (realize s.imagePath file).chip.data = load (file.getD []) := by
  have h : s.imagePath.any (· ≠ "") = true := himg
  simp only [realize, h, if_true]

/-- Inside the invariant, the file left behind reloads. -/
theorem Steady.reloads {m : Machine} (h : Steady m) : Reloads m := by
  intro hsel
  rw [realize_data h.image, h.tracked.load_eq (h.clean hsel)]

/-- A dirty device without a file writes a whole image. -/
theorem flush_ok_none {m : Machine} (himg : hasImage m.chip = true) (hd : m.chip.dirty = true)
    (hf : m.file = none) :
    flush m Host.ok =
      { chip := { m.chip with dirty := false }, file := some (dataRange m.chip 0 size) } := by
  simp only [flush, hd, himg, hf, flushRename, Host.ok, Bool.not_true, Bool.or_self,
    Bool.false_eq_true, if_false, Bool.and_self, if_true]

/-- A dirty device with a file writes its range in place. -/
theorem flush_ok_some {m : Machine} (himg : hasImage m.chip = true) (hd : m.chip.dirty = true)
    {f : List UInt8} (hf : m.file = some f) :
    flush m Host.ok =
      { chip := { m.chip with dirty := false, dirtyLo := 0, dirtyHi := 0 }
        file := some (File.pwrite 0 f m.chip.dirtyLo
          (dataRange m.chip m.chip.dirtyLo (m.chip.dirtyHi - m.chip.dirtyLo))) } := by
  simp only [flush, hd, himg, hf, flushInPlace, Host.ok, Bool.not_true, Bool.or_self,
    Bool.false_eq_true, if_false, Bool.and_self, if_true]

/-- A write-back without a gap leaves a clean device whose file loads as its array. -/
theorem flush_ok_load {m : Machine} (h : Steady m)
    (hgap : m.chip.dirty = true → ∀ f, m.file = some f → m.chip.dirtyLo ≤ f.length) :
    (flush m Host.ok).chip.dirty = false ∧
      load ((flush m Host.ok).file.getD []) = (flush m Host.ok).chip.data ∧
      (flush m Host.ok).chip.imagePath = m.chip.imagePath := by
  by_cases hd : m.chip.dirty = true
  · have ht := h.tracked
    rcases hf : m.file with _ | f
    · rw [flush_ok_none h.image hd hf]
      refine ⟨rfl, ?_, rfl⟩
      rw [Option.getD_some, load_dataRange]
    · rw [flush_ok_some h.image hd hf]
      rw [hf] at ht
      refine ⟨rfl, ?_, rfl⟩
      rw [Option.getD_some]
      exact load_pwrite_dirty ht hd (hgap hd f hf)
  · have hclean : m.chip.dirty = false := by simpa using hd
    have he : flush m Host.ok = m := by simp [flush, hclean]
    rw [he]
    exact ⟨hclean, h.tracked.load_eq hclean, rfl⟩

/-- A step without a gap keeps the invariant. -/
theorem Steady.step {m : Machine} (h : Steady m) (e : BusEvent) (hgap : NoGap m e) :
    Steady (busStep m e) := by
  cases e with
  | xfer out =>
    have hc := covers_xfer m.chip out
    refine ⟨?_, tracks_xfer h.tracked out, fun hsel => ?_⟩
    · simpa [busStep, BusEvent.event, PY25Q16.step, hasImage, hc.imagePath] using h.image
    · -- a deselected device ignores the byte
      have hoff : m.chip.selected = false := hc.selected.symm.trans hsel
      simpa [busStep, BusEvent.event, PY25Q16.step, xfer, hoff] using h.clean hoff
  | setCs level =>
    have hidle : Steady m.forget :=
      ⟨h.image, ⟨h.tracked.bounds, h.tracked.agree⟩, h.clean⟩
    simp only [busStep, BusEvent.event, PY25Q16.step, setCs_eq]
    by_cases hfl : (m.chip.selected && level) = true
    · simp only [if_pos hfl]
      have hsel : m.chip.selected = true ∧ level = true := by simpa using hfl
      obtain ⟨hd, hload, himg⟩ := flush_ok_load hidle (hgap hsel.2 hsel.1)
      refine ⟨?_, tracks_of_clean hd hload, fun _ => hd⟩
      simpa only [hasImage, Machine.select, himg] using hidle.image
    · simp only [if_neg hfl]
      by_cases hfall : (!m.chip.selected && !level) = true
      · simp only [if_pos hfall]
        refine ⟨h.image, ⟨h.tracked.bounds, h.tracked.agree⟩, fun _ => ?_⟩
        exact h.clean (by simp at hfall; exact hfall.1)
      · simp only [if_neg hfall]
        refine ⟨h.image, ⟨h.tracked.bounds, h.tracked.agree⟩, fun hsel => ?_⟩
        have hlevel : level = true := by simpa [Machine.select] using hsel
        exact h.clean (by simpa [hlevel] using hfl)

/-- The deselect of a dirty device with an existing file. -/
theorem busStep_deselect {m : Machine} (himg : hasImage m.chip = true)
    (hsel : m.chip.selected = true) (hd : m.chip.dirty = true) {f : List UInt8}
    (hf : m.file = some f) :
    busStep m (.setCs true) =
      { chip := { m.chip with
          cmd := cmdNone, phase := 0, selected := false, dirty := false, dirtyLo := 0,
          dirtyHi := 0 }
        file := some (File.pwrite 0 f m.chip.dirtyLo
          (dataRange m.chip m.chip.dirtyLo (m.chip.dirtyHi - m.chip.dirtyLo))) } := by
  have hfl : (m.chip.selected && true) = true := by rw [hsel]; rfl
  rw [busStep, BusEvent.event, PY25Q16.step, setCs_eq, if_pos hfl,
    flush_ok_some (m := m.forget) himg hd hf]
  rfl

/-- A step that leaves a gap ends deselected with a file that does not reload: the byte at the
old end of the file was `0xff` and is loaded back as the filling. -/
theorem Steady.not_reloads {m : Machine} (h : Steady m) (e : BusEvent) (hgap : ¬ NoGap m e) :
    ¬ Reloads (busStep m e) := by
  cases e with
  | xfer out => exact absurd trivial hgap
  | setCs level =>
    simp only [NoGap, not_forall] at hgap
    obtain ⟨hlevel, hsel, hd, f, hf, hlo⟩ := hgap
    have ht : Tracks m.chip f := by simpa [hf] using h.tracked
    obtain ⟨hlt, hsz⟩ := ht.bounds hd
    have hout : f.length < size := by omega
    -- the array is erased just past the file, since only the dirty range may differ from it
    have hff : m.chip.data ⟨f.length, hout⟩ = 0xff := by
      rw [← ht.agree ⟨f.length, hout⟩ fun ⟨_, h1, _⟩ => hlo h1, load]
      exact List.getD_eq_default f 0xff le_rfl
    have hbytes : dataRange m.chip m.chip.dirtyLo (m.chip.dirtyHi - m.chip.dirtyLo) ≠ [] := by
      rw [← List.length_pos_iff, length_dataRange]
      omega
    rw [hlevel, busStep_deselect h.image hsel hd hf]
    intro hre
    have hat := congrFun (hre rfl) ⟨f.length, hout⟩
    rw [realize_data (s := m.chip) h.image, Option.getD_some, load,
      File.getD_pwrite_gap 0 0xff f (by omega) hbytes, hff] at hat
    exact absurd hat (by decide)

/-- A fresh device is inside the invariant. -/
theorem steady_realize {path : String} (hpath : path ≠ "") (file : Option (List UInt8)) :
    Steady (realize (some path) file) := by
  have himg : hasImage (realize (some path) file).chip = true := by
    simp [hasImage, realize, hpath]
  exact ⟨himg, tracks_of_clean rfl (realize_data himg file).symm, fun _ => rfl⟩

/-- **Power-cycle persistence, exactly.** Start a device on a file of any length, or on none,
and run any bus traffic on a host where nothing fails. Every deselected state of the run
reloads from the file it left behind exactly when no deselect of the run writes back a range
that starts past the end of the file.

**Proof sketch.** `Steady` is kept by every step without a gap (`Steady.step`) and gives
`Reloads`; a step with a gap ends deselected and does not reload (`Steady.not_reloads`). The
rule `Run.allStates_iff_allSteps` puts the two together. -/
theorem reloads_iff_noGap (path : String) (hpath : path ≠ "") (file : Option (List UInt8))
    (es : List BusEvent) :
    AllStates busStep Reloads (realize (some path) file) es ↔
      AllSteps busStep NoGap (realize (some path) file) es :=
  allStates_iff_allSteps (fun _ h => h.reloads) (fun _ e h => h.step e)
    (fun _ e h => h.not_reloads e) es _ (steady_realize hpath file)

/-- Traffic that programs address 1 of the part. -/
def programOne : List BusEvent :=
  [.setCs false, .xfer 0x06, .setCs true,
    .setCs false, .xfer 0x02, .xfer 0, .xfer 0, .xfer 1, .xfer 0x5a, .setCs true]

/-- On a file of one byte the programmed address is right at the end, so there is no gap. -/
theorem reloads_iff_noGap_adjacent :
    AllStates busStep Reloads (realize (some "flash.img") (some [0xaa])) programOne := by
  rw [reloads_iff_noGap "flash.img" (by decide)]
  have hlow : ¬ false = true := by decide
  refine ⟨fun h => absurd h hlow, trivial, fun _ _ hd => absurd hd hlow, fun h => absurd h hlow,
    trivial, trivial, trivial, trivial, trivial, fun _ _ _ f hf => ?_, trivial⟩
  obtain rfl : [0xaa] = f := Option.some.inj hf
  decide

/-- **Persistence fails on a short file.** With an empty backing file, programming address 1
leaves the file `00 5a`, and a fresh start loads `00` where the stopped machine had `ff`. -/
theorem gap_not_reloads :
    ¬ ∀ (path : String) (file : Option (List UInt8)) (es : List BusEvent), path ≠ "" →
      (∀ f, file = some f → f.length ≤ size) →
      Reloads (es.foldl busStep (realize (some path) file)) := by
  intro h
  have hre := h "flash.img" (some []) programOne (by decide) (by simp) (by decide)
  exact absurd (congrFun hre (wrap 0)) (by decide)

end Uvk5.PY25Q16
