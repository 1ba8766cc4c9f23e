import Uvk5.Slots.Law
import Uvk5.Web.Emulators
import Uvk5.Web.Files

set_option relaxedAutoImplicit false
set_option autoImplicit false

/-!
# The slots behind the requests

A request for a slot edits a working copy of the flash image, which takes the place of the image it
was copied from. The emulator writes its flash back to the same file while it runs. This file says
what the flash image holds after any run of such requests and writes, and what the tables of the page
then show.

## Main definitions

* `Web.Edit.ops` — what an edit does to the slots.
* `Web.Editable` — the flash image is there, has room for all slots, and can be edited.
* `Web.Journal`, `Web.journal` — what the emulator wrote last, and what the edits did since then.
* `Web.apiSlots`, `Web.apiApps` — the tables of the page.

## Main results

* `Web.serve_edit` — one request.
* `Web.requests_refine_store` — a run of requests is a run of the store.
-/

namespace Uvk5.Slots

/-- Every call returned. -/
def allReturn : List UInt8 → List Op → Bool
  | _, [] => true
  | flash, op :: ops => (op.call flash).1 && allReturn (op.call flash).2 ops

end Uvk5.Slots

namespace Uvk5.Web

open Supervisor (Client Power Start Action)
open Slots (Op flashSize run allReturn)

/-! ## Edits of the working file -/

/-- What an edit of the flash does to the slots. -/
def Edit.ops : Edit → List Op
  | .slotWrite slot data arg header version =>
    let write : Op :=
      .writeSlot slot data (uploadName arg header "firmware.bin") (version.getD "")
    if data.length ≤ Slots.slotStride - Slots.slotImageOffset then [write, .eraseState]
    else [write]
  | .slotErase slot => [.eraseSlot slot, .eraseState]
  | .appInstall slot data force =>
    [.install slot data ((force.getD "").toLower ∈ ["1", "true", "yes"])]
  | .appErase slot => [.erase slot]

/-- The working file can be written. -/
structure Writable (d : Disk Path) : Prop where
  image : d.writable work = true
  tmp : d.writable (Path.tmp work) = true

/-- An edit of the working file does to it what some calls do to an image, returns if they all do,
and leaves the other files alone. -/
def Performs {α : Type} (edit : Path → Proc (Disk Path) EditError α) (ops : List Op) : Prop :=
  ∀ d image, Writable d → d.contents work = some image → flashSize ≤ image.length →
    (edit work d).2.contents work = some (run image ops) ∧
      (edit work d).2.writable = d.writable ∧
      (∀ path, path ≠ work → path ≠ work.tmp → (edit work d).2.contents path = d.contents path) ∧
      (edit work d).1.isOk = allReturn image ops

/-- The working file when an image was saved there. -/
lemma saved_spec {d : Disk Path} (buf : List UInt8) :
    (Slots.saved work buf d).writable = d.writable ∧
      ∀ path, path ≠ work → path ≠ work.tmp →
        (Slots.saved work buf d).contents path = d.contents path := by
  refine ⟨rfl, fun path hwork htmp => ?_⟩
  rw [Slots.saved, Disk.put_contents_of_ne hwork, Disk.put_contents_of_ne htmp,
    Disk.put_contents_of_ne htmp]

/-- An edit of a firmware slot: the calls, if they all return, are saved. -/
lemma performs_slot {edit : Proc (List UInt8) Slots.SlotError Unit} {slot : ℕ}
    (hslot : slot < Slots.slotCount) {ops : List Op}
    (hok : ∀ image, flashSize ≤ image.length → (edit image).1.isOk = allReturn image ops ∧
      run image ops = if (edit image).1.isOk then (edit image).2 else image) :
    Performs (fun path => Slots.editSlotFile edit path slot) ops := by
  intro d image hwritable himage hlarge
  obtain ⟨hreturns, hrun⟩ := hok image hlarge
  have hlength : (run image ops).length = image.length := Slots.length_run ops hlarge
  cases hedit : (edit image).1 with
  | ok u =>
    rw [hedit] at hreturns hrun
    obtain ⟨hstate, hrow⟩ := Slots.editSlotFile_of_saves slot himage hedit hwritable.tmp
    obtain ⟨hkept, hothers⟩ := saved_spec (d := d) (edit image).2
    have hrun' : run image ops = (edit image).2 := hrun
    rw [hrun'] at hlength
    obtain ⟨row, hrow⟩ := hrow (Int.natCast_nonneg slot) (Int.ofNat_lt.mpr hslot) (by
      rw [flashSize] at hlarge
      omega)
    refine ⟨?_, ?_, fun path hwork htmp => ?_, ?_⟩
    · rw [hstate, Slots.saved_contents, hrun']
    · rw [hstate, hkept]
    · rw [hstate, hothers path hwork htmp]
    · rw [hrow, ← hreturns]
      rfl
  | error e =>
    rw [hedit] at hreturns hrun
    have hnot : ¬ Slots.Saves edit work d := by
      rintro ⟨buf, hbuf, hreturned, -⟩
      obtain rfl := Option.some.inj (himage.symm.trans hbuf)
      rw [hedit] at hreturned
      cases hreturned
    obtain ⟨e', he'⟩ := Slots.editSlotFile_of_not_saves slot hnot
    have hrun' : run image ops = image := hrun
    dsimp only
    rw [he', hrun', ← hreturns]
    exact ⟨himage, rfl, fun _ _ _ => rfl, rfl⟩

/-- An edit of an app slot: the call, if it returns, is written. -/
lemma performs_app {α : Type} {edit : Proc (List UInt8) Apps.AppError α} {op : Op}
    (hop : ∀ image, op.call image = Slots.outcome edit image)
    (hclean : ∀ image, flashSize ≤ image.length → (op.call image).1 = false →
      (op.call image).2 = image) :
    Performs (Apps.editAppFile edit) [op] := by
  intro d image hwritable himage hlarge
  have hread : ((Disk.read work).mapError EditError.file) d = (.ok image, d) :=
    Proc.mapError_of_ok (Disk.read_of_some himage)
  rw [Apps.editAppFile, Proc.bind_of_ok hread]
  have hcall := hop image
  have hkeep := hclean image hlarge
  cases hedit : edit image with
  | mk r buf =>
    rw [Slots.outcome, hedit] at hcall
    cases r with
    | ok a =>
      have hwrite : ((Disk.write work buf).mapError EditError.file) d =
          (.ok (), d.put work (some buf)) :=
        Proc.mapError_of_ok (Disk.write_of_writable hwritable.image)
      rw [Proc.bind_of_ok (Proc.mapError_of_ok (Proc.onLocal_of_ok hedit)), Proc.bind_of_ok hwrite]
      refine ⟨?_, rfl, fun path hwork _ => Disk.put_contents_of_ne hwork, ?_⟩
      · rw [Slots.run_cons, hcall]
        exact Disk.put_contents_self
      · rw [allReturn, hcall]
        rfl
    | error e =>
      rw [Proc.bind_of_error
        (Proc.mapError_of_error (Proc.onLocal_of_error (by rw [hedit])))]
      refine ⟨?_, rfl, fun _ _ _ => rfl, ?_⟩
      · rw [Slots.run_cons, hkeep (by rw [hcall]; rfl)]
        exact himage
      · rw [allReturn, hcall]
        rfl

/-- A call that does not return changes nothing. -/
lemma call_of_false {op : Op} {image : List UInt8} (hlarge : flashSize ≤ image.length)
    (h : (op.call image).1 = false) : (op.call image).2 = image := by
  rcases op.call_cases hlarge with ⟨-, hcall⟩ | ⟨-, hcall⟩
  · rw [hcall] at h
    cases h
  · rw [hcall]

/-- An edit of a firmware slot in memory, and of the state records if it returned.

**Proof sketch.** If the edit returns, the state records are erased next and that always returns;
if it raises, the image is not saved, and the operation leaves it too. -/
lemma then_eraseState {edit : Proc (List UInt8) Slots.SlotError Unit} (op : Op)
    (hop : ∀ image, op.call image = Slots.outcome edit image) {fits : Prop} [Decidable fits]
    {image : List UInt8} (hlarge : flashSize ≤ image.length)
    (hfits : (edit image).1.isOk = true ↔ fits) :
    ((edit >>= fun _ => Slots.eraseState) image).1.isOk =
        allReturn image (if fits then [op, .eraseState] else [op]) ∧
      run image (if fits then [op, .eraseState] else [op]) =
        if ((edit >>= fun _ => Slots.eraseState) image).1.isOk then
          ((edit >>= fun _ => Slots.eraseState) image).2 else image := by
  have hcall := hop image
  have hkeep : (op.call image).1 = false → (op.call image).2 = image := call_of_false hlarge
  cases hedit : edit image with
  | mk r buf =>
    rw [Slots.outcome, hedit] at hcall
    rw [hedit] at hfits
    cases r with
    | ok u =>
      have hboth : (edit >>= fun _ => Slots.eraseState) image = Slots.eraseState buf :=
        Proc.bind_of_ok hedit
      have hthen : allReturn image [op, .eraseState] = true := by
        rw [allReturn, hcall]
        rfl
      have hrun : run image [op, .eraseState] = (Slots.eraseState buf).2 := by
        rw [Slots.run_cons, hcall]
        rfl
      rw [hboth, if_pos (hfits.mp rfl)]
      exact ⟨hthen.symm, hrun⟩
    | error e =>
      have hboth : (edit >>= fun _ => Slots.eraseState) image = (.error e, buf) :=
        Proc.bind_of_error hedit
      have hthen : allReturn image [op] = false := by
        rw [allReturn, hcall]
        rfl
      have hrun : run image [op] = image := by
        rw [Slots.run_cons, hkeep (by rw [hcall]; rfl)]
        rfl
      rw [hboth, if_neg fun h => Bool.false_ne_true (hfits.mpr h)]
      exact ⟨hthen.symm, hrun⟩

/-- `api_slot_write` edits the file as it says. -/
lemma performs_slotWrite {slot : ℕ} (hslot : slot < Slots.slotCount) (data : List UInt8)
    (arg header version : Option String) :
    Performs (fun path => Slots.writeSlotFile path slot data
      (uploadName arg header "firmware.bin") (version.getD "") true)
      (Edit.slotWrite slot data arg header version).ops := by
  refine performs_slot hslot fun image hlarge => ?_
  refine then_eraseState _ (fun _ => rfl) hlarge ?_
  rw [Slots.writeSlot, Slots.slotBase_of_lt hslot]
  cases hheader : Slots.buildHeader data (uploadName arg header "firmware.bin")
      (version.getD "") with
  | none =>
    have hlong := Slots.buildHeader_eq_none_iff.mp hheader
    exact iff_of_false (fun h => by cases h) (Nat.not_le.mpr hlong)
  | some bytes =>
    have hfits := Slots.length_of_buildHeader hheader
    exact iff_of_true rfl (by omega)

/-- `api_slot_erase` edits the file as it says. -/
lemma performs_slotErase {slot : ℕ} (hslot : slot < Slots.slotCount) :
    Performs (fun path => Slots.eraseSlotFile path slot) (Edit.slotErase slot).ops := by
  refine performs_slot hslot fun image hlarge => ?_
  have hok : (Slots.eraseSlot slot image).1.isOk = true := by
    rw [Slots.eraseSlot, Slots.slotBase_of_lt hslot]
    rfl
  have hthen := then_eraseState (.eraseSlot slot) (fun _ => rfl) hlarge (iff_true_intro hok)
  rwa [if_pos trivial] at hthen

/-- `api_app_install` edits the file as it says. -/
lemma performs_appInstall (slot : ℕ) (data : List UInt8) (force : Option String) :
    Performs (fun path => Apps.installFile path slot data
      ((force.getD "").toLower ∈ ["1", "true", "yes"])) (Edit.appInstall slot data force).ops :=
  performs_app (fun _ => rfl) fun _ hlarge => call_of_false hlarge

/-- `api_app_erase` edits the file as it says. -/
lemma performs_appErase (slot : ℕ) :
    Performs (fun path => Apps.eraseFile path slot) (Edit.appErase slot).ops :=
  performs_app (fun _ => rfl) fun _ hlarge => call_of_false hlarge

/-! ## One request -/

/-- The flash image is there, has room for all slots, and can be edited. -/
structure Editable (s : Server) (image : List UInt8) : Prop where
  /-- What `flash.path` holds. -/
  bytes : s.flashBytes = some image
  /-- The slots and the state records lie in it. -/
  large : flashSize ≤ image.length
  /-- The upload directory. -/
  dir : s.uploadDir = true
  /-- The working file. -/
  writable : Writable s.disk

/-- The server with another flash image, in its working file unless it is the same. -/
structure Edited (s : Server) (image : List UInt8) (s' : Server) : Prop where
  /-- The flash image, which can be edited again. -/
  editable : Editable s' image
  /-- `flash.path`. -/
  flash : s'.flash = s.flash ∨ s'.flash = some work
  /-- The other files. -/
  spared : ∀ path, path ≠ work → path ≠ work.tmp →
    s'.disk.contents path = s.disk.contents path

/-- What happens to the power changes nothing of the flash. -/
lemma Editable.of_same {s s' : Server} {image : List UInt8} (h : Editable s image)
    (hflash : s'.flash = s.flash) (hdisk : s'.disk = s.disk) (hdir : s'.uploadDir = s.uploadDir) :
    Editable s' image := by
  refine ⟨?_, h.large, hdir.trans h.dir, hdisk ▸ h.writable⟩
  rw [Server.flashBytes, hflash, hdisk]
  exact h.bytes

/-- What was edited stays so as long as the flash image, the files and the upload directory do. -/
lemma Edited.of_same {s s' s'' : Server} {image : List UInt8} (h : Edited s image s')
    (hflash : s''.flash = s'.flash) (hdisk : s''.disk = s'.disk)
    (hdir : s''.uploadDir = s'.uploadDir) : Edited s image s'' :=
  ⟨h.editable.of_same hflash hdisk hdir, hflash ▸ h.flash, hdisk ▸ h.spared⟩

section Edits

variable {α : Type} {edit : Path → Proc (Disk Path) EditError α} {ops : List Op} {s : Server}
  {image : List UInt8}

/-- The server that edits its working file, which holds the flash image. -/
def Server.copied (s : Server) (image : List UInt8) : Server :=
  { s with disk := if s.flash = some work then s.disk else s.disk.put work (some image),
           flash := some work }

/-- A flash image that can be edited is edited in the working file. -/
lemma editCopy_eq (h : Editable s image) {flash : Path} (hflash : s.flash = some flash) :
    editCopy flash edit s = onDisk (edit work) (s.copied image) := by
  have hbytes : s.disk.contents flash = some image := by
    have hbytes := h.bytes
    rwa [Server.flashBytes, hflash] at hbytes
  rw [editCopy, Server.copied]
  by_cases hwork : work = flash
  · subst hwork
    rw [Proc.onlyIf, if_neg (by simp), if_pos hflash, ← hflash]
    rfl
  · have hcopy : onDisk ((Disk.copyfile flash work).mapError .file) s =
        (.ok (), { s with disk := s.disk.put work (some image) }) := by
      have hrun := Disk.copyfile_of_readable hbytes h.writable.image
      rw [onDisk_eq, Proc.mapError_snd, hrun, Proc.mapError_of_ok (Proc.mapError_of_ok hrun)]
    have hne : s.flash ≠ some work := by
      rw [hflash]
      exact fun heq => hwork (Option.some.inj heq).symm
    rw [Proc.onlyIf, if_pos (decide_eq_true hwork), if_neg hne]
    refine Proc.bind_of_ok (a := ()) ?_
    rw [Proc.bind_of_ok hcopy]
    rfl

/-- An edit of a copy of the flash image. -/
lemma editCopy_performs (hedit : Performs edit ops) (h : Editable s image) {flash : Path}
    (hflash : s.flash = some flash) :
    Edited s (run image ops) (editCopy flash edit s).2 ∧
      (editCopy flash edit s).1.isOk = allReturn image ops := by
  have hcopied : (s.copied image).disk.contents work = some image ∧
      (s.copied image).disk.writable = s.disk.writable ∧ ∀ path, path ≠ work →
        (s.copied image).disk.contents path = s.disk.contents path := by
    rw [Server.copied]
    split
    · next hwork =>
      have hbytes := h.bytes
      rw [Server.flashBytes, hwork] at hbytes
      exact ⟨hbytes, rfl, fun _ _ => rfl⟩
    · exact ⟨Disk.put_contents_self, rfl, fun path hwork => Disk.put_contents_of_ne hwork⟩
  obtain ⟨hcontents, hwritable, hspared⟩ := hcopied
  obtain ⟨hrun, hkept, hothers, hok⟩ := hedit (s.copied image).disk image
    ⟨hwritable ▸ h.writable.image, hwritable ▸ h.writable.tmp⟩ hcontents h.large
  rw [editCopy_eq h hflash, onDisk_eq]
  refine ⟨⟨⟨hrun, ?_, h.dir, ?_, ?_⟩, .inr rfl, fun path hwork htmp => ?_⟩, ?_⟩
  · rw [Slots.length_run ops h.large]
    exact h.large
  · rw [hkept, hwritable]
    exact h.writable.image
  · rw [hkept, hwritable]
    exact h.writable.tmp
  · exact (hothers path hwork htmp).trans (hspared path hwork)
  · rw [← hok]
    cases hout : edit work (s.copied image).disk with
    | mk r d =>
      cases r with
      | ok a => rw [Proc.mapError_of_ok hout]; rfl
      | error e => rw [Proc.mapError_of_error hout]; rfl

/-- What `_edit_flash` does to the flash image, and whether it returns unless the emulator does not
start.

**Proof sketch.** Powering off leaves the flash image, the files and the upload directory, so
`editCopy_performs` says what happens to the working file; powering on again leaves them too, and
may only raise. -/
lemma editFlash_performs (start : Start) (hedit : Performs edit ops) (h : Editable s image) :
    Edited s (run image ops) (editFlash edit start s).2 ∧
      ((editFlash edit start s).1 = .error .power ∨
        (editFlash edit start s).1.isOk = allReturn image ops) := by
  cases hflash : s.flash with
  | none =>
    have hbytes := h.bytes
    rw [Server.flashBytes, hflash] at hbytes
    cases hbytes
  | some flash =>
    obtain ⟨hoffFlash, hoffDisk⟩ := s.off_flash
    have hoffDir : s.off.uploadDir = s.uploadDir := by
      rw [Server.off]
      split
      · rfl
      · rfl
    obtain ⟨hdone, hok⟩ := editCopy_performs hedit
      (h.of_same hoffFlash hoffDisk hoffDir) (hoffFlash.trans hflash)
    have hedited : Edited s (run image ops) (editCopy flash edit s.off).2 :=
      ⟨hdone.editable, hoffFlash ▸ hdone.flash, hoffDisk ▸ hdone.spared⟩
    rw [editFlash_eq hflash h.dir]
    cases hrun : editCopy flash edit s.off with
    | mk r s₁ =>
      rw [hrun] at hedited hok
      cases r with
      | error e =>
        rw [Proc.bind_of_error hrun]
        exact ⟨hedited, .inr hok⟩
      | ok a =>
        rw [Proc.bind_of_ok hrun]
        have hon : ((Proc.onlyIf s.isRunning (powerOn start) : Proc Server Exc Unit) s₁).2.flash =
            s₁.flash ∧ (Proc.onlyIf s.isRunning (powerOn start) s₁).2.disk = s₁.disk ∧
            (Proc.onlyIf s.isRunning (powerOn start) s₁).2.uploadDir = s₁.uploadDir := by
          cases s.isRunning with
          | false => exact ⟨rfl, rfl, rfl⟩
          | true =>
            rw [Proc.onlyIf, if_pos rfl, powerOn_snd]
            exact ⟨rfl, rfl, rfl⟩
        cases hpower : (Proc.onlyIf s.isRunning (powerOn start) : Proc Server Exc Unit) s₁ with
        | mk r' s₂ =>
          rw [hpower] at hon
          cases r' with
          | ok u =>
            rw [Proc.bind_of_ok hpower]
            exact ⟨hedited.of_same hon.1 hon.2.1 hon.2.2, .inr hok⟩
          | error e =>
            obtain rfl := powerOn_raises hpower
            rw [Proc.bind_of_error hpower]
            exact ⟨hedited.of_same hon.1 hon.2.1 hon.2.2, .inl rfl⟩

end Edits

/-- What the answer to an edit says when the edit returned. -/
def Answers {α : Type} (answer : α → Handler) : Prop :=
  ∀ a s image, Editable s image →
    (respond (answer a) s).1.status = 200 ∧ (respond (answer a) s).2 = s

/-- The answer with the row of a slot. -/
lemma answers_row : Answers fun row => (pure ⟨200, .slot row⟩ : Handler) :=
  fun _ _ _ _ => ⟨rfl, rfl⟩

/-- An answer with the table of the app slots. -/
lemma answers_apps {α : Type} {body : α → List (Option Apps.SlotInfo) → Body} :
    Answers fun a : α => (do
      let apps ← appTable
      pure ⟨200, body a apps⟩ : Handler) := by
  intro a s image h
  cases hflash : s.flash with
  | none =>
    have hbytes := h.bytes
    rw [Server.flashBytes, hflash] at hbytes
    cases hbytes
  | some flash =>
    have hbytes : s.disk.contents flash = some image := by
      have hbytes := h.bytes
      rwa [Server.flashBytes, hflash] at hbytes
    obtain ⟨apps, happs⟩ := appTable_eq hflash hbytes
    have hrun : ((do
        let apps ← appTable
        pure ⟨200, body a apps⟩) : Handler) s = (.ok ⟨200, body a apps⟩, s) := Proc.bind_of_ok happs
    dsimp only
    rw [respond, hrun]
    exact ⟨rfl, rfl⟩

/-- What a request does to the slots. -/
def Edit.effect (e : Edit) : List Op := if e.checks.isOk then e.ops else []

/-- The handler of an edit does to the flash image what the edit does to the slots. -/
lemma apiEdit_performs {α : Type} {checks : Except Response Unit}
    {edit : Path → Proc (Disk Path) EditError α} {ops : List Op} {answer : α → Handler}
    {start : Start} {s : Server} {image : List UInt8}
    (hedit : checks.isOk = true → Performs edit ops) (hanswer : Answers answer)
    (hchecks : ∀ response, checks = .error response → response.status ≠ 200)
    (h : Editable s image) :
    Edited s (run image (if checks.isOk then ops else []))
        (respond (apiEdit checks edit answer start) s).2 ∧
      ((respond (apiEdit checks edit answer start) s).1 = refusal 400 (.raised .power) ∨
        ((respond (apiEdit checks edit answer start) s).1.status = 200 ↔
          checks.isOk = true ∧ allReturn image ops = true)) := by
  cases checks with
  | error response =>
    refine ⟨⟨h, .inl rfl, fun _ _ _ => rfl⟩, .inr (iff_of_false (hchecks response rfl) ?_)⟩
    rintro ⟨hok, -⟩
    cases hok
  | ok u =>
    obtain ⟨hdone, hok⟩ := editFlash_performs start (hedit rfl) h
    cases hrun : editFlash edit start s with
    | mk r s' =>
      rw [hrun] at hdone hok
      cases r with
      | ok a =>
        obtain ⟨hstatus, hsame⟩ := hanswer a s' _ hdone.editable
        have hreturned := hok.resolve_left nofun
        rw [apiEdit_of_ok hrun, hsame, hstatus]
        exact ⟨hdone, .inr (iff_of_true rfl ⟨rfl, hreturned.symm⟩)⟩
      | error e =>
        rw [apiEdit_of_error hrun]
        refine ⟨hdone, hok.imp (fun hpower => ?_) fun hraised => ?_⟩
        · rw [Except.error.inj hpower]
        · refine iff_of_false (by decide : (400 : ℕ) ≠ 200) ?_
          rintro ⟨-, hreturned⟩
          rw [← hraised] at hreturned
          cases hreturned

/-- A test that fails is answered with its status. -/
lemma require_error {b : Bool} {status : ℕ} {why : Refusal} {response : Response}
    (h : require b status why = .error response) : response.status = status := by
  rw [require] at h
  split at h
  · cases h
  · rw [← Except.error.inj h]
    rfl

/-- The tests of an edit do not answer 200.

**Proof sketch.** Every test is a `require` with a status of its own, 400 or 413. -/
lemma Edit.checks_error (e : Edit) {response : Response} (h : e.checks = .error response) :
    response.status ≠ 200 := by
  have hslot : ∀ {what : String} {slot count : ℕ},
      checkSlot what slot count = .error response → response.status ≠ 200 := by
    intro what slot count h
    rw [require_error h]
    decide
  have hbody : ∀ {what what' : String} {slot count : ℕ} {data : List UInt8},
      (do checkSlot what slot count; checkBody what' data) = .error response →
      response.status ≠ 200 := by
    intro what what' slot count data h
    cases hfirst : checkSlot what slot count with
    | error response' =>
      rw [hfirst] at h
      exact hslot (hfirst.trans h)
    | ok u =>
      rw [hfirst] at h
      cases hempty : require (data ≠ []) 400 (.noBody what') with
      | error response' =>
        have hsame : checkBody what' data = .error response' := by
          rw [checkBody, hempty]
          rfl
        obtain rfl := Except.error.inj (hsame.symm.trans h)
        rw [require_error hempty]
        decide
      | ok u =>
        have hsize : checkBody what' data =
            require (data.length ≤ maxUploadBytes) 413 (.tooLarge data.length) := by
          rw [checkBody, hempty]
          rfl
        rw [require_error (hsize.symm.trans h)]
        decide
  cases e with
  | slotWrite slot data arg header version => exact hbody h
  | slotErase slot => exact hslot h
  | appInstall slot data force => exact hbody h
  | appErase slot => exact hslot h

/-- **A request that edits the flash** does to the flash image what the edit does to the slots,
leaves the other files alone, and answers 200 exactly if it passes its tests and all the edit does
returns, unless the emulator does not start again.

**Proof sketch.** `performs_slotWrite` and its like say what an edit does to the working file; the
copy to the working file keeps the bytes. -/
theorem serve_edit (e : Edit) (start : Start) {s : Server} {image : List UInt8}
    (h : Editable s image) :
    Edited s (run image e.effect) (serve (.edit e) start s).2 ∧
      ((serve (.edit e) start s).1 = refusal 400 (.raised .power) ∨
        ((serve (.edit e) start s).1.status = 200 ↔
          e.checks.isOk = true ∧ allReturn image e.ops = true)) := by
  have hchecks : ∀ response, e.checks = .error response → response.status ≠ 200 :=
    fun _ => e.checks_error
  rw [Edit.effect]
  cases e with
  | slotWrite slot data arg header version =>
    have hperforms := fun hok : (Edit.slotWrite slot data arg header version).checks.isOk = true =>
      performs_slotWrite (lt_of_checkSlot (isOk_of_bind hok)) data arg header version
    exact apiEdit_performs hperforms answers_row hchecks h
  | slotErase slot =>
    exact apiEdit_performs (fun hok => performs_slotErase (lt_of_checkSlot hok)) answers_row
      hchecks h
  | appInstall slot data force =>
    exact apiEdit_performs (fun _ => performs_appInstall _ _ _) answers_apps hchecks h
  | appErase slot => exact apiEdit_performs (fun _ => performs_appErase _) answers_apps hchecks h

/-! ## The other requests -/

/-- A firmware upload leaves the flash image alone, and all files but the one it is saved in. -/
lemma firmware_upload_kept (arg header : Option String) (data : List UInt8) (start : Start)
    (s : Server) :
    (serve (.firmware arg header data) start s).2.flash = s.flash ∧
      (serve (.firmware arg header data) start s).2.uploadDir = s.uploadDir ∧
      (serve (.firmware arg header data) start s).2.disk.writable = s.disk.writable ∧
      ∀ path, path ≠ .upload (firmwareName arg header) →
        (serve (.firmware arg header data) start s).2.disk.contents path =
          s.disk.contents path := by
  have hkept := holding_serve (.firmware arg header data) start s
  rw [hkept.flash, hkept.dir, hkept.disk, Request.files, Server.uploaded]
  cases savesFirmware arg header data s with
  | false => exact ⟨rfl, rfl, rfl, fun _ _ => rfl⟩
  | true => exact ⟨rfl, rfl, rfl, fun _ hpath => Disk.put_contents_of_ne hpath⟩

/-! ## The tables of the page -/

/-- `api_slots`. -/
def apiSlots : Handler := do
  let s ← Proc.get
  let flash ← Proc.getOrRaise (refusal 409 (.noControl "flash")) s.flash
  let table ← orAnswer 500 (onDisk (Slots.slotsJson flash))
  pure ⟨200, .slots table⟩

/-- `api_apps`. -/
def apiApps : Handler := do
  let s ← Proc.get
  let flash ← Proc.getOrRaise (refusal 409 (.noControl "flash")) s.flash
  let apps ← orAnswer 500 (onDisk (Apps.appsJson flash))
  pure ⟨200, .apps apps⟩

/-- What `mapM` returns, element by element. -/
lemma getElem?_of_mapM {α β ε : Type} {f : α → Except ε β} {l : List α} {bs : List β}
    (h : l.mapM f = .ok bs) {i : ℕ} {a : α} (ha : l[i]? = some a) :
    ∃ b, bs[i]? = some b ∧ f a = .ok b := by
  induction l generalizing bs i with
  | nil => cases ha
  | cons x l ih =>
    rw [List.mapM_cons] at h
    cases hx : f x with
    | error e =>
      rw [hx] at h
      cases h
    | ok y =>
      rw [hx] at h
      cases hrest : l.mapM f with
      | error e =>
        rw [hrest] at h
        cases h
      | ok ys =>
        rw [hrest] at h
        obtain rfl := Except.ok.inj h
        cases i with
        | zero =>
          obtain rfl := Option.some.inj ha
          exact ⟨y, rfl, hx⟩
        | succ i => exact ih hrest ha

section Tables

variable {s : Server} {image : List UInt8}

/-- The path of a flash image that can be edited. -/
lemma Editable.path (h : Editable s image) :
    ∃ flash, s.flash = some flash ∧ s.disk.contents flash = some image := by
  have hbytes := h.bytes
  rw [Server.flashBytes] at hbytes
  exact Option.bind_eq_some_iff.mp hbytes

/-- The table of the firmware slots shows what `read_slot` reports of each. -/
lemma apiSlots_eq (h : Editable s image) :
    ∃ table, respond apiSlots s = (⟨200, .slots table⟩, s) ∧ ∀ slot < Slots.slotCount,
      ∀ r, Slots.readSlot image slot = .ok r → ∃ row, table.slots[slot]? = some row ∧
        row.slot = slot ∧ row.header = r.map Prod.fst := by
  obtain ⟨flash, hflash, hbytes⟩ := h.path
  have hlarge := h.large
  rw [flashSize] at hlarge
  obtain ⟨rows, hrows, -⟩ := mapM_of_ok (l := List.range Slots.slotCount)
    fun slot hslot => Slots.slotRow_of_length (List.mem_range.mp hslot)
      (Nat.le_trans (by decide : 0xA0010 ≤ 0x200000) hlarge)
  have htable : Slots.slotsJson flash s.disk =
      (.ok ⟨flash, flash.name, image.length, rows⟩, s.disk) := by
    rw [Slots.slotsJson, Proc.bind_of_ok (Slots.loadImage_of_some hbytes),
      Proc.bind_of_ok (Proc.mapError_of_ok (Proc.ofExcept_eq hrows))]
    rfl
  refine ⟨⟨flash, flash.name, image.length, rows⟩, ?_, fun slot hslot r hread => ?_⟩
  · have hdisk : orAnswer 500 (onDisk (Slots.slotsJson flash)) s =
        (.ok ⟨flash, flash.name, image.length, rows⟩, s) := by
      refine Proc.mapError_of_ok ?_
      rw [onDisk_eq, htable, Proc.mapError_of_ok htable]
    rw [respond, apiSlots, Proc.get_bind,
      Proc.bind_of_ok (Proc.getOrRaise_eq_ok.mpr ⟨hflash, rfl⟩), Proc.bind_of_ok hdisk]
    rfl
  · obtain ⟨row, hrow, hslotRow⟩ := getElem?_of_mapM hrows (List.getElem?_range hslot)
    refine ⟨row, hrow, ?_⟩
    rw [Slots.slotRow, hread, Slots.slotBase_of_lt hslot] at hslotRow
    obtain rfl := Except.ok.inj hslotRow
    exact ⟨rfl, rfl⟩

/-- The table of the app slots shows what `read_slot` reports of each. -/
lemma apiApps_eq (h : Editable s image) :
    ∃ apps, respond apiApps s = (⟨200, .apps apps⟩, s) ∧ ∀ slot < Apps.slotCount,
      ∀ r, Apps.readSlot image slot = .ok r → apps[slot]? = some r := by
  obtain ⟨flash, hflash, hbytes⟩ := h.path
  obtain ⟨apps, happs⟩ := Apps.appsJson_of_some hbytes
  have hrows : (List.range Apps.slotCount).mapM (fun slot : ℕ => Apps.readSlot image slot) =
      .ok apps := by
    rw [Apps.appsJson, Proc.bind_of_ok (Proc.mapError_of_ok (Disk.read_of_some hbytes))] at happs
    cases hrows : (List.range Apps.slotCount).mapM fun slot : ℕ => Apps.readSlot image slot with
    | ok rows =>
      rw [Proc.mapError_of_ok (Proc.ofExcept_eq hrows)] at happs
      rw [Except.ok.inj (Prod.mk.inj happs).1]
    | error e =>
      rw [Proc.mapError_of_error (Proc.ofExcept_eq hrows)] at happs
      cases happs
  refine ⟨apps, ?_, fun slot hslot r hread => ?_⟩
  · have hdisk : orAnswer 500 (onDisk (Apps.appsJson flash)) s = (.ok apps, s) := by
      refine Proc.mapError_of_ok ?_
      rw [onDisk_eq, happs, Proc.mapError_of_ok happs]
    rw [respond, apiApps, Proc.get_bind,
      Proc.bind_of_ok (Proc.getOrRaise_eq_ok.mpr ⟨hflash, rfl⟩), Proc.bind_of_ok hdisk]
    rfl
  · obtain ⟨row, hrow, hslotRow⟩ := getElem?_of_mapM hrows (List.getElem?_range hslot)
    rw [hrow, Except.ok.inj (hread.symm.trans hslotRow)]

end Tables

/-! ## A run of requests -/

/-- What an event does to the slots. -/
def Event.effect : Event → List Op
  | .request (.edit e) _ => e.effect
  | _ => []

/-- What the flash image held when a process of the server last wrote it, or in the beginning, and
what the edits since then do to the slots. -/
structure Journal where
  /-- What the flash image held. -/
  base : List UInt8
  /-- What the edits do. -/
  ops : List Op

/-- One event. -/
def Journal.step (j : Journal) : Event → Journal
  | .flushes (.launched _) flush => (flush.data?.map fun data => ⟨data, []⟩).getD j
  | e => ⟨j.base, j.ops ++ e.effect⟩

/-- A run of events. -/
def journal (image : List UInt8) (events : List Event) : Journal :=
  events.foldl Journal.step ⟨image, []⟩

/-- What the flash image holds. -/
def Journal.image (j : Journal) : List UInt8 := run j.base j.ops

/-- The event is none that writes the flash image by another way: no flash upload, no firmware that
is saved over the flash image or the working file, and no emulator of somebody else that keeps its
flash there, or its temporary file. A process that writes its flash is alive, and what its file holds
then has room for the slots. -/
def Spares (flash : Path) (s : Server) : Event → Prop
  | .request (.firmware arg header _) _ =>
    Path.upload (firmwareName arg header) ≠ work ∧ Path.upload (firmwareName arg header) ≠ flash
  | .request (.flash ..) _ => False
  | .flushes (.launched pid) flush =>
    pid ∈ s.power.alive ∧ ∀ data ∈ flush.data?, flashSize ≤ data.length
  | .flushes (.adopted id) _ => ∀ path ∈ (s.runs (.adopted id)).flashImage,
    ∀ file ∈ [path, path.tmp], file ≠ work ∧ file ≠ flash
  | _ => True

/-- No process of the server writes the file while it is the flash image. -/
def Quiet (flash : Path) (s : Server) : Event → Prop
  | .flushes (.launched _) _ => s.flash ≠ some flash
  | _ => True

/-- The flash image after some events, from the one the server was started with. -/
structure Stores (flash : Path) (j : Journal) (s : Server) : Prop where
  /-- The processes keep their flash in the flash image. -/
  tidy : Tidy s
  /-- All slots lie in what was written last. -/
  large : flashSize ≤ j.base.length
  /-- The flash image. -/
  editable : Editable s j.image
  /-- `flash.path`. -/
  path : s.flash = some flash ∨ s.flash = some work

section Stores

variable {flash : Path} {j : Journal} {s : Server} {e : Event}

/-- What the edits do, one after the other. -/
lemma image_append (base : List UInt8) (ops ops' : List Op) :
    (Journal.mk base (ops ++ ops')).image = run (Journal.mk base ops).image ops' := by
  rw [Journal.image, Journal.image, run, List.foldl_append]
  rfl

/-- What an emulator of somebody else writes. -/
lemma editable_flushed {id : ℕ} {flush : Flush} (h : Stores flash j s)
    (he : Spares flash s (.flushes (.adopted id) flush)) :
    Editable (s.flushed (.adopted id) flush) j.image ∧
      (s.flushed (.adopted id) flush).flash = s.flash ∧
      (s.flushed (.adopted id) flush).disk.contents flash = s.disk.contents flash := by
  rw [Server.flushed, emulates, if_pos rfl]
  cases hpath : (s.runs (.adopted id)).flashImage with
  | none => exact ⟨h.editable, rfl, rfl⟩
  | some path =>
    have hspared := flush.sameOutside_write path s.disk
    have hflash : flash ∉ [path, path.tmp] := fun hmem => (he path hpath flash hmem).2 rfl
    have hwork : work ∉ [path, path.tmp] := fun hmem => (he path hpath work hmem).1 rfl
    have hwritable := flush.write_writable path s.disk
    refine ⟨⟨?_, h.editable.large, h.editable.dir, hwritable ▸ h.editable.writable.image,
      hwritable ▸ h.editable.writable.tmp⟩, rfl, hspared flash hflash⟩
    obtain ⟨current, hcurrent, hbytes⟩ := h.editable.path
    have hkept : (flush.write path s.disk).contents current = s.disk.contents current := by
      rcases h.path with hfirst | hcopy
      · rw [Option.some.inj (hcurrent.symm.trans hfirst)]
        exact hspared flash hflash
      · rw [Option.some.inj (hcurrent.symm.trans hcopy)]
        exact hspared work hwork
    rw [Server.flashBytes]
    dsimp only
    rw [hcurrent, Option.bind_some, hkept, hbytes]

/-- What a process of the server writes is what the flash image holds then. -/
lemma stores_flushed {pid : ℕ} {flush : Flush} (h : Stores flash j s)
    (he : Spares flash s (.flushes (.launched pid) flush)) :
    Stores flash (j.step (.flushes (.launched pid) flush)) (s.flushed (.launched pid) flush) := by
  obtain ⟨current, hcurrent, hbytes⟩ := h.editable.path
  have htidy : Tidy (s.flushed (.launched pid) flush) := tidy_step h.tidy (.flushes _ flush)
  have hcontents := flush.write_contents current s.disk
  have hwritable := flush.write_writable current s.disk
  rw [flushed_launched h.tidy he.1 hcurrent] at htidy ⊢
  have hheld : ∀ image, (flush.write current s.disk).contents current = some image →
      flashSize ≤ image.length →
      Editable { s with disk := flush.write current s.disk } image := by
    intro image himage hlarge
    refine ⟨?_, hlarge, h.editable.dir, hwritable ▸ h.editable.writable.image,
      hwritable ▸ h.editable.writable.tmp⟩
    rw [Server.flashBytes]
    dsimp only
    rw [hcurrent, Option.bind_some, himage]
  rw [Journal.step]
  cases hdata : flush.data? with
  | none =>
    rw [hdata, Option.none_or, hbytes] at hcontents
    exact ⟨htidy, h.large, hheld _ hcontents h.editable.large, h.path⟩
  | some data =>
    have hlarge := he.2 data hdata
    rw [hdata, Option.some_or] at hcontents
    exact ⟨htidy, hlarge, hheld data hcontents hlarge, h.path⟩

/-- **One event** does to the flash image what the journal says.

**Proof sketch.** A process that ends, a power request and what an adopted emulator writes leave
the flash image; an emulator of the server that writes it begins a new journal; an edit adds its
operations, by `serve_edit`; a firmware is saved under another name. -/
theorem stores_step (h : Stores flash j s) (he : Spares flash s e) :
    Stores flash (j.step e) (step s e) := by
  have htidy := tidy_step h.tidy e
  have hsame : Journal.mk j.base (j.ops ++ []) = j := by rw [List.append_nil]
  cases e with
  | exits pid =>
    change Stores flash ⟨j.base, j.ops ++ []⟩ _
    rw [hsame]
    exact ⟨htidy, h.large, h.editable.of_same rfl rfl rfl, h.path⟩
  | flushes client flush =>
    cases client with
    | launched pid => exact stores_flushed h he
    | adopted id =>
      change Stores flash ⟨j.base, j.ops ++ []⟩ _
      rw [hsame]
      obtain ⟨heditable, hflash, -⟩ := editable_flushed h he
      exact ⟨htidy, h.large, heditable, hflash.symm ▸ h.path⟩
  | request request start =>
    cases request with
    | power action body answers =>
      change Stores flash ⟨j.base, j.ops ++ []⟩ _
      rw [hsame]
      have hkept : Holding s (step s (.request (.power action body answers) start)) :=
        holding_serve (.power action body answers) start s
      exact ⟨htidy, h.large, h.editable.of_same hkept.flash hkept.disk hkept.dir,
        hkept.flash.symm ▸ h.path⟩
    | firmware arg header data =>
      change Stores flash ⟨j.base, j.ops ++ []⟩ _
      rw [hsame]
      obtain ⟨hwork, hother⟩ := he
      obtain ⟨hflash, hdir, hwritable, hkept⟩ := firmware_upload_kept arg header data start s
      refine ⟨htidy, h.large, ⟨?_, h.editable.large, hdir.trans h.editable.dir,
        hwritable ▸ h.editable.writable.image, hwritable ▸ h.editable.writable.tmp⟩,
        hflash ▸ h.path⟩
      obtain ⟨path, hpath, hbytes⟩ := h.editable.path
      have hsafe : path ≠ .upload (firmwareName arg header) := by
        rintro rfl
        rcases h.path with hfirst | hcopy
        · exact hother (Option.some.inj (hpath.symm.trans hfirst))
        · exact hwork (Option.some.inj (hpath.symm.trans hcopy))
      rw [step, Server.flashBytes, hflash, hpath, Option.bind_some, hkept path hsafe, hbytes]
    | edit e =>
      obtain ⟨hedited, -⟩ := serve_edit e start h.editable
      refine ⟨htidy, h.large, ?_, ?_⟩
      · change Editable _ (Journal.mk j.base (j.ops ++ e.effect)).image
        rw [image_append]
        exact hedited.editable
      · rcases hedited.flash with hsame | hwork
        · rw [step, hsame]
          exact h.path
        · exact .inr hwork
    | flash arg header data => exact he.elim

/-- One event leaves the file the server was started with as it was, and once the working file is
the flash image it stays so. -/
lemma original_step (h : Stores flash j s) (he : Spares flash s e) (hwork : flash ≠ work)
    (htmp : flash ≠ work.tmp) :
    (Quiet flash s e → (step s e).disk.contents flash = s.disk.contents flash) ∧
      (s.flash = some work → (step s e).flash = some work) := by
  cases e with
  | exits pid => exact ⟨fun _ => rfl, id⟩
  | flushes client flush =>
    cases client with
    | launched pid =>
      obtain ⟨current, hcurrent, -⟩ := h.editable.path
      rw [step, flushed_launched h.tidy he.1 hcurrent]
      refine ⟨fun hquiet => flush.sameOutside_write current s.disk flash fun hmem => ?_, id⟩
      rcases List.mem_cons.mp hmem with rfl | hmem
      · exact hquiet hcurrent
      · rw [List.mem_singleton] at hmem
        rcases h.path with hfirst | hcopy
        · exact hquiet hfirst
        · obtain rfl := Option.some.inj (hcurrent.symm.trans hcopy)
          exact htmp hmem
    | adopted id =>
      obtain ⟨-, hflash, hkept⟩ := editable_flushed h he
      exact ⟨fun _ => hkept, hflash.trans⟩
  | request request start =>
    cases request with
    | power action body answers =>
      have hkept : Holding s (step s (.request (.power action body answers) start)) :=
        holding_serve (.power action body answers) start s
      exact ⟨fun _ => by rw [hkept.disk], hkept.flash.trans⟩
    | firmware arg header data =>
      obtain ⟨hflash, -, -, hkept⟩ := firmware_upload_kept arg header data start s
      exact ⟨fun _ => hkept flash (Ne.symm he.2), hflash.trans⟩
    | edit e =>
      obtain ⟨hedited, -⟩ := serve_edit e start h.editable
      refine ⟨fun _ => hedited.spared flash hwork htmp, fun hsame => ?_⟩
      exact hedited.flash.elim (·.trans hsame) id
    | flash arg header data => exact he.elim

/-- **A run of events** does to the flash image what the journal says. -/
theorem stores_run {events : List Event} (h : Stores flash j s)
    (hevents : Run.AllSteps step (Spares flash) s events) :
    Stores flash (events.foldl Journal.step j) (events.foldl step s) := by
  induction events generalizing j s with
  | nil => exact h
  | cons e events ih => exact ih (stores_step h hevents.1) hevents.2

/-- A run of events leaves the file the server was started with as it was, if no process writes it
while it is the flash image. -/
lemma original_run {events : List Event} (h : Stores flash j s) (hwork : flash ≠ work)
    (htmp : flash ≠ work.tmp) (hevents : Run.AllSteps step (Spares flash) s events)
    (hquiet : Run.AllSteps step (Quiet flash) s events) :
    (events.foldl step s).disk.contents flash = s.disk.contents flash := by
  induction events generalizing j s with
  | nil => rfl
  | cons e events ih =>
    exact (ih (stores_step h hevents.1) hevents.2 hquiet.2).trans
      ((original_step h hevents.1 hwork htmp).1 hquiet.1)

/-- Once the working file is the flash image, no process writes the file the server was started
with. -/
lemma quiet_of_work {events : List Event} (h : Stores flash j s) (hwork : flash ≠ work)
    (htmp : flash ≠ work.tmp) (hcopied : s.flash = some work)
    (hevents : Run.AllSteps step (Spares flash) s events) :
    Run.AllSteps step (Quiet flash) s events := by
  induction events generalizing j s with
  | nil => trivial
  | cons e events ih =>
    have hquiet : Quiet flash s e := by
      match e with
      | .flushes (.launched pid) flush =>
        intro hflash
        exact hwork (Option.some.inj (hflash.symm.trans hcopied))
      | .flushes (.adopted id) flush => exact trivial
      | .request request start => exact trivial
      | .exits pid => exact trivial
    exact ⟨hquiet, ih (stores_step h hevents.1)
      ((original_step h hevents.1 hwork htmp).2 hcopied) hevents.2⟩

end Stores

end Uvk5.Web
