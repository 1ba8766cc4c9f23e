import Mathlib.Logic.Function.Basic
import Uvk5.Lib.Proc

set_option relaxedAutoImplicit false
set_option autoImplicit false

/-!
# A disk

Files by their paths. Reading fails where there is no file, writing where the disk does not let a
file be opened for it; a file that is opened for writing is replaced whole.

## Main definitions

* `Disk` — the files, and where one can be written.
* `Disk.read`, `Disk.write`, `Disk.rename`, `Disk.copyfile` — what a program does with them.
* `Disk.SameOutside` — the files with other paths are as they were.

## Main results

* `Disk.write_of_writable`, `Disk.copyfile_of_readable` — an operation that succeeds.
* `Disk.copyfile_error` — an operation that fails leaves the disk alone.
* `Disk.keeps_write`, `Disk.keeps_rename` — the operations touch only the files they name.
-/

namespace Uvk5

/-- The files with paths in `P`. -/
structure Disk (P : Type) where
  /-- What a file holds. -/
  contents : P → Option (List UInt8)
  /-- A file can be opened for writing. -/
  writable : P → Bool

/-- `OSError`. -/
inductive DiskError (P : Type) where
  /-- There is no file to read. -/
  | noFile (path : P)
  /-- The file cannot be written. -/
  | notWritable (path : P)
  deriving DecidableEq

namespace Disk

variable {P : Type} [DecidableEq P]

/-- The disk with another file. -/
def put (d : Disk P) (path : P) (data : Option (List UInt8)) : Disk P :=
  { d with contents := Function.update d.contents path data }

/-- Read a file. -/
def read (path : P) : Proc (Disk P) (DiskError P) (List UInt8) := fun d =>
  match d.contents path with
  | none => (.error (.noFile path), d)
  | some data => (.ok data, d)

/-- Write a file. -/
def write (path : P) (data : List UInt8) : Proc (Disk P) (DiskError P) Unit := fun d =>
  if d.writable path then (.ok (), d.put path (some data)) else (.error (.notWritable path), d)

/-- `os.replace`, of a file that is there. -/
def rename (src dst : P) : Proc (Disk P) (DiskError P) Unit := do
  let data ← read src
  Proc.modify fun d => (d.put src none).put dst (some data)

/-- `shutil.copyfile`. -/
def copyfile (src dst : P) : Proc (Disk P) (DiskError P) Unit := do
  let data ← read src
  write dst data

section Put

variable {d : Disk P} {path path' : P} {data : Option (List UInt8)}

/-- A file holds what is put there. -/
@[simp] lemma put_contents_self : (d.put path data).contents path = data :=
  Function.update_self ..

/-- The other files hold what they did. -/
@[simp] lemma put_contents_of_ne (h : path' ≠ path) :
    (d.put path data).contents path' = d.contents path' :=
  Function.update_of_ne h ..

end Put

variable {d : Disk P} {path src dst : P} {data : List UInt8}

omit [DecidableEq P] in
/-- A file that is there is read. -/
lemma read_of_some (h : d.contents path = some data) : read path d = (.ok data, d) := by
  rw [read, h]

omit [DecidableEq P] in
/-- A file that is not there cannot be read. -/
lemma read_of_none (h : d.contents path = none) : read path d = (.error (.noFile path), d) := by
  rw [read, h]

/-- A file that can be written holds what is written. -/
lemma write_of_writable (h : d.writable path = true) :
    write path data d = (.ok (), d.put path (some data)) := by
  rw [write, if_pos h]

/-- A file that cannot be written is left as it is. -/
lemma write_of_not_writable (h : d.writable path = false) :
    write path data d = (.error (.notWritable path), d) := by
  rw [write, h, if_neg Bool.false_ne_true]

/-- A file that is renamed replaces the one of its new name. -/
lemma rename_of_some (h : d.contents src = some data) :
    rename src dst d = (.ok (), (d.put src none).put dst (some data)) := by
  rw [rename, Proc.bind_of_ok (read_of_some h)]
  rfl

/-- A file that is there is copied to one that can be written. -/
lemma copyfile_of_readable (h : d.contents src = some data) (hdst : d.writable dst = true) :
    copyfile src dst d = (.ok (), d.put dst (some data)) := by
  rw [copyfile, Proc.bind_of_ok (read_of_some h), write_of_writable hdst]

/-- A copy that fails leaves the disk alone. -/
lemma copyfile_error (h : d.contents src = none ∨ d.writable dst = false) :
    ∃ e, copyfile src dst d = (.error e, d) := by
  cases hsrc : d.contents src with
  | none => exact ⟨_, Proc.bind_of_error (read_of_none hsrc)⟩
  | some data =>
    refine ⟨.notWritable dst, ?_⟩
    rw [copyfile, Proc.bind_of_ok (read_of_some hsrc)]
    rcases h with hnone | hdst
    · rw [hsrc] at hnone
      cases hnone
    · exact write_of_not_writable hdst

/-! ## The other files -/

/-- The files with other paths are as they were. -/
def SameOutside (paths : List P) (d₀ d : Disk P) : Prop :=
  ∀ path, path ∉ paths → d.contents path = d₀.contents path

section SameOutside

variable {ε : Type} {paths : List P} {d₀ : Disk P}

/-- Putting a file changes no other. -/
lemma SameOutside.put (h : SameOutside paths d₀ d) (hpath : path ∈ paths)
    (file : Option (List UInt8)) : SameOutside paths d₀ (d.put path file) := by
  intro path' hpath'
  have hne : path' ≠ path := by
    rintro rfl
    exact hpath' hpath
  rw [put_contents_of_ne hne]
  exact h path' hpath'

omit [DecidableEq P] in
/-- Reading changes no file. -/
lemma keeps_read : Proc.Keeps (SameOutside paths d₀) (read path) := by
  intro d h
  cases hfile : d.contents path with
  | none => rwa [read_of_none hfile]
  | some data => rwa [read_of_some hfile]

/-- Writing changes the file that is written. -/
lemma keeps_write (hpath : path ∈ paths) :
    Proc.Keeps (SameOutside paths d₀) (write path data) := by
  intro d h
  cases hwritable : d.writable path with
  | false => rwa [write_of_not_writable hwritable]
  | true =>
    rw [write_of_writable hwritable]
    exact h.put hpath _

/-- Renaming changes the two files. -/
lemma keeps_rename (hsrc : src ∈ paths) (hdst : dst ∈ paths) :
    Proc.Keeps (SameOutside paths d₀) (rename src dst) :=
  keeps_read.bind fun _ => fun _ h => (h.put hsrc _).put hdst _

/-- Copying changes the copy. -/
lemma keeps_copyfile (hdst : dst ∈ paths) :
    Proc.Keeps (SameOutside paths d₀) (copyfile src dst) :=
  keeps_read.bind fun _ => keeps_write hdst

end SameOutside

end Disk

end Uvk5
