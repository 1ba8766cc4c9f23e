import Uvk5.Slots.Apps

set_option relaxedAutoImplicit false
set_option autoImplicit false

/-!
# The slots of a flash image as a store

Five firmware slots, sixteen app slots and two state records share one flash image. An edit writes
inside the region of what it is about, if it does not raise, so that each slot holds what the last
edit of it that succeeded left there.

## Main definitions

* `Slots.Op`, `Slots.Op.call` — the edits, and what a call of one does.
* `Slots.Target.Region` — the bytes that belong to a slot or to the state records.
* `Slots.lastSuccess` — the last edit of a slot in a sequence that succeeded.

## Main results

* `Slots.Op.call_cases` — an edit lays down its bytes, or changes nothing.
* `Slots.slotStore_law` — the laws of the store.
-/

namespace Uvk5.Slots

open Bytes

/-- What an edit is about. -/
inductive Target where
  /-- A firmware slot. -/
  | firmware (slot : ℤ)
  /-- An app slot. -/
  | app (slot : ℤ)
  /-- The state records. -/
  | state
  deriving DecidableEq

/-- The edits. -/
inductive Op where
  /-- `uvk5_slots.write_slot`. -/
  | writeSlot (slot : ℤ) (image : List UInt8) (name fwVersion : String)
  /-- `uvk5_slots.erase_slot`. -/
  | eraseSlot (slot : ℤ)
  /-- `uvk5_slots.erase_state`. -/
  | eraseState
  /-- `uvk5_apps.install`. -/
  | install (slot : ℤ) (blob : List UInt8) (force : Bool)
  /-- `uvk5_apps.erase`. -/
  | erase (slot : ℤ)
  deriving DecidableEq

/-- What an edit is about. -/
def Op.target : Op → Target
  | .writeSlot slot .. => .firmware slot
  | .eraseSlot slot => .firmware slot
  | .eraseState => .state
  | .install slot .. => .app slot
  | .erase slot => .app slot

/-- Whether a procedure returned, and the flash image it left. -/
def outcome {ε α : Type} (p : Proc (List UInt8) ε α) (flash : List UInt8) : Bool × List UInt8 :=
  ((p flash).1.isOk, (p flash).2)

/-- A call of an edit: whether it returned, and the flash image it left. -/
def Op.call : Op → List UInt8 → Bool × List UInt8
  | .writeSlot slot image name fwVersion => outcome (Slots.writeSlot slot image name fwVersion)
  | .eraseSlot slot => outcome (Slots.eraseSlot slot)
  | .eraseState => outcome Slots.eraseState
  | .install slot blob force => outcome (Apps.install slot blob force)
  | .erase slot => outcome (Apps.erase slot)

/-- The flash image after some calls, whether they returned or raised. -/
def run (flash : List UInt8) (ops : List Op) : List UInt8 :=
  ops.foldl (fun flash op => (op.call flash).2) flash

/-- The first operation is called before the others. -/
@[simp] lemma run_cons (flash : List UInt8) (op : Op) (ops : List Op) :
    run flash (op :: ops) = run (op.call flash).2 ops := rfl

/-- The last edit of a slot that succeeded. -/
def lastSuccess (t : Target) : List UInt8 → List Op → Option Op
  | _, [] => none
  | flash, op :: ops =>
    (lastSuccess t (op.call flash).2 ops).or
      (if op.target = t ∧ (op.call flash).1 = true then some op else none)

/-- The bytes that belong to a slot or to the state records. -/
def Target.Region : Target → ℕ → Prop
  | .firmware slot, i => ∃ base, slotBase slot = some base ∧ base ≤ i ∧ i < base + slotStride
  | .app slot, i => ∃ base, Apps.slotBase slot = some base ∧ base ≤ i ∧ i < base + Apps.slotStride
  | .state, i => (stateABase ≤ i ∧ i < stateABase + stateSize) ∨
      (stateBBase ≤ i ∧ i < stateBBase + stateSize)

/-- What `uvk5_slots.read_slot` reports of a slot after an edit of it. -/
def firmwareReport : Op → Option (SlotHeader × List UInt8)
  | .writeSlot slot image name fwVersion =>
    (slotBase slot).map fun base => (writtenHeader slot base image name fwVersion, image)
  | _ => none

/-- What `uvk5_apps.read_slot` reports of a slot after an edit of it. -/
def appReport : Op → Option Apps.SlotInfo
  | .install slot blob _ =>
    (Apps.slotBase slot).map fun base => .app slot base (Apps.headerInfo blob)
  | _ => none

/-! ## Regions -/

/-- Where the targets of each kind lie. -/
lemma Target.Region.zone {t : Target} {i : ℕ} (h : t.Region i) :
    match t with
    | .firmware _ => 0x20000 ≤ i ∧ i < 0xC0000
    | .state => 0x100000 ≤ i ∧ i < 0x102000
    | .app _ => 0x102000 ≤ i ∧ i < 0x122000 := by
  cases t with
  | firmware slot =>
    obtain ⟨base, hbase, hlow, hhigh⟩ := h
    have hbounds := slotBase_bounds hbase
    dsimp only
    omega
  | app slot =>
    obtain ⟨base, hbase, hlow, hhigh⟩ := h
    have hbounds := Apps.slotBase_bounds hbase
    dsimp only
    omega
  | state =>
    simp only [Region, stateABase, stateBBase, stateSize] at h
    dsimp only
    omega

/-- The regions lie inside a flash image, behind the calibration. -/
lemma Target.Region.bounds {t : Target} {i : ℕ} (h : t.Region i) : 0x20000 ≤ i ∧ i < flashSize := by
  have hzone := h.zone
  rw [flashSize]
  cases t <;> dsimp only at hzone <;> omega

/-- **The regions of different targets are disjoint.** -/
theorem Target.Region.unique {t t' : Target} {i : ℕ} (h : t.Region i) (h' : t'.Region i) :
    t = t' := by
  have hzone := h.zone
  have hzone' := h'.zone
  cases t with
  | firmware slot =>
    cases t' with
    | firmware slot' =>
      obtain ⟨base, hbase, hlow, hhigh⟩ := h
      obtain ⟨base', hbase', hlow', hhigh'⟩ := h'
      obtain ⟨h0, -, rfl⟩ := slotBase_eq_some hbase
      obtain ⟨h0', -, rfl⟩ := slotBase_eq_some hbase'
      simp only [slotBackupBase, slotStride] at hlow hhigh hlow' hhigh'
      exact congrArg Target.firmware (by omega)
    | app slot' => dsimp only at hzone hzone'; omega
    | state => dsimp only at hzone hzone'; omega
  | app slot =>
    cases t' with
    | firmware slot' => dsimp only at hzone hzone'; omega
    | app slot' =>
      obtain ⟨base, hbase, hlow, hhigh⟩ := h
      obtain ⟨base', hbase', hlow', hhigh'⟩ := h'
      obtain ⟨h0, -, rfl⟩ := Apps.slotBase_eq_some hbase
      obtain ⟨h0', -, rfl⟩ := Apps.slotBase_eq_some hbase'
      simp only [Apps.regionBase, Apps.slotStride] at hlow hhigh hlow' hhigh'
      exact congrArg Target.app (by omega)
    | state => dsimp only at hzone hzone'; omega
  | state =>
    cases t' with
    | firmware slot' => dsimp only at hzone hzone'; omega
    | app slot' => dsimp only at hzone hzone'; omega
    | state => rfl

/-! ## What an edit writes -/

/-- What an edit lays down when it succeeds. -/
def Op.patch : Op → ℕ → Option UInt8
  | .writeSlot slot image name fwVersion =>
    match slotBase slot, buildHeader image name fwVersion with
    | some base, some header => written base header image
    | _, _ => fun _ => none
  | .eraseSlot slot =>
    match slotBase slot with
    | some base => erased base
    | none => fun _ => none
  | .eraseState => stateErased
  | .install slot blob _ =>
    match Apps.parse blob true, Apps.slotBase slot with
    | .ok _, some base => Apps.installed base blob
    | _, _ => fun _ => none
  | .erase slot =>
    match Apps.slotBase slot with
    | some base => Apps.erased base
    | none => fun _ => none

/-- The edit succeeds on the flash image. -/
def Op.Accepts : Op → List UInt8 → Prop
  | .writeSlot slot image name fwVersion, _ =>
    ∃ base header, slotBase slot = some base ∧ buildHeader image name fwVersion = some header
  | .eraseSlot slot, _ => ∃ base, slotBase slot = some base
  | .eraseState, _ => True
  | .install slot blob force, flash =>
    ∃ info base, Apps.parse blob true = .ok info ∧ Apps.slotBase slot = some base ∧
      (Apps.checkOccupied slot base force flash).1 = .ok ()
  | .erase slot, _ => ∃ base, Apps.slotBase slot = some base

/-- An edit of a slot that does not exist changes nothing. -/
lemma outcome_getOrRaise_none {ε α β : Type} {e : ε} {o : Option β} {f : β → Proc (List UInt8) ε α}
    (flash : List UInt8) (h : o = none) :
    outcome (Proc.getOrRaise e o >>= f) flash = (false, flash) := by
  subst h
  rfl

/-- **An edit lays down its bytes, or changes nothing.**

**Proof sketch.** One case an edit, from what each is known to write; an edit that raises does so
before its first write. -/
theorem Op.call_cases (op : Op) {flash : List UInt8} (hflash : flashSize ≤ flash.length) :
    (op.Accepts flash ∧ op.call flash = (true, overlay op.patch flash)) ∨
      (¬ op.Accepts flash ∧ op.call flash = (false, flash)) := by
  cases op with
  | writeSlot slot image name fwVersion =>
    rw [Op.call, Op.patch]
    cases hbase : slotBase slot with
    | none =>
      refine .inr ⟨?_, outcome_getOrRaise_none flash hbase⟩
      rintro ⟨base, header, hbase', -⟩
      rw [hbase] at hbase'
      cases hbase'
    | some base =>
      cases hheader : buildHeader image name fwVersion with
      | none =>
        refine .inr ⟨?_, ?_⟩
        · rintro ⟨base, header, -, hheader'⟩
          rw [hheader] at hheader'
          cases hheader'
        · rw [outcome, Slots.writeSlot, Proc.bind_of_ok (Proc.getOrRaise_eq_ok.mpr ⟨hbase, rfl⟩)]
          exact outcome_getOrRaise_none flash hheader
      | some header =>
        refine .inl ⟨⟨base, header, hbase, hheader⟩, ?_⟩
        rw [outcome, writeSlot_eq hbase hheader (state_le_of_flashSize hflash)]
        rfl
  | eraseSlot slot =>
    rw [Op.call, Op.patch]
    cases hbase : slotBase slot with
    | none =>
      refine .inr ⟨?_, outcome_getOrRaise_none flash hbase⟩
      rintro ⟨base, hbase'⟩
      rw [hbase] at hbase'
      cases hbase'
    | some base =>
      refine .inl ⟨⟨base, hbase⟩, ?_⟩
      rw [outcome, eraseSlot_eq hbase (state_le_of_flashSize hflash)]
      rfl
  | eraseState =>
    refine .inl ⟨trivial, ?_⟩
    rw [Op.call, outcome, eraseState_eq (state_le_of_flashSize hflash)]
    rfl
  | install slot blob force =>
    rw [Op.call, outcome]
    by_cases haccepts : (Op.install slot blob force).Accepts flash
    · obtain ⟨info, base, hparse, hbase, hfree⟩ := id haccepts
      have hbounds := Apps.slotBase_bounds hbase
      have hroom : base + Apps.slotStride ≤ flash.length := by
        rw [flashSize] at hflash
        omega
      refine .inl ⟨haccepts, ?_⟩
      rw [Apps.install_eq hparse hbase hroom hfree, Op.patch, hparse, hbase]
      rfl
    · refine .inr ⟨haccepts, ?_⟩
      have hrefused : ∃ e, Apps.install slot blob force flash = (.error e, flash) :=
        Apps.install_refused fun info base hparse hbase _ hfree =>
          haccepts ⟨info, base, hparse, hbase, hfree⟩
      obtain ⟨e, he⟩ := hrefused
      rw [he]
      rfl
  | erase slot =>
    rw [Op.call, Op.patch]
    cases hbase : Apps.slotBase slot with
    | none =>
      refine .inr ⟨?_, outcome_getOrRaise_none flash hbase⟩
      rintro ⟨base, hbase'⟩
      rw [hbase] at hbase'
      cases hbase'
    | some base =>
      have hbounds := Apps.slotBase_bounds hbase
      rw [flashSize] at hflash
      refine .inl ⟨⟨base, hbase⟩, ?_⟩
      rw [outcome, Apps.erase_eq hbase (by omega)]
      rfl

/-- Whether an edit succeeds depends on the bytes of its own region. -/
lemma Op.accepts_congr (op : Op) {flash flash' : List UInt8} (hlen : flash.length = flash'.length)
    (hsame : ∀ i, op.target.Region i → flash[i]? = flash'[i]?) :
    op.Accepts flash ↔ op.Accepts flash' := by
  cases op with
  | writeSlot slot image name fwVersion => exact Iff.rfl
  | eraseSlot slot => exact Iff.rfl
  | eraseState => exact Iff.rfl
  | erase slot => exact Iff.rfl
  | install slot blob force =>
    refine exists_congr fun info => exists_congr fun base =>
      and_congr_right fun _ => and_congr_right fun hbase => ?_
    have hslice : slice flash base (base + Apps.slotStride) =
        slice flash' base (base + Apps.slotStride) :=
      slice_congr fun i hlow hhigh => hsame i ⟨base, hbase, hlow, hhigh⟩
    rw [Apps.checkOccupied_congr hbase hlen hslice]

/-- An edit writes inside its region.

**Proof sketch.** By the operation. Each writes a header and an image, or one block of erased
bytes, from the beginning of its region, and these are no longer than the region. -/
lemma Op.patch_eq_none {op : Op} {i : ℕ} (h : ¬ op.target.Region i) : op.patch i = none := by
  cases op with
  | writeSlot slot image name fwVersion =>
    rw [Op.patch]
    cases hbase : slotBase slot with
    | none => rfl
    | some base =>
      cases hheader : buildHeader image name fwVersion with
      | none => rfl
      | some header =>
        have hsize := length_buildHeader hheader
        have himage := length_of_buildHeader hheader
        have hout : i < base ∨ base + slotStride ≤ i := by
          by_contra hin
          exact h ⟨base, hbase, by omega, by omega⟩
        dsimp only
        rw [written, placed_eq_none_iff.mpr, placed_eq_none_iff.mpr]
        · rfl
        · simp only [slotStride] at hout
          omega
        · simp only [slotStride, slotImageOffset] at *
          omega
  | eraseSlot slot =>
    rw [Op.patch]
    cases hbase : slotBase slot with
    | none => rfl
    | some base =>
      refine placed_eq_none_iff.mpr ?_
      rw [List.length_replicate]
      by_contra hin
      exact h ⟨base, hbase, by omega, by omega⟩
  | eraseState =>
    simp only [Op.target, Target.Region] at h
    rw [Op.patch, stateErased, placed_eq_none_iff.mpr, placed_eq_none_iff.mpr]
    · rfl
    · rw [List.length_replicate]
      omega
    · rw [List.length_replicate]
      omega
  | install slot blob force =>
    rw [Op.patch]
    cases hparse : Apps.parse blob true with
    | error e => rfl
    | ok info =>
      cases hbase : Apps.slotBase slot with
      | none => rfl
      | some base =>
        obtain ⟨rfl, -, hcode, -⟩ := Apps.parse_strict hparse
        refine Apps.installed_eq_none hcode ?_
        by_contra hin
        exact h ⟨base, hbase, by omega, by omega⟩
  | erase slot =>
    rw [Op.patch]
    cases hbase : Apps.slotBase slot with
    | none => rfl
    | some base =>
      refine placed_eq_none_iff.mpr ?_
      rw [List.length_replicate]
      by_contra hin
      exact h ⟨base, hbase, by omega, by omega⟩

/-! ## Sequences of calls -/

/-- A call that is accepted writes its patch. -/
lemma Op.call_of_accepts {op : Op} {flash : List UInt8} (hflash : flashSize ≤ flash.length)
    (h : op.Accepts flash) : op.call flash = (true, overlay op.patch flash) := by
  rcases op.call_cases hflash with ⟨-, hcall⟩ | ⟨hrefused, -⟩
  · exact hcall
  · exact absurd h hrefused

/-- A call that is refused changes nothing. -/
lemma Op.call_of_refuses {op : Op} {flash : List UInt8} (hflash : flashSize ≤ flash.length)
    (h : ¬ op.Accepts flash) : op.call flash = (false, flash) := by
  rcases op.call_cases hflash with ⟨haccepts, -⟩ | ⟨-, hcall⟩
  · exact absurd haccepts h
  · exact hcall

/-- Where an edit writes nothing the flash image is as it was. -/
lemma Op.call_frame (op : Op) {flash : List UInt8} (hflash : flashSize ≤ flash.length) {i : ℕ}
    (h : ¬ op.target.Region i) : (op.call flash).2[i]? = flash[i]? := by
  rcases op.call_cases hflash with ⟨-, hcall⟩ | ⟨-, hcall⟩
  · rw [hcall]
    exact getElem?_overlay_of_none flash (Op.patch_eq_none h)
  · rw [hcall]

/-- An edit keeps the length of the flash image. -/
lemma Op.length_call (op : Op) {flash : List UInt8} (hflash : flashSize ≤ flash.length) :
    (op.call flash).2.length = flash.length := by
  rcases op.call_cases hflash with ⟨-, hcall⟩ | ⟨-, hcall⟩
  · rw [hcall, length_overlay]
  · rw [hcall]

/-- Edits of different targets write nowhere both. -/
lemma Op.patch_disjoint {op op' : Op} (h : op.target ≠ op'.target) (i : ℕ) :
    op'.patch i = none ∨ op.patch i = none := by
  by_cases hi : op'.target.Region i
  · exact .inr (Op.patch_eq_none fun hi' => h (hi'.unique hi))
  · exact .inl (Op.patch_eq_none hi)

/-- An edit succeeds, or not, whatever was done to another slot before. -/
lemma Op.accepts_call {op op' : Op} (h : op.target ≠ op'.target) {flash : List UInt8}
    (hflash : flashSize ≤ flash.length) : op'.Accepts (op.call flash).2 ↔ op'.Accepts flash :=
  op'.accepts_congr (op.length_call hflash) fun _ hi =>
    op.call_frame hflash fun hi' => h (hi'.unique hi)

/-- **Edits of different targets commute.**

**Proof sketch.** Each succeeds after the other exactly when it does before it, and what the two lay
down is nowhere both defined. -/
theorem Op.call_comm {op op' : Op} (h : op.target ≠ op'.target) {flash : List UInt8}
    (hflash : flashSize ≤ flash.length) :
    (op'.call (op.call flash).2).2 = (op.call (op'.call flash).2).2 := by
  have hlen : flashSize ≤ (op.call flash).2.length := by rwa [op.length_call hflash]
  have hlen' : flashSize ≤ (op'.call flash).2.length := by rwa [op'.length_call hflash]
  have hafter := Op.accepts_call h hflash
  have hafter' := Op.accepts_call (Ne.symm h) hflash
  by_cases ha : op.Accepts flash
  · by_cases hb : op'.Accepts flash
    · rw [Op.call_of_accepts hlen (hafter.mpr hb), Op.call_of_accepts hlen' (hafter'.mpr ha),
        Op.call_of_accepts hflash ha, Op.call_of_accepts hflash hb]
      exact overlay_comm (Op.patch_disjoint h) flash
    · rw [Op.call_of_refuses hlen (mt hafter.mp hb), Op.call_of_refuses hflash hb]
  · rw [Op.call_of_refuses hlen' (mt hafter'.mp ha), Op.call_of_refuses hflash ha]

/-- A sequence of calls keeps the length. -/
lemma length_run (ops : List Op) {flash : List UInt8} (hflash : flashSize ≤ flash.length) :
    (run flash ops).length = flash.length := by
  induction ops generalizing flash with
  | nil => rfl
  | cons op ops ih =>
    have hlen := op.length_call hflash
    exact (ih (by rwa [hlen])).trans hlen

/-- A sequence of calls writes inside the regions of its edits. -/
lemma run_frame (ops : List Op) {flash : List UInt8} (hflash : flashSize ≤ flash.length) {i : ℕ}
    (h : ∀ op ∈ ops, ¬ op.target.Region i) : (run flash ops)[i]? = flash[i]? := by
  induction ops generalizing flash with
  | nil => rfl
  | cons op ops ih =>
    have hlen := op.length_call hflash
    exact (ih (by rwa [hlen]) fun op' hop' => h op' (List.mem_cons_of_mem op hop')).trans
      (op.call_frame hflash (h op (List.mem_cons_self ..)))

/-- What an edit left stays as long as no other edit of its target succeeds. -/
lemma carries_run {op : Op} (ops : List Op) {flash : List UInt8}
    (hflash : flashSize ≤ flash.length) (h : Carries flash op.patch)
    (hnone : lastSuccess op.target flash ops = none) : Carries (run flash ops) op.patch := by
  induction ops generalizing flash with
  | nil => exact h
  | cons op' ops ih =>
    obtain ⟨hrest, hfirst⟩ := Option.or_eq_none_iff.mp hnone
    have hlen := op'.length_call hflash
    rw [run_cons]
    refine ih (by rwa [hlen]) ?_ hrest
    rcases op'.call_cases hflash with ⟨-, hcall⟩ | ⟨-, hcall⟩
    · rw [hcall] at hfirst ⊢
      have hne : op'.target ≠ op.target := by
        intro heq
        rw [if_pos ⟨heq, rfl⟩] at hfirst
        cases hfirst
      exact h.overlay (Op.patch_disjoint (Ne.symm hne))
    · rw [hcall]
      exact h

/-- **The last edit of a slot that succeeded** is one that some flash image accepts, and what it
laid down is still there.

**Proof sketch.** Induction on the calls: if a later call of the rest is the last, the hypothesis
covers it; else it is the first call, and nothing after it succeeds on its target. -/
theorem carries_of_lastSuccess {t : Target} {op : Op} (ops : List Op) {flash : List UInt8}
    (hflash : flashSize ≤ flash.length) (h : lastSuccess t flash ops = some op) :
    op.target = t ∧ (∃ flash', op.Accepts flash') ∧ Carries (run flash ops) op.patch := by
  induction ops generalizing flash with
  | nil => cases h
  | cons op' ops ih =>
    have hlen := op'.length_call hflash
    rw [lastSuccess] at h
    rw [run_cons]
    cases hrest : lastSuccess t (op'.call flash).2 ops with
    | some last =>
      rw [hrest, Option.some_or] at h
      obtain rfl := Option.some.inj h
      exact ih (by rwa [hlen]) hrest
    | none =>
      rw [hrest, Option.none_or] at h
      split at h
      · next hsuccess =>
        obtain rfl := Option.some.inj h
        obtain ⟨htarget, hok⟩ := hsuccess
        rcases op'.call_cases hflash with ⟨haccepts, hcall⟩ | ⟨-, hcall⟩
        · refine ⟨htarget, ⟨flash, haccepts⟩, carries_run ops (by rwa [hlen]) ?_ (by rwa [htarget])⟩
          rw [hcall]
          refine carries_overlay fun i hi => ?_
          by_contra hout
          refine hi (Op.patch_eq_none fun hregion => ?_)
          have hbounds := hregion.bounds
          omega
        · rw [hcall] at hok
          cases hok
      · cases h

/-- **What `uvk5_slots.read_slot` reports** is determined by the last edit that succeeded. -/
theorem readSlot_of_lastSuccess {slot : ℤ} {op : Op} {ops : List Op} {flash : List UInt8}
    (hflash : flashSize ≤ flash.length) (h : lastSuccess (.firmware slot) flash ops = some op) :
    readSlot (run flash ops) slot = .ok (firmwareReport op) := by
  obtain ⟨htarget, ⟨flash', haccepts⟩, hcarries⟩ := carries_of_lastSuccess ops hflash h
  have hlen : flashSize ≤ (run flash ops).length := by rwa [length_run ops hflash]
  cases op with
  | writeSlot slot' image name fwVersion =>
    obtain rfl := Target.firmware.inj htarget
    obtain ⟨base, header, hbase, hheader⟩ := haccepts
    rw [Op.patch, hbase, hheader] at hcarries
    rw [firmwareReport, hbase]
    exact readSlot_of_written hbase hheader hlen hcarries
  | eraseSlot slot' =>
    obtain rfl := Target.firmware.inj htarget
    obtain ⟨base, hbase⟩ := haccepts
    rw [Op.patch, hbase] at hcarries
    exact readSlot_of_erased hbase hlen hcarries
  | eraseState => cases htarget
  | install slot' blob force => cases htarget
  | erase slot' => cases htarget

/-- **What `uvk5_apps.read_slot` reports** is determined by the last edit that succeeded. -/
theorem appsReadSlot_of_lastSuccess {slot : ℤ} {op : Op} {ops : List Op} {flash : List UInt8}
    (hflash : flashSize ≤ flash.length) (h : lastSuccess (.app slot) flash ops = some op) :
    Apps.readSlot (run flash ops) slot = .ok (appReport op) := by
  obtain ⟨htarget, ⟨flash', haccepts⟩, hcarries⟩ := carries_of_lastSuccess ops hflash h
  have hroom : ∀ {base}, Apps.slotBase slot = some base →
      base + Apps.slotStride ≤ (run flash ops).length := by
    intro base hbase
    have hbounds := Apps.slotBase_bounds hbase
    rw [length_run ops hflash]
    rw [flashSize] at hflash
    omega
  cases op with
  | install slot' blob force =>
    obtain rfl := Target.app.inj htarget
    obtain ⟨info, base, hparse, hbase, -⟩ := haccepts
    rw [Op.patch, hparse, hbase] at hcarries
    obtain ⟨rfl, -⟩ := Apps.parse_strict hparse
    rw [appReport, hbase]
    exact Apps.readSlot_of_installed hparse hbase (hroom hbase) hcarries
  | erase slot' =>
    obtain rfl := Target.app.inj htarget
    obtain ⟨base, hbase⟩ := haccepts
    rw [Op.patch, hbase] at hcarries
    exact Apps.readSlot_of_erased hbase (hroom hbase) hcarries
  | eraseState => cases htarget
  | writeSlot slot' image name fwVersion => cases htarget
  | eraseSlot slot' => cases htarget

/-- A call that succeeded and was not followed by another of its target is the last that did. -/
lemma lastSuccess_append {op : Op} {before after : List Op} {flash : List UInt8}
    (hok : (op.call (run flash before)).1 = true) (h : ∀ op' ∈ after, op'.target ≠ op.target) :
    lastSuccess op.target flash (before ++ op :: after) = some op := by
  have hnone : ∀ (ops : List Op) (flash : List UInt8), (∀ op' ∈ ops, op'.target ≠ op.target) →
      lastSuccess op.target flash ops = none := by
    intro ops
    induction ops with
    | nil => exact fun _ _ => rfl
    | cons op' ops ih =>
      intro flash hops
      rw [lastSuccess, ih _ fun op'' hop => hops op'' (List.mem_cons_of_mem op' hop),
        if_neg fun hp => hops op' (List.mem_cons_self ..) hp.1, Option.none_or]
  induction before generalizing flash with
  | nil => rw [List.nil_append, lastSuccess, hnone _ _ h, Option.none_or, if_pos ⟨rfl, hok⟩]
  | cons op' before ih => rw [List.cons_append, lastSuccess, ih hok, Option.some_or]

/-- **The laws of the store.** On every flash image of at least 2 MiB, for every sequence of edits,
each of which succeeds or raises: the length is kept; what a module's `read_slot` reports of a slot
is determined by the last edit of it that succeeded; edits of different targets commute; bytes
outside the regions of the edits, and so everything below the first slot, are unchanged; and a
firmware that was written, and whose slot was left alone since, is read back whole.

**Proof sketch.** `call_cases` says that an edit is an overlay inside its region or nothing, and the
regions are disjoint. The reports follow from `carries_of_lastSuccess`, the last law from that of
the reports. -/
theorem slotStore_law (flash : List UInt8) (hflash : 0x200000 ≤ flash.length) (ops : List Op) :
    (run flash ops).length = flash.length ∧
    (∀ slot op, lastSuccess (.firmware slot) flash ops = some op →
      readSlot (run flash ops) slot = .ok (firmwareReport op)) ∧
    (∀ slot op, lastSuccess (.app slot) flash ops = some op →
      Apps.readSlot (run flash ops) slot = .ok (appReport op)) ∧
    (∀ op op' : Op, op.target ≠ op'.target → run flash [op, op'] = run flash [op', op]) ∧
    (∀ i, (∀ op ∈ ops, ¬ op.target.Region i) → (run flash ops)[i]? = flash[i]?) ∧
    (∀ i < 0x20000, (run flash ops)[i]? = flash[i]?) ∧
    ∀ before slot image name fwVersion after,
      ops = before ++ .writeSlot slot image name fwVersion :: after →
      ((Op.writeSlot slot image name fwVersion).call (run flash before)).1 = true →
      (∀ op ∈ after, op.target ≠ .firmware slot) →
      image.length ≤ 0x1F000 → Fits name → Fits fwVersion →
      ∃ header, readSlot (run flash ops) slot = .ok (some (header, image)) ∧
        header.name = name ∧ header.fwVersion = fwVersion ∧ header.imageSize = image.length ∧
        header.crcOk = true := by
  refine ⟨length_run ops hflash, fun slot op => readSlot_of_lastSuccess hflash,
    fun slot op => appsReadSlot_of_lastSuccess hflash, fun op op' h => Op.call_comm h hflash,
    fun i => run_frame ops hflash, fun i hi => run_frame ops hflash fun op _ hregion => ?_, ?_⟩
  · have hbounds := hregion.bounds
    omega
  · rintro before slot image name fwVersion after rfl hok hafter - hname hversion
    have hread := readSlot_of_lastSuccess hflash (lastSuccess_append hok hafter)
    have hlen : flashSize ≤ (run flash before).length := by rwa [length_run before hflash]
    rcases (Op.writeSlot slot image name fwVersion).call_cases hlen with ⟨haccepts, -⟩ | ⟨-, hcall⟩
    · obtain ⟨base, header, hbase, -⟩ := haccepts
      rw [firmwareReport, hbase] at hread
      exact ⟨writtenHeader slot base image name fwVersion, hread, fieldText_textField hname,
        fieldText_textField hversion, rfl, rfl⟩
    · rw [hcall] at hok
      cases hok

/-- On an erased flash image: a firmware written to slot 1, an app slot erased and slot 2 erased
after it. -/
theorem slotStore_law_erased :
    (Op.writeSlot 1 [0xde, 0xad] "fw" "1.0").call (List.replicate 0x200000 0xff) =
      (true, overlay (Op.writeSlot 1 [0xde, 0xad] "fw" "1.0").patch
        (List.replicate 0x200000 0xff)) ∧
    ∃ header, readSlot (run (List.replicate 0x200000 0xff)
        [.writeSlot 1 [0xde, 0xad] "fw" "1.0", .erase 3, .eraseSlot 2]) 1 =
          .ok (some (header, [0xde, 0xad])) ∧
      header.name = "fw" := by
  have hlen : flashSize ≤ (List.replicate 0x200000 (0xff : UInt8)).length := by
    rw [List.length_replicate]
    exact Nat.le_refl _
  have haccepts : (Op.writeSlot 1 [0xde, 0xad] "fw" "1.0").Accepts (List.replicate 0x200000 0xff) :=
    ⟨_, _, rfl, rfl⟩
  have hcall := Op.call_of_accepts hlen haccepts
  refine ⟨hcall, ?_⟩
  obtain ⟨-, -, -, -, -, -, hround⟩ := slotStore_law _ hlen
    [.writeSlot 1 [0xde, 0xad] "fw" "1.0", .erase 3, .eraseSlot 2]
  obtain ⟨header, hread, hname, -⟩ := hround [] 1 [0xde, 0xad] "fw" "1.0" [.erase 3, .eraseSlot 2]
    rfl (congrArg Prod.fst hcall) (by decide) (by decide) (.of_all (by decide) (by decide))
    (.of_all (by decide) (by decide))
  exact ⟨header, hread, hname⟩

end Uvk5.Slots
