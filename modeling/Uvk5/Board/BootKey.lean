import Uvk5.Board.Keypad
import Uvk5.Lib.Text

set_option relaxedAutoImplicit false
set_option autoImplicit false

/-!
# What the keypad holds (`qemu/py32f071.c`)

The property `press` holds one key of the matrix at most, and `ptt` the transmit key. A boot key is
a list of names that are held from reset until a timer runs out.

## Main definitions

* `Keypad.Held`, `Keypad.Holds` — one key and the transmit key, and a board that holds them.
* `Keypad.Board.armBootKey`, `Keypad.Board.releaseBootKey` — the boot key.

## Main results

* `Keypad.Holds.press`, `Keypad.Holds.setPtt` — what the properties hold.
* `Keypad.holds_armBootKey` — what a boot key holds: its last key, and the transmit key if it is
  named anywhere.
* `Keypad.holds_releaseBootKey` — nothing is held once it is let go.
-/

namespace Uvk5.Keypad

/-! ## One key -/

/-- The column and the row of a key. -/
def coordinate (name : String) : Option (Fin 5 × Fin 4) :=
  (indexForName name).bind fun index =>
    if h : index / 4 < 5 then some (⟨index / 4, h⟩, ⟨index % 4, Nat.mod_lt _ (by decide)⟩) else none

/-- A key of the matrix at most, and the transmit key. -/
structure Held where
  /-- The key of the matrix. -/
  key : Option (Fin 5 × Fin 4)
  /-- The transmit key is held. -/
  ptt : Bool
  deriving DecidableEq

/-- Nothing is held. -/
def Held.none : Held := ⟨.none, false⟩

/-- The property `press` is written. -/
def Held.press (h : Held) (name : String) : Held :=
  if name = "" then { h with key := .none } else { h with key := (coordinate name).or h.key }

/-- The board holds these. -/
structure Holds (b : Board) (h : Held) : Prop where
  pressed : ∀ c r, b.keypad.pressed c r = true ↔ h.key = some (c, r)
  ptt : b.keypad.ptt = h.ptt

/-- A name is that of a key in one of five columns. -/
lemma indexForName_lt {name : String} {index : ℕ} (h : indexForName name = some index) :
    index / 4 < 5 := by
  have hlt : index < keyNames.length := (List.findIdx?_eq_some_iff_findIdx_eq.mp h).1
  have hlength : keyNames.length = 20 := rfl
  omega

/-- The column and the row of a key from its number. -/
lemma coordinate_of_index {name : String} {index : ℕ} (h : indexForName name = some index) :
    coordinate name =
      some (⟨index / 4, indexForName_lt h⟩, ⟨index % 4, Nat.mod_lt _ (by decide)⟩) := by
  rw [coordinate, h, Option.bind_some, dif_pos (indexForName_lt h)]

section Holds

variable {b : Board} {h : Held}

/-- **The property `press`** holds the key it names, and nothing if it names none. -/
theorem Holds.press (hb : Holds b h) (name : String) :
    Holds (b.setPress name).2 (h.press name) := by
  rw [Board.setPress, Held.press]
  split
  · exact ⟨fun c r => by simp [Board.hold], hb.ptt⟩
  · cases hindex : indexForName name with
    | none =>
      rw [coordinate, hindex]
      exact hb
    | some index =>
      rw [coordinate_of_index hindex, Option.some_or]
      refine ⟨fun c r => ?_, hb.ptt⟩
      change decide (c.val = index / 4 ∧ r.val = index % 4) = true ↔ _
      rw [decide_eq_true_iff, Option.some.injEq, Prod.mk.injEq, Fin.ext_iff, Fin.ext_iff]
      exact and_congr eq_comm eq_comm

/-- **The property `ptt`.** -/
theorem Holds.setPtt (hb : Holds b h) (value : Bool) :
    Holds (b.setPtt value) { h with ptt := value } :=
  ⟨hb.pressed, rfl⟩

/-- A line of the port leaves what is held. -/
lemma Holds.pinOut (hb : Holds b h) (i : Fin 16) (level : Bool) : Holds (b.pinOut i level) h := by
  rw [Board.pinOut]
  split
  · next c hc =>
    rw [colChanged_of_mem b level ((columnAt_eq_some i c).mp hc).1]
    exact ⟨hb.pressed, hb.ptt⟩
  · exact hb

/-- A line of the port that may have changed leaves what is held. -/
lemma Holds.notify (hb : Holds b h) (changed : UInt32) (i : Fin 16) :
    Holds (b.notify changed i) h := by
  rw [Board.notify]
  split
  · exact hb.pinOut _ _
  · exact hb

/-- **A register write** lets nothing go and holds nothing. -/
lemma Holds.write (hb : Holds b h) (addr : ℕ) (value : UInt32) : Holds (b.write addr value) h := by
  rw [Board.write]
  split
  · exact Run.foldl_of_step (I := (Holds · h)) (fun _ i hb => hb.notify _ i) _ ⟨hb.pressed, hb.ptt⟩
  · exact ⟨hb.pressed, hb.ptt⟩

/-- After a reset nothing is held. -/
lemma holds_reset (b : Board) (gpioFirst : Bool) : Holds (b.reset gpioFirst) .none := by
  cases gpioFirst with
  | true => exact ⟨fun c r => by simp [Board.reset, Board.resetKeypad, Held.none], rfl⟩
  | false => exact ⟨fun c r => by simp [Board.reset, Board.resetKeypad, Held.none], rfl⟩

end Holds

/-! ## The boot key -/

/-- `g_ascii_isspace`. -/
def isAsciiSpace (c : Char) : Bool := c = ' ' ∨ 9 ≤ c.toNat ∧ c.toNat ≤ 13

/-- `g_strsplit(key, "+", -1)`, each part through `g_strstrip`. -/
def bootParts (key : String) : List String :=
  (key.toList.splitOn '+').map fun part => String.ofList (Text.stripped isAsciiSpace part)

/-- One part of `uvk5_arm_boot_key`. An error is reported, and the rest is armed. -/
def Board.holdPart (b : Board) (one : String) : Board :=
  if one = "" then b
  else if SameName one "PTT" then b.setPtt true
  else (b.setPress one).2

/-- `uvk5_arm_boot_key`, without the timer. -/
def Board.armBootKey (b : Board) (key : String) : Board :=
  if key = "" then b else (bootParts key).foldl Board.holdPart b

/-- `uvk5_boot_key_release`. -/
def Board.releaseBootKey (b : Board) : Board := (b.setPress "").2.setPtt false

/-- What a boot key holds. -/
def bootHeld (key : String) : Held where
  key := ((bootParts key).filterMap coordinate).getLast?
  ptt := (bootParts key).any (SameName · "PTT")

/-- What one part does. -/
def Held.part (h : Held) (one : String) : Held :=
  if SameName one "PTT" then { h with ptt := true } else { h with key := (coordinate one).or h.key }

/-- The empty name is that of no key. -/
lemma coordinate_empty : coordinate "" = none := by decide

/-- The transmit key has neither column nor row. -/
lemma coordinate_of_ptt {one : String} (h : SameName one "PTT") : coordinate one = none := by
  have hnone : indexForName one = none := by
    rw [indexForName, List.findIdx?_eq_none_iff]
    have hall : ∀ key ∈ keyNames, key.all fun key => !decide (SameName key "PTT") := by decide
    intro key hkey
    cases key with
    | none => rfl
    | some key =>
      have hptt : ¬ SameName key "PTT" := by simpa using hall _ hkey
      exact decide_eq_false fun hsame => hptt (hsame.trans h)
  rw [coordinate, hnone, Option.bind_none]

/-- A part of a boot key is held besides what is held already. -/
lemma holds_holdPart {b : Board} {h : Held} (hb : Holds b h) (one : String) :
    Holds (b.holdPart one) (h.part one) := by
  rw [Board.holdPart, Held.part]
  split
  · next hempty =>
    subst hempty
    rw [if_neg (by decide), coordinate_empty, Option.none_or]
    exact hb
  · next hne =>
    split
    · exact hb.setPtt true
    · have hpress := hb.press one
      rwa [Held.press, if_neg hne] at hpress

/-- **What a boot key holds**: the last of its parts that names a key of the matrix, and the
transmit key if any part names that.

**Proof sketch.** Induction on the parts, from the last one: a part that is neither is reported and
skipped, and a key replaces the one before it. -/
theorem holds_armBootKey {b : Board} (hb : Holds b .none) (key : String) :
    Holds (b.armBootKey key) (bootHeld key) := by
  have hfold : ∀ (parts : List String) (b : Board) (h : Held), Holds b h →
      Holds (parts.foldl Board.holdPart b) (parts.foldl Held.part h) := by
    intro parts
    induction parts with
    | nil => exact fun _ _ h => h
    | cons one parts ih => exact fun b h hb => ih _ _ (holds_holdPart hb one)
  have hparts : ∀ parts : List String, parts.foldl Held.part .none =
      ⟨(parts.filterMap coordinate).getLast?, parts.any (SameName · "PTT")⟩ := by
    intro parts
    induction parts using List.reverseRecOn with
    | nil => rfl
    | append_singleton parts one ih =>
      rw [List.foldl_append, ih, List.foldl_cons, List.foldl_nil, Held.part, List.filterMap_append,
        List.any_append]
      by_cases hptt : SameName one "PTT"
      · rw [if_pos hptt]
        simp [coordinate_of_ptt hptt, hptt]
      · rw [if_neg hptt]
        cases hcoordinate : coordinate one with
        | none => simp [hcoordinate, hptt]
        | some k => simp [hcoordinate, hptt]
  rw [Board.armBootKey]
  split
  · next hempty =>
    have hnone : bootHeld "" = .none := by decide
    rw [hempty, hnone]
    exact hb
  · rw [bootHeld, ← hparts]
    exact hfold _ _ _ hb

/-- **When the boot key is let go** nothing is held, whatever was. -/
theorem holds_releaseBootKey {b : Board} {h : Held} (hb : Holds b h) :
    Holds b.releaseBootKey .none := by
  have hnothing : Held.none = { h.press "" with ptt := false } := by
    rw [Held.press, if_pos rfl]
    rfl
  rw [Board.releaseBootKey, hnothing]
  exact (hb.press "").setPtt false

end Uvk5.Keypad
