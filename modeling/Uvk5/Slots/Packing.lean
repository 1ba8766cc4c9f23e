import Mathlib.Algebra.Group.Int.Defs
import Uvk5.Lib.Text
import Uvk5.Slots.Apps

set_option relaxedAutoImplicit false
set_option autoImplicit false

/-!
# Packing an app (`tools/uvk5_apps.py`)

`build` puts a header in front of some code, and `parse` is to read the same header back. The two
do not test the same things.

## Main definitions

* `Apps.build` — the blob around some code.
* `Apps.RoundTrips` — a blob that says what it was built from.
* `Apps.Kept` — a text that a header gives back.

## Main results

* `Apps.text_textField_eq_iff` — the texts that a header gives back.
* `Apps.parse_build_iff` — the blobs that say what they were built from.
-/

namespace Uvk5.Apps

open Bytes Slots

/-- `NAME_LEN`. -/
def nameLen : ℕ := 16
/-- `VERSION_LEN`. -/
def versionLen : ℕ := 16

/-- The two texts of a header. -/
inductive Label where
  /-- `"name"`. -/
  | name
  /-- `"version"`. -/
  | version
  deriving DecidableEq

/-- What `build` raises. -/
inductive BuildError where
  /-- `AppError`: more code than the overlay has room for. -/
  | codeTooLong (length : ℕ)
  /-- `AppError`: a text that is empty or too long. -/
  | badText (label : Label)
  /-- `AppError`: no such shortcut. -/
  | unknownShortcut (shortcut : String)
  /-- `UnicodeEncodeError`: a text that is not ASCII. -/
  | unicode (label : Label)
  /-- `struct.error`: a number that does not fit its field. -/
  | struct
  deriving DecidableEq

/-- `SHORTCUTS`. -/
def shortcuts : List (ℕ × String) :=
  [(0x01, "fm"), (0x02, "foxhunt"), (0x04, "beacon"), (0x08, "beam")]

/-- What `parse` calls a shortcut. -/
def Shortcut.text : Shortcut → String
  | .fm => "fm"
  | .foxhunt => "foxhunt"
  | .beacon => "beacon"
  | .beam => "beam"
  | .none => "none"

/-- The flags with the bit of the shortcut, with `none` for the `AppError`. -/
def withShortcut (shortcut : String) (flags : ℕ) : Option ℕ :=
  if shortcut = "none" then some flags
  else (shortcuts.find? (·.2 = shortcut)).map fun m => flags ||| (m.1 <<< flagShortcutShift)

/-- `s.encode("ascii")[:15].ljust(16, b"\\x00")`, with `none` for the `UnicodeEncodeError`. -/
def packText (s : String) : Option (List UInt8) :=
  if s.toList.all (·.val < 128) then some (textField s) else none

/-- `_HEADER.pack`, with `none` for the `struct.error`. -/
def packHeader (abi apiMin : ℤ) (codeSize crc32 entryOff flags : ℕ) (name version : List UInt8)
    (capabilities : ℤ) : Option (List UInt8) :=
  if (0 ≤ abi ∧ abi < 256) ∧ (0 ≤ apiMin ∧ apiMin < 256) ∧ codeSize < 2 ^ 32 ∧ crc32 < 2 ^ 32 ∧
      flags < 65536 ∧ 0 ≤ capabilities ∧ capabilities < 2 ^ 32 then
    some <|
      toLe 4 magic ++ toLe 2 hdrVersion ++ toLe 1 abi.toNat ++ toLe 1 apiMin.toNat ++
        toLe 4 codeSize ++ toLe 4 crc32 ++ toLe 2 entryOff ++ toLe 2 flags ++ name ++ version ++
        toLe 4 overlayVma ++ toLe 4 capabilities.toNat ++ toLe 4 0
  else none

/-- `build`. -/
def build (code : List UInt8) (name version : String) (abi apiMin : ℤ) (shortcut : String)
    (flags : ℕ) (capabilities : ℤ) : Except BuildError (List UInt8) :=
  if code.length > appOverlayMax then .error (.codeTooLong code.length)
  else if name = "" ∨ name.toList.length ≥ nameLen then .error (.badText .name)
  else if version = "" ∨ version.toList.length ≥ versionLen then .error (.badText .version)
  else
    match withShortcut shortcut flags with
    | none => .error (.unknownShortcut shortcut)
    | some flags =>
      match packText name with
      | none => .error (.unicode .name)
      | some nameField =>
        match packText version with
        | none => .error (.unicode .version)
        | some versionField =>
          match packHeader abi apiMin code.length (Slots.crc32 code).toNat 0 flags nameField
              versionField capabilities with
          | none => .error .struct
          | some header => .ok (header ++ code)

/-- `parse` accepts the blob and says what it was built from. -/
def RoundTrips (code : List UInt8) (name version : String) (abi apiMin : ℤ) (shortcut : String)
    (capabilities : ℤ) (blob : List UInt8) : Prop :=
  ∃ info, parse blob true = .ok info ∧ info.codeSize = code.length ∧
    info.crc32 = (Slots.crc32 code).toNat ∧ info.name = name ∧ info.version = version ∧
    (info.abi : ℤ) = abi ∧ (info.apiMin : ℤ) = apiMin ∧ info.shortcut.text = shortcut ∧
    (info.capabilities : ℤ) = capabilities ∧ info.committed = true ∧ info.total = blob.length

/-- A text that a header gives back: no NUL, and no white space at either end. -/
def Kept (s : String) : Prop :=
  (∀ c ∈ s.toList, c.val ≠ 0) ∧ (∀ c ∈ s.toList.head?, isSpace c = false) ∧
    ∀ c ∈ s.toList.getLast?, isSpace c = false

/-! ## The texts -/

/-- What a header gives back of a text. -/
lemma text_textField {s : String} (hlen : s.toList.length ≤ 15)
    (hascii : ∀ c ∈ s.toList, c.val < 128) :
    text (textField s) =
      String.ofList (Text.stripped isSpace (s.toList.takeWhile (·.val ≠ 0))) := by
  rw [text, fieldText_textField_of_ascii hlen hascii, String.toList_ofList]
  rfl

/-- **The texts that a header gives back.**

**Proof sketch.** Neither cutting at the first NUL nor stripping makes a text longer, so if the
whole text comes back, neither of the two took anything away. -/
theorem text_textField_eq_iff {s : String} (hlen : s.toList.length ≤ 15)
    (hascii : ∀ c ∈ s.toList, c.val < 128) : text (textField s) = s ↔ Kept s := by
  have hnul : s.toList.takeWhile (·.val ≠ 0) = s.toList ↔ ∀ c ∈ s.toList, c.val ≠ 0 := by
    rw [List.takeWhile_eq_self_iff]
    exact forall₂_congr fun c _ => decide_eq_true_iff
  rw [text_textField hlen hascii, Kept, ← hnul, ← Text.stripped_eq_self_iff]
  constructor
  · intro h
    have hback : Text.stripped isSpace (s.toList.takeWhile (·.val ≠ 0)) = s.toList := by
      conv_rhs => rw [← h, String.toList_ofList]
    have hwhole : s.toList.takeWhile (·.val ≠ 0) = s.toList := by
      refine (List.takeWhile_sublist _).eq_of_length_le ?_
      calc s.toList.length
          = (Text.stripped isSpace (s.toList.takeWhile (·.val ≠ 0))).length := by rw [hback]
        _ ≤ (s.toList.takeWhile (·.val ≠ 0)).length := Text.length_stripped_le ..
    rw [hwhole] at hback
    exact ⟨hwhole, hback⟩
  · rintro ⟨hwhole, hstrip⟩
    rw [hwhole, hstrip, String.ofList_toList]

/-! ## The header -/

/-- A text that is packed is ASCII. -/
lemma packText_eq_some {s : String} {field : List UInt8} (h : packText s = some field) :
    (∀ c ∈ s.toList, c.val < 128) ∧ field = textField s := by
  rw [packText] at h
  split at h
  · next hall =>
    refine ⟨fun c hc => ?_, (Option.some.inj h).symm⟩
    exact of_decide_eq_true (List.all_eq_true.mp hall c hc)
  · cases h

/-- What a header says of the app it was packed for. -/
def builtInfo (code : List UInt8) (name version : String) (abi apiMin : ℤ) (flags : ℕ)
    (capabilities : ℤ) : AppInfo where
  magic := magic
  hdrVersion := hdrVersion
  abi := abi.toNat
  apiMin := apiMin.toNat
  codeSize := code.length
  crc32 := (Slots.crc32 code).toNat
  entryOff := 0
  flags := flags
  name := text (textField name)
  version := text (textField version)
  vma := overlayVma
  capabilities := capabilities.toNat
  committed := flags &&& flagCommitted ≠ 0
  screenSaver := flags &&& flagScreenSaver ≠ 0
  shortcut := shortcutOf ((flags &&& flagShortcutMask) >>> flagShortcutShift)
  total := hdrSize + code.length

/-- A header that is packed: its fields fit, and they lie one behind the other. -/
lemma packHeader_eq_some {abi apiMin capabilities : ℤ} {codeSize crc32 entryOff flags : ℕ}
    {name version header : List UInt8} (hname : name.length = 16) (hversion : version.length = 16)
    (h : packHeader abi apiMin codeSize crc32 entryOff flags name version capabilities =
      some header) :
    header.length = hdrSize ∧ slice header 0 4 = toLe 4 magic ∧
      slice header 4 6 = toLe 2 hdrVersion ∧ slice header 6 7 = toLe 1 abi.toNat ∧
      slice header 7 8 = toLe 1 apiMin.toNat ∧ slice header 8 12 = toLe 4 codeSize ∧
      slice header 12 16 = toLe 4 crc32 ∧ slice header 16 18 = toLe 2 entryOff ∧
      slice header 18 20 = toLe 2 flags ∧
      slice header 20 36 = name ∧ slice header 36 52 = version ∧
      slice header 52 56 = toLe 4 overlayVma ∧ slice header 56 60 = toLe 4 capabilities.toNat := by
  rw [packHeader] at h
  split at h
  · obtain rfl := Option.some.inj h
    simp only [List.append_assoc]
    refine ⟨by simp [hname, hversion, hdrSize], ?_, ?_, ?_, ?_, ?_, ?_, ?_, ?_, ?_, ?_, ?_, ?_⟩ <;>
      simp [slice_append_self, slice_append_right, hname, hversion]
  · cases h

/-- The numbers of a header that is packed fit their fields. -/
lemma fits_of_packHeader {abi apiMin capabilities : ℤ} {codeSize crc32 entryOff flags : ℕ}
    {name version header : List UInt8}
    (h : packHeader abi apiMin codeSize crc32 entryOff flags name version capabilities =
      some header) :
    (0 ≤ abi ∧ abi < 256) ∧ (0 ≤ apiMin ∧ apiMin < 256) ∧ codeSize < 2 ^ 32 ∧ crc32 < 2 ^ 32 ∧
      flags < 65536 ∧ 0 ≤ capabilities ∧ capabilities < 2 ^ 32 := by
  rw [packHeader] at h
  split at h
  · assumption
  · cases h

/-- **The header of an app** is read as it was packed. -/
theorem headerInfo_packHeader {code header : List UInt8} {name version : String}
    {abi apiMin capabilities : ℤ} {flags : ℕ}
    (h : packHeader abi apiMin code.length (Slots.crc32 code).toNat 0 flags (textField name)
      (textField version) capabilities = some header) :
    headerInfo header = builtInfo code name version abi apiMin flags capabilities := by
  obtain ⟨⟨habi0, habi⟩, ⟨hapi0, hapi⟩, hcode, hcrc, hflags, hcap0, hcap⟩ := fits_of_packHeader h
  obtain ⟨-, h0, h4, h6, h7, h8, h12, h16, h18, h20, h36, h52, h56⟩ :=
    packHeader_eq_some (length_textField name) (length_textField version) h
  have hmagic : magic < 256 ^ 4 := by decide
  have hversion : hdrVersion < 256 ^ 2 := by decide
  have hvma : overlayVma < 256 ^ 4 := by decide
  rw [headerInfo, h0, h4, h6, h7, h8, h12, h16, h18, h20, h36, h52, h56, ofLe_toLe 4 hmagic,
    ofLe_toLe 2 hversion, ofLe_toLe 1 (by omega), ofLe_toLe 1 (by omega),
    ofLe_toLe 4 (by omega), ofLe_toLe 4 (by omega), ofLe_toLe 2 (by decide),
    ofLe_toLe 2 (by omega), ofLe_toLe 4 hvma, ofLe_toLe 4 (by omega)]
  rfl

/-! ## The blob -/

/-- The shortcuts that `build` knows, in the flags of an app. -/
lemma withShortcut_committed {shortcut : String} {flags : ℕ}
    (h : withShortcut shortcut flagCommitted = some flags) :
    (shortcutOf ((flags &&& flagShortcutMask) >>> flagShortcutShift)).text = shortcut ∧
      flags &&& flagCommitted ≠ 0 := by
  rw [withShortcut] at h
  split at h
  · next hnone =>
    obtain rfl := Option.some.inj h
    rw [hnone]
    decide
  · obtain ⟨⟨bits, name⟩, hfind, rfl⟩ := Option.map_eq_some_iff.mp h
    have hname : name = shortcut := by simpa using List.find?_some hfind
    subst hname
    have hmem := List.mem_of_find?_eq_some hfind
    simp only [shortcuts, List.mem_cons, Prod.mk.injEq, List.not_mem_nil, or_false] at hmem
    rcases hmem with ⟨rfl, rfl⟩ | ⟨rfl, rfl⟩ | ⟨rfl, rfl⟩ | ⟨rfl, rfl⟩ <;> decide

/-- **What `build` puts together.**

**Proof sketch.** Along the tests of `build`: the three lengths, the shortcut, the two texts and
the header. Each one that fails raises. -/
lemma build_eq_ok {code : List UInt8} {name version : String} {abi apiMin : ℤ} {shortcut : String}
    {flags : ℕ} {capabilities : ℤ} {blob : List UInt8}
    (h : build code name version abi apiMin shortcut flags capabilities = .ok blob) :
    code.length ≤ appOverlayMax ∧ (name.toList.length ≤ 15 ∧ ∀ c ∈ name.toList, c.val < 128) ∧
      (version.toList.length ≤ 15 ∧ ∀ c ∈ version.toList, c.val < 128) ∧
      ∃ flags' header, withShortcut shortcut flags = some flags' ∧
        packHeader abi apiMin code.length (Slots.crc32 code).toNat 0 flags' (textField name)
          (textField version) capabilities = some header ∧ blob = header ++ code := by
  rw [build] at h
  split at h
  · cases h
  split at h
  · cases h
  split at h
  · cases h
  next hcode hname hversion =>
  cases hflags : withShortcut shortcut flags with
  | none =>
    rw [hflags] at h
    cases h
  | some flags' =>
    cases hnameField : packText name with
    | none =>
      rw [hflags, hnameField] at h
      cases h
    | some nameField =>
      cases hversionField : packText version with
      | none =>
        rw [hflags, hnameField, hversionField] at h
        cases h
      | some versionField =>
        obtain ⟨hnameAscii, rfl⟩ := packText_eq_some hnameField
        obtain ⟨hversionAscii, rfl⟩ := packText_eq_some hversionField
        rw [hflags, hnameField, hversionField] at h
        dsimp only at h
        cases hheader : packHeader abi apiMin code.length (Slots.crc32 code).toNat 0 flags'
            (textField name) (textField version) capabilities with
        | none =>
          rw [hheader] at h
          cases h
        | some header =>
          rw [hheader] at h
          rw [nameLen] at hname
          rw [versionLen] at hversion
          exact ⟨by omega, ⟨by omega, hnameAscii⟩, ⟨by omega, hversionAscii⟩, flags', header,
            rfl, hheader, (Except.ok.inj h).symm⟩

/-- **What `parse` says of a blob that is built**: it accepts every one that has code.

**Proof sketch.** The fields of the header are read back, and the code is what follows it. So
every test of `parse` is passed but perhaps that of the size, which is refused when there is no
code. -/
theorem parse_packed {code header : List UInt8} {name version : String}
    {abi apiMin capabilities : ℤ} {flags : ℕ} (hcode : code.length ≤ appOverlayMax)
    (hheader : packHeader abi apiMin code.length (Slots.crc32 code).toNat 0 flags (textField name)
      (textField version) capabilities = some header) {info : AppInfo} :
    parse (header ++ code) true = .ok info ↔
      code ≠ [] ∧ info = builtInfo code name version abi apiMin flags capabilities := by
  have hsize : header.length = hdrSize :=
    (packHeader_eq_some (length_textField name) (length_textField version) hheader).1
  have hbody : slice (header ++ code) hdrSize (hdrSize + code.length) = code :=
    slice_last header code hsize.symm (by rw [hsize])
  have hlength : (header ++ code).length = hdrSize + code.length := by
    rw [List.length_append, hsize]
  rw [parse, if_neg (by omega)]
  dsimp only
  rw [headerInfo_append code hsize, headerInfo_packHeader hheader]
  generalize hbuilt : builtInfo code name version abi apiMin flags capabilities = built
  have hmagic : built.magic = magic := by rw [← hbuilt, builtInfo]
  have hversion : built.hdrVersion = hdrVersion := by rw [← hbuilt, builtInfo]
  have hcodeSize : built.codeSize = code.length := by rw [← hbuilt, builtInfo]
  have hcrc : built.crc32 = (Slots.crc32 code).toNat := by rw [← hbuilt, builtInfo]
  have hvma : built.vma = overlayVma := by rw [← hbuilt, builtInfo]
  rw [if_neg (not_not.mpr hmagic), Bool.not_true, if_neg Bool.false_ne_true,
    if_neg (not_not.mpr hversion), hcodeSize, hbody, hlength, hcrc]
  by_cases hempty : code = []
  · rw [if_pos (.inl (by rw [hempty, List.length_nil]))]
    exact iff_of_false (fun h => by cases h) fun h => h.1 hempty
  · have hpos : 0 < code.length := List.length_pos_iff.mpr hempty
    rw [if_neg (by omega), if_neg (Nat.lt_irrefl _), if_neg (not_not.mpr rfl),
      if_neg (not_not.mpr hvma), Except.ok.injEq]
    exact ⟨fun h => ⟨hempty, h.symm⟩, fun h => h.2.symm⟩

/-- **The blobs that say what they were built from**: those with code whose name and version the
header gives back.

**Proof sketch.** Every number fits its field, and the bit of the shortcut is read where it was set.
What remains is the test of `parse` for code, which `build` does not make, and the two texts, which
`parse` cuts at the first NUL and strips. -/
theorem parse_build_iff {code : List UInt8} {name version : String} {abi apiMin : ℤ}
    {shortcut : String} {capabilities : ℤ} {blob : List UInt8}
    (h : build code name version abi apiMin shortcut flagCommitted capabilities = .ok blob) :
    RoundTrips code name version abi apiMin shortcut capabilities blob ↔
      code ≠ [] ∧ Kept name ∧ Kept version := by
  obtain ⟨hcode, ⟨hnameLen, hname⟩, ⟨hversionLen, hversion⟩, flags, header, hflags, hheader, rfl⟩ :=
    build_eq_ok h
  obtain ⟨⟨habi, -⟩, ⟨hapi, -⟩, -, -, -, hcap, -⟩ := fits_of_packHeader hheader
  have hsize : header.length = hdrSize :=
    (packHeader_eq_some (length_textField name) (length_textField version) hheader).1
  obtain ⟨hshortcut, hcommitted⟩ := withShortcut_committed hflags
  rw [← text_textField_eq_iff hnameLen hname, ← text_textField_eq_iff hversionLen hversion]
  constructor
  · rintro ⟨info, hparse, -, -, hnameBack, hversionBack, -⟩
    obtain ⟨hne, rfl⟩ := (parse_packed hcode hheader).mp hparse
    exact ⟨hne, hnameBack, hversionBack⟩
  · rintro ⟨hne, hnameBack, hversionBack⟩
    refine ⟨_, (parse_packed hcode hheader).mpr ⟨hne, rfl⟩, rfl, rfl, hnameBack, hversionBack,
      Int.toNat_of_nonneg habi, Int.toNat_of_nonneg hapi, hshortcut, Int.toNat_of_nonneg hcap,
      decide_eq_true hcommitted, ?_⟩
    rw [List.length_append, hsize]
    rfl

/-- The blob of a small app with a shortcut. -/
def beamBlob : List UInt8 :=
  [0x46, 0x41, 0x50, 0x31, 1, 0, 1, 1, 4, 0, 0, 0, 0x13, 0x86, 0xb9, 0x8b, 0, 0, 0x01, 0x08] ++
    ([0x42, 0x65, 0x61, 0x6d] ++ List.replicate 12 0) ++
    ([0x31, 0x2e, 0x30] ++ List.replicate 13 0) ++
    [0x80, 0x02, 0x00, 0x20] ++ List.replicate 8 0 ++ [0x00, 0x01, 0x02, 0x03]

/-- The small app is built to this blob. -/
lemma build_beam : build [0x00, 0x01, 0x02, 0x03] "Beam" "1.0" 1 1 "beam" flagCommitted 0 =
    .ok beamBlob := by decide +kernel

/-- The small app is given back by `parse`: it has code, and texts that are kept. -/
theorem parse_build_beam :
    RoundTrips [0x00, 0x01, 0x02, 0x03] "Beam" "1.0" 1 1 "beam" 0 beamBlob ↔
      [0x00, 0x01, 0x02, 0x03] ≠ ([] : List UInt8) ∧ Kept "Beam" ∧ Kept "1.0" :=
  parse_build_iff build_beam

/-- A blob without code is built and not accepted. -/
theorem parse_refuses_built :
    ¬ ∀ (code : List UInt8) (name version : String) (abi apiMin : ℤ) (shortcut : String)
      (capabilities : ℤ) (blob : List UInt8),
      build code name version abi apiMin shortcut flagCommitted capabilities = .ok blob →
      RoundTrips code name version abi apiMin shortcut capabilities blob := by
  intro h
  obtain ⟨info, hparse, -⟩ := h [] "Beam" "1.0" 1 1 "none" 0 _ rfl
  cases hparse

end Uvk5.Apps
