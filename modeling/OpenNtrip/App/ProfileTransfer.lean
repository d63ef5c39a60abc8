import OpenNtrip.App.Capture
import OpenNtrip.App.ExportName
import OpenNtrip.App.ImportPlan
import OpenNtrip.Gnss.Nmea

/-!
# Profile files

`profile_file.rs`: profiles are exported to a new file, and read back to be imported. The text
format is a parameter (`ProfileToml`). `exports_read_back` says of every run of exports to a folder
that it changes no file that was there, and that each new file reads back as what was exported.
`transfer_carries` says what an import of such a file adds.
-/

namespace OpenNtrip

namespace ProfileFile

/-- `FORMAT`. -/
def FORMAT : Text := "onc-profiles".toList

/-- `VERSION`. -/
def VERSION : UInt32 := 1

/-- `HEADER`. -/
def HEADER : Text :=
  "# Open NTRIP Client profile file - import it in Profiles > Import...\n".toList

/-- `FileOut`. -/
structure FileOut where
  format : Text
  version : UInt32
  profiles : List Profile
  deriving DecidableEq, Repr

/-- `FileIn`. -/
structure FileIn where
  format : Option Text
  version : Option UInt32
  profiles : List Profile
  deriving DecidableEq, Repr

/-- The text format. -/
structure ProfileToml where
  toStringPretty : FileOut → Except Text Text
  fromStr : Text → Except Text FileIn

/-- What is written is read back, also below a line that is a comment. -/
def ProfileToml.RoundTrip (toml : ProfileToml) : Prop :=
  ∀ out text, toml.toStringPretty out = .ok text →
    toml.fromStr (HEADER ++ text) = .ok ⟨some out.format, some out.version, out.profiles⟩

/-! ## The text of a file -/

/-- What is written of a profile. -/
def shared (includePasswords : Bool) (p : Profile) : Profile :=
  { p with password := if includePasswords then p.password else [] }

/-- What `to_text` has written. -/
def fileOut (profiles : List Profile) (includePasswords : Bool) : FileOut where
  format := FORMAT
  version := VERSION
  profiles := profiles.map (shared includePasswords)

/-- What `parse` makes of one profile. -/
def repaired (p : Profile) : Option Profile :=
  let p := { p with name := p.name.trim }.normalize
  if p.name = [] then none else some p

section

variable (toml : ProfileToml)

/-- `to_text`, which panics at `none`. -/
def toText (profiles : List Profile) (includePasswords : Bool) : Option Text :=
  match toml.toStringPretty (fileOut profiles includePasswords) with
  | .ok body => some (HEADER ++ body)
  | .error _ => none

/-- `parse`. -/
def parse (text : Text) : Except Text (List Profile) :=
  match toml.fromStr text with
  | .error e =>
    .error ("This is not a readable profile file (".toList ++ e.rdropWhile (· == '.') ++
      ").".toList)
  | .ok file =>
    if file.format ≠ none ∧ file.format ≠ some FORMAT then
      .error "This is not an Open NTRIP Client profile file.".toList
    else if file.format.isSome ∧ VERSION < file.version.getD VERSION then
      .error ("This file was made by a newer Open NTRIP Client - " ++
        "update to import it.").toList
    else if file.profiles.filterMap repaired = [] then
      .error "This file holds no profiles.".toList
    else .ok (file.profiles.filterMap repaired)

/-- `read`, where the file holds these bytes or cannot be read. -/
def read : Except Text Bytes → Except Text (List Profile)
  | .error e => .error ("Could not open the file: ".toList ++ e)
  | .ok bytes =>
    match Text.fromUtf8 bytes with
    | some text => parse toml text
    | none => .error "Could not open the file: stream did not contain valid UTF-8".toList

end

/-! ## The folder -/

/-- The files of a folder, by their names as the file system compares them. -/
abbrev Folder := Text → Option Bytes

/-- `unique_path`, by what exists in the folder. It panics, at `none`, once the suffixes run out. -/
def uniquePath (taken : Text → Bool) (fileName : Text) : Option Text :=
  if taken fileName then
    let parts := (Text.rsplitOnce '.' fileName).getD (fileName, [])
    (firstFree (fun name => taken (name ++ '.' :: parts.2)) parts.1 SUFFIXES 2).map fun name =>
      name ++ '.' :: parts.2
  else some fileName

/-- How an export fares: an error when the folder is made, whether what is in it is seen, and an
error of the write with what it left of the file. -/
structure ExportFate where
  dirError : Option Text := none
  visible : Bool := true
  writeError : Option (Option Bytes × Text) := none
  deriving DecidableEq, Repr

/-- What is exported, and how that fares. -/
structure Export where
  profiles : List Profile
  includePasswords : Bool
  fate : ExportFate := {}
  deriving DecidableEq, Repr

section

variable (toml : ProfileToml) (ignoresCase : Bool) (dir : Text) (display : Text → Text)

/-- `Path::exists` of a name in the folder. -/
def Folder.exists (folder : Folder) (visible : Bool) (name : Text) : Bool :=
  visible && (folder (foldName ignoresCase name)).isSome

/-- `export`: what is then in the folder, and the name of the file or what is told. It panics at
`none`. -/
def exportTo (folder : Folder) (e : Export) : Option (Folder × Except Text Text) :=
  match e.fate.dirError with
  | some error => some (folder, .error ("Could not create ".toList ++ dir ++ ": ".toList ++ error))
  | none => do
    let name ← uniquePath (folder.exists ignoresCase e.fate.visible) (fileNameFor e.profiles)
    let text ← toText toml e.profiles e.includePasswords
    match e.fate.writeError with
    | some (left, error) =>
      some (Function.update folder (foldName ignoresCase name) left,
        .error ("Could not write ".toList ++ display name ++ ": ".toList ++ error))
    | none =>
      some (Function.update folder (foldName ignoresCase name) (some text.toBytes), .ok name)

/-- A run of exports, each with its result. -/
def exportAll (folder : Folder) : List Export → Option (Folder × List (Export × Except Text Text))
  | [] => some (folder, [])
  | e :: rest => do
    let (folder, told) ← exportTo toml ignoresCase dir display folder e
    let (folder, results) ← exportAll folder rest
    return (folder, (e, told) :: results)

end

/-! ## What is read back -/

/-- The profile has a proper name and a version that the repair leaves alone. -/
structure Shareable (p : Profile) : Prop where
  trimmed : p.name.Trimmed
  present : p.name ≠ []
  version : p.ntripVersion = 1 ∨ p.ntripVersion = 2

theorem Shareable.repaired {p : Profile} (h : Shareable p) (includePasswords : Bool) :
    ProfileFile.repaired (shared includePasswords p) = some (shared includePasswords p) := by
  have hname : (shared includePasswords p).name.trim = p.name := h.trimmed
  have hnormal : (shared includePasswords p).normalize = shared includePasswords p :=
    if_pos h.version
  unfold ProfileFile.repaired
  rw [hname]
  show (if (shared includePasswords p).normalize.name = [] then none
    else some (shared includePasswords p).normalize) = _
  rw [hnormal]
  exact if_neg h.present

variable {toml : ProfileToml}

/-- A file with the stamp of this version is accepted, and profiles that need no repair are read as
they are. -/
theorem parse_stamped {text : Text} {profiles : List Profile}
    (htext : toml.fromStr text = .ok ⟨some FORMAT, some VERSION, profiles⟩)
    (hkept : profiles.filterMap repaired = profiles) (hne : profiles ≠ []) :
    parse toml text = .ok profiles := by
  simp [parse, htext, hkept, hne]

/-- A file that was written reads back as what was exported. -/
theorem read_written (hround : toml.RoundTrip) {profiles : List Profile} {includePasswords : Bool}
    {text : Text} (htext : toText toml profiles includePasswords = some text)
    (hne : profiles ≠ []) (hshareable : ∀ p ∈ profiles, Shareable p) :
    read toml (.ok text.toBytes) = .ok (profiles.map (shared includePasswords)) := by
  have hkept : (profiles.map (shared includePasswords)).filterMap repaired =
      profiles.map (shared includePasswords) := by
    rw [List.filterMap_map, ← List.filterMap_eq_map]
    exact List.filterMap_congr fun p hp => (hshareable p hp).repaired includePasswords
  unfold toText at htext
  split at htext
  · next body hbody =>
      obtain rfl := Option.some.inj htext
      rw [read, Text.from_utf8_to_bytes]
      exact parse_stamped (hround _ _ hbody) hkept (by simpa using hne)
  · simp at htext

/-! ## Names for new files -/

/-- A name that is found is not taken. -/
theorem unique_path_free {taken : Text → Bool} {fileName name : Text}
    (h : uniquePath taken fileName = some name) : taken name = false := by
  unfold uniquePath at h
  split at h
  · obtain ⟨found, hfound, rfl⟩ := Option.map_eq_some_iff.mp h
    exact (first_free_some hfound).2
  · next hfree =>
      obtain rfl := Option.some.inj h
      simpa using hfree

/-- Names with different suffixes are different files. -/
theorem fold_suffixed_injective (ignoresCase : Bool) {stem ext : Text} {j k : Nat}
    (h : foldName ignoresCase (suffixed stem j ++ '.' :: ext) =
      foldName ignoresCase (suffixed stem k ++ '.' :: ext)) : j = k := by
  have hdigits : ∀ n, (decimalText n).map Char.toLower = decimalText n := by
    intro n
    refine (List.map_congr_left fun c hc => ?_).trans (List.map_id _)
    refine to_lower_eq ?_
    have hdigit := is_digit_iff.mp (decimal_text_digit hc)
    exact decide_eq_false fun hupper => by
      have hlow := UInt32.le_iff_toNat_le.mp hupper.1
      have hnat : c.val.toNat = c.toNat := rfl
      simp only [Char.reduceVal, UInt32.reduceToNat] at hlow
      omega
  cases ignoresCase with
  | false =>
      have hsame : suffixed stem j ++ '.' :: ext = suffixed stem k ++ '.' :: ext := h
      exact suffixed_injective (List.append_cancel_right hsame)
  | true =>
      have hsame : (suffixed stem j ++ '.' :: ext).map Char.toLower =
          (suffixed stem k ++ '.' :: ext).map Char.toLower := h
      rw [List.map_append, List.map_append] at hsame
      have hstems := List.append_cancel_right hsame
      rw [suffixed, suffixed, List.map_append, List.map_append, List.map_cons, List.map_cons,
        hdigits, hdigits] at hstems
      exact decimal_text_injective (List.cons.inj (List.append_cancel_left hstems)).2

/-- The folder holds at most so many files. -/
def Folder.AtMost (folder : Folder) (n : Nat) : Prop :=
  ∃ names : List Text, names.length ≤ n ∧ ∀ name, (folder name).isSome = true → name ∈ names

/-- While there are fewer files than suffixes, a name is found. -/
theorem unique_path_some {folder : Folder} {n : Nat} (h : folder.AtMost n) (hroom : n < SUFFIXES)
    (ignoresCase visible : Bool) (fileName : Text) :
    ∃ name, uniquePath (folder.exists ignoresCase visible) fileName = some name := by
  obtain ⟨names, hlength, hnames⟩ := h
  unfold uniquePath
  split
  · generalize (Text.rsplitOnce '.' fileName).getD (fileName, []) = parts
    obtain ⟨stem, ext⟩ := parts
    have hused : ∀ j, folder.exists ignoresCase visible (suffixed stem j ++ '.' :: ext) = true →
        foldName ignoresCase (suffixed stem j ++ '.' :: ext) ∈ names := fun j hj =>
      hnames _ (Bool.and_eq_true_iff.mp hj).2
    have hfound : ∃ name, firstFree (fun name =>
        folder.exists ignoresCase visible (name ++ '.' :: ext)) stem SUFFIXES 2 = some name :=
      first_free_ok 2 (fun _ _ => fold_suffixed_injective ignoresCase) hused
        (Nat.lt_of_le_of_lt hlength hroom)
    obtain ⟨name, hname⟩ := hfound
    exact ⟨name ++ '.' :: ext, Option.map_eq_some_iff.mpr ⟨name, hname, rfl⟩⟩
  · exact ⟨fileName, rfl⟩

/-! ## A run of exports -/

/-- No file of the folder is changed. -/
def Folder.Extends (folder folder' : Folder) : Prop :=
  ∀ file bytes, folder file = some bytes → folder' file = some bytes

namespace Folder

variable {folder folder' folder'' : Folder}

theorem Extends.refl (folder : Folder) : folder.Extends folder := fun _ _ h => h

theorem Extends.trans (h : folder.Extends folder') (h' : folder'.Extends folder'') :
    folder.Extends folder'' :=
  fun file bytes hfile => h' file bytes (h file bytes hfile)

/-- What is new later is new before. -/
theorem Extends.none (h : folder.Extends folder') {file : Text} (hnone : folder' file = none) :
    folder file = none := by
  cases hfile : folder file with
  | none => rfl
  | some bytes => rw [h file bytes hfile] at hnone; simp at hnone

theorem extends_update {file : Text} (h : folder file = none) (content : Option Bytes) :
    folder.Extends (Function.update folder file content) := by
  intro other bytes hother
  have hne : other ≠ file := fun heq => by rw [heq, h] at hother; simp at hother
  rw [Function.update_of_ne hne, hother]

theorem AtMost.mono {n m : Nat} (h : folder.AtMost n) (hle : n ≤ m) : folder.AtMost m := by
  obtain ⟨names, hlength, hnames⟩ := h
  exact ⟨names, hlength.trans hle, hnames⟩

theorem AtMost.update {n : Nat} (h : folder.AtMost n) (file : Text) (content : Option Bytes) :
    AtMost (Function.update folder file content) (n + 1) := by
  obtain ⟨names, hlength, hnames⟩ := h
  refine ⟨file :: names, by rw [List.length_cons]; omega, fun other hother => ?_⟩
  by_cases heq : other = file
  · exact heq ▸ List.mem_cons_self
  · rw [Function.update_of_ne heq] at hother
    exact List.mem_cons_of_mem _ (hnames other hother)

end Folder

variable (ignoresCase : Bool) (dir : Text) (display : Text → Text)

/-- The file of an export holds its text. -/
def Landed (toml : ProfileToml) (folder : Folder) (e : Export) (name : Text) : Prop :=
  ∃ text, toText toml e.profiles e.includePasswords = some text ∧
    folder (foldName ignoresCase name) = some text.toBytes

/-- An export ends. It changes no file, and where it tells a name, that file is new and holds the
text. -/
theorem export_spec {folder : Folder} {e : Export} {n : Nat} (hfiles : folder.AtMost n)
    (hroom : n < SUFFIXES) (hvisible : e.fate.visible = true)
    (hwrites : ∃ text, toText toml e.profiles e.includePasswords = some text) :
    ∃ folder' told, exportTo toml ignoresCase dir display folder e = some (folder', told) ∧
      folder.Extends folder' ∧ folder'.AtMost (n + 1) ∧
      ∀ name, told = .ok name → folder (foldName ignoresCase name) = none ∧
        Landed ignoresCase toml folder' e name := by
  obtain ⟨text, htext⟩ := hwrites
  cases hdir : e.fate.dirError with
  | some error =>
      refine ⟨folder, _, by rw [exportTo, hdir], .refl folder, hfiles.mono (Nat.le_succ n),
        fun name htold => by simp at htold⟩
  | none =>
      obtain ⟨name, hname⟩ := unique_path_some hfiles hroom ignoresCase e.fate.visible
        (fileNameFor e.profiles)
      have hnew : folder (foldName ignoresCase name) = none := by
        have hfree := unique_path_free hname
        rw [Folder.exists, hvisible, Bool.true_and] at hfree
        exact Option.not_isSome_iff_eq_none.mp (by rw [hfree]; exact Bool.false_ne_true)
      cases hwrite : e.fate.writeError with
      | some left =>
          have hexport : exportTo toml ignoresCase dir display folder e =
              some (Function.update folder (foldName ignoresCase name) left.1,
                .error ("Could not write ".toList ++ display name ++ ": ".toList ++ left.2)) := by
            rw [exportTo, hdir]
            simp only [hname, htext, hwrite, Option.bind_eq_bind, Option.bind_some]
          exact ⟨_, _, hexport, Folder.extends_update hnew _, hfiles.update _ _,
            fun told htold => by simp at htold⟩
      | none =>
          have hexport : exportTo toml ignoresCase dir display folder e =
              some (Function.update folder (foldName ignoresCase name) (some text.toBytes),
                .ok name) := by
            rw [exportTo, hdir]
            simp only [hname, htext, hwrite, Option.bind_eq_bind, Option.bind_some]
          refine ⟨_, _, hexport, Folder.extends_update hnew _, hfiles.update _ _,
            fun told htold => ?_⟩
          obtain rfl := Except.ok.inj htold
          exact ⟨hnew, text, htext, Function.update_self _ _ _⟩

/-- A run of exports ends. It changes no file, and the files that it tells are new, differ from each
other and hold their texts. -/
theorem exports_spec {exports : List Export} {before : Folder} {n : Nat}
    (hfiles : before.AtMost n) (hroom : n + exports.length ≤ SUFFIXES)
    (hvisible : ∀ e ∈ exports, e.fate.visible = true)
    (hwrites : ∀ e ∈ exports, ∃ text, toText toml e.profiles e.includePasswords = some text) :
    ∃ after results,
      exportAll toml ignoresCase dir display before exports = some (after, results) ∧
      results.map Prod.fst = exports ∧ before.Extends after ∧
      ((results.filterMap fun r => r.2.toOption).map (foldName ignoresCase)).Nodup ∧
      ∀ e name, (e, .ok name) ∈ results → before (foldName ignoresCase name) = none ∧
        Landed ignoresCase toml after e name := by
  induction exports generalizing before n with
  | nil =>
      exact ⟨before, [], rfl, rfl, .refl before, List.nodup_nil,
        fun _ _ hmem => absurd hmem List.not_mem_nil⟩
  | cons e rest ih =>
      rw [List.forall_mem_cons] at hvisible hwrites
      rw [List.length_cons] at hroom
      obtain ⟨folder, told, hexport, hextends, hmany, htold⟩ :=
        export_spec ignoresCase dir display hfiles (by omega) hvisible.1 hwrites.1
      obtain ⟨after, results, hrun, hexports, hlater, hnodup, hlanded⟩ :=
        ih hmany (by omega) hvisible.2 hwrites.2
      refine ⟨after, (e, told) :: results, ?_, by rw [List.map_cons, hexports],
        hextends.trans hlater, ?_, fun e' name hmem => ?_⟩
      · rw [exportAll, hexport]
        show (exportAll toml ignoresCase dir display folder rest).bind _ = _
        rw [hrun]
        rfl
      · cases told with
        | error error => exact hnodup
        | ok name =>
            refine List.nodup_cons.mpr ⟨fun hmem => ?_, hnodup⟩
            obtain ⟨other, hother, hsame⟩ := List.mem_map.mp hmem
            obtain ⟨⟨e', told'⟩, hresult, hok⟩ := List.mem_filterMap.mp hother
            obtain ⟨-, text, -, hfile⟩ := htold name rfl
            cases told' with
            | error error => simp [Except.toOption] at hok
            | ok name' =>
                obtain rfl := Option.some.inj hok
                have hnew := (hlanded e' name' hresult).1
                rw [hsame, hfile] at hnew
                simp at hnew
      · rcases List.mem_cons.mp hmem with heq | hmem
        · obtain ⟨rfl, rfl⟩ := Prod.mk.inj heq
          obtain ⟨hnew, text, htext, hfile⟩ := htold name rfl
          exact ⟨hnew, text, htext, hlater _ _ hfile⟩
        · obtain ⟨hnew, hfile⟩ := hlanded e' name hmem
          exact ⟨hextends.none hnew, hfile⟩

/-- A run of exports to a folder that it can look into ends, with a result for each. It changes no
file that was there, and the files that it tells are new, differ from each other, and read back as
what was exported, without the passwords where they were left out. -/
theorem exports_read_back (hround : toml.RoundTrip) {exports : List Export} {before : Folder}
    {n : Nat} (hfiles : before.AtMost n) (hroom : n + exports.length ≤ SUFFIXES)
    (hvisible : ∀ e ∈ exports, e.fate.visible = true)
    (hwrites : ∀ e ∈ exports, ∃ text,
      toml.toStringPretty (fileOut e.profiles e.includePasswords) = .ok text) :
    ∃ after results,
      exportAll toml ignoresCase dir display before exports = some (after, results) ∧
      results.map Prod.fst = exports ∧
      (∀ file bytes, before file = some bytes → after file = some bytes) ∧
      ((results.filterMap fun r => r.2.toOption).map (foldName ignoresCase)).Nodup ∧
      ∀ e name, (e, .ok name) ∈ results → before (foldName ignoresCase name) = none ∧
        (e.profiles ≠ [] → (∀ p ∈ e.profiles, Shareable p) →
          ∃ bytes, after (foldName ignoresCase name) = some bytes ∧
            read toml (.ok bytes) = .ok (e.profiles.map (shared e.includePasswords))) := by
  have htexts : ∀ e ∈ exports, ∃ text, toText toml e.profiles e.includePasswords = some text := by
    intro e he
    obtain ⟨body, hbody⟩ := hwrites e he
    exact ⟨HEADER ++ body, by rw [toText, hbody]⟩
  obtain ⟨after, results, hrun, hexports, hextends, hnodup, hlanded⟩ :=
    exports_spec ignoresCase dir display hfiles hroom hvisible htexts
  refine ⟨after, results, hrun, hexports, hextends, hnodup, fun e name hmem => ?_⟩
  obtain ⟨hnew, text, htext, hfile⟩ := hlanded e name hmem
  exact ⟨hnew, fun hne hshareable => ⟨_, hfile, read_written hround htext hne hshareable⟩⟩

/-- The text of a file that shares the default profile. -/
def sampleText : Text :=
  "format = \"onc-profiles\"\nversion = 1\n\n[[profiles]]\nname = \"Default\"\n".toList ++
    ("host = \"\"\nport = 2101\ntls = false\nallow_invalid_certs = false\nntrip_version = 1\n" ++
      "protocol = \"ntrip\"\nusername = \"\"\npassword = \"\"\nmountpoint = \"\"\n" ++
      "gga_mode = \"when_required\"\ngga_source = \"receiver\"\nmanual_lat = 0.0\n" ++
      "manual_lon = 0.0\n").toList

/-- The text format at that file. -/
def sampleToml : ProfileToml where
  toStringPretty out :=
    if out = fileOut [{}] true then .ok sampleText else .error "other profiles".toList
  fromStr text :=
    if text = HEADER ++ sampleText then .ok ⟨some FORMAT, some VERSION, [{}]⟩
    else .error "other text".toList

theorem sample_round_trip : sampleToml.RoundTrip := by
  intro out text h
  unfold sampleToml at h ⊢
  simp only at h ⊢
  split at h
  · next hout =>
      obtain rfl := Except.ok.inj h
      rw [if_pos rfl, hout]
      rfl
  · simp at h

theorem sample_written : sampleToml.toStringPretty (fileOut [{}] true) = .ok sampleText := by
  simp only [sampleToml, if_true]

theorem sample_shareable : ∀ p ∈ [({} : Profile)], Shareable p := by
  intro p hp
  obtain rfl := List.mem_singleton.mp hp
  exact ⟨by unfold Text.Trimmed; decide, by decide, .inl rfl⟩

/-- Exported twice, the default profile is in two files. -/
theorem exports_read_back_twice :
    ∃ after results, exportAll sampleToml true [] id (fun _ => none)
        [⟨[{}], true, {}⟩, ⟨[{}], true, {}⟩] = some (after, results) ∧
      results.map (fun r => r.2.toOption) =
        [some "Default.oncprofile".toList, some "Default 2.oncprofile".toList] ∧
      ∃ bytes, after "default 2.oncprofile".toList = some bytes ∧
        read sampleToml (.ok bytes) = .ok [{}] := by
  let e : Export := ⟨[{}], true, {}⟩
  have hfiles : Folder.AtMost (fun _ => none) 0 := ⟨[], Nat.le_refl 0, fun _ h => by simp at h⟩
  have hall : ∀ e' ∈ [e, e], e' = e := by simp
  obtain ⟨after, results, hrun, -, -, -, hread⟩ :=
    exports_read_back true [] id sample_round_trip hfiles (by decide : 0 + [e, e].length ≤ SUFFIXES)
      (fun e' he => by rw [hall e' he])
      (fun e' he => ⟨sampleText, by rw [hall e' he, sample_written]⟩)
  have hnames : (exportAll sampleToml true [] id (fun _ => none) [e, e]).map (·.2) =
      some [(e, .ok "Default.oncprofile".toList), (e, .ok "Default 2.oncprofile".toList)] := by
    decide +kernel
  rw [hrun] at hnames
  obtain rfl := Option.some.inj hnames
  obtain ⟨-, hfile⟩ := hread e "Default 2.oncprofile".toList (by simp)
  obtain ⟨bytes, hbytes, hback⟩ := hfile (by simp [e]) sample_shareable
  exact ⟨after, _, hrun, rfl, bytes, hbytes, hback⟩

/-! ## To another installation -/

/-- Names that nobody has are kept. -/
theorem plan_rows_fresh {settings seen : Settings} {incoming : List Profile} {rows : List ImportRow}
    (h : planRows settings seen incoming = some rows) (hproper : ∀ p ∈ incoming, Shareable p)
    (hfree : ∀ p ∈ incoming, p.name ∉ seen.profiles.map Profile.name)
    (hdistinct : (incoming.map Profile.name).Nodup) :
    rows.map ImportRow.name = incoming.map Profile.name := by
  induction incoming generalizing seen rows with
  | nil =>
      obtain rfl := Option.some.inj h
      rfl
  | cons p rest ih =>
      rw [List.forall_mem_cons] at hproper hfree
      rw [List.map_cons, List.nodup_cons] at hdistinct
      have htrim : p.name.trim = p.name := hproper.1.trimmed
      have hname : freeName seen p.name = some p.name := by
        have htaken : seen.taken none p.name = false := by
          rw [Bool.eq_false_iff, ne_eq, Settings.taken_none_iff]
          exact hfree.1
        rw [freeName, uniqueName, htrim, if_neg hproper.1.present, if_neg hproper.1.present]
        simp only [htaken, Bool.false_eq_true, if_false]
      rw [planRows, hname] at h
      obtain ⟨name, hfound, h⟩ := Option.bind_eq_some_iff.mp h
      obtain rfl := Option.some.inj hfound
      obtain ⟨rows', hrows, hcons⟩ := Option.bind_eq_some_iff.mp h
      obtain rfl := Option.some.inj hcons
      have hlater : ∀ q ∈ rest, q.name ∉ (seen.profiles ++ [({ name := p.name } : Profile)]).map
          Profile.name := by
        intro q hq
        rw [List.map_append, List.mem_append, List.map_singleton, List.mem_singleton]
        rintro (hold | hsame)
        · exact hfree.2 q hq hold
        · exact hdistinct.1 (hsame ▸ List.mem_map_of_mem hq)
      rw [List.map_cons, List.map_cons, ih hrows hproper.2 hlater hdistinct.2]

/-- What a plan adds is as well formed as what is there. -/
theorem planned_well_formed {settings : Settings} {rows : List ImportRow}
    (h : Planned settings rows) (hsettings : settings.WellFormed) :
    Settings.WellFormed
      { settings with profiles := settings.profiles ++ rows.map ImportRow.addition } := by
  have hnames : (rows.map ImportRow.addition).map Profile.name = rows.map ImportRow.name := by
    rw [List.map_map]
    rfl
  refine ⟨⟨fun p hp => ?_, fun p hp => ?_, ?_⟩, ?_⟩
  · rcases List.mem_append.mp hp with hp | hp
    · exact hsettings.names.trimmed p hp
    · obtain ⟨row, hrow, rfl⟩ := List.mem_map.mp hp
      exact h.trimmed row hrow
  · rcases List.mem_append.mp hp with hp | hp
    · exact hsettings.names.present p hp
    · obtain ⟨row, hrow, rfl⟩ := List.mem_map.mp hp
      exact h.present row hrow
  · rw [List.map_append, hnames]
    refine List.Nodup.append hsettings.names.distinct h.distinct fun name hold hnew => ?_
    obtain ⟨row, hrow, rfl⟩ := List.mem_map.mp hnew
    exact h.free row hrow hold
  · rw [List.map_append]
    exact List.mem_append_left _ hsettings.active

/-- A file that was written somewhere is read and imported here as the plan suggests: the profiles
are added in order, and nothing is lost of them but passwords that were left out and names that are
not free. -/
theorem transfer_carries (hround : toml.RoundTrip) {profiles : List Profile}
    {includePasswords : Bool} {text : Text}
    (htext : toText toml profiles includePasswords = some text) (hne : profiles ≠ [])
    (hshareable : ∀ p ∈ profiles, Shareable p) {settings : Settings}
    (hsettings : settings.WellFormed)
    (hfew : settings.profiles.length + profiles.length ≤ 2 ^ 32 - 2) :
    ∃ incoming rows, read toml (.ok text.toBytes) = .ok incoming ∧
      plan incoming settings = some rows ∧
      rows.map ImportRow.profile = profiles.map (shared includePasswords) ∧
      ∀ busy, (applyImport settings rows busy).1 =
          { settings with profiles := settings.profiles ++ rows.map ImportRow.addition } ∧
        (applyImport settings rows busy).1.WellFormed ∧
        ((profiles.map Profile.name).Nodup →
          (∀ p ∈ profiles, p.name ∉ settings.profiles.map Profile.name) →
          (applyImport settings rows busy).1.profiles =
            settings.profiles ++ profiles.map (shared includePasswords)) := by
  have hincoming : ∀ p ∈ profiles.map (shared includePasswords), Shareable p := by
    intro p hp
    obtain ⟨q, hq, rfl⟩ := List.mem_map.mp hp
    exact ⟨(hshareable q hq).trimmed, (hshareable q hq).present, (hshareable q hq).version⟩
  have hblank : ∀ p ∈ profiles.map (shared includePasswords), p.name.trim ≠ [] := by
    intro p hp
    rw [(hincoming p hp).trimmed]
    exact (hincoming p hp).present
  have hplan : ∃ rows, plan (profiles.map (shared includePasswords)) settings = some rows ∧
      rows.map ImportRow.profile = profiles.map (shared includePasswords) ∧
      Planned settings rows :=
    plan_rows_planned hblank (by rwa [List.length_map])
  obtain ⟨rows, hrows, hprofiles, hplanned⟩ := hplan
  refine ⟨_, rows, read_written hround htext hne hshareable, hrows, hprofiles, fun busy => ?_⟩
  have happly : (applyImport settings rows busy).1 =
      { settings with profiles := settings.profiles ++ rows.map ImportRow.addition } := by
    rw [applyImport, hplanned.importable_eq, hplanned.import_rows_eq]
  refine ⟨happly, happly ▸ planned_well_formed hplanned hsettings, fun hdistinct hfree => ?_⟩
  rw [happly]
  show settings.profiles ++ rows.map ImportRow.addition = _
  have hsame : (profiles.map (shared includePasswords)).map Profile.name =
      profiles.map Profile.name := by
    rw [List.map_map]
    rfl
  have hnames := plan_rows_fresh hrows hincoming (fun p hp => by
    obtain ⟨q, hq, rfl⟩ := List.mem_map.mp hp
    exact hfree q hq) (by rwa [hsame])
  rw [← hprofiles, List.map_map, List.map_inj_left] at hnames
  rw [← hprofiles]
  refine congrArg _ (List.map_congr_left fun row hrow => ?_)
  show { row.profile with name := row.name } = row.profile
  rw [hnames row hrow]
  rfl

/-- The default profile, where there is one already. -/
theorem transfer_carries_default :
    ∃ incoming rows, read sampleToml (.ok (HEADER ++ sampleText).toBytes) = .ok incoming ∧
      plan incoming {} = some rows ∧
      (applyImport {} rows false).1.profiles = [{}, { name := "Default 2".toList }] := by
  obtain ⟨incoming, rows, hread, hplan, hprofiles, happly⟩ :=
    transfer_carries sample_round_trip (by rw [toText, sample_written]) (by simp) sample_shareable
      Settings.WellFormed.default (by decide)
  have hdefault : plan [{}] {} = some [⟨{}, true, "Default 2".toList, true, false⟩] := by decide
  have hincoming : read sampleToml (.ok (HEADER ++ sampleText).toBytes) = .ok [{}] :=
    read_written sample_round_trip (by rw [toText, sample_written]) (by simp) sample_shareable
  obtain rfl := Except.ok.inj (hread.symm.trans hincoming)
  obtain rfl := Option.some.inj (hplan.symm.trans hdefault)
  exact ⟨_, _, hread, hplan, by rw [(happly false).1]; rfl⟩

end ProfileFile

end OpenNtrip
