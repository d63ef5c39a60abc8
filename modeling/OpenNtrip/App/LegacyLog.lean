import OpenNtrip.App.LegacyImport
import Mathlib.Data.List.Forall2

/-!
# What the legacy import tells the log

The password is masked by its key, which is compared without white space at its start but with
white space at its end. So two files that differ in the password only leave the same log exactly
if each password follows its key at once, or does not differ (`log_identical_iff`).
-/

namespace OpenNtrip.Legacy

/-! ## The log of a file, line by line -/

/-- The log lines of one key, which do not depend on the settings. -/
theorem import_key_log (file : String) (imported key value : Text) (effect : KeyEffect)
    (s s' : Settings) :
    (importKey file imported key value effect s).2 =
      (importKey file imported key value effect s').2 := by
  cases effect with
  | set edit => rfl
  | silent edit => rfl
  | invalid => rfl
  | note text => rfl
  | unknown => rfl

theorem import_pairs_log {importOne : Settings → Text → Text → Settings × List Text}
    (hlog : ∀ s s' key value, (importOne s key value).2 = (importOne s' key value).2)
    (s : Settings) (pairs : List (Text × Text)) :
    (importPairs importOne s pairs).2 =
      pairs.flatMap fun (key, value) => (importOne {} key value).2 := by
  induction pairs generalizing s with
  | nil => rfl
  | cons pair rest ih =>
      obtain ⟨key, value⟩ := pair
      simp only [importPairs, List.flatMap_cons, ih, hlog s {}]

/-- The end of a line does not matter for its pair. -/
theorem legacy_pair_strip_cr (line : Text) : legacyPair (Text.stripCr line) = legacyPair line := by
  simp only [legacyPair, Text.trim_strip_cr]

/-- The pairs of a file are those of its lines. -/
theorem legacy_pairs_eq (text : Text) :
    legacyPairs text = (text.splitOn '\n').filterMap legacyPair := by
  obtain ⟨init, last, hparts⟩ := List.eq_nil_or_concat' (text.splitOn '\n') |>.resolve_left
    (List.splitOn_ne_nil '\n' text)
  have hinit : (init.map Text.stripCr).filterMap legacyPair = init.filterMap legacyPair := by
    rw [List.filterMap_map]
    exact List.filterMap_congr fun line _ => legacy_pair_strip_cr line
  rw [legacyPairs, Text.lines, hparts]
  simp only [List.dropLast_concat, List.getLast?_concat, List.filterMap_append, hinit]
  congr 1
  by_cases hlast : last = []
  · simp [hlast, legacyPair, Text.trim, Text.trimEnd, Text.trimStart, Text.toBytes]
  · simp [hlast]

/-- The log lines of one line of `ntripconfig.txt`. -/
def lineLog (line : Text) : List Text :=
  match legacyPair line with
  | none => []
  | some (key, value) => (importNtripconfigKey {} key value).2

theorem ntripconfig_log (s : Settings) (text : Text) :
    (importFile importNtripconfigKey "Importing legacy ntripconfig.txt" s (some text)).2 =
      "Importing legacy ntripconfig.txt".toList :: (text.splitOn '\n').flatMap lineLog := by
  have hlog : ∀ s s' key value,
      (importNtripconfigKey s key value).2 = (importNtripconfigKey s' key value).2 := by
    intro s s' key value
    exact import_key_log _ _ _ _ _ s s'
  simp only [importFile, import_pairs_log hlog, legacy_pairs_eq]
  congr 1
  induction text.splitOn '\n' with
  | nil => rfl
  | cons line rest ih =>
      rw [List.flatMap_cons, ← ih, lineLog]
      cases hpair : legacyPair line with
      | none => rw [List.filterMap_cons_none hpair, List.nil_append]
      | some pair =>
          obtain ⟨key, value⟩ := pair
          rw [List.filterMap_cons_some hpair, List.flatMap_cons]

/-! ## Lines that differ in the password -/

/-- Two lines of files that differ in passwords only: they are the same, or they have the same key
and the key, trimmed and without regard to case, is that of the password. -/
inductive PasswordTwin : Text → Text → Prop where
  | same (line : Text) : PasswordTwin line line
  | value (key value value' : Text) (hkey : '=' ∉ key)
      (hname : Text.eqIgnoreCase key.trim "NTRIP Password".toList = true) :
      PasswordTwin (key ++ '=' :: value) (key ++ '=' :: value')

/-- No white space stands between the key of a line and its value. -/
def KeyTight (line : Text) : Prop :=
  ∀ key value, line.splitOnce '=' = some (key, value) → key.trimEnd = key

/-- The key of a password line without its leading white space: its name, and the white space that
follows the name. -/
theorem password_key {key : Text}
    (hname : Text.eqIgnoreCase key.trim "NTRIP Password".toList = true) :
    ∃ space : Text, key.trimStart.toAsciiLowercase = "ntrip password".toList ++ space ∧
      (space = [] ↔ key.trimEnd = key) := by
  obtain ⟨space, hspace, hwhite⟩ := key.trim_start_eq
  have hlower : key.trim.toAsciiLowercase = "ntrip password".toList := by
    have hliteral : "NTRIP Password".toList.map Char.toLower = "ntrip password".toList := by decide
    have heq := eq_of_beq hname
    rw [heq]
    exact hliteral
  have hpresent : key.trim ≠ [] := by
    intro hnil
    rw [hnil] at hlower
    exact absurd hlower (by decide)
  refine ⟨space.map Char.toLower, ?_, ?_⟩
  · rw [hspace, Text.toAsciiLowercase, List.map_append]
    exact congrArg (· ++ _) hlower
  · rw [List.map_eq_nil_iff]
    have hstart : key.trimStart ≠ [] := by
      rw [hspace]
      exact List.append_ne_nil_of_left_ne_nil hpresent _
    -- The key ends as its part after the leading white space does.
    have hlast : key.getLast? = key.trimStart.getLast? := by
      obtain ⟨front, hfront⟩ := List.dropWhile_suffix isWhitespace (l := key)
      have hsome : (List.dropWhile isWhitespace key).getLast? =
          some (key.trimStart.getLast hstart) :=
        List.getLast?_eq_some_getLast hstart
      rw [← hfront, List.getLast?_append, Text.trimStart, hfront, hsome]
      rfl
    rw [Text.trim_end_eq_self, hlast]
    constructor
    · rintro rfl
      rw [List.append_nil] at hspace
      rw [hspace]
      exact Text.trim_end_eq_self.mp (Text.trimmed_iff.mp key.trim_trimmed).2
    · intro hend
      rcases List.eq_nil_or_concat space with hnil | ⟨init, last, hconcat⟩
      · exact hnil
      · exfalso
        rw [List.concat_eq_append] at hconcat
        have hmem : last ∈ key.trimStart.getLast? := by
          rw [hspace, hconcat, ← List.append_assoc, List.getLast?_concat]
          rfl
        have hfalse := hend last hmem
        rw [hwhite last (by rw [hconcat]; simp)] at hfalse
        simp at hfalse

/-- The pair of a password line. -/
theorem password_pair {key : Text} (value : Text) (hkey : '=' ∉ key)
    (hname : Text.eqIgnoreCase key.trim "NTRIP Password".toList = true) :
    legacyPair (key ++ '=' :: value) = some (key.trimStart, value.trimEnd) := by
  obtain ⟨space, hlower, -⟩ := password_key hname
  have hlength : 14 ≤ key.trimStart.length := by
    have := congrArg List.length hlower
    simp only [Text.toAsciiLowercase, List.length_map, List.length_append] at this
    have hfourteen : "ntrip password".toList.length = 14 := by decide
    omega
  have hbytes := Text.length_le_to_bytes key.trimStart
  have hnot : '=' ∉ key.trimStart := fun hmem =>
    hkey ((List.dropWhile_suffix isWhitespace).subset hmem)
  have hhash : Text.startsWith (key.trimStart ++ '=' :: value.trimEnd) "#".toList = false := by
    obtain ⟨c, rest, hcons⟩ := List.exists_cons_of_length_pos (l := key.trimStart) (by omega)
    rw [hcons] at hlower ⊢
    have hc : c ≠ '#' := by
      rintro rfl
      have hhead := (List.cons.inj hlower).1
      exact absurd hhead (by decide)
    simp [Text.startsWith, List.isPrefixOf, Ne.symm hc]
  have htotal : ¬ (key.trimStart ++ '=' :: value.trimEnd).toBytes.length < 3 := by
    have := Text.length_le_to_bytes (key.trimStart ++ '=' :: value.trimEnd)
    rw [List.length_append] at this
    omega
  have hshort : ¬ key.trimStart.toBytes.length < 2 := by omega
  simp only [legacyPair, Text.trim_append (c := '=') (by decide), htotal, hhash, decide_false,
    Bool.or_self, Bool.false_eq_true, if_false, Text.split_once_append hnot, hshort]

/-- The log of a password line: the password is masked if it follows its key at once, and else the
key is not known and its value is shown. -/
theorem password_log {key : Text} (value : Text) (hkey : '=' ∉ key)
    (hname : Text.eqIgnoreCase key.trim "NTRIP Password".toList = true) :
    lineLog (key ++ '=' :: value) =
      if key.trimEnd = key then ["Imported from ntripconfig.txt: NTRIP Password=****".toList]
      else [keyLine "Ignored unknown key in" "ntripconfig.txt" key.trimStart value.trimEnd] := by
  obtain ⟨space, hlower, htight⟩ := password_key hname
  rw [lineLog, password_pair value hkey hname]
  simp only [importNtripconfigKey, ntripconfigKey, hlower]
  cases space with
  | nil =>
      have hmask : key.trimStart.eqIgnoreCase "ntrip password".toList = true := by
        rw [Text.eqIgnoreCase, hlower]
        decide
      rw [if_pos (htight.mp rfl), hmask]
      rfl
  | cons c space =>
      rw [if_neg fun heq => absurd (htight.mpr heq) (by simp)]
      simp [importKey]

/-- Two lines that trimming makes the same, or the first of which has a tight key. -/
def TwinMasked (line line' : Text) : Prop := line.trim = line'.trim ∨ KeyTight line

/-- Two password lines leave the same log exactly if the key is tight or they are the same once
trimmed. -/
theorem line_log_twin {line line' : Text} (h : PasswordTwin line line') :
    (lineLog line).length = (lineLog line').length ∧
      (lineLog line = lineLog line' ↔ TwinMasked line line') := by
  cases h with
  | same => exact ⟨rfl, fun _ => .inl rfl, fun _ => rfl⟩
  | value key value value' hkey hname =>
      have htight : KeyTight (key ++ '=' :: value) ↔ key.trimEnd = key := by
        rw [KeyTight, Text.split_once_append hkey]
        constructor
        · exact fun h => h key value rfl
        · rintro h k v heq
          obtain ⟨rfl, rfl⟩ := Prod.mk.inj (Option.some.inj heq)
          exact h
      rw [TwinMasked, password_log value hkey hname, password_log value' hkey hname, htight]
      by_cases hend : key.trimEnd = key
      · simp [hend]
      · simp only [hend, if_false, or_false, List.cons.injEq, and_true]
        refine ⟨rfl, ?_⟩
        rw [Text.trim_append (by decide), Text.trim_append (by decide), keyLine, keyLine,
          List.append_right_inj, List.append_right_inj, List.cons.injEq]
        simp

/-- Lists of equal parts are equal part by part. -/
theorem flat_map_log_iff {lines lines' : List Text} (h : List.Forall₂ PasswordTwin lines lines') :
    lines.flatMap lineLog = lines'.flatMap lineLog ↔
      List.Forall₂ TwinMasked lines lines' := by
  induction h with
  | nil => simp
  | cons hline hrest ih =>
      obtain ⟨hlength, hsame⟩ := line_log_twin hline
      rw [List.flatMap_cons, List.flatMap_cons, List.forall₂_cons, ← hsame, ← ih]
      constructor
      · exact fun heq => List.append_inj heq hlength
      · rintro ⟨hfirst, hmore⟩
        rw [hfirst, hmore]

/-- The log lines of the import. -/
def importLog (parseF64 : Text → Option F64) (ntripconfig settingsTxt : Option Text) :
    Option (List Text) :=
  (importLegacy parseF64 ntripconfig settingsTxt).map Prod.snd

/-- Two texts of `ntripconfig.txt` that differ in passwords only leave the same log exactly if each
line whose password differs, white space at its end aside, has no white space between the key and
the equals sign. -/
theorem log_identical_iff (parseF64 : Text → Option F64) {text text' : Text}
    (settingsTxt : Option Text)
    (h : List.Forall₂ PasswordTwin (text.splitOn '\n') (text'.splitOn '\n')) :
    importLog parseF64 (some text) settingsTxt = importLog parseF64 (some text') settingsTxt ↔
      List.Forall₂ TwinMasked
        (text.splitOn '\n') (text'.splitOn '\n') := by
  have hlog : ∀ s s' key value, (importSettingsKey parseF64 s key value).2 =
      (importSettingsKey parseF64 s' key value).2 := by
    intro s s' key value
    exact import_key_log _ _ _ _ _ s s'
  have hsecond : ∀ s s', (importFile (importSettingsKey parseF64)
      "Importing legacy Settings.txt" s settingsTxt).2 =
      (importFile (importSettingsKey parseF64) "Importing legacy Settings.txt" s'
        settingsTxt).2 := by
    intro s s'
    cases settingsTxt with
    | none => rfl
    | some more => simp only [importFile, import_pairs_log hlog]
  rw [← flat_map_log_iff h]
  simp only [importLog, importLegacy, Option.isNone_some, Bool.false_and, Bool.false_eq_true,
    if_false, Option.map_some, Option.some.injEq, ntripconfig_log]
  rw [hsecond _ {}, hsecond (importFile importNtripconfigKey _ _ (some text')).1 {},
    List.append_left_inj, List.cons.injEq]
  simp

/-- Files of one password line each. -/
theorem password_twins (key value value' : Text) (hkey : '=' ∉ key)
    (hname : Text.eqIgnoreCase key.trim "NTRIP Password".toList = true)
    (hline : '\n' ∉ key ++ '=' :: value) (hline' : '\n' ∉ key ++ '=' :: value') :
    List.Forall₂ PasswordTwin ((key ++ '=' :: value).splitOn '\n')
      ((key ++ '=' :: value').splitOn '\n') := by
  rw [List.splitOn_eq_singleton hline, List.splitOn_eq_singleton hline']
  exact .cons (.value key value value' hkey hname) .nil

theorem log_identical_iff_example :
    importLog (fun _ => none) (some "NTRIP Password=x".toList) none =
      importLog (fun _ => none) (some "NTRIP Password=y".toList) none := by
  have htwins := password_twins "NTRIP Password".toList "x".toList "y".toList
    (by decide) (by decide) (by decide) (by decide)
  refine (log_identical_iff _ _ htwins).mpr (.cons (.inr fun key value h => ?_) .nil)
  obtain ⟨rfl, -⟩ := Prod.mk.inj (Option.some.inj h)
  decide

/-- A password is shown if a space stands between its key and the equals sign. -/
theorem password_shown : ¬ ∀ text text' : Text,
    List.Forall₂ PasswordTwin (text.splitOn '\n') (text'.splitOn '\n') →
      importLog (fun _ => none) (some text) none = importLog (fun _ => none) (some text') none := by
  intro h
  have htwins := password_twins "NTRIP Password ".toList "x".toList "y".toList
    (by decide) (by decide) (by decide) (by decide)
  exact absurd (h _ _ htwins) (by decide)

end OpenNtrip.Legacy
