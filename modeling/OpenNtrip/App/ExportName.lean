import OpenNtrip.App.Settings
import OpenNtrip.Rust.Utf8
import OpenNtrip.Rust.Float

/-!
# Names of exported profiles

`file_name_for` and `sanitize` of `profile_file.rs`, beside what operating systems accept as the
name of a file (`Accepted`). What is replaced and trimmed leaves two things open, the names of
devices and the length (`accepted_iff`).
-/

namespace OpenNtrip

/-- `char::is_control`: the general category Cc. -/
def isControl (c : Char) : Bool := c.toNat < 0x20 || (0x7F ≤ c.toNat && c.toNat < 0xA0)

/-- The characters that Windows reserves, the separators of paths among them. -/
def windowsReserved : Text := "<>:\"/\\|?*".toList

namespace ProfileFile

/-- `EXTENSION`. -/
def EXTENSION : Text := "oncprofile".toList

/-- What `sanitize` replaces. -/
def isReplaced (c : Char) : Bool := isControl c || decide (c ∈ windowsReserved)

/-- What `sanitize` writes for a character. -/
def replace (c : Char) : Char := if isReplaced c then '-' else c

/-- The dots and spaces that `sanitize` removes from the end. -/
def isTrailing (c : Char) : Bool := c == '.' || c == ' '

/-- `sanitize`. -/
def sanitize (name : Text) : Text :=
  let s := (Text.trim (name.map replace)).rdropWhile isTrailing
  if s = [] then "Profile".toList else s

/-- `file_name_for`. -/
def fileNameFor (profiles : List Profile) : Text :=
  let stem := match profiles with
    | [p] => sanitize p.name
    | _ => "ONC profiles (".toList ++ decimalText profiles.length ++ ")".toList
  stem ++ '.' :: EXTENSION

/-! ## What is accepted -/

/-- The names of devices on Windows. -/
def devices : List Text :=
  ["CON", "PRN", "AUX", "NUL", "COM1", "COM2", "COM3", "COM4", "COM5", "COM6", "COM7", "COM8",
    "COM9", "LPT1", "LPT2", "LPT3", "LPT4", "LPT5", "LPT6", "LPT7", "LPT8", "LPT9"].map (·.toList)

/-- The name of a device, in any case. -/
def isDevice (s : Text) : Bool := devices.any s.eqIgnoreCase

/-- What stands before the first dot. -/
def beforeDot (name : Text) : Text := name.takeWhile (· ≠ '.')

/-- The text ends in neither a dot nor a space. -/
def EndsWell (s : Text) : Prop := ∀ c ∈ s.getLast?, c ≠ '.' ∧ c ≠ ' '

/-- Every operating system accepts the name. -/
structure Accepted (name : Text) : Prop where
  ne_nil : name ≠ []
  clean : ∀ c ∈ name, isControl c = false ∧ c ∉ windowsReserved
  ends : EndsWell name
  stem_ends : ∀ stem extension, name = stem ++ '.' :: extension → '.' ∉ extension → EndsWell stem
  device : isDevice (beforeDot name) = false
  length_le : name.toBytes.length ≤ 255

/-! ## The condition -/

/-- White space that is not a control character. -/
def isBlank (c : Char) : Bool := isWhitespace c && !isControl c

/-- A name without the white space around it, and then without its trailing dots and spaces. -/
def core (name : Text) : Text :=
  ((name.dropWhile isBlank).rdropWhile isBlank).rdropWhile isTrailing

/-- The length in bytes if one byte is written for each character that is replaced. -/
def writtenLength : Text → Nat
  | [] => 0
  | c :: rest => (if isReplaced c then 1 else c.utf8Size) + writtenLength rest

/-- The name of the profile names no device and is not too long. -/
def Fits (name : Text) : Prop :=
  isDevice (beforeDot (core name)) = false ∧ writtenLength (core name) ≤ 244

/-! ## Replacing -/

/-- What is kept is neither a control character nor reserved on Windows. -/
theorem is_replaced_iff {c : Char} :
    isReplaced c = false ↔ isControl c = false ∧ c ∉ windowsReserved := by
  simp [isReplaced]

/-- What is not kept becomes a dash. -/
theorem replace_of_replaced {c : Char} (h : isReplaced c = true) : replace c = '-' := if_pos h

theorem replace_of_clean {c : Char} (h : isReplaced c = false) : replace c = c :=
  if_neg (by rw [h]; exact Bool.false_ne_true)

/-- A character that is replaced is a control character, or one of those that Windows reserves. -/
theorem replaced_cases {c : Char} (h : isReplaced c = true) :
    isControl c = true ∨ c ∈ windowsReserved := by
  simpa [isReplaced] using h

/-- Nothing is replaced twice. -/
theorem replace_clean (c : Char) : isReplaced (replace c) = false := by
  cases h : isReplaced c with
  | true =>
      rw [replace_of_replaced h]
      rfl
  | false =>
      rw [replace_of_clean h]
      exact h

/-- White space is left where it is no control character. -/
theorem replace_whitespace (c : Char) : isWhitespace (replace c) = isBlank c := by
  unfold isBlank
  cases h : isReplaced c with
  | false => rw [replace_of_clean h, (is_replaced_iff.mp h).1, Bool.not_false, Bool.and_true]
  | true =>
      rw [replace_of_replaced h]
      rcases replaced_cases h with hcontrol | hmem
      · rw [hcontrol, Bool.not_true, Bool.and_false]
        rfl
      · have hall : windowsReserved.all (fun d => !isWhitespace d) = true := by decide
        have hspace : isWhitespace c = false := by simpa using List.all_eq_true.mp hall c hmem
        rw [hspace, Bool.false_and]
        rfl

/-- Neither a letter nor a digit, nor a dot or a space, is replaced. -/
theorem replaced_not {c : Char} (h : isReplaced c = true) :
    c.isAlphanum = false ∧ c ≠ '.' ∧ c ≠ ' ' := by
  rcases replaced_cases h with hcontrol | hmem
  · refine ⟨?_, ?_, ?_⟩
    · simp only [isControl, Bool.or_eq_true, Bool.and_eq_true, decide_eq_true_eq] at hcontrol
      by_contra halphanum
      have hbounds := alphanum_bounds (Bool.of_not_eq_false halphanum)
      omega
    · rintro rfl
      exact absurd hcontrol (by decide)
    · rintro rfl
      exact absurd hcontrol (by decide)
  · have hall : windowsReserved.all (fun d => !d.isAlphanum && (d ≠ '.' && d ≠ ' ')) = true := by
      decide
    simpa using List.all_eq_true.mp hall c hmem

theorem replace_dot (c : Char) : replace c = '.' ↔ c = '.' := by
  cases h : isReplaced c with
  | false => rw [replace_of_clean h]
  | true =>
      rw [replace_of_replaced h]
      exact ⟨fun hdot => absurd hdot (by decide), fun hdot => absurd hdot (replaced_not h).2.1⟩

theorem replace_space (c : Char) : replace c = ' ' ↔ c = ' ' := by
  cases h : isReplaced c with
  | false => rw [replace_of_clean h]
  | true =>
      rw [replace_of_replaced h]
      exact ⟨fun hspace => absurd hspace (by decide),
        fun hspace => absurd hspace (replaced_not h).2.2⟩

/-- What is trimmed at the end is trimmed before the replacement or afterwards. -/
theorem replace_trailing (c : Char) : isTrailing (replace c) = isTrailing c := by
  rw [Bool.eq_iff_iff]
  simp only [isTrailing, Bool.or_eq_true, beq_iff_eq, replace_dot, replace_space]

theorem rdrop_while_map {α β : Type} (f : α → β) (p : β → Bool) (l : List α) :
    (l.map f).rdropWhile p = (l.rdropWhile fun a => p (f a)).map f := by
  rw [List.rdropWhile, ← List.map_reverse, List.dropWhile_map, ← List.map_reverse]
  rfl

/-- What is left of a name is its core, with what is replaced in it. -/
theorem sanitize_eq (name : Text) :
    sanitize name = if core name = [] then "Profile".toList else (core name).map replace := by
  have htrim : Text.trim (name.map replace) =
      ((name.dropWhile isBlank).rdropWhile isBlank).map replace := by
    rw [Text.trim, Text.trimStart, List.dropWhile_map, Text.trimEnd, rdrop_while_map]
    simp only [Function.comp_def, replace_whitespace]
  have hcore : (Text.trim (name.map replace)).rdropWhile isTrailing = (core name).map replace := by
    rw [htrim, rdrop_while_map, core]
    simp only [replace_trailing]
  unfold sanitize
  simp only [hcore, List.map_eq_nil_iff]

/-! ## Names that are written -/

/-- The names of devices consist of letters and digits. -/
theorem device_alphanum {d : Text} (hd : d ∈ devices) :
    ∀ c ∈ d.toAsciiLowercase, c.isAlphanum = true := by
  have hall : devices.all (fun d => d.toAsciiLowercase.all Char.isAlphanum) = true := by decide
  exact List.all_eq_true.mp (List.all_eq_true.mp hall d hd)

/-- What is replaced has no case. -/
theorem to_lower_replaced {c : Char} (h : isReplaced c = true) : c.toLower = c := by
  have halpha : c.isAlpha = false := (Bool.or_eq_false_iff.mp (replaced_not h).1).1
  have hupper : c.isUpper = false := (Bool.or_eq_false_iff.mp halpha).1
  exact to_lower_eq hupper

/-- A name with anything but letters and digits is no device. -/
theorem not_device {s : Text} {c : Char} (hc : c ∈ s.toAsciiLowercase)
    (halpha : c.isAlphanum = false) : isDevice s = false := by
  rw [isDevice, List.any_eq_false]
  intro d hd heq
  rw [Text.eqIgnoreCase, beq_iff_eq] at heq
  rw [heq] at hc
  exact absurd (halpha.symm.trans (device_alphanum hd c hc)) (by simp)

/-- What is replaced makes no name of a device, and is in none. -/
theorem is_device_replace (s : Text) : isDevice (s.map replace) = isDevice s := by
  by_cases hreplaced : ∃ c ∈ s, isReplaced c = true
  · obtain ⟨c, hc, hrep⟩ := hreplaced
    have hbefore : c ∈ s.toAsciiLowercase := List.mem_map.mpr ⟨c, hc, to_lower_replaced hrep⟩
    have hdash : '-' ∈ s.map replace := List.mem_map.mpr ⟨c, hc, replace_of_replaced hrep⟩
    have hafter : '-' ∈ Text.toAsciiLowercase (s.map replace) := List.mem_map.mpr ⟨'-', hdash, rfl⟩
    rw [not_device hbefore (replaced_not hrep).1, not_device hafter rfl]
  · have hsame : s.map replace = s := by
      refine (List.map_congr_left fun c hc => ?_).trans (List.map_id s)
      exact replace_of_clean (Bool.eq_false_iff.mpr fun hrep => hreplaced ⟨c, hc, hrep⟩)
    rw [hsame]

/-- What stands behind the first dot does not matter. -/
theorem before_dot_append (s rest : Text) : beforeDot (s ++ '.' :: rest) = beforeDot s := by
  rw [beforeDot, List.takeWhile_append]
  split
  · rw [List.takeWhile_cons_of_neg (by simp), List.append_nil]
    next hall => exact ((List.takeWhile_prefix _).eq_of_length hall).symm
  · rfl

/-- The replacement makes no dot, and takes none. -/
theorem before_dot_replace (s : Text) : beforeDot (s.map replace) = (beforeDot s).map replace := by
  rw [beforeDot, List.takeWhile_map, beforeDot]
  simp only [Function.comp_def, ne_eq, replace_dot]

/-- A dash is one byte, and other characters keep theirs. -/
theorem written_length_eq (s : Text) : (Text.toBytes (s.map replace)).length = writtenLength s := by
  induction s with
  | nil => rfl
  | cons c rest ih =>
      rw [List.map_cons, Text.to_bytes_cons, List.length_append, String.length_utf8EncodeChar, ih,
        writtenLength]
      cases h : isReplaced c with
      | false => rw [replace_of_clean h]; rfl
      | true => rw [replace_of_replaced h]; rfl

/-- The last dot is the one before the extension. -/
theorem last_dot {stem s ext ext' : Text} (h : s ++ '.' :: ext = stem ++ '.' :: ext')
    (hext : '.' ∉ ext) (hext' : '.' ∉ ext') : stem = s := by
  rcases List.append_eq_append_iff.mp h with ⟨mid, rfl, hmid⟩ | ⟨mid, rfl, hmid⟩
  · cases mid with
    | nil => rw [List.append_nil]
    | cons c mid =>
        obtain ⟨rfl, rfl⟩ := List.cons.inj hmid
        exact absurd (List.mem_append_right mid (List.mem_cons_self ..)) hext
  · cases mid with
    | nil => rw [List.append_nil]
    | cons c mid =>
        obtain ⟨rfl, rfl⟩ := List.cons.inj hmid
        exact absurd (List.mem_append_right mid (List.mem_cons_self ..)) hext'

/-- A stem that ends well and is clean is accepted exactly if it names no device and is not too
long. -/
theorem accepted_stem_iff {s : Text} (hclean : ∀ c ∈ s, isReplaced c = false) (hends : EndsWell s) :
    Accepted (s ++ '.' :: EXTENSION) ↔
      isDevice (beforeDot s) = false ∧ s.toBytes.length ≤ 244 := by
  have hlength : (Text.toBytes (s ++ '.' :: EXTENSION)).length = s.toBytes.length + 11 := by
    rw [Text.to_bytes_append, List.length_append]
    rfl
  constructor
  · intro h
    have hdevice := h.device
    have hle := h.length_le
    rw [before_dot_append] at hdevice
    exact ⟨hdevice, by omega⟩
  · rintro ⟨hdevice, hle⟩
    refine ⟨List.append_ne_nil_of_right_ne_nil _ (List.cons_ne_nil _ _), ?_, ?_, ?_, ?_, by omega⟩
    · intro c hc
      rw [← is_replaced_iff]
      rcases List.mem_append.mp hc with hc | hc
      · exact hclean c hc
      · have hall : ('.' :: EXTENSION).all (fun d => !isReplaced d) = true := by decide
        simpa using List.all_eq_true.mp hall c hc
    · intro c hc
      rw [List.getLast?_append_of_ne_nil _ (List.cons_ne_nil _ _)] at hc
      obtain rfl : 'e' = c := Option.some.inj hc
      decide
    · intro stem ext heq hext
      rw [last_dot heq (by decide) hext]
      exact hends
    · rw [before_dot_append]
      exact hdevice

/-- A text without its trailing dots and spaces ends well. -/
theorem ends_well_trimmed (s : Text) : EndsWell (s.rdropWhile isTrailing) := by
  intro c hc
  obtain ⟨hne, rfl⟩ := List.mem_getLast?_eq_getLast hc
  have hlast := List.rdropWhile_last_not isTrailing s hne
  simpa [isTrailing] using hlast

/-- What `sanitize` returns is clean and ends well. -/
theorem sanitize_clean (name : Text) :
    (∀ c ∈ sanitize name, isReplaced c = false) ∧ EndsWell (sanitize name) := by
  constructor
  · rw [sanitize_eq]
    split
    · have hall : "Profile".toList.all (fun c => !isReplaced c) = true := by decide
      intro c hc
      simpa using List.all_eq_true.mp hall c hc
    · intro c hc
      obtain ⟨d, _, rfl⟩ := List.mem_map.mp hc
      exact replace_clean d
  · unfold sanitize
    simp only
    split
    · intro c hc
      obtain rfl : 'e' = c := Option.some.inj hc
      decide
    · exact ends_well_trimmed _

/-- The name of the profile decides what is left open. -/
theorem sanitize_fits (name : Text) :
    isDevice (beforeDot (sanitize name)) = false ∧ (sanitize name).toBytes.length ≤ 244 ↔
      Fits name := by
  rw [sanitize_eq, Fits]
  split
  · next hnil =>
      rw [hnil]
      exact iff_of_true (by decide) (by decide)
  · rw [before_dot_replace, is_device_replace, written_length_eq]

/-- The name of a file with several profiles, or none. -/
theorem several_accepted {n : Nat} (h : n < 2 ^ 64) :
    Accepted ("ONC profiles (".toList ++ decimalText n ++ ")".toList ++ '.' :: EXTENSION) := by
  have hlength : (decimalText n).length ≤ 20 :=
    (Nat.length_toDigits_le_iff (by omega) (by omega)).mpr (Nat.lt_of_lt_of_le h (by norm_num))
  have hascii : ∀ c ∈ decimalText n, c.toNat < 0x80 := fun c hc =>
    digit_lt (decimal_text_digit hc)
  refine (accepted_stem_iff ?_ ?_).mpr ⟨?_, ?_⟩
  · intro c hc
    rw [List.mem_append, List.mem_append] at hc
    rcases hc with (hc | hc) | hc
    · have hall : "ONC profiles (".toList.all (fun d => !isReplaced d) = true := by decide
      simpa using List.all_eq_true.mp hall c hc
    · cases hrep : isReplaced c with
      | false => rfl
      | true =>
          have halpha := (replaced_not hrep).1
          rw [Char.isAlphanum, decimal_text_digit hc, Bool.or_true] at halpha
          exact absurd halpha (by simp)
    · obtain rfl : c = ')' := List.mem_singleton.mp hc
      decide
  · intro c hc
    rw [List.getLast?_append_of_ne_nil _ (by simp)] at hc
    obtain rfl : ')' = c := Option.some.inj hc
    decide
  · have hspace : ' ' ∈ Text.toAsciiLowercase
        (beforeDot ("ONC profiles (".toList ++ decimalText n ++ ")".toList)) := by
      refine List.mem_map.mpr ⟨' ', ?_, rfl⟩
      show ' ' ∈ 'O' :: 'N' :: 'C' :: ' ' :: _
      simp
    exact not_device hspace rfl
  · rw [Text.to_bytes_append, Text.to_bytes_append, List.length_append, List.length_append,
      Text.to_bytes_ascii hascii, List.length_map]
    show 14 + (decimalText n).length + 1 ≤ 244
    omega

/-- The name of the file is accepted everywhere exactly if there are several profiles, or none, or
the name of the only one fits. -/
theorem accepted_iff (profiles : List Profile) (hlength : profiles.length < 2 ^ 64) :
    Accepted (fileNameFor profiles) ↔ ∀ p, profiles = [p] → Fits p.name := by
  cases profiles with
  | nil => exact iff_of_true (several_accepted hlength) fun p hp => absurd hp (by simp)
  | cons p rest =>
      cases rest with
      | nil =>
          obtain ⟨hclean, hends⟩ := sanitize_clean p.name
          show Accepted (sanitize p.name ++ '.' :: EXTENSION) ↔ _
          rw [accepted_stem_iff hclean hends, sanitize_fits]
          constructor
          · intro hfits p' hp
            obtain rfl : p = p' := (List.cons.inj hp).1
            exact hfits
          · exact fun hall => hall p rfl
      | cons q rest =>
          exact iff_of_true (several_accepted hlength) fun p' hp => absurd hp (by simp)

/-- A profile for a rig. -/
def namedRig : Profile := { name := "a<b>c:d.".toList }

theorem accepted_iff_rig : Accepted (fileNameFor [namedRig]) :=
  (accepted_iff [namedRig] (by decide)).mpr fun p hp => by
    obtain rfl : namedRig = p := (List.cons.inj hp).1
    exact ⟨by decide, by decide⟩

/-- A profile that is named like a device is exported under the name of the device. -/
theorem device_name_exported :
    fileNameFor [{ name := "aux.backup".toList }] = "aux.backup.oncprofile".toList ∧
      ¬ Accepted (fileNameFor [{ name := "aux.backup".toList }]) := by
  have hname : fileNameFor [{ name := "aux.backup".toList }] = "aux.backup.oncprofile".toList := by
    decide
  refine ⟨hname, fun h => ?_⟩
  rw [hname] at h
  exact absurd h.device (by decide)

end ProfileFile
end OpenNtrip
