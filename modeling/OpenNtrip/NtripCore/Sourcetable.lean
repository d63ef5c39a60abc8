import OpenNtrip.NtripCore.Session
import OpenNtrip.Rust.Strings
import OpenNtrip.Rust.Utf8

/-!
# The sourcetable parser

`sourcetable.rs`: a table body is split into lines, and every line that is neither blank nor the
end marker is reported, as a record or unparsed. `parse_marker` relates the marker of the parser,
which reads decoded text, to the marker of the session, which reads bytes.
-/

namespace OpenNtrip

namespace Sourcetable

/-! ## Records -/

/-- One mountpoint. `misc` is what follows the standard fields, rejoined verbatim. -/
structure StrRecord (F32 : Type) where
  mountpoint : Text
  identifier : Text
  format : Text
  formatDetails : Text
  carrier : UInt8
  navSystem : Text
  network : Text
  country : Text
  lat : F32
  lon : F32
  nmeaRequired : Bool
  solution : UInt8
  generator : Text
  compression : Text
  auth : Char
  fee : Bool
  bitrate : UInt32
  misc : Text
  deriving DecidableEq, Repr

/-- One caster. -/
structure CasRecord (F32 : Type) where
  host : Text
  port : UInt16
  identifier : Text
  operator : Text
  nmea : Text
  country : Text
  lat : F32
  lon : F32
  misc : Text
  deriving DecidableEq, Repr

/-- One network. -/
structure NetRecord where
  identifier : Text
  operator : Text
  auth : Text
  fee : Text
  webNet : Text
  webStr : Text
  webReg : Text
  misc : Text
  deriving DecidableEq, Repr

/-- The records of a table in order, and every other line that is neither blank nor the end marker.
-/
structure SourceTable (F32 : Type) where
  strs : List (StrRecord F32) := []
  casters : List (CasRecord F32) := []
  networks : List NetRecord := []
  unparsed : List Text := []
  deriving DecidableEq, Repr

/-- The number of lines reported. -/
def SourceTable.entries {F32 : Type} (table : SourceTable F32) : Nat :=
  table.strs.length + table.casters.length + table.networks.length + table.unparsed.length

/-! ## Fields -/

/-- A field as published; absent fields read as empty. -/
def field (fields : List Text) (i : Nat) : Text := fields[i]?.getD []

/-- A field as a number, the default if it is none. -/
def num {T : Type} [Inhabited T] (parse : Text → Option T) (fields : List Text) (i : Nat) : T :=
  (parse (field fields i).trim).getD default

/-- The fields from `start` on, rejoined. -/
def miscFrom (fields : List Text) (start : Nat) : Text :=
  [';'].intercalate (fields.drop start)

section

variable {F32 : Type} [Inhabited F32] (parseF32 : Text → Option F32)

def parseStr (fields : List Text) : StrRecord F32 where
  mountpoint := field fields 1
  identifier := field fields 2
  format := field fields 3
  formatDetails := field fields 4
  carrier := num Text.parseU8 fields 5
  navSystem := field fields 6
  network := field fields 7
  country := field fields 8
  lat := num parseF32 fields 9
  lon := num parseF32 fields 10
  nmeaRequired := (field fields 11).trim = ['1']
  solution := num Text.parseU8 fields 12
  generator := field fields 13
  compression := field fields 14
  auth := (field fields 15).trim.head?.getD ' '
  fee := (field fields 16).trim.eqIgnoreCase ['Y']
  bitrate := num Text.parseU32 fields 17
  misc := miscFrom fields 18

def parseCas (fields : List Text) : CasRecord F32 where
  host := field fields 1
  port := num Text.parseU16 fields 2
  identifier := field fields 3
  operator := field fields 4
  nmea := field fields 5
  country := field fields 6
  lat := num parseF32 fields 7
  lon := num parseF32 fields 8
  misc := miscFrom fields 9

def parseNet (fields : List Text) : NetRecord where
  identifier := field fields 1
  operator := field fields 2
  auth := field fields 3
  fee := field fields 4
  webNet := field fields 5
  webStr := field fields 6
  webReg := field fields 7
  misc := miscFrom fields 8

/-! ## Lines -/

/-- A line of nothing but ASCII white space. -/
def isBlank (line : Text) : Bool := (Text.trimAscii line.stripCr).isEmpty

/-- The end marker, up to surrounding white space and case. -/
def isMarker (line : Text) : Bool :=
  (Text.trimAscii line.stripCr).eqIgnoreCase "ENDSOURCETABLE".toList

/-- One line joins the table. -/
def addLine (table : SourceTable F32) (line : Text) : SourceTable F32 :=
  if isBlank line || isMarker line then table
  else
    let fields := line.stripCr.splitOn ';'
    if field fields 0 = "STR".toList then
      { table with strs := table.strs ++ [parseStr parseF32 fields] }
    else if field fields 0 = "CAS".toList then
      { table with casters := table.casters ++ [parseCas parseF32 fields] }
    else if field fields 0 = "NET".toList then
      { table with networks := table.networks ++ [parseNet fields] }
    else { table with unparsed := table.unparsed ++ [line.stripCr] }

/-- The lines of a body, decoded. -/
def textLines (raw : Bytes) : List Text := (fromUtf8Lossy raw).splitOn '\n'

/-- `sourcetable::parse`. -/
def parse (raw : Bytes) : SourceTable F32 := (textLines raw).foldl (addLine parseF32) {}

/-! ## Every other line is reported once -/

/-- A line that is skipped changes nothing. -/
theorem add_line_skip {line : Text} (h : (isBlank line || isMarker line) = true)
    (table : SourceTable F32) : addLine parseF32 table line = table := by
  rw [addLine, if_pos h]

/-- Any other line is reported once. -/
theorem entries_add_line {line : Text} (h : (isBlank line || isMarker line) = false)
    (table : SourceTable F32) :
    (addLine parseF32 table line).entries = table.entries + 1 := by
  have hreported : ¬ (isBlank line || isMarker line) = true := by rw [h]; exact Bool.false_ne_true
  rw [addLine, if_neg hreported]
  simp only
  split
  · simp only [SourceTable.entries, List.length_append, List.length_singleton]
    omega
  split
  · simp only [SourceTable.entries, List.length_append, List.length_singleton]
    omega
  split
  · simp only [SourceTable.entries, List.length_append, List.length_singleton]
    omega
  · simp only [SourceTable.entries, List.length_append, List.length_singleton]
    omega

/-- Whatever is in a body, each of its lines is reported once unless it is blank or the end marker.
-/
theorem entries_fold (lines : List Text) (table : SourceTable F32) :
    (lines.foldl (addLine parseF32) table).entries =
      table.entries + lines.countP fun line => !(isBlank line || isMarker line) := by
  induction lines generalizing table with
  | nil => rfl
  | cons line rest ih =>
      rw [List.foldl_cons, ih, List.countP_cons]
      cases hskip : isBlank line || isMarker line with
      | true =>
          rw [add_line_skip parseF32 hskip]
          rfl
      | false =>
          rw [entries_add_line parseF32 hskip]
          simp only [Bool.not_false, if_true]
          omega

/-! ## Lines of bytes -/

/-- Line feeds split a body before it is decoded as they do afterwards. -/
theorem text_lines_append (first after : Bytes) :
    textLines (first ++ LF :: after) = textLines first ++ textLines after := by
  have hlf : LF < 0x80 := by decide
  rw [textLines, Text.from_utf8_lossy_append hlf, Text.from_utf8_lossy_cons hlf]
  exact List.splitOn_append_cons_self _ _

theorem text_lines_line {line : Bytes} (h : LF ∉ line) : textLines line = [fromUtf8Lossy line] := by
  refine List.splitOn_eq_singleton fun hmem => h ?_
  exact Text.mem_decode_lossy hmem (by decide)

/-- Nothing but complete lines. -/
def CompleteLines (bytes : Bytes) : Prop := bytes = [] ∨ ∃ first, bytes = first ++ [LF]

/-- A line in the middle of a body joins the table between those before and those after it. -/
theorem parse_line {before line : Bytes} (hbefore : CompleteLines before)
    (hline : LF ∉ line) (after : Bytes) :
    ∃ table, parse parseF32 (before ++ after) =
        (textLines after).foldl (addLine parseF32) table ∧
      parse parseF32 (before ++ line ++ LF :: after) =
        (textLines after).foldl (addLine parseF32)
          (addLine parseF32 table (fromUtf8Lossy line)) := by
  rcases hbefore with rfl | ⟨first, rfl⟩
  · refine ⟨{}, rfl, ?_⟩
    rw [parse, text_lines_append, List.nil_append, text_lines_line hline]
    rfl
  · refine ⟨parse parseF32 first, ?_, ?_⟩
    · rw [List.append_assoc, List.singleton_append, parse, text_lines_append, List.foldl_append]
      rfl
    · rw [List.append_assoc, List.append_assoc, List.singleton_append, parse, text_lines_append,
        text_lines_append, text_lines_line hline, List.foldl_append, List.singleton_append]
      rfl

/-! ## The marker in bytes and in text -/

/-- The character of an ASCII byte. -/
def asciiChar (b : UInt8) : Char := Char.ofNat b.toNat

/-- What holds of the ASCII bytes one by one. -/
theorem ascii_forall {p : UInt8 → Prop} (h : ∀ n < 128, p (UInt8.ofNat n)) {b : UInt8}
    (hb : b < 0x80) : p b := by
  have hp := h b.toNat hb
  rwa [UInt8.ofNat_toNat] at hp

theorem ascii_char_whitespace {b : UInt8} (hb : b < 0x80) :
    isAsciiWhitespaceChar (asciiChar b) = isAsciiWhitespace b :=
  ascii_forall (p := fun b => isAsciiWhitespaceChar (asciiChar b) = isAsciiWhitespace b)
    (by decide) hb

theorem ascii_char_cr {b : UInt8} (hb : b < 0x80) : asciiChar b = '\r' ↔ b = CR :=
  ascii_forall (p := fun b => asciiChar b = '\r' ↔ b = CR) (by decide) hb

/-- Either way of folding the case of an ASCII byte is a function of the other. -/
theorem ascii_char_lower {b : UInt8} (hb : b < 0x80) :
    (asciiChar b).toLower = (asciiChar (toAsciiUpper b)).toLower :=
  ascii_forall (p := fun b => (asciiChar b).toLower = (asciiChar (toAsciiUpper b)).toLower)
    (by decide) hb

theorem ascii_char_upper {b : UInt8} (hb : b < 0x80) :
    toAsciiUpper b = UInt8.ofNat (asciiChar b).toLower.toUpper.toNat :=
  ascii_forall (p := fun b => toAsciiUpper b = UInt8.ofNat (asciiChar b).toLower.toUpper.toNat)
    (by decide) hb

/-- ASCII bytes are equal up to case as bytes when they are as text. -/
theorem eq_ignore_case_ascii {left right : Bytes} (hleft : ∀ b ∈ left, b < 0x80)
    (hright : ∀ b ∈ right, b < 0x80) :
    Text.eqIgnoreCase (left.map asciiChar) (right.map asciiChar) =
      eqIgnoreAsciiCase left right := by
  have hlower : ∀ bytes : Bytes, (∀ b ∈ bytes, b < 0x80) →
      Text.toAsciiLowercase (bytes.map asciiChar) =
        (bytes.map toAsciiUpper).map fun b => (asciiChar b).toLower := by
    intro bytes hascii
    rw [Text.toAsciiLowercase, List.map_map, List.map_map]
    exact List.map_congr_left fun b hb => ascii_char_lower (hascii b hb)
  have hupper : ∀ bytes : Bytes, (∀ b ∈ bytes, b < 0x80) →
      bytes.map toAsciiUpper =
        (Text.toAsciiLowercase (bytes.map asciiChar)).map fun c => UInt8.ofNat c.toUpper.toNat := by
    intro bytes hascii
    rw [Text.toAsciiLowercase, List.map_map, List.map_map]
    exact List.map_congr_left fun b hb => ascii_char_upper (hascii b hb)
  rw [Text.eqIgnoreCase, eqIgnoreAsciiCase, Bool.eq_iff_iff, beq_iff_eq, beq_iff_eq]
  constructor
  · intro h
    rw [hupper left hleft, hupper right hright, h]
  · intro h
    rw [hlower left hleft, hlower right hright, h]

/-- Dropping white space from ASCII bytes drops it from their text. -/
theorem trim_ascii_map {bytes : Bytes} (h : ∀ b ∈ bytes, b < 0x80) :
    Text.trimAscii (bytes.map asciiChar) = (trimAscii bytes).map asciiChar := by
  have hdrop : ∀ bytes : Bytes, (∀ b ∈ bytes, b < 0x80) →
      (bytes.map asciiChar).dropWhile isAsciiWhitespaceChar =
        (bytes.dropWhile isAsciiWhitespace).map asciiChar := by
    intro bytes hascii
    induction bytes with
    | nil => rfl
    | cons b rest ih =>
        have hspace := ascii_char_whitespace (hascii b List.mem_cons_self)
        rw [List.map_cons, List.dropWhile_cons, List.dropWhile_cons, hspace,
          ih fun c hc => hascii c (List.mem_cons_of_mem _ hc)]
        split
        · rfl
        · rfl
  have hrest : ∀ b ∈ (bytes.dropWhile isAsciiWhitespace).reverse, b < 0x80 := fun b hb =>
    h b ((List.dropWhile_suffix _).subset (List.mem_reverse.mp hb))
  rw [Text.trimAscii, trimAscii, hdrop bytes h, List.rdropWhile, List.rdropWhile,
    ← List.map_reverse, hdrop _ hrest, List.map_reverse]

theorem strip_cr_map {line : Bytes} (h : ∀ b ∈ line, b < 0x80) :
    Text.stripCr (line.map asciiChar) = (stripCr line).map asciiChar := by
  have hlast : (line.map asciiChar).getLast? = some '\r' ↔ line.getLast? = some CR := by
    rw [List.getLast?_map, Option.map_eq_some_iff]
    constructor
    · rintro ⟨b, hb, hcr⟩
      rw [hb, (ascii_char_cr (h b (List.mem_of_getLast? hb))).mp hcr]
    · intro hcr
      exact ⟨CR, hcr, rfl⟩
  rw [Text.stripCr, stripCr]
  by_cases hcr : line.getLast? = some CR
  · rw [if_pos hcr, if_pos (hlast.mpr hcr), List.map_dropLast]
  · rw [if_neg hcr, if_neg (mt hlast.mp hcr)]

theorem bytes_ascii_of_all {bytes : Bytes} (h : (bytes.all fun b => decide (b < 0x80)) = true) :
    ∀ b ∈ bytes, b < 0x80 := fun b hb => of_decide_eq_true (List.all_eq_true.mp h b hb)

/-- An ASCII line is the marker as text when it is as bytes. -/
theorem is_marker_ascii {line : Bytes} (h : ∀ b ∈ line, b < 0x80) :
    isMarker (fromUtf8Lossy line) = isEndLine line := by
  have hstripped : ∀ b ∈ stripCr line, b < 0x80 := by
    intro b hb
    rw [stripCr] at hb
    split at hb
    · exact h b (List.dropLast_subset _ hb)
    · exact h b hb
  have htrimmed : ∀ b ∈ trimAscii (stripCr line), b < 0x80 := fun b hb =>
    hstripped b ((List.dropWhile_suffix _).subset ((List.rdropWhile_prefix _ _).subset hb))
  have hmarker : ∀ b ∈ ascii "ENDSOURCETABLE", b < 0x80 := bytes_ascii_of_all (by decide)
  rw [from_utf8_lossy_ascii h, isMarker, isEndLine]
  show Text.eqIgnoreCase (Text.trimAscii (Text.stripCr (line.map asciiChar)))
    ((ascii "ENDSOURCETABLE").map asciiChar) = _
  rw [strip_cr_map h, trim_ascii_map hstripped, eq_ignore_case_ascii htrimmed hmarker]

/-! ### Other lines are neither blank nor the marker -/

/-- What trimming takes away is white space. -/
theorem mem_trimmed_or {A : Type} {p : A → Bool} {l : List A} {a : A} (h : a ∈ l) :
    p a = true ∨ a ∈ (l.dropWhile p).rdropWhile p := by
  have hdrop : ∀ l : List A, a ∈ l → p a = true ∨ a ∈ l.dropWhile p := by
    intro l hmem
    rw [← List.takeWhile_append_dropWhile (p := p) (l := l), List.mem_append] at hmem
    exact hmem.imp_left List.mem_takeWhile_imp
  rcases hdrop l h with hspace | hmem
  · exact .inl hspace
  · rcases hdrop _ (List.mem_reverse.mpr hmem) with hspace | hmem
    · exact .inl hspace
    · exact .inr (List.mem_reverse.mpr hmem)

theorem trimmed_eq_nil {A : Type} {p : A → Bool} {l : List A} :
    (l.dropWhile p).rdropWhile p = [] ↔ ∀ a ∈ l, p a = true := by
  constructor
  · intro h a ha
    rcases mem_trimmed_or (p := p) ha with hspace | hmem
    · exact hspace
    · rw [h] at hmem
      exact absurd hmem List.not_mem_nil
  · intro h
    rw [List.dropWhile_eq_nil_iff.mpr h]
    rfl

theorem mem_strip_cr_or {line : Bytes} {b : UInt8} (h : b ∈ line) : b = CR ∨ b ∈ stripCr line := by
  rw [stripCr]
  split
  · next hcr =>
      rw [← List.dropLast_append_getLast? CR hcr, List.mem_append, List.mem_singleton] at h
      exact h.symm
  · exact .inr h

theorem mem_text_strip_cr_or {line : Text} {c : Char} (h : c ∈ line) :
    c = '\r' ∨ c ∈ line.stripCr := by
  rw [Text.stripCr]
  split
  · next hcr =>
      rw [← List.dropLast_append_getLast? '\r' hcr, List.mem_append, List.mem_singleton] at h
      exact h.symm
  · exact .inr h

theorem ascii_of_lower {c : Char} (h : c.toLower.toNat < 0x80) : c.toNat < 0x80 := by
  by_cases hupper : c.val ≥ 'A'.val ∧ c.val ≤ 'Z'.val
  · have hle : c.toNat ≤ 90 := hupper.2
    omega
  · have hsame : c.toLower = c := dif_neg hupper
    rw [hsame] at h
    exact h

theorem ascii_of_upper {b : UInt8} (h : toAsciiUpper b < 0x80) : b < 0x80 := by
  rw [toAsciiUpper] at h
  split at h
  · next hlower => exact Nat.lt_of_le_of_lt hlower.2 (by decide)
  · exact h

theorem whitespace_ascii {b : UInt8} (h : isAsciiWhitespace b = true) : b < 0x80 := by
  simp only [isAsciiWhitespace, Bool.or_eq_true, beq_iff_eq] at h
  rcases h with (((rfl | rfl) | rfl) | rfl) | rfl <;> decide

theorem whitespace_char_ascii {c : Char} (h : isAsciiWhitespaceChar c = true) :
    c.toNat < 0x80 := by
  simp only [isAsciiWhitespaceChar, Bool.or_eq_true, beq_iff_eq] at h
  rcases h with (((rfl | rfl) | rfl) | rfl) | rfl <;> decide

/-- Only ASCII characters make up the marker and the white space around it. -/
theorem marker_ascii {line : Text} (h : isMarker line = true) : ∀ c ∈ line, c.toNat < 0x80 := by
  have hall : ((Text.toAsciiLowercase "ENDSOURCETABLE".toList).all
      fun c => decide (c.toNat < 0x80)) = true := by decide
  have hletters : ∀ c ∈ Text.toAsciiLowercase "ENDSOURCETABLE".toList, c.toNat < 0x80 :=
    fun c hc => of_decide_eq_true (List.all_eq_true.mp hall c hc)
  rw [isMarker, Text.eqIgnoreCase, beq_iff_eq] at h
  rw [← h, Text.toAsciiLowercase] at hletters
  intro c hc
  rcases mem_text_strip_cr_or hc with rfl | hstripped
  · decide
  rcases mem_trimmed_or (p := isAsciiWhitespaceChar) hstripped with hspace | htrimmed
  · exact whitespace_char_ascii hspace
  · exact ascii_of_lower (hletters _ (List.mem_map_of_mem htrimmed))

theorem end_line_ascii {line : Bytes} (h : isEndLine line = true) : ∀ b ∈ line, b < 0x80 := by
  have hletters : ∀ b ∈ (ascii "ENDSOURCETABLE").map toAsciiUpper, b < 0x80 :=
    bytes_ascii_of_all (by decide)
  rw [isEndLine, eqIgnoreAsciiCase, beq_iff_eq] at h
  rw [← h] at hletters
  intro b hb
  rcases mem_strip_cr_or hb with rfl | hstripped
  · decide
  rcases mem_trimmed_or (p := isAsciiWhitespace) hstripped with hspace | htrimmed
  · exact whitespace_ascii hspace
  · exact ascii_of_upper (hletters _ (List.mem_map_of_mem htrimmed))

/-- The parser and the session recognise the same lines as the end marker. -/
theorem is_marker_line (line : Bytes) : isMarker (fromUtf8Lossy line) = isEndLine line := by
  by_cases hascii : ∀ b ∈ line, b < 0x80
  · exact is_marker_ascii hascii
  · -- bytes that are not ASCII are decoded to characters that are not
    have htext : isMarker (fromUtf8Lossy line) = false := Bool.eq_false_iff.mpr fun hmarker =>
      hascii (Text.ascii_of_from_utf8_lossy (marker_ascii hmarker))
    have hbytes : isEndLine line = false := Bool.eq_false_iff.mpr fun hend =>
      hascii (end_line_ascii hend)
    rw [htext, hbytes]

/-- The blank lines are those of ASCII white space. -/
theorem is_blank_line (line : Bytes) :
    isBlank (fromUtf8Lossy line) = true ↔ ∀ b ∈ line, isAsciiWhitespace b = true := by
  have hblank : ∀ text : Text,
      isBlank text = true ↔ ∀ c ∈ text, isAsciiWhitespaceChar c = true := by
    intro text
    rw [isBlank, List.isEmpty_iff, Text.trimAscii, trimmed_eq_nil]
    constructor
    · intro h c hc
      rcases mem_text_strip_cr_or hc with rfl | hstripped
      · rfl
      · exact h c hstripped
    · intro h c hc
      rw [Text.stripCr] at hc
      split at hc
      · exact h c (List.dropLast_subset _ hc)
      · exact h c hc
  rw [hblank]
  constructor
  · intro h
    have hascii := Text.ascii_of_from_utf8_lossy fun c hc => whitespace_char_ascii (h c hc)
    rw [from_utf8_lossy_ascii hascii] at h
    intro b hb
    rw [← ascii_char_whitespace (hascii b hb)]
    exact h _ (List.mem_map_of_mem hb)
  · intro h
    have hascii : ∀ b ∈ line, b < 0x80 := fun b hb => whitespace_ascii (h b hb)
    rw [from_utf8_lossy_ascii hascii]
    intro c hc
    obtain ⟨b, hb, rfl⟩ := List.mem_map.mp hc
    exact (ascii_char_whitespace (hascii b hb)).trans (h b hb)

/-- The end marker is not blank. -/
theorem end_line_not_blank {line : Bytes} (h : isEndLine line = true) :
    ∃ b ∈ line, isAsciiWhitespace b = false := by
  have hmarker := (is_marker_line line).trans h
  by_contra hnone
  have hblank : isBlank (fromUtf8Lossy line) = true := by
    rw [is_blank_line]
    intro b hb
    by_contra hb'
    exact hnone ⟨b, hb, Bool.eq_false_iff.mpr hb'⟩
  rw [isBlank, List.isEmpty_iff] at hblank
  rw [isMarker, hblank] at hmarker
  exact absurd hmarker (by decide)

/-- A line that the session takes for the end marker is not blank and leaves no trace in what the
parser reports, and any other line that is not blank is reported once. -/
theorem parse_marker {before line : Bytes} (hbefore : CompleteLines before) (hline : LF ∉ line)
    (after : Bytes) :
    (isEndLine line = true ↔ (∃ b ∈ line, isAsciiWhitespace b = false) ∧
      parse parseF32 (before ++ line ++ LF :: after) = parse parseF32 (before ++ after)) ∧
    (isEndLine line = false → (∃ b ∈ line, isAsciiWhitespace b = false) →
      (parse parseF32 (before ++ line ++ LF :: after)).entries =
        (parse parseF32 (before ++ after)).entries + 1) := by
  obtain ⟨table, hwithout, hwith⟩ := parse_line parseF32 hbefore hline after
  have hreported : isEndLine line = false → (∃ b ∈ line, isAsciiWhitespace b = false) →
      (parse parseF32 (before ++ line ++ LF :: after)).entries =
        (parse parseF32 (before ++ after)).entries + 1 := by
    rintro hend ⟨b, hb, hspace⟩
    have hblank : isBlank (fromUtf8Lossy line) = false := by
      rw [Bool.eq_false_iff]
      intro hblank
      rw [(is_blank_line line).mp hblank b hb] at hspace
      exact absurd hspace (by decide)
    have hkept : (isBlank (fromUtf8Lossy line) || isMarker (fromUtf8Lossy line)) = false := by
      rw [hblank, is_marker_line, hend]
      rfl
    rw [hwith, hwithout, entries_fold, entries_fold, entries_add_line parseF32 hkept]
    omega
  refine ⟨⟨fun hend => ⟨end_line_not_blank hend, ?_⟩, ?_⟩, hreported⟩
  · have hskip : (isBlank (fromUtf8Lossy line) || isMarker (fromUtf8Lossy line)) = true := by
      rw [is_marker_line, hend, Bool.or_true]
    rw [hwith, hwithout, add_line_skip parseF32 hskip]
  · rintro ⟨hnotblank, hsame⟩
    by_contra hend
    have hone := hreported (Bool.eq_false_iff.mpr hend) hnotblank
    rw [hsame] at hone
    omega

end

end Sourcetable
end OpenNtrip
