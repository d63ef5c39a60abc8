import OpenNtrip.NtripCore.Sourcetable

/-!
# Lines and records of a sourcetable

A table body is parsed line by line: `parse_append` says that what is before a line feed and what is
after it are parsed apart, and `add_line_reported` what one line yields. A record that is written in
the order of its fields is read back (`parse_render_str`, `parse_render_cas`, `parse_render_net`).
-/

namespace OpenNtrip.Sourcetable

/-! ## Tables -/

/-- The entries of one table behind those of another, list by list. -/
def SourceTable.append {F32 : Type} (first second : SourceTable F32) : SourceTable F32 where
  strs := first.strs ++ second.strs
  casters := first.casters ++ second.casters
  networks := first.networks ++ second.networks
  unparsed := first.unparsed ++ second.unparsed

namespace SourceTable

variable {F32 : Type}

theorem append_empty (table : SourceTable F32) : table.append {} = table := by
  simp [append]

theorem append_assoc (first second third : SourceTable F32) :
    (first.append second).append third = first.append (second.append third) := by
  simp [append]

end SourceTable

section

variable {F32 : Type} [Inhabited F32] (parseF32 : Text → Option F32)

/-- What a line adds does not depend on the lines before it. -/
theorem add_line_eq_append (table : SourceTable F32) (line : Text) :
    addLine parseF32 table line = table.append (addLine parseF32 {} line) := by
  unfold addLine
  simp only
  split
  · exact table.append_empty.symm
  split
  · simp [SourceTable.append]
  split
  · simp [SourceTable.append]
  split
  · simp [SourceTable.append]
  · simp [SourceTable.append]

/-- Lines add up, whatever table they are added to. -/
theorem fold_eq_append (lines : List Text) (table : SourceTable F32) :
    lines.foldl (addLine parseF32) table =
      table.append (lines.foldl (addLine parseF32) {}) := by
  induction lines generalizing table with
  | nil => exact table.append_empty.symm
  | cons line rest ih =>
      rw [List.foldl_cons, List.foldl_cons, ih, add_line_eq_append, SourceTable.append_assoc,
        ← ih (addLine parseF32 {} line)]

/-- What is before a line feed and what is after it are parsed apart. -/
theorem parse_append (first after : Bytes) :
    parse parseF32 (first ++ LF :: after) =
      (parse parseF32 first).append (parse parseF32 after) := by
  rw [parse, text_lines_append, List.foldl_append, fold_eq_append]
  rfl

/-- A body without a line feed is one line. -/
theorem parse_one_line {line : Bytes} (h : LF ∉ line) :
    parse parseF32 line = addLine parseF32 {} (fromUtf8Lossy line) := by
  rw [parse, text_lines_line h]
  rfl

/-- A line that is not skipped yields one entry, in the list that its first field selects. -/
theorem add_line_reported {line : Text} (h : (isBlank line || isMarker line) = false) :
    let fields := line.stripCr.splitOn ';'
    (field fields 0 = "STR".toList →
        addLine parseF32 {} line = { strs := [parseStr parseF32 fields] }) ∧
      (field fields 0 = "CAS".toList →
        addLine parseF32 {} line = { casters := [parseCas parseF32 fields] }) ∧
      (field fields 0 = "NET".toList →
        addLine parseF32 {} line = { networks := [parseNet fields] }) ∧
      (field fields 0 ∉ ["STR".toList, "CAS".toList, "NET".toList] →
        addLine parseF32 {} line = { unparsed := [line.stripCr] }) := by
  intro fields
  have hreported : ¬ (isBlank line || isMarker line) = true := by simp [h]
  rw [addLine, if_neg hreported]
  show (field fields 0 = "STR".toList → (if _ then _ else _) = _) ∧ _
  refine ⟨?_, ?_, ?_, ?_⟩
  · intro hstr
    rw [if_pos hstr]
    rfl
  · intro hcas
    have hstr : field fields 0 ≠ "STR".toList := by
      rw [hcas]
      decide
    simp only
    rw [if_neg hstr, if_pos hcas]
    rfl
  · intro hnet
    have hstr : field fields 0 ≠ "STR".toList := by
      rw [hnet]
      decide
    have hcas : field fields 0 ≠ "CAS".toList := by
      rw [hnet]
      decide
    simp only
    rw [if_neg hstr, if_neg hcas, if_pos hnet]
    rfl
  · intro hother
    simp only [List.mem_cons, List.not_mem_nil, or_false, not_or] at hother
    simp only
    rw [if_neg hother.1, if_neg hother.2.1, if_neg hother.2.2]
    rfl

end

/-! ## Rendering -/

/-- A text that does not end the field it is in. -/
def CleanField (s : Text) : Prop := ';' ∉ s ∧ '\r' ∉ s ∧ '\n' ∉ s

instance (s : Text) : Decidable (CleanField s) := inferInstanceAs (Decidable (_ ∧ _))

/-- A line of a table: the fields, each followed by a semicolon, and the rest. -/
def renderLine (fields : List Text) (misc : Text) : Text :=
  fields.flatMap (· ++ [';']) ++ misc

/-- A flag as a table publishes it. -/
def flagText (flag : Bool) (yes no : Char) : Text := [if flag then yes else no]

section

variable {F32 : Type} (showF32 : F32 → Text)

/-- The fields of a mountpoint in the order of the table, after the tag. -/
def StrRecord.fields (r : StrRecord F32) : List Text :=
  [r.mountpoint, r.identifier, r.format, r.formatDetails, decimalText r.carrier.toNat, r.navSystem,
    r.network, r.country, showF32 r.lat, showF32 r.lon, flagText r.nmeaRequired '1' '0',
    decimalText r.solution.toNat, r.generator, r.compression, [r.auth], flagText r.fee 'Y' 'N',
    decimalText r.bitrate.toNat]

def CasRecord.fields (r : CasRecord F32) : List Text :=
  [r.host, decimalText r.port.toNat, r.identifier, r.operator, r.nmea, r.country, showF32 r.lat,
    showF32 r.lon]

def NetRecord.fields (r : NetRecord) : List Text :=
  [r.identifier, r.operator, r.auth, r.fee, r.webNet, r.webStr, r.webReg]

def StrRecord.render (r : StrRecord F32) : Text :=
  renderLine ("STR".toList :: r.fields showF32) r.misc

def CasRecord.render (r : CasRecord F32) : Text :=
  renderLine ("CAS".toList :: r.fields showF32) r.misc

def NetRecord.render (r : NetRecord) : Text := renderLine ("NET".toList :: r.fields) r.misc

/-- The texts of a record that make up fields of their own, and no line breaks in the rest. -/
def StrRecord.Clean (r : StrRecord F32) : Prop :=
  (∀ s ∈ [r.mountpoint, r.identifier, r.format, r.formatDetails, r.navSystem, r.network, r.country,
    showF32 r.lat, showF32 r.lon, r.generator, r.compression, [r.auth]], CleanField s) ∧
    '\r' ∉ r.misc ∧ '\n' ∉ r.misc

def CasRecord.Clean (r : CasRecord F32) : Prop :=
  (∀ s ∈ [r.host, r.identifier, r.operator, r.nmea, r.country, showF32 r.lat, showF32 r.lon],
    CleanField s) ∧ '\r' ∉ r.misc ∧ '\n' ∉ r.misc

def NetRecord.Clean (r : NetRecord) : Prop :=
  (∀ s ∈ r.fields, CleanField s) ∧ '\r' ∉ r.misc ∧ '\n' ∉ r.misc

instance (r : StrRecord F32) : Decidable (r.Clean showF32) := inferInstanceAs (Decidable (_ ∧ _))

instance (r : CasRecord F32) : Decidable (r.Clean showF32) := inferInstanceAs (Decidable (_ ∧ _))

instance (r : NetRecord) : Decidable r.Clean := inferInstanceAs (Decidable (_ ∧ _))

end

/-! ## Reading a rendered line -/

/-- The fields of a rendered line are its fields and those of the rest. -/
theorem split_render_line {fields : List Text} (h : ∀ f ∈ fields, ';' ∉ f) (misc : Text) :
    (renderLine fields misc).splitOn ';' = fields ++ misc.splitOn ';' := by
  induction fields with
  | nil => rfl
  | cons f rest ih =>
      have hf : ';' ∉ f := h f List.mem_cons_self
      have hcons : renderLine (f :: rest) misc = f ++ ';' :: renderLine rest misc := by
        simp [renderLine]
      rw [hcons, List.splitOn_append_cons_self, List.splitOn_eq_singleton hf,
        ih fun g hg => h g (List.mem_cons_of_mem _ hg)]
      rfl

/-- Fields are rejoined as they were. -/
theorem join_split (misc : Text) : [';'].intercalate (misc.splitOn ';') = misc :=
  List.intercalate_splitOn ';'

/-- What a rendered line is made of. -/
theorem mem_render_line {fields : List Text} {misc : Text} {c : Char}
    (h : c ∈ renderLine fields misc) : (∃ f ∈ fields, c ∈ f) ∨ c = ';' ∨ c ∈ misc := by
  rcases List.mem_append.mp h with hfields | hmisc
  · obtain ⟨f, hf, hc⟩ := List.mem_flatMap.mp hfields
    rcases List.mem_append.mp hc with hc | hc
    · exact .inl ⟨f, hf, hc⟩
    · exact .inr (.inl (List.mem_singleton.mp hc))
  · exact .inr (.inr hmisc)

/-- A line with a semicolon is neither blank nor the end marker. -/
theorem semicolon_reported {line : Text} (h : ';' ∈ line) :
    (isBlank line || isMarker line) = false := by
  have htrimmed : ';' ∈ Text.trimAscii line.stripCr := by
    rcases mem_text_strip_cr_or h with heq | hstripped
    · exact absurd heq (by decide)
    · rcases mem_trimmed_or (p := isAsciiWhitespaceChar) hstripped with hspace | hmem
      · exact absurd hspace (by decide)
      · exact hmem
  have hblank : isBlank line = false := by
    rw [isBlank, List.isEmpty_eq_false_iff]
    exact List.ne_nil_of_mem htrimmed
  have hmarker : isMarker line = false := by
    rw [Bool.eq_false_iff, isMarker, Text.eqIgnoreCase, Ne, beq_iff_eq]
    intro heq
    -- the marker has no semicolon
    have hmem : ';' ∈ Text.toAsciiLowercase (Text.trimAscii line.stripCr) :=
      List.mem_map.mpr ⟨';', htrimmed, rfl⟩
    rw [heq] at hmem
    exact absurd hmem (by decide)
  rw [hblank, hmarker]
  rfl

section

variable {F32 : Type} [Inhabited F32] (parseF32 : Text → Option F32)

/-- A rendered line is one line of the table, and is split into its fields. -/
theorem parse_render_line {tag : Text} {fields : List Text} {misc : Text}
    (hfields : ∀ f ∈ tag :: fields, CleanField f) (hcr : '\r' ∉ misc) (hlf : '\n' ∉ misc) :
    ∃ line : Text, (isBlank line || isMarker line) = false ∧
      parse parseF32 (renderLine (tag :: fields) misc).toBytes = addLine parseF32 {} line ∧
      line.stripCr.splitOn ';' = (tag :: fields) ++ misc.splitOn ';' := by
  have hnot : ∀ c, (c = '\r' ∨ c = '\n') → c ∉ renderLine (tag :: fields) misc := by
    intro c hc hmem
    rcases mem_render_line hmem with ⟨f, hf, hcf⟩ | hsemicolon | hcm
    · rcases hc with rfl | rfl
      · exact (hfields f hf).2.1 hcf
      · exact (hfields f hf).2.2 hcf
    · rcases hc with rfl | rfl
      · exact absurd hsemicolon (by decide)
      · exact absurd hsemicolon (by decide)
    · rcases hc with rfl | rfl
      · exact hcr hcm
      · exact hlf hcm
  have hbytes : LF ∉ (renderLine (tag :: fields) misc).toBytes := by
    rw [Text.mem_to_bytes (by decide)]
    exact hnot _ (.inr rfl)
  have hstrip : (renderLine (tag :: fields) misc).stripCr = renderLine (tag :: fields) misc := by
    rw [Text.stripCr, if_neg]
    exact fun hlast => hnot _ (.inl rfl) (List.mem_of_getLast? hlast)
  refine ⟨renderLine (tag :: fields) misc, semicolon_reported ?_, ?_, ?_⟩
  · simp [renderLine]
  · rw [parse_one_line parseF32 hbytes, Text.from_utf8_lossy_to_bytes]
  · rw [hstrip, split_render_line fun f hf => (hfields f hf).1]

end

/-! ## Flags -/

/-- The flag of a NMEA request is read back. -/
theorem parse_nmea_flag (flag : Bool) :
    decide (Text.trim (flagText flag '1' '0') = ['1']) = flag := by
  cases flag with
  | false => rfl
  | true => rfl

/-- The flag of a fee is read back. -/
theorem parse_fee_flag (flag : Bool) :
    (Text.trim (flagText flag 'Y' 'N')).eqIgnoreCase ['Y'] = flag := by
  cases flag with
  | false => rfl
  | true => rfl

/-- An authentication flag is trimmed away if it is white space. -/
theorem parse_auth_flag (c : Char) :
    (Text.trim [c]).head?.getD ' ' = if isWhitespace c then ' ' else c := by
  cases hc : isWhitespace c with
  | true => simp [Text.trim, Text.trimStart, Text.trimEnd, hc]
  | false => simp [Text.trim, Text.trimStart, Text.trimEnd, List.rdropWhile, hc]

/-- A number ends no field. -/
theorem decimal_clean (n : Nat) : CleanField (decimalText n) := by
  have hnot : ∀ c : Char, c.isDigit = false → c ∉ decimalText n := by
    intro c hc hmem
    rw [decimal_text_digit hmem] at hc
    exact absurd hc (by decide)
  exact ⟨hnot _ rfl, hnot _ rfl, hnot _ rfl⟩

/-- A flag ends no field. -/
theorem flag_clean {yes no : Char} (hyes : CleanField [yes]) (hno : CleanField [no]) (flag : Bool) :
    CleanField (flagText flag yes no) := by
  cases flag with
  | false => exact hno
  | true => exact hyes

/-! ## Records -/

section

variable {F32 : Type} (showF32 : F32 → Text)

/-- The fields of a clean mountpoint end where they are meant to. -/
theorem str_fields_clean {r : StrRecord F32} (h : r.Clean showF32) :
    ∀ f ∈ "STR".toList :: r.fields showF32, CleanField f := by
  have htexts := h.1
  have htag : CleanField "STR".toList := by decide
  have hnmea : CleanField (flagText r.nmeaRequired '1' '0') := flag_clean (by decide) (by decide) _
  have hfee : CleanField (flagText r.fee 'Y' 'N') := flag_clean (by decide) (by decide) _
  simp only [List.forall_mem_cons] at htexts
  simp only [StrRecord.fields, List.forall_mem_cons, decimal_clean, htexts, htag, hnmea, hfee,
    true_and]
  exact fun f hf => absurd hf List.not_mem_nil

/-- So do those of a clean caster. -/
theorem cas_fields_clean {r : CasRecord F32} (h : r.Clean showF32) :
    ∀ f ∈ "CAS".toList :: r.fields showF32, CleanField f := by
  have htexts := h.1
  have htag : CleanField "CAS".toList := by decide
  simp only [List.forall_mem_cons] at htexts
  simp only [CasRecord.fields, List.forall_mem_cons, decimal_clean, htexts, htag, true_and]
  exact fun f hf => absurd hf List.not_mem_nil

end

section

variable {F32 : Type} [Inhabited F32] (parseF32 : Text → Option F32) (showF32 : F32 → Text)

/-- A coordinate as it is read back. -/
def reread (x : F32) : F32 := (parseF32 (showF32 x).trim).getD default

/-- A mountpoint as it is read back: an authentication flag of white space is a space. -/
def StrRecord.reread (r : StrRecord F32) : StrRecord F32 :=
  { r with
    lat := Sourcetable.reread parseF32 showF32 r.lat
    lon := Sourcetable.reread parseF32 showF32 r.lon
    auth := if isWhitespace r.auth then ' ' else r.auth }

def CasRecord.reread (r : CasRecord F32) : CasRecord F32 :=
  { r with
    lat := Sourcetable.reread parseF32 showF32 r.lat
    lon := Sourcetable.reread parseF32 showF32 r.lon }

/-- A mountpoint is read back from its line. -/
theorem parse_render_str {r : StrRecord F32} (h : r.Clean showF32) :
    parse parseF32 (r.render showF32).toBytes = { strs := [r.reread parseF32 showF32] } := by
  obtain ⟨line, hreported, hparse, hsplit⟩ :=
    parse_render_line parseF32 (str_fields_clean showF32 h) h.2.1 h.2.2
  have hstr := (add_line_reported parseF32 hreported).1
  rw [hsplit] at hstr
  rw [StrRecord.render, hparse, hstr rfl]
  have hrecord : parseStr parseF32 ("STR".toList :: r.fields showF32 ++ r.misc.splitOn ';') =
      r.reread parseF32 showF32 := by
    rw [parseStr, StrRecord.reread]
    congr 1
    case e_carrier => exact parse_u8_decimal r.carrier
    case e_nmeaRequired => exact parse_nmea_flag r.nmeaRequired
    case e_solution => exact parse_u8_decimal r.solution
    case e_auth => exact parse_auth_flag r.auth
    case e_fee => exact parse_fee_flag r.fee
    case e_bitrate => exact parse_u32_decimal r.bitrate
    case e_misc => exact join_split r.misc
  rw [hrecord]

/-- A caster is read back from its line. -/
theorem parse_render_cas {r : CasRecord F32} (h : r.Clean showF32) :
    parse parseF32 (r.render showF32).toBytes = { casters := [r.reread parseF32 showF32] } := by
  obtain ⟨line, hreported, hparse, hsplit⟩ :=
    parse_render_line parseF32 (cas_fields_clean showF32 h) h.2.1 h.2.2
  have hcas := (add_line_reported parseF32 hreported).2.1
  rw [hsplit] at hcas
  rw [CasRecord.render, hparse, hcas rfl]
  have hrecord : parseCas parseF32 ("CAS".toList :: r.fields showF32 ++ r.misc.splitOn ';') =
      r.reread parseF32 showF32 := by
    rw [parseCas, CasRecord.reread]
    congr 1
    case e_port => exact parse_u16_decimal r.port
    case e_misc => exact join_split r.misc
  rw [hrecord]

/-- A network is read back from its line. -/
theorem parse_render_net {r : NetRecord} (h : r.Clean) :
    parse parseF32 r.render.toBytes = { networks := [r] } := by
  have hfields : ∀ f ∈ "NET".toList :: r.fields, CleanField f :=
    List.forall_mem_cons.mpr ⟨by decide, h.1⟩
  obtain ⟨line, hreported, hparse, hsplit⟩ := parse_render_line parseF32 hfields h.2.1 h.2.2
  have hnet := (add_line_reported parseF32 hreported).2.2.1
  rw [hsplit] at hnet
  rw [NetRecord.render, hparse, hnet rfl]
  have hrecord : parseNet ("NET".toList :: r.fields ++ r.misc.splitOn ';') = r := by
    rw [parseNet]
    congr 1
    exact join_split r.misc
  rw [hrecord]

/-- A table is parsed line by line: a line feed parts it, every line that is neither blank nor the
end marker is one entry of the list that its first field selects, and a record is read back from its
rendering, an authentication flag of white space as a space. -/
theorem parse_local_lossless :
    (∀ first after : Bytes, parse parseF32 (first ++ LF :: after) =
      (parse parseF32 first).append (parse parseF32 after)) ∧
    (∀ line : Bytes, LF ∉ line → (∃ b ∈ line, isAsciiWhitespace b = false) →
      isEndLine line = false →
      let text := (fromUtf8Lossy line).stripCr
      let fields := text.splitOn ';'
      (field fields 0 = "STR".toList →
          parse parseF32 line = { strs := [parseStr parseF32 fields] }) ∧
        (field fields 0 = "CAS".toList →
          parse parseF32 line = { casters := [parseCas parseF32 fields] }) ∧
        (field fields 0 = "NET".toList →
          parse parseF32 line = { networks := [parseNet fields] }) ∧
        (field fields 0 ∉ ["STR".toList, "CAS".toList, "NET".toList] →
          parse parseF32 line = { unparsed := [text] })) ∧
    (∀ r : StrRecord F32, r.Clean showF32 →
      parse parseF32 (r.render showF32).toBytes = { strs := [r.reread parseF32 showF32] }) ∧
    (∀ r : CasRecord F32, r.Clean showF32 →
      parse parseF32 (r.render showF32).toBytes = { casters := [r.reread parseF32 showF32] }) ∧
    (∀ r : NetRecord, r.Clean → parse parseF32 r.render.toBytes = { networks := [r] }) := by
  refine ⟨parse_append parseF32, ?_, fun r => parse_render_str parseF32 showF32,
    fun r => parse_render_cas parseF32 showF32, fun r => parse_render_net parseF32⟩
  intro line hline hnotblank hend
  rw [parse_one_line parseF32 hline]
  refine add_line_reported parseF32 ?_
  rw [is_marker_line, hend, Bool.or_false, Bool.eq_false_iff]
  intro hblank
  obtain ⟨b, hb, hspace⟩ := hnotblank
  rw [(is_blank_line line).mp hblank b hb] at hspace
  exact absurd hspace (by decide)

end

/-- The coordinates of the examples as they are published. -/
def showCoord (x : Rat) : Text := if x = 105 / 2 then "52.5".toList else "13.25".toList

def readCoord (s : Text) : Option Rat :=
  if s = "52.5".toList then some (105 / 2)
  else if s = "13.25".toList then some (53 / 4)
  else none

/-- A mountpoint with semicolons in the rest of its line. -/
def mount : StrRecord Rat where
  mountpoint := "MOUNT1".toList
  identifier := "Berlin".toList
  format := "RTCM 3.2".toList
  formatDetails := "1005(10)".toList
  carrier := 2
  navSystem := "GPS+GAL".toList
  network := []
  country := "DEU".toList
  lat := 105 / 2
  lon := 53 / 4
  nmeaRequired := true
  solution := 1
  generator := []
  compression := "none".toList
  auth := 'B'
  fee := false
  bitrate := 3120
  misc := "extra1;extra2".toList

def caster : CasRecord Rat where
  host := "caster.example".toList
  port := 2101
  identifier := "Example".toList
  operator := []
  nmea := "0".toList
  country := "DEU".toList
  lat := 105 / 2
  lon := 53 / 4
  misc := "0.0.0.0;0;".toList

def network : NetRecord where
  identifier := "NET1".toList
  operator := "Example".toList
  auth := "B".toList
  fee := "N".toList
  webNet := []
  webStr := []
  webReg := []
  misc := "none;".toList

/-- A mountpoint in front of a line of no known kind, a caster and a network. -/
theorem parse_local_lossless_records :
    parse readCoord ((mount.render showCoord).toBytes ++ LF :: ascii "XYZ;1;2\r") =
        { strs := [mount], unparsed := ["XYZ;1;2".toList] } ∧
      parse readCoord (caster.render showCoord).toBytes = { casters := [caster] } ∧
      parse readCoord network.render.toBytes = { networks := [network] } := by
  obtain ⟨happend, hline, hstr, hcas, hnet⟩ := parse_local_lossless readCoord showCoord
  have hmount : mount.Clean showCoord := by decide +kernel
  have hcaster : caster.Clean showCoord := by decide +kernel
  have hnetwork : network.Clean := by decide +kernel
  refine ⟨?_, ?_, ?_⟩
  · have hother := (hline (ascii "XYZ;1;2\r") (by decide) ⟨0x58, by decide, rfl⟩ (by decide)).2.2.2
    rw [happend, hstr mount hmount, hother (by decide)]
    decide +kernel
  · rw [hcas caster hcaster]
    decide +kernel
  · exact hnet network hnetwork

/-- A mountpoint with a tab for its authentication flag. -/
def tabbed : StrRecord Unit where
  mountpoint := "MOUNT1".toList
  identifier := []
  format := "RTCM 3.2".toList
  formatDetails := []
  carrier := 2
  navSystem := "GPS".toList
  network := []
  country := "DEU".toList
  lat := ()
  lon := ()
  nmeaRequired := true
  solution := 1
  generator := []
  compression := "none".toList
  auth := '\t'
  fee := true
  bitrate := 3120
  misc := "extra1;extra2".toList

/-- The authentication flag of a clean record need not be read back. -/
theorem tabbed_auth_lost :
    tabbed.Clean (fun _ => "0.0".toList) ∧
      ∀ r ∈ (parse (fun _ => some ()) (tabbed.render fun _ => "0.0".toList).toBytes).strs,
        r.auth ≠ tabbed.auth := by
  have hclean : tabbed.Clean (fun _ => "0.0".toList) := by decide +kernel
  refine ⟨hclean, ?_⟩
  rw [parse_render_str (fun _ => some ()) (fun _ => "0.0".toList) hclean]
  intro r hr
  rw [List.mem_singleton] at hr
  subst hr
  decide

end OpenNtrip.Sourcetable
