import OpenNtrip.Lib.Terminated
import OpenNtrip.NtripCore.Base64
import OpenNtrip.Rust.Utf8
import Mathlib.Data.List.GetD

/-!
# The request on the wire and in the log

What a request should look like is said by its header fields (`expectedLines`). On the wire these
lines are framed by CRLF whatever the configuration holds (`wire_lines`), and the log has the same
lines with the credentials masked (`log_lines_masked`).
-/

namespace OpenNtrip.Request

/-! ## The expected lines -/

/-- The request line. -/
def requestLine (cfg : SessionConfig) : Text :=
  "GET /".toList ++ encodeMountpoint cfg.mountpoint ++ match cfg.version with
    | .v1 => " HTTP/1.0".toList
    | .v2 => " HTTP/1.1".toList

/-- The credentials as Base64. -/
def credential (cfg : SessionConfig) : Text := Base64.encode (Text.toBytes (credentials cfg))

/-- A text without the control characters of ASCII in it. -/
def withoutControls (s : Text) : Text := s.filter fun c => 0x20 ≤ c.toNat ∧ c.toNat ≠ 0x7f

/-- Control characters are what is stripped from a header value, and nothing else. -/
theorem clean_header_eq (value : Text) : cleanHeader value = withoutControls value := by
  refine List.filter_congr fun c _ => ?_
  rw [isAsciiControl, Bool.eq_iff_iff]
  simp only [Bool.not_eq_true', Bool.or_eq_false_iff, decide_eq_false_iff_not, beq_eq_false_iff_ne,
    decide_eq_true_eq]
  omega

theorem mem_without_controls {s : Text} {c : Char} :
    c ∈ withoutControls s ↔ c ∈ s ∧ 0x20 ≤ c.toNat ∧ c.toNat ≠ 0x7f := by
  simp [withoutControls]

/-- The header fields before the Authorization. -/
def headBefore (cfg : SessionConfig) : List (String × Text) :=
  match cfg.version with
  | .v1 =>
    [("User-Agent", withoutControls cfg.userAgent), ("Accept", "*/*".toList),
      ("Connection", "close".toList)]
  | .v2 =>
    [("Host", withoutControls cfg.host ++ ":".toList ++ decimalText cfg.port.toNat),
      ("Ntrip-Version", "Ntrip/2.0".toList), ("User-Agent", withoutControls cfg.userAgent),
      ("Accept", "*/*".toList)]

/-- The header fields after it. -/
def headAfter (cfg : SessionConfig) : List (String × Text) :=
  match cfg.version with
  | .v1 => []
  | .v2 => [("Connection", "close".toList)]

/-- The Authorization, which is sent if there is a username. -/
def authorization (cfg : SessionConfig) : List (String × Text) :=
  if cfg.username = [] then [] else [("Authorization", "Basic ".toList ++ credential cfg)]

/-- A header line. -/
def headerLine (field : String × Text) : Text := field.1.toList ++ ": ".toList ++ field.2

/-- The lines that a configuration calls for. -/
def expectedLines (cfg : SessionConfig) : List Text :=
  requestLine cfg ::
    (headBefore cfg ++ authorization cfg ++ headAfter cfg).map headerLine

theorem auth_line_eq (cfg : SessionConfig) :
    authLine cfg = headerLine ("Authorization", "Basic ".toList ++ credential cfg) := by
  have hline : ∀ value : Text, "Authorization: Basic ".toList ++ value =
      headerLine ("Authorization", "Basic ".toList ++ value) := by
    intro value
    simp [headerLine]
  rw [auth_line_credentials]
  exact hline (credential cfg)

theorem request_lines_eq (cfg : SessionConfig) : requestLines cfg = expectedLines cfg := by
  have hauth : (if cfg.username.isEmpty then [] else [authLine cfg]) =
      (authorization cfg).map headerLine := by
    rw [authorization, auth_line_eq]
    cases cfg.username with
    | nil => rfl
    | cons c rest => rfl
  rw [requestLines, hauth, clean_header_eq, clean_header_eq]
  cases hversion : cfg.version with
  | v1 => simp [expectedLines, requestLine, headBefore, headAfter, hversion, headerLine]
  | v2 => simp [expectedLines, requestLine, headBefore, headAfter, hversion, headerLine]

/-! ## Single lines -/

/-- The text has neither a carriage return nor a line feed. -/
def SingleLine (s : Text) : Prop := '\r' ∉ s ∧ '\n' ∉ s

theorem single_line_append {s t : Text} (hs : SingleLine s) (ht : SingleLine t) :
    SingleLine (s ++ t) := by
  constructor
  · rw [List.mem_append, not_or]
    exact ⟨hs.1, ht.1⟩
  · rw [List.mem_append, not_or]
    exact ⟨hs.2, ht.2⟩

/-- A text is a single line if its characters are of a kind that line ends are not. -/
theorem single_line_of_all {s : Text} (p : Char → Bool) (h : ∀ c ∈ s, p c = true)
    (hcr : p '\r' = false) (hlf : p '\n' = false) : SingleLine s := by
  constructor
  · intro hmem
    simp [h _ hmem] at hcr
  · intro hmem
    simp [h _ hmem] at hlf

theorem without_controls_single (value : Text) : SingleLine (withoutControls value) :=
  single_line_of_all (fun c => 0x20 ≤ c.toNat ∧ c.toNat ≠ 0x7f)
    (fun _ hc => decide_eq_true (mem_without_controls.mp hc).2) rfl rfl

theorem decimal_text_single (n : Nat) : SingleLine (decimalText n) :=
  single_line_of_all Char.isDigit (fun _ hc => Nat.isDigit_of_mem_toDigits (by omega) (by omega) hc)
    rfl rfl

/-- The characters of Base64. -/
theorem encode_mem {bytes : Bytes} {c : Char} (h : c ∈ Base64.encode bytes) :
    c ∈ Base64.ALPHABET ∨ c = '=' := by
  obtain ⟨symbols, hencode, hsymbols⟩ := Base64.encode_padded bytes
  rw [hencode] at h
  rcases List.mem_append.mp h with hsymbol | hpadding
  · exact .inl (hsymbols c hsymbol)
  · exact .inr (List.eq_of_mem_replicate hpadding)

theorem encode_single (bytes : Bytes) : SingleLine (Base64.encode bytes) :=
  single_line_of_all (fun c => c ∈ Base64.ALPHABET ∨ c = '=')
    (fun _ hc => decide_eq_true (encode_mem hc)) (by decide) (by decide)

/-- The characters that may stand in a target: graphic ASCII. -/
def isTargetChar (c : Char) : Bool := 0x21 ≤ c.toNat && c.toNat ≤ 0x7e

/-- A mountpoint is encoded by graphic ASCII. -/
theorem encode_mountpoint_mem {mount : Text} {c : Char} (h : c ∈ encodeMountpoint mount) :
    isTargetChar c = true := by
  have hhex : ∀ n < 16, isTargetChar (hexUpper n) = true := by decide
  obtain ⟨b, -, hb⟩ := List.mem_flatMap.mp h
  split at hb
  · have hlt := b.toNat_lt
    simp only [hexByte, List.mem_cons, List.not_mem_nil, or_false] at hb
    rcases hb with rfl | rfl | rfl
    · rfl
    · exact hhex _ (by omega)
    · exact hhex _ (by omega)
  · next hgraphic =>
      obtain rfl := List.mem_singleton.mp hb
      simp only [UInt8.le_iff_toNat_le, not_or] at hgraphic
      have hlow : ¬ b.toNat ≤ 0x20 := hgraphic.1
      have hhigh : ¬ 0x7f ≤ b.toNat := hgraphic.2
      rw [isTargetChar, char_of_nat (by omega)]
      simp only [Bool.and_eq_true, decide_eq_true_eq]
      omega

theorem encode_mountpoint_single (mount : Text) : SingleLine (encodeMountpoint mount) :=
  single_line_of_all isTargetChar (fun _ => encode_mountpoint_mem) rfl rfl

theorem header_line_single {field : String × Text} (hname : SingleLine field.1.toList)
    (hvalue : SingleLine field.2) : SingleLine (headerLine field) := by
  have hcolon : SingleLine ": ".toList := by
    unfold SingleLine
    decide
  exact single_line_append (single_line_append hname hcolon) hvalue

/-- The fixed names and values of the header. -/
theorem literals_single : ∀ s ∈ ["User-Agent", "Accept", "*/*", "Connection", "close", "Host", ":",
    "Ntrip-Version", "Ntrip/2.0", "Authorization", "Basic ", "GET /", " HTTP/1.0", " HTTP/1.1"],
    SingleLine s.toList := by
  unfold SingleLine
  decide

/-- No field of the configuration breaks an expected line. -/
theorem expected_lines_single (cfg : SessionConfig) :
    ∀ line ∈ expectedLines cfg, SingleLine line := by
  have hfields : ∀ field ∈ headBefore cfg ++ authorization cfg ++ headAfter cfg,
      SingleLine (headerLine field) := by
    intro field hfield
    rw [List.mem_append, List.mem_append] at hfield
    have hagent := without_controls_single cfg.userAgent
    have hhost := single_line_append
      (single_line_append (without_controls_single cfg.host) (literals_single ":" (by simp)))
      (decimal_text_single cfg.port.toNat)
    have hcredential := single_line_append (literals_single "Basic " (by simp))
      (encode_single (Text.toBytes (credentials cfg)))
    rcases hfield with (hfield | hfield) | hfield
    · rw [headBefore] at hfield
      split at hfield
      · simp only [List.mem_cons, List.not_mem_nil, or_false] at hfield
        rcases hfield with rfl | rfl | rfl
        · exact header_line_single (literals_single _ (by simp)) hagent
        · exact header_line_single (literals_single _ (by simp)) (literals_single "*/*" (by simp))
        · exact header_line_single (literals_single _ (by simp))
            (literals_single "close" (by simp))
      · simp only [List.mem_cons, List.not_mem_nil, or_false] at hfield
        rcases hfield with rfl | rfl | rfl | rfl
        · exact header_line_single (literals_single _ (by simp)) hhost
        · exact header_line_single (literals_single _ (by simp))
            (literals_single "Ntrip/2.0" (by simp))
        · exact header_line_single (literals_single _ (by simp)) hagent
        · exact header_line_single (literals_single _ (by simp)) (literals_single "*/*" (by simp))
    · rw [authorization] at hfield
      split at hfield
      · simp at hfield
      · obtain rfl := List.mem_singleton.mp hfield
        exact header_line_single (literals_single _ (by simp)) hcredential
    · rw [headAfter] at hfield
      split at hfield
      · simp at hfield
      · obtain rfl := List.mem_singleton.mp hfield
        exact header_line_single (literals_single _ (by simp))
          (literals_single "close" (by simp))
  intro line hline
  rcases List.mem_cons.mp hline with rfl | hline
  · refine single_line_append (single_line_append (literals_single "GET /" (by simp))
      (encode_mountpoint_single cfg.mountpoint)) ?_
    split
    · exact literals_single _ (by simp)
    · exact literals_single _ (by simp)
  · obtain ⟨field, hfield, rfl⟩ := List.mem_map.mp hline
    exact hfields field hfield

/-- No expected line is empty. -/
theorem expected_lines_ne_nil (cfg : SessionConfig) : ∀ line ∈ expectedLines cfg, line ≠ [] := by
  intro line hline
  rcases List.mem_cons.mp hline with rfl | hline
  · simp [requestLine]
  · obtain ⟨field, -, rfl⟩ := List.mem_map.mp hline
    simp [headerLine]

/-! ## The wire -/

/-- The bytes of a single line have neither a carriage return nor a line feed. -/
theorem SingleLine.to_bytes {s : Text} (h : SingleLine s) : CR ∉ s.toBytes ∧ LF ∉ s.toBytes := by
  rw [Text.mem_to_bytes (by decide), Text.mem_to_bytes (by decide)]
  exact h

theorem wire_eq (cfg : SessionConfig) :
    (build cfg).2 =
      ((expectedLines cfg).map Text.toBytes).flatMap (· ++ [CR, LF]) ++ [CR, LF] := by
  have hcrlf : Text.toBytes "\r\n".toList = [CR, LF] := by decide
  show Text.toBytes (((requestLines cfg).flatMap fun line => line ++ "\r\n".toList) ++
    "\r\n".toList) = _
  rw [request_lines_eq, Text.to_bytes_append, hcrlf]
  congr 1
  induction expectedLines cfg with
  | nil => rfl
  | cons line rest ih =>
      rw [List.flatMap_cons, List.map_cons, List.flatMap_cons, Text.to_bytes_append,
        Text.to_bytes_append, hcrlf, ih]

/-- Cut at CRLF, the wire bytes are the expected lines and an empty one. -/
theorem wire_lines (cfg : SessionConfig) :
    terminatedLines CR LF (build cfg).2 =
      ((expectedLines cfg).map Text.toBytes ++ [[]], []) := by
  rw [wire_eq, terminated_lines_join]
  · rw [terminated_lines_end]
    rfl
  · intro line hline
    obtain ⟨s, hs, rfl⟩ := List.mem_map.mp hline
    exact (expected_lines_single cfg s hs).to_bytes.1

/-- On the wire CRLF CRLF is found at the end only. -/
theorem wire_double (cfg : SessionConfig) {before after : Bytes}
    (h : (build cfg).2 = before ++ [CR, LF, CR, LF] ++ after) : after = [] := by
  have hcut := wire_lines cfg
  rw [h, List.append_assoc] at hcut
  refine terminated_lines_double (by decide) (fun line hline => ?_) hcut
  obtain ⟨s, hs, rfl⟩ := List.mem_map.mp hline
  obtain ⟨c, rest, rfl⟩ := List.exists_cons_of_ne_nil (expected_lines_ne_nil cfg s hs)
  rw [Text.to_bytes_cons]
  simp [String.utf8EncodeChar_ne_nil]

/-! ## The log -/

/-- The log copy of the Authorization. -/
def maskedAuthorization : Text := "Authorization: Basic ****".toList

theorem mask_authorization (value : Text) :
    maskAuth (headerLine ("Authorization", value)) = maskedAuthorization := by
  have hprefix : Text.startsWith (headerLine ("Authorization", value))
      "Authorization:".toList = true := by
    simp [Text.startsWith, headerLine]
  rw [maskAuth, if_pos hprefix]
  rfl

/-- Lines that start in another way are left alone. -/
theorem mask_header {name : String} (value : Text)
    (h : name ∈ ["User-Agent", "Accept", "Connection", "Host", "Ntrip-Version"]) :
    maskAuth (headerLine (name, value)) = headerLine (name, value) := by
  have hprefix : Text.startsWith (headerLine (name, value)) "Authorization:".toList = false := by
    simp only [List.mem_cons, List.not_mem_nil, or_false] at h
    rcases h with rfl | rfl | rfl | rfl | rfl
    all_goals simp [Text.startsWith, headerLine, List.isPrefixOf]
  rw [maskAuth, hprefix]
  rfl

theorem mask_request_line (cfg : SessionConfig) :
    maskAuth (requestLine cfg) = requestLine cfg := by
  have hget : ∀ rest : Text, Text.startsWith ("GET /".toList ++ rest)
      "Authorization:".toList = false := by
    intro rest
    simp [Text.startsWith, List.isPrefixOf]
  rw [maskAuth, requestLine, List.append_assoc, hget]
  rfl

/-- The lines before and after the Authorization. -/
def linesBefore (cfg : SessionConfig) : List Text :=
  requestLine cfg :: (headBefore cfg).map headerLine

def linesAfter (cfg : SessionConfig) : List Text := (headAfter cfg).map headerLine

theorem expected_lines_eq (cfg : SessionConfig) :
    expectedLines cfg =
      linesBefore cfg ++ (authorization cfg).map headerLine ++ linesAfter cfg := by
  rw [expectedLines, List.map_append, List.map_append]
  rfl

/-- The lines other than the Authorization are logged as they are. -/
theorem mask_lines (cfg : SessionConfig) :
    (linesBefore cfg).map maskAuth = linesBefore cfg ∧
      (linesAfter cfg).map maskAuth = linesAfter cfg := by
  have hnames : ∀ field ∈ headBefore cfg ++ headAfter cfg,
      field.1 ∈ ["User-Agent", "Accept", "Connection", "Host", "Ntrip-Version"] := by
    intro field hfield
    unfold headBefore headAfter at hfield
    cases hversion : cfg.version with
    | v1 =>
        simp only [hversion, List.append_nil, List.mem_cons, List.not_mem_nil, or_false] at hfield
        rcases hfield with rfl | rfl | rfl
        all_goals simp
    | v2 =>
        simp only [hversion, List.cons_append, List.nil_append, List.mem_cons, List.not_mem_nil,
          or_false] at hfield
        rcases hfield with rfl | rfl | rfl | rfl | rfl
        all_goals simp
  have hmap : ∀ fields : List (String × Text), fields ⊆ headBefore cfg ++ headAfter cfg →
      (fields.map headerLine).map maskAuth = fields.map headerLine := by
    intro fields hsub
    rw [List.map_map]
    exact List.map_congr_left fun field hfield =>
      mask_header field.2 (hnames field (hsub hfield))
  refine ⟨?_, hmap _ (List.subset_append_right _ _)⟩
  rw [linesBefore, List.map_cons, mask_request_line, hmap _ (List.subset_append_left _ _)]

/-- The log has the lines of the wire with the Authorization masked. -/
theorem log_lines_masked (cfg : SessionConfig) :
    (build cfg).1 = linesBefore cfg ++
      (authorization cfg).map (fun _ => maskedAuthorization) ++ linesAfter cfg := by
  have hauth : ((authorization cfg).map headerLine).map maskAuth =
      (authorization cfg).map fun _ => maskedAuthorization := by
    rw [authorization]
    split
    · rfl
    · simp only [List.map_cons, List.map_nil, mask_authorization]
  show (requestLines cfg).map maskAuth = _
  rw [request_lines_eq, expected_lines_eq, List.map_append, List.map_append, (mask_lines cfg).1,
    (mask_lines cfg).2, hauth]

/-- The log does not depend on the credentials, except on whether there are any. For every
configuration it has the lines of the wire but for the Authorization, whose wire form is the
username and the password without line ends, in Base64, and whose log form is constant. -/
theorem log_independent_of_credentials (cfg : SessionConfig) :
    (∀ username password, (username = [] ↔ cfg.username = []) →
      (build { cfg with username, password }).1 = (build cfg).1) ∧
    ∃ lines before after,
      terminatedLines CR LF (build cfg).2 = (lines.map Text.toBytes ++ [[]], []) ∧
      (cfg.username = [] → lines = before ++ after ∧ (build cfg).1 = before ++ after) ∧
      (cfg.username ≠ [] → ∃ encoded,
        lines = before ++ ["Authorization: Basic ".toList ++ encoded] ++ after ∧
        (build cfg).1 = before ++ ["Authorization: Basic ****".toList] ++ after ∧
        Base64.decode encoded =
          some (Text.toBytes ((cfg.username.filter fun c => c ∉ ['\r', '\n']) ++
            ':' :: cfg.password.filter fun c => c ∉ ['\r', '\n']))) := by
  refine ⟨fun username password hempty => ?_, expectedLines cfg, linesBefore cfg, linesAfter cfg,
    wire_lines cfg, fun hname => ?_, fun hname => ⟨credential cfg, ?_, ?_, ?_⟩⟩
  · have hauth : (authorization { cfg with username, password }).map
        (fun _ => maskedAuthorization) = (authorization cfg).map fun _ => maskedAuthorization := by
      simp only [authorization, hempty]
      split
      · rfl
      · rfl
    rw [log_lines_masked, log_lines_masked, hauth]
    rfl
  · rw [log_lines_masked, expected_lines_eq, authorization, if_pos hname]
    simp
  · rw [expected_lines_eq, authorization, if_neg hname, List.map_singleton, ← auth_line_eq,
      auth_line_credentials]
    rfl
  · rw [log_lines_masked, authorization, if_neg hname]
    rfl
  · exact Base64.decode_encode _

/-- A configuration with a line end in its password. -/
def exampleConfig : SessionConfig where
  host := "caster".toList
  port := 2101
  mountpoint := "MY MOUNT".toList
  username := "user".toList
  password := "pa\r\nss".toList
  version := .v2
  transport := .ntrip
  userAgent := "NTRIP OpenNtripClient".toList
  gga := .off

/-- The log of that configuration is the log of another user, and the decoded credential has no line
end. -/
theorem log_independent_of_credentials_example :
    (build { exampleConfig with username := "other".toList, password := [] }).1 =
      (build exampleConfig).1 ∧
    ∃ (lines : List Text) (encoded : Text),
      terminatedLines CR LF (build exampleConfig).2 = (lines.map Text.toBytes ++ [[]], []) ∧
      "Authorization: Basic ".toList ++ encoded ∈ lines ∧
      "Authorization: Basic ****".toList ∈ (build exampleConfig).1 ∧
      Base64.decode encoded = some (ascii "user:pass") := by
  obtain ⟨hsame, lines, before, after, hwire, -, hauth⟩ :=
    log_independent_of_credentials exampleConfig
  obtain ⟨encoded, hline, hlog, hdecoded⟩ := hauth (by decide)
  refine ⟨hsame "other".toList [] (by decide), lines, encoded, hwire, ?_, ?_, ?_⟩
  · rw [hline]
    simp
  · rw [hlog]
    simp
  · rw [hdecoded]
    decide

end OpenNtrip.Request
