import OpenNtrip.Rust.Float
import OpenNtrip.Rust.Utf8

/-!
# NMEA 0183 sentences

`nmea.rs`: a line is framed by a dollar sign and an asterisk with two checksum digits, and its
fields are looked at only if the checksum holds. `parse_eq_ok` says which lines are accepted.
-/

namespace OpenNtrip

/-- `u8::is_ascii_digit`. -/
def isAsciiDigit (b : UInt8) : Bool := 48 ≤ b && b ≤ 57

namespace Text

/-- `str::rfind` for a character, with the text before it and the text after it. -/
def rsplitOnce (c : Char) : Text → Option (Text × Text)
  | [] => none
  | d :: rest =>
    match rsplitOnce c rest with
    | some (before, after) => some (d :: before, after)
    | none => if d = c then some ([], rest) else none

theorem rsplit_once_none {c : Char} {s : Text} (h : c ∉ s) : rsplitOnce c s = none := by
  induction s with
  | nil => rfl
  | cons d rest ih =>
      have hd : d ≠ c := fun heq => h (heq ▸ List.mem_cons_self)
      rw [rsplitOnce, ih fun hmem => h (List.mem_cons_of_mem _ hmem)]
      show (if d = c then _ else none) = none
      rw [if_neg hd]

/-- A text is parted at the last occurrence of the character. -/
theorem rsplit_once_append {c : Char} {after : Text} (h : c ∉ after) (before : Text) :
    rsplitOnce c (before ++ c :: after) = some (before, after) := by
  induction before with
  | nil =>
      rw [List.nil_append, rsplitOnce, rsplit_once_none h]
      show (if c = c then _ else none) = _
      rw [if_pos rfl]
  | cons d rest ih => rw [List.cons_append, rsplitOnce, ih]

theorem rsplit_once_some {c : Char} {s before after : Text}
    (h : rsplitOnce c s = some (before, after)) : s = before ++ c :: after := by
  induction s generalizing before with
  | nil => exact absurd h (by simp [rsplitOnce])
  | cons d rest ih =>
      rw [rsplitOnce] at h
      split at h
      · next first last heq =>
          simp only [Option.some.injEq, Prod.mk.injEq] at h
          obtain ⟨rfl, rfl⟩ := h
          rw [ih heq]
          rfl
      · split at h
        · next hd =>
            simp only [Option.some.injEq, Prod.mk.injEq] at h
            obtain ⟨rfl, rfl⟩ := h
            rw [hd]
            rfl
        · exact absurd h (by simp)

end Text

namespace Nmea

/-! ## Sentences -/

/-- Fix data. -/
structure Gga (Single Double : Type) where
  hms : Option (UInt8 × UInt8 × Single)
  latDeg : Option Double
  lonDeg : Option Double
  quality : UInt8
  sats : UInt8
  hdop : Option Single
  altM : Option Single
  geoidSepM : Option Single
  ageS : Option Single
  stationId : Option UInt16
  raw : Text
  deriving DecidableEq, Repr

/-- Recommended minimum data. -/
structure Rmc (Single : Type) where
  hms : Option (UInt8 × UInt8 × Single)
  speedKnots : Option Single
  trackDeg : Option Single
  date : Option (Int × UInt8 × UInt8)
  raw : Text
  deriving DecidableEq, Repr

/-- Active satellites. -/
structure Gsa (Single : Type) where
  fix : UInt8
  pdop : Option Single
  hdop : Option Single
  vdop : Option Single
  deriving DecidableEq, Repr

/-- A sentence. `other` has a valid checksum but is not parsed. -/
inductive Sentence (Single Double : Type) where
  | gga (g : Gga Single Double)
  | rmc (r : Rmc Single)
  | gsa (g : Gsa Single)
  | other (talker kind : Bytes)
  deriving DecidableEq, Repr

/-- `NmeaError`. -/
inductive NmeaError where
  | missingChecksum
  | checksumMismatch (computed stated : UInt8)
  | malformed
  deriving DecidableEq, Repr

/-! ## Fields -/

/-- Field by index, 0 the address. Missing trailing fields read as empty. -/
def field (f : List Text) (i : Nat) : Text := f[i]?.getD []

/-- Numeric field: `none` if it is empty or unparseable. -/
def num {T : Type} (parse : Text → Option T) (f : List Text) (i : Nat) : Option T :=
  let s := field f i
  if s.isEmpty then none else parse s

section

variable {Single Double : Type} [FloatType Single] [FloatType Double]

/-- Hours, minutes and seconds. -/
def parseHms (s : Text) : Option (UInt8 × UInt8 × Single) :=
  let b := s.toBytes
  if b.length < 6 || !(b.take 6).all isAsciiDigit then none
  else do
    let hh ← Text.parseU8 (s.take 2)
    let mm ← Text.parseU8 ((s.drop 2).take 2)
    let ss ← FloatType.fromStr (s.drop 4)
    if hh < 24 && mm < 60 && FloatType.lt ss (FloatType.literal 61) then some (hh, mm, ss)
    else none

/-- An angle and its hemisphere as signed degrees. -/
def parseAngle (v hemi : Text) (degDigits : Nat) (neg pos : Char) : Option Double :=
  let b := v.toBytes
  if b.length ≤ degDigits || !(b.take degDigits).all isAsciiDigit then none
  else do
    let deg : Double ← FloatType.fromStr (v.take degDigits)
    let minutes : Double ← FloatType.fromStr (v.drop degDigits)
    let val := FloatType.add deg (FloatType.div minutes (FloatType.literal 60))
    let h ← hemi.head?
    if h = pos then some val else if h = neg then some (FloatType.neg val) else none

/-- Day, month and year as year, month and day. Years before 80 are those of this century. -/
def parseDate (s : Text) : Option (Int × UInt8 × UInt8) :=
  let b := s.toBytes
  if b.length ≠ 6 || !b.all isAsciiDigit then none
  else do
    let dd ← Text.parseU8 (s.take 2)
    let mm ← Text.parseU8 ((s.drop 2).take 2)
    let yy ← Text.parseUnsigned (2 ^ 31) ((s.drop 4).take 2)
    if !(1 ≤ dd && dd ≤ 31) || !(1 ≤ mm && mm ≤ 12) then none
    else some (if 80 ≤ yy then 1900 + yy else 2000 + yy, mm, dd)

def parseGga (f : List Text) (raw : Text) : Gga Single Double where
  hms := parseHms (field f 1)
  latDeg := parseAngle (field f 2) (field f 3) 2 'S' 'N'
  lonDeg := parseAngle (field f 4) (field f 5) 3 'W' 'E'
  quality := (num Text.parseU8 f 6).getD 0
  sats := (num Text.parseU8 f 7).getD 0
  hdop := num FloatType.fromStr f 8
  altM := num FloatType.fromStr f 9
  geoidSepM := num FloatType.fromStr f 11
  ageS := num FloatType.fromStr f 13
  stationId := num Text.parseU16 f 14
  raw

def parseRmc (f : List Text) (raw : Text) : Rmc Single where
  hms := parseHms (field f 1)
  speedKnots := num FloatType.fromStr f 7
  trackDeg := num FloatType.fromStr f 8
  date := parseDate (field f 9)
  raw

def parseGsa (f : List Text) : Gsa Single where
  fix := (num Text.parseU8 f 2).getD 0
  pdop := num FloatType.fromStr f 15
  hdop := num FloatType.fromStr f 16
  vdop := num FloatType.fromStr f 17

/-! ## Lines -/

/-- A digit of a checksum: hexadecimal, in upper case. -/
def isCkDigit (b : UInt8) : Bool := isAsciiDigit b || (65 ≤ b && b ≤ 70)

def hexVal (b : UInt8) : UInt8 := if isAsciiDigit b then b - 48 else b - 65 + 10

/-- The exclusive or of the bytes. -/
def checksum (body : Text) : UInt8 := body.toBytes.foldl (fun a b => a ^^^ b) 0

/-- The sentence that the fields make up. -/
def interpret (f : List Text) (s : Text) : Except NmeaError (Sentence Single Double) :=
  let addr := (field f 0).toBytes
  if !(3 ≤ addr.length && addr.length ≤ 5) then .error .malformed
  else if addr.length = 5 then
    let talker := addr.take 2
    let kind := addr.drop 2
    .ok <|
      if kind = ascii "GGA" then .gga (parseGga f s)
      else if kind = ascii "RMC" then .rmc (parseRmc f s)
      else if kind = ascii "GSA" then .gsa (parseGsa f)
      else .other talker kind
  else
    let padded := addr ++ List.replicate (5 - addr.length) 0x20
    .ok (.other (padded.take 2) (padded.drop 2))

/-- What follows the dollar sign of a line. -/
def parseRest (rest s : Text) : Except NmeaError (Sentence Single Double) :=
  match rest.rsplitOnce '*' with
  | none => .error .missingChecksum
  | some (body, after) =>
    match after.toBytes with
    | [hi, lo] =>
      if !(isCkDigit hi && isCkDigit lo) then .error .missingChecksum
      else
        let stated := hexVal hi <<< 4 ||| hexVal lo
        let computed := checksum body
        if computed ≠ stated then .error (.checksumMismatch computed stated)
        else interpret (body.splitOn ',') s
    | _ => .error .missingChecksum

/-- `nmea::parse`. -/
def parse (line : Text) : Except NmeaError (Sentence Single Double) :=
  let s := line.trim
  match s with
  | '$' :: rest => parseRest rest s
  | _ => .error .malformed

end

/-! ## Accepted lines -/

/-- What follows the body of a sentence. -/
def trailer (hi lo : UInt8) : Text := ['*', Char.ofNat hi.toNat, Char.ofNat lo.toNat]

theorem append_trailer (body : Text) (hi lo : UInt8) : body ++ trailer hi lo =
    body ++ ['*', Char.ofNat hi.toNat] ++ [Char.ofNat lo.toNat] := by
  simp [trailer]

/-- A trimmed line with its delimiters in place, and a checksum that holds. -/
structure Framed (s body : Text) (hi lo : UInt8) : Prop where
  text : s = '$' :: (body ++ trailer hi lo)
  hi_digit : isCkDigit hi = true
  lo_digit : isCkDigit lo = true
  checks : checksum body = hexVal hi <<< 4 ||| hexVal lo

theorem ck_digit_bounds {b : UInt8} (h : isCkDigit b = true) : 48 ≤ b.toNat ∧ b.toNat ≤ 70 := by
  simp only [isCkDigit, isAsciiDigit, Bool.or_eq_true, Bool.and_eq_true, decide_eq_true_eq,
    UInt8.le_iff_toNat_le] at h
  rcases h with h | h
  · exact ⟨h.1, Nat.le_trans h.2 (by decide)⟩
  · exact ⟨Nat.le_trans (by decide) h.1, h.2⟩

theorem ck_digits_ascii {hi lo : UInt8} (hhi : isCkDigit hi = true) (hlo : isCkDigit lo = true) :
    ∀ b ∈ [hi, lo], b < 0x80 := by
  have hlow : ∀ b : UInt8, isCkDigit b = true → b < 0x80 := fun b hb =>
    Nat.lt_of_le_of_lt (ck_digit_bounds hb).2 (by decide)
  simp only [List.forall_mem_cons]
  exact ⟨hlow hi hhi, hlow lo hlo, fun b hb => absurd hb List.not_mem_nil⟩

/-- The characters of two checksum digits. -/
theorem text_of_ck_digits {after : Text} {hi lo : UInt8} (hbytes : after.toBytes = [hi, lo])
    (hhi : isCkDigit hi = true) (hlo : isCkDigit lo = true) :
    after = [Char.ofNat hi.toNat, Char.ofNat lo.toNat] := by
  rw [← Text.from_utf8_lossy_to_bytes after, hbytes,
    from_utf8_lossy_ascii (ck_digits_ascii hhi hlo)]
  rfl

theorem bytes_of_ck_digits {hi lo : UInt8} (hhi : isCkDigit hi = true)
    (hlo : isCkDigit lo = true) :
    Text.toBytes [Char.ofNat hi.toNat, Char.ofNat lo.toNat] = [hi, lo] := by
  have hround := to_bytes_from_utf8_lossy (ck_digits_ascii hhi hlo)
  rwa [from_utf8_lossy_ascii (ck_digits_ascii hhi hlo)] at hround

/-- A checksum digit is no delimiter. -/
theorem star_not_mem_ck_digits {hi lo : UInt8} (hhi : isCkDigit hi = true)
    (hlo : isCkDigit lo = true) : '*' ∉ [Char.ofNat hi.toNat, Char.ofNat lo.toNat] := by
  have hne : ∀ b : UInt8, isCkDigit b = true → '*' ≠ Char.ofNat b.toNat := by
    intro b hb heq
    have hbounds := ck_digit_bounds hb
    have hnat : (42 : Nat) = (Char.ofNat b.toNat).toNat := congrArg Char.toNat heq
    rw [char_of_nat (n := b.toNat) (by omega)] at hnat
    omega
  simp only [List.mem_cons, List.not_mem_nil, or_false, not_or]
  exact ⟨hne hi hhi, hne lo hlo⟩

/-- A checksum digit is the digit of its value. -/
theorem hex_val_digit {b : UInt8} (h : isCkDigit b = true) :
    (hexVal b).toNat < 16 ∧ (hexUpper (hexVal b).toNat).toNat = b.toNat := by
  have hall : ∀ n < 71, isCkDigit (UInt8.ofNat n) = true →
      (hexVal (UInt8.ofNat n)).toNat < 16 ∧
        (hexUpper (hexVal (UInt8.ofNat n)).toNat).toNat = n := by decide
  have hb := hall b.toNat (Nat.lt_succ_of_le (ck_digit_bounds h).2)
  rw [UInt8.ofNat_toNat] at hb
  exact hb h

/-- The value of two checksum digits. -/
theorem stated_to_nat {hi lo : UInt8} (hhi : isCkDigit hi = true) (hlo : isCkDigit lo = true) :
    (hexVal hi <<< 4 ||| hexVal lo).toNat = 16 * (hexVal hi).toNat + (hexVal lo).toNat := by
  have hall : ∀ m < 16, ∀ n < 16, (UInt8.ofNat m <<< 4 ||| UInt8.ofNat n).toNat = 16 * m + n := by
    decide
  have hb := hall _ (hex_val_digit hhi).1 _ (hex_val_digit hlo).1
  rwa [UInt8.ofNat_toNat, UInt8.ofNat_toNat] at hb

/-- The digits of a checksum are determined by it. -/
theorem ck_digits_unique {hi lo hi' lo' : UInt8} (hhi : isCkDigit hi = true)
    (hlo : isCkDigit lo = true) (hhi' : isCkDigit hi' = true) (hlo' : isCkDigit lo' = true)
    (h : hexVal hi <<< 4 ||| hexVal lo = hexVal hi' <<< 4 ||| hexVal lo') :
    hi = hi' ∧ lo = lo' := by
  have hnat := congrArg UInt8.toNat h
  rw [stated_to_nat hhi hlo, stated_to_nat hhi' hlo'] at hnat
  have hbound := (hex_val_digit hlo).1
  have hbound' := (hex_val_digit hlo').1
  have hhigh : (hexVal hi).toNat = (hexVal hi').toNat := by omega
  have hlow : (hexVal lo).toNat = (hexVal lo').toNat := by omega
  constructor
  · rw [← UInt8.toNat_inj, ← (hex_val_digit hhi).2, hhigh, (hex_val_digit hhi').2]
  · rw [← UInt8.toNat_inj, ← (hex_val_digit hlo).2, hlow, (hex_val_digit hlo').2]

/-- The digits that `{:02X}` prints are those that a checksum is read from. -/
theorem hex_byte_digits (b : UInt8) : ∃ hi lo, isCkDigit hi = true ∧ isCkDigit lo = true ∧
    '*' :: hexByte b = trailer hi lo ∧ b = hexVal hi <<< 4 ||| hexVal lo := by
  have hall : ∀ n < 16, isCkDigit (UInt8.ofNat (hexUpper n).toNat) = true ∧
      (hexVal (UInt8.ofNat (hexUpper n).toNat)).toNat = n ∧
      Char.ofNat (UInt8.ofNat (hexUpper n).toNat).toNat = hexUpper n := by decide
  have hb := b.toNat_lt
  obtain ⟨hhi, hhiVal, hhiChar⟩ := hall (b.toNat / 16) (by omega)
  obtain ⟨hlo, hloVal, hloChar⟩ := hall (b.toNat % 16) (by omega)
  refine ⟨_, _, hhi, hlo, ?_, ?_⟩
  · rw [trailer, hhiChar, hloChar]
    rfl
  · rw [← UInt8.toNat_inj, stated_to_nat hhi hlo, hhiVal, hloVal]
    omega

theorem ck_char_not_whitespace {b : UInt8} (h : isCkDigit b = true) :
    isWhitespace (Char.ofNat b.toNat) = false := by
  have hall : ∀ n < 71, isCkDigit (UInt8.ofNat n) = true →
      isWhitespace (Char.ofNat n) = false := by decide
  have hb := hall b.toNat (Nat.lt_succ_of_le (ck_digit_bounds h).2)
  rw [UInt8.ofNat_toNat] at hb
  exact hb h

/-- A line between two characters that are not white space is not trimmed. -/
theorem trimmed_between {first last : Char} (hfirst : isWhitespace first = false)
    (hlast : isWhitespace last = false) (middle : Text) :
    Text.Trimmed (first :: (middle ++ [last])) := by
  rw [Text.trimmed_iff, Text.trim_start_eq_self, Text.trim_end_eq_self]
  constructor
  · intro c hc
    rw [← Option.mem_some.mp hc]
    exact hfirst
  · intro c hc
    rw [← List.cons_append, List.getLast?_concat] at hc
    rw [← Option.mem_some.mp hc]
    exact hlast

section

variable {Single Double : Type} [FloatType Single] [FloatType Double]

/-- The last asterisk delimits the body, and the checksum decides. -/
theorem parse_rest_trailer {hi lo : UInt8} (hhi : isCkDigit hi = true) (hlo : isCkDigit lo = true)
    (body s : Text) :
    (parseRest (body ++ trailer hi lo) s : Except NmeaError (Sentence Single Double)) =
      if checksum body ≠ hexVal hi <<< 4 ||| hexVal lo then
        .error (.checksumMismatch (checksum body) (hexVal hi <<< 4 ||| hexVal lo))
      else interpret (body.splitOn ',') s := by
  rw [parseRest, trailer, Text.rsplit_once_append (star_not_mem_ck_digits hhi hlo)]
  simp only [bytes_of_ck_digits hhi hlo, hhi, hlo, Bool.and_self, Bool.not_true, if_neg,
    Bool.false_eq_true, not_false_eq_true]

theorem parse_rest_eq_ok {rest s : Text} {x : Sentence Single Double} :
    parseRest rest s = .ok x ↔ ∃ body hi lo, rest = body ++ trailer hi lo ∧
      isCkDigit hi = true ∧ isCkDigit lo = true ∧
      checksum body = hexVal hi <<< 4 ||| hexVal lo ∧ interpret (body.splitOn ',') s = .ok x := by
  constructor
  · intro h
    unfold parseRest at h
    split at h
    · exact absurd h (by simp)
    · next body after hsplit =>
        split at h
        · next hi lo hbytes =>
            split at h
            · exact absurd h (by simp)
            · next hdigits =>
                simp only at h
                split at h
                · exact absurd h (by simp)
                · next hcheck =>
                    simp only [Bool.not_eq_true', Bool.not_eq_false, Bool.and_eq_true] at hdigits
                    refine ⟨body, hi, lo, ?_, hdigits.1, hdigits.2, not_not.mp hcheck, h⟩
                    rw [Text.rsplit_once_some hsplit,
                      text_of_ck_digits hbytes hdigits.1 hdigits.2]
                    rfl
        · exact absurd h (by simp)
  · rintro ⟨body, hi, lo, rfl, hhi, hlo, hcheck, hok⟩
    rw [parse_rest_trailer hhi hlo, if_neg (not_not.mpr hcheck), hok]

/-- The accepted lines. -/
theorem parse_eq_ok {line : Text} {x : Sentence Single Double} :
    parse line = .ok x ↔ ∃ body hi lo, Framed line.trim body hi lo ∧
      interpret (body.splitOn ',') line.trim = .ok x := by
  constructor
  · intro h
    unfold parse at h
    simp only at h
    split at h
    · next rest hs =>
        obtain ⟨body, hi, lo, rfl, hhi, hlo, hcheck, hok⟩ := parse_rest_eq_ok.mp h
        exact ⟨body, hi, lo, ⟨hs, hhi, hlo, hcheck⟩, hok⟩
    · exact absurd h (by simp)
  · rintro ⟨body, hi, lo, hframed, hok⟩
    unfold parse
    simp only [hframed.text]
    rw [hframed.text] at hok
    exact parse_rest_eq_ok.mpr
      ⟨body, hi, lo, rfl, hframed.hi_digit, hframed.lo_digit, hframed.checks, hok⟩

/-- Fix data keep the text of their sentence. -/
theorem interpret_gga_raw {f : List Text} {s : Text} {g : Gga Single Double}
    (h : interpret f s = .ok (.gga g)) : g.raw = s := by
  unfold interpret at h
  simp only at h
  split at h
  · exact absurd h (by simp)
  split at h
  · split at h
    · rw [← Sentence.gga.inj (Except.ok.inj h)]
      rfl
    split at h
    · exact absurd (Except.ok.inj h) (by simp)
    split at h
    · exact absurd (Except.ok.inj h) (by simp)
    · exact absurd (Except.ok.inj h) (by simp)
  · exact absurd (Except.ok.inj h) (by simp)

theorem parse_gga_raw {line : Text} {g : Gga Single Double} (h : parse line = .ok (.gga g)) :
    g.raw = line.trim := by
  obtain ⟨_, _, _, _, hinterpret⟩ := parse_eq_ok.mp h
  exact interpret_gga_raw hinterpret

/-- The fields are those of a sentence if the address has three to five bytes. -/
theorem interpret_ok_iff {f : List Text} {s : Text} :
    (∃ x : Sentence Single Double, interpret f s = .ok x) ↔
      3 ≤ (field f 0).toBytes.length ∧ (field f 0).toBytes.length ≤ 5 := by
  unfold interpret
  constructor
  · rintro ⟨x, h⟩
    simp only at h
    split at h
    · exact absurd h (by simp)
    · next haddr => simpa using haddr
  · intro haddr
    have hlength : ¬ (!(decide (3 ≤ (field f 0).toBytes.length) &&
        decide ((field f 0).toBytes.length ≤ 5))) = true := by simpa using haddr
    simp only
    rw [if_neg hlength]
    split
    · exact ⟨_, rfl⟩
    · exact ⟨_, rfl⟩

end

/-! ## The checksum -/

theorem checksum_append (s t : Text) : checksum (s ++ t) = checksum s ^^^ checksum t := by
  have hgeneral : ∀ (bytes : Bytes) (acc : UInt8),
      bytes.foldl (fun a b => a ^^^ b) acc = acc ^^^ bytes.foldl (fun a b => a ^^^ b) 0 := by
    intro bytes
    induction bytes with
    | nil => exact fun acc => UInt8.xor_zero.symm
    | cons b rest ih =>
        intro acc
        rw [List.foldl_cons, List.foldl_cons, ih (acc ^^^ b), ih (0 ^^^ b), UInt8.zero_xor,
          UInt8.xor_assoc]
  rw [checksum, Text.to_bytes_append, List.foldl_append, hgeneral]
  rfl

/-- The checksum of one ASCII character is its byte. -/
theorem checksum_char {c : Char} (h : c.toNat < 0x80) : checksum [c] = UInt8.ofNat c.toNat := by
  have hbytes : Text.toBytes [c] = [UInt8.ofNat c.toNat] :=
    Text.to_bytes_ascii fun d hd => List.mem_singleton.mp hd ▸ h
  rw [checksum, hbytes]
  exact UInt8.zero_xor

end Nmea
end OpenNtrip
