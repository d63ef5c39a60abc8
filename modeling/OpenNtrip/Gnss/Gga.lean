import OpenNtrip.Gnss.Clock
import OpenNtrip.Gnss.Nmea

/-!
# Fabricated GGA sentences

`gga.rs`, with coordinates that are rational numbers. The minutes are rounded to five places after
the decision whether they carry into the degrees, so `deg_min_near` says of both together how far
they are from the coordinate. `fabricate_round_trip` is what the parser makes of the sentence.
-/

namespace OpenNtrip

namespace Gga

/-! ## The sentence -/

/-- `f64::trunc`. -/
def trunc (x : Rat) : Int := if x < 0 then x.ceil else x.floor

/-- The conversion of a float to `u32`, which saturates. -/
def asU32 (x : Int) : Nat := min x.toNat (2 ^ 32 - 1)

/-- Whole degrees and decimal minutes. Minutes that would be rounded to 60 carry. -/
def degMin (absDeg : Rat) : Nat × Rat :=
  let whole := trunc absDeg
  let min := (absDeg - whole) * 60
  if 59999995 / 1000000 ≤ min then (asU32 whole + 1, 0) else (asU32 whole, min)

/-- A hemisphere and the coordinate without its sign. -/
def hemisphere (deg : Rat) (neg pos : Char) : Char × Rat :=
  if deg < 0 then (neg, -deg) else (pos, deg)

/-- The text between the dollar sign and the asterisk. -/
def body (latDeg lonDeg : Rat) (utc : UtcTime) : Text :=
  let lat := hemisphere latDeg 'S' 'N'
  let lon := hemisphere lonDeg 'W' 'E'
  let latAngle := degMin lat.2
  let lonAngle := degMin lon.2
  let age := utc.sec.toNat % 6 + 3
  "GPGGA,".toList ++ padded 2 utc.hour.toNat ++ padded 2 utc.min.toNat ++
    padded 2 utc.sec.toNat ++ ".00,".toList ++ padded 2 latAngle.1 ++ fixed 8 5 latAngle.2 ++
    [',', lat.1, ','] ++ padded 3 lonAngle.1 ++ fixed 8 5 lonAngle.2 ++ [',', lon.1] ++
    ",4,10,1.0,200.0,M,1.0,M,".toList ++ decimalText age ++ ".0,0000".toList

/-- `gga::fabricate`. -/
def fabricate (latDeg lonDeg : Rat) (utc : UtcTime) : Text :=
  let body := body latDeg lonDeg utc
  let ck := Nmea.checksum body
  ['$'] ++ body ++ ['*'] ++ hexByte ck ++ "\r\n".toList

/-! ## Degrees and minutes -/

/-- What a coordinate is printed as: degrees, and hundred-thousandths of a minute. -/
def printed (absDeg : Rat) : Nat × Nat :=
  ((degMin absDeg).1, roundHalfEven ((degMin absDeg).2 * 10 ^ 5))

/-- Whole degrees and the minutes of the rest, or one degree more if the rest is rounded up. -/
theorem deg_min_cases {x : Rat} {bound : Nat} (hx : 0 ≤ x) (h : x ≤ bound)
    (hbound : bound < 2 ^ 32) :
    (59999995 / 1000000 ≤ (x - x.floor.toNat) * 60 ∧ degMin x = (x.floor.toNat + 1, 0) ∧
        x.floor.toNat + 1 ≤ bound) ∨
      ((x - x.floor.toNat) * 60 < 59999995 / 1000000 ∧
        degMin x = (x.floor.toNat, (x - x.floor.toNat) * 60) ∧ x.floor.toNat ≤ bound) := by
  obtain ⟨hlow, hhigh⟩ := floor_bounds hx
  have hle : x.floor.toNat ≤ bound := by exact_mod_cast hlow.trans h
  have hnonneg : 0 ≤ x.floor := Rat.le_floor_iff.mpr (by simpa using hx)
  have hwhole : ((trunc x : Int) : Rat) = (x.floor.toNat : Rat) := by
    rw [trunc, if_neg (not_lt.mpr hx)]
    exact_mod_cast congrArg (fun z : Int => (z : Rat)) (Int.toNat_of_nonneg hnonneg).symm
  have hsaturated : asU32 (trunc x) = x.floor.toNat := by
    rw [asU32, trunc, if_neg (not_lt.mpr hx)]
    omega
  rw [degMin]
  simp only [hwhole, hsaturated]
  split
  · next hcarry =>
      -- a coordinate at its bound has no minutes
      have hlt : x.floor.toNat < bound := by
        by_contra hge
        have heq : x.floor.toNat = bound := by omega
        rw [heq] at hcarry
        linarith
      exact .inl ⟨hcarry, rfl, hlt⟩
  · next hnocarry => exact .inr ⟨not_le.mp hnocarry, rfl, hle⟩

section

variable {x : Rat} {bound : Nat} (hx : 0 ≤ x) (h : x ≤ bound) (hbound : bound < 2 ^ 32)
include hx h hbound

theorem deg_min_nonneg : 0 ≤ (degMin x).2 := by
  rcases deg_min_cases hx h hbound with ⟨_, heq, _⟩ | ⟨_, heq, _⟩
  · rw [heq]
  · rw [heq]
    exact mul_nonneg (sub_nonneg.mpr (floor_bounds hx).1) (by norm_num)

/-- The printed degrees are within the bound of the coordinate. -/
theorem printed_degrees_le : (printed x).1 ≤ bound := by
  rw [printed]
  rcases deg_min_cases hx h hbound with ⟨_, heq, hle⟩ | ⟨_, heq, hle⟩
  · rw [heq]
    exact hle
  · rw [heq]
    exact hle

/-- The printed minutes are below 60. -/
theorem printed_minutes_lt : (printed x).2 < 60 * 10 ^ 5 := by
  have hnonneg := deg_min_nonneg hx h hbound
  have hle : roundHalfEven ((degMin x).2 * 10 ^ 5) ≤ 5999999 := by
    refine round_half_even_le (mul_nonneg hnonneg (by norm_num)) ?_
    rcases deg_min_cases hx h hbound with ⟨_, heq, _⟩ | ⟨hlt, heq, _⟩
    · rw [heq]
      norm_num
    · rw [heq]
      push_cast
      linarith
  exact Nat.lt_of_le_of_lt hle (by norm_num)

/-- Printing moves a coordinate by at most half a unit of the fifth place of a minute. -/
theorem printed_near :
    |((printed x).1 : Rat) + ((printed x).2 : Rat) / 10 ^ 5 / 60 - x| ≤ 1 / 12000000 := by
  have hnonneg := deg_min_nonneg hx h hbound
  have hround := abs_le.mp
    (round_half_even_near (mul_nonneg hnonneg (by norm_num : (0 : Rat) ≤ 10 ^ 5)))
  have hfloor := floor_bounds hx
  rw [abs_le, printed]
  rcases deg_min_cases hx h hbound with ⟨hcarry, heq, _⟩ | ⟨_, heq, _⟩
  · have hzero : roundHalfEven (0 * 10 ^ 5) = 0 :=
      Nat.le_zero.mp (round_half_even_le (by norm_num) (by norm_num))
    rw [heq]
    simp only [hzero]
    push_cast
    constructor <;> linarith
  · rw [heq] at hround ⊢
    simp only at hround ⊢
    constructor <;> linarith

end

/-! ## The fields -/

/-- Degrees and minutes as text. -/
def angleText (degDigits : Nat) (angle : Nat × Nat) : Text :=
  padded degDigits angle.1 ++
    (padded 2 (angle.2 / 10 ^ 5) ++ '.' :: padded 5 (angle.2 % 10 ^ 5))

/-- The fields of the sentence. -/
def fields (latDeg lonDeg : Rat) (utc : UtcTime) : List Text :=
  let lat := hemisphere latDeg 'S' 'N'
  let lon := hemisphere lonDeg 'W' 'E'
  ["GPGGA".toList,
    padded 2 utc.hour.toNat ++ padded 2 utc.min.toNat ++ padded 2 utc.sec.toNat ++ ".00".toList,
    angleText 2 (printed lat.2), [lat.1], angleText 3 (printed lon.2), [lon.1],
    "4".toList, "10".toList, "1.0".toList, "200.0".toList, "M".toList, "1.0".toList, "M".toList,
    decimalText (utc.sec.toNat % 6 + 3) ++ ".0".toList, "0000".toList]

/-- The fields that the parser looks at. -/
theorem fields_at (lat lon : Rat) (utc : UtcTime) :
    Nmea.field (fields lat lon utc) 0 = "GPGGA".toList ∧
      Nmea.field (fields lat lon utc) 1 = padded 2 utc.hour.toNat ++ padded 2 utc.min.toNat ++
        padded 2 utc.sec.toNat ++ ".00".toList ∧
      Nmea.field (fields lat lon utc) 2 = angleText 2 (printed (hemisphere lat 'S' 'N').2) ∧
      Nmea.field (fields lat lon utc) 3 = [(hemisphere lat 'S' 'N').1] ∧
      Nmea.field (fields lat lon utc) 4 = angleText 3 (printed (hemisphere lon 'W' 'E').2) ∧
      Nmea.field (fields lat lon utc) 5 = [(hemisphere lon 'W' 'E').1] ∧
      Nmea.field (fields lat lon utc) 6 = "4".toList ∧
      Nmea.field (fields lat lon utc) 7 = "10".toList := by
  unfold fields
  exact ⟨rfl, rfl, rfl, rfl, rfl, rfl, rfl, rfl⟩

/-- A coordinate without its sign. -/
theorem hemisphere_abs (deg : Rat) (neg pos : Char) : (hemisphere deg neg pos).2 = |deg| := by
  rw [hemisphere]
  split
  · next hneg => exact (abs_of_neg hneg).symm
  · next hpos => exact (abs_of_nonneg (not_lt.mp hpos)).symm

/-- Every coordinate is printed as degrees and minutes. -/
theorem fixed_minutes {x : Rat} {bound : Nat} (hx : 0 ≤ x) (h : x ≤ bound)
    (hbound : bound < 2 ^ 32) (degDigits : Nat) :
    padded degDigits (degMin x).1 ++ fixed 8 5 (degMin x).2 = angleText degDigits (printed x) := by
  rw [angleText, printed, ← fixed_nonneg (deg_min_nonneg hx h hbound) (by norm_num)]

/-- The body is its fields with commas between them. -/
theorem body_eq {lat lon : Rat} (hlat : |lat| ≤ 90) (hlon : |lon| ≤ 180) (utc : UtcTime) :
    body lat lon utc = [','].intercalate (fields lat lon utc) := by
  have hlatText : padded 2 (degMin (hemisphere lat 'S' 'N').2).1 ++
      fixed 8 5 (degMin (hemisphere lat 'S' 'N').2).2 =
        angleText 2 (printed (hemisphere lat 'S' 'N').2) := by
    have hbound : |lat| ≤ ((90 : Nat) : Rat) := by
      push_cast
      exact hlat
    rw [hemisphere_abs]
    exact fixed_minutes (abs_nonneg lat) hbound (by norm_num) 2
  have hlonText : padded 3 (degMin (hemisphere lon 'W' 'E').2).1 ++
      fixed 8 5 (degMin (hemisphere lon 'W' 'E').2).2 =
        angleText 3 (printed (hemisphere lon 'W' 'E').2) := by
    have hbound : |lon| ≤ ((180 : Nat) : Rat) := by
      push_cast
      exact hlon
    rw [hemisphere_abs]
    exact fixed_minutes (abs_nonneg lon) hbound (by norm_num) 3
  unfold fields body
  simp only
  rw [← hlatText, ← hlonText]
  simp only [List.intercalate_cons_cons, List.intercalate_singleton, List.append_assoc]
  rfl

theorem hemisphere_letter (deg : Rat) (neg pos : Char) :
    (hemisphere deg neg pos).1 = neg ∨ (hemisphere deg neg pos).1 = pos := by
  rw [hemisphere]
  split
  · exact .inl rfl
  · exact .inr rfl

/-- Digits and points are no commas. -/
theorem comma_not_mem {s : Text} (h : ∀ c ∈ s, c.isDigit = true ∨ c = '.') : ',' ∉ s := by
  intro hmem
  rcases h ',' hmem with hdigit | hpoint
  · exact absurd hdigit (by decide)
  · exact absurd hpoint (by decide)

theorem angle_text_char {degDigits : Nat} {angle : Nat × Nat} {c : Char}
    (h : c ∈ angleText degDigits angle) : c.isDigit = true ∨ c = '.' := by
  rcases List.mem_append.mp h with hc | hc
  · exact .inl (padded_digit hc)
  rcases List.mem_append.mp hc with hc | hc
  · exact .inl (padded_digit hc)
  rcases List.mem_cons.mp hc with hc | hc
  · exact .inr hc
  · exact .inl (padded_digit hc)

theorem comma_not_mem_fields (lat lon : Rat) (utc : UtcTime) :
    ∀ f ∈ fields lat lon utc, ',' ∉ f := by
  have hpadded : ∀ width n, ',' ∉ padded width n := fun width n =>
    comma_not_mem fun c hc => .inl (padded_digit hc)
  have hdecimal : ∀ n, ',' ∉ decimalText n := fun n =>
    comma_not_mem fun c hc => .inl (decimal_text_digit hc)
  have hangle : ∀ degDigits angle, ',' ∉ angleText degDigits angle := fun degDigits angle =>
    comma_not_mem fun c hc => angle_text_char hc
  have hlat : ',' ≠ (hemisphere lat 'S' 'N').1 := by
    rcases hemisphere_letter lat 'S' 'N' with heq | heq <;> rw [heq] <;> decide
  have hlon : ',' ≠ (hemisphere lon 'W' 'E').1 := by
    rcases hemisphere_letter lon 'W' 'E' with heq | heq <;> rw [heq] <;> decide
  unfold fields
  simp only [List.forall_mem_cons, List.mem_append, List.mem_singleton, hpadded, hdecimal, hangle,
    hlat, hlon, not_false_eq_true, true_and, false_or, forall_eq]
  decide

/-- The fields of the body. -/
theorem body_fields {lat lon : Rat} (hlat : |lat| ≤ 90) (hlon : |lon| ≤ 180) (utc : UtcTime) :
    (body lat lon utc).splitOn ',' = fields lat lon utc := by
  rw [body_eq hlat hlon]
  refine List.splitOn_intercalate ',' (comma_not_mem_fields lat lon utc) ?_
  unfold fields
  exact List.cons_ne_nil _ _

/-! ## The framing -/

theorem fabricate_framed (lat lon : Rat) (utc : UtcTime) :
    ∃ hi lo, Nmea.Framed (fabricate lat lon utc).trim (body lat lon utc) hi lo := by
  obtain ⟨hi, lo, hhi, hlo, htrailer, hchecks⟩ :=
    Nmea.hex_byte_digits (Nmea.checksum (body lat lon utc))
  have hline : fabricate lat lon utc =
      '$' :: (body lat lon utc ++ Nmea.trailer hi lo) ++ "\r\n".toList := by
    rw [← htrailer]
    simp [fabricate]
  have hspace : ∀ c ∈ "\r\n".toList, isWhitespace c = true := List.all_eq_true.mp (by decide)
  refine ⟨hi, lo, ?_, hhi, hlo, hchecks⟩
  rw [hline, Text.trim_append_space hspace, Nmea.append_trailer]
  exact Nmea.trimmed_between (by decide) (Nmea.ck_char_not_whitespace hlo) _

/-! ## Reading the fields -/

/-- The bytes of digits are digits, one a character. -/
theorem digit_bytes {s : Text} (h : ∀ c ∈ s, c.isDigit = true) (rest : Text) :
    ((s ++ rest).toBytes.take s.length).all isAsciiDigit = true := by
  have hascii : ∀ c ∈ s, c.toNat < 0x80 := fun c hc => digit_lt (h c hc)
  have hlength : s.toBytes.length = s.length := by
    rw [Text.to_bytes_ascii hascii, List.length_map]
  rw [Text.to_bytes_append, ← hlength, List.take_left, Text.to_bytes_ascii hascii,
    List.all_map, List.all_eq_true]
  intro c hc
  rw [Function.comp_apply, isAsciiDigit, digit_byte (hascii c hc), h c hc]

/-- Seconds are read with their fraction. -/
theorem to_rat_seconds (n : Nat) : Text.toRat (padded 2 n ++ ".00".toList) = some (n : Rat) := by
  have hpoint := to_rat_padded_point (show 0 < 2 by norm_num) 2 (n * 10 ^ 2)
  have hzero : ".00".toList = '.' :: padded 2 0 := by decide
  rw [Nat.mul_div_cancel _ (by norm_num), Nat.mul_mod_left, ← hzero] at hpoint
  rw [hpoint, Option.some.injEq]
  push_cast
  ring

theorem parse_hms_text {utc : UtcTime} (h : utc.Valid) :
    Nmea.parseHms (padded 2 utc.hour.toNat ++ padded 2 utc.min.toNat ++
      padded 2 utc.sec.toNat ++ ".00".toList) =
        some (utc.hour, utc.min, (utc.sec.toNat : Rat)) := by
  obtain ⟨hhour, hmin, hsec⟩ := h
  rw [UInt8.lt_iff_toNat_lt] at hsec
  have hlength : ∀ n, n < 100 → (padded 2 n).length = 2 :=
    fun n hn => padded_length (by norm_num) hn
  have hhourText := hlength utc.hour.toNat (Nat.lt_trans hhour (by decide))
  have hminText := hlength utc.min.toNat (Nat.lt_trans hmin (by decide))
  have hsecText := hlength utc.sec.toNat (Nat.lt_trans hsec (by decide))
  set digits := padded 2 utc.hour.toNat ++ padded 2 utc.min.toNat ++ padded 2 utc.sec.toNat with hd
  have hdigits : ∀ c ∈ digits, c.isDigit = true := by
    intro c hc
    rw [hd, List.mem_append, List.mem_append] at hc
    rcases hc with (hc | hc) | hc
    · exact padded_digit hc
    · exact padded_digit hc
    · exact padded_digit hc
  have hsix : digits.length = 6 := by
    rw [hd, List.length_append, List.length_append, hhourText, hminText, hsecText]
  have hall := digit_bytes hdigits ".00".toList
  rw [hsix] at hall
  have hbytes := Text.length_le_to_bytes (digits ++ ".00".toList)
  rw [List.length_append, hsix] at hbytes
  have htake : (digits ++ ".00".toList).take 2 = padded 2 utc.hour.toNat := by
    rw [hd, List.append_assoc, List.append_assoc, List.take_left' hhourText]
  have hdrop : (digits ++ ".00".toList).drop 2 =
      padded 2 utc.min.toNat ++ (padded 2 utc.sec.toNat ++ ".00".toList) := by
    rw [hd, List.append_assoc, List.append_assoc, List.drop_left' hhourText]
  have hseconds : (digits ++ ".00".toList).drop 4 = padded 2 utc.sec.toNat ++ ".00".toList := by
    rw [hd, List.append_assoc (padded 2 utc.hour.toNat ++ padded 2 utc.min.toNat)]
    exact List.drop_left' (by rw [List.length_append, hhourText, hminText])
  have hguard : (decide ((digits ++ ".00".toList).toBytes.length < 6) ||
      !((digits ++ ".00".toList).toBytes.take 6).all isAsciiDigit) = false := by
    rw [hall, Bool.not_true, Bool.or_false, decide_eq_false_iff_not]
    omega
  rw [Nmea.parseHms]
  simp only [hguard, htake, hdrop, hseconds, List.take_left' hminText, parse_u8_padded]
  show (Text.toRat (padded 2 utc.sec.toNat ++ ".00".toList)).bind _ = _
  have hbelow : (utc.sec.toNat : Rat) < 61 := by exact_mod_cast hsec
  have htime : (decide (utc.hour < 24) && decide (utc.min < 60) &&
      decide ((utc.sec.toNat : Rat) < 61)) = true := by
    simp [hhour, hmin, hbelow]
  rw [to_rat_seconds, Option.bind_some]
  exact if_pos htime

/-- An angle is read back as it was printed, with the sign of its hemisphere. -/
theorem parse_angle_text {degDigits : Nat} {angle : Nat × Nat} (hdigits : 0 < degDigits)
    (hdeg : angle.1 < 10 ^ degDigits) {hemi neg pos : Char} :
    Nmea.parseAngle (angleText degDigits angle) [hemi] degDigits neg pos =
      let val : Rat := (angle.1 : Rat) + (angle.2 : Rat) / 10 ^ 5 / 60
      if hemi = pos then some val else if hemi = neg then some (-val) else none := by
  have hlength : (padded degDigits angle.1).length = degDigits := padded_length hdigits hdeg
  have hall := digit_bytes (s := padded degDigits angle.1) (fun _ => padded_digit)
    (padded 2 (angle.2 / 10 ^ 5) ++ '.' :: padded 5 (angle.2 % 10 ^ 5))
  rw [hlength] at hall
  have hlong : ¬ (angleText degDigits angle).toBytes.length ≤ degDigits := by
    have hbytes := Text.length_le_to_bytes (angleText degDigits angle)
    rw [angleText, List.length_append, hlength, List.length_append, List.length_cons] at hbytes
    rw [angleText]
    omega
  have hminutes := to_rat_padded_point (show 0 < 5 by norm_num) 2 angle.2
  have hguard : (decide ((angleText degDigits angle).toBytes.length ≤ degDigits) ||
      !((angleText degDigits angle).toBytes.take degDigits).all isAsciiDigit) = false := by
    rw [angleText] at hlong ⊢
    rw [hall, Bool.not_true, Bool.or_false, decide_eq_false_iff_not]
    exact hlong
  rw [Nmea.parseAngle]
  simp only [hguard]
  rw [angleText, List.take_left' hlength, List.drop_left' hlength]
  show (Text.toRat _).bind (fun deg => (Text.toRat _).bind fun minutes => _) = _
  rw [to_rat_padded, hminutes]
  rfl

/-! ## The round trip -/

theorem interpret_gga {f : List Text} (h : Nmea.field f 0 = "GPGGA".toList) (s : Text) :
    (Nmea.interpret f s : Except Nmea.NmeaError (Nmea.Sentence Rat Rat)) =
      .ok (.gga (Nmea.parseGga f s)) := by
  unfold Nmea.interpret
  rw [h]
  rfl

/-- A printed coordinate is read back with its sign. -/
theorem parse_printed {deg : Rat} {bound : Nat} (h : |deg| ≤ bound) {degDigits : Nat}
    (hdigits : 0 < degDigits) (hbound : bound < 10 ^ degDigits) (hlimit : bound < 2 ^ 32)
    {neg pos : Char} (hne : neg ≠ pos) :
    ∃ x : Rat, Nmea.parseAngle (angleText degDigits (printed (hemisphere deg neg pos).2))
        [(hemisphere deg neg pos).1] degDigits neg pos = some x ∧
      |x - deg| ≤ 5 / 1000000 / 60 := by
  have hnear := printed_near (abs_nonneg deg) h hlimit
  have hunit : (1 : Rat) / 12000000 = 5 / 1000000 / 60 := by norm_num
  have hdeg := Nat.lt_of_le_of_lt (printed_degrees_le (abs_nonneg deg) h hlimit) hbound
  rw [hunit] at hnear
  rw [hemisphere_abs, parse_angle_text hdigits hdeg]
  by_cases hneg : deg < 0
  · rw [abs_of_neg hneg] at hnear ⊢
    have hletter : (hemisphere deg neg pos).1 = neg := by rw [hemisphere, if_pos hneg]
    refine ⟨-(((printed (-deg)).1 : Rat) + ((printed (-deg)).2 : Rat) / 10 ^ 5 / 60), ?_, ?_⟩
    · rw [hletter]
      exact (if_neg hne).trans (if_pos rfl)
    · rw [← abs_neg, neg_sub, sub_neg_eq_add, add_comm, ← sub_neg_eq_add]
      exact hnear
  · rw [abs_of_nonneg (not_lt.mp hneg)] at hnear ⊢
    have hletter : (hemisphere deg neg pos).1 = pos := by rw [hemisphere, if_neg hneg]
    refine ⟨((printed deg).1 : Rat) + ((printed deg).2 : Rat) / 10 ^ 5 / 60, ?_, hnear⟩
    rw [hletter]
    exact if_pos rfl

/-- What the field of an angle is made of. -/
theorem angle_text_parts {x : Rat} {bound : Nat} (hx : 0 ≤ x) (h : x ≤ bound)
    (hlimit : bound < 2 ^ 32) (degDigits : Nat) :
    ∃ deg min frac, angleText degDigits (printed x) =
        padded degDigits deg ++ (padded 2 min ++ '.' :: padded 5 frac) ∧
      deg ≤ bound ∧ min < 60 ∧ frac < 10 ^ 5 := by
  have hminutes := printed_minutes_lt hx h hlimit
  exact ⟨_, _, _, rfl, printed_degrees_le hx h hlimit, by omega, Nat.mod_lt _ (by norm_num)⟩

/-- The sentence is accepted, claims what it is built to claim, and its coordinates are those given
up to half a unit of the fifth place of a minute, with minutes below 60 and degrees in range. -/
theorem fabricate_round_trip {lat lon : Rat} (hlat : |lat| ≤ 90) (hlon : |lon| ≤ 180)
    {utc : UtcTime} (hutc : utc.Valid) :
    ∃ g : Nmea.Gga Rat Rat, Nmea.parse (fabricate lat lon utc) = .ok (.gga g) ∧
      g.quality = 4 ∧ g.sats = 10 ∧ g.hms = some (utc.hour, utc.min, (utc.sec.toNat : Rat)) ∧
      (∃ x, g.latDeg = some x ∧ |x - lat| ≤ 5 / 1000000 / 60) ∧
      (∃ x, g.lonDeg = some x ∧ |x - lon| ≤ 5 / 1000000 / 60) ∧
      (∃ deg min frac, Nmea.field ((body lat lon utc).splitOn ',') 2 =
          padded 2 deg ++ (padded 2 min ++ '.' :: padded 5 frac) ∧
        deg ≤ 90 ∧ min < 60 ∧ frac < 10 ^ 5) ∧
      ∃ deg min frac, Nmea.field ((body lat lon utc).splitOn ',') 4 =
          padded 3 deg ++ (padded 2 min ++ '.' :: padded 5 frac) ∧
        deg ≤ 180 ∧ min < 60 ∧ frac < 10 ^ 5 := by
  have hlatBound : |lat| ≤ ((90 : Nat) : Rat) := by exact_mod_cast hlat
  have hlonBound : |lon| ≤ ((180 : Nat) : Rat) := by exact_mod_cast hlon
  have hlatParts := angle_text_parts (abs_nonneg lat) hlatBound (by norm_num) 2
  have hlonParts := angle_text_parts (abs_nonneg lon) hlonBound (by norm_num) 3
  rw [← hemisphere_abs lat 'S' 'N'] at hlatParts
  rw [← hemisphere_abs lon 'W' 'E'] at hlonParts
  obtain ⟨hi, lo, hframed⟩ := fabricate_framed lat lon utc
  have hbody := body_fields hlat hlon utc
  have hfields := fields_at lat lon utc
  generalize fields lat lon utc = f at hbody hfields
  obtain ⟨haddress, hhms, hlatText, hlatHemi, hlonText, hlonHemi, hquality, hsats⟩ := hfields
  rw [hbody, hlatText, hlonText]
  refine ⟨Nmea.parseGga f (fabricate lat lon utc).trim, ?_, ?_, ?_, ?_, ?_, ?_, hlatParts,
    hlonParts⟩
  · refine Nmea.parse_eq_ok.mpr ⟨body lat lon utc, hi, lo, hframed, ?_⟩
    rw [hbody]
    exact interpret_gga haddress _
  · show (Nmea.num Text.parseU8 f 6).getD 0 = 4
    rw [Nmea.num, hquality]
    rfl
  · show (Nmea.num Text.parseU8 f 7).getD 0 = 10
    rw [Nmea.num, hsats]
    rfl
  · show Nmea.parseHms (Nmea.field f 1) = _
    rw [hhms]
    exact parse_hms_text hutc
  · show ∃ x, Nmea.parseAngle (Nmea.field f 2) (Nmea.field f 3) 2 'S' 'N' = some x ∧ _
    rw [hlatText, hlatHemi]
    exact parse_printed hlatBound (by norm_num) (by norm_num) (by norm_num) (by decide)
  · show ∃ x, Nmea.parseAngle (Nmea.field f 4) (Nmea.field f 5) 3 'W' 'E' = some x ∧ _
    rw [hlonText, hlonHemi]
    exact parse_printed hlonBound (by norm_num) (by norm_num) (by norm_num) (by decide)

/-- A sentence for Portland. -/
theorem fabricate_round_trip_portland :
    ∃ g : Nmea.Gga Rat Rat,
      Nmea.parse (fabricate (455152 / 10000) (-1226784 / 10000) ⟨2026, 7, 15, 12, 34, 56, 0⟩) =
        .ok (.gga g) ∧ g.quality = 4 ∧ g.sats = 10 := by
  have hlat : |(455152 / 10000 : Rat)| ≤ 90 := by norm_num
  have hlon : |(-1226784 / 10000 : Rat)| ≤ 180 := by norm_num [abs_le]
  have hutc : UtcTime.Valid ⟨2026, 7, 15, 12, 34, 56, 0⟩ := by
    rw [UtcTime.Valid]
    decide
  obtain ⟨g, hparse, hquality, hsats, _⟩ := fabricate_round_trip hlat hlon hutc
  exact ⟨g, hparse, hquality, hsats⟩

end Gga
end OpenNtrip
