import OpenNtrip.Lib.Gregorian

/-!
# Civil time

`clock.rs`. `civil_from_days_ordinal` is the one theorem that opens the arithmetic: on the day
number of a date it is the date. What else holds of it comes from the calendar.
-/

namespace OpenNtrip

/-- An instant in civil fields. `centis` is hundredths of a second. -/
structure UtcTime where
  year : Int
  month : UInt8
  day : UInt8
  hour : UInt8
  min : UInt8
  sec : UInt8
  centis : UInt8
  deriving DecidableEq, Repr

/-- The time of day is one, a leap second included. -/
def UtcTime.Valid (utc : UtcTime) : Prop := utc.hour < 24 ∧ utc.min < 60 ∧ utc.sec < 61

namespace Clock

open Gregorian

/-- A date from the days since 1970-01-01. The numbers under `/` other than `z` are not negative,
where every division of the source is this one. -/
def civilFromDays (days : Int) : Int32 × UInt8 × UInt8 :=
  -- the epoch is moved to 0000-03-01, so that a leap day is the last day of its year
  let z := days + 719468
  let era := z / 146097
  let doe := z % 146097
  let yoe := (doe - doe / 1460 + doe / 36524 - doe / 146096) / 365
  let doy := doe - (365 * yoe + yoe / 4 - yoe / 100)
  let mp := (5 * doy + 2) / 153
  let day := doy - (153 * mp + 2) / 5 + 1
  let month := if mp < 10 then mp + 3 else mp - 9
  let year := yoe + era * 400 + if month ≤ 2 then 1 else 0
  (Int32.ofInt year, UInt8.ofInt month, UInt8.ofInt day)

def utcFromUnix (secs : Int) (centis : UInt8) : UtcTime :=
  let days := secs / 86400
  let sod := secs % 86400
  let date := civilFromDays days
  { year := date.1.toInt
    month := date.2.1
    day := date.2.2
    hour := UInt8.ofInt (sod / 3600)
    min := UInt8.ofInt (sod / 60 % 60)
    sec := UInt8.ofInt (sod % 60)
    centis := centis }

/-! ## The civil date of a day number -/

/-- The Unix epoch. -/
def epoch : Date := Date.newYear 1970

/-- The first of January 1970 by its number in the calendar. -/
theorem ordinal_epoch : epoch.ordinal = 719163 := by decide

/-- The date of the calendar that is `days` days after the epoch. -/
noncomputable def dateOf (days : Int) : Date := dayCount.symm (days + epoch.ordinal)

/-- Days are counted from the epoch. -/
theorem ordinal_date_of (days : Int) : (dateOf days).ordinal = days + epoch.ordinal :=
  ordinal_of_day_count _

/-- A date with this number of days from the epoch is the date of that day. -/
theorem date_of_eq {d : Date} {days : Int} (h : d.ordinal = days + epoch.ordinal) :
    dateOf days = d :=
  eq_day_count h

/-- Dates are ordered as the days are. -/
theorem date_of_lt_iff {days days' : Int} : dateOf days < dateOf days' ↔ days < days' := by
  rw [dateOf, dateOf, OrderIso.lt_iff_lt, add_lt_add_iff_right]

/-- The era of a day in a year that begins in March, and the day of the era. -/
theorem era_of_day (year : Int) {doy : Int} (hlow : 0 ≤ doy) (hhigh : doy ≤ 365) :
    (yearStart (year + 1) + doy) / 146097 = year / 400 ∧
      (yearStart (year + 1) + doy) % 146097 =
        365 * (year % 400) + year % 400 / 4 - year % 400 / 100 + doy := by
  have hstart : yearStart (year + 1) =
      146097 * (year / 400) + (365 * (year % 400) + year % 400 / 4 - year % 400 / 100) := by
    unfold yearStart
    omega
  omega

/-- The corrections in the source's division take a day of the era to its year. -/
theorem year_of_era {yoe doy : Int} (hlow : 0 ≤ yoe) (hhigh : yoe < 400) (hfirst : 0 ≤ doy)
    (hlast : doy < yearLength (yoe + 1)) :
    let doe := 365 * yoe + yoe / 4 - yoe / 100 + doy
    (doe - doe / 1460 + doe / 36524 - doe / 146096) / 365 = yoe := by
  intro doe
  -- the century of the era, the fourth year of it and the year of the four
  obtain ⟨c, q, r, hc, hc', hq, hq', hr, hr', rfl⟩ : ∃ c q r : Int,
      0 ≤ c ∧ c ≤ 3 ∧ 0 ≤ q ∧ q ≤ 24 ∧ 0 ≤ r ∧ r ≤ 3 ∧ yoe = 100 * c + 4 * q + r :=
    ⟨yoe / 100, yoe % 100 / 4, yoe % 4, by omega, by omega, by omega, by omega, by omega, by omega,
      by omega⟩
  have hdoe : doe = 36524 * c + 1461 * q + 365 * r + doy := by
    simp only [doe]
    omega
  have hdoy : doy ≤ 364 ∨ doy = 365 ∧ r = 3 ∧ (q ≠ 24 ∨ c = 3) := by
    unfold yearLength at hlast
    split at hlast
    · next hleap =>
        have hleap := is_leap_iff.mp hleap
        omega
    · omega
  clear_value doe
  clear hlast
  -- only the last century of an era has its last day
  have hwithin : 1461 * q + 365 * r + doy ≤ 36523 ∨
      c = 3 ∧ 1461 * q + 365 * r + doy = 36524 := by
    omega
  have hcentury : doe / 36524 - doe / 146096 = c := by
    rcases hwithin with hwithin | ⟨rfl, hwithin⟩
    · omega
    · omega
  have hfours : doe / 1460 =
      25 * c + q + if 1460 ≤ 24 * c + q + 365 * r + doy then 1 else 0 := by
    split
    · omega
    · omega
  have hsum : doe - doe / 1460 + doe / 36524 - doe / 146096 = 365 * (100 * c + 4 * q + r) +
      (doy - if 1460 ≤ 24 * c + q + 365 * r + doy then 1 else 0) := by
    omega
  rw [hsum]
  split
  · omega
  · omega

/-- A date in the source's types. -/
def civil (d : Date) : Int32 × UInt8 × UInt8 :=
  (Int32.ofInt d.year, UInt8.ofInt d.month, UInt8.ofInt d.day)

/-- `civil_from_days` is right for every date, up to the conversion of the year. -/
theorem civil_from_days_ordinal (d : Date) :
    civilFromDays (d.ordinal - epoch.ordinal) = civil d := by
  obtain ⟨hmonth, hmonth', hstart, hnext⟩ := d.march_month_bounds
  have hlast := d.march_day_lt
  have hlong : d.marchDay ≤ 365 := by
    unfold yearLength at hlast
    split at hlast
    · omega
    · omega
  obtain ⟨hera, hdoe⟩ := era_of_day d.marchYear d.march_day_nonneg hlong
  have hz : d.ordinal - epoch.ordinal + 719468 = yearStart (d.marchYear + 1) + d.marchDay := by
    have hmarch := d.ordinal_march
    rw [ordinal_epoch]
    omega
  have hera' : d.marchYear % 400 + 1 + 400 * (d.marchYear / 400) = d.marchYear + 1 := by omega
  have hyoe := year_of_era (show 0 ≤ d.marchYear % 400 by omega) (by omega) d.march_day_nonneg
    (by rwa [← year_length_add_era _ (d.marchYear / 400), hera'])
  have hmp : (5 * d.marchDay + 2) / 153 = d.marchMonth := by
    unfold marchStart at hstart hnext
    omega
  have hday : d.marchDay - (153 * d.marchMonth + 2) / 5 + 1 = d.day := by
    rw [Date.marchDay, marchStart]
    omega
  have hmonth : (if d.marchMonth < 10 then d.marchMonth + 3 else d.marchMonth - 9) = d.month := by
    have hpos := d.one_le_month
    have hle := d.month_le
    unfold Date.marchMonth
    split <;> split <;> omega
  have hyear : d.marchYear % 400 + d.marchYear / 400 * 400 + (if (d.month : Int) ≤ 2 then 1 else 0)
      = d.year := by
    unfold Date.marchYear
    split <;> split <;> omega
  simp only [civilFromDays, hz, hera, hdoe, hyoe, add_sub_cancel_left, hmp, hday, hmonth, hyear,
    civil]

/-- The civil date of a day number. -/
theorem civil_from_days_eq (days : Int) : civilFromDays days = civil (dateOf days) := by
  have hcivil := civil_from_days_ordinal (dateOf days)
  rwa [ordinal_date_of, add_sub_cancel_right] at hcivil

/-! ## Dates in the source's types -/

/-- The conversion to `i32` keeps the number. -/
def FitsI32 (n : Int) : Prop := -2 ^ 31 ≤ n ∧ n < 2 ^ 31

instance (n : Int) : Decidable (FitsI32 n) := inferInstanceAs (Decidable (_ ∧ _))

/-- A date of the calendar. -/
structure ValidCivil (date : Int32 × UInt8 × UInt8) : Prop where
  one_le_month : 1 ≤ date.2.1.toNat
  month_le : date.2.1.toNat ≤ 12
  one_le_day : 1 ≤ date.2.2.toNat
  day_le : date.2.2.toNat ≤ monthLength date.1.toInt date.2.1.toNat

/-- The numbers of a date, that dates are compared by. -/
def civilFields (date : Int32 × UInt8 × UInt8) : List Int :=
  [date.1.toInt, date.2.1.toNat, date.2.2.toNat]

/-- The date of the calendar that a valid date is. -/
def ValidCivil.date {date : Int32 × UInt8 × UInt8} (h : ValidCivil date) : Date :=
  ⟨date.1.toInt, date.2.1.toNat, date.2.2.toNat, h.one_le_month, h.month_le, h.one_le_day, h.day_le⟩

/-- A small number survives the cast to a byte. -/
theorem to_nat_of_int {n : Int} (hlow : 0 ≤ n) (hhigh : n < 256) :
    ((UInt8.ofInt n).toNat : Int) = n := by
  rw [UInt8.ofInt, UInt8.toNat_ofNat_of_lt' (by rw [UInt8.size]; omega)]
  omega

theorem of_int_to_nat (byte : UInt8) : UInt8.ofInt byte.toNat = byte := by
  apply UInt8.toNat.inj
  have hbyte := byte.toNat_lt
  have hof := to_nat_of_int (n := byte.toNat) (by omega) (by omega)
  omega

/-- A valid triple is that of its date. -/
theorem civil_date {date : Int32 × UInt8 × UInt8} (h : ValidCivil date) : civil h.date = date := by
  simp only [civil, ValidCivil.date, Int32.ofInt_toInt, of_int_to_nat]

/-- A year that fits is not wrapped. -/
theorem civil_fields {d : Date} (h : FitsI32 d.year) : civilFields (civil d) = d.fields := by
  have hmonth := d.month_le
  have hday := d.day_le.trans (month_length_bounds _ _).2
  rw [civilFields, civil, Date.fields, Int32.toInt_ofInt_of_le h.1 h.2,
    to_nat_of_int (by omega) (by omega), to_nat_of_int (by omega) (by omega)]

/-- The triple of a date whose year fits is valid. -/
theorem civil_valid {d : Date} (h : FitsI32 d.year) : ValidCivil (civil d) := by
  have hfields := civil_fields h
  simp only [civilFields, Date.fields, List.cons.injEq, Int.natCast_inj, and_true] at hfields
  obtain ⟨hyear, hmonth, hday⟩ := hfields
  constructor
  · rw [hmonth]
    exact d.one_le_month
  · rw [hmonth]
    exact d.month_le
  · rw [hday]
    exact d.one_le_day
  · rw [hyear, hmonth, hday]
    exact d.day_le

/-- The date of that triple is the date. -/
theorem civil_valid_date {d : Date} (h : FitsI32 d.year) : (civil_valid h).date = d :=
  Date.fields_injective (civil_fields h)

/-- Days are ordered as their triples are, where the years fit. -/
theorem civil_lt_iff {days days' : Int} (h : FitsI32 (dateOf days).year)
    (h' : FitsI32 (dateOf days').year) :
    civilFields (civilFromDays days) < civilFields (civilFromDays days') ↔ days < days' := by
  rw [civil_from_days_eq, civil_from_days_eq, civil_fields h, civil_fields h', ← Date.lt_iff_fields,
    date_of_lt_iff]

/-! ## Instants -/

/-- The time of day of a second. -/
def timeOfDay (sod : Int) : List Int := [sod / 3600, sod / 60 % 60, sod % 60]

/-- The fields that instants are compared by. -/
def timeFields (utc : UtcTime) : List Int :=
  [utc.year, utc.month.toNat, utc.day.toNat, utc.hour.toNat, utc.min.toNat, utc.sec.toNat]

/-- Seconds of a day are ordered as hours, minutes and seconds are. -/
theorem time_of_day_lt_iff {sod sod' : Int} : timeOfDay sod < timeOfDay sod' ↔ sod < sod' := by
  simp only [timeOfDay, List.cons_lt_cons_iff, List.not_lt_nil, and_false, or_false]
  omega

/-- The fields of an instant are those of its day and of its second in the day. -/
theorem time_fields_eq (secs : Int) (centis : UInt8) :
    timeFields (utcFromUnix secs centis) =
      civilFields (civilFromDays (secs / 86400)) ++ timeOfDay (secs % 86400) := by
  simp only [timeFields, utcFromUnix, civilFields, timeOfDay, List.cons_append, List.nil_append]
  rw [to_nat_of_int (by omega) (by omega), to_nat_of_int (by omega) (by omega),
    to_nat_of_int (by omega) (by omega)]

/-- What follows the date does not matter to instants on different days. -/
theorem civil_fields_append_lt {date date' : Int32 × UInt8 × UInt8}
    (h : civilFields date < civilFields date') (rest rest' : List Int) :
    civilFields date ++ rest < civilFields date' ++ rest' := by
  simp only [civilFields, List.cons_append, List.nil_append, List.cons_lt_cons_iff,
    List.not_lt_nil, and_false, or_false] at h ⊢
  rcases h with hyear | ⟨hyear, hmonth | ⟨hmonth, hday⟩⟩
  · exact Or.inl hyear
  · exact Or.inr ⟨hyear, Or.inl hmonth⟩
  · exact Or.inr ⟨hyear, Or.inr ⟨hmonth, Or.inl hday⟩⟩

/-- Instants are ordered as their fields are. -/
theorem time_fields_lt {secs secs' : Int} (centis centis' : UInt8)
    (hyear : FitsI32 (dateOf (secs / 86400)).year)
    (hyear' : FitsI32 (dateOf (secs' / 86400)).year) (h : secs < secs') :
    timeFields (utcFromUnix secs centis) < timeFields (utcFromUnix secs' centis') := by
  rw [time_fields_eq, time_fields_eq]
  rcases Int.lt_or_eq_of_le (Int.ediv_le_ediv (by decide : (0 : Int) < 86400) h.le) with hday | hday
  · exact civil_fields_append_lt ((civil_lt_iff hyear hyear').mpr hday) _ _
  · rw [hday]
    apply List.append_left_lt
    apply time_of_day_lt_iff.mpr
    omega

/-- Instants are ordered as their fields are, where the years fit. -/
theorem time_fields_lt_iff {secs secs' : Int} (centis centis' : UInt8)
    (hyear : FitsI32 (dateOf (secs / 86400)).year)
    (hyear' : FitsI32 (dateOf (secs' / 86400)).year) :
    timeFields (utcFromUnix secs centis) < timeFields (utcFromUnix secs' centis') ↔
      secs < secs' := by
  constructor
  · intro hfields
    rcases Int.lt_trichotomy secs secs' with h | h | h
    · exact h
    · subst h
      rw [time_fields_eq, time_fields_eq] at hfields
      exact absurd hfields (lt_irrefl _)
    · exact absurd hfields (time_fields_lt centis' centis hyear' hyear h).not_gt
  · exact time_fields_lt centis centis' hyear hyear'

end Clock

end OpenNtrip
