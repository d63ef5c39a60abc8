import OpenNtrip.Gnss.Clock

/-!
# Day numbers of civil dates

`days_from_civil` of `logging.rs`, that the weekly update check counts days with. On a date of the
calendar it is the date's ordinal, counted from 1970-01-01, so it is the inverse of
`civil_from_days`.
-/

namespace OpenNtrip

open Gregorian Clock

/-- Days since 1970-01-01 for a civil date. -/
def daysFromCivil (year : Int32) (month day : UInt8) : Int :=
  let y := year.toInt - if month ≤ 2 then 1 else 0
  let era := y / 400
  let yoe := y - era * 400
  let m : Int := month.toNat
  let doy := (153 * (if m > 2 then m - 3 else m + 9) + 2) / 5 + day.toNat - 1
  let doe := yoe * 365 + yoe / 4 - yoe / 100 + doy
  era * 146097 + doe - 719468

namespace CivilDays

/-- The day number of a date `(year, month, day)`. -/
def dayNumber (date : Int32 × UInt8 × UInt8) : Int := daysFromCivil date.1 date.2.1 date.2.2

/-- `days_from_civil` is right for every valid date. -/
theorem day_number_eq {date : Int32 × UInt8 × UInt8} (h : ValidCivil date) :
    dayNumber date = h.date.ordinal - epoch.ordinal := by
  have hmarch := h.date.ordinal_march
  have hstart : yearStart (h.date.marchYear + 1) = h.date.marchYear / 400 * 146097 +
      ((h.date.marchYear - h.date.marchYear / 400 * 400) * 365 +
        (h.date.marchYear - h.date.marchYear / 400 * 400) / 4 -
        (h.date.marchYear - h.date.marchYear / 400 * 400) / 100) := by
    unfold yearStart
    omega
  have hyear : date.1.toInt - (if date.2.1 ≤ 2 then 1 else 0) = h.date.marchYear := by
    have htwo : date.2.1 ≤ 2 ↔ date.2.1.toNat ≤ 2 := UInt8.le_iff_toNat_le
    show _ = if date.2.1.toNat ≤ 2 then date.1.toInt - 1 else date.1.toInt
    simp only [htwo]
    split
    · rfl
    · exact sub_zero _
  have hmonth : (if (date.2.1.toNat : Int) > 2 then (date.2.1.toNat : Int) - 3
      else date.2.1.toNat + 9) = h.date.marchMonth := by
    show _ = if date.2.1.toNat ≤ 2 then (date.2.1.toNat : Int) + 9 else date.2.1.toNat - 3
    split <;> split <;> omega
  simp only [dayNumber, daysFromCivil, hyear, hmonth]
  rw [hstart, Date.marchDay, marchStart] at hmarch
  rw [ordinal_epoch]
  have hday : h.date.day = date.2.2.toNat := rfl
  omega

/-- Dates and day numbers are in the same order. -/
theorem day_number_lt_iff {date date' : Int32 × UInt8 × UInt8} (h : ValidCivil date)
    (h' : ValidCivil date') :
    dayNumber date < dayNumber date' ↔ civilFields date < civilFields date' := by
  rw [day_number_eq h, day_number_eq h', sub_lt_sub_iff_right, Date.ordinal_strict_mono.lt_iff_lt,
    Date.lt_iff_fields]
  rfl

theorem civil_of_day_number {date : Int32 × UInt8 × UInt8} (h : ValidCivil date) :
    civilFromDays (dayNumber date) = date := by
  rw [day_number_eq h, civil_from_days_ordinal, civil_date]

theorem day_number_of_civil {days : Int} (h : FitsI32 (dateOf days).year) :
    dayNumber (civilFromDays days) = days := by
  rw [civil_from_days_eq, day_number_eq (civil_valid h), civil_valid_date h, ordinal_date_of,
    add_sub_cancel_right]

/-- The two conversions are inverse to each other and keep the order, and the fields of instants are
in the order of the instants. -/
theorem conversions_inverse :
    (∀ days : Int, FitsI32 (dateOf days).year →
      ValidCivil (civilFromDays days) ∧ civilFields (civilFromDays days) = (dateOf days).fields ∧
        dayNumber (civilFromDays days) = days) ∧
    (∀ date : Int32 × UInt8 × UInt8, ValidCivil date → civilFromDays (dayNumber date) = date) ∧
    (∀ days days' : Int, FitsI32 (dateOf days).year → FitsI32 (dateOf days').year →
      (civilFields (civilFromDays days) < civilFields (civilFromDays days') ↔ days < days')) ∧
    (∀ date date' : Int32 × UInt8 × UInt8, ValidCivil date → ValidCivil date' →
      (dayNumber date < dayNumber date' ↔ civilFields date < civilFields date')) ∧
    (∀ (secs secs' : Int) (centis centis' : UInt8), FitsI32 (dateOf (secs / 86400)).year →
      FitsI32 (dateOf (secs' / 86400)).year →
      (timeFields (utcFromUnix secs centis) < timeFields (utcFromUnix secs' centis') ↔
        secs < secs')) := by
  refine ⟨?_, ?_, ?_, ?_, ?_⟩
  · intro days h
    rw [day_number_of_civil h, civil_from_days_eq, civil_fields h]
    exact ⟨civil_valid h, rfl, rfl⟩
  · intro date h
    exact civil_of_day_number h
  · intro days days' h h'
    exact civil_lt_iff h h'
  · intro date date' h h'
    exact day_number_lt_iff h h'
  · intro secs secs' centis centis' h h'
    exact time_fields_lt_iff centis centis' h h'

/-- The day after a leap day, and the last second of the leap day. -/
theorem conversions_inverse_leap_day :
    ValidCivil (civilFromDays 19783) ∧ civilFromDays (dayNumber (2024, 2, 29)) = (2024, 2, 29) ∧
      civilFields (civilFromDays 19782) < civilFields (civilFromDays 19783) ∧
      dayNumber (2024, 2, 29) < dayNumber (2024, 3, 1) ∧
      timeFields (utcFromUnix 1709251199 0) < timeFields (utcFromUnix 1709251200 0) := by
  have hleap : dateOf 19782 = ⟨2024, 2, 29, by decide, by decide, by decide, by decide⟩ :=
    date_of_eq (by decide)
  have hnext : dateOf 19783 = ⟨2024, 3, 1, by decide, by decide, by decide, by decide⟩ :=
    date_of_eq (by decide)
  have hfits : FitsI32 (dateOf 19782).year := by
    rw [hleap]
    decide
  have hfits' : FitsI32 (dateOf 19783).year := by
    rw [hnext]
    decide
  have hvalid : ValidCivil (2024, 2, 29) := ⟨by decide, by decide, by decide, by decide⟩
  have hvalid' : ValidCivil (2024, 3, 1) := ⟨by decide, by decide, by decide, by decide⟩
  obtain ⟨hcivil, hnumber, horder, hdates, htimes⟩ := conversions_inverse
  exact ⟨(hcivil 19783 hfits').1, hnumber _ hvalid, (horder _ _ hfits hfits').mpr (by decide),
    (hdates _ _ hvalid hvalid').mpr (by decide),
    (htimes 1709251199 1709251200 0 0 hfits hfits').mpr (by decide)⟩

/-- The year after the last of `i32` is written as the first, so its instants come before all. -/
theorem year_wraps :
    (67767976233532799 : Int) < 67767976233532800 ∧ (67767976233532800 : Int) < 2 ^ 63 ∧
      timeFields (utcFromUnix 67767976233532800 0) <
        timeFields (utcFromUnix 67767976233532799 0) := by
  decide

end CivilDays

end OpenNtrip
