import Mathlib.Algebra.Order.Group.Int
import Mathlib.Data.Int.ConditionallyCompleteOrder
import Mathlib.Data.List.Lex
import Mathlib.Order.Hom.Set
import Mathlib.Tactic.IntervalCases

/-!
# The Gregorian calendar

The proleptic calendar, for years of any sign. A date is valid by construction. Its `ordinal` is the
number of days since the end of year 0, and `dayCount` says that ordinals order the dates and are
all the integers.
-/

namespace OpenNtrip.Gregorian

/-! ## Years and months -/

/-- Every fourth year, of the centuries every fourth. -/
def isLeap (year : Int) : Bool := year % 4 = 0 && (year % 100 ≠ 0 || year % 400 = 0)

def yearLength (year : Int) : Nat := if isLeap year then 366 else 365

def monthLength (year : Int) (month : Nat) : Nat :=
  if month = 2 then if isLeap year then 29 else 28
  else if month = 4 ∨ month = 6 ∨ month = 9 ∨ month = 11 then 30
  else 31

/-- The number of days from the end of year 0 to that of the year before. -/
def yearStart (year : Int) : Int :=
  365 * (year - 1) + (year - 1) / 4 - (year - 1) / 100 + (year - 1) / 400

/-- The number of days in the first months of a year. -/
def daysIn (year : Int) : Nat → Nat
  | 0 => 0
  | months + 1 => daysIn year months + monthLength year (months + 1)

/-- Every fourth year is a leap year, of the hundreds every fourth. -/
theorem is_leap_iff {year : Int} :
    isLeap year = true ↔ year % 4 = 0 ∧ (year % 100 ≠ 0 ∨ year % 400 = 0) := by
  simp [isLeap]

/-- The calendar repeats itself after four centuries. -/
theorem is_leap_add_era (year era : Int) : isLeap (year + 400 * era) = isLeap year := by
  apply Bool.eq_iff_iff.mpr
  rw [is_leap_iff, is_leap_iff]
  omega

/-- The calendar repeats after 400 years. -/
theorem year_length_add_era (year era : Int) :
    yearLength (year + 400 * era) = yearLength year := by
  rw [yearLength, is_leap_add_era, yearLength]

/-- A year starts where the one before ends. -/
theorem year_start_succ (year : Int) : yearStart (year + 1) = yearStart year + yearLength year := by
  unfold yearStart yearLength
  split
  · next hleap =>
      have hleap := is_leap_iff.mp hleap
      omega
  · next hleap =>
      have hleap := mt is_leap_iff.mpr hleap
      omega

theorem days_in_zero (year : Int) : daysIn year 0 = 0 := rfl

/-- No year is shorter than 365 days. -/
theorem le_year_length (year : Int) : 365 ≤ yearLength year := by
  unfold yearLength
  split
  · decide
  · decide

/-- The months make up the year. -/
theorem days_in_year (year : Int) : daysIn year 12 = yearLength year := by
  cases hleap : isLeap year with
  | false => simp [daysIn, monthLength, yearLength, hleap]
  | true => simp [daysIn, monthLength, yearLength, hleap]

/-- A month has 28 to 31 days. -/
theorem month_length_bounds (year : Int) (month : Nat) :
    28 ≤ monthLength year month ∧ monthLength year month ≤ 31 := by
  unfold monthLength
  split
  · split
    · decide
    · decide
  · split
    · decide
    · decide

theorem month_length_pos (year : Int) (month : Nat) : 0 < monthLength year month :=
  Nat.lt_of_lt_of_le (by decide) (month_length_bounds year month).1

/-- More months have more days. -/
theorem days_in_mono (year : Int) {m n : Nat} (h : m ≤ n) : daysIn year m ≤ daysIn year n := by
  induction h with
  | refl => exact Nat.le_refl _
  | step _ ih => exact Nat.le_trans ih (Nat.le_add_right _ _)

/-- Later years start later. -/
theorem year_start_mono {y z : Int} (h : y ≤ z) : yearStart y ≤ yearStart z := by
  unfold yearStart
  omega

/-! ## Dates -/

/-- A date of the calendar. -/
@[ext] structure Date where
  year : Int
  month : Nat
  day : Nat
  one_le_month : 1 ≤ month
  month_le : month ≤ 12
  one_le_day : 1 ≤ day
  day_le : day ≤ monthLength year month

namespace Date

/-- The fields that are compared, in this order. -/
def fields (d : Date) : List Int := [d.year, d.month, d.day]

/-- A date is its year, month and day. -/
theorem fields_injective : Function.Injective fields := by
  intro d d' h
  simp only [fields, List.cons.injEq, Int.natCast_inj, and_true] at h
  obtain ⟨hyear, hmonth, hday⟩ := h
  exact Date.ext hyear hmonth hday

/-- Dates are compared by their years, then their months, then their days. -/
noncomputable instance : LinearOrder Date := LinearOrder.lift' fields fields_injective

/-- Dates are ordered as their fields are. -/
theorem lt_iff_fields {d d' : Date} : d < d' ↔ d.fields < d'.fields := Iff.rfl

/-- A date is before another in an earlier year, month or day, in this order. -/
theorem lt_iff {d d' : Date} : d < d' ↔
    d.year < d'.year ∨ (d.year = d'.year ∧
      (d.month < d'.month ∨ (d.month = d'.month ∧ d.day < d'.day))) := by
  simp [lt_iff_fields, fields, List.cons_lt_cons_iff]

/-- The number of days since the end of year 0. -/
def ordinal (d : Date) : Int :=
  yearStart d.year + daysIn d.year (d.month - 1) + d.day

/-- A date is no later in its month than the month is long. -/
theorem in_month (d : Date) :
    daysIn d.year (d.month - 1) + d.day ≤ daysIn d.year d.month := by
  obtain ⟨year, month, day, hmonth, -, -, hday⟩ := d
  cases month with
  | zero => omega
  | succ m => exact Nat.add_le_add_left hday _

/-- A date is inside its year. -/
theorem in_year (d : Date) : daysIn d.year (d.month - 1) + d.day ≤ yearLength d.year := by
  rw [← days_in_year]
  exact Nat.le_trans d.in_month (days_in_mono d.year d.month_le)

/-- Later dates have larger ordinals. -/
theorem ordinal_strict_mono : StrictMono ordinal := by
  intro d d' h
  unfold ordinal
  rcases lt_iff.mp h with hyear | ⟨hyear, hmonth | ⟨hmonth, hday⟩⟩
  · have hstart := year_start_mono (show d.year + 1 ≤ d'.year from hyear)
    rw [year_start_succ] at hstart
    have hin := d.in_year
    have hpos := d'.one_le_day
    omega
  · have hin := d.in_month
    have hstart := days_in_mono d.year (show d.month ≤ d'.month - 1 by omega)
    have hpos := d'.one_le_day
    rw [← hyear]
    omega
  · rw [← hyear, ← hmonth]
    omega

/-- The first of January. -/
def newYear (year : Int) : Date :=
  ⟨year, 1, 1, Nat.le_refl 1, by decide, Nat.le_refl 1, month_length_pos _ _⟩

/-- New Year is the first day of its year. -/
theorem ordinal_new_year (year : Int) : (newYear year).ordinal = yearStart year + 1 := by
  show yearStart year + (daysIn year 0 : Int) + 1 = yearStart year + 1
  rw [days_in_zero]
  omega

/-! ## The day after and the day before -/

/-- The day after. -/
def next (d : Date) : Date :=
  if hday : d.day < monthLength d.year d.month then
    { d with day := d.day + 1, one_le_day := Nat.le_add_left 1 _, day_le := hday }
  else if hmonth : d.month < 12 then
    ⟨d.year, d.month + 1, 1, Nat.le_add_left 1 _, hmonth, Nat.le_refl 1, month_length_pos _ _⟩
  else newYear (d.year + 1)

/-- The day before. -/
def previous (d : Date) : Date :=
  if hday : 1 < d.day then
    { d with
      day := d.day - 1
      one_le_day := Nat.le_sub_one_of_lt hday
      day_le := Nat.le_trans (Nat.sub_le _ _) d.day_le }
  else if hmonth : 1 < d.month then
    ⟨d.year, d.month - 1, monthLength d.year (d.month - 1), Nat.le_sub_one_of_lt hmonth,
      Nat.le_trans (Nat.sub_le _ _) d.month_le, month_length_pos _ _, Nat.le_refl _⟩
  else
    ⟨d.year - 1, 12, monthLength (d.year - 1) 12, by decide, Nat.le_refl _, month_length_pos _ _,
      Nat.le_refl _⟩

/-- The next date is one day later. -/
theorem ordinal_next (d : Date) : d.next.ordinal = d.ordinal + 1 := by
  have hday := d.day_le
  obtain ⟨m, hm⟩ : ∃ m, d.month = m + 1 := ⟨d.month - 1, by have := d.one_le_month; omega⟩
  unfold next
  split
  · simp only [ordinal]
    push_cast
    omega
  · next hlast =>
      have hwhole : daysIn d.year d.month = daysIn d.year (d.month - 1) + d.day := by
        rw [hm] at hday hlast ⊢
        rw [daysIn, Nat.add_sub_cancel]
        omega
      split
      · simp only [ordinal, Nat.add_sub_cancel, hwhole]
        push_cast
        omega
      · next hend =>
          have htwelve : d.month = 12 := by
            have hle := d.month_le
            omega
          rw [htwelve, days_in_year] at hwhole
          rw [ordinal_new_year, year_start_succ, ordinal, htwelve]
          omega

/-- The date before is one day earlier. -/
theorem ordinal_previous (d : Date) : d.previous.ordinal = d.ordinal - 1 := by
  have hpos := d.one_le_day
  have hmonths := d.one_le_month
  unfold previous ordinal
  split
  · simp only
    omega
  · next hfirst =>
      have hday : d.day = 1 := by omega
      split
      · next hlater =>
          obtain ⟨m, hm⟩ : ∃ m, d.month = m + 2 := ⟨d.month - 2, by omega⟩
          simp only [hm, hday, Nat.add_sub_cancel, show m + 2 - 1 = m + 1 from rfl, daysIn]
          push_cast
          omega
      · next hjanuary =>
          have hmonth : d.month = 1 := by omega
          have hstart := year_start_succ (d.year - 1)
          have hlength := days_in_year (d.year - 1)
          rw [sub_add_cancel] at hstart
          rw [daysIn] at hlength
          simp only [hmonth, hday, Nat.sub_self, daysIn, hstart, ← hlength]
          push_cast
          omega

/-- The last day before year 1. -/
def origin : Date := ⟨0, 12, 31, by decide, by decide, by decide, by decide⟩

theorem ordinal_origin : origin.ordinal = 0 := by decide

/-- Every integer is the ordinal of a date. -/
theorem ordinal_surjective : Function.Surjective ordinal := by
  intro n
  induction n using Int.induction_on with
  | zero => exact ⟨origin, ordinal_origin⟩
  | succ n ih =>
      obtain ⟨d, hd⟩ := ih
      exact ⟨d.next, by rw [ordinal_next, hd]⟩
  | pred n ih =>
      obtain ⟨d, hd⟩ := ih
      exact ⟨d.previous, by rw [ordinal_previous, hd]⟩

end Date

/-- Dates and integers, in order. -/
noncomputable def dayCount : Date ≃o Int :=
  StrictMono.orderIsoOfSurjective Date.ordinal Date.ordinal_strict_mono Date.ordinal_surjective

theorem day_count_apply (d : Date) : dayCount d = d.ordinal := rfl

/-- Every number is that of a date. -/
theorem ordinal_of_day_count (n : Int) : (dayCount.symm n).ordinal = n :=
  dayCount.apply_symm_apply n

/-- A date is the only one with its ordinal. -/
theorem eq_day_count {d : Date} {n : Int} (h : d.ordinal = n) : dayCount.symm n = d := by
  rw [← h, ← day_count_apply, OrderIso.symm_apply_apply]

/-! ## Years that begin in March -/

/-- The days of the first `months` months from March on. -/
def marchStart (months : Int) : Int := (153 * months + 2) / 5

namespace Date

/-- The year of the last first of March. -/
def marchYear (d : Date) : Int := if d.month ≤ 2 then d.year - 1 else d.year

/-- The months since March began. -/
def marchMonth (d : Date) : Int := if d.month ≤ 2 then d.month + 9 else d.month - 3

/-- The days since the first of March. -/
def marchDay (d : Date) : Int := marchStart d.marchMonth + d.day - 1

/-- From March on, the days of a year are counted from the end of February. -/
theorem days_in_from_march (year : Int) {months : Nat} (hlow : 2 ≤ months) (hhigh : months ≤ 11) :
    (daysIn year months : Int) + 306 = yearLength year + marchStart (months - 2) := by
  unfold marchStart
  cases hleap : isLeap year with
  | false =>
      interval_cases months <;> simp [daysIn, monthLength, yearLength, hleap]
  | true =>
      interval_cases months <;> simp [daysIn, monthLength, yearLength, hleap]

/-- The ordinal from the day in the year that begins in March. -/
theorem ordinal_march (d : Date) :
    d.ordinal + 305 = yearStart (d.marchYear + 1) + d.marchDay := by
  have hpos := d.one_le_month
  have hle := d.month_le
  unfold ordinal marchDay marchYear marchMonth
  split
  · next hearly =>
      rw [sub_add_cancel, marchStart]
      interval_cases hmonth : d.month
      · simp [daysIn]
        omega
      · simp [daysIn, monthLength]
        omega
  · next hlate =>
      have hfrom := days_in_from_march d.year (show 2 ≤ d.month - 1 by omega) (by omega)
      rw [year_start_succ, show (d.month : Int) - 3 = ((d.month - 1 : Nat) : Int) - 2 by omega]
      omega

/-- A month's days are those up to the next month, but for a shorter February. -/
theorem march_month_bounds (d : Date) : 0 ≤ d.marchMonth ∧ d.marchMonth ≤ 11 ∧
    marchStart d.marchMonth ≤ d.marchDay ∧ d.marchDay < marchStart (d.marchMonth + 1) := by
  have hpos := d.one_le_month
  have hle := d.month_le
  have hfirst := d.one_le_day
  have hlast := d.day_le
  have hfebruary : (if isLeap d.year then 29 else 28) ≤ 29 := by split <;> decide
  unfold marchDay marchMonth marchStart
  unfold monthLength at hlast
  interval_cases hmonth : d.month <;> simp at hlast ⊢ <;> omega

/-- No day is before the first of March of its shifted year. -/
theorem march_day_nonneg (d : Date) : 0 ≤ d.marchDay := by
  have hfirst := d.one_le_day
  obtain ⟨hmonth, -, -, -⟩ := d.march_month_bounds
  unfold marchDay marchStart
  omega

/-- The leap day is the last of its year. -/
theorem march_day_lt (d : Date) : d.marchDay < yearLength (d.marchYear + 1) := by
  have hlast := d.day_le
  by_cases hfebruary : d.month = 2
  · unfold monthLength at hlast
    simp only [hfebruary, if_true] at hlast
    simp only [marchDay, marchYear, marchMonth, marchStart, hfebruary, yearLength, le_refl,
      if_true, sub_add_cancel]
    cases hleap : isLeap d.year with
    | false =>
        simp only [hleap, Bool.false_eq_true, if_false] at hlast ⊢
        omega
    | true =>
        simp only [hleap, if_true] at hlast ⊢
        omega
  · have hmonth : d.marchMonth ≤ 10 := by
      have hpos := d.one_le_month
      have hle := d.month_le
      unfold marchMonth
      split
      · omega
      · omega
    obtain ⟨-, -, -, hnext⟩ := d.march_month_bounds
    have hlength := le_year_length (d.marchYear + 1)
    unfold marchStart at hnext
    omega

end Date

end OpenNtrip.Gregorian
