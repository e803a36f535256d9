import Mathlib.Tactic.IntervalCases
import Wiremux.Gregorian
import Wiremux.StoreReading

set_option autoImplicit false

/-!
# Eras of four hundred years

The date codecs count days from the first of March of the year 0, in eras of 146097 days.
-/
namespace Wiremux.CivilDates
open Gregorian
open StoreReading (daysSinceEpoch)

theorem era_days (y : ℤ) : y / 400 * 146097 + (y % 400 * 365 + y % 400 / 4 - y % 400 / 100) =
    365 * y + y / 4 - y / 100 + y / 400 := by
  have hfour : y / 4 = 100 * (y / 400) + y % 400 / 4 := by omega
  have hhundred : y / 100 = 4 * (y / 400) + y % 400 / 100 := by omega
  omega

theorem leap_days (year : ℕ) : (year : ℤ) / 4 - year / 100 + year / 400 =
    ((year : ℤ) - 1) / 4 - ((year : ℤ) - 1) / 100 + ((year : ℤ) - 1) / 400 +
      if isLeap year then 1 else 0 := by
  rcases isLeap_cases year with ⟨hleap, hrule⟩ | ⟨hleap, hrule⟩
  · rw [hleap, if_pos rfl]
    omega
  · rw [hleap, if_neg Bool.false_ne_true]
    omega

theorem daysSinceEpoch_eq (date : Date) :
    daysSinceEpoch date.year date.month date.day = (date.number : ℤ) - epochNumber := by
  obtain ⟨year, month, day, hpos, hle, hday, _⟩ := date
  have hyear := daysBeforeYear_eq year
  have hmonth := daysBeforeMonth_eq (isLeap year) hpos hle
  have hleap := leap_days year
  have hday' : ((day - 1 : ℕ) : ℤ) = (day : ℤ) - 1 := by omega
  unfold daysSinceEpoch Date.number epochNumber
  dsimp only
  rw [Nat.cast_add, Nat.cast_add, hyear, hmonth, hday']
  by_cases hfirst : month ≤ 2
  · have hera := era_days ((year : ℤ) - 1)
    have hshift : (153 * ((month : ℤ) + 9) + 2) / 5 = 306 + 31 * ((month : ℤ) - 1) := by omega
    rw [if_pos hfirst, if_pos hfirst, if_pos hfirst]
    push_cast
    rw [hshift]
    have hsub : ((month - 1 : ℕ) : ℤ) = (month : ℤ) - 1 := by omega
    rw [hsub]
    linarith
  · have hera := era_days (year : ℤ)
    rw [if_neg hfirst, if_neg hfirst, if_neg hfirst]
    push_cast
    rw [show (if isLeap year = true then (1 : ℤ) else 0) = (if isLeap year then 1 else 0) from rfl]
    linarith

def yearOfEra (doe : ℕ) : ℕ := (doe - doe / 1460 + doe / 36524 - doe / 146096) / 365

def dayOfYear (doe : ℕ) : ℕ :=
  doe - (365 * yearOfEra doe + yearOfEra doe / 4 - yearOfEra doe / 100)

theorem century_bounds {doe : ℕ} (h : doe < 146096) :
    100 * (doe / 36524) ≤ (doe - doe / 1460 + doe / 36524) / 365 ∧
      (doe - doe / 1460 + doe / 36524) / 365 ≤ 100 * (doe / 36524) + 99 := by
  have hle : doe / 36524 ≤ 3 := by omega
  generalize hcentury : doe / 36524 = century at *
  generalize hg : doe / 1460 = g at *
  interval_cases century <;> omega

theorem yearOfEra_bounds {doe : ℕ} (h : doe < 146097) :
    yearOfEra doe ≤ 399 ∧
      365 * yearOfEra doe + yearOfEra doe / 4 - yearOfEra doe / 100 ≤ doe ∧
      doe < 365 * (yearOfEra doe + 1) + (yearOfEra doe + 1) / 4 - (yearOfEra doe + 1) / 100 +
        (yearOfEra doe + 1) / 400 := by
  by_cases hlast : doe = 146096
  · subst hlast
    decide
  · have hlt : doe < 146096 := by omega
    have hbounds := century_bounds hlt
    have hnone : doe / 146096 = 0 := by omega
    have hyear : yearOfEra doe = (doe - doe / 1460 + doe / 36524) / 365 := by
      rw [yearOfEra, hnone, Nat.sub_zero]
    rw [← hyear] at hbounds
    have hle : doe / 36524 ≤ 3 := by omega
    have hlow : 365 * yearOfEra doe ≤ doe - doe / 1460 + doe / 36524 := by omega
    have hhigh : doe - doe / 1460 + doe / 36524 < 365 * yearOfEra doe + 365 := by omega
    generalize yearOfEra doe = y at *
    generalize hcentury : doe / 36524 = century at *
    generalize hfour : doe / 1460 = g at *
    have hg : 1460 * g ≤ doe := by omega
    have hg' : doe < 1460 * g + 1460 := by omega
    have hc : 36524 * century ≤ doe := by omega
    have hc' : doe < 36524 * century + 36524 := by omega
    clear hcentury hfour hyear hnone
    have hhundred : y / 100 = century := by omega
    refine ⟨by omega, ?_, ?_⟩
    · have hyears : y / 4 ≤ g := by omega
      omega
    · by_cases hend : y = 100 * century + 99
      · subst hend
        omega
      · have hyears : g ≤ (y + 1) / 4 := by omega
        have hnext : (y + 1) / 100 = century := by omega
        omega

/-- Year, month and day of a count of days that starts in March. -/
def civil (days : ℕ) : ℕ × ℕ × ℕ :=
  let doe := days % 146097
  let doy := dayOfYear doe
  let mp := (5 * doy + 2) / 153
  let m := if mp < 10 then mp + 3 else mp - 9
  let y := yearOfEra doe + days / 146097 * 400
  (if m ≤ 2 then y + 1 else y, m, doy - (153 * mp + 2) / 5 + 1)

theorem march_eq (year : ℕ) :
    daysBeforeYear year + 59 + (if isLeap year then 1 else 0) =
      365 * year + year / 4 - year / 100 + year / 400 + 60 := by
  have hyear := daysBeforeYear_eq year
  have hleap := leap_days year
  have hle : year / 100 ≤ 365 * year + year / 4 := by omega
  rw [← Int.natCast_inj]
  push_cast [Nat.cast_sub hle]
  linarith

theorem march_days (days : ℕ) :
    days + 60 = daysBeforeYear (yearOfEra (days % 146097) + days / 146097 * 400) + 59 +
        (if isLeap (yearOfEra (days % 146097) + days / 146097 * 400) then 1 else 0) +
          dayOfYear (days % 146097) := by
  obtain ⟨hyoe, hlow, _⟩ := yearOfEra_bounds (Nat.mod_lt days (by decide : 0 < 146097))
  rw [march_eq, dayOfYear]
  generalize yearOfEra (days % 146097) = yoe at *
  have hfour : (yoe + days / 146097 * 400) / 4 = yoe / 4 + days / 146097 * 100 := by omega
  have hhundred : (yoe + days / 146097 * 400) / 100 = yoe / 100 + days / 146097 * 4 := by omega
  have hcentury : (yoe + days / 146097 * 400) / 400 = days / 146097 := by omega
  rw [hfour, hhundred, hcentury]
  omega

theorem next_year_days {yoe : ℕ} (h : yoe ≤ 399) (era : ℕ) :
    (((yoe + era * 400 + 1 : ℕ) : ℤ) / 4 - ((yoe + era * 400 + 1 : ℕ) : ℤ) / 100 +
        ((yoe + era * 400 + 1 : ℕ) : ℤ) / 400) -
      ((((yoe + era * 400 + 1 : ℕ) : ℤ) - 1) / 4 - (((yoe + era * 400 + 1 : ℕ) : ℤ) - 1) / 100 +
        (((yoe + era * 400 + 1 : ℕ) : ℤ) - 1) / 400) =
      (((yoe + 1) / 4 - (yoe + 1) / 100 + (yoe + 1) / 400 : ℕ) : ℤ) - ((yoe / 4 - yoe / 100 : ℕ) : ℤ) := by
  have hfour : ((yoe + era * 400 + 1 : ℕ) : ℤ) / 4 = ((yoe + 1) / 4 : ℕ) + 100 * era := by omega
  have hhundred : ((yoe + era * 400 + 1 : ℕ) : ℤ) / 100 = ((yoe + 1) / 100 : ℕ) + 4 * era := by omega
  have hcentury : ((yoe + era * 400 + 1 : ℕ) : ℤ) / 400 = ((yoe + 1) / 400 : ℕ) + era := by omega
  have hfour' : (((yoe + era * 400 + 1 : ℕ) : ℤ) - 1) / 4 = (yoe / 4 : ℕ) + 100 * era := by omega
  have hhundred' : (((yoe + era * 400 + 1 : ℕ) : ℤ) - 1) / 100 = (yoe / 100 : ℕ) + 4 * era := by
    omega
  have hcentury' : (((yoe + era * 400 + 1 : ℕ) : ℤ) - 1) / 400 = era := by omega
  rw [hfour, hhundred, hcentury, hfour', hhundred', hcentury']
  omega

/-- The last day of a year that starts in March depends on the next February. -/
theorem dayOfYear_lt (days : ℕ) : dayOfYear (days % 146097) <
    365 + if isLeap (yearOfEra (days % 146097) + days / 146097 * 400 + 1) then 1 else 0 := by
  obtain ⟨hyoe, hlow, hhigh⟩ := yearOfEra_bounds (Nat.mod_lt days (by decide : 0 < 146097))
  have hleap := leap_days (yearOfEra (days % 146097) + days / 146097 * 400 + 1)
  rw [dayOfYear]
  generalize days % 146097 = doe at *
  generalize yearOfEra doe = yoe at *
  generalize days / 146097 = era at *
  have hdays := next_year_days hyoe era
  split at hleap
  · rename_i h
    rw [if_pos h]
    omega
  · rename_i h
    rw [if_neg h]
    omega

theorem monthLength_march (leap : Bool) {mp doy : ℕ} (hmp : mp = (5 * doy + 2) / 153)
    (hlt : mp < 10) : 1 ≤ doy - (153 * mp + 2) / 5 + 1 ∧
      doy - (153 * mp + 2) / 5 + 1 ≤ monthLength leap (mp + 3) := by
  refine ⟨by omega, ?_⟩
  interval_cases mp <;> (simp only [monthLength]; omega)

theorem civil_date (days : ℕ) : ∃ date : Date,
    civil days = (date.year, date.month, date.day) ∧ date.number = days + 60 := by
  have hdays := march_days days
  have hlt := dayOfYear_lt days
  unfold civil
  dsimp only
  generalize yearOfEra (days % 146097) + days / 146097 * 400 = y at *
  generalize dayOfYear (days % 146097) = doy at *
  obtain ⟨mp, hmp⟩ : ∃ mp, mp = (5 * doy + 2) / 153 := ⟨_, rfl⟩
  rw [← hmp]
  have hcases : mp < 10 ∨ mp = 10 ∨ mp = 11 := by
    have hle : doy ≤ 365 := by
      split at hlt <;> omega
    omega
  by_cases hten : mp < 10
  · obtain ⟨hone, hlength⟩ := monthLength_march (isLeap y) hmp hten
    have hle : mp + 3 ≤ 12 := by omega
    have hlarge : ¬ mp + 3 ≤ 2 := by omega
    rw [if_pos hten, if_neg hlarge]
    refine ⟨⟨y, mp + 3, _, Nat.le_add_left 1 (mp + 2), hle, hone, hlength⟩, rfl, ?_⟩
    unfold Date.number
    dsimp only
    rw [daysBeforeMonth_eq _ (Nat.le_add_left 1 (mp + 2)) hle, if_neg hlarge]
    omega
  · have hpos : 1 ≤ mp - 9 := by omega
    have hsmall : mp - 9 ≤ 2 := by omega
    have hle : mp - 9 ≤ 12 := by omega
    rw [if_neg hten, if_pos hsmall]
    have hnext := daysBeforeYear_succ y
    rw [yearLength] at hnext
    have hlength : doy - (153 * mp + 2) / 5 + 1 ≤ monthLength (isLeap (y + 1)) (mp - 9) := by
      rcases hcases with hfew | rfl | rfl
      · exact absurd hfew hten
      · change doy - 306 + 1 ≤ 31
        omega
      · change doy - 337 + 1 ≤ if isLeap (y + 1) then 29 else 28
        split at hlt
        · rename_i h
          rw [if_pos h]
          omega
        · rename_i h
          rw [if_neg h]
          omega
    refine ⟨⟨y + 1, mp - 9, _, hpos, hle, Nat.le_add_left 1 _, hlength⟩, rfl, ?_⟩
    unfold Date.number
    dsimp only
    rw [daysBeforeMonth_eq _ hpos hle, if_pos hsmall]
    split at hnext
    · rename_i h
      rw [if_pos h] at hdays
      omega
    · rename_i h
      rw [if_neg h] at hdays
      omega

end Wiremux.CivilDates
