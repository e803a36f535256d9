import Mathlib.Algebra.BigOperators.Group.List.Basic
import Mathlib.Data.Int.Notation
import Mathlib.Data.Nat.Notation
import Mathlib.Tactic.Linarith

set_option autoImplicit false

/-!
# The proleptic Gregorian calendar

Years from 0 on, the lengths of their months, and the number of a day.
-/
namespace Wiremux.Gregorian

def isLeap (year : ℕ) : Bool := year % 4 == 0 && (year % 100 != 0 || year % 400 == 0)

def monthLength (leap : Bool) : ℕ → ℕ
  | 0 => 0
  | 2 => if leap then 29 else 28
  | 4 | 6 | 9 | 11 => 30
  | _ => 31

def yearLength (year : ℕ) : ℕ := if isLeap year then 366 else 365

def daysBeforeMonth (leap : Bool) (month : ℕ) : ℕ :=
  ((List.range month).map (monthLength leap)).sum

def daysBeforeYear (year : ℕ) : ℕ := ((List.range year).map yearLength).sum

structure Date where
  year : ℕ
  month : ℕ
  day : ℕ
  month_pos : 1 ≤ month
  month_le : month ≤ 12
  day_pos : 1 ≤ day
  day_le : day ≤ monthLength (isLeap year) month

/-- The days since the first of January of the year 0. -/
def Date.number (date : Date) : ℕ :=
  daysBeforeYear date.year + daysBeforeMonth (isLeap date.year) date.month + (date.day - 1)

def epochNumber : ℕ := 719528

theorem isLeap_cases (year : ℕ) :
    (isLeap year = true ∧ year % 4 = 0 ∧ (year % 100 ≠ 0 ∨ year % 400 = 0)) ∨
      (isLeap year = false ∧ (year % 4 ≠ 0 ∨ (year % 100 = 0 ∧ year % 400 ≠ 0))) := by
  unfold isLeap
  by_cases hfour : year % 4 = 0 <;> by_cases hhundred : year % 100 = 0 <;>
    by_cases hcentury : year % 400 = 0 <;> simp [hfour, hhundred, hcentury]

theorem daysBeforeYear_succ (year : ℕ) :
    daysBeforeYear (year + 1) = daysBeforeYear year + yearLength year := by
  rw [daysBeforeYear, List.range_succ, List.map_append, List.sum_append]
  rfl

theorem daysBeforeYear_eq (year : ℕ) : (daysBeforeYear year : ℤ) =
    365 * year + ((year : ℤ) - 1) / 4 - ((year : ℤ) - 1) / 100 + ((year : ℤ) - 1) / 400 + 1 := by
  induction year with
  | zero => rfl
  | succ year ih =>
    rw [daysBeforeYear_succ, Nat.cast_add, ih, yearLength]
    rcases isLeap_cases year with ⟨hleap, hyear⟩ | ⟨hleap, hyear⟩
    · rw [hleap, if_pos rfl]
      push_cast
      omega
    · rw [hleap, if_neg Bool.false_ne_true]
      push_cast
      omega

theorem daysBeforeMonth_eq (leap : Bool) {month : ℕ} (hpos : 1 ≤ month) (hle : month ≤ 12) :
    daysBeforeMonth leap month =
      if month ≤ 2 then 31 * (month - 1)
      else (153 * (month - 3) + 2) / 5 + 59 + if leap then 1 else 0 := by
  have h : ∀ leap : Bool, ∀ m : Fin 13, 1 ≤ (m : ℕ) → daysBeforeMonth leap m =
      if (m : ℕ) ≤ 2 then 31 * ((m : ℕ) - 1)
      else (153 * ((m : ℕ) - 3) + 2) / 5 + 59 + if leap then 1 else 0 := by decide
  exact h leap ⟨month, by omega⟩ hpos

theorem daysBeforeMonth_succ (leap : Bool) (month : ℕ) :
    daysBeforeMonth leap (month + 1) = daysBeforeMonth leap month + monthLength leap month := by
  rw [daysBeforeMonth, List.range_succ, List.map_append, List.sum_append]
  rfl

theorem daysBeforeMonth_twelve (leap : Bool) :
    daysBeforeMonth leap 13 = 365 + if leap then 1 else 0 := by
  cases leap <;> decide

theorem daysBeforeMonth_mono (leap : Bool) {month later : ℕ} (h : month ≤ later) :
    daysBeforeMonth leap month ≤ daysBeforeMonth leap later := by
  induction h with
  | refl => exact Nat.le_refl _
  | step _ ih =>
    rw [Nat.succ_eq_add_one, daysBeforeMonth_succ]
    omega

theorem daysBeforeYear_mono {year later : ℕ} (h : year ≤ later) :
    daysBeforeYear year ≤ daysBeforeYear later := by
  induction h with
  | refl => exact Nat.le_refl _
  | step _ ih =>
    rw [Nat.succ_eq_add_one, daysBeforeYear_succ]
    omega

variable {date other : Date}

theorem Date.number_lt_month (date : Date) : date.number <
    daysBeforeYear date.year + daysBeforeMonth (isLeap date.year) (date.month + 1) := by
  have hpos := date.day_pos
  have hle := date.day_le
  rw [daysBeforeMonth_succ, Date.number]
  omega

theorem Date.number_lt_year (date : Date) : date.number < daysBeforeYear (date.year + 1) := by
  have hmonth := date.number_lt_month
  have hlast := daysBeforeMonth_mono (isLeap date.year) (show date.month + 1 ≤ 13 by
    have := date.month_le
    omega)
  rw [daysBeforeMonth_twelve] at hlast
  rw [daysBeforeYear_succ, yearLength]
  split
  · rename_i hleap
    rw [hleap, if_pos rfl] at hlast
    rw [hleap] at hmonth
    omega
  · rename_i hleap
    rw [Bool.not_eq_true] at hleap
    rw [hleap, if_neg Bool.false_ne_true] at hlast
    rw [hleap] at hmonth
    omega

theorem Date.number_lt (h : date.year < other.year ∨ date.year = other.year ∧
      (date.month < other.month ∨ date.month = other.month ∧ date.day < other.day)) :
    date.number < other.number := by
  rcases h with hyear | ⟨hyear, hmonth | ⟨hmonth, hday⟩⟩
  · have hbefore := date.number_lt_year
    have hmono := daysBeforeYear_mono (show date.year + 1 ≤ other.year from hyear)
    change _ < daysBeforeYear other.year + _ + _
    omega
  · have hbefore := date.number_lt_month
    have hmono := daysBeforeMonth_mono (isLeap date.year)
      (show date.month + 1 ≤ other.month from hmonth)
    change _ < daysBeforeYear other.year + daysBeforeMonth (isLeap other.year) _ + _
    rw [← hyear]
    omega
  · have hpos := date.day_pos
    unfold Date.number
    rw [hyear, hmonth]
    omega

end Wiremux.Gregorian
