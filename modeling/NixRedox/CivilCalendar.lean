import Mathlib

set_option autoImplicit false

/- The civil calendar: leap years, the days before a year, and the place of a day in an
era of four hundred years that starts on the first of March. -/
namespace NixRedox.CivilCalendar

/-- Every fourth year is a leap year, of the centuries only every fourth. -/
def IsLeap (year : Nat) : Prop := (year % 4 = 0 ∧ year % 100 ≠ 0) ∨ year % 400 = 0

instance : DecidablePred IsLeap := fun _ => inferInstanceAs (Decidable (_ ∨ _))

def yearLength (year : Nat) : Nat := if IsLeap year then 366 else 365

/-- The days of a month, January being month 1. -/
def monthLength (year month : Nat) : Nat :=
  if month = 2 then
    if IsLeap year then 29 else 28
  else if month = 4 ∨ month = 6 ∨ month = 9 ∨ month = 11 then
    30
  else
    31

/-- The leap days of the years up to this one. -/
def leapDays (year : Nat) : Nat := year / 4 - year / 100 + year / 400

/-- Days of an era before a year that starts in March. -/
def yearStart (year : Nat) : Nat := 365 * year + year / 4 - year / 100

/-- Days of a year that starts in March before a month, March being month 0. -/
def monthStart (month : Nat) : Nat := (153 * month + 2) / 5

theorem yearLength_bounds (year : Nat) : 365 ≤ yearLength year ∧ yearLength year ≤ 366 := by
  unfold yearLength
  split <;> omega

theorem monthLength_bounds (year month : Nat) :
    28 ≤ monthLength year month ∧ monthLength year month ≤ 31 := by
  unfold monthLength
  split_ifs <;> omega

theorem leapDays_succ (year : Nat) :
    leapDays (year + 1) = leapDays year + if IsLeap (year + 1) then 1 else 0 := by
  unfold leapDays
  split
  · rename_i leap
    unfold IsLeap at leap
    omega
  · rename_i common
    unfold IsLeap at common
    omega

/-- The lengths of so many years after a first one, in closed form. -/
theorem sum_yearLength (first count : Nat) :
    ((List.range' (first + 1) count).map yearLength).sum + leapDays first =
      365 * count + leapDays (first + count) := by
  induction count with
  | zero =>
      simp
  | succ count ih =>
      have grown := leapDays_succ (first + count)
      rw [List.range'_concat, List.map_append, List.sum_append]
      simp only [Nat.one_mul, List.map_cons, List.map_nil, List.sum_cons, List.sum_nil]
      rw [Nat.add_right_comm first 1 count, ← Nat.add_assoc first count 1, yearLength]
      split at grown
      · rename_i leap
        rw [if_pos leap]
        omega
      · rename_i common
        rw [if_neg common]
        omega

/-- A day of an era falls in one century, one group of four years and one year of these. -/
theorem era_day {day : Nat} (inside : day < 146097) :
    ∃ century leap year rest, century ≤ 3 ∧ leap ≤ 24 ∧ year ≤ 3 ∧ rest ≤ 365 ∧
      day = 36524 * century + 1461 * leap + 365 * year + rest ∧
      (rest = 365 → year = 3 ∧ (leap = 24 → century = 3)) := by
  let century := min (day / 36524) 3
  let leap := (day - 36524 * century) / 1461
  let year := min ((day - 36524 * century) % 1461 / 365) 3
  refine ⟨century, leap, year, day - 36524 * century - 1461 * leap - 365 * year, ?_⟩
  omega

/-- The closed form of the year of an era takes off the leap days before the day. -/
theorem era_year {day century leap year rest : Nat} (centuries : century ≤ 3)
    (leaps : leap ≤ 24) (years : year ≤ 3) (rests : rest ≤ 365)
    (split : day = 36524 * century + 1461 * leap + 365 * year + rest)
    (last : rest = 365 → year = 3 ∧ (leap = 24 → century = 3)) :
    (day - day / 1460 + day / 36524 - day / 146096) / 365 = 100 * century + 4 * leap + year := by
  have eras : day / 146096 = if day = 146096 then 1 else 0 := by
    split <;> omega
  have hundreds : day / 36524 = century + if day = 146096 then 1 else 0 := by
    split
    · omega
    · have short : 1461 * leap + 365 * year + rest < 36524 := by omega
      omega
  omega

theorem yearStart_eq {century leap year : Nat} (leaps : leap ≤ 24) (years : year ≤ 3) :
    yearStart (100 * century + 4 * leap + year) =
      36524 * century + 1461 * leap + 365 * year := by
  unfold yearStart
  omega

/-- The year of a day starts on or before it, at most 365 days. -/
theorem yearStart_era_year {day : Nat} (inside : day < 146097) :
    ∃ year, (day - day / 1460 + day / 36524 - day / 146096) / 365 = year ∧ year < 400 ∧
      ∃ rest ≤ 365, day = yearStart year + rest := by
  obtain ⟨century, leap, year, rest, centuries, leaps, years, rests, same, last⟩ :=
    era_day inside
  refine ⟨_, era_year centuries leaps years rests same last, by omega, rest, rests, ?_⟩
  rw [yearStart_eq leaps years]
  exact same

/-- Eras and years counted from March take up their days and the leap days so far. -/
theorem era_days (era : Nat) {year : Nat} (inside : year < 400) :
    146097 * era + yearStart year =
      365 * (400 * era + year) + leapDays (400 * era + year) := by
  unfold yearStart leapDays
  omega

end NixRedox.CivilCalendar
