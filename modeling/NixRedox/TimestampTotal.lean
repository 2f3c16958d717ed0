import NixRedox.CheckedWords
import NixRedox.SystemTimestamps

set_option autoImplicit false

/- `parse_timestamp_to_epoch` on the timestamp of any stored manifest: the same sums where
an overflow stops them, and the texts on which they pass. -/
namespace NixRedox.System

open CivilCalendar CheckedWords

def addYearChecked (totalDays : UInt64) (y : Nat) : Option UInt64 :=
  checkedAdd totalDays (if isLeapYear y then 366 else 365)

def addMonthChecked (year : UInt64) (totalDays : UInt64) (m : Nat) : Option UInt64 := do
  let days ← daysInMonth[m]?
  let totalDays ← checkedAdd totalDays days
  if m = 2 ∧ isLeapYear year.toNat then checkedAdd totalDays 1 else some totalDays

/-- `epochSeconds` as a build with overflow checks runs it: `none` where an index, a
difference, a sum or a product panics. -/
def epochSecondsChecked (year month day hour minute second : UInt64) : Option UInt64 := do
  let totalDays ← (List.range' 1970 (year.toNat - 1970)).foldlM addYearChecked 0
  let totalDays ← (List.range' 1 (month.toNat - 1)).foldlM (addMonthChecked year) totalDays
  let passed ← checkedSub day 1
  let totalDays ← checkedAdd totalDays passed
  let days ← checkedMul totalDays 86400
  let hours ← checkedMul hour 3600
  let total ← checkedAdd days hours
  let minutes ← checkedMul minute 60
  let total ← checkedAdd total minutes
  checkedAdd total second

def parseTimestampToEpochChecked (ts : String) : Option UInt64 :=
  match timestampFields ts with
  | some fields =>
      epochSecondsChecked (parseOrZero fields.year) (parseOrZero fields.month)
        (parseOrZero fields.day) (parseOrZero fields.hour) (parseOrZero fields.minute)
        (parseOrZero fields.second)
  | none => some 0

section Sums

def yearDays (year : Nat) : Nat := ((List.range' 1970 (year - 1970)).map yearLength).sum

def monthDays (year month : Nat) : Nat :=
  ((List.range' 1 (month - 1)).map (monthLength year)).sum

/-- The seconds that the loops and sums are for, as a number without a bound. -/
def secondsOf (year month day hour minute second : Nat) : Nat :=
  (yearDays year + monthDays year month + (day - 1)) * 86400 + hour * 3600 + minute * 60 +
    second

theorem addYearChecked_eq_some {total next : UInt64} {y : Nat} :
    addYearChecked total y = some next ↔ True ∧ next.toNat = total.toNat + yearLength y := by
  rw [addYearChecked, checkedAdd_eq_some, true_and]
  unfold yearLength
  simp only [isLeapYear_eq]
  split <;> rfl

/-- The table and the leap day are the lengths of the months. -/
theorem daysInMonth_monthLength (year : Nat) {m : Nat} (counted : 1 ≤ m) (inside : m ≤ 12) :
    ∃ days, daysInMonth[m]? = some days ∧
      days.toNat + (if m = 2 ∧ IsLeap year then 1 else 0) = monthLength year m := by
  by_cases leap : IsLeap year
  · interval_cases m <;> simp [daysInMonth, monthLength, leap]
  · interval_cases m <;> simp [daysInMonth, monthLength, leap]

/-- A month past December has no entry in the table. -/
theorem addMonthChecked_eq_some {year total next : UInt64} {m : Nat} (counted : 1 ≤ m) :
    addMonthChecked year total m = some next ↔
      m ≤ 12 ∧ next.toNat = total.toNat + monthLength year.toNat m := by
  have bound := next.toNat_lt
  unfold addMonthChecked
  by_cases inside : m ≤ 12
  · obtain ⟨days, entry, length⟩ := daysInMonth_monthLength year.toNat counted inside
    simp only [entry, Option.bind_eq_bind, Option.bind_some, Option.bind_eq_some_iff,
      checkedAdd_eq_some, inside, true_and, isLeapYear_eq]
    constructor
    · rintro ⟨sum, added, rest⟩
      split at rest
      · rename_i long
        rw [checkedAdd_eq_some] at rest
        rw [if_pos long] at length
        have one : (1 : UInt64).toNat = 1 := rfl
        omega
      · rename_i short
        rw [if_neg short] at length
        rw [Option.some.injEq] at rest
        rw [← rest]
        omega
    · intro reached
      obtain ⟨sum, added⟩ := exists_word (show total.toNat + days.toNat < 2 ^ 64 by omega)
      refine ⟨sum, added, ?_⟩
      split
      · rename_i long
        rw [checkedAdd_eq_some]
        rw [if_pos long] at length
        have one : (1 : UInt64).toNat = 1 := rfl
        omega
      · rename_i short
        rw [if_neg short] at length
        rw [Option.some.injEq, ← UInt64.toNat_inj]
        omega
  · have outside : daysInMonth[m]? = none := by
      rw [List.getElem?_eq_none_iff, daysInMonth]
      simp only [List.length_cons, List.length_nil]
      omega
    simp [outside, inside]

theorem foldlM_addYearChecked {year : Nat} {days : UInt64} :
    (List.range' 1970 (year - 1970)).foldlM addYearChecked 0 = some days ↔
      days.toNat = yearDays year := by
  have adds : ∀ y ∈ List.range' 1970 (year - 1970), ∀ total next,
      addYearChecked total y = some next ↔ True ∧ next.toNat = total.toNat + yearLength y :=
    fun _ _ _ _ => addYearChecked_eq_some
  have zero : (0 : UInt64).toNat = 0 := rfl
  rw [foldlM_eq_some adds, zero, Nat.zero_add]
  simp only [implies_true, true_and, yearDays]

theorem foldlM_addMonthChecked {year total days : UInt64} {month : Nat} :
    (List.range' 1 (month - 1)).foldlM (addMonthChecked year) total = some days ↔
      month ≤ 13 ∧ days.toNat = total.toNat + monthDays year.toNat month := by
  have adds : ∀ m ∈ List.range' 1 (month - 1), ∀ total next,
      addMonthChecked year total m = some next ↔
        m ≤ 12 ∧ next.toNat = total.toNat + monthLength year.toNat m :=
    fun m member _ _ => addMonthChecked_eq_some (List.mem_range'_1.mp member).1
  have inside : (∀ m ∈ List.range' 1 (month - 1), m ≤ 12) ↔ month ≤ 13 := by
    constructor
    · intro all
      by_contra late
      have last := all 13 (List.mem_range'_1.mpr (by omega))
      omega
    · intro early m member
      have counted := List.mem_range'_1.mp member
      omega
  rw [foldlM_eq_some adds, inside, monthDays]

/-- The checks pass up to one month past December, for every day but day 0, and while the
seconds fit. -/
theorem epochSecondsChecked_eq_some {year month day hour minute second total : UInt64} :
    epochSecondsChecked year month day hour minute second = some total ↔
      month.toNat ≤ 13 ∧ 1 ≤ day.toNat ∧
        total.toNat = secondsOf year.toNat month.toNat day.toNat hour.toNat minute.toNat
          second.toNat := by
  have bound := total.toNat_lt
  have one : (1 : UInt64).toNat = 1 := rfl
  have day_ : (86400 : UInt64).toNat = 86400 := rfl
  have hour_ : (3600 : UInt64).toNat = 3600 := rfl
  have minute_ : (60 : UInt64).toNat = 60 := rfl
  simp only [epochSecondsChecked, Option.bind_eq_bind, Option.bind_eq_some_iff,
    foldlM_addYearChecked, foldlM_addMonthChecked, checkedAdd_eq_some, checkedSub_eq_some,
    checkedMul_eq_some, secondsOf, one, day_, hour_, minute_]
  constructor
  · rintro ⟨years, yearSum, months, ⟨inside, monthSum⟩, passed, before, totalDays, daySum, days,
      dayProduct, hours, hourProduct, dayHours, hourSum, minutes, minuteProduct, whole,
      minuteSum, last⟩
    refine ⟨inside, by omega, ?_⟩
    rw [last, minuteSum, hourSum, dayProduct, daySum, monthSum, yearSum, hourProduct,
      minuteProduct, ← before, Nat.add_sub_cancel]
  · rintro ⟨inside, counted, reached⟩
    obtain ⟨years, yearSum⟩ := exists_word (show yearDays year.toNat < 2 ^ 64 by omega)
    obtain ⟨months, monthSum⟩ := exists_word
      (show yearDays year.toNat + monthDays year.toNat month.toNat < 2 ^ 64 by omega)
    obtain ⟨passed, before⟩ := exists_word (show day.toNat - 1 < 2 ^ 64 by omega)
    obtain ⟨totalDays, daySum⟩ := exists_word
      (show months.toNat + passed.toNat < 2 ^ 64 by omega)
    obtain ⟨days, dayProduct⟩ := exists_word (show totalDays.toNat * 86400 < 2 ^ 64 by omega)
    obtain ⟨hours, hourProduct⟩ := exists_word (show hour.toNat * 3600 < 2 ^ 64 by omega)
    obtain ⟨dayHours, hourSum⟩ := exists_word (show days.toNat + hours.toNat < 2 ^ 64 by omega)
    obtain ⟨minutes, minuteProduct⟩ := exists_word (show minute.toNat * 60 < 2 ^ 64 by omega)
    obtain ⟨whole, minuteSum⟩ := exists_word
      (show dayHours.toNat + minutes.toNat < 2 ^ 64 by omega)
    exact ⟨years, yearSum, months, ⟨inside, by omega⟩, passed, by omega, totalDays, daySum,
      days, dayProduct, hours, hourProduct, dayHours, hourSum, minutes, minuteProduct, whole,
      minuteSum, by omega⟩

theorem yearDays_eq_zero {year : Nat} : yearDays year = 0 ↔ year ≤ 1970 := by
  unfold yearDays
  constructor
  · intro none
    by_contra late
    have first : yearLength 1970 ∈ (List.range' 1970 (year - 1970)).map yearLength :=
      List.mem_map_of_mem (List.mem_range'_1.mpr (by omega))
    have positive := List.single_le_sum (fun _ _ => Nat.zero_le _) _ first
    have bounds := yearLength_bounds 1970
    omega
  · intro early
    rw [show year - 1970 = 0 by omega]
    rfl

theorem monthDays_eq_zero {year month : Nat} : monthDays year month = 0 ↔ month ≤ 1 := by
  unfold monthDays
  constructor
  · intro none
    by_contra late
    have first : monthLength year 1 ∈ (List.range' 1 (month - 1)).map (monthLength year) :=
      List.mem_map_of_mem (List.mem_range'_1.mpr (by omega))
    have positive := List.single_le_sum (fun _ _ => Nat.zero_le _) _ first
    have bounds := monthLength_bounds year 1
    omega
  · intro early
    rw [show month - 1 = 0 by omega]
    rfl

/-- Four digits of a year keep the sums far below the bound. -/
theorem secondsOf_small {year month day hour minute second : Nat} (four : year < 10000)
    (inside : month ≤ 12) (short : day ≤ 31) (hours : hour < 24) (minutes : minute < 60)
    (seconds : second ≤ 60) : secondsOf year month day hour minute second < 2 ^ 64 := by
  have years : yearDays year ≤ (year - 1970) * 366 := by
    have bound := List.sum_le_card_nsmul ((List.range' 1970 (year - 1970)).map yearLength) 366
      (List.forall_mem_map.mpr fun y _ => (yearLength_bounds y).2)
    rwa [List.length_map, List.length_range', smul_eq_mul] at bound
  have months : monthDays year month ≤ (month - 1) * 31 := by
    have bound := List.sum_le_card_nsmul ((List.range' 1 (month - 1)).map (monthLength year)) 31
      (List.forall_mem_map.mpr fun m _ => (monthLength_bounds year m).2)
    rwa [List.length_map, List.length_range', smul_eq_mul] at bound
  unfold secondsOf
  omega

end Sums

theorem addYear_of_checked {total next : UInt64} {y : Nat}
    (checked : addYearChecked total y = some next) : addYear total y = next :=
  add_of_checkedAdd checked

theorem addMonth_of_checked {year total next : UInt64} {m : Nat}
    (checked : addMonthChecked year total m = some next) :
    addMonth year total m = some next := by
  unfold addMonthChecked at checked
  unfold addMonth
  rw [Option.bind_eq_bind, Option.bind_eq_some_iff] at checked ⊢
  obtain ⟨days, entry, checked⟩ := checked
  refine ⟨days, entry, ?_⟩
  obtain ⟨sum, added, rest⟩ := Option.bind_eq_some_iff.mp checked
  rw [add_of_checkedAdd added]
  split at rest
  · rename_i long
    rw [if_pos long, add_of_checkedAdd rest]
  · rename_i short
    rw [if_neg short]
    exact rest

/-- Where no check fails, the wrapping sums are the same. -/
theorem epochSeconds_of_checked {year month day hour minute second total : UInt64}
    (checked : epochSecondsChecked year month day hour minute second = some total) :
    epochSeconds year month day hour minute second = some total := by
  simp only [epochSecondsChecked, Option.bind_eq_bind, Option.bind_eq_some_iff] at checked
  obtain ⟨years, yearSum, months, monthSum, passed, before, totalDays, daySum, days, dayProduct,
    hours, hourProduct, dayHours, hourSum, minutes, minuteProduct, whole, minuteSum, last⟩ :=
    checked
  have allYears : (List.range' 1970 (year.toNat - 1970)).foldl addYear 0 = years := by
    have plain : (List.range' 1970 (year.toNat - 1970)).foldlM
        (fun total y => pure (addYear total y)) 0 = some years :=
      foldlM_of_checked (fun _ _ _ _ step => congrArg some (addYear_of_checked step)) yearSum
    rw [List.foldlM_pure] at plain
    exact Option.some.inj plain
  have allMonths : (List.range' 1 (month.toNat - 1)).foldlM (addMonth year) years =
      some months :=
    foldlM_of_checked (fun _ _ _ _ step => addMonth_of_checked step) monthSum
  simp only [epochSeconds, allYears, allMonths, Option.bind_eq_bind, Option.bind_some]
  rw [sub_of_checkedSub before, add_of_checkedAdd daySum, mul_of_checkedMul dayProduct,
    mul_of_checkedMul hourProduct, add_of_checkedAdd hourSum, mul_of_checkedMul minuteProduct,
    add_of_checkedAdd minuteSum, add_of_checkedAdd last]

/-- A date of the calendar and a time of the day. The last second of a day may be a leap
second. -/
structure CalendarTime where
  year : Nat
  month : Nat
  day : Nat
  hour : Nat
  minute : Nat
  second : Nat
  fourDigits : year < 10000
  monthInside : 1 ≤ month ∧ month ≤ 12
  dayInside : 1 ≤ day ∧ day ≤ monthLength year month
  hourInside : hour < 24
  minuteInside : minute < 60
  secondInside : second ≤ 60

/-- `2026-02-19T10:00:00`, before the zone. -/
def CalendarTime.text (time : CalendarTime) : List Char :=
  padded 4 time.year ++ '-' :: padded 2 time.month ++ '-' :: padded 2 time.day ++ 'T' ::
    padded 2 time.hour ++ ':' :: padded 2 time.minute ++ ':' :: padded 2 time.second

def WellFormedTimestamp (ts : String) : Prop :=
  ∃ (time : CalendarTime) (zone : List Char), (zone = [] ∨ zone = ['Z']) ∧
    ts = String.ofList (time.text ++ zone)

/-- The fields are read as the first moment of 1970, or of an earlier year or as month 0. -/
def TimestampFields.AtEpoch (fields : TimestampFields) : Prop :=
  parseOrZero fields.year ≤ 1970 ∧ parseOrZero fields.month ≤ 1 ∧
    parseOrZero fields.day = 1 ∧ parseOrZero fields.hour = 0 ∧
    parseOrZero fields.minute = 0 ∧ parseOrZero fields.second = 0

/-- Every check passes on a timestamp of the calendar. -/
theorem parseTimestampToEpochChecked_wellFormed {ts : String} (formed : WellFormedTimestamp ts) :
    ∃ total, parseTimestampToEpochChecked ts = some total := by
  obtain ⟨time, zone, utc, rfl⟩ := formed
  have monthInside := time.monthInside
  have dayInside := time.dayInside
  have short := (monthLength_bounds time.year time.month).2
  have hourInside := time.hourInside
  have minuteInside := time.minuteInside
  have secondInside := time.secondInside
  have fourDigits := time.fourDigits
  have fits := secondsOf_small fourDigits monthInside.2 (dayInside.2.trans short) hourInside
    minuteInside secondInside
  obtain ⟨total, counted⟩ := exists_word fits
  refine ⟨total, ?_⟩
  rw [parseTimestampToEpochChecked, CalendarTime.text, timestampFields_padded _ _ _ _ _ _ utc]
  dsimp only
  rw [parseOrZero_padded 4 (by omega), parseOrZero_padded 2 (by omega),
    parseOrZero_padded 2 (by omega), parseOrZero_padded 2 (by omega),
    parseOrZero_padded 2 (by omega), parseOrZero_padded 2 (by omega),
    epochSecondsChecked_eq_some, toNat_ofNat_small (by omega), toNat_ofNat_small (by omega),
    toNat_ofNat_small (by omega), toNat_ofNat_small (by omega), toNat_ofNat_small (by omega),
    toNat_ofNat_small (by omega)]
  exact ⟨by omega, dayInside.1, counted⟩

theorem epochSecondsChecked_eq_zero {year month day hour minute second : UInt64} :
    epochSecondsChecked year month day hour minute second = some 0 ↔
      year ≤ 1970 ∧ month ≤ 1 ∧ day = 1 ∧ hour = 0 ∧ minute = 0 ∧ second = 0 := by
  have none : yearDays year.toNat = 0 ↔ year.toNat ≤ 1970 := yearDays_eq_zero
  have first : monthDays year.toNat month.toNat = 0 ↔ month.toNat ≤ 1 := monthDays_eq_zero
  rw [epochSecondsChecked_eq_some, secondsOf]
  simp only [UInt64.le_iff_toNat_le, ← UInt64.toNat_inj]
  change _ ∧ _ ∧ 0 = _ ↔ year.toNat ≤ 1970 ∧ month.toNat ≤ 1 ∧ day.toNat = 1 ∧ hour.toNat = 0 ∧
    minute.toNat = 0 ∧ second.toNat = 0
  omega

theorem parseTimestampToEpoch_of_checked {ts : String} {total : UInt64}
    (checked : parseTimestampToEpochChecked ts = some total) :
    parseTimestampToEpoch ts = some total := by
  rw [parseTimestampToEpoch_eq]
  rw [parseTimestampToEpochChecked] at checked
  cases shape : timestampFields ts with
  | none =>
      rw [shape] at checked
      exact checked
  | some fields =>
      rw [shape] at checked
      exact epochSeconds_of_checked checked

/-- The parser passes its checks, and gives 0 for what is no timestamp of the calendar, on
these timestamps, on texts of another shape and on readings of the first moment. -/
theorem parseTimestampToEpoch_total_iff (ts : String) :
    (∃ total, parseTimestampToEpochChecked ts = some total ∧
        parseTimestampToEpoch ts = some total ∧ (¬ WellFormedTimestamp ts → total = 0)) ↔
      WellFormedTimestamp ts ∨ ∀ fields, timestampFields ts = some fields → fields.AtEpoch := by
  constructor
  · rintro ⟨total, checked, _, strict⟩
    by_cases formed : WellFormedTimestamp ts
    · exact .inl formed
    · right
      intro fields shape
      rw [strict formed, parseTimestampToEpochChecked, shape] at checked
      exact epochSecondsChecked_eq_zero.mp checked
  · rintro (formed | early)
    · obtain ⟨total, checked⟩ := parseTimestampToEpochChecked_wellFormed formed
      exact ⟨total, checked, parseTimestampToEpoch_of_checked checked,
        fun other => absurd formed other⟩
    · have checked : parseTimestampToEpochChecked ts = some 0 := by
        unfold parseTimestampToEpochChecked
        split
        · rename_i fields shape
          exact epochSecondsChecked_eq_zero.mpr (early fields shape)
        · rfl
      exact ⟨0, checked, parseTimestampToEpoch_of_checked checked, fun _ => rfl⟩

/-- A fourteenth month takes the index of the loop past the table. -/
theorem fourteenth_month_panics :
    parseTimestampToEpoch "2026-14-01T10:00:00Z" = none ∧
      ¬ ∃ total, parseTimestampToEpochChecked "2026-14-01T10:00:00Z" = some total ∧
        parseTimestampToEpoch "2026-14-01T10:00:00Z" = some total ∧
        (¬ WellFormedTimestamp "2026-14-01T10:00:00Z" → total = 0) := by
  have panics : parseTimestampToEpoch "2026-14-01T10:00:00Z" = none := by decide +kernel
  refine ⟨panics, ?_⟩
  rintro ⟨total, _, some_, _⟩
  rw [panics] at some_
  cases some_

/-- Day 0 wraps, so that the generation is never old enough to be deleted. -/
example : parseTimestampToEpoch "1970-01-00T00:00:00Z" = some (0 - 86400) ∧
    parseTimestampToEpochChecked "1970-01-00T00:00:00Z" = none := by decide +kernel

end NixRedox.System
