import NixRedox.CivilCalendar
import NixRedox.SystemGenerations

set_option autoImplicit false

/- The time of a generation as text: `current_timestamp` writes it, and
`parse_timestamp_to_epoch` reads it back for `delete-generations Nd`. -/
namespace NixRedox.System

open CivilCalendar

/-- Year, month and day of a day counted from 1970-01-01. The numbers stay far below
`2 ^ 64`, as the days are those of a number of seconds. -/
def daysToDate (days : Nat) : Nat × Nat × Nat :=
  let z := days + 719468
  let era := z / 146097
  let doe := z - era * 146097
  let yoe := (doe - doe / 1460 + doe / 36524 - doe / 146096) / 365
  let y := yoe + era * 400
  let doy := doe - (365 * yoe + yoe / 4 - yoe / 100)
  let mp := (5 * doy + 2) / 153
  let d := doy - (153 * mp + 2) / 5 + 1
  let m := if mp < 10 then mp + 3 else mp - 9
  let y := if m ≤ 2 then y + 1 else y
  (y, m, d)

/-- `{:0width}`: a decimal number with zeros in front. -/
def padded (width value : Nat) : List Char := (Nat.toDigits 10 value).leftpad width '0'

def formatTimestamp (secs : Nat) : List Char :=
  let days := secs / 86400
  let remaining := secs % 86400
  let hours := remaining / 3600
  let minutes := (remaining % 3600) / 60
  let seconds := remaining % 60
  let (year, month, day) := daysToDate days
  padded 4 year ++ '-' :: padded 2 month ++ '-' :: padded 2 day ++ 'T' ::
    padded 2 hours ++ ':' :: padded 2 minutes ++ ':' :: padded 2 seconds ++ ['Z']

/-- The clock is `none` where it stands before 1970. -/
def currentTimestamp : Option UInt64 → String
  | some secs => String.ofList (formatTimestamp secs.toNat)
  | none => ""

def isLeapYear (y : Nat) : Bool := (y % 4 = 0 && y % 100 ≠ 0) || y % 400 = 0

/-- `str::parse::<u64>`: an optional plus sign, then digits. -/
def parseU64 (text : List Char) : Option UInt64 :=
  let digits := match text with
    | '+' :: rest => rest
    | _ => text
  match Text.decimalValue digits with
  | some value => if value < 2 ^ 64 then some (UInt64.ofNat value) else none
  | none => none

def parseOrZero (text : List Char) : UInt64 := (parseU64 text).getD 0

def daysInMonth : List UInt64 := [0, 31, 28, 31, 30, 31, 30, 31, 31, 30, 31, 30, 31]

def addYear (totalDays : UInt64) (y : Nat) : UInt64 :=
  totalDays + if isLeapYear y then 366 else 365

/-- `none` where the index into the table panics. -/
def addMonth (year : UInt64) (totalDays : UInt64) (m : Nat) : Option UInt64 := do
  let days ← daysInMonth[m]?
  let totalDays := totalDays + days
  if m = 2 ∧ isLeapYear year.toNat then some (totalDays + 1) else some totalDays

/-- Seconds since 1970 of a date and a time. The sums wrap, as the release build has no
overflow checks. -/
def epochSeconds (year month day hour minute second : UInt64) : Option UInt64 := do
  let totalDays := (List.range' 1970 (year.toNat - 1970)).foldl addYear 0
  let totalDays ← (List.range' 1 (month.toNat - 1)).foldlM (addMonth year) totalDays
  let totalDays := totalDays + (day - 1)
  some (totalDays * 86400 + hour * 3600 + minute * 60 + second)

/-- The seconds of `2026-02-19T10:00:00Z`, and 0 for a text of another shape. -/
def parseTimestampToEpoch (ts : String) : Option UInt64 :=
  if Text.byteLength ts.toList < 19 then
    some 0
  else
    match ts.toList.splitOn 'T' with
    | [date, time] =>
        match date.splitOn '-', (time.rdropWhile (· = 'Z')).splitOn ':' with
        | [year, month, day], [hour, minute, second] =>
            epochSeconds (parseOrZero year) (parseOrZero month) (parseOrZero day)
              (parseOrZero hour) (parseOrZero minute) (parseOrZero second)
        | _, _ => some 0
    | _ => some 0

theorem isLeapYear_eq (y : Nat) : isLeapYear y = true ↔ IsLeap y := by
  simp [isLeapYear, IsLeap]

/-- The date of a day, by the year counted from March, the month in it and the day in the
month. -/
theorem daysToDate_eq (days : Nat) :
    ∃ year month rest, 1969 ≤ year ∧ (year = 1969 → 10 ≤ month) ∧ month ≤ 11 ∧ rest ≤ 30 ∧
      days + 719468 = 365 * year + leapDays year + monthStart month + rest ∧
      daysToDate days =
        if month < 10 then (year, month + 3, rest + 1) else (year + 1, month - 9, rest + 1) := by
  have inside : (days + 719468) % 146097 < 146097 := Nat.mod_lt _ (by omega)
  obtain ⟨year, closed, early, rest, short, day⟩ := yearStart_era_year inside
  have eras := era_days ((days + 719468) / 146097) early
  have whole := Nat.div_add_mod (days + 719468) 146097
  have count : days + 719468 = 365 * (400 * ((days + 719468) / 146097) + year) +
      leapDays (400 * ((days + 719468) / 146097) + year) + rest := by omega
  have month : monthStart ((5 * rest + 2) / 153) ≤ rest := by
    unfold monthStart
    omega
  refine ⟨400 * ((days + 719468) / 146097) + year, (5 * rest + 2) / 153,
    rest - monthStart ((5 * rest + 2) / 153), ?_, ?_, ?_, ?_, ?_, ?_⟩
  · unfold leapDays at count
    omega
  · intro first
    rw [first, show leapDays 1969 = 477 from rfl] at count
    omega
  · omega
  · unfold monthStart
    omega
  · omega
  · have offset : days + 719468 - (days + 719468) / 146097 * 146097 =
        (days + 719468) % 146097 := by omega
    have dayOfYear : (days + 719468) % 146097 - (365 * year + year / 4 - year / 100) = rest := by
      unfold yearStart at day
      omega
    simp only [daysToDate, offset, closed, dayOfYear]
    unfold monthStart
    split
    · rename_i spring
      rw [if_neg (by omega), Nat.add_comm year, Nat.mul_comm]
    · rename_i winter
      rw [if_pos (by omega), Nat.add_comm year, Nat.mul_comm]


theorem addYear_eq (total y : Nat) :
    addYear (UInt64.ofNat total) y = UInt64.ofNat (total + yearLength y) := by
  unfold addYear yearLength
  rw [UInt64.ofNat_add]
  split
  · rename_i leap
    rw [if_pos ((isLeapYear_eq y).mp leap)]
    rfl
  · rename_i common
    rw [if_neg (fun leap => common ((isLeapYear_eq y).mpr leap))]
    rfl

theorem foldl_addYear (years : List Nat) (total : Nat) :
    years.foldl addYear (UInt64.ofNat total) =
      UInt64.ofNat (total + (years.map yearLength).sum) := by
  induction years generalizing total with
  | nil =>
      rfl
  | cons y rest ih =>
      rw [List.foldl_cons, addYear_eq, ih, List.map_cons, List.sum_cons, Nat.add_assoc]

theorem leapDays_late {year : Nat} (late : 1969 ≤ year) : 477 ≤ leapDays year := by
  unfold leapDays
  omega

theorem daysToDate_small {days : Nat} (near : days < 2 ^ 24) :
    (daysToDate days).1 < 2 ^ 64 ∧ (daysToDate days).2.1 < 2 ^ 64 ∧
      (daysToDate days).2.2 < 2 ^ 64 := by
  obtain ⟨year, month, rest, _, _, inside, short, count, date⟩ := daysToDate_eq days
  rw [date]
  split
  · refine ⟨?_, ?_, ?_⟩ <;> dsimp only <;> omega
  · refine ⟨?_, ?_, ?_⟩ <;> dsimp only <;> omega

/-- The days of the years from 1970 on. -/
theorem foldl_addYear_range {year : Nat} (late : 1969 ≤ year) :
    (List.range' 1970 (year - 1969)).foldl addYear 0 =
      UInt64.ofNat (365 * (year + 1) + leapDays year - 719527) := by
  have sum : ((List.range' 1970 (year - 1969)).map yearLength).sum + leapDays 1969 =
      365 * (year - 1969) + leapDays (1969 + (year - 1969)) := sum_yearLength 1969 (year - 1969)
  rw [Nat.add_sub_cancel' late, show leapDays 1969 = 477 from rfl] at sum
  have days : ((List.range' 1970 (year - 1969)).map yearLength).sum =
      365 * (year + 1) + leapDays year - 719527 := by omega
  have counted := foldl_addYear (List.range' 1970 (year - 1969)) 0
  rw [Nat.zero_add, days] at counted
  exact counted

theorem addMonth_eq (year total : UInt64) (m : Nat) :
    addMonth year total m = (addMonth year 0 m).map (total + ·) := by
  unfold addMonth
  cases daysInMonth[m]? with
  | none => rfl
  | some days =>
      simp only [Option.bind_eq_bind, Option.bind_some, UInt64.zero_add]
      split
      · rw [Option.map_some, UInt64.add_assoc]
      · rfl

theorem foldlM_addMonth (year total : UInt64) (months : List Nat) :
    months.foldlM (addMonth year) total = (months.foldlM (addMonth year) 0).map (total + ·) := by
  induction months generalizing total with
  | nil =>
      simp
  | cons m rest ih =>
      rw [List.foldlM_cons, List.foldlM_cons, addMonth_eq]
      cases addMonth year 0 m with
      | none => rfl
      | some first =>
          simp only [Option.map_some, Option.bind_eq_bind, Option.bind_some]
          rw [ih (total + first), ih first, Option.map_map]
          congr 1
          funext days
          exact UInt64.add_assoc total first days

/-- The days of the months before one of them, months counted from March. -/
theorem foldlM_addMonth_range (year : UInt64) {month : Nat} (inside : month ≤ 11) :
    (List.range' 1 ((if month < 10 then month + 3 else month - 9) - 1)).foldlM
        (addMonth year) 0 =
      some (UInt64.ofNat (if month < 10 then
          59 + (if IsLeap year.toNat then 1 else 0) + monthStart month
        else monthStart month - 306)) := by
  by_cases leap : IsLeap year.toNat
  · have long := (isLeapYear_eq year.toNat).mpr leap
    interval_cases month <;> simp [addMonth, daysInMonth, List.range', leap, long, monthStart]
  · have short : isLeapYear year.toNat = false :=
      Bool.eq_false_iff.mpr fun long => leap ((isLeapYear_eq year.toNat).mp long)
    interval_cases month <;> simp [addMonth, daysInMonth, List.range', leap, short, monthStart]


theorem toNat_ofNat_small {value : Nat} (small : value < 2 ^ 64) :
    (UInt64.ofNat value).toNat = value := by
  rw [UInt64.toNat_ofNat', Nat.mod_eq_of_lt small]

/-- The sums of a date and a time, once the days before its year and month are known. -/
theorem epochSeconds_eq {year month day yearDays monthDays : Nat} (hour minute second : Nat)
    (years : (List.range' 1970 ((UInt64.ofNat year).toNat - 1970)).foldl addYear 0 =
      UInt64.ofNat yearDays)
    (months : (List.range' 1 ((UInt64.ofNat month).toNat - 1)).foldlM
      (addMonth (UInt64.ofNat year)) 0 = some (UInt64.ofNat monthDays)) :
    epochSeconds (UInt64.ofNat year) (UInt64.ofNat month) (UInt64.ofNat (day + 1))
        (UInt64.ofNat hour) (UInt64.ofNat minute) (UInt64.ofNat second) =
      some (UInt64.ofNat
        ((yearDays + monthDays + day) * 86400 + hour * 3600 + minute * 60 + second)) := by
  have before : UInt64.ofNat (day + 1) - 1 = UInt64.ofNat day := by
    rw [UInt64.ofNat_add]
    exact UInt64.add_sub_cancel _ _
  simp only [epochSeconds, years, before]
  rw [foldlM_addMonth, months]
  simp only [Option.map_some, Option.bind_eq_bind, Option.bind_some, UInt64.ofNat_add,
    UInt64.ofNat_mul]
  rfl

/-- The date of a day leads back to the day. -/
theorem epochSeconds_daysToDate {days : Nat} (hour minute second : Nat)
    (near : days < 2 ^ 24) :
    epochSeconds (UInt64.ofNat (daysToDate days).1) (UInt64.ofNat (daysToDate days).2.1)
        (UInt64.ofNat (daysToDate days).2.2) (UInt64.ofNat hour) (UInt64.ofNat minute)
        (UInt64.ofNat second) =
      some (UInt64.ofNat (days * 86400 + hour * 3600 + minute * 60 + second)) := by
  obtain ⟨year, month, rest, late, first, inside, short, count, date⟩ := daysToDate_eq days
  rw [date]
  by_cases spring : month < 10
  · have months := foldlM_addMonth_range (UInt64.ofNat year) inside
    have yearSmall : (UInt64.ofNat year).toNat = year := toNat_ofNat_small (by omega)
    rw [yearSmall] at months
    simp only [if_pos spring] at months ⊢
    have early : year ≠ 1969 := fun same => absurd (first same) (by omega)
    have monthSmall : (UInt64.ofNat (month + 3)).toNat = month + 3 := toNat_ofNat_small (by omega)
    have before : 1969 ≤ year - 1 := by omega
    have years := foldl_addYear_range before
    have many := leapDays_late before
    have leap := leapDays_succ (year - 1)
    rw [Nat.sub_sub] at years
    rw [Nat.sub_add_cancel (by omega)] at years leap
    rw [epochSeconds_eq hour minute second (by rw [yearSmall]; exact years)
      (by rw [monthSmall]; exact months)]
    have whole : 365 * year + leapDays (year - 1) - 719527 +
        (59 + (if IsLeap year then 1 else 0) + monthStart month) + rest = days := by omega
    rw [whole]
  · have months := foldlM_addMonth_range (UInt64.ofNat (year + 1)) inside
    simp only [if_neg spring] at months ⊢
    have nextSmall : (UInt64.ofNat (year + 1)).toNat = year + 1 := toNat_ofNat_small (by omega)
    have monthSmall : (UInt64.ofNat (month - 9)).toNat = month - 9 := toNat_ofNat_small (by omega)
    have years := foldl_addYear_range late
    rw [show year - 1969 = year + 1 - 1970 by omega] at years
    rw [epochSeconds_eq hour minute second (by rw [nextSmall]; exact years)
      (by rw [monthSmall]; exact months)]
    have many := leapDays_late late
    have winter : 306 ≤ monthStart month := by
      unfold monthStart
      omega
    have whole : 365 * (year + 1) + leapDays year - 719527 + (monthStart month - 306) + rest =
        days := by omega
    rw [whole]


theorem isDigit_of_mem_padded {width value : Nat} {letter : Char}
    (member : letter ∈ padded width value) : letter.isDigit := by
  rw [padded, List.leftpad, List.mem_append, List.mem_replicate] at member
  rcases member with ⟨_, rfl⟩ | member
  · rfl
  · exact Nat.isDigit_of_mem_toDigits (by omega) (by omega) member

theorem not_mem_padded {width value : Nat} {letter : Char} (sign : letter.isDigit = false) :
    letter ∉ padded width value := by
  intro member
  rw [isDigit_of_mem_padded member] at sign
  cases sign

theorem decimalValue_padded (width value : Nat) :
    Text.decimalValue (padded width value) = some value := by
  have some_ : padded width value ≠ [] := by
    rw [padded, List.leftpad]
    exact List.append_ne_nil_of_right_ne_nil _ Nat.toDigits_ne_nil
  have digits : (padded width value).all Char.isDigit = true :=
    List.all_eq_true.mpr fun _ member => isDigit_of_mem_padded member
  have read : Nat.ofDigitChars 10 (padded width value) 0 = value := by
    rw [padded, List.leftpad, Nat.ofDigitChars_append, Nat.ofDigitChars_replicate_zero,
      Nat.mul_zero, Nat.ofDigitChars_ten_toDigits]
  rw [Nat.ofDigitChars_eq_foldl] at read
  rw [Text.decimalValue, if_pos ⟨some_, digits⟩, read]

/-- A number is read back from its text with leading zeros. -/
theorem parseOrZero_padded (width : Nat) {value : Nat} (small : value < 2 ^ 64) :
    parseOrZero (padded width value) = UInt64.ofNat value := by
  have unsigned : (match padded width value with
      | '+' :: rest => rest
      | _ => padded width value) = padded width value := by
    split
    · rename_i rest same
      have sign : '+' ∉ padded width value := not_mem_padded rfl
      exact absurd (same ▸ List.mem_cons_self) sign
    · rfl
  simp only [parseOrZero, parseU64, unsigned, decimalValue_padded, if_pos small,
    Option.getD_some]

theorem length_padded (width value : Nat) : width ≤ (padded width value).length := by
  rw [padded, List.length_leftpad]
  exact Nat.le_max_left _ _

theorem splitOn_three {separator : Char} {first second third : List Char}
    (one : separator ∉ first) (two : separator ∉ second) (three : separator ∉ third) :
    (first ++ separator :: second ++ separator :: third).splitOn separator =
      [first, second, third] := by
  rw [List.append_assoc, List.cons_append, List.splitOn_append_cons_self_of_not_mem one,
    List.splitOn_append_cons_self_of_not_mem two, List.splitOn_eq_singleton three]

/-- The six texts that the separators of a timestamp mark off. -/
structure TimestampFields where
  year : List Char
  month : List Char
  day : List Char
  hour : List Char
  minute : List Char
  second : List Char

/-- `none` for a text of another shape. -/
def timestampFields (ts : String) : Option TimestampFields :=
  if Text.byteLength ts.toList < 19 then
    none
  else
    match ts.toList.splitOn 'T' with
    | [date, time] =>
        match date.splitOn '-', (time.rdropWhile (· = 'Z')).splitOn ':' with
        | [year, month, day], [hour, minute, second] =>
            some ⟨year, month, day, hour, minute, second⟩
        | _, _ => none
    | _ => none

theorem parseTimestampToEpoch_eq (ts : String) :
    parseTimestampToEpoch ts =
      match timestampFields ts with
      | some fields =>
          epochSeconds (parseOrZero fields.year) (parseOrZero fields.month)
            (parseOrZero fields.day) (parseOrZero fields.hour) (parseOrZero fields.minute)
            (parseOrZero fields.second)
      | none => some 0 := by
  unfold parseTimestampToEpoch timestampFields
  split
  · rfl
  · split
    · split <;> rfl
    · rfl

/-- The text of a date and a time has its numbers as fields, with a zone or without. -/
theorem timestampFields_padded (year month day hour minute second : Nat) {zone : List Char}
    (utc : zone = [] ∨ zone = ['Z']) :
    timestampFields (String.ofList
        (padded 4 year ++ '-' :: padded 2 month ++ '-' :: padded 2 day ++ 'T' ::
          padded 2 hour ++ ':' :: padded 2 minute ++ ':' :: padded 2 second ++ zone)) =
      some ⟨padded 4 year, padded 2 month, padded 2 day, padded 2 hour, padded 2 minute,
        padded 2 second⟩ := by
  let date := padded 4 year ++ '-' :: padded 2 month ++ '-' :: padded 2 day
  let time := padded 2 hour ++ ':' :: padded 2 minute ++ ':' :: padded 2 second
  have whole : padded 4 year ++ '-' :: padded 2 month ++ '-' :: padded 2 day ++ 'T' ::
      padded 2 hour ++ ':' :: padded 2 minute ++ ':' :: padded 2 second ++ zone =
      date ++ 'T' :: (time ++ zone) := by
    simp only [date, time, List.append_assoc, List.cons_append]
  have long : ¬ Text.byteLength (date ++ 'T' :: (time ++ zone)) < 19 := by
    have written : 19 ≤ (date ++ 'T' :: (time ++ zone)).length := by
      have := length_padded 4 year
      have := length_padded 2 month
      have := length_padded 2 day
      have := length_padded 2 hour
      have := length_padded 2 minute
      have := length_padded 2 second
      simp only [date, time, List.length_append, List.length_cons]
      omega
    exact Nat.not_lt.mpr (Nat.le_trans written (Text.length_le_byteLength _))
  have splitT : (date ++ 'T' :: (time ++ zone)).splitOn 'T' = [date, time ++ zone] := by
    have dateFree : 'T' ∉ date := by simp [date, not_mem_padded]
    have timeFree : 'T' ∉ time ++ zone := by
      rcases utc with rfl | rfl <;> simp [time, not_mem_padded]
    rw [List.splitOn_append_cons_self_of_not_mem dateFree, List.splitOn_eq_singleton timeFree]
  have unzoned : time.rdropWhile (· = 'Z') = time := by
    rw [List.rdropWhile_eq_self_iff]
    intro nonempty zone
    have member := List.getLast_mem nonempty
    rw [of_decide_eq_true zone] at member
    simp [time, not_mem_padded] at member
  have trimmed : (time ++ zone).rdropWhile (· = 'Z') = time := by
    rcases utc with rfl | rfl
    · rw [List.append_nil, unzoned]
    · rw [List.rdropWhile_concat_pos _ _ _ (by simp), unzoned]
  have dates : date.splitOn '-' = [padded 4 year, padded 2 month, padded 2 day] :=
    splitOn_three (not_mem_padded rfl) (not_mem_padded rfl) (not_mem_padded rfl)
  have times : time.splitOn ':' = [padded 2 hour, padded 2 minute, padded 2 second] :=
    splitOn_three (not_mem_padded rfl) (not_mem_padded rfl) (not_mem_padded rfl)
  rw [timestampFields, String.toList_ofList, whole, if_neg long, splitT]
  simp only [trimmed, dates, times]

/-- The text of a date and a time is read field by field. -/
theorem parseTimestampToEpoch_fields (year month day hour minute second : Nat) :
    parseTimestampToEpoch (String.ofList
        (padded 4 year ++ '-' :: padded 2 month ++ '-' :: padded 2 day ++ 'T' ::
          padded 2 hour ++ ':' :: padded 2 minute ++ ':' :: padded 2 second ++ ['Z'])) =
      epochSeconds (parseOrZero (padded 4 year)) (parseOrZero (padded 2 month))
        (parseOrZero (padded 2 day)) (parseOrZero (padded 2 hour))
        (parseOrZero (padded 2 minute)) (parseOrZero (padded 2 second)) := by
  rw [parseTimestampToEpoch_eq,
    timestampFields_padded year month day hour minute second (.inr rfl)]

/-- Formatting a time and parsing the text gives the time back. -/
theorem parseTimestampToEpoch_formatTimestamp {secs : Nat} (near : secs < 2 ^ 40) :
    parseTimestampToEpoch (String.ofList (formatTimestamp secs)) = some (UInt64.ofNat secs) := by
  have days : secs / 86400 < 2 ^ 24 := by omega
  have back := epochSeconds_daysToDate (secs % 86400 / 3600) (secs % 86400 % 3600 / 60)
    (secs % 86400 % 60) days
  obtain ⟨yearSmall, monthSmall, daySmall⟩ := daysToDate_small days
  rw [formatTimestamp, parseTimestampToEpoch_fields, parseOrZero_padded 4 yearSmall,
    parseOrZero_padded 2 monthSmall, parseOrZero_padded 2 daySmall,
    parseOrZero_padded 2 (by omega), parseOrZero_padded 2 (by omega),
    parseOrZero_padded 2 (by omega), back]
  have whole : secs / 86400 * 86400 + secs % 86400 / 3600 * 3600 +
      secs % 86400 % 3600 / 60 * 60 + secs % 86400 % 60 = secs := by omega
  rw [whole]

theorem parseTimestampToEpoch_currentTimestamp {secs : UInt64} (near : secs < 2 ^ 40) :
    parseTimestampToEpoch (currentTimestamp (some secs)) = some secs := by
  rw [currentTimestamp, parseTimestampToEpoch_formatTimestamp (UInt64.lt_iff_toNat_lt.mp near),
    UInt64.ofNat_toNat]

/-- The text of a time of the next thirty thousand years is read back as the time, so that
two such texts are in the order of their times. -/
theorem currentTimestamp_faithful :
    (∀ secs : UInt64, secs < 2 ^ 40 →
      parseTimestampToEpoch (currentTimestamp (some secs)) = some secs) ∧
    ∀ earlier later : UInt64, earlier < 2 ^ 40 → later < 2 ^ 40 →
      ∃ first second,
        parseTimestampToEpoch (currentTimestamp (some earlier)) = some first ∧
        parseTimestampToEpoch (currentTimestamp (some later)) = some second ∧
        (first < second ↔ earlier < later) ∧
        (currentTimestamp (some earlier) = currentTimestamp (some later) ↔ earlier = later) := by
  constructor
  · intro secs near
    exact parseTimestampToEpoch_currentTimestamp near
  · intro earlier later near close
    have first := parseTimestampToEpoch_currentTimestamp near
    have second := parseTimestampToEpoch_currentTimestamp close
    refine ⟨earlier, later, first, second, Iff.rfl, ?_⟩
    constructor
    · intro same
      rw [same, second, Option.some.injEq] at first
      exact first.symm
    · intro same
      rw [same]

theorem recent_time_faithful :
    currentTimestamp (some 1771495200) = "2026-02-19T10:00:00Z" ∧
      parseTimestampToEpoch "2026-02-19T10:00:00Z" = some 1771495200 := by
  have text : currentTimestamp (some 1771495200) = "2026-02-19T10:00:00Z" := by decide +kernel
  refine ⟨text, ?_⟩
  rw [← text]
  exact currentTimestamp_faithful.1 1771495200 (by decide)

/-- `Nd` selects the generations by the times at which they were written. -/
theorem selectedIds_olderThanDays (env : Env) (guarded : List UInt32)
    {generations : List Generation} (days : UInt32) (time : Generation → UInt64)
    (reads : ∀ ts, env.epoch ts = ((parseTimestampToEpoch ts).getD 0).toNat)
    (near : ∀ generation ∈ generations, time generation < 2 ^ 40)
    (written : ∀ generation ∈ generations,
      generation.manifest.generation.timestamp = currentTimestamp (some (time generation))) :
    selectedIds env guarded generations (.olderThanDays days) =
      (generations.filter fun generation => generation.id ∉ guarded ∧
        (time generation).toNat < env.now - days.toNat * 86400).map (·.id) := by
  have kept : (generations.filter fun generation => generation.id ∉ guarded ∧
        env.epoch generation.manifest.generation.timestamp < env.now - days.toNat * 86400) =
      generations.filter fun generation => generation.id ∉ guarded ∧
        (time generation).toNat < env.now - days.toNat * 86400 := by
    apply List.filter_congr
    intro generation member
    have back := parseTimestampToEpoch_currentTimestamp (near generation member)
    simp only [written generation member, reads, back, Option.getD_some]
  exact congrArg (List.map (·.id)) kept

end NixRedox.System
