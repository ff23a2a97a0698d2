import Mathlib.Data.String.Basic

/-!
# `Date.prototype.toString`

ECMA-262's `ToDateString(tv)`, which `Date.prototype.toString` returns and which is therefore the
string form of a `Date` wherever one is converted to a string, as `Array.prototype.sort`
without a comparator does. It prints the local time `LocalTime(tv)`: `DateString` (weekday,
month, date, year), `TimeString` (hours, minutes, seconds and `GMT`), then `TimeZoneString`
(the offset and the zone's name).

The local time zone is the host's: `TimeZone` gives its offset at each time value, as
`LocalTZA` does, and the name printed after the offset, which ECMA-262 leaves to the
implementation. Year, month and date are those of the proleptic Gregorian calendar of
`YearFromTime`, `MonthFromTime` and `DateFromTime`, computed by the usual conversion from days
to civil dates. A time value here is an integer number of milliseconds; the `NaN` of an invalid
date, printed `Invalid Date`, is left out, since a file's `mtime` is always valid.

What decides the order of two such strings is their first difference, and the first thing
printed is the weekday's name (`toDateString_of_weekDay`).
-/

namespace CrosIde

/-- The host's local time zone: its offset from UTC in milliseconds at each time value, and
    the name `TimeZoneString` prints after the offset. -/
structure TimeZone where
  offset : Int → Int
  name : Int → String

namespace JsDate

/-- `msPerDay`. -/
def msPerDay : Int := 86400000

/-- `ToZeroPaddedDecimalString(n, minLength)`. -/
def padDecimal (n minLength : Nat) : String :=
  String.mk (List.replicate (minLength - (toString n).length) '0') ++ toString n

/-- The names of the weekdays, from Sunday, as `DateString` prints them. -/
def weekDayNames : List String := ["Sun", "Mon", "Tue", "Wed", "Thu", "Fri", "Sat"]

/-- The names of the months, from January, as `DateString` prints them. -/
def monthNames : List String :=
  ["Jan", "Feb", "Mar", "Apr", "May", "Jun", "Jul", "Aug", "Sep", "Oct", "Nov", "Dec"]

/-- `Day(t)`. -/
def day (t : Int) : Int := t / msPerDay

/-- `WeekDay(t)`: 1970-01-01 was a Thursday. -/
def weekDay (t : Int) : Nat := ((day t + 4) % 7).toNat

/-- The year, the month from 1 and the date from 1 of the day `z` counted from 1970-01-01:
    `YearFromTime`, `MonthFromTime` plus one, and `DateFromTime`. -/
def civilFromDays (z : Int) : Int × Nat × Nat :=
  let z := z + 719468
  let era := z / 146097
  let doe := z % 146097
  let yoe := (doe - doe / 1460 + doe / 36524 - doe / 146096) / 365
  let doy := doe - (365 * yoe + yoe / 4 - yoe / 100)
  let mp := (5 * doy + 2) / 153
  let m := if mp < 10 then mp + 3 else mp - 9
  (yoe + era * 400 + (if m ≤ 2 then 1 else 0), m.toNat, (doy - (153 * mp + 2) / 5 + 1).toNat)

/-- `DateString(t)`. -/
def dateString (t : Int) : String :=
  let (y, m, d) := civilFromDays (day t)
  weekDayNames.getD (weekDay t) "" ++ " " ++ monthNames.getD (m - 1) "" ++ " " ++
    padDecimal d 2 ++ " " ++ (if y < 0 then "-" else "") ++ padDecimal y.natAbs 4

/-- `TimeString(t)`. -/
def timeString (t : Int) : String :=
  let ms := t % msPerDay
  padDecimal (ms / 3600000).toNat 2 ++ ":" ++ padDecimal (ms / 60000 % 60).toNat 2 ++ ":" ++
    padDecimal (ms / 1000 % 60).toNat 2 ++ " GMT"

/-- `TimeZoneString(tv)`, with the zone's name in parentheses. -/
def timeZoneString (tz : TimeZone) (tv : Int) : String :=
  let offset := tz.offset tv
  (if 0 ≤ offset then "+" else "-") ++ padDecimal (offset.natAbs / 3600000 % 24) 2 ++
    padDecimal (offset.natAbs / 60000 % 60) 2 ++ " (" ++ tz.name tv ++ ")"

/-- `ToDateString(tv)`: `Date.prototype.toString` of the time value `tv`. -/
def toDateString (tz : TimeZone) (tv : Int) : String :=
  dateString (tv + tz.offset tv) ++ " " ++ timeString (tv + tz.offset tv) ++
    timeZoneString tz tv

/-- The weekday of `tv` in the zone `tz`. -/
def localWeekDay (tz : TimeZone) (tv : Int) : Nat := weekDay (tv + tz.offset tv)

theorem weekDay_lt (t : Int) : weekDay t < 7 := by
  have h₁ := Int.emod_nonneg (day t + 4) (by decide : (7 : Int) ≠ 0)
  have h₂ := Int.emod_lt_of_pos (day t + 4) (by decide : (0 : Int) < 7)
  unfold weekDay; omega

/-- The string form of a date starts with the name of its weekday. -/
theorem toDateString_of_weekDay (tz : TimeZone) (tv : Int) :
    ∃ rest, toDateString tz tv = weekDayNames.getD (localWeekDay tz tv) "" ++ rest :=
  ⟨_, by simp only [toDateString, dateString, localWeekDay, String.append_assoc]; rfl⟩

theorem length_weekDayName (tz : TimeZone) (tv : Int) :
    (weekDayNames.getD (localWeekDay tz tv) "").length = 3 :=
  (by decide : ∀ w < 7, (weekDayNames.getD w "").length = 3) _ (weekDay_lt _)

theorem append_lt_append {l₁ l₂ : List Char} (r₁ r₂ : List Char) (h : l₁ < l₂)
    (hl : l₁.length = l₂.length) : l₁ ++ r₁ < l₂ ++ r₂ := by
  induction h with
  | nil => cases hl
  | cons _ ih => exact .cons (ih (by simpa using hl))
  | rel hab => exact .rel hab

/-- Two dates whose weekdays have different names compare as those names, whatever follows. -/
theorem toDateString_append_lt {tz : TimeZone} {t₁ t₂ : Int} (r₁ r₂ : String)
    (h : weekDayNames.getD (localWeekDay tz t₁) "" < weekDayNames.getD (localWeekDay tz t₂) "") :
    toDateString tz t₁ ++ r₁ < toDateString tz t₂ ++ r₂ := by
  obtain ⟨rest₁, e₁⟩ := toDateString_of_weekDay tz t₁
  obtain ⟨rest₂, e₂⟩ := toDateString_of_weekDay tz t₂
  rw [e₁, e₂, String.lt_iff_toList_lt]
  simpa only [String.toList, String.data_append, List.append_assoc] using
    append_lt_append (rest₁.data ++ r₁.data) (rest₂.data ++ r₂.data)
      (String.lt_iff_toList_lt.1 h)
      ((length_weekDayName tz t₁).trans (length_weekDayName tz t₂).symm)

end JsDate

end CrosIde
