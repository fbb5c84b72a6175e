/-!
# Days of the calendar

The Gregorian calendar carried back to year 1. Days are numbered from zero, the first of January
of year 1, up to the last of December 9999. The rule of the calendar is the two tables of the
lengths of months and years; counting days and naming them are inverse to each other.
-/

namespace CostCatalog.Calendar

/-- A year with a twenty-ninth of February. -/
def isLeap (year : Nat) : Bool := year % 4 == 0 && (year % 100 != 0 || year % 400 == 0)

/-- The length of a month. -/
def daysInMonth (year month : Nat) : Nat :=
  match month with
  | 2 => if isLeap year then 29 else 28
  | 4 | 6 | 9 | 11 => 30
  | _ => 31

/-- The days of the years before `year`. -/
def daysBeforeYear (year : Nat) : Nat :=
  let y := year - 1
  365 * y + y / 4 - y / 100 + y / 400

/-- The days of a year before one of its months. -/
def daysBeforeMonth (year : Nat) : Nat → Nat
  | 0 => 0
  | 1 => 0
  | month + 2 => daysBeforeMonth year (month + 1) + daysInMonth year (month + 1)

/-- The number of days from the first of January of year 1 to the first of January 10000. -/
def dayCount : Nat := 3652059

/-- A year, a month and a day. -/
structure Date where
  year : Nat
  month : Nat
  day : Nat
deriving DecidableEq, Repr, Inhabited

/-- The number of a day. -/
def Date.number (d : Date) : Nat :=
  daysBeforeYear d.year + daysBeforeMonth d.year d.month + (d.day - 1)

/-- A day that the calendar has. -/
def Date.Valid (d : Date) : Prop :=
  1 ≤ d.year ∧ d.year ≤ 9999 ∧ 1 ≤ d.month ∧ d.month ≤ 12 ∧ 1 ≤ d.day ∧
    d.day ≤ daysInMonth d.year d.month

instance (d : Date) : Decidable d.Valid := by unfold Date.Valid; infer_instance

/-! ## Naming a day

Four hundred years have 146097 days, a hundred years 36524, four years 1461 and a year 365; the
last day of a cycle of four hundred or of four years falls outside the equal shares, which is what
`min` repairs. -/

/-- The year in which a day lies, and how many days of that year come before it. -/
def yearOfDay (n : Nat) : Nat × Nat :=
  let c := n % 146097
  let century := min (c / 36524) 3
  let d := c - century * 36524
  let e := d % 1461
  let year := min (e / 365) 3
  (400 * (n / 146097) + 100 * century + 4 * (d / 1461) + year + 1, e - year * 365)

/-- The month in which day `n` of a year lies, looking from `month` on, and its day there. -/
def monthOfDay (year : Nat) : Nat → Nat → Nat → Nat × Nat
  | 0, month, n => (month, n + 1)
  | fuel + 1, month, n =>
    if n < daysInMonth year month then (month, n + 1)
    else monthOfDay year fuel (month + 1) (n - daysInMonth year month)

/-- The day with a number. -/
def Date.ofNumber (n : Nat) : Date :=
  let (year, rest) := yearOfDay n
  let (month, day) := monthOfDay year 11 1 rest
  ⟨year, month, day⟩

/-! ## Weeks

Weeks start on Monday. The first week of a year is the one with its fourth of January. -/

/-- The weekday of a day, Monday being zero. The first of January of year 1 was a Monday. -/
def weekday (n : Nat) : Nat := n % 7

/-- Whether a year has a week of number 53: it starts on a Thursday, or on a Wednesday and is a
leap year. -/
def hasWeek53 (year : Nat) : Bool :=
  let first := weekday (daysBeforeYear year)
  first == 3 || (first == 2 && isLeap year)

/-- The number of the Monday of the first week of a year; it may lie in the year before. -/
def firstMonday (year : Nat) : Int :=
  let first := daysBeforeYear year
  let monday : Int := (first : Int) - weekday first
  if 3 < weekday first then monday + 7 else monday

end CostCatalog.Calendar
