/-!
# The calendar

The Gregorian calendar, carried back before its introduction.  Days are counted from the
first of January of the year 1, which is day 0 and a Monday; years before it are 0, -1
and so on.  A day count determines a date and a date a day count.
-/

namespace TokenGrammar.Time

def isLeapYear (year : Int) : Bool :=
  year % 4 == 0 && (year % 100 != 0 || year % 400 == 0)

def daysInYear (year : Int) : Nat := if isLeapYear year then 366 else 365

def daysBeforeYear (year : Int) : Int :=
  365 * (year - 1) + (year - 1) / 4 - (year - 1) / 100 + (year - 1) / 400

def monthLengths (year : Int) : List Nat :=
  [31, if isLeapYear year then 29 else 28, 31, 30, 31, 30, 31, 31, 30, 31, 30, 31]

/-- The years that can be represented. -/
def firstYear : Int := -262143

def lastYear : Int := 262142

def isYear (year : Int) : Bool := decide (firstYear ≤ year) && decide (year ≤ lastYear)

/-- A day by its year and its number in that year, which counts from one. -/
structure Date where
  year : Int
  ordinal : Nat
deriving DecidableEq, Repr

namespace Date

def ofOrdinal? (year : Int) (ordinal : Nat) : Option Date :=
  if isYear year && decide (1 ≤ ordinal) && decide (ordinal ≤ daysInYear year) then
    some ⟨year, ordinal⟩
  else none

def ofMonthDay? (year : Int) (month day : Nat) : Option Date :=
  let lengths := monthLengths year
  match lengths[month - 1]? with
  | some length =>
    if isYear year && decide (1 ≤ month) && decide (1 ≤ day) && decide (day ≤ length) then
      some ⟨year, (lengths.take (month - 1)).foldl (· + ·) day⟩
    else none
  | none => none

def dayNumber (date : Date) : Int := daysBeforeYear date.year + date.ordinal - 1

/-- The year of a day count: the mean length of a year gives it up to one. -/
def yearOfDay (day : Int) : Int :=
  let guess := day * 400 / 146097 + 1
  if day < daysBeforeYear guess then guess - 1
  else if daysBeforeYear (guess + 1) ≤ day then guess + 1
  else guess

def ofDayNumber (day : Int) : Date :=
  let year := yearOfDay day
  ⟨year, (day - daysBeforeYear year).toNat + 1⟩

/-- The month and the day of the month, found by passing over the months before. -/
def monthDay (date : Date) : Nat × Nat := go 1 (date.ordinal - 1) (monthLengths date.year)
where
  go (month rest : Nat) : List Nat → Nat × Nat
    | [] => (month, rest + 1)
    | length :: lengths =>
      if rest < length then (month, rest + 1) else go (month + 1) (rest - length) lengths

def month (date : Date) : Nat := date.monthDay.1

def day (date : Date) : Nat := date.monthDay.2

def weekday (date : Date) : Nat := (date.dayNumber % 7).toNat

/-- The quarter of the year, from 1 to 4. -/
def quarter (date : Date) : Nat := (date.month + 2) / 3

/-! ## Weeks

Weeks are counted in two ways.  Either week 1 of a year starts with its first Sunday, or
first Monday, and the days before it are in week 0; or week 1 is the one, from Monday to
Sunday, that has the first Thursday of the year, and the days before it belong to the last
week of the year before. -/

/-- The number of days since the last weekday `start`. -/
def daysSince (start weekday : Nat) : Nat := (weekday + 7 - start) % 7

/-- The week of the year, weeks starting with the weekday `start`. -/
def week (start : Nat) (date : Date) : Nat :=
  (date.ordinal + 6 - daysSince start date.weekday) / 7

/-- The date of a weekday in a week of a year, weeks starting with the weekday `start`. -/
def ofWeek? (start : Nat) (year : Int) (week weekday : Nat) : Option Date :=
  let firstWeekday := (daysBeforeYear year % 7).toNat
  let ordinal : Int :=
    1 + daysSince firstWeekday start + 7 * ((week : Int) - 1) + daysSince start weekday
  ofOrdinal? year ordinal.toNat

def thursday (date : Date) : Int := date.dayNumber - date.weekday + 3

def weekYear (date : Date) : Int := yearOfDay date.thursday

def weekOfWeekYear (date : Date) : Nat :=
  ((date.thursday - daysBeforeYear date.weekYear) / 7).toNat + 1

/-- The day count of the Monday of week 1, which is the week of the fourth of January. -/
def firstMonday (year : Int) : Int :=
  let fourth := daysBeforeYear year + 3
  fourth - fourth % 7

def ofWeekYear? (year : Int) (week weekday : Nat) : Option Date :=
  let date := ofDayNumber (firstMonday year + 7 * ((week : Int) - 1) + weekday)
  if decide (1 ≤ week) && decide (firstMonday year + 7 * week ≤ firstMonday (year + 1)) &&
      isYear date.year then some date
  else none

end Date

end TokenGrammar.Time
