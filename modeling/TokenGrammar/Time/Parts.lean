import TokenGrammar.Time.Instant

/-!
# Instants from their parts

A text gives some parts of an instant, some of them perhaps twice.  Parts must agree with
each other.  A date needs a year with month and day, with the number of the day, or with a
week and a weekday; a time needs an hour and a minute; a count of seconds since 1970 gives
whatever is missing.
-/

namespace TokenGrammar.Time

/-- The weekday that weeks start with in one count. -/
def sunday : Nat := 6

/-- The weekday that weeks start with in the others. -/
def monday : Nat := 0

inductive Defect where
  | incomplete
  /-- Parts contradict each other or name no day or time. -/
  | impossible
deriving DecidableEq, Repr

structure Parts where
  year : Option Int := none
  century : Option Nat := none
  yearOfCentury : Option Nat := none
  quarter : Option Nat := none
  month : Option Nat := none
  day : Option Nat := none
  ordinal : Option Nat := none
  weekday : Option Nat := none
  sundayWeek : Option Nat := none
  mondayWeek : Option Nat := none
  weekYear : Option Int := none
  weekYearOfCentury : Option Nat := none
  weekOfWeekYear : Option Nat := none
  afternoon : Option Bool := none
  /-- The hour on a dial from 0 to 11. -/
  dialHour : Option Nat := none
  minute : Option Nat := none
  second : Option Nat := none
  nanos : Option Nat := none
  unixSeconds : Option Int := none
  /-- The offset from universal time in seconds to the east; it does not move the instant. -/
  offset : Option Int := none
deriving DecidableEq, Repr

namespace Parts

/-- A part that is known once more must be the same. -/
def agree {α : Type} [DecidableEq α] (known : Option α) (value : α) : Option (Option α) :=
  match known with
  | none => some (some value)
  | some old => if old = value then some (some old) else none

def setYear (p : Parts) (year : Int) : Option Parts :=
  (agree p.year year).map fun year => { p with year }

def setCentury (p : Parts) (century : Nat) : Option Parts :=
  (agree p.century century).map fun century => { p with century }

def setYearOfCentury (p : Parts) (year : Nat) : Option Parts :=
  if year < 100 then (agree p.yearOfCentury year).map fun yearOfCentury => { p with yearOfCentury }
  else none

def setQuarter (p : Parts) (quarter : Nat) : Option Parts :=
  if 1 ≤ quarter ∧ quarter ≤ 4 then (agree p.quarter quarter).map fun quarter => { p with quarter }
  else none

def setMonth (p : Parts) (month : Nat) : Option Parts :=
  if 1 ≤ month ∧ month ≤ 12 then (agree p.month month).map fun month => { p with month }
  else none

def setDay (p : Parts) (day : Nat) : Option Parts :=
  if 1 ≤ day ∧ day ≤ 31 then (agree p.day day).map fun day => { p with day } else none

def setOrdinal (p : Parts) (ordinal : Nat) : Option Parts :=
  if 1 ≤ ordinal ∧ ordinal ≤ 366 then
    (agree p.ordinal ordinal).map fun ordinal => { p with ordinal }
  else none

def setWeekday (p : Parts) (weekday : Nat) : Option Parts :=
  (agree p.weekday weekday).map fun weekday => { p with weekday }

def setDayFromSunday (p : Parts) (n : Nat) : Option Parts :=
  if n ≤ 6 then p.setWeekday ((n + 6) % 7) else none

def setDayFromMonday (p : Parts) (n : Nat) : Option Parts :=
  if 1 ≤ n ∧ n ≤ 7 then p.setWeekday (n - 1) else none

def setSundayWeek (p : Parts) (week : Nat) : Option Parts :=
  if week ≤ 53 then (agree p.sundayWeek week).map fun sundayWeek => { p with sundayWeek }
  else none

def setMondayWeek (p : Parts) (week : Nat) : Option Parts :=
  if week ≤ 53 then (agree p.mondayWeek week).map fun mondayWeek => { p with mondayWeek }
  else none

def setWeekYear (p : Parts) (year : Int) : Option Parts :=
  (agree p.weekYear year).map fun weekYear => { p with weekYear }

def setWeekYearOfCentury (p : Parts) (year : Nat) : Option Parts :=
  if year < 100 then
    (agree p.weekYearOfCentury year).map fun weekYearOfCentury => { p with weekYearOfCentury }
  else none

def setWeekOfWeekYear (p : Parts) (week : Nat) : Option Parts :=
  if 1 ≤ week ∧ week ≤ 53 then
    (agree p.weekOfWeekYear week).map fun weekOfWeekYear => { p with weekOfWeekYear }
  else none

def setAfternoon (p : Parts) (afternoon : Bool) : Option Parts :=
  (agree p.afternoon afternoon).map fun afternoon => { p with afternoon }

/-- Sets the hour on a dial from 1 to 12. -/
def setDialHour (p : Parts) (hour : Nat) : Option Parts :=
  if 1 ≤ hour ∧ hour ≤ 12 then
    (agree p.dialHour (hour % 12)).map fun dialHour => { p with dialHour }
  else none

def setHour (p : Parts) (hour : Nat) : Option Parts :=
  if hour < 24 then do
    let p ← p.setAfternoon (decide (12 ≤ hour))
    (agree p.dialHour (hour % 12)).map fun dialHour => { p with dialHour }
  else none

def setMinute (p : Parts) (minute : Nat) : Option Parts :=
  if minute < 60 then (agree p.minute minute).map fun minute => { p with minute } else none

def setSecond (p : Parts) (second : Nat) : Option Parts :=
  if second ≤ 60 then (agree p.second second).map fun second => { p with second } else none

def setNanos (p : Parts) (nanos : Nat) : Option Parts :=
  if nanos < nanosPerSecond then (agree p.nanos nanos).map fun nanos => { p with nanos } else none

def setUnixSeconds (p : Parts) (seconds : Int) : Option Parts :=
  (agree p.unixSeconds seconds).map fun unixSeconds => { p with unixSeconds }

def setOffset (p : Parts) (offset : Int) : Option Parts :=
  (agree p.offset offset).map fun offset => { p with offset }

/-- A year from what is known of it.  The last two digits alone stand for a year from 1970
to 2069; beside a full year they and the century must be its own. -/
def resolveYear (year : Option Int) (century short : Option Nat) : Except Defect (Option Int) :=
  match year, century, short with
  | year, none, none => .ok year
  | some year, century, short =>
    if 0 ≤ year ∧ (century.all fun c => year / 100 == c) ∧ (short.all fun s => year % 100 == s) then
      .ok (some year)
    else .error .impossible
  | none, some century, some short => .ok (some (century * 100 + short))
  | none, none, some short => .ok (some (if short < 70 then short + 2000 else short + 1900))
  | none, some _, none => .error .incomplete

/-- Whether a year that is not negative has the given century and last two digits; a
negative one has neither. -/
def fitsShortYear (year : Int) (century short : Option Nat) : Bool :=
  (century.all fun c => decide (0 ≤ year) && year / 100 == c) &&
    short.all fun s => decide (0 ≤ year) && year % 100 == s

def fitsMonthDay (p : Parts) (date : Date) : Bool :=
  p.year.all (· == date.year) && fitsShortYear date.year p.century p.yearOfCentury &&
    p.month.all (· == date.month) && p.day.all (· == date.day)

/-- Whether a date has the given week in the year that it belongs to, and the weekday. -/
def fitsWeekYear (p : Parts) (date : Date) : Bool :=
  p.weekYear.all (· == date.weekYear) && fitsShortYear date.weekYear none p.weekYearOfCentury &&
    p.weekOfWeekYear.all (· == date.weekOfWeekYear) && p.weekday.all (· == date.weekday)

/-- Whether a date has the given number and weeks in the year. -/
def fitsOrdinal (p : Parts) (date : Date) : Bool :=
  p.ordinal.all (· == date.ordinal) && p.sundayWeek.all (· == date.week sunday) &&
    p.mondayWeek.all (· == date.week monday)

/-- A date that was found, if it agrees with everything else that is known. -/
def checked (p : Parts) (date? : Option Date) : Except Defect Date :=
  match date? with
  | some date =>
    if p.fitsMonthDay date && p.fitsWeekYear date && p.fitsOrdinal date &&
        p.quarter.all (· == date.quarter) then .ok date
    else .error .impossible
  | none => .error .impossible

def dateByWeek (p : Parts) (year? weekYear? : Option Int) : Except Defect Date :=
  match year?, p.sundayWeek, p.mondayWeek, weekYear?, p.weekOfWeekYear, p.weekday with
  | some year, some week, _, _, _, some weekday =>
    p.checked (Date.ofWeek? sunday year week weekday)
  | some year, _, some week, _, _, some weekday =>
    p.checked (Date.ofWeek? monday year week weekday)
  | _, _, _, some year, some week, some weekday =>
    p.checked (Date.ofWeekYear? year week weekday)
  | _, _, _, _, _, _ => .error .incomplete

/-- The date, by month and day where they are known, else by the number of the day, else by
a week. -/
def date (p : Parts) : Except Defect Date := do
  let year? ← resolveYear p.year p.century p.yearOfCentury
  let weekYear? ← resolveYear p.weekYear none p.weekYearOfCentury
  match year?, p.month, p.day, p.ordinal with
  | some year, some month, some day, _ => p.checked (Date.ofMonthDay? year month day)
  | some year, _, _, some ordinal => p.checked (Date.ofOrdinal? year ordinal)
  | _, _, _, _ => p.dateByWeek year? weekYear?

/-- The time of day.  A fraction needs a second, and second 60 is a leap second. -/
def clock (p : Parts) : Except Defect Clock :=
  match p.afternoon, p.dialHour, p.minute with
  | some afternoon, some dialHour, some minute =>
    let hour := if afternoon then dialHour + 12 else dialHour
    match p.second, p.nanos with
    | none, none => .ok ⟨hour, minute, 0, 0⟩
    | none, some _ => .error .incomplete
    | some second, nanos? =>
      let nanos := nanos?.getD 0
      if second = 60 then .ok ⟨hour, minute, 59, nanosPerSecond + nanos⟩
      else .ok ⟨hour, minute, second, nanos⟩
  | _, _, _ => .error .incomplete

/-- Whether an instant is the one at a count of seconds; a leap second may also be counted
as the second after it. -/
def fitsUnixSeconds (i : Instant) (seconds : Int) : Bool :=
  seconds == i.seconds || (decide (nanosPerSecond ≤ i.nanos) && seconds == i.seconds + 1)

/-- The parts completed from a count of seconds.  A leap second is the one before the
count or the count itself. -/
def completed (p : Parts) (seconds : Int) : Option Parts := do
  let i ← Instant.ofSeconds? seconds
  let second := i.clock.second
  let (i, p) ←
    if p.second = some 60 then
      if second = 59 then some (i, p)
      else if second = 0 then some ({ i with seconds := i.seconds - 1 }, p)
      else none
    else (p.setSecond second).map (i, ·)
  let p ← p.setYear i.date.year
  let p ← p.setOrdinal i.date.ordinal
  let p ← p.setHour i.clock.hour
  p.setMinute i.clock.minute

def instant? (p : Parts) : Option Instant :=
  match p.date, p.clock, p.unixSeconds with
  | .ok date, .ok clock, seconds? =>
    let i := Instant.ofDateClock date clock
    if seconds?.all (fitsUnixSeconds i) then some i else none
  | .error .impossible, _, _ | _, .error .impossible, _ => none
  | _, _, none => none
  | _, _, some seconds =>
    match p.completed seconds with
    | some p =>
      match p.date, p.clock with
      | .ok date, .ok clock => some (Instant.ofDateClock date clock)
      | _, _ => none
    | none => none

/-- The instant at the start of the day that the parts make. -/
def startOfDay? (p : Parts) : Option Instant :=
  match p.date with
  | .ok date => some (Instant.ofDateClock date .midnight)
  | .error _ => none

end Parts

end TokenGrammar.Time
