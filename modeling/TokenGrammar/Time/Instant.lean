import TokenGrammar.Time.Calendar

/-!
# Instants

An instant is a count of seconds since the start of 1970 with a fraction in nanoseconds.
A leap second has no count of its own: it is the second before it with a fraction of one
second or more.
-/

namespace TokenGrammar.Time

/-- A second of fixed length in nanoseconds. -/
def nanosPerSecond : Nat := 1000000000

def secondsPerDay : Nat := 86400

def epochDay : Int := 719162

structure Clock where
  hour : Nat
  minute : Nat
  second : Nat
  nanos : Nat
deriving DecidableEq, Repr

namespace Clock

def midnight : Clock := ⟨0, 0, 0, 0⟩

def seconds (clock : Clock) : Nat := clock.hour * 3600 + clock.minute * 60 + clock.second

/-- The second that is shown, 60 for a leap second. -/
def shownSecond (clock : Clock) : Nat := clock.second + clock.nanos / nanosPerSecond

def dialHour (clock : Clock) : Nat := if clock.hour % 12 = 0 then 12 else clock.hour % 12

def isAfternoon (clock : Clock) : Bool := decide (12 ≤ clock.hour)

end Clock

structure Instant where
  seconds : Int
  nanos : Nat
deriving DecidableEq, Repr

namespace Instant

def ofDateClock (date : Date) (clock : Clock) : Instant :=
  ⟨(date.dayNumber - epochDay) * secondsPerDay + clock.seconds, clock.nanos⟩

def date (i : Instant) : Date := Date.ofDayNumber (i.seconds / secondsPerDay + epochDay)

def clock (i : Instant) : Clock :=
  let second := (i.seconds % secondsPerDay).toNat
  ⟨second / 3600, second / 60 % 60, second % 60, i.nanos⟩

/-- The instant of a count of seconds, if its year can be represented. -/
def ofSeconds? (seconds : Int) : Option Instant :=
  let i : Instant := ⟨seconds, 0⟩
  if isYear i.date.year then some i else none

end Instant

end TokenGrammar.Time
