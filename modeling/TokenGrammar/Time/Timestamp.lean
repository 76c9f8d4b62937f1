import TokenGrammar.Time.Instant
import TokenGrammar.Time.Offset

/-!
# Timestamps

The canonical written form of an instant is `YYYY-MM-DDTHH:MM:SSZ`.  What is read is
wider: the letters may be small, a blank may stand between date and time, the seconds may
have a fraction, and an offset from universal time may stand at the end.
-/

namespace TokenGrammar.Time

namespace Instant

def dateTimeText (i : Instant) : List Char :=
  let date := i.date
  let clock := i.clock
  yearText date.year ++ '-' :: twoDigits date.month ++ '-' :: twoDigits date.day ++
    'T' :: twoDigits clock.hour ++ ':' :: twoDigits clock.minute ++
    ':' :: twoDigits clock.shownSecond

/-- The canonical form of an instant, its fraction cut off. -/
def timestamp (i : Instant) : List Char := i.dateTimeText ++ ['Z']

/-- A time of day with seconds; second 60 is the leap second of the one before. -/
def clockOf? (hour minute second nanos : Nat) : Option Clock :=
  if 24 ≤ hour ∨ 60 ≤ minute ∨ 61 ≤ second then none
  else if second = 60 then some ⟨hour, minute, 59, nanosPerSecond + nanos⟩
  else some ⟨hour, minute, second, nanos⟩

/-- The offset at the end of a timestamp, in seconds to the east. -/
def readOffset : List Char → Option Int
  | ['Z'] | ['z'] => some 0
  | cs => do
    let (west, rest) ← readWest cs
    let (hours, rest) ← readExactly 2 rest
    let rest ← expect ':' rest
    let (minutes, rest) ← readExactly 2 rest
    if rest.isEmpty ∧ hours < 24 ∧ minutes < 60 then some (offsetSeconds west hours minutes)
    else none

/-- The text behind the mark between date and time. -/
def expectSeparator : List Char → Option (List Char)
  | 'T' :: rest | 't' :: rest | ' ' :: rest => some rest
  | _ => none

def ofTimestamp? (cs : List Char) : Option Instant := do
  let (year, cs) ← readExactly 4 cs
  let cs ← expect '-' cs
  let (month, cs) ← readExactly 2 cs
  let cs ← expect '-' cs
  let (day, cs) ← readExactly 2 cs
  let cs ← expectSeparator cs
  let (hour, cs) ← readExactly 2 cs
  let cs ← expect ':' cs
  let (minute, cs) ← readExactly 2 cs
  let cs ← expect ':' cs
  let (second, cs) ← readExactly 2 cs
  let (nanos, cs) ← match cs with
    | '.' :: rest => readFraction rest
    | rest => some (0, rest)
  let offset ← readOffset cs
  let date ← Date.ofMonthDay? year month day
  let clock ← clockOf? hour minute second nanos
  let i := ofDateClock date clock
  pure { i with seconds := i.seconds - offset }

end Instant

end TokenGrammar.Time
