import TokenGrammar.Time.Parts
import TokenGrammar.Time.Timestamp

/-!
# Date-time patterns

A pattern is plain text with directives such as `%Y` or `%H`.  It is used both ways: to
show an instant and to read one.  In reading, blanks of the pattern stand for any run of
blanks, numbers may have blanks in front, and names are read in any case.
-/

namespace TokenGrammar.Time

/-- What stands in front of a number that is shorter than its usual width. -/
inductive Padding where
  | nothing
  | zeros
  | blanks
deriving DecidableEq, Repr

inductive NumericPart where
  | year
  | century
  | yearOfCentury
  | quarter
  | month
  | day
  | ordinal
  | dayFromSunday
  | dayFromMonday
  | sundayWeek
  | mondayWeek
  | weekYear
  | weekYearOfCentury
  | weekOfWeekYear
  | hour
  | dialHour
  | minute
  | second
  | nanosecond
  | unixSeconds
deriving DecidableEq, Repr

inductive PatternItem where
  | plain (c : Char)
  | number (part : NumericPart) (padding : Padding)
  | monthName (full : Bool)
  | weekdayName (full : Bool)
  /-- The half of the day, `AM` or `PM` or the same in small letters. -/
  | halfDay (small : Bool)
  /-- The fraction of the second with its point; nothing if there is none. -/
  | fraction
  /-- The fraction of the second with its point and so many digits. -/
  | fixedFraction (digits : Nat)
  /-- So many digits of the fraction of the second without a point. -/
  | fractionDigits (digits : Nat)
  /-- The name of the time zone, which is skipped in reading. -/
  | zoneName
  | offset (style : OffsetStyle)
  /-- An offset in one of several forms, which can be read but not shown. -/
  | anyOffset
  | timestamp
deriving DecidableEq, Repr

namespace NumericPart

/-- The parts by their directive letters, with their usual padding. -/
def letters : List (Char × NumericPart × Padding) :=
  [('Y', year, .zeros), ('C', century, .zeros), ('y', yearOfCentury, .zeros),
   ('q', quarter, .nothing), ('m', month, .zeros), ('d', day, .zeros), ('e', day, .blanks),
   ('j', ordinal, .zeros), ('w', dayFromSunday, .nothing), ('u', dayFromMonday, .nothing),
   ('U', sundayWeek, .zeros), ('W', mondayWeek, .zeros), ('G', weekYear, .zeros),
   ('g', weekYearOfCentury, .zeros), ('V', weekOfWeekYear, .zeros), ('H', hour, .zeros),
   ('k', hour, .blanks), ('I', dialHour, .zeros), ('l', dialHour, .blanks),
   ('M', minute, .zeros), ('S', second, .zeros), ('f', nanosecond, .zeros),
   ('s', unixSeconds, .nothing)]

def ofLetter? (c : Char) : Option (NumericPart × Padding) := letters.lookup c

def width : NumericPart → Nat
  | year | weekYear => 4
  | ordinal => 3
  | nanosecond | unixSeconds => 9
  | quarter | dayFromSunday | dayFromMonday => 1
  | _ => 2

def isYear (part : NumericPart) : Bool := part == year || part == weekYear

def value (part : NumericPart) (i : Instant) : Int :=
  match part with
  | year => i.date.year
  | century => i.date.year / 100 % 256
  | yearOfCentury => i.date.year % 100
  | quarter => i.date.quarter
  | month => i.date.month
  | day => i.date.day
  | ordinal => i.date.ordinal
  | dayFromSunday => (i.date.weekday + 1) % 7
  | dayFromMonday => i.date.weekday + 1
  | sundayWeek => i.date.week sunday
  | mondayWeek => i.date.week monday
  | weekYear => i.date.weekYear
  | weekYearOfCentury => i.date.weekYear % 100
  | weekOfWeekYear => i.date.weekOfWeekYear
  | hour => i.clock.hour
  | dialHour => i.clock.dialHour
  | minute => i.clock.minute
  | second => i.clock.shownSecond
  | nanosecond => i.clock.nanos % nanosPerSecond
  | unixSeconds => i.seconds

/-- A number padded to a width that its sign belongs to. -/
def padded (padding : Padding) (width : Nat) (sign digits : List Char) : List Char :=
  match padding with
  | .nothing => sign ++ digits
  | .zeros => sign ++ Decimal.padLeft '0' (width - sign.length) digits
  | .blanks => Decimal.padLeft ' ' width (sign ++ digits)

/-- The digits of a number; the tens of a century are one character, which lies behind the
digits where there are more than nine. -/
def digitsOf (part : NumericPart) (n : Nat) : List Char :=
  if part = century ∧ 100 ≤ n then [Decimal.digitChar (n / 10), Decimal.digitChar (n % 10)]
  else Decimal.natText n

/-- The text of a part.  Years outside of 0 to 9999 always have a sign, which does not
take from their digits. -/
def text (part : NumericPart) (padding : Padding) (i : Instant) : List Char :=
  let value := part.value i
  let signed := part.isYear ∧ (value < 0 ∨ 9999 < value)
  let sign := if value < 0 then ['-'] else if signed then ['+'] else []
  padded padding (if signed then part.width + 1 else part.width) sign
    (part.digitsOf value.natAbs)

/-- Makes a number that was read a part.  Only a year can be negative. -/
def set (part : NumericPart) (negative : Bool) (n : Nat) (p : Parts) : Option Parts :=
  match part with
  | year => p.setYear (if negative then -n else n)
  | weekYear => p.setWeekYear (if negative then -n else n)
  | century => p.setCentury n
  | quarter => p.setQuarter n
  | dayFromSunday => p.setDayFromSunday n
  | dayFromMonday => p.setDayFromMonday n
  | sundayWeek => p.setSundayWeek n
  | mondayWeek => p.setMondayWeek n
  | weekYearOfCentury => p.setWeekYearOfCentury n
  | weekOfWeekYear => p.setWeekOfWeekYear n
  | nanosecond => p.setNanos n
  | yearOfCentury => p.setYearOfCentury n
  | month => p.setMonth n
  | day => p.setDay n
  | ordinal => p.setOrdinal n
  | hour => p.setHour n
  | dialHour => p.setDialHour n
  | minute => p.setMinute n
  | second => p.setSecond n
  | unixSeconds => p.setUnixSeconds n

/-- Reads the number of a part: whether it is negative and how great it is.  It has at most
the usual width; a year with a sign and a count of seconds may have any number of digits. -/
def readNumber (part : NumericPart) (cs : List Char) : Option (Bool × Nat × List Char) :=
  match part.isYear, cs with
  | true, '-' :: rest => (readAny rest).map (true, ·)
  | true, '+' :: rest => (readAny rest).map (false, ·)
  | _, cs =>
    (if part = unixSeconds then readAny cs else readUpTo part.width cs).map (false, ·)

/-- Reads a part, with blanks in front. -/
def read (part : NumericPart) (p : Parts) (cs : List Char) : Option (Parts × List Char) := do
  let (negative, n, rest) ← part.readNumber (Text.trimStart cs)
  let p ← part.set negative n p
  pure (p, rest)

end NumericPart

def monthNames : List String :=
  ["January", "February", "March", "April", "May", "June", "July", "August", "September",
   "October", "November", "December"]

def weekdayNames : List String :=
  ["Monday", "Tuesday", "Wednesday", "Thursday", "Friday", "Saturday", "Sunday"]

def nameText (names : List String) (full : Bool) (index : Nat) : List Char :=
  let name := (names[index]?.getD "").toList
  if full then name else name.take 3

/-- The text behind a word that stands there in any case. -/
def expectFolded (word cs : List Char) : Option (List Char) :=
  if (cs.take word.length).map Char.toLower = word.map Char.toLower then
    some (cs.drop word.length)
  else none

/-- Reads a name by its first three letters; what is left of the full name may follow. -/
def readName (names : List String) (full : Bool) (cs : List Char) : Option (Nat × List Char) :=
  go 0 names
where
  go (index : Nat) : List String → Option (Nat × List Char)
    | [] => none
    | name :: names =>
      match expectFolded (name.toList.take 3) cs with
      | some rest =>
        if full then some (index, (expectFolded (name.toList.drop 3) rest).getD rest)
        else some (index, rest)
      | none => go (index + 1) names

namespace PatternItem

def fractionDigitsText (digits nanos : Nat) : List Char :=
  Decimal.padLeft '0' digits (Decimal.natText (nanos % nanosPerSecond / Nat.pow 10 (9 - digits)))

/-- The text of the fraction: three, six or nine digits, as few as show it. -/
def fractionText (nanos : Nat) : List Char :=
  let rest := nanos % nanosPerSecond
  if rest = 0 then []
  else '.' :: fractionDigitsText
    (if rest % 1000000 = 0 then 3 else if rest % 1000 = 0 then 6 else 9) nanos

def text (item : PatternItem) (i : Instant) : List Char :=
  match item with
  | plain c => [c]
  | number part padding => part.text padding i
  | monthName full => nameText monthNames full (i.date.month - 1)
  | weekdayName full => nameText weekdayNames full i.date.weekday
  | halfDay small =>
    let name := if i.clock.isAfternoon then "PM".toList else "AM".toList
    if small then name.map Char.toLower else name
  | fraction => fractionText i.nanos
  | fixedFraction digits => '.' :: fractionDigitsText digits i.nanos
  | fractionDigits digits => fractionDigitsText digits i.nanos
  | zoneName => "UTC".toList
  | offset style => style.zero
  | anyOffset => []
  | timestamp => i.dateTimeText ++ fractionText i.nanos ++ OffsetStyle.colon.zero

/-- Reads so many digits of a fraction of a second, no more and no fewer. -/
def readFractionDigits (digits : Nat) (p : Parts) (cs : List Char) : Option (Parts × List Char) :=
  (readExactly digits cs).bind fun (n, rest) => (p.setNanos (n * Nat.pow 10 (9 - digits))).map (·, rest)

/-- Reads a fraction of a second of any number of digits. -/
def readAllFraction (p : Parts) (cs : List Char) : Option (Parts × List Char) :=
  (readFraction cs).bind fun (nanos, rest) => (p.setNanos nanos).map (·, rest)

/-- Reads what stands behind a point, if there is a point. -/
def readPointed (behind : Parts → List Char → Option (Parts × List Char)) (p : Parts)
    (cs : List Char) : Option (Parts × List Char) :=
  match cs with
  | '.' :: rest => behind p rest
  | rest => some (p, rest)

/-- Reads an offset that has been found. -/
def takeOffset (p : Parts) (found? : Option (Int × List Char)) : Option (Parts × List Char) :=
  found?.bind fun (seconds, rest) => (p.setOffset seconds).map (·, rest)

/-- Reads numbers with a mark between each and the next, and blanks around the marks. -/
def readMarked (mark : Char) : List NumericPart → Parts → List Char → Option (Parts × List Char)
  | [], p, cs => some (p, cs)
  | [part], p, cs => part.read p cs
  | part :: parts, p, cs => do
    let (p, cs) ← part.read p cs
    let cs ← expect mark (Text.trimStart cs)
    readMarked mark parts p cs

/-- Reads the offset at the end of a timestamp, which may also be the name of universal
time. -/
def readEnd (p : Parts) (cs : List Char) : Option (Parts × List Char) :=
  match expectFolded "utc".toList cs with
  | some rest => takeOffset p (some (0, rest))
  | none => takeOffset p (readFreeOffset true false cs)

/-- Reads a timestamp, with blanks in front of its numbers and marks. -/
def readTimestamp (p : Parts) (cs : List Char) : Option (Parts × List Char) := do
  let (p, cs) ← readMarked '-' [.year, .month, .day] p cs
  let cs ← Instant.expectSeparator cs
  let (p, cs) ← readMarked ':' [.hour, .minute, .second] p cs
  let (p, cs) ← readPointed readAllFraction p cs
  readEnd p (Text.trimStart cs)

def readHalfDay (p : Parts) (cs : List Char) : Option (Parts × List Char) :=
  match expectFolded "am".toList cs, expectFolded "pm".toList cs with
  | some rest, _ => (p.setAfternoon false).map (·, rest)
  | none, some rest => (p.setAfternoon true).map (·, rest)
  | none, none => none

def read (item : PatternItem) (p : Parts) (cs : List Char) : Option (Parts × List Char) :=
  match item with
  | plain c =>
    if Text.isBlank c then some (p, Text.trimStart cs) else (expect c cs).map (p, ·)
  | number part _ => part.read p cs
  | monthName full =>
    (readName monthNames full cs).bind fun (index, rest) => (p.setMonth (index + 1)).map (·, rest)
  | weekdayName full =>
    (readName weekdayNames full cs).bind fun (index, rest) => (p.setWeekday index).map (·, rest)
  | halfDay _ => readHalfDay p cs
  | fraction => readPointed readAllFraction p cs
  | fixedFraction digits => readPointed (readFractionDigits digits) p cs
  | fractionDigits digits => readFractionDigits digits p cs
  | zoneName => some (p, cs.dropWhile fun c => !Text.isBlank c)
  | offset _ => takeOffset p (readFreeOffset false false (Text.trimStart cs))
  | anyOffset => takeOffset p (readFreeOffset true true (Text.trimStart cs))
  | timestamp => readTimestamp p cs

end PatternItem

abbrev Pattern := List PatternItem

namespace Pattern

def zeros (part : NumericPart) : PatternItem := .number part .zeros

def blanks (part : NumericPart) : PatternItem := .number part .blanks

def strokedDate : Pattern :=
  [zeros .month, .plain '/', zeros .day, .plain '/', zeros .yearOfCentury]

def hourMinute : Pattern := [zeros .hour, .plain ':', zeros .minute]

def clockTime : Pattern := hourMinute ++ [.plain ':', zeros .second]

/-- The pieces that directive letters other than those of numbers stand for. -/
def letters : List (Char × Pattern) :=
  [('b', [.monthName false]), ('h', [.monthName false]), ('B', [.monthName true]),
   ('a', [.weekdayName false]), ('A', [.weekdayName true]),
   ('p', [.halfDay false]), ('P', [.halfDay true]),
   ('%', [.plain '%']), ('n', [.plain '\n']), ('t', [.plain '\t']),
   ('F', [zeros .year, .plain '-', zeros .month, .plain '-', zeros .day]),
   ('D', strokedDate), ('x', strokedDate), ('R', hourMinute), ('T', clockTime), ('X', clockTime),
   ('r', [zeros .dialHour, .plain ':', zeros .minute, .plain ':', zeros .second, .plain ' ',
     .halfDay false]),
   ('c', [.weekdayName false, .plain ' ', .monthName false, .plain ' ', blanks .day, .plain ' '] ++
     clockTime ++ [.plain ' ', zeros .year]),
   ('v', [blanks .day, .plain '-', .monthName false, .plain '-', zeros .year]),
   ('Z', [.zoneName]), ('z', [.offset .bare]), ('+', [.timestamp])]

def ofLetter? (c : Char) : Option Pattern :=
  match NumericPart.ofLetter? c with
  | some (part, padding) => some [.number part padding]
  | none => letters.lookup c

/-- A number under another padding than its usual one. -/
def ofPaddedLetter? (padding : Padding) (c : Char) : Option Pattern :=
  (NumericPart.ofLetter? c).map fun (part, _) => [.number part padding]

/-- The padding that a sign behind the percent sign asks for. -/
def paddingOf? : Char → Option Padding
  | '-' => some .nothing
  | '0' => some .zeros
  | '_' => some .blanks
  | _ => none

def longDirectives : List (List Char × PatternItem) :=
  [(".f".toList, .fraction), (".3f".toList, .fixedFraction 3), (".6f".toList, .fixedFraction 6),
   (".9f".toList, .fixedFraction 9), ("3f".toList, .fractionDigits 3),
   ("6f".toList, .fractionDigits 6), ("9f".toList, .fractionDigits 9),
   (":z".toList, .offset .colon), ("::z".toList, .offset .seconds),
   (":::z".toList, .offset .hours), ("#z".toList, .anyOffset)]

/-- The pieces that the text behind a percent sign stands for, and the rest behind them. -/
def ofDirective? (cs : List Char) : Option (Pattern × List Char) :=
  match longDirectives.find? fun d => d.1.isPrefixOf cs with
  | some (written, item) => some ([item], cs.drop written.length)
  | none =>
    match cs with
    | [] => none
    | c :: rest =>
      match paddingOf? c, rest with
      | some padding, letter :: rest => (ofPaddedLetter? padding letter).map (·, rest)
      | some _, [] => none
      | none, rest => (ofLetter? c).map (·, rest)

/-- The pieces of a text, unless a directive in it has no meaning.  Each round takes a
character at least. -/
def ofCharsWithin? : Nat → List Char → Option Pattern
  | _, [] => some []
  | 0, _ => none
  | rounds + 1, '%' :: rest => do
    let (items, rest) ← ofDirective? rest
    let more ← ofCharsWithin? rounds rest
    pure (items ++ more)
  | rounds + 1, c :: rest => (ofCharsWithin? rounds rest).map (.plain c :: ·)

/-- The pieces of a text, unless a directive in it has no meaning. -/
def ofChars? (cs : List Char) : Option Pattern := ofCharsWithin? cs.length cs

def isShowable (pattern : Pattern) : Bool := pattern.all (· != .anyOffset)

def text (pattern : Pattern) (i : Instant) : List Char := pattern.flatMap fun item => item.text i

/-- The parts that a text gives under a pattern, which must account for all of it. -/
def parts? (pattern : Pattern) (cs : List Char) : Option Parts := go pattern {} cs
where
  go : Pattern → Parts → List Char → Option Parts
    | [], p, [] => some p
    | [], _, _ :: _ => none
    | item :: items, p, cs =>
      match item.read p cs with
      | some (p, rest) => go items p rest
      | none => none

/-- The instant of a text, or the start of its day where it gives no time. -/
def instant? (pattern : Pattern) (cs : List Char) : Option Instant :=
  (pattern.parts? cs).bind fun p => p.instant?.or p.startOfDay?

end Pattern

end TokenGrammar.Time
