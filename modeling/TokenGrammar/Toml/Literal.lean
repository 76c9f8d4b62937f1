import TokenGrammar.Numeric.Decimal
import TokenGrammar.Numeric.Hexadecimal
import TokenGrammar.Time.Calendar
import TokenGrammar.Time.Digits

/-!
# Numbers and times in TOML

Digits may be grouped by single underscores between them.  Integers have 64 signed bits;
a decimal too large for a binary64 number is refused.  Dates must exist, times have
seconds, and a date stands in front of its time.  Each reader answers with the text that
is left.
-/

namespace TokenGrammar.Toml

open TokenGrammar.Time (readExactly readFraction)

/-- Digits of one sort with single underscores between them, the underscores left out. -/
def readGrouped (isDigit : Char → Bool) : List Char → Option (List Char × List Char)
  | [] => none
  | [c] => if isDigit c then some ([c], []) else none
  | c :: d :: rest =>
    if !isDigit c then none
    else if isDigit d then
      (readGrouped isDigit (d :: rest)).map fun (digits, rest) => (c :: digits, rest)
    else if d = '_' then
      (readGrouped isDigit rest).map fun (digits, rest) => (c :: digits, rest)
    else some ([c], d :: rest)

def readSign : List Char → Bool × List Char
  | '+' :: rest => (false, rest)
  | '-' :: rest => (true, rest)
  | rest => (false, rest)

/-- Digits without a zero in front of others. -/
def readPlainDigits (cs : List Char) : Option (List Char × List Char) :=
  match readGrouped Decimal.isDigit cs with
  | some (digits, rest) =>
    if digits.length = 1 ∨ digits.head? ≠ some '0' then some (digits, rest) else none
  | none => none

/-- The fraction of a decimal behind its point. -/
def readFraction? (cs : List Char) : Option (List Char × List Char) :=
  match cs with
  | '.' :: rest => readGrouped Decimal.isDigit rest
  | _ => none

/-- The exponent of a decimal with its sign. -/
def readExponent? (cs : List Char) : Option (Int × List Char) :=
  match cs with
  | e :: rest =>
    if e = 'e' ∨ e = 'E' then
      let (negative, rest) := readSign rest
      (readGrouped Decimal.isDigit rest).map fun (digits, rest) =>
        let n : Int := Decimal.natOfDigits digits
        (if negative then -n else n, rest)
    else none
  | [] => none

/-- A decimal with a fraction, an exponent or both. -/
def readDecimal? (cs : List Char) : Option (List Char) := do
  let (negative, cs) := readSign cs
  let (whole, cs) ← readPlainDigits cs
  let (fraction, power, cs) ←
    match readFraction? cs, readExponent? cs with
    | some (fraction, rest), _ =>
      match readExponent? rest with
      | some (power, rest) => some (fraction, power, rest)
      | none => some (fraction, 0, rest)
    | none, some (power, rest) => some ([], power, rest)
    | none, none => none
  let decimal : Decimal :=
    ⟨Decimal.natOfDigits (whole ++ fraction), power - fraction.length⟩
  if decimal.toBinary64 negative = .infinite false then none else some cs

/-- The words `inf` and `nan` with an optional sign. -/
def readSpecial? (cs : List Char) : Option (List Char) :=
  match (readSign cs).2 with
  | 'i' :: 'n' :: 'f' :: rest => some rest
  | 'n' :: 'a' :: 'n' :: rest => some rest
  | _ => none

def digitBelow? (base : Nat) (c : Char) : Option Nat :=
  (Hexadecimal.digitValue? c).filter fun value => decide (value < base)

/-- The base that the letter behind a zero stands for. -/
def base? : Char → Option Nat
  | 'x' => some 16
  | 'o' => some 8
  | 'b' => some 2
  | _ => none

/-- An integer in a base other than ten, without a sign. -/
def readBased? : List Char → Option (List Char)
  | '0' :: letter :: rest => do
    let base ← base? letter
    let (digits, rest) ← readGrouped (fun c => (digitBelow? base c).isSome) rest
    let n := digits.foldl (fun n c => n * base + (digitBelow? base c).getD 0) 0
    if n < Nat.pow 2 63 then some rest else none
  | _ => none

def readInteger? (cs : List Char) : Option (List Char) :=
  let (negative, cs) := readSign cs
  match readPlainDigits cs with
  | some (digits, rest) =>
    let n := Decimal.natOfDigits digits
    if n < Nat.pow 2 63 ∨ (negative ∧ n = Nat.pow 2 63) then some rest else none
  | none => none

/-! ## Times -/

/-- An optional fraction of a second, of any number of digits. -/
def skipFraction : List Char → Option (List Char)
  | '.' :: rest => (readFraction rest).map (·.2)
  | rest => some rest

def readBelow (most : Nat) (cs : List Char) : Option (List Char) :=
  match readExactly 2 cs with
  | some (n, rest) => if n ≤ most then some rest else none
  | none => none

def readClock? (cs : List Char) : Option (List Char) := do
  let cs ← readBelow 23 cs
  let cs ← Time.expect ':' cs
  let cs ← readBelow 59 cs
  let cs ← Time.expect ':' cs
  let cs ← readBelow 60 cs
  skipFraction cs

def readDate? (cs : List Char) : Option (List Char) := do
  let (year, cs) ← readExactly 4 cs
  let cs ← Time.expect '-' cs
  let (month, cs) ← readExactly 2 cs
  let cs ← Time.expect '-' cs
  let (day, cs) ← readExactly 2 cs
  (Time.Date.ofMonthDay? year month day).map fun _ => cs

def readOffset? : List Char → Option (List Char)
  | 'Z' :: rest => some rest
  | 'z' :: rest => some rest
  | sign :: rest =>
    if sign = '+' ∨ sign = '-' then do
      let cs ← readBelow 23 rest
      let cs ← Time.expect ':' cs
      readBelow 59 cs
    else none
  | [] => none

/-- The time behind a date: a mark, a time of day and perhaps an offset. -/
def readTimeOfDate? : List Char → Option (List Char)
  | mark :: rest =>
    if mark = 'T' ∨ mark = 't' ∨ mark = ' ' then
      (readClock? rest).map fun rest => (readOffset? rest).getD rest
    else none
  | [] => none

/-- A date with or without a time, or a time. -/
def readMoment? (cs : List Char) : Option (List Char) :=
  match readDate? cs with
  | some rest => some ((readTimeOfDate? rest).getD rest)
  | none => readClock? cs

end TokenGrammar.Toml
