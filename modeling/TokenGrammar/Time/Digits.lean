import TokenGrammar.Numeric.Decimal
import TokenGrammar.Text.Blank

/-!
# Numbers in dates

Numbers in dates are runs of digits of a limited length, written with zeros or blanks in
front.  Each reader answers with a value and the text that is left.
-/

namespace TokenGrammar.Time

/-- A number of at least one and at most `width` digits. -/
def readUpTo (width : Nat) (cs : List Char) : Option (Nat × List Char) :=
  let digits := (cs.take width).takeWhile Decimal.isDigit
  if digits.isEmpty then none
  else some (Decimal.natOfDigits digits, cs.drop digits.length)

/-- The greatest number that a run of digits may stand for. -/
def greatestNumber : Nat := Nat.pow 2 63 - 1

def readAny (cs : List Char) : Option (Nat × List Char) :=
  let digits := cs.takeWhile Decimal.isDigit
  let n := Decimal.natOfDigits digits
  if digits.isEmpty ∨ greatestNumber < n then none
  else some (n, cs.dropWhile Decimal.isDigit)

def readExactly (width : Nat) (cs : List Char) : Option (Nat × List Char) :=
  let digits := cs.take width
  if digits.length = width ∧ digits.all Decimal.isDigit then
    some (Decimal.natOfDigits digits, cs.drop width)
  else none

/-- A fraction of a second in nanoseconds; digits behind the ninth do not count. -/
def readFraction (cs : List Char) : Option (Nat × List Char) :=
  let digits := cs.takeWhile Decimal.isDigit
  if digits.isEmpty then none
  else
    let shown := digits.take 9
    some (Decimal.natOfDigits shown * Nat.pow 10 (9 - shown.length), cs.dropWhile Decimal.isDigit)

def expect (expected : Char) : List Char → Option (List Char)
  | c :: rest => if c = expected then some rest else none
  | [] => none

def twoDigits (n : Nat) : List Char := Decimal.padLeft '0' 2 (Decimal.natText n)

/-- A year: four digits, or a sign and at least four digits outside of 0 to 9999. -/
def yearText (year : Int) : List Char :=
  let digits := Decimal.padLeft '0' 4 (Decimal.natText year.natAbs)
  if year < 0 then '-' :: digits
  else if 9999 < year then '+' :: digits
  else digits

end TokenGrammar.Time
