import TokenGrammar.Text.Blank
import TokenGrammar.Time.Digits

/-!
# Offsets from universal time

An offset is a sign, two digits for hours and two for minutes.  The text of an instant is
always in universal time, so its offset is zero.
-/

namespace TokenGrammar.Time

/-- The sign that typesetters use for minus. -/
def minusSign : Char := Char.ofNat 0x2212

/-- Whether a sign in front of an offset means west. -/
def readWest : List Char → Option (Bool × List Char)
  | [] => none
  | c :: rest =>
    if c = '+' then some (false, rest)
    else if c = '-' ∨ c = minusSign then some (true, rest)
    else none

def offsetSeconds (west : Bool) (hours minutes : Nat) : Int :=
  let seconds : Int := hours * 3600 + minutes * 60
  if west then -seconds else seconds

inductive OffsetStyle where
  | bare
  | colon
  | seconds
  | hours
deriving DecidableEq, Repr

def OffsetStyle.zero : OffsetStyle → List Char
  | bare => "+0000".toList
  | colon => "+00:00".toList
  | seconds => "+00:00:00".toList
  | hours => "+00".toList

/-- The minutes of an offset; where they may be left out, nothing stands for none. -/
def readOffsetMinutes (optional : Bool) : List Char → Option (Nat × List Char)
  | [] => if optional then some (0, []) else none
  | cs => (readExactly 2 cs).bind fun (minutes, rest) =>
    if minutes < 60 then some (minutes, rest) else none

/-- An offset with any hours up to 99, and colons and blanks in any number in front of the
minutes.  With `zulu` the letter Z stands for none; with `short` the minutes may be left
out. -/
def readFreeOffset (zulu short : Bool) (cs : List Char) : Option (Int × List Char) :=
  match zulu, cs with
  | true, 'Z' :: rest | true, 'z' :: rest => some (0, rest)
  | _, cs => do
    let (west, cs) ← readWest cs
    let (hours, cs) ← readExactly 2 cs
    let cs := cs.dropWhile fun c => c = ':' || Text.isBlank c
    let (minutes, cs) ← readOffsetMinutes short cs
    pure (offsetSeconds west hours minutes, cs)

end TokenGrammar.Time
