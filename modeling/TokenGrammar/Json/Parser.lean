import TokenGrammar.Json.Basic
import TokenGrammar.Numeric.Decimal
import TokenGrammar.Numeric.Hexadecimal

/-!
# JSON text

A number without a fraction or an exponent is an integer where 64 bits hold it, and the
nearest binary64 number otherwise; a number too large for that is refused.  A key that
occurs twice keeps its first place and its last value.  Each reader answers with a value
and the text that is left.
-/

namespace TokenGrammar.Json

def isSpace (c : Char) : Bool := c = ' ' || c = '\t' || c = '\n' || c = '\r'

def skipSpace (cs : List Char) : List Char := cs.dropWhile isSpace

/-- A character given by its number after `\u`, two numbers for one beyond the first plane. -/
def readUnicode (cs : List Char) : Option (Char × List Char) := do
  let (high, rest) ← Hexadecimal.readExactly 4 cs
  if 0xD800 ≤ high ∧ high < 0xDC00 then
    match rest with
    | '\\' :: 'u' :: rest =>
      let (low, rest) ← Hexadecimal.readExactly 4 rest
      if 0xDC00 ≤ low ∧ low < 0xE000 then
        pure (Char.ofNat (0x10000 + (high - 0xD800) * 0x400 + (low - 0xDC00)), rest)
      else none
    | _ => none
  else if 0xDC00 ≤ high ∧ high < 0xE000 then none
  else pure (Char.ofNat high, rest)

def readEscape : List Char → Option (Char × List Char)
  | '"' :: rest => some ('"', rest)
  | '\\' :: rest => some ('\\', rest)
  | '/' :: rest => some ('/', rest)
  | 'b' :: rest => some (Char.ofNat 8, rest)
  | 'f' :: rest => some (Char.ofNat 12, rest)
  | 'n' :: rest => some ('\n', rest)
  | 'r' :: rest => some ('\r', rest)
  | 't' :: rest => some ('\t', rest)
  | 'u' :: rest => readUnicode rest
  | _ => none

/-- The characters up to the closing quote. -/
def readChars : Nat → List Char → List Char → Option (String × List Char)
  | 0, _, _ => none
  | _, [], _ => none
  | rounds + 1, c :: rest, acc =>
    if c = '"' then some (String.ofList acc.reverse, rest)
    else if c = '\\' then
      match readEscape rest with
      | some (c, rest) => readChars rounds rest (c :: acc)
      | none => none
    else if c.toNat < 32 then none
    else readChars rounds rest (c :: acc)

/-- A string whose opening quote has been read and that has fewer characters than `rounds`. -/
def readString (rounds : Nat) (cs : List Char) : Option (String × List Char) :=
  readChars rounds cs []

/-- Whether a run of digits is an integer part: no zero in front of other digits. -/
def isIntegerPart : List Char → Bool
  | [] => false
  | '0' :: rest => rest.isEmpty
  | _ => true

def readNumber (cs : List Char) : Option (Number × List Char) := do
  let (negative, digits) := match cs with
    | '-' :: rest => (true, rest)
    | rest => (false, rest)
  let whole := digits.takeWhile Decimal.isDigit
  let rest := digits.dropWhile Decimal.isDigit
  if !isIntegerPart whole then none
  else
    let (fraction?, rest) := match rest with
      | '.' :: rest => (some (rest.takeWhile Decimal.isDigit), rest.dropWhile Decimal.isDigit)
      | rest => (none, rest)
    let (power?, rest) ← match rest with
      | e :: rest =>
        if e = 'e' ∨ e = 'E' then
          let (sign, rest) := match rest with
            | '-' :: rest => (['-'], rest)
            | '+' :: rest => ([], rest)
            | rest => ([], rest)
          let power := rest.takeWhile Decimal.isDigit
          if power.isEmpty then none
          else some (Decimal.readInteger? (sign ++ power), rest.dropWhile Decimal.isDigit)
        else some (none, e :: rest)
      | [] => some (none, [])
    if fraction? = some [] then none
    else
      let fraction := fraction?.getD []
      let decimal : Decimal :=
        ⟨Decimal.natOfDigits (whole ++ fraction), power?.getD 0 - fraction.length⟩
      let asFloat := (decimal.toBinary64 negative).finite?.map Number.float
      if fraction?.isSome || power?.isSome then asFloat.map (·, rest)
      else
        let magnitude : Int := Decimal.natOfDigits whole
        let i := if negative then -magnitude else magnitude
        if negative && i == 0 then asFloat.map (·, rest)
        else match WideInt.ofInt? i with
          | some w => some (.int w, rest)
          | none => asFloat.map (·, rest)

mutual

/-- A value.  No character takes more than two rounds, so twice the length of the text is
enough of them. -/
def readValue : Nat → List Char → Option (Json × List Char)
  | 0, _ => none
  | rounds + 1, cs =>
    match skipSpace cs with
    | '"' :: rest => (readString rounds rest).map fun (s, rest) => (.str s, rest)
    | '[' :: rest =>
      match skipSpace rest with
      | ']' :: rest => some (.arr [], rest)
      | rest => readItems rounds rest []
    | '\x7b' :: rest =>
      match skipSpace rest with
      | '\x7d' :: rest => some (.obj [], rest)
      | rest => readFields rounds rest []
    | 't' :: rest => ("rue".toList.isPrefixOf? rest).map (.bool true, ·)
    | 'f' :: rest => ("alse".toList.isPrefixOf? rest).map (.bool false, ·)
    | 'n' :: rest => ("ull".toList.isPrefixOf? rest).map (.null, ·)
    | cs => (readNumber cs).map fun (n, rest) => (.num n, rest)

/-- The items of an array, the ones read so far in reverse. -/
def readItems : Nat → List Char → List Json → Option (Json × List Char)
  | 0, _, _ => none
  | rounds + 1, cs, acc =>
    match readValue rounds cs with
    | none => none
    | some (item, rest) =>
      match skipSpace rest with
      | ',' :: rest => readItems rounds rest (item :: acc)
      | ']' :: rest => some (.arr (item :: acc).reverse, rest)
      | _ => none

/-- The fields of an object behind those read so far. -/
def readFields : Nat → List Char → Fields → Option (Json × List Char)
  | 0, _, _ => none
  | rounds + 1, cs, acc =>
    match skipSpace cs with
    | '"' :: rest =>
      match readString rounds rest with
      | none => none
      | some (key, rest) =>
        match skipSpace rest with
        | ':' :: rest =>
          match readValue rounds rest with
          | none => none
          | some (value, rest) =>
            match skipSpace rest with
            | ',' :: rest => readFields rounds rest (acc.set key value)
            | '\x7d' :: rest => some (.obj (acc.set key value), rest)
            | _ => none
        | _ => none
    | _ => none

end

def parse? (s : String) : Option Json :=
  let cs := s.toList
  match readValue (2 * cs.length + 2) cs with
  | some (j, rest) => if (skipSpace rest).isEmpty then some j else none
  | none => none

end TokenGrammar.Json
