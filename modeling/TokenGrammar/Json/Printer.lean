import TokenGrammar.Json.Basic
import TokenGrammar.Numeric.Decimal

/-!
# JSON text

The compact text of a value has no spaces; the indented one has two spaces a level.
Strings escape the quote, the backslash and the characters below U+0020 only.
-/

namespace TokenGrammar

namespace Number

/-- The text of a number: plain decimal for integers, the shortest digits for others. -/
def text : Number → List Char
  | .int i => Decimal.intText i.value
  | .float x => Decimal.finiteText x

end Number

namespace Json

def hexDigit (n : Nat) : Char :=
  if n < 10 then Char.ofNat ('0'.toNat + n) else Char.ofNat ('a'.toNat + (n - 10))

def escapeChar (c : Char) : List Char :=
  if c = '"' then ['\\', '"']
  else if c = '\\' then ['\\', '\\']
  else if c.toNat = 8 then ['\\', 'b']
  else if c.toNat = 9 then ['\\', 't']
  else if c.toNat = 10 then ['\\', 'n']
  else if c.toNat = 12 then ['\\', 'f']
  else if c.toNat = 13 then ['\\', 'r']
  else if c.toNat < 32 then ['\\', 'u', '0', '0', hexDigit (c.toNat / 16), hexDigit (c.toNat % 16)]
  else [c]

def quote (s : String) : List Char := '"' :: s.toList.flatMap escapeChar ++ ['"']

mutual

def text : Json → List Char
  | .null => "null".toList
  | .bool true => "true".toList
  | .bool false => "false".toList
  | .num n => n.text
  | .str s => quote s
  | .arr [] => ['[', ']']
  | .arr (item :: items) => '[' :: (text item ++ textItems items)
  | .obj [] => ['\x7b', '\x7d']
  | .obj ((key, value) :: fields) =>
    '\x7b' :: (quote key ++ ':' :: (text value ++ textFields fields))

/-- The items after the first one, and the closing bracket. -/
def textItems : List Json → List Char
  | [] => [']']
  | item :: items => ',' :: (text item ++ textItems items)

/-- The fields after the first one, and the closing brace. -/
def textFields : List (String × Json) → List Char
  | [] => ['\x7d']
  | (key, value) :: fields => ',' :: (quote key ++ ':' :: (text value ++ textFields fields))

end

def compact (j : Json) : String := String.ofList j.text

def newLine (depth : Nat) : List Char := '\n' :: List.replicate (2 * depth) ' '

mutual

/-- The indented text of a value that starts at the given depth. -/
def indentedText (depth : Nat) : Json → List Char
  | .arr (item :: items) =>
    '[' :: (newLine (depth + 1) ++ indentedText (depth + 1) item ++ indentedItems depth items)
  | .obj ((key, value) :: fields) =>
    '\x7b' :: (newLine (depth + 1) ++ quote key ++ ':' :: ' ' :: indentedText (depth + 1) value ++
      indentedFields depth fields)
  | .null => text .null
  | .bool b => text (.bool b)
  | .num n => text (.num n)
  | .str s => text (.str s)
  | .arr [] => text (.arr [])
  | .obj [] => text (.obj [])

def indentedItems (depth : Nat) : List Json → List Char
  | [] => newLine depth ++ [']']
  | item :: items =>
    ',' :: (newLine (depth + 1) ++ indentedText (depth + 1) item ++ indentedItems depth items)

def indentedFields (depth : Nat) : List (String × Json) → List Char
  | [] => newLine depth ++ ['\x7d']
  | (key, value) :: fields =>
    ',' :: (newLine (depth + 1) ++ quote key ++ ':' :: ' ' :: indentedText (depth + 1) value ++
      indentedFields depth fields)

end

def indented (j : Json) : String := String.ofList (indentedText 0 j)

end Json

end TokenGrammar
