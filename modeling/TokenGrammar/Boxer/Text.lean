import TokenGrammar.Boxer.Basic
import TokenGrammar.Text.Blank

/-!
# Free text and numbers

Text is trimmed and must not be empty; numbers may be typed as text.
-/

namespace TokenGrammar.Boxer

/-- The text of a scalar, trimmed if it was typed. -/
def boxText? (raw : Json) (_ : List Choice) : Option Choice :=
  let text? : Option String := match raw with
    | .str s => some (Text.trimString s)
    | .num n => some (String.ofList n.text)
    | .bool b => some (Json.bool b).compact
    | _ => none
  match text? with
  | some s => if s.isEmpty then none else some (.ofKey (.str s))
  | none => none

def text : Boxer := ofKeyed boxText?

/-- The number of a typed text: an integer of 64 signed bits where it is one, else the
nearest finite binary64 number. -/
def typedNumber? (cs : List Char) : Option Number :=
  let cs := Text.trim cs
  match (Decimal.readInteger? cs).bind WideInt.ofInt? with
  | some i =>
    if i.fitsSigned then some (.int i) else typedFloat? cs
  | none => typedFloat? cs
where
  typedFloat? (cs : List Char) : Option Number :=
    ((Decimal.readBinary64? cs).bind Binary64.finite?).map .float

/-- A number, given as one or typed as text. -/
def number? : Json → Option Number
  | .num n => some n
  | .str s => typedNumber? s.toList
  | _ => none

def boxNumber? (raw : Json) (_ : List Choice) : Option Choice :=
  (number? raw).map fun n => .ofKey (.num n)

def numeric : Boxer := ofKeyed boxNumber?

end TokenGrammar.Boxer
