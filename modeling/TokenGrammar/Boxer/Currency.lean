import TokenGrammar.Boxer.Text

/-!
# Amounts of money

An amount is rounded to the places of its currency, a half away from zero.  Its text
shows the exact value at that many places, a half to the even digit, with the symbol in
front and commas between groups of three digits.
-/

namespace TokenGrammar

/-- A currency: its code, its symbol and the places of its amounts. -/
structure Currency where
  code : String
  symbol : String
  places : Nat
deriving DecidableEq, Repr

namespace Currency

def usd : Currency := ⟨"USD", "$", 2⟩

def eur : Currency := ⟨"EUR", "€", 2⟩

def gbp : Currency := ⟨"GBP", "£", 2⟩

def jpy : Currency := ⟨"JPY", "¥", 0⟩

def maxPlaces : Nat := 65535

/-- Ten to the number of places, the number taken modulo 32 signed bits. -/
def scale (c : Currency) : Binary64 :=
  (Binary64.ofInt 10).powInt (Int.bmod c.places (Nat.pow 2 32))

/-- The amount at the places of the currency, a half away from zero. -/
def round (c : Currency) (amount : Binary64) : Binary64 :=
  ((amount.mul c.scale).round).div c.scale

/-- A run of digits with a comma in front of every group of three but the first. -/
def groupThousands : List Char → List Char
  | [] => []
  | d :: rest =>
    if !rest.isEmpty && rest.length % 3 == 0 then d :: ',' :: groupThousands rest
    else d :: groupThousands rest

/-- The whole and the fractional digits of a magnitude at the places of the currency. -/
def parts (c : Currency) : Binary64 → List Char × List Char
  | .finite x => Decimal.fixedParts x.units c.places
  | .infinite _ => ("inf".toList, [])
  | .nan => ("NaN".toList, [])

/-- The text of an amount.  An amount that rounds to zero has no sign. -/
def formatChars (c : Currency) (amount : Binary64) : List Char :=
  let (whole, fraction) := c.parts amount
  let sign := if amount.isNegativeNonzero && (c.round amount).isNonzero then ['-'] else []
  sign ++ c.symbol.toList ++ groupThousands whole ++
    (if fraction.isEmpty then [] else '.' :: fraction)

def format (c : Currency) (amount : Binary64) : String := String.ofList (c.formatChars amount)

/-- The text of an amount, or a fault where the currency has too many places for one. -/
def formatOrFault (c : Currency) (amount : Binary64) : Except Fault String :=
  if c.places ≤ maxPlaces then .ok (c.format amount) else .error (.tooManyPlaces c.places)

/-- The text without the occurrences of a piece, found from left to right. -/
def removeAll (piece : List Char) : List Char → List Char
  | cs => go cs.length cs
where
  go : Nat → List Char → List Char
    | 0, cs => cs
    | _, [] => []
    | rounds + 1, c :: rest =>
      if !piece.isEmpty && piece.isPrefixOf (c :: rest) then
        go rounds ((c :: rest).drop piece.length)
      else c :: go rounds rest

/-- A typed amount without symbol, code, blanks and commas. -/
def clean (c : Currency) (cs : List Char) : List Char :=
  (removeAll c.code.toList (removeAll c.symbol.toList (Text.trim cs))).filter
    fun ch => !Text.isBlank ch && ch != ','

def amount? (c : Currency) : Json → Option Binary64
  | .str s => (Boxer.typedNumber? (c.clean s.toList)).map fun n => .finite n.toFinite64
  | .num n => some (.finite n.toFinite64)
  | _ => none

/-- The key of a rounded amount: an integer where the currency has no places. -/
def key? (c : Currency) (amount : Binary64) : Option Json :=
  if c.places = 0 then some (.ofInt amount.toInt64)
  else amount.finite?.map fun x => .num (.float x)

end Currency

namespace Boxer

/-- Boxes an amount under its rounded number, with its text and the code as metadata. -/
def boxCurrency (c : Currency) (raw : Json) (_ : List Choice) : Except Fault (Option Choice) :=
  match c.amount? raw with
  | none => .ok none
  | some amount =>
    let rounded := c.round amount
    match c.key? rounded with
    | none => .ok none
    | some key =>
      (c.formatOrFault rounded).map fun label =>
        some { Choice.ofKey key with
          metadata := .obj [("currency", .str c.code)], label := some label }

def currency (c : Currency) : Boxer where
  box := boxCurrency c
  unbox choice := choice.key

end Boxer

end TokenGrammar
