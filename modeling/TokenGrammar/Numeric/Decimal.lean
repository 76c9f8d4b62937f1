import TokenGrammar.Numeric.Binary64

/-!
# Decimal text of numbers

Reading a decimal gives the nearest binary64 number.  Writing one selects the
fewest digits that read back to it, and among those the nearest to it; the layout
of the selected digits is fixed by `positionalExponents`.  A fixed number of places
rounds the exact value, a half to the even digit.
-/

namespace TokenGrammar

/-- The decimal `digits * 10 ^ exponent`. -/
structure Decimal where
  digits : Nat
  exponent : Int
deriving DecidableEq, Repr

namespace Decimal

def digitChar (digit : Nat) : Char := Char.ofNat ('0'.toNat + digit)

def digitValue? (c : Char) : Option Nat :=
  if '0'.toNat ≤ c.toNat ∧ c.toNat ≤ '9'.toNat then some (c.toNat - '0'.toNat) else none

def isDigit (c : Char) : Bool := (digitValue? c).isSome

/-- The decimal digits of a natural number, most significant first, in front of `acc`.
As many rounds as the number has bits are more than it has digits. -/
def natDigitsOnto : Nat → Nat → List Char → List Char
  | 0, _, acc => acc
  | rounds + 1, n, acc =>
    if n < 10 then digitChar n :: acc
    else natDigitsOnto rounds (n / 10) (digitChar (n % 10) :: acc)

def natText (n : Nat) : List Char := natDigitsOnto (n.log2 + 1) n []

def intText (i : Int) : List Char :=
  if i < 0 then '-' :: natText i.natAbs else natText i.natAbs

/-- The value of a run of digits; other characters are skipped. -/
def natOfDigits (cs : List Char) : Nat :=
  cs.foldl (fun n c => match digitValue? c with | some d => 10 * n + d | none => n) 0

/-- The text with copies of a character in front, up to a width. -/
def padLeft (c : Char) (width : Nat) (cs : List Char) : List Char :=
  List.replicate (width - cs.length) c ++ cs

/-- The number nearest to a decimal magnitude.  A value of at least `10 ^ 310` is infinite
and one below `10 ^ (-330)` is zero, so no power of ten beyond these is ever computed. -/
def toBinary64 (negative : Bool) (d : Decimal) : Binary64 :=
  let place : Int := (natText d.digits).length + d.exponent
  if d.digits = 0 ∨ place ≤ -330 then Binary64.ofCode negative 0
  else if 310 < place then .infinite negative
  else Binary64.ofRatio negative (d.digits * Nat.pow 10 d.exponent.toNat)
    (Nat.pow 10 (-d.exponent).toNat)

/-- Whether the decimal, read as a magnitude, gives the number with this code. -/
def readsBack (d : Decimal) (code : Nat) : Bool :=
  d.toBinary64 false == Binary64.ofCode false code

/-- The decimal without trailing zeros.  There are at most as many as digits. -/
def stripZeros (d : Decimal) : Decimal := go (natText d.digits).length d
where
  go : Nat → Decimal → Decimal
    | 0, d => d
    | rounds + 1, d =>
      if d.digits % 10 = 0 ∧ d.digits ≠ 0 then go rounds ⟨d.digits / 10, d.exponent + 1⟩ else d

def exact (code : Nat) : Decimal := ⟨Binary64.unitsOfCode code * Nat.pow 5 1074, -1074⟩

/-- The least `k` with the magnitude of `code` below `10 ^ k`, for a magnitude above zero. -/
def scale (code : Nat) : Int :=
  ((natText (Binary64.unitsOfCode code * Nat.pow 10 400 / Binary64.unitsPerOne)).length : Int) - 400

/-- The decimal with `places` digits that reads back to `code`, if there is one: of the
two neighbours of the magnitude on that grid the nearer, on a tie the even one. -/
def onGrid? (code places : Nat) : Option Decimal :=
  let exponent : Int := scale code - places
  let num := Binary64.unitsOfCode code * Nat.pow 10 (-exponent).toNat
  let den := Binary64.unitsPerOne * Nat.pow 10 exponent.toNat
  let below : Decimal := ⟨num / den, exponent⟩
  let above : Decimal := ⟨num / den + 1, exponent⟩
  let nearest : Decimal := ⟨Binary64.roundHalfEven num den, exponent⟩
  match below.readsBack code, above.readsBack code with
  | true, true => some nearest
  | true, false => some below
  | false, true => some above
  | false, false => none

/-- The shortest decimal that reads back to the magnitude of `code`.  Seventeen digits
always suffice; the exact value would stand in for them. -/
def shortest (code : Nat) : Decimal :=
  (((List.range 17).findSome? fun n => onGrid? code (n + 1)).getD (exact code)).stripZeros

/-- Decimal exponents of the leading digit that are written positionally. -/
def positionalExponents (e : Int) : Bool := decide (-5 ≤ e ∧ e ≤ 15)

/-- The text of a decimal without trailing zeros: positional with at least one
fractional digit, or one digit in front of the point and a signed exponent. -/
def layout (d : Decimal) : List Char :=
  let digits := natText d.digits
  let point : Int := digits.length + d.exponent
  let lead := point - 1
  if positionalExponents lead then
    if 0 ≤ d.exponent then digits ++ List.replicate d.exponent.toNat '0' ++ ['.', '0']
    else if 0 < point then digits.take point.toNat ++ '.' :: digits.drop point.toNat
    else ['0', '.'] ++ List.replicate (-point).toNat '0' ++ digits
  else
    let fraction := digits.drop 1
    digits.take 1 ++ (if fraction.isEmpty then [] else '.' :: fraction) ++
      'e' :: (if lead < 0 then '-' else '+') :: natText lead.natAbs

/-- The text of a finite number: the shortest digits that read back to it. -/
def finiteText (x : Finite64) : List Char :=
  let magnitude := if x.code = 0 then ['0', '.', '0'] else layout (shortest x.code)
  if x.negative then '-' :: magnitude else magnitude

/-- The whole and the fractional digits of a magnitude at a fixed number of places. -/
def fixedParts (units places : Nat) : List Char × List Char :=
  let digits := padLeft '0' (places + 1)
    (natText (Binary64.roundHalfEven (units * Nat.pow 10 places) Binary64.unitsPerOne))
  (digits.take (digits.length - places), digits.drop (digits.length - places))

/-! ## Reading numerals -/

/-- The integer written as an optional sign and ASCII digits. -/
def readInteger? (cs : List Char) : Option Int :=
  match cs with
  | '-' :: ds => (unsigned? ds).map fun n => -(n : Int)
  | '+' :: ds => (unsigned? ds).map fun n => (n : Int)
  | ds => (unsigned? ds).map fun n => (n : Int)
where
  unsigned? (ds : List Char) : Option Nat :=
    if !ds.isEmpty && ds.all isDigit then some (natOfDigits ds) else none

/-- The decimal written as digits with an optional point and an optional exponent.
There is a digit before or after the point, and the exponent has digits. -/
def readDecimal? (cs : List Char) : Option Decimal :=
  let whole := cs.takeWhile isDigit
  let afterWhole := cs.dropWhile isDigit
  let (fraction, rest) := match afterWhole with
    | '.' :: ds => (ds.takeWhile isDigit, ds.dropWhile isDigit)
    | ds => ([], ds)
  if whole.isEmpty && fraction.isEmpty then none
  else
    let digits := natOfDigits (whole ++ fraction)
    match rest with
    | [] => some ⟨digits, -fraction.length⟩
    | e :: power =>
      if e = 'e' ∨ e = 'E' then
        (readInteger? power).map fun p => ⟨digits, p - fraction.length⟩
      else none

/-- The number written as a decimal, `inf`, `infinity` or `nan` in any case, each with an
optional sign. -/
def readBinary64? (cs : List Char) : Option Binary64 :=
  match cs with
  | '-' :: ds => magnitude? true ds
  | '+' :: ds => magnitude? false ds
  | ds => magnitude? false ds
where
  magnitude? (negative : Bool) (ds : List Char) : Option Binary64 :=
    let word := String.ofList (ds.map Char.toLower)
    if word = "inf" ∨ word = "infinity" then some (.infinite negative)
    else if word = "nan" then some .nan
    else (readDecimal? ds).map (toBinary64 negative)

end Decimal

end TokenGrammar
