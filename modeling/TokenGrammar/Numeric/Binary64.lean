/-!
# Binary64 numbers in exact arithmetic

A finite number is a sign and a magnitude code, the 63 low bits of its
interchange format.  Its magnitude is a whole number of *units* of `2 ^ (-1074)`,
so every operation here computes with natural numbers and rounds once, to the
nearest number and on a tie to the even code.

The code of `m * 2 ^ k` units, with `m < 2 ^ 53` and `k` as small as possible, is
`k * 2 ^ 52 + m`.  The formula also covers subnormal magnitudes (`k = 0`) and the
carry of a mantissa that rounds up to `2 ^ 53`.
-/

namespace TokenGrammar

namespace Binary64

/-- The least code that is no longer a finite magnitude. -/
def infinityCode : Nat := 0x7FF * Nat.pow 2 52

def unitsPerOne : Nat := Nat.pow 2 1074

def unitsOfCode (code : Nat) : Nat :=
  let shift := code / Nat.pow 2 52 - 1
  (code - shift * Nat.pow 2 52) * Nat.pow 2 shift

/-- The quotient `num / den` rounded to the nearest integer, a half to the even one. -/
def roundHalfEven (num den : Nat) : Nat :=
  let quotient := num / den
  let twice := 2 * (num % den)
  if twice < den then quotient
  else if den < twice then quotient + 1
  else quotient + quotient % 2

/-- The quotient `num / den` rounded to the nearest integer, a half upwards. -/
def roundHalfUp (num den : Nat) : Nat :=
  let quotient := num / den
  if 2 * (num % den) < den then quotient else quotient + 1

/-- The code nearest to the quotient `num / den`, which is not bounded by `infinityCode`. -/
def codeOfRatio (num den : Nat) : Nat :=
  let shift := (num * unitsPerOne / den).log2 - 52
  shift * Nat.pow 2 52 + roundHalfEven (num * unitsPerOne) (den * Nat.pow 2 shift)

end Binary64

/-- A finite binary64 number.  Zero has two forms, told apart by the sign only. -/
structure Finite64 where
  negative : Bool
  code : Nat
  code_lt : code < Binary64.infinityCode
deriving DecidableEq, Repr

namespace Finite64

open Binary64

def units (x : Finite64) : Nat := unitsOfCode x.code

def signedUnits (x : Finite64) : Int :=
  if x.negative then -(x.units : Int) else x.units

def zero : Finite64 := ⟨false, 0, by decide⟩

instance : Inhabited Finite64 := ⟨zero⟩

def abs (x : Finite64) : Finite64 := { x with negative := false }

/-- The form of a number that depends on its value only: zero loses its sign. -/
def canonical (x : Finite64) : Finite64 := if x.code = 0 then zero else x

/-- Comparison by value, so the two zeros are equal. -/
def le (x y : Finite64) : Bool := decide (x.signedUnits ≤ y.signedUnits)

end Finite64

/-- A binary64 number: finite, infinite or not a number. -/
inductive Binary64 where
  | finite (x : Finite64)
  | infinite (negative : Bool)
  | nan
deriving DecidableEq, Repr

namespace Binary64

instance : Inhabited Binary64 := ⟨.nan⟩

/-- The number with this sign and code; codes past the last finite one mean infinity. -/
def ofCode (negative : Bool) (code : Nat) : Binary64 :=
  if h : code < infinityCode then .finite ⟨negative, code, h⟩ else .infinite negative

/-- The number nearest to `num / den`, with the given sign. -/
def ofRatio (negative : Bool) (num den : Nat) : Binary64 :=
  ofCode negative (codeOfRatio num den)

def ofInt (i : Int) : Binary64 := ofRatio (decide (i < 0)) i.natAbs 1

def zero : Binary64 := .finite .zero

def one : Binary64 := ofInt 1

/-- Comparison by value.  What is not a number compares with nothing. -/
def le : Binary64 → Binary64 → Bool
  | .finite x, .finite y => x.le y
  | .infinite negative, .finite _ => negative
  | .finite _, .infinite negative => !negative
  | .infinite negative, .infinite negative' => negative || !negative'
  | _, _ => false

def finite? : Binary64 → Option Finite64
  | .finite x => some x
  | _ => none

def isNegativeNonzero : Binary64 → Bool
  | .finite x => x.negative && x.code != 0
  | .infinite negative => negative
  | .nan => false

/-- Whether the number differs from zero.  What is not a number does. -/
def isNonzero : Binary64 → Bool
  | .finite x => x.code != 0
  | _ => true

def abs : Binary64 → Binary64
  | .finite x => .finite x.abs
  | .infinite _ => .infinite false
  | .nan => .nan

def mul : Binary64 → Binary64 → Binary64
  | .finite x, .finite y =>
    ofRatio (x.negative != y.negative) (x.units * y.units) (unitsPerOne * unitsPerOne)
  | .finite x, .infinite n | .infinite n, .finite x =>
    if x.code = 0 then .nan else .infinite (x.negative != n)
  | .infinite n, .infinite n' => .infinite (n != n')
  | _, _ => .nan

def div : Binary64 → Binary64 → Binary64
  | .finite x, .finite y =>
    if y.code = 0 then
      if x.code = 0 then .nan else .infinite (x.negative != y.negative)
    else ofRatio (x.negative != y.negative) x.units y.units
  | .finite x, .infinite n => .finite (zero (x.negative != n))
  | .infinite n, .finite x => .infinite (n != x.negative)
  | _, _ => .nan
where
  zero (negative : Bool) : Finite64 := ⟨negative, 0, by decide⟩

/-- The nearest integral number, a half away from zero.  The sign is kept. -/
def round : Binary64 → Binary64
  | .finite x => ofRatio x.negative (roundHalfUp x.units unitsPerOne) 1
  | x => x

/-- Raises `base` to a natural power by repeated squaring, the low bits of the power first.
Each product is rounded, so the order of the products is part of the result. -/
def powNat (base : Binary64) (power : Nat) : Binary64 :=
  go 64 base power one
where
  go : Nat → Binary64 → Nat → Binary64 → Binary64
    | 0, _, _, acc => acc
    | rounds + 1, square, rest, acc =>
      let acc := if rest % 2 = 1 then acc.mul square else acc
      if rest / 2 = 0 then acc else go rounds (square.mul square) (rest / 2) acc

/-- Raises `base` to an integral power; a negative power is the reciprocal of the positive
one. -/
def powInt (base : Binary64) (power : Int) : Binary64 :=
  let positive := base.powNat power.natAbs
  if power < 0 then one.div positive else positive

/-- The integer part, clamped to 64 signed bits; zero for what is not a number. -/
def toInt64 : Binary64 → Int
  | .finite x =>
    let whole : Int := (x.units / unitsPerOne : Nat)
    max (-Int.pow 2 63) (min (Int.pow 2 63 - 1) (if x.negative then -whole else whole))
  | .infinite negative => if negative then -Int.pow 2 63 else Int.pow 2 63 - 1
  | .nan => 0

end Binary64

end TokenGrammar
