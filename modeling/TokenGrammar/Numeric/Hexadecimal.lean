import TokenGrammar.Numeric.Decimal

/-!
# Hexadecimal numbers

Escapes in JSON, in TOML and in patterns give a character by its number, written with a fixed
number of hexadecimal digits.  Small and capital letters count alike.
-/

namespace TokenGrammar.Hexadecimal

def digitValue? (c : Char) : Option Nat :=
  match Decimal.digitValue? c with
  | some d => some d
  | none =>
    if 'a'.toNat ≤ c.toNat ∧ c.toNat ≤ 'f'.toNat then some (c.toNat - 'a'.toNat + 10)
    else if 'A'.toNat ≤ c.toNat ∧ c.toNat ≤ 'F'.toNat then some (c.toNat - 'A'.toNat + 10)
    else none

/-- A number of exactly `width` digits, and the text that is left. -/
def readExactly (width : Nat) (cs : List Char) : Option (Nat × List Char) :=
  let digits := cs.take width
  if digits.length = width then
    (digits.mapM digitValue?).map fun values =>
      (values.foldl (fun n d => 16 * n + d) 0, cs.drop width)
  else none

end TokenGrammar.Hexadecimal
