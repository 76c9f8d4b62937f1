/-!
# Ranges of code points

Character properties are tables of closed ranges, ascending and apart; ASCII alone needs no
table.
-/

namespace TokenGrammar.Text

/-- Whether a code point lies in one of the closed ranges. -/
def inRanges (ranges : List (Nat × Nat)) (codePoint : Nat) : Bool :=
  ranges.any fun r => r.1 ≤ codePoint && codePoint ≤ r.2

/-- Whether the UTF-8 form of a character is a single byte. -/
def isAscii (c : Char) : Bool := decide (c.toNat < 128)

end TokenGrammar.Text
