import TokenGrammar.Text.Ranges

/-!
# Blank characters

A character is blank when it has the Unicode property White_Space.
-/

namespace TokenGrammar.Text

/-- The 25 code points with the property White_Space. -/
def blankRanges : List (Nat × Nat) :=
  [(0x9, 0xD), (0x20, 0x20), (0x85, 0x85), (0xA0, 0xA0), (0x1680, 0x1680), (0x2000, 0x200A),
   (0x2028, 0x2029), (0x202F, 0x202F), (0x205F, 0x205F), (0x3000, 0x3000)]

def isBlank (c : Char) : Bool := inRanges blankRanges c.toNat

def trimStart (cs : List Char) : List Char := cs.dropWhile isBlank

/-- The text without blank characters at either end. -/
def trim (cs : List Char) : List Char := (trimStart (trimStart cs).reverse).reverse

/-- The text without blank characters at either end. -/
def trimString (s : String) : String := String.ofList (trim s.toList)

end TokenGrammar.Text
