/-!
# Faults

A fault ends an operation that cannot be carried out at all, because the grammar or the
caller asks for something without a meaning.  It is not an error of the input.
-/

namespace TokenGrammar

/-- Why an operation could not be carried out at all. -/
inductive Fault where
  /-- A date-time pattern has a directive without a meaning. -/
  | unrenderable (pattern : String)
  /-- An amount has more places than can be written. -/
  | tooManyPlaces (places : Nat)
  /-- A text was to be cut at a position within a character. -/
  | splitCharacter (position : Nat)
  /-- No step of the tree has this id. -/
  | noSuchStep (id : Nat)
deriving DecidableEq, Repr

end TokenGrammar
