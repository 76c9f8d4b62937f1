/-!
# Errors of a slot

An archive refuses what breaks its rules; that is an error of the input.  A validator
that fails and options that cannot be fetched are errors of the grammar.
-/

namespace TokenGrammar

/-- Why an archive refused an operation.  Every error names the step. -/
inductive ArchiveError where
  | notMultivalue (step : String)
  /-- The value, as text, that the validator refused. -/
  | invalidValue (step value : String)
  | noValue (step : String)
  | limitReached (step : String) (limit : Nat)
  | empty (step : String)
  | indexOutOfRange (step : String) (index size : Nat)
deriving DecidableEq, Repr

namespace ArchiveError

def message : ArchiveError → String
  | notMultivalue step => "state '" ++ step ++ "' does not accept multiple values"
  | invalidValue step value =>
    "cannot archive invalid value " ++ value ++ " of state '" ++ step ++ "'"
  | noValue step => "state '" ++ step ++ "' has no value to archive"
  | limitReached step limit =>
    "archive of state '" ++ step ++ "' is full (" ++ toString limit ++ " values)"
  | empty step => "archive of state '" ++ step ++ "' is empty"
  | indexOutOfRange step index size =>
    "archived value index " ++ toString index ++ " is out of range for state '" ++ step ++ "' (" ++
      toString size ++ " values)"

end ArchiveError

inductive SlotError where
  | archive (error : ArchiveError)
  /-- The validator of a step failed for a reason. -/
  | validator (step reason : String)
  /-- The options of a step could not be fetched for a reason. -/
  | hydration (step reason : String)
deriving DecidableEq, Repr

namespace SlotError

def message : SlotError → String
  | archive error => error.message
  | validator step _ => "validator of state '" ++ step ++ "' failed"
  | hydration step _ => "failed to hydrate state '" ++ step ++ "'"

end SlotError

end TokenGrammar
