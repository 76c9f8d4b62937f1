import TokenGrammar.Json.Printer
import TokenGrammar.Slot.Error

/-!
# Errors of a machine

A refused move and a refused archive operation are errors of the input, from which a user
can recover.  All other errors lie with the grammar or with the token to restore.
-/

namespace TokenGrammar

inductive MachineError where
  | slot (error : SlotError)
  /-- The step may not be left with its present value. -/
  | invalidState (step : String) (value : Json)
  /-- No following step may be entered with the present value. -/
  | noMatchingChild (step : String) (value : Json)
  /-- A value to restore has no boxed form. -/
  | unboxable (vkey : String) (value : Json)
  /-- Values to restore whose steps were not reached. -/
  | unmatchedValues (keys : List String)

namespace MachineError

def message : MachineError → String
  | slot error => error.message
  | invalidState step value => "state '" ++ step ++ "' is invalid with value " ++ value.compact
  | noMatchingChild step value =>
    "no child of state '" ++ step ++ "' accepts value " ++ value.compact
  | unboxable vkey value => "value " ++ value.compact ++ " for '" ++ vkey ++ "' has no boxed form"
  | unmatchedValues keys => "values left unbound: " ++ ", ".intercalate keys

def isRecoverable : MachineError → Bool
  | slot (.archive _) | invalidState _ _ | noMatchingChild _ _ => true
  | _ => false

end MachineError

end TokenGrammar
