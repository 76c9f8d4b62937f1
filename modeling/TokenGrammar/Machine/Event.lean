import TokenGrammar.Json.Basic
import TokenGrammar.Slot.Event

/-!
# Events of a machine

A machine reports its moves, finished tokens and what happens to archives.  A notice is
an event together with its source.
-/

namespace TokenGrammar

/-- The values of a token under their keys, in the order of the path. -/
abbrev Token := Fields

inductive MachineEvent where
  | moved (source target : Nat)
  /-- A step without following ones was entered, which makes the token complete. -/
  | tokenEnded (token : Token)
  | valueArchived (step : Nat)
  | valueUnarchived (step : Nat)
  | archivedRemoved (step index : Nat) (value : Choice)
  | archiveCleared (step : Nat) (values : List Choice)

namespace MachineEvent

def name : MachineEvent → String
  | moved _ _ => "state changed"
  | tokenEnded _ => "end token"
  | valueArchived _ => "value archived"
  | valueUnarchived _ => "value unarchived"
  | archivedRemoved _ _ _ => "archived value removed"
  | archiveCleared _ _ => "archived values removed"

end MachineEvent

/-- An event with its source: a slot by its id, or the machine. -/
inductive Notice where
  | slot (id : Nat) (event : SlotEvent)
  | machine (event : MachineEvent)

end TokenGrammar
