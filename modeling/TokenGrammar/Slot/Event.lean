import TokenGrammar.Choice

/-!
# Events of a slot

A slot reports what happened to its value, its preview and its archive.  A change of
value carries both values with their raw forms.
-/

namespace TokenGrammar

structure Change where
  new : Option Choice
  old : Option Choice
  newRaw : Json
  oldRaw : Json

inductive SlotEvent where
  | valueChanged (change : Change)
  | previewChanged (change : Change)
  | valueArchived
  | valueUnarchived
  /-- A raw value was entered, whether or not it changed anything. -/
  | rawAttempted (newRaw oldRaw : Json)
  | archivedRemoved (index : Nat) (value : Choice)
  | archiveCleared (values : List Choice)

namespace SlotEvent

def name : SlotEvent → String
  | valueChanged _ => "value changed"
  | previewChanged _ => "preview value changed"
  | valueArchived => "value archived"
  | valueUnarchived => "value unarchived"
  | rawAttempted _ _ => "unboxed value change attempted"
  | archivedRemoved _ _ => "archived value removed"
  | archiveCleared _ => "archived values removed"

end SlotEvent

end TokenGrammar
