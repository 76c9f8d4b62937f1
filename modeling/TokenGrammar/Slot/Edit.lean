import TokenGrammar.Operation
import TokenGrammar.Slot.Basic
import TokenGrammar.Slot.Event

/-!
# Editing a slot

Every edit first changes the slot and then emits its events, so that an event never meets
a slot that is half changed.  A change of value or preview is an event only if the new
value differs from the old one.
-/

namespace TokenGrammar.Slot

/-- The change from an old value to a new one, unless they are equal. -/
def changeOf (s : Slot) (old new : Option Choice) : List Change :=
  if old == new then [] else [⟨new, old, s.unboxOrNull new, s.unboxOrNull old⟩]

def valueEvents (s : Slot) (old new : Option Choice) : List SlotEvent :=
  (s.changeOf old new).map .valueChanged

def previewEvents (s : Slot) (old new : Option Choice) : List SlotEvent :=
  (s.changeOf old new).map .previewChanged

/-- The event of an archive that lost all of its values. -/
def clearedEvents (values : List Choice) : List SlotEvent :=
  if values.isEmpty then [] else [.archiveCleared values]

/-! ## Value and preview -/

def setValue (s : Slot) (value? : Option Choice) : Outcome Slot SlotEvent Unit :=
  ⟨(), { s with value := value? }, s.valueEvents s.value value?⟩

def setPreview (s : Slot) (preview? : Option Choice) : Outcome Slot SlotEvent Unit :=
  ⟨(), { s with preview := preview? }, s.previewEvents s.preview preview?⟩

/-- Boxes a raw value and makes it the value; answers with that value.  A raw array is
refused by a step that collects its values one by one. -/
def setRaw (s : Slot) (raw : Json) : Outcome Slot SlotEvent (Except Fault (Option Choice)) :=
  let attempted := SlotEvent.rawAttempted raw s.rawValue
  if s.config.multivalue && raw.isArray then ⟨.ok none, s, [attempted]⟩
  else match s.box raw with
    | .error fault => ⟨.error fault, s, [attempted]⟩
    | .ok value? =>
      let ⟨_, s, events⟩ := s.setValue value?
      ⟨.ok value?, s, attempted :: events⟩

def setRawPreview (s : Slot) (raw : Json) : Outcome Slot SlotEvent (Except Fault Unit) :=
  match s.box raw with
  | .error fault => ⟨.error fault, s, []⟩
  | .ok preview? =>
    let ⟨_, s, events⟩ := s.setPreview preview?
    ⟨.ok (), s, events⟩

/-! ## The archive -/

/-- The value that may go into the archive, or the first rule that it breaks. -/
def archivable (s : Slot) : Except SlotError Choice :=
  if !s.config.multivalue then .error (.archive (.notMultivalue s.name))
  else match s.isValid with
    | .error error => .error error
    | .ok false => .error (.archive (.invalidValue s.name s.rawValue.compact))
    | .ok true =>
      match s.config.multivalueLimit with
      | some limit =>
        if limit ≤ s.archive.length then .error (.archive (.limitReached s.name limit))
        else present
      | none => present
where
  present : Except SlotError Choice :=
    match s.value with
    | some value => .ok value
    | none => .error (.archive (.noValue s.name))

/-- Moves the value into the archive and starts with the default value again. -/
def archiveValue (s : Slot) : Outcome Slot SlotEvent (Except SlotError Unit) :=
  match s.archivable with
  | .error error => ⟨.error error, s, []⟩
  | .ok value =>
    ⟨.ok (),
      { s with archive := s.archive ++ [value], value := s.config.default?, preview := none },
      s.valueEvents (some value) s.config.default? ++ s.previewEvents s.preview none ++
        [.valueArchived]⟩

/-- Moves the value archived last back, in place of the present one. -/
def unarchiveValue (s : Slot) : Outcome Slot SlotEvent (Except ArchiveError Unit) :=
  match s.archive.getLast? with
  | none => ⟨.error (.empty s.name), s, []⟩
  | some value =>
    ⟨.ok (), { s with archive := s.archive.dropLast, value := some value },
      s.valueEvents s.value (some value) ++ [.valueUnarchived]⟩

def removeArchived (s : Slot) (index : Nat) :
    Outcome Slot SlotEvent (Except ArchiveError Choice) :=
  match s.archive[index]? with
  | none => ⟨.error (.indexOutOfRange s.name index s.archive.length), s, []⟩
  | some value =>
    ⟨.ok value, { s with archive := s.archive.eraseIdx index }, [.archivedRemoved index value]⟩

def clearArchive (s : Slot) : Outcome Slot SlotEvent (List Choice) :=
  ⟨s.archive, { s with archive := [] }, clearedEvents s.archive⟩

/-- Back to the default value, with no preview, no archive and the initial options. -/
def reset (s : Slot) : Outcome Slot SlotEvent Unit :=
  ⟨(),
    { s with
      value := s.config.default?
      preview := none
      archive := []
      initialized := false
      store := s.store.reset },
    s.valueEvents s.value s.config.default? ++ s.previewEvents s.preview none ++
      clearedEvents s.archive⟩

end TokenGrammar.Slot
