import TokenGrammar.Slot.Edit

/-!
# Hydration

When a step becomes active its options are loaded once, and a value that is to be
restored is boxed among them.  If the value has no boxed form there, the options are
searched for its text and it is boxed once more.
-/

namespace TokenGrammar.Slot

abbrev Op := Operation Slot SlotEvent SlotError

def hydrate (hint : String) (context : Context) : Op Unit := fun s =>
  let (refresh, store) := s.store.refresh hint context s.archive
  let s := { s with store }
  match refresh with
  | .ended (.ok _) => ⟨.ok (), s, []⟩
  | .ended (.error reason) => ⟨.error (.failed (.hydration s.name reason)), s, []⟩
  | .waiting _ => ⟨.error .waiting, s, []⟩

/-- Enters a raw value; a boxer that cannot be carried out halts the operation. -/
def enter (raw : Json) : Op (Option Choice) := fun s =>
  match s.setRaw raw with
  | ⟨.ok value?, s, events⟩ => ⟨.ok value?, s, events⟩
  | ⟨.error fault, s, events⟩ => ⟨.error (.fault fault), s, events⟩

/-- Searches the options for the text of a raw value, if it has one and there is a source
to ask, and enters the value once more. -/
def search (raw : Json) (context : Context) : Op Unit := fun s =>
  if (hintText raw).isEmpty || !s.store.hasSource then ⟨.ok (), s, []⟩
  else Operation.run (do
    hydrate (hintText raw) context
    let _ ← enter raw) s

/-- Enters a value to restore, if there is one, and searches for it if it is not among the
options. -/
def restore (context : Context) : Option Json → Op Unit
  | none => pure ()
  | some raw => do
    let value? ← enter raw
    if value?.isNone then search raw context

/-- Loads the options and enters a value to restore. -/
def load (context : Context) (raw? : Option Json) : Op Unit := do
  hydrate "" context
  restore context raw?
  Operation.change ({ · with initialized := true })

/-- Makes the step active.  Nothing happens again until the next reset. -/
def activate (context : Context) (raw? : Option Json) : Op Unit := fun s =>
  if s.initialized then ⟨.ok (), s, []⟩ else (load context raw?).run s

end TokenGrammar.Slot
