import TokenGrammar.Machine.Error
import TokenGrammar.Machine.Event
import TokenGrammar.Slot.Hydration
import TokenGrammar.Tree

/-!
# Machines

A machine builds one token: it has a tree of slots and stands on one of them.  It moves
on to the first following step that accepts the present value, if that value is valid,
and back to the step before.  What is entered on a step stays there when it is left.
-/

namespace TokenGrammar

/-- A token under construction. -/
structure Machine where
  tree : Tree
  /-- The id of the active step. -/
  current : Nat
  /-- A failed restoration resets the machine. -/
  resetOnBindFailure : Bool

namespace Machine

def new (template : Template) (resetOnBindFailure : Bool) : Machine :=
  ⟨Tree.ofTemplate template, Tree.root, resetOnBindFailure⟩

abbrev Op := Operation Machine Notice MachineError

def currentSlot (m : Machine) : Slot := m.tree.slot m.current

def isTerminal (m : Machine) : Bool := m.currentSlot.isTerminal

/-! ## Output -/

/-- What a slot puts into a token: all of its values where it collects them, else its
value or null. -/
def entryOf (project : Slot → Choice → Json) (slot : Slot) : Json :=
  if slot.config.multivalue then
    .arr ((slot.archive ++ slot.value.toList).map (project slot))
  else match slot.value with
    | some value => project slot value
    | none => .null

/-- The token of the path to the active step.  Of two steps with one key the later one
gives the value and the first one the place. -/
def collect (m : Machine) (project : Slot → Choice → Json) : Token :=
  (m.tree.pathTo m.current).foldl (fun token id =>
    let slot := m.tree.slot id
    match slot.node.vkey with
    | some vkey => token.set vkey (entryOf project slot)
    | none => token) []

/-- The token so far, its values as projections of choices. -/
def boxedToken (m : Machine) : Token := m.collect fun _ value => value.toJson

/-- The token so far, its values in raw form. -/
def rawToken (m : Machine) : Token := m.collect Slot.unbox

/-! ## Acting on the active slot -/

/-- Carries an outcome of the active slot over to the machine. -/
def withSlot {α : Type} (m : Machine) (outcome : Outcome Slot SlotEvent α) :
    Outcome Machine Notice α :=
  ⟨outcome.answer, { m with tree := m.tree.set m.current outcome.state },
    outcome.events.map (.slot m.current)⟩

/-- An action on the active slot, its failures taken over by the machine. -/
def carry {α η : Type} (act : Slot → Outcome Slot SlotEvent (Except η α))
    (lift : η → Halt MachineError) : Op α := fun m =>
  let ⟨answer, m, events⟩ := m.withSlot (act m.currentSlot)
  ⟨answer.mapError lift, m, events⟩

/-- An action on the active slot that may fail with an error of the slot. -/
def trySlot {α : Type} (act : Slot → Outcome Slot SlotEvent (Except SlotError α)) : Op α :=
  carry act fun error => .failed (.slot error)

/-- An action on the active slot that may fail with an error of its archive. -/
def tryArchive {α : Type} (act : Slot → Outcome Slot SlotEvent (Except ArchiveError α)) : Op α :=
  carry act fun error => .failed (.slot (.archive error))

def haltOf : Halt SlotError → Halt MachineError
  | .failed error => .failed (.slot error)
  | .waiting => .waiting
  | .fault fault => .fault fault

/-- An operation of slots, carried out on the active one. -/
def runSlot {α : Type} (act : Slot.Op α) : Op α := carry act.run haltOf

/-- Enters a raw value on the active step and answers with its boxed form. -/
def enter (raw : Json) : Op (Option Choice) := runSlot (Slot.enter raw)

def announce (event : Machine → MachineEvent) : Op Unit :=
  Operation.emit fun m => .machine (event m)

/-! ## Moving -/

def moveTo (target : Nat) : Op Unit := fun m =>
  ⟨.ok (), { m with current := target }, [.machine (.moved m.current target)]⟩

/-- Announces the token where the active step ends it. -/
def announceEnd : Op Unit := fun m =>
  ⟨.ok (), m, if m.isTerminal then [.machine (.tokenEnded m.rawToken)] else []⟩

/-- The step that follows the active one, or the reason why none does. -/
def successor (m : Machine) (ignoreBindOnly : Bool) : Except MachineError Nat :=
  let slot := m.currentSlot
  match slot.isValid with
  | .error error => .error (.slot error)
  | .ok false => .error (.invalidState slot.name slot.rawValue)
  | .ok true =>
    match m.tree.firstChild? m.current ignoreBindOnly with
    | some child => .ok child
    | none => .error (.noMatchingChild slot.name slot.rawValue)

/-- Moves on and answers with the step reached.  Entering a step that ends the token is
announced with the token. -/
def advance (ignoreBindOnly : Bool) : Op Nat := do
  let next ← Operation.ask fun m => m.successor ignoreBindOnly
  moveTo next
  announceEnd
  return next

/-- Moves on as a user does, past the steps that are there for restoring only. -/
def transition : Op Nat := advance false

/-- Moves back to the step before; at the root there is none. -/
def rewind : Op (Option Nat) := do
  match ← Operation.read fun m => m.tree.parent? m.current with
  | some parent =>
    moveTo parent
    return some parent
  | none => return none

def reset : Op Unit := fun m =>
  let ⟨_, tree, events⟩ := m.tree.reset
  ⟨.ok (), { m with tree, current := Tree.root },
    events.map (fun (id, event) => .slot id event) ++
      if m.current = Tree.root then [] else [.machine (.moved m.current Tree.root)]⟩

/-- Makes the active step ready for input, with a value to restore if there is one. -/
def activate (raw? : Option Json) : Op Unit := do
  let context ← Operation.read fun m => m.tree.contextFor m.current
  runSlot (Slot.activate context raw?)

/-! ## The archive of the active step -/

def archive : Op Unit := do
  trySlot Slot.archiveValue
  announce fun m => .valueArchived m.current

def unarchive : Op Unit := do
  tryArchive Slot.unarchiveValue
  announce fun m => .valueUnarchived m.current

def removeArchived (index : Nat) : Op Choice := do
  let value ← tryArchive (·.removeArchived index)
  announce fun m => .archivedRemoved m.current index value
  return value

def clearArchive : Op (List Choice) := fun m =>
  let ⟨values, m, events⟩ := m.withSlot m.currentSlot.clearArchive
  ⟨.ok values, m,
    events ++ if values.isEmpty then [] else [.machine (.archiveCleared m.current values)]⟩

end Machine

end TokenGrammar
