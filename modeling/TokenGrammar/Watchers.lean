import TokenGrammar.Emitter
import TokenGrammar.Machine.Event

/-!
# Watchers

The machine and every slot have an emitter of their own.  A notice is delivered to the
listeners of its source.
-/

namespace TokenGrammar

/-- The listeners of a machine and of each of its slots, by the id of the slot. -/
structure Watchers (Listener : Type) where
  machine : Emitter Listener
  slots : List (Emitter Listener)

namespace Watchers

variable {Listener : Type}

def none (size : Nat) : Watchers Listener := ⟨{}, List.replicate size {}⟩

def slot (w : Watchers Listener) (id : Nat) : Emitter Listener := w.slots[id]?.getD {}

/-- Listens to the machine; answers with the id of the registration. -/
def onMachine (w : Watchers Listener) (listener : Listener) : Nat × Watchers Listener :=
  let (id, machine) := w.machine.on listener
  (id, { w with machine })

/-- Removes a listener of the machine and says whether there was one. -/
def offMachine (w : Watchers Listener) (id : Nat) : Bool × Watchers Listener :=
  let (found, machine) := w.machine.off id
  (found, { w with machine })

/-- Listens to a slot; answers with the id of the registration. -/
def onSlot (w : Watchers Listener) (slot : Nat) (listener : Listener) : Nat × Watchers Listener :=
  let (id, emitter) := (w.slot slot).on listener
  (id, { w with slots := w.slots.set slot emitter })

/-- Removes a listener of a slot and says whether there was one. -/
def offSlot (w : Watchers Listener) (slot id : Nat) : Bool × Watchers Listener :=
  let (found, emitter) := (w.slot slot).off id
  (found, { w with slots := w.slots.set slot emitter })

/-- The deliveries of a notice, in the order of registration. -/
def deliver (w : Watchers Listener) (notice : Notice) : List (Listener × Notice) :=
  match notice with
  | .slot id _ => (w.slot id).emit notice
  | .machine _ => w.machine.emit notice

end Watchers

end TokenGrammar
