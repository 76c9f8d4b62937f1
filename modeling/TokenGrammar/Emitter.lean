/-!
# Emitters

An emitter keeps listeners in the order of their registration.  Ids count up and are
never given twice, so an old id cannot remove a later listener.
-/

namespace TokenGrammar

/-- The listeners of one source of events, each under the id it was given. -/
structure Emitter (Listener : Type) where
  listeners : List (Nat × Listener) := []
  nextId : Nat := 0

namespace Emitter

variable {Listener Event : Type}

def on (e : Emitter Listener) (listener : Listener) : Nat × Emitter Listener :=
  (e.nextId, ⟨e.listeners ++ [(e.nextId, listener)], e.nextId + 1⟩)

/-- Removes the listener with this id and says whether there was one. -/
def off (e : Emitter Listener) (id : Nat) : Bool × Emitter Listener :=
  let kept := e.listeners.filter fun l => l.1 != id
  (kept.length != e.listeners.length, { e with listeners := kept })

/-- The deliveries of an event, in the order of registration. -/
def emit (e : Emitter Listener) (event : Event) : List (Listener × Event) :=
  e.listeners.map fun l => (l.2, event)

def count (e : Emitter Listener) : Nat := e.listeners.length

end Emitter

end TokenGrammar
