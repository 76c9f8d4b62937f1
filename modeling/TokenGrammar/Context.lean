import TokenGrammar.Choice

/-!
# Context

What the steps before the current one hold, root first.  Option providers and renderers
read it.
-/

namespace TokenGrammar

/-- One earlier step with its present value. -/
structure ContextEntry where
  vkey : Option String
  name : String
  value : Option Choice

/-- The earlier steps, root first. -/
structure Context where
  entries : List ContextEntry := []

namespace Context

/-- The value of the nearest earlier step with this key. -/
def get? (context : Context) (vkey : String) : Option Choice :=
  (context.entries.reverse.find? fun e => e.vkey == some vkey).bind (·.value)

def size (context : Context) : Nat := context.entries.length

def isEmpty (context : Context) : Bool := context.entries.isEmpty

end Context

end TokenGrammar
