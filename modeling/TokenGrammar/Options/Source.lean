import TokenGrammar.Context
import TokenGrammar.Text.Lowercase

/-!
# Where options come from

A step has no options, a fixed list, or a provider that is asked with a hint, the
context of the step and the values it has archived.
-/

namespace TokenGrammar

/-- What a provider makes of a request. -/
inductive Fetch where
  | ready (options : List Choice)
  | failed (reason : String)
  | waiting

/-- Answers a request by its hint, the context and the archive of the step. -/
abbrev Provider := String → Context → List Choice → Fetch

inductive Source where
  | absent
  | fixed (options : List Choice)
  | provider (fetch : Provider)

namespace Source

instance : Inhabited Source := ⟨absent⟩

def isPresent : Source → Bool
  | absent => false
  | _ => true

/-- The options whose text contains the hint in whatever case, in their order.  The empty
hint finds all of them. -/
def matching (options : List Choice) (hint : String) : List Choice :=
  if hint.isEmpty then options
  else
    let piece := Text.lower hint.toList
    options.filter fun o => Text.contains (Text.lower o.display.toList) piece

/-- The provider that searches a fixed list. -/
def searching (options : List Choice) : Provider := fun hint _ _ => .ready (matching options hint)

def fetch : Source → Provider
  | absent, _, _, _ => .ready []
  | fixed options, hint, _, _ => .ready (matching options hint)
  | provider fetch, hint, context, archive => fetch hint context archive

end Source

end TokenGrammar
