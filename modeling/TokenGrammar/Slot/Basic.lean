import TokenGrammar.Options.Store
import TokenGrammar.Slot.Error
import TokenGrammar.Step

/-!
# Slots

A slot is the live form of one step while a token is built.  It holds the value in
progress, a preview that is never committed, the archive of committed values and the
options on offer.
-/

namespace TokenGrammar

/-- The place of a step in its tree; ids count the steps in preorder. -/
structure Node where
  id : Nat
  parent : Option Nat
  children : List Nat
  vkey : Option String
  step : Step

instance : Inhabited Node := ⟨⟨0, none, [], none, default⟩⟩

structure Slot where
  node : Node
  value : Option Choice
  preview : Option Choice
  archive : List Choice
  /-- The options have been loaded since the last reset. -/
  initialized : Bool
  store : OptionStore

namespace Slot

def fresh (node : Node) : Slot :=
  { node
    value := node.step.config.default?
    preview := none
    archive := []
    initialized := false
    store := OptionStore.new node.step.config.source node.step.config.suggestionLimit }

instance : Inhabited Slot := ⟨fresh default⟩

def config (s : Slot) : StepConfig := s.node.step.config

def name (s : Slot) : String := s.config.name

/-- A token ends at a step that none follows. -/
def isTerminal (s : Slot) : Bool := s.node.children.isEmpty

/-- The boxed form of a raw value among the options on offer. -/
def box (s : Slot) (raw : Json) : Except Fault (Option Choice) :=
  s.config.boxer.box raw s.store.options

def unbox (s : Slot) (choice : Choice) : Json := s.config.boxer.unbox choice

def unboxOrNull (s : Slot) (value? : Option Choice) : Json :=
  match value? with
  | some value => s.unbox value
  | none => .null

def rawValue (s : Slot) : Json := s.unboxOrNull s.value

def rawPreview (s : Slot) : Json := s.unboxOrNull s.preview

def isValid (s : Slot) : Except SlotError Bool :=
  match s.config.validator s.value s.archive with
  | .ok valid => .ok valid
  | .error reason => .error (.validator s.name reason)

/-- Whether the step may be entered from a parent with this value.  A step for restoring
only is entered on demand only. -/
def accepts (s : Slot) (parentValue : Option Choice) (ignoreBindOnly : Bool) : Bool :=
  (!s.config.bindOnly || ignoreBindOnly) && s.config.guard parentValue

end Slot

end TokenGrammar
