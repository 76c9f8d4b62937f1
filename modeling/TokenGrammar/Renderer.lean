import TokenGrammar.Machine.Request

/-!
# Renderers

A renderer shows the active step and queues requests.  A registry keeps renderers by the
kind of step they were registered for; a step is served by the nearest kind of its
ancestry that has one.
-/

namespace TokenGrammar

/-- The renderers of a surface, the latest for each kind. -/
structure Registry (ρ : Type) where
  entries : List (StepKind × ρ) := []

namespace Registry

variable {ρ : Type}

def find? (registry : Registry ρ) (kind : StepKind) : Option ρ :=
  (registry.entries.find? fun e => e.1 == kind).map (·.2)

def register (registry : Registry ρ) (kind : StepKind) (renderer : ρ) : Option ρ × Registry ρ :=
  (registry.find? kind, ⟨(kind, renderer) :: registry.entries.filter fun e => e.1 != kind⟩)

def adding (registry : Registry ρ) (kind : StepKind) (renderer : ρ) : Registry ρ :=
  (registry.register kind renderer).2

/-- The renderer of the nearest kind of the ancestry that has one. -/
def resolve? (registry : Registry ρ) (kind : StepKind) : Option ρ :=
  kind.ancestry.findSome? registry.find?

def size (registry : Registry ρ) : Nat := registry.entries.length

def isEmpty (registry : Registry ρ) : Bool := registry.entries.isEmpty

def missing (kind : StepKind) : String :=
  "no renderer registered for node type '" ++ kind.name ++ "' or any of its fallbacks"

end Registry

/-- Neither the kind nor any that it falls back to has a renderer. -/
structure NoRenderer where
  kind : StepKind
deriving DecidableEq, Repr

def NoRenderer.message (error : NoRenderer) : String := Registry.missing error.kind

/-- The renderer that serves a kind, or an error that names the kind. -/
def Registry.resolve {ρ : Type} (registry : Registry ρ) (kind : StepKind) : Except NoRenderer ρ :=
  match registry.resolve? kind with
  | some renderer => .ok renderer
  | none => .error ⟨kind⟩

/-- What a renderer makes of a machine: its output and the requests it queued. -/
abbrev Renderer (ω : Type) := Machine → ω × List Request

namespace Registry

/-- Renders the active step, if there is a renderer for it. -/
def render? {ω : Type} (registry : Registry (Renderer ω)) (m : Machine) :
    Option (ω × List Request) :=
  (registry.resolve? m.currentSlot.node.step.kind).map (· m)

end Registry

end TokenGrammar
