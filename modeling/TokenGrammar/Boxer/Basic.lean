import TokenGrammar.Choice
import TokenGrammar.Fault

/-!
# Boxers

A boxer turns a raw value into a choice, if it has a boxed form, and back.  Boxing may
depend on the options on offer.  A boxer that was configured with something it cannot
carry out ends in a fault instead of an answer.
-/

namespace TokenGrammar

/-- A pair of conversions between raw values and choices. -/
structure Boxer where
  box : Json → List Choice → Except Fault (Option Choice)
  unbox : Choice → Json

namespace Boxer

/-- A boxer that never faults and whose raw form is the key. -/
def ofKeyed (box? : Json → List Choice → Option Choice) : Boxer where
  box raw options := .ok (box? raw options)
  unbox choice := choice.key

/-- Every value but null is its own key. -/
def boxIdentity? (raw : Json) (_ : List Choice) : Option Choice :=
  if raw.isNull then none else some (.ofKey raw)

/-- The first option with the raw value as key; `allowUnknown` lets any other value pass. -/
def boxOption? (allowUnknown : Bool) (raw : Json) (options : List Choice) : Option Choice :=
  if raw.isNull then none
  else match options.find? fun o => o.key == raw with
    | some option => some option
    | none => if allowUnknown then some (.ofKey raw) else none

/-- Every value but null is its own key. -/
def identity : Boxer := ofKeyed boxIdentity?

/-- Picks among the options on offer; `allowUnknown` lets any other value pass. -/
def option (allowUnknown : Bool) : Boxer := ofKeyed (boxOption? allowUnknown)

theorem box_identity (raw : Json) (options : List Choice) :
    identity.box raw options = .ok (if raw.isNull then none else some (.ofKey raw)) := rfl

theorem box_identity_eq_some_iff {raw : Json} {options : List Choice} {choice : Choice} :
    identity.box raw options = .ok (some choice) ↔
      raw.isNull = false ∧ choice = .ofKey raw := by
  rw [box_identity]
  cases raw.isNull <;> simp [eq_comm (a := choice)]

end Boxer

end TokenGrammar
