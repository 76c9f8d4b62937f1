/-!
# Kinds of steps

Every kind but the most general one falls back to another; a renderer registered for a
kind serves all kinds that fall back to it.
-/

namespace TokenGrammar

/-- What a step is for.  A custom kind brings its own name and fallback. -/
inductive StepKind where
  | state
  | label
  | terminal
  | option
  | value
  | textEntry
  | numericEntry
  | currencyEntry
  | dateTimeEntry
  | custom (name : String) (fallback : StepKind)
deriving DecidableEq, Repr, Inhabited

namespace StepKind

def name : StepKind → String
  | state => "state"
  | label => "label"
  | terminal => "terminal"
  | option => "option"
  | value => "value"
  | textEntry => "text-entry"
  | numericEntry => "numeric-entry"
  | currencyEntry => "currency-entry"
  | dateTimeEntry => "datetime-entry"
  | custom name _ => name

def fallback? : StepKind → Option StepKind
  | state => none
  | label | terminal | option => some state
  | value => some option
  | textEntry => some value
  | numericEntry | dateTimeEntry => some textEntry
  | currencyEntry => some numericEntry
  | custom _ fallback => some fallback

/-- The kind and everything it falls back to, nearest first. -/
def ancestry : StepKind → List StepKind
  | state => [state]
  | label => [label, state]
  | terminal => [terminal, state]
  | option => [option, state]
  | value => [value, option, state]
  | textEntry => [textEntry, value, option, state]
  | numericEntry => [numericEntry, textEntry, value, option, state]
  | currencyEntry => [currencyEntry, numericEntry, textEntry, value, option, state]
  | dateTimeEntry => [dateTimeEntry, textEntry, value, option, state]
  | custom name fallback => custom name fallback :: fallback.ancestry

/-- Whether `other` is the kind itself or one it falls back to. -/
def isA (kind other : StepKind) : Bool := kind.ancestry.contains other

/-- One step of fallback leads from each kind of the ancestry to the next. -/
theorem ancestry_eq (kind : StepKind) :
    kind.ancestry = kind :: (kind.fallback?.map ancestry).getD [] := by
  cases kind <;> rfl

end StepKind

end TokenGrammar
