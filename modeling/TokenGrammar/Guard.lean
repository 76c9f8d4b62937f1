import TokenGrammar.Choice

/-!
# Guards

A guard decides from the value of the parent step whether a step may be entered.
-/

namespace TokenGrammar

/-- A condition on the value of the parent step, which may be absent. -/
abbrev Guard := Option Choice → Bool

namespace Guard

def always : Guard := fun _ => true

def hasValue : Guard := fun value? => value?.isSome

/-- The parent has a value and its key is `key`. -/
def keyIs (key : Json) : Guard := fun value? => value?.any fun v => v.key == key

/-- The parent has a value and its key is another than `key`. -/
def keyIsNot (key : Json) : Guard := fun value? => value?.any fun v => !(v.key == key)

/-- The parent has a value and its key is one of `keys`. -/
def keyIn (keys : List Json) : Guard := fun value? => value?.any fun v => keys.any (v.key == ·)

/-- The parent has a value whose metadata is an object with at least the expected fields. -/
def metadataMatches (expected : Json) : Guard := fun value? =>
  match value?.map Choice.metadata, expected with
  | some (.obj fields), .obj wanted =>
    wanted.all fun (name, value) => (Fields.get? fields name).any (· == value)
  | _, _ => false

def not (g : Guard) : Guard := fun value? => !g value?

def and (g h : Guard) : Guard := fun value? => g value? && h value?

def or (g h : Guard) : Guard := fun value? => g value? || h value?

end Guard

end TokenGrammar
