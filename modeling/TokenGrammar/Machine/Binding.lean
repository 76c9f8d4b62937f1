import TokenGrammar.Machine.Basic

/-!
# Restoring a token

A token is restored by walking from the root.  Each step on the way is made ready and
given the value under its key, and the walk goes on by the rule of ordinary moves, with
the steps for restoring only included.  It ends at a terminal step, or at the first step
whose key has no value.  Values that no step on the way asked for are an error.
-/

namespace TokenGrammar.Machine

/-- Whether an entry counts as missing: null does, and no values for a step that collects
them. -/
def isAbsent (raw : Json) (multivalue : Bool) : Bool :=
  match raw with
  | .null => true
  | .arr items => multivalue && items.isEmpty
  | _ => false

/-- The entry of a token under a key, unless it counts as missing. -/
def entryFor? (token : Token) (vkey : String) (multivalue : Bool) : Option Json :=
  (Fields.get? token vkey).filter fun raw => !isAbsent raw multivalue

def itemsOf : Json → List Json
  | .arr items => items
  | raw => [raw]

/-- Enters and archives values one by one.  An error names the whole entry. -/
def bindItems (vkey : String) (raw : Json) : List Json → Op Unit
  | [] => pure ()
  | item :: items => do
    match ← enter item with
    | none => Operation.fail (.unboxable vkey raw)
    | some _ =>
      archive
      bindItems vkey raw items

/-- Gives the active step its entry. -/
def bindCurrent (vkey : String) (raw : Json) : Op Unit := do
  let slot ← Operation.read currentSlot
  if slot.config.multivalue then
    activate none
    bindItems vkey raw (itemsOf raw)
  else
    activate (some raw)
    if (← Operation.read fun m => m.currentSlot.value).isNone then
      Operation.fail (.unboxable vkey raw)

/-- The keys that are left when one has been asked for. -/
def without (keys : List String) (vkey : String) : List String := keys.filter (· != vkey)

/-- Goes on behind a step that has its entry: down to the next step, if there is one. -/
def goOn (below : List String → Op (List String)) (pending : List String) :
    Op (List String) := do
  if ← Operation.read isTerminal then
    return pending
  else
    let _ ← advance true
    below pending

/-- Walks on from the active step and answers with the keys that no step asked for.  The
rounds are those that are left; every round but the last goes one step down. -/
def bindFrom (token : Token) : Nat → List String → Op (List String)
  | 0, pending => return pending
  | rounds + 1, pending => do
    let slot ← Operation.read currentSlot
    match slot.node.vkey with
    | none =>
      activate none
      goOn (fun pending => bindFrom token rounds pending) pending
    | some vkey =>
      match entryFor? token vkey slot.config.multivalue with
      | none =>
        activate none
        return without pending vkey
      | some raw =>
        bindCurrent vkey raw
        goOn (fun pending => bindFrom token rounds pending) (without pending vkey)

/-- The keys of a token that have a value. -/
def pendingKeys (token : Token) : List String :=
  (token.filter fun entry => !entry.2.isNull).map (·.1)

/-- Restores a token in a machine that is reset first.  What was done before an error is
not undone. -/
def bindPath (token : Token) : Op Unit := do
  reset
  let rounds ← Operation.read fun m => m.tree.size
  let pending ← bindFrom token rounds (pendingKeys token)
  if !pending.isEmpty then
    Operation.fail (.unmatchedValues (pending.mergeSort fun a b => decide (a ≤ b)))

/-- Restores a token.  An error resets the machine if it is set to do so. -/
def bindValues (token : Token) : Op Unit := fun m =>
  match (bindPath token).run m with
  | ⟨.error (.failed error), m, events⟩ =>
    if m.resetOnBindFailure then
      let ⟨_, m, later⟩ := reset.run m
      ⟨.error (.failed error), m, events ++ later⟩
    else ⟨.error (.failed error), m, events⟩
  | outcome => outcome

end TokenGrammar.Machine
