import TokenGrammar.Choice

/-!
# Validators

A validator judges the present value of a step together with its archive.  It may fail
with a reason, which is an error of the grammar and not of the input.
-/

namespace TokenGrammar

/-- A judgement on the value and the archive of a step. -/
abbrev Validator := Option Choice → List Choice → Except String Bool

namespace Validator

def ofCheck (check : Option Choice → List Choice → Bool) : Validator :=
  fun value? archive => .ok (check value? archive)

def always : Validator := ofCheck fun _ _ => true

/-- There is a value, or at least one archived one. -/
def required : Validator := ofCheck fun value? archive => value?.isSome || !archive.isEmpty

/-- The key is a number within the bounds that are given. -/
def numericRange (least? greatest? : Option Binary64) : Validator :=
  ofCheck fun value? _ =>
    match value?.map Choice.key with
    | some (.num n) =>
      least?.all (fun least => least.le (.finite n.toFinite64)) &&
        greatest?.all fun greatest => Binary64.le (.finite n.toFinite64) greatest
    | _ => false

/-- Both validators accept.  The second is not asked when the first refuses or fails. -/
def and (v w : Validator) : Validator := fun value? archive =>
  match v value? archive with
  | .ok true => w value? archive
  | other => other

end Validator

end TokenGrammar
