import TokenGrammar.LogFilter.Directive

/-!
# Log filters

A filter is a list of directives with commas between them.
-/

namespace TokenGrammar.LogFilter

/-- The pieces of a text between the occurrences of a character. -/
def split (separator : Char) : List Char → List (List Char)
  | [] => [[]]
  | c :: rest =>
    if c = separator then [] :: split separator rest
    else match split separator rest with
      | piece :: pieces => (c :: piece) :: pieces
      | [] => [[c]]

def checkAll : List (List Char) → Except Refusal Unit
  | [] => .ok ()
  | piece :: pieces =>
    match checkDirective piece with
    | .ok _ => checkAll pieces
    | .error refusal => .error refusal

/-- Checks a text for being a filter.  Empty pieces are passed over. -/
def check (s : String) : Except Refusal Unit :=
  checkAll ((split ',' s.toList).filter fun piece => !piece.isEmpty)

def complaint (s : String) : String := "invalid log filter '" ++ s ++ "'"

end TokenGrammar.LogFilter
