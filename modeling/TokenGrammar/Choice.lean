import TokenGrammar.Json.Printer

/-!
# Choices

A choice is a key with what surrounds it: metadata, a display text and two flags for
renderers.  It is the boxed form of a raw JSON value.

Main definitions: `Choice.toJson` projects a choice, `Choice.encode` writes it field by
field and `Choice.decode?` reads it, from an object or from an array in field order.
-/

namespace TokenGrammar

/-- A key with metadata, an own display text and flags. -/
structure Choice where
  key : Json
  metadata : Json := .null
  label : Option String := none
  hidden : Bool := false
  highlighted : Bool := false

namespace Choice

instance : Inhabited Choice := ⟨⟨.null, .null, none, false, false⟩⟩

def ofKey (key : Json) : Choice := ⟨key, .null, none, false, false⟩

instance : BEq Choice where
  beq a b := a.key == b.key && a.metadata == b.metadata && a.label == b.label &&
    a.hidden == b.hidden && a.highlighted == b.highlighted

/-- The text shown for a choice: its own, else the key, a string key without quotes. -/
def display (c : Choice) : String :=
  match c.label, c.key with
  | some label, _ => label
  | none, .str s => s
  | none, key => key.compact

/-- The projection of a choice: the key, then whatever is not at its default. -/
def toJson (c : Choice) : Json :=
  let metadata := if c.metadata.isNull then [] else [("meta", c.metadata)]
  let label := match c.label with
    | some label => [("displayKey", Json.str label)]
    | none => []
  let hidden := if c.hidden then [("hidden", Json.bool true)] else []
  let highlighted := if c.highlighted then [("highlighted", Json.bool true)] else []
  .obj (("key", c.key) :: (metadata ++ label ++ hidden ++ highlighted))

/-- The written fields of a choice with their values, `none` for one that is left out. -/
def members (c : Choice) : List (String × Option Json) :=
  [("key", some c.key),
   ("meta", if c.metadata.isNull then none else some c.metadata),
   ("displayKey", c.label.map .str),
   ("hidden", if c.hidden then some (.bool true) else none),
   ("highlighted", if c.highlighted then some (.bool true) else none)]

def encode (c : Choice) : Json :=
  .obj (c.members.filterMap fun (name, value?) => value?.map (name, ·))

/-- A display text: a string, or null for none. -/
def readLabel? : Json → Option (Option String)
  | .null => some none
  | .str s => some (some s)
  | _ => none

def readFlag? : Json → Option Bool
  | .bool b => some b
  | _ => none

/-- The choice with these members, those that are missing at their defaults. -/
def ofMembers? (key : Json) (metadata? label? hidden? highlighted? : Option Json) :
    Option Choice := do
  let label ← readLabel? (label?.getD .null)
  let hidden ← readFlag? (hidden?.getD (.bool false))
  let highlighted ← readFlag? (highlighted?.getD (.bool false))
  pure ⟨key, metadata?.getD .null, label, hidden, highlighted⟩

/-- Reads a choice.  Only the key must be there; other fields of an object are ignored,
and an array has at most the five members. -/
def decode? : Json → Option Choice
  | .obj fields => do
    let get (name : String) : Option Json := Fields.get? fields name
    let key ← get "key"
    ofMembers? key (get "meta") (get "displayKey") (get "hidden") (get "highlighted")
  | .arr (key :: rest) =>
    if rest.length ≤ 4 then ofMembers? key rest[0]? rest[1]? rest[2]? rest[3]? else none
  | _ => none

end Choice

/-- The text by which options are searched for a raw value. -/
def hintText : Json → String
  | .null => ""
  | .str s => s
  | raw => raw.compact

end TokenGrammar
