import TokenGrammar.Json.Basic
import TokenGrammar.Text.Blank
import TokenGrammar.Toml.Parser

/-!
# Settings

Settings are read from a TOML document and may be overridden by variables.  Whatever the
document leaves out has its default; what it knows beyond them is ignored.  An array
stands for a table whose items are given in order.
-/

namespace TokenGrammar

inductive LogFormat where
  | pretty
  | compact
  | json
deriving DecidableEq, Repr

namespace LogFormat

def name : LogFormat → String
  | pretty => "pretty"
  | compact => "compact"
  | json => "json"

def ofName? (name : String) : Option LogFormat :=
  [pretty, compact, json].find? fun format => format.name == name

/-- A typed name without the blanks around it and its capital letters A to Z. -/
def normalName (text : String) : String :=
  String.ofList ((Text.trim text.toList).map Char.toLower)

def ofText? (text : String) : Option LogFormat := ofName? (normalName text)

def complaint (text : String) : String := "unknown log format '" ++ normalName text ++ "'"

end LogFormat

structure TelemetrySettings where
  filter : String := "info"
  format : LogFormat := .pretty
deriving DecidableEq, Repr

structure MachineSettings where
  resetOnBindFailure : Bool := true
deriving DecidableEq, Repr

structure Settings where
  telemetry : TelemetrySettings := {}
  machine : MachineSettings := {}
deriving DecidableEq, Repr

namespace Settings

open Toml (Item Entries)

/-- The members of a record by name, from a table or from an array in their order.  A time
counts as a table without them. -/
def members? (names : List String) : Item → Option Entries
  | .table _ entries | .inline entries => some entries
  | .moment => some []
  | .array items => some (names.zip items)
  | .tables all => some (names.zip (all.map (Item.table .explicit)))
  | _ => none

def readMember? {α : Type} (entries : Entries) (name : String) (default : α)
    (read? : Item → Option α) : Option α :=
  match Entries.get? entries name with
  | some item => read? item
  | none => some default

def readText? : Item → Option String
  | .text s => some s
  | _ => none

def readBoolean? : Item → Option Bool
  | .boolean b => some b
  | _ => none

def isHollow : Item → Bool
  | .array items => items.isEmpty
  | .tables all => all.isEmpty
  | .inline entries | .table _ entries => entries.isEmpty
  | _ => false

/-- A format is given by its name, or by a table with nothing but that name as the key of
something empty. -/
def readFormat? : Item → Option LogFormat
  | .text s => LogFormat.ofName? s
  | .inline [(name, item)] | .table _ [(name, item)] =>
    if isHollow item then LogFormat.ofName? name else none
  | _ => none

def readTelemetry? (item : Item) : Option TelemetrySettings := do
  let entries ← members? ["filter", "format"] item
  let filter ← readMember? entries "filter" "info" readText?
  let format ← readMember? entries "format" LogFormat.pretty readFormat?
  pure { filter, format }

def readMachine? (item : Item) : Option MachineSettings := do
  let entries ← members? ["reset_on_bind_failure"] item
  let resetOnBindFailure ← readMember? entries "reset_on_bind_failure" true readBoolean?
  pure { resetOnBindFailure }

def ofToml? (text : String) : Option Settings := do
  let document ← Toml.parse? text
  let telemetry ← readMember? document "telemetry" {} readTelemetry?
  let machine ← readMember? document "machine" {} readMachine?
  pure { telemetry, machine }

def filterVariable : String := "TESSERA_LOG"

def formatVariable : String := "TESSERA_LOG_FORMAT"

/-- The settings under variables.  A blank filter and an unknown format change nothing. -/
def withOverrides (s : Settings) (lookup : String → Option String) : Settings :=
  let filter := ((lookup filterVariable).filter fun text =>
    !(Text.trimString text).isEmpty).getD s.telemetry.filter
  let format := ((lookup formatVariable).bind LogFormat.ofText?).getD s.telemetry.format
  { s with telemetry := { filter, format } }

def toJson (s : Settings) : Json :=
  .obj [("telemetry", .obj [("filter", .str s.telemetry.filter),
      ("format", .str s.telemetry.format.name)]),
    ("machine", .obj [("reset_on_bind_failure", .bool s.machine.resetOnBindFailure)])]

def unreadable (path : String) : String := "failed to read " ++ path

end Settings

end TokenGrammar
