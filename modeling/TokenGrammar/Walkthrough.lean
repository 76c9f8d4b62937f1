import TokenGrammar.LogFilter.Basic
import TokenGrammar.Machine.Binding
import TokenGrammar.Schematic
import TokenGrammar.Settings

/-!
# A walkthrough

A small grammar for search filters, a token built with it step by step, and the same
token restored from what was saved.
-/

namespace TokenGrammar.Walkthrough

/-- The relations on offer depend on the field chosen before: all but names are numbers. -/
def relations : Provider := fun hint context _ =>
  let isNumeric := (context.get? "field").any fun field => !(field.key == .str "Name")
  let names := if isNumeric then ["between", "equals"] else ["equals", "contains"]
  let matching := names.filter fun name => Text.contains name.toList hint.toList
  .ready (matching.map fun name => .ofKey (.str name))

def guarded (guard : Guard) (step : Step) : Step :=
  { step with config := { step.config with guard } }

/-- A field, a relation, and one or two values. -/
def grammar : Template :=
  let between := Chain.start (some "value")
    (guarded (Guard.keyIs (.str "between")) (Step.numeric "Value"))
  let between := ((between.next none (Step.label "and")).next (some "secondaryValue")
    (Step.numeric "Secondary value")).next none Step.terminal
  let single := (Chain.start (some "value") (Step.text "Value")).next none Step.terminal
  let fields := ["Age", "Height", "Name"].map fun name => Choice.ofKey (.str name)
  let opening := (Chain.start (some "field") (Step.option "Field" fields)).next none
    (Step.label "is")
  (opening.next (some "relation") (Step.dynamicOption "Relation" relations)).branch
    [between.build, single.build]

def padded (width : Nat) (s : String) : String :=
  String.ofList (s.toList ++ List.replicate (width - s.length) ' ')

def enterGiven : Option Json → Machine.Op Unit
  | none => pure ()
  | some raw => do
    let _ ← Machine.enter raw

/-- Makes the active step ready, enters a value if there is one, and moves on.  Answers
with a line on the value. -/
def take (raw? : Option Json) : Machine.Op String := do
  Machine.activate none
  enterGiven raw?
  let slot ← Operation.read Machine.currentSlot
  let _ ← Machine.transition
  return "  " ++ padded 16 slot.name ++ " -> " ++ slot.rawValue.compact

def takeAll : List (Option Json) → Machine.Op (List String)
  | [] => return []
  | raw? :: raws => do
    let line ← take raw?
    return line :: (← takeAll raws)

/-- What is entered on the way, nothing on labels. -/
def script : List (Option Json) :=
  [some (.str "Height"), none, some (.str "between"), some (.str "60"), none,
   some (.ofInt 65)]

/-- Builds a token by the script and restores it in a second machine. -/
def session (settings : Settings) : Machine.Op (List String) := do
  let built ← takeAll script
  let boxed ← Operation.read Machine.boxedToken
  let saved ← Operation.read Machine.rawToken
  Operation.change fun _ => Machine.new grammar settings.machine.resetOnBindFailure
  Machine.bindValues saved
  let terminal ← Operation.read Machine.isTerminal
  let restored ← Operation.read Machine.rawToken
  let equal := Json.obj restored == Json.obj saved
  return ["=== Interactive build ==="] ++ built ++
    ["value:   " ++ (Json.obj boxed).compact,
     "unboxed: " ++ (Json.obj saved).compact,
     "",
     "=== Restore from saved token ===",
     "terminal: " ++ (Json.bool terminal).compact ++ ", equal: " ++ (Json.bool equal).compact]

inductive Stop where
  /-- The settings are refused with a complaint. -/
  | refused (complaint : String)
  /-- It could not be carried out. -/
  | fault (fault : Fault)

def story (settings : Settings) : Except Stop (List String) :=
  let graph := (grammar.schematic "filter").toJson.indented
  let machine := Machine.new grammar settings.machine.resetOnBindFailure
  match ((session settings).run machine).answer with
  | .ok told => .ok (["=== Grammar (schematic JSON) ==="] ++ graph.splitOn "\n" ++ [""] ++ told)
  | .error (.failed error) => .error (.refused error.message)
  | .error (.fault fault) => .error (.fault fault)
  | .error .waiting => .error (.refused "the walkthrough did not end")

/-- The lines of the walkthrough, unless the log filter is refused. -/
def lines (settings : Settings) : Except Stop (List String) :=
  match LogFilter.check settings.telemetry.filter with
  | .ok _ => story settings
  | .error .malformed => .error (.refused (LogFilter.complaint settings.telemetry.filter))
  | .error (.fault fault) => .error (.fault fault)

end TokenGrammar.Walkthrough
