import TokenGrammar.Walkthrough

/-!
# The program

Prints the walkthrough.  The path of a file with settings may be given; variables of the
environment override them.
-/

open TokenGrammar

/-- The settings of a file, or the defaults. -/
def readSettings : Option String → IO (Except String Settings)
  | none => return .ok {}
  | some path => do
    let text? ← (do return some (← IO.FS.readFile path)) <|> pure none
    match text? with
    | none => return .error (Settings.unreadable path)
    | some text =>
      match Settings.ofToml? text with
      | some settings => return .ok settings
      | none => return .error "failed to parse config"

def main (args : List String) : IO UInt32 := do
  let filter? ← IO.getEnv Settings.filterVariable
  let format? ← IO.getEnv Settings.formatVariable
  let lookup (name : String) : Option String :=
    if name = Settings.filterVariable then filter?
    else if name = Settings.formatVariable then format?
    else none
  let told := match ← readSettings args.head? with
    | .ok settings => Walkthrough.lines (settings.withOverrides lookup)
    | .error complaint => .error (.refused complaint)
  match told with
  | .ok lines =>
    for line in lines do
      IO.println line
    return 0
  | .error (.refused complaint) =>
    IO.eprintln ("Error: " ++ complaint)
    return 1
  | .error (.fault _) => return 101
