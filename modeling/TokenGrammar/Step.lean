import TokenGrammar.Boxer.Currency
import TokenGrammar.Boxer.DateTime
import TokenGrammar.Guard
import TokenGrammar.Options.Source
import TokenGrammar.StepKind
import TokenGrammar.Validator

/-!
# Steps

A step is a kind with a configuration.  The builders below make the steps that grammars
are commonly written with; their settings can be changed afterwards.
-/

namespace TokenGrammar

structure StepConfig where
  name : String
  guard : Guard := Guard.always
  validator : Validator := Validator.always
  default? : Option Choice := none
  readOnly : Bool := false
  /-- The step is reached by restoring a token only. -/
  bindOnly : Bool := false
  /-- The step collects several values in its archive. -/
  multivalue : Bool := false
  multivalueLimit : Option Nat := none
  boxer : Boxer := Boxer.identity
  source : Source := .absent
  suggestionLimit : Option Nat := none
  /-- What renderers may want to know; it has no meaning here. -/
  hints : Json := .null

structure Step where
  kind : StepKind
  config : StepConfig

instance : Inhabited Step := ⟨⟨.state, StepConfig.mk "" Guard.always Validator.always none
  false false false none Boxer.identity .absent none .null⟩⟩

namespace Step

/-- A step of any kind with all settings at their defaults. -/
def plain (kind : StepKind) (name : String) : Step := ⟨kind, { name }⟩

/-- A step that needs a value before it can be left. -/
def entry (kind : StepKind) (name : String) (boxer : Boxer) : Step :=
  ⟨kind, { name, boxer, validator := Validator.required }⟩

/-- A step that shows a text and holds no value. -/
def label (text : String) : Step := ⟨.label, { name := text, readOnly := true }⟩

/-- A mark that ends a token. -/
def terminal : Step := ⟨.terminal, { name := "End", readOnly := true }⟩

/-- A mark that ends a token where the guard lets it. -/
def terminalWhen (guard : Guard) : Step :=
  { terminal with config := { terminal.config with guard } }

def withSource (step : Step) (source : Source) : Step :=
  { step with config := { step.config with source } }

def option (name : String) (options : List Choice) : Step :=
  (entry .option name (Boxer.option false)).withSource (.fixed options)

def dynamicOption (name : String) (provider : Provider) : Step :=
  (entry .option name (Boxer.option false)).withSource (.provider provider)

def value (name : String) : Step := entry .value name Boxer.identity

/-- A value of any sort, with options that need not be taken. -/
def suggestedValue (name : String) (options : List Choice) : Step :=
  (value name).withSource (.fixed options)

def text (name : String) : Step := entry .textEntry name Boxer.text

def numeric (name : String) : Step := entry .numericEntry name Boxer.numeric

def boundedNumeric (name : String) (least? greatest? : Option Binary64) : Step :=
  let step := numeric name
  { step with config := { step.config with
      validator := Validator.numericRange least? greatest? } }

def currency (name : String) (currency : Currency) : Step :=
  entry .currencyEntry name (Boxer.currency currency)

def dateTime (name : String) (pattern : String) : Step :=
  entry .dateTimeEntry name (Boxer.dateTime pattern)

end Step

end TokenGrammar
