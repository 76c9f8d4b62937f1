import TokenGrammar.Fault
import TokenGrammar.LogFilter.ValuePattern
import TokenGrammar.Numeric.Decimal

/-!
# Directives of log filters

A directive is a word, a word with a level as in `target=debug`, or a target and a span
in brackets, with fields in braces and a level behind them if need be, as in
`target[span{field=value}]=debug`.  A word is a level or else a target.

Blanks around a directive are passed over when its marks are looked for, but a position
counts bytes from the first mark and is then used in the whole text.  So blanks in front
shift what is taken for a level, and a position within a character is a fault.
-/

namespace TokenGrammar.LogFilter

inductive Refusal where
  | malformed
  /-- A position fell within a character. -/
  | fault (fault : Fault)
deriving DecidableEq, Repr

/-! ## Cutting at byte positions -/

/-- The text behind so many bytes, unless they end within a character. -/
def dropBytes? : Nat → List Char → Option (List Char)
  | 0, cs => some cs
  | _, [] => none
  | count, c :: rest => if c.utf8Size ≤ count then dropBytes? (count - c.utf8Size) rest else none

/-- The text of so many bytes, unless they end within a character. -/
def takeBytes? : Nat → List Char → Option (List Char)
  | 0, _ => some []
  | _, [] => none
  | count, c :: rest =>
    if c.utf8Size ≤ count then (takeBytes? (count - c.utf8Size) rest).map (c :: ·) else none

/-- What is found of a text, or the fault of having cut a character. -/
def orFault (position : Nat) (found? : Option (List Char)) : Except Refusal (List Char) :=
  match found? with
  | some found => .ok found
  | none => .error (.fault (.splitCharacter position))

def cutFrom (whole : List Char) (start : Nat) : Except Refusal (List Char) :=
  orFault start (dropBytes? start whole)

def cut (whole : List Char) (start stop : Nat) : Except Refusal (List Char) :=
  orFault stop ((dropBytes? start whole).bind (takeBytes? (stop - start)))

/-- The first of several marks, its position and the text behind it. -/
def find? (marks : List Char) (position : Nat) : List Char → Option (Char × Nat × List Char)
  | [] => none
  | c :: rest =>
    if marks.contains c then some (c, position, rest)
    else find? marks (position + c.utf8Size) rest

/-! ## The parts of a directive -/

def isStart (c : Char) : Bool := Text.isLetterOrNumber c || c = '-' || c = ':' || c = '_'

def levelNames : List String := ["off", "error", "warn", "info", "debug", "trace"]

/-- A level is the name of one in any case, its number from 0 to 5, or nothing. -/
def isLevel (cs : List Char) : Bool :=
  let digits := match cs with
    | '+' :: rest => rest
    | rest => rest
  cs.isEmpty || levelNames.contains (String.ofList (cs.map Char.toLower)) ||
    (!digits.isEmpty && digits.all Decimal.isDigit && decide (Decimal.natOfDigits digits ≤ 5))

/-- What stands between the first and the second equals sign, if there is a first one. -/
def valueOf? (field : List Char) : Option (List Char) :=
  match field.dropWhile (· != '=') with
  | _ :: rest => some (rest.takeWhile (· != '='))
  | [] => none

/-- A field is a name, or a name with a number or a pattern for its value. -/
def isField (field : List Char) : Bool :=
  !field.isEmpty && (valueOf? field).all fun value =>
    (Decimal.readBinary64? value).isSome || ValuePattern.isPattern value

/-- What one mark announces must be allowed. -/
def require (allowed : Bool) : Except Refusal Unit :=
  if allowed then .ok () else .error .malformed

def checkLevel (whole : List Char) (start : Nat) : Except Refusal Unit := do
  require (isLevel (← cutFrom whole start))

/-- What may follow a span: nothing, or a level. -/
def checkTail (whole : List Char) (position : Nat) : List Char → Except Refusal Unit
  | [] => .ok ()
  | '=' :: _ => checkLevel whole (position + 1)
  | _ => .error .malformed

/-- The field of a span and what closes it. -/
def checkField (whole : List Char) (start : Nat) (rest : List Char) : Except Refusal Unit :=
  match find? ['\x7d'] start rest with
  | some (_, stop, rest) => do
    require (isField (← cut whole start stop))
    match rest with
    | ']' :: rest => checkTail whole (stop + 2) rest
    | _ => .error .malformed
  | none => .error .malformed

/-- A span, its bracket passed. -/
def checkSpan (whole : List Char) (start : Nat) (rest : List Char) : Except Refusal Unit :=
  match find? [']', '\x7b'] start rest with
  | some (mark, stop, rest) => do
    let _ ← cut whole start stop
    if mark = ']' then checkTail whole (stop + 1) rest
    else checkField whole (stop + 1) rest
  | none => .error .malformed

/-- A word and what follows it. -/
def checkWord (whole word : List Char) : Except Refusal Unit :=
  match find? ['=', '['] 0 word with
  | some (mark, stop, rest) => do
    let _ ← cut whole 0 stop
    if mark = '=' then checkLevel whole (stop + 1) else checkSpan whole (stop + 1) rest
  | none => .ok ()

/-- A directive, with blanks around it. -/
def checkDirective (whole : List Char) : Except Refusal Unit :=
  match Text.trim whole with
  | [] => .error .malformed
  | '[' :: rest => checkSpan whole 1 rest
  | c :: rest => if isStart c then checkWord whole (c :: rest) else .error .malformed

end TokenGrammar.LogFilter
