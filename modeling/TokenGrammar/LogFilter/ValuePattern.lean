import TokenGrammar.Numeric.Hexadecimal
import TokenGrammar.Text.Blank
import TokenGrammar.Text.Letters

/-!
# Patterns of field values

A log filter may ask for fields whose value matches a regular expression.  This module
says which texts are such expressions: with groups, alternatives, repetitions by `?`, `*`
and `+`, sets in brackets, escapes and flags.  Sets of characters that need tables of
Unicode are not offered, and neither are repetitions with a count.  An expression must not
be nested too deeply.
-/

namespace TokenGrammar.ValuePattern

/-- The flags that bear on what an expression may contain. -/
structure Mode where
  /-- Capital and small letters match each other. -/
  anyCase : Bool := false
  /-- Characters are those of Unicode; otherwise they are bytes below 128. -/
  unicode : Bool := true
  /-- Blanks and comments may stand between the parts. -/
  spaced : Bool := false
deriving DecidableEq, Repr

/-- What matches at one place. -/
inductive Atom where
  /-- A single character; it may be written as a byte. -/
  | literal (c : Char) (asByte : Bool)
  | any
  /-- Digits, blanks or word characters, or all characters but these. -/
  | kind (negated : Bool)
  /-- The start or the end of the text or a line. -/
  | anchor
  /-- The start or the end of a word, or a place inside. -/
  | wordEdge
deriving DecidableEq, Repr

/-- The text behind blanks and comments, the latter from `#` to the end of the line. -/
def skipSpace (comment : Bool) : List Char → List Char
  | [] => []
  | c :: rest =>
    if comment then skipSpace (c != '\n') rest
    else if Text.isBlank c then skipSpace false rest
    else if c = '#' then skipSpace true rest
    else c :: rest

namespace Mode

/-- The text behind what does not count in this mode. -/
def skip (mode : Mode) (cs : List Char) : List Char :=
  if mode.spaced then skipSpace false cs else cs

/-- The character to which a minus sign in a set would reach, by a glance that passes over
blanks and over a single hash sign, and so may end within a comment. -/
def glance (mode : Mode) (cs : List Char) : Option Char :=
  if mode.spaced then
    match cs.dropWhile Text.isBlank with
    | '#' :: rest => (rest.dropWhile Text.isBlank).head?
    | rest => rest.head?
  else cs.head?

/-- Whether an atom may stand outside of sets. -/
def allows (mode : Mode) : Atom → Bool
  | .literal c asByte => if mode.unicode then !mode.anyCase else !asByte || Text.isAscii c
  | .any => mode.unicode
  | .kind negated => !mode.unicode && !negated
  | .anchor => true
  | .wordEdge => !mode.unicode

/-- Whether an atom may be an element of a set. -/
def allowsInSet (mode : Mode) : Atom → Bool
  | .literal c _ => if mode.unicode then !mode.anyCase else Text.isAscii c
  | .kind negated => !mode.unicode && !negated
  | _ => false

/-- Whether a set with a name may be an element of a set. -/
def allowsNamedSet (mode : Mode) (negated : Bool) : Bool :=
  if mode.unicode then !mode.anyCase else !negated

end Mode

/-! ## Depth -/

/-- The depth down to which parts may be nested. -/
def greatestDepth : Nat := 250

/-- The depth of parts one behind the other: that of a single part, or one more than the
deepest. -/
def joinedDepth : List Nat → Nat
  | [] => 0
  | [depth] => depth
  | depths => depths.foldl max 0 + 1

/-- What has been read of a group or a set, by its depths. -/
structure Content where
  /-- The depth of what stands in front of the last bar or operator. -/
  before : Option Nat := none
  /-- The depths of the parts behind it, the last one first; nothing for flags. -/
  parts : List (Option Nat) := []

namespace Content

/-- The depth of the parts behind the last bar or operator. -/
def behind (content : Content) : Nat := joinedDepth (content.parts.map fun part => part.getD 0)

def depth (content : Content) : Nat :=
  match content.before with
  | some before => max before content.behind + 1
  | none => content.behind

def add (content : Content) (part : Option Nat) : Content :=
  { content with parts := part :: content.parts }

/-- Goes on behind a bar.  Alternatives lie side by side. -/
def bar (content : Content) : Content :=
  { before := some (max (content.before.getD 0) content.behind) }

/-- Goes on behind an operator on sets.  Each takes all in front of it for one side. -/
def operator (content : Content) : Content := { before := some content.depth }

/-- Repeats the last part, if there is one that can be repeated. -/
def repeated (content : Content) : Option Content :=
  match content.parts with
  | some depth :: parts => some { content with parts := some (depth + 1) :: parts }
  | _ => none

end Content

/-! ## Escapes -/

/-- A number of exactly so many hexadecimal digits, in front of which `acc` was read. -/
def readHex (mode : Mode) : Nat → Nat → List Char → Option (Nat × List Char)
  | 0, acc, cs => some (acc, cs)
  | digits + 1, acc, cs =>
    match mode.skip cs with
    | c :: rest =>
      (Hexadecimal.digitValue? c).bind fun d => readHex mode digits (16 * acc + d) rest
    | [] => none

/-- A character by its code of so many digits; with two of them it is written as a byte. -/
def readCode (mode : Mode) (digits : Nat) (cs : List Char) : Option (Atom × List Char) :=
  (readHex mode digits 0 cs).bind fun (code, rest) =>
    if code.isValidChar then some (.literal (Char.ofNat code) (digits == 2), rest) else none

def Atom.ofChar (c : Char) : Atom := .literal c false

def isEscapable (c : Char) : Bool :=
  Text.isAscii c && !c.isAlphanum && c != '<' && c != '>'

/-- What a backslash and the text behind it stand for. -/
def readEscape (mode : Mode) : List Char → Option (Atom × List Char)
  | [] => none
  | c :: rest =>
    if c = 'x' then readCode mode 2 rest
    else if c = 'u' then readCode mode 4 rest
    else if c = 'U' then readCode mode 8 rest
    else if c = 'd' ∨ c = 's' ∨ c = 'w' then some (.kind false, rest)
    else if c = 'D' ∨ c = 'S' ∨ c = 'W' then some (.kind true, rest)
    else if c = 'a' then some (.ofChar '\x07', rest)
    else if c = 'f' then some (.ofChar '\x0c', rest)
    else if c = 't' then some (.ofChar '\t', rest)
    else if c = 'n' then some (.ofChar '\n', rest)
    else if c = 'r' then some (.ofChar '\r', rest)
    else if c = 'v' then some (.ofChar '\x0b', rest)
    else if c = 'A' ∨ c = 'z' then some (.anchor, rest)
    else if c = 'b' ∨ c = 'B' ∨ c = '<' ∨ c = '>' then some (.wordEdge, rest)
    else if isEscapable c then some (.ofChar c, rest)
    else none

/-! ## Sets in brackets -/

def setNames : List String :=
  ["alnum", "alpha", "ascii", "blank", "cntrl", "digit", "graph", "lower", "print", "punct",
   "space", "upper", "word", "xdigit"]

/-- The rest behind a named set such as `[:alpha:]` whose bracket has been read; answers
also whether it is negated. -/
def readNamedSet : List Char → Option (Bool × List Char)
  | ':' :: rest =>
    let (negated, rest) := match rest with
      | '^' :: rest => (true, rest)
      | rest => (false, rest)
    let name := rest.takeWhile (· != ':')
    match rest.dropWhile (· != ':') with
    | ':' :: ']' :: rest =>
      if setNames.contains (String.ofList name) then some (negated, rest) else none
    | _ => none
  | _ => none

def addElement (mode : Mode) (content : Content) (element : Atom) : Option Content :=
  if mode.allowsInSet element then some (content.add (some 0)) else none

/-- The rest behind minus signs at the start of a set, which stand for themselves. -/
def skipMinus (mode : Mode) : Nat → Content → List Char → Option (Content × List Char)
  | rounds + 1, content, '-' :: rest =>
    (addElement mode content (.ofChar '-')).bind (skipMinus mode rounds · (mode.skip rest))
  | _, content, cs => some (content, cs)

/-- Reads what may open a set: a sign of negation, minus signs that stand for themselves, or
else a closing bracket that does.  Bytes cannot be negated. -/
def openSet (mode : Mode) (cs : List Char) : Option (Content × List Char) :=
  match mode.skip cs with
  | '^' :: rest => if mode.unicode then elements (mode.skip rest) else none
  | cs => elements cs
where
  elements (cs : List Char) : Option (Content × List Char) :=
    match cs with
    | ']' :: rest => (addElement mode {} (.ofChar ']')).map (·, rest)
    | cs => skipMinus mode cs.length {} cs

def readElement (mode : Mode) : List Char → Option (Atom × List Char)
  | '\\' :: rest => readEscape mode rest
  | c :: rest => some (.ofChar c, rest)
  | [] => none

/-- Reads an element of a set, or a range from one character to another.  A minus sign in
front of another or of the closing bracket stands for itself. -/
def readRange (mode : Mode) (content : Content) (cs : List Char) :
    Option (Content × List Char) := do
  let (low, rest) ← readElement mode cs
  let content ← addElement mode content low
  match mode.skip rest with
  | '-' :: rest =>
    if mode.glance rest = some ']' ∨ mode.glance rest = some '-' then pure (content, '-' :: rest)
    else
      let (high, rest) ← readElement mode (mode.skip rest)
      guard (mode.allowsInSet high)
      match low, high with
      | .literal low _, .literal high _ => if low ≤ high then pure (content, rest) else failure
      | _, _ => failure
  | rest => pure (content, rest)

/-- Reads the rest of a set within others that are open; answers with the depth of the
outermost and the rest behind it. -/
def closeSets (mode : Mode) :
    Nat → Content → List Content → List Char → Option (Nat × List Char)
  | 0, _, _, _ => none
  | rounds + 1, content, outer, cs =>
    match mode.skip cs with
    | [] => none
    | '[' :: rest =>
      match readNamedSet rest with
      | some (negated, rest) =>
        if mode.allowsNamedSet negated then closeSets mode rounds (content.add (some 0)) outer rest
        else none
      | none =>
        (openSet mode rest).bind fun (inner, rest) =>
          closeSets mode rounds inner (content :: outer) rest
    | ']' :: rest =>
      match outer with
      | [] => some (content.depth + 1, rest)
      | parent :: outer => closeSets mode rounds (parent.add (some (content.depth + 1))) outer rest
    | '&' :: '&' :: rest | '-' :: '-' :: rest | '~' :: '~' :: rest =>
      closeSets mode rounds content.operator outer rest
    | cs => (readRange mode content cs).bind fun (content, rest) =>
      closeSets mode rounds content outer rest

/-- Reads a set whose bracket has been read; answers also with its depth. -/
def readSet (mode : Mode) (cs : List Char) : Option (Nat × List Char) :=
  (openSet mode cs).bind fun (content, rest) => closeSets mode cs.length content [] rest

/-! ## Groups -/

def flagLetters : List Char := ['i', 'm', 's', 'U', 'u', 'R', 'x']

def Mode.withFlag (mode : Mode) (flag : Char) (value : Bool) : Mode :=
  if flag = 'i' then { mode with anyCase := value }
  else if flag = 'u' then { mode with unicode := value }
  else if flag = 'x' then { mode with spaced := value }
  else mode

/-- Flags up to a colon or a closing bracket, each of them once; those behind a minus sign
are taken back.  Answers with the mode under them, the letters read and the rest. -/
def readFlags (mode : Mode) (seen : List Char) : List Char → Option (Mode × List Char × List Char)
  | [] => none
  | c :: rest =>
    if c = ':' ∨ c = ')' then
      if seen.head? = some '-' then none else some (mode, seen, c :: rest)
    else if seen.contains c then none
    else if c = '-' then readFlags mode ('-' :: seen) rest
    else if flagLetters.contains c then
      readFlags (mode.withFlag c (!seen.contains '-')) (c :: seen) rest
    else none

def isNameChar (first : Bool) (c : Char) : Bool :=
  c = '_' || if first then Text.isLetter c
    else c = '.' || c = '[' || c = ']' || Text.isLetterOrNumber c

/-- The name of a group up to its closing angle. -/
def readName (cs : List Char) : Option (List Char × List Char) :=
  let name := cs.takeWhile (· != '>')
  match name, cs.dropWhile (· != '>') with
  | c :: more, '>' :: rest =>
    if isNameChar true c && more.all (isNameChar false) then some (name, rest) else none
  | _, _ => none

/-- How far an expression has been read. -/
structure State where
  mode : Mode := {}
  content : Content := {}
  /-- The groups around it, with the modes to which they return. -/
  enclosing : List (Mode × Content) := []
  names : List (List Char) := []

namespace State

def add (s : State) (part : Option Nat) : State := { s with content := s.content.add part }

def enter (s : State) (mode : Mode) : State :=
  { s with mode, content := {}, enclosing := (s.mode, s.content) :: s.enclosing }

def enterNamed (s : State) (cs : List Char) : Option (State × List Char) :=
  (readName cs).bind fun (name, rest) =>
    if s.names.contains name then none
    else some ({ s.enter s.mode with names := name :: s.names }, rest)

/-- Reads what follows the bracket of a group.  A group that looks around is refused. -/
def group (s : State) (cs : List Char) : Option (State × List Char) :=
  match s.mode.skip cs with
  | '?' :: 'P' :: '<' :: rest => s.enterNamed rest
  | '?' :: '<' :: rest => s.enterNamed rest
  | '?' :: rest =>
    match readFlags s.mode [] rest with
    | some (mode, _, ':' :: rest) => some (s.enter mode, rest)
    | some (mode, _ :: _, ')' :: rest) => some ({ s.add none with mode }, rest)
    | _ => none
  | cs => some (s.enter s.mode, cs)

def leave (s : State) : Option State :=
  match s.enclosing with
  | (mode, content) :: enclosing =>
    some { s with mode, content := content.add (some (s.content.depth + 1)), enclosing }
  | [] => none

def take (s : State) (atom : Atom) : Option State :=
  if s.mode.allows atom then some (s.add (some 0)) else none

/-- Repeats the last part; a question mark behind the sign may follow. -/
def repeated (s : State) (rest : List Char) : Option (State × List Char) :=
  s.content.repeated.map fun content =>
    ({ s with content }, match rest with | '?' :: rest => rest | rest => rest)

def read (s : State) : List Char → Option (State × List Char)
  | [] => none
  | '(' :: rest => s.group rest
  | ')' :: rest => s.leave.map (·, rest)
  | '|' :: rest => some ({ s with content := s.content.bar }, rest)
  | '[' :: rest => (readSet s.mode rest).map fun (depth, rest) => (s.add (some depth), rest)
  | '\\' :: rest =>
    (readEscape s.mode rest).bind fun (atom, rest) => (s.take atom).map (·, rest)
  | c :: rest =>
    if c = '?' ∨ c = '*' ∨ c = '+' then s.repeated rest
    else if c = '\x7b' then none
    else if c = '.' then (s.take .any).map (·, rest)
    else if c = '^' ∨ c = '$' then (s.take .anchor).map (·, rest)
    else (s.take (.ofChar c)).map (·, rest)

/-- Whether the rest of an expression can be read, every part of which takes a character
at least. -/
def accepts : Nat → State → List Char → Bool
  | rounds, s, cs =>
    match s.mode.skip cs, rounds with
    | [], _ => s.enclosing.isEmpty && decide (s.content.depth ≤ greatestDepth)
    | _, 0 => false
    | cs, rounds + 1 =>
      match s.read cs with
      | some (s, rest) => accepts rounds s rest
      | none => false

end State

def isPattern (cs : List Char) : Bool := State.accepts cs.length {} cs

end TokenGrammar.ValuePattern
