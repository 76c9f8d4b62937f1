import TokenGrammar.Numeric.Hexadecimal

/-!
# Strings in TOML

A string stands in quotes, with escapes, or in apostrophes, without.  Tripled marks hold
several lines; a line break right behind the opening is not part of the text, and breaks
count as one line feed.  Each reader answers with the text that is left.
-/

namespace TokenGrammar.Toml

/-- Whether a character may stand in a string or a comment: no control but the tab. -/
def isPrintable (c : Char) : Bool :=
  c = '\t' || (decide (0x20 ≤ c.toNat) && c.toNat != 0x7F)

/-- The mark of strings without escapes. -/
def apostrophe : Char := Char.ofNat 39

def isMark (c : Char) : Bool := c = '"' || c = apostrophe

def isSpace (c : Char) : Bool := c = ' ' || c = '\t'

def skipSpace (cs : List Char) : List Char := cs.dropWhile isSpace

/-- The text behind a line break, if there is one. -/
def skipBreak? : List Char → Option (List Char)
  | '\n' :: rest => some rest
  | '\r' :: '\n' :: rest => some rest
  | _ => none

/-- The character of a number in hexadecimal digits. -/
def readCodePoint (width : Nat) (cs : List Char) : Option (Char × List Char) :=
  (Hexadecimal.readExactly width cs).bind fun (code, rest) =>
    if code.isValidChar then some (Char.ofNat code, rest) else none

def readEscape : List Char → Option (Char × List Char)
  | 'b' :: rest => some (Char.ofNat 8, rest)
  | 't' :: rest => some ('\t', rest)
  | 'n' :: rest => some ('\n', rest)
  | 'f' :: rest => some (Char.ofNat 12, rest)
  | 'r' :: rest => some ('\r', rest)
  | '"' :: rest => some ('"', rest)
  | '\\' :: rest => some ('\\', rest)
  | 'u' :: rest => readCodePoint 4 rest
  | 'U' :: rest => readCodePoint 8 rest
  | _ => none

def skipLines : Nat → List Char → List Char
  | 0, cs => cs
  | rounds + 1, cs =>
    match skipBreak? (skipSpace cs) with
    | some rest => skipLines rounds rest
    | none => skipSpace cs

/-- The text behind a backslash at the end of a line, whose blanks do not count. -/
def skipLineEnd? (rounds : Nat) (cs : List Char) : Option (List Char) :=
  (skipBreak? (skipSpace cs)).map (skipLines rounds)

/-- A string of one line up to its closing mark; only one in quotes has escapes. -/
def readLine (mark : Char) : Nat → List Char → Option (List Char × List Char)
  | 0, _ => none
  | _, [] => none
  | rounds + 1, c :: rest =>
    if c = mark then some ([], rest)
    else if c = '\\' ∧ mark = '"' then
      match readEscape rest with
      | some (c, rest) => (readLine mark rounds rest).map fun (cs, rest) => (c :: cs, rest)
      | none => none
    else if isPrintable c then
      (readLine mark rounds rest).map fun (cs, rest) => (c :: cs, rest)
    else none

/-- A string of several lines up to its closing marks.  One or two marks in front of the
closing ones belong to the text. -/
def readLines (mark : Char) : Nat → List Char → Option (List Char × List Char)
  | 0, _ => none
  | rounds + 1, cs =>
    let marks := (cs.takeWhile (· = mark)).take 5
    if 3 ≤ marks.length then some (marks.drop 3, cs.drop marks.length)
    else
      match skipBreak? cs, cs with
      | some rest, _ => (readLines mark rounds rest).map fun (cs, rest) => ('\n' :: cs, rest)
      | none, [] => none
      | none, c :: rest =>
        if c = '\\' ∧ mark = '"' then
          match skipLineEnd? rounds rest, readEscape rest with
          | some rest, _ => readLines mark rounds rest
          | none, some (c, rest) =>
            (readLines mark rounds rest).map fun (cs, rest) => (c :: cs, rest)
          | none, none => none
        else if isPrintable c then
          (readLines mark rounds rest).map fun (cs, rest) => (c :: cs, rest)
        else none

def readLineString (cs : List Char) : Option (String × List Char) :=
  match cs with
  | mark :: rest =>
    if isMark mark then
      (readLine mark cs.length rest).map fun (cs, rest) => (String.ofList cs, rest)
    else none
  | [] => none

def readString (cs : List Char) : Option (String × List Char) :=
  match cs with
  | a :: b :: c :: rest =>
    if isMark a ∧ b = a ∧ c = a then
      (readLines a cs.length ((skipBreak? rest).getD rest)).map fun (cs, rest) =>
        (String.ofList cs, rest)
    else readLineString cs
  | _ => readLineString cs

end TokenGrammar.Toml
