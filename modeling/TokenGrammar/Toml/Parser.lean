import TokenGrammar.Toml.Basic
import TokenGrammar.Toml.Literal
import TokenGrammar.Toml.Text

/-!
# Reading TOML

A document has one key with its value, one header or one comment a line.  Values may
nest, and keys may have parts, up to a depth of 80.
-/

namespace TokenGrammar.Toml

def maxDepth : Nat := 80

def skipComment : List Char → List Char
  | '#' :: rest => rest.dropWhile isPrintable
  | rest => rest

/-- The text behind the end of a line, which may carry a comment. -/
def skipLineRest? (cs : List Char) : Option (List Char) :=
  match skipComment (skipSpace cs) with
  | [] => some []
  | rest => skipBreak? rest

/-- Passes over blanks, comments and line breaks, as they may stand in arrays.  A comment
ends with its line. -/
def skipGap : Nat → List Char → List Char
  | 0, cs => cs
  | rounds + 1, cs =>
    match skipSpace cs with
    | '#' :: rest =>
      match skipBreak? (skipComment ('#' :: rest)) with
      | some rest => skipGap rounds rest
      | none => '#' :: rest
    | cs =>
      match skipBreak? cs with
      | some rest => skipGap rounds rest
      | none => cs

def isBareKey (c : Char) : Bool := c.isAlphanum || c = '_' || c = '-'

def readKeyPart (cs : List Char) : Option (String × List Char) :=
  match cs with
  | c :: _ =>
    if isMark c then readLineString cs
    else if isBareKey c then
      some (String.ofList (cs.takeWhile isBareKey), cs.dropWhile isBareKey)
    else none
  | [] => none

/-- The parts of a key with points between them and blanks around them. -/
def readKeyParts : Nat → List Char → Option (List String × List Char)
  | 0, _ => none
  | rounds + 1, cs => do
    let (part, rest) ← readKeyPart (skipSpace cs)
    match skipSpace rest with
    | '.' :: rest =>
      let (parts, rest) ← readKeyParts rounds rest
      pure (part :: parts, rest)
    | rest => pure ([part], rest)

/-- A key: the path to its table and its last part. -/
def readKey (cs : List Char) : Option (List String × String × List Char) := do
  let (parts, rest) ← readKeyParts maxDepth cs
  let key ← parts.getLast?
  if parts.length < maxDepth then some (parts.dropLast, key, rest) else none

def readScalar (cs : List Char) : Option (Item × List Char) :=
  match readMoment? cs, ((readDecimal? cs).or (readSpecial? cs)).or
      ((readBased? cs).or (readInteger? cs)) with
  | some rest, _ => some (.moment, rest)
  | none, some rest => some (.number, rest)
  | none, none => none

mutual

/-- A value at a depth.  No character takes more than two rounds. -/
def readValue : Nat → Nat → List Char → Option (Item × List Char)
  | 0, _, _ => none
  | rounds + 1, depth, cs =>
    match cs with
    | 't' :: rest => ("rue".toList.isPrefixOf? rest).map (.boolean true, ·)
    | 'f' :: rest => ("alse".toList.isPrefixOf? rest).map (.boolean false, ·)
    | '[' :: rest =>
      if maxDepth ≤ depth + 1 then none
      else match skipGap rest.length rest with
        | ']' :: rest => some (.array [], rest)
        | rest => (readItems rounds (depth + 1) rest).map fun (items, rest) => (.array items, rest)
    | '\x7b' :: rest =>
      if maxDepth ≤ depth + 1 then none
      else match skipSpace rest with
        | '\x7d' :: rest => some (.inline [], rest)
        | rest =>
          (readEntries rounds (depth + 1) [] rest).map fun (entries, rest) =>
            (.inline entries, rest)
    | mark :: rest =>
      if isMark mark then (readString (mark :: rest)).map fun (s, rest) => (.text s, rest)
      else readScalar (mark :: rest)
    | [] => none

/-- The items of an array up to its end; a comma may stand behind the last one. -/
def readItems : Nat → Nat → List Char → Option (List Item × List Char)
  | 0, _, _ => none
  | rounds + 1, depth, cs =>
    match readValue rounds depth cs with
    | none => none
    | some (item, rest) =>
      match skipGap rest.length rest with
      | ']' :: rest => some ([item], rest)
      | ',' :: rest =>
        match skipGap rest.length rest with
        | ']' :: rest => some ([item], rest)
        | rest => (readItems rounds depth rest).map fun (items, rest) => (item :: items, rest)
      | _ => none

/-- The entries of a table in braces behind those read so far. -/
def readEntries : Nat → Nat → Entries → List Char → Option (Entries × List Char)
  | 0, _, _, _ => none
  | rounds + 1, depth, entries, cs =>
    match readKey cs with
    | some (path, key, '=' :: rest) =>
      match readValue rounds depth (skipSpace rest) with
      | none => none
      | some (item, rest) =>
        match Entries.assign? path key item entries with
        | none => none
        | some entries =>
          match skipSpace rest with
          | ',' :: rest => readEntries rounds depth entries rest
          | '\x7d' :: rest => some (entries, rest)
          | _ => none
    | _ => none

end

/-- What was read so far: the document and the latest header. -/
structure Progress where
  document : Entries
  header : List String

namespace Progress

def readAssignment (p : Progress) (cs : List Char) : Option (Progress × List Char) :=
  match readKey cs with
  | some (path, key, '=' :: rest) => do
    let (item, rest) ← readValue (2 * rest.length + 2) 0 (skipSpace rest)
    let rest ← skipLineRest? rest
    let document ← p.document.assignUnder? p.header path key item
    pure ({ p with document }, rest)
  | _ => none

/-- A line with the header of a table, or with a double one. -/
def readHeader (p : Progress) (cs : List Char) : Option (Progress × List Char) :=
  match cs with
  | '[' :: '[' :: rest =>
    match readKey rest with
    | some (path, key, ']' :: ']' :: rest) => do
      let rest ← skipLineRest? rest
      let document ← p.document.openNextTable? path key
      pure (⟨document, path ++ [key]⟩, rest)
    | _ => none
  | '[' :: rest =>
    match readKey rest with
    | some (path, key, ']' :: rest) => do
      let rest ← skipLineRest? rest
      let document ← p.document.openTable? path key
      pure (⟨document, path ++ [key]⟩, rest)
    | _ => none
  | _ => none

/-- The lines of a document, one a round. -/
def readLines : Nat → Progress → List Char → Option Entries
  | 0, _, _ => none
  | rounds + 1, p, cs =>
    match skipSpace cs with
    | [] => some p.document
    | '[' :: rest =>
      match p.readHeader ('[' :: rest) with
      | some (p, rest) => p.readLines rounds rest
      | none => none
    | cs =>
      match skipLineRest? cs with
      | some rest => p.readLines rounds rest
      | none =>
        match p.readAssignment cs with
        | some (p, rest) => p.readLines rounds rest
        | none => none

end Progress

def byteOrderMark : Char := Char.ofNat 0xFEFF

def parse? (s : String) : Option Entries :=
  let cs := match s.toList with
    | c :: rest => if c = byteOrderMark then rest else c :: rest
    | [] => []
  Progress.readLines (cs.length + 1) ⟨[], []⟩ cs

end TokenGrammar.Toml
