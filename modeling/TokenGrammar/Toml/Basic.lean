/-!
# TOML documents

A document is a table of items.  Tables come about in three ways, which decides what may
be added to them later: by a header of their own, by the header of a table below them, or
by a key with points in it.  A table with a header cannot get another one nor be extended
by such a key, and a key is given once.
-/

namespace TokenGrammar.Toml

/-- How a table came about. -/
inductive Origin where
  /-- It has a header, or stands for itself. -/
  | explicit
  /-- Only a table below it has a header. -/
  | implied
  /-- It is part of a key with points. -/
  | dotted
deriving DecidableEq, Repr

/-- What stands under a key.  Numbers and times are not told apart beyond their sort. -/
inductive Item where
  | text (s : String)
  | boolean (b : Bool)
  | number
  | moment
  | array (items : List Item)
  /-- A table in braces, which is complete as it stands. -/
  | inline (entries : List (String × Item))
  | table (origin : Origin) (entries : List (String × Item))
  /-- The tables of repeated double headers. -/
  | tables (all : List (List (String × Item)))

abbrev Entries := List (String × Item)

namespace Entries

def get? (entries : Entries) (key : String) : Option Item :=
  (entries.find? fun e => e.1 == key).map (·.2)

/-- The entries with one item put in place of the one under its key, or at the end. -/
def set : Entries → String → Item → Entries
  | [], key, item => [(key, item)]
  | (k, i) :: rest, key, item => if k == key then (k, item) :: rest else (k, i) :: set rest key item

/-- The entries with one more, unless its key is taken. -/
def insert? (entries : Entries) (key : String) (item : Item) : Option Entries :=
  match entries.get? key with
  | some _ => none
  | none => some (entries ++ [(key, item)])

/-- Changes the table at a path.  Tables that are missing on the way come about with the
given origin.  A key with points cannot pass through a table with a header. -/
def change? (origin : Origin) (edit : Origin → Entries → Option Entries) :
    List String → Origin → Entries → Option Entries
  | [], kind, entries => edit kind entries
  | key :: path, _, entries =>
    match entries.get? key with
    | none => (change? origin edit path origin []).map fun inner =>
        entries.set key (.table origin inner)
    | some (.table kind inner) =>
      if origin = .dotted ∧ kind = .explicit then none
      else (change? origin edit path kind inner).map fun inner =>
        entries.set key (.table kind inner)
    | some (.tables all) =>
      match all.getLast? with
      | some inner => (change? origin edit path .explicit inner).map fun inner =>
          entries.set key (.tables (all.dropLast ++ [inner]))
      | none => none
    | some _ => none

/-- Adds a key and its item to a table.  Keys with points only add to tables that such
keys made, and other keys to others. -/
def assign? (path : List String) (key : String) (item : Item) (entries : Entries) :
    Option Entries :=
  change? .dotted (fun kind inner =>
    if kind = .dotted ↔ path ≠ [] then inner.insert? key item else none) path .explicit entries

def assignUnder? (header path : List String) (key : String) (item : Item) (document : Entries) :
    Option Entries :=
  change? .implied (fun _ inner => inner.assign? path key item) header .explicit document

def openTable? (path : List String) (key : String) (document : Entries) : Option Entries :=
  change? .implied (fun _ inner =>
    match inner.get? key with
    | none => some (inner.set key (.table .explicit []))
    | some (.table .implied below) => some (inner.set key (.table .explicit below))
    | some _ => none) path .explicit document

def openNextTable? (path : List String) (key : String) (document : Entries) : Option Entries :=
  change? .implied (fun _ inner =>
    match inner.get? key with
    | none => some (inner.set key (.tables [[]]))
    | some (.tables all) => some (inner.set key (.tables (all ++ [[]])))
    | some _ => none) path .explicit document

end Entries

end TokenGrammar.Toml
