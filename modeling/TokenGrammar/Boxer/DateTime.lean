import TokenGrammar.Boxer.Basic
import TokenGrammar.Time.Pattern
import TokenGrammar.Time.Timestamp

/-!
# Dates and times

The key of an instant is its timestamp in universal time, so that keys sort like time.
The pattern of a step reads typed text and shows the instant; text that is already a
timestamp is read without it.
-/

namespace TokenGrammar.Boxer

def defaultPattern : String := "%Y-%m-%d %H:%M"

/-- The instant of a typed text: a timestamp, or whatever fits the pattern. -/
def typedInstant? (pattern : String) (text : List Char) : Option Time.Instant :=
  let text := Text.trim text
  match Time.Instant.ofTimestamp? text with
  | some i => some i
  | none => (Time.Pattern.ofChars? pattern.toList).bind fun items => items.instant? text

/-- The instant of a raw value, a number being a count of seconds since 1970. -/
def instant? (pattern : String) : Json → Option Time.Instant
  | .str s => typedInstant? pattern s.toList
  | .num n => n.int64?.bind Time.Instant.ofSeconds?
  | _ => none

/-- Boxes an instant under its timestamp.  A pattern that cannot be shown is a fault. -/
def boxDateTime (pattern : String) (raw : Json) (_ : List Choice) :
    Except Fault (Option Choice) :=
  match instant? pattern raw with
  | none => .ok none
  | some i =>
    match (Time.Pattern.ofChars? pattern.toList).filter Time.Pattern.isShowable with
    | none => .error (.unrenderable pattern)
    | some items =>
      .ok (some { Choice.ofKey (.str (String.ofList i.timestamp)) with
        label := some (String.ofList (items.text i)) })

def dateTime (pattern : String) : Boxer where
  box := boxDateTime pattern
  unbox choice := choice.key

end TokenGrammar.Boxer
