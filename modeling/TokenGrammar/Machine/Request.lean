import TokenGrammar.Machine.Basic

/-!
# Requests

A renderer asks for changes by requests, which are carried out in order until one fails.
Signals are passed on to the surface; moving back at the root becomes one.
-/

namespace TokenGrammar

/-- What is left to the surface. -/
inductive Signal where
  | focus
  | blur
  | cancel
deriving DecidableEq, Repr

/-- What a renderer may ask a machine for. -/
inductive Request where
  | transition
  | archive
  | unarchive
  | removeArchived (index : Nat)
  | clearArchive
  | rewind
  | signal (signal : Signal)
deriving DecidableEq, Repr

inductive Response where
  | moved (target : Nat)
  | archived
  | unarchived
  | removed (values : List Choice)
  | signal (signal : Signal)

namespace Machine

def handle : Request → Op Response
  | .transition => return .moved (← transition)
  | .archive => do
    archive
    return .archived
  | .unarchive => do
    unarchive
    return .unarchived
  | .removeArchived index => return .removed [← removeArchived index]
  | .clearArchive => return .removed (← clearArchive)
  | .rewind => do
    match ← rewind with
    | some parent => return .moved parent
    | none => return .signal .cancel
  | .signal signal => return .signal signal

/-- Carries out requests in order until one fails. -/
def handleAll : List Request → Op (List Response)
  | [] => return []
  | request :: requests => do
    let response ← handle request
    return response :: (← handleAll requests)

end Machine

end TokenGrammar
