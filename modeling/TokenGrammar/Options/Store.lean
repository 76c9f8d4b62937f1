import TokenGrammar.Options.Source

/-!
# The live options of a step

A store counts its requests.  Each request gets a ticket with the count at its time, and
a result is applied only if its ticket is still the latest, so a slow answer never
replaces a newer one.  A reset counts as a request, which makes all tickets before it
stale.
-/

namespace TokenGrammar

structure Ticket where
  generation : Nat
  hint : String
deriving DecidableEq, Repr

/-- The fate of a request. -/
inductive Refreshed where
  /-- It was the latest one, and its result replaced the options. -/
  | applied
  /-- There was a newer one, and its result was dropped. -/
  | stale
  /-- There is no source to ask. -/
  | skipped
deriving DecidableEq, Repr

/-- What a refresh comes to at once: its end, or a request that is still open. -/
inductive Refresh where
  | ended (result : Except String Refreshed)
  | waiting (ticket : Ticket)

/-- The options on offer, where they come from and how many are kept, the number of
requests so far and the hint of the last one that was applied. -/
structure OptionStore where
  source : Source
  limit : Option Nat
  options : List Choice
  issued : Nat
  appliedHint : Option String

namespace OptionStore

/-- The first options, as many as the limit allows. -/
def truncate (limit : Option Nat) (options : List Choice) : List Choice :=
  match limit with
  | some n => options.take n
  | none => options

/-- The options on offer before the first request. -/
def initialOptions (source : Source) (limit : Option Nat) : List Choice :=
  match source with
  | .fixed options => truncate limit options
  | _ => []

def new (source : Source) (limit : Option Nat) : OptionStore :=
  ⟨source, limit, initialOptions source limit, 0, none⟩

instance : Inhabited OptionStore := ⟨new .absent none⟩

def hasSource (store : OptionStore) : Bool := store.source.isPresent

def find? (store : OptionStore) (key : Json) : Option Choice :=
  store.options.find? fun o => o.key == key

/-- Opens a request; every earlier one becomes stale. -/
def issue (store : OptionStore) (hint : String) : Ticket × OptionStore :=
  (⟨store.issued + 1, hint⟩, { store with issued := store.issued + 1 })

def isCurrent (store : OptionStore) (ticket : Ticket) : Bool :=
  store.issued == ticket.generation

/-- Applies the result of a request if it is still the latest. -/
def complete (store : OptionStore) (ticket : Ticket) (options : List Choice) :
    Refreshed × OptionStore :=
  if store.isCurrent ticket then
    (.applied, { store with
      options := truncate store.limit options, appliedHint := some ticket.hint })
  else (.stale, store)

/-- Ends a request with options or with the reason of a failure.  The failure of a stale
request is not reported. -/
def settle (store : OptionStore) (ticket : Ticket) :
    Except String (List Choice) → Except String Refreshed × OptionStore
  | .ok options =>
    let (refreshed, store) := store.complete ticket options
    (.ok refreshed, store)
  | .error reason =>
    if store.isCurrent ticket then (.error reason, store) else (.ok .stale, store)

/-- Asks the source and applies its answer.  A request that has to wait stays open. -/
def refresh (store : OptionStore) (hint : String) (context : Context) (archive : List Choice) :
    Refresh × OptionStore :=
  if !store.hasSource then (.ended (.ok .skipped), store)
  else
    let (ticket, store) := store.issue hint
    match store.source.fetch hint context archive with
    | .ready options =>
      let (result, store) := store.settle ticket (.ok options)
      (.ended result, store)
    | .failed reason =>
      let (result, store) := store.settle ticket (.error reason)
      (.ended result, store)
    | .waiting => (.waiting ticket, store)

/-- Goes back to the initial options; requests still open become stale. -/
def reset (store : OptionStore) : OptionStore :=
  { store with
    options := initialOptions store.source store.limit
    issued := store.issued + 1
    appliedHint := none }

end OptionStore

end TokenGrammar
