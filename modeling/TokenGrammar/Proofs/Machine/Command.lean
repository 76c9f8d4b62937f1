import TokenGrammar.Proofs.Machine.Frame

/-!
# What callers may do with a machine

A command is one call from outside: an edit of the active step, a move, an archive
operation, a restoration, a list of requests, or a use of the options of any step through a
handle.  Between two calls a provider may come to know other options.
-/

namespace TokenGrammar

/-- A call on the active step. -/
inductive Edit where
  | setValue (value? : Option Choice)
  | setRaw (raw : Json)
  | setPreview (preview? : Option Choice)
  | setRawPreview (raw : Json)
  | archive
  | unarchive
  | removeArchived (index : Nat)
  | clearArchive
  | reset
  | activate (context : Context) (raw? : Option Json)

/-- An edit of what the slot holds, which has nothing to do with its options. -/
def Edit.Holding : Edit → Prop
  | .reset | .activate _ _ => False
  | _ => True

/-- A call on the options of a step. -/
inductive StoreUse where
  | issue (hint : String)
  | complete (ticket : Ticket) (options : List Choice)
  | refresh (hint : String) (context : Context) (archive : List Choice)
  /-- A refresh that had to wait resolves. -/
  | settle (ticket : Ticket) (result : Except String (List Choice))
  | reset

/-- A call on a machine. -/
inductive Command where
  | edit (edit : Edit)
  | transition
  | rewind
  | reset
  | activate (raw? : Option Json)
  | archive
  | unarchive
  | removeArchived (index : Nat)
  | clearArchive
  | bind (token : Token)
  | handle (requests : List Request)
  /-- A use of the options of the step with an id. -/
  | store (id : Nat) (use : StoreUse)

/-- What may happen to a machine. -/
inductive Turn where
  | call (command : Command)
  /-- The provider of the step with an id answers in another way from now on. -/
  | provider (id : Nat) (fetch : Provider)

/-- The source with another provider behind it, if there is one. -/
def Source.answering (source : Source) (fetch : Provider) : Source :=
  match source with
  | .provider _ => .provider fetch
  | _ => source

inductive Answer where
  | done
  | value (value? : Option Choice)
  | removed (values : List Choice)
  | moved (target? : Option Nat)
  | responses (responses : List Response)
  | ticket (ticket : Ticket)
  | refresh (refresh : Refresh)

namespace Operation

variable {σ ν ε α η : Type}

/-- An action that always ends. -/
def always (act : σ → Outcome σ ν α) : Operation σ ν ε α := fun s =>
  ⟨.ok (act s).answer, (act s).state, (act s).events⟩

/-- An action that may fail. -/
def attempt (act : σ → Outcome σ ν (Except η α)) (lift : η → Halt ε) : Operation σ ν ε α :=
  fun s => ⟨(act s).answer.mapError lift, (act s).state, (act s).events⟩

end Operation

namespace Slot

open Operation

/-- Carries out a call on a step. -/
def perform : Edit → Op Answer
  | .setValue value? => do
    always (·.setValue value?)
    return .done
  | .setRaw raw => return .value (← enter raw)
  | .setPreview preview? => do
    always (·.setPreview preview?)
    return .done
  | .setRawPreview raw => do
    attempt (·.setRawPreview raw) .fault
    return .done
  | .archive => do
    attempt archiveValue .failed
    return .done
  | .unarchive => do
    attempt unarchiveValue fun error => .failed (.archive error)
    return .done
  | .removeArchived index => do
    let value ← attempt (·.removeArchived index) fun error => .failed (.archive error)
    return .removed [value]
  | .clearArchive => return .removed (← always clearArchive)
  | .reset => do
    always reset
    return .done
  | .activate context raw? => do
    activate context raw?
    return .done

variable {start : Slot}

theorem sameOffer_perform {edit : Edit} (h : edit.Holding) (s : Slot) :
    SameOffer s ((perform edit).run s).state := by
  cases edit with
  | setValue value? => exact sameOffer_setValue s value?
  | setRaw raw =>
      rw [perform, run_bind_pure, enter_state]
      exact sameOffer_setRaw s raw
  | setPreview preview? => exact sameOffer_setPreview s preview?
  | setRawPreview raw =>
      rw [perform, run_bind_pure]
      exact sameOffer_setRawPreview s raw
  | archive =>
      rw [perform, run_bind_pure]
      exact sameOffer_archiveValue s
  | unarchive =>
      rw [perform, run_bind_pure]
      exact sameOffer_unarchiveValue s
  | removeArchived index =>
      rw [perform, run_bind_pure]
      exact sameOffer_removeArchived s index
  | clearArchive => exact sameOffer_clearArchive s
  | _ => exact h.elim

theorem keeps_perform_of_holding {edit : Edit} (h : edit.Holding) :
    Keeps (SameStep start) (perform edit) :=
  fun s hs => hs.trans (sameOffer_perform h s).sameStep

theorem keeps_perform (edit : Edit) : Keeps (SameStep start) (perform edit) := by
  cases edit with
  | reset => exact keeps_bind (fun s hs => hs.trans (sameStep_reset s)) fun _ => keeps_pure _
  | activate context raw? =>
      exact keeps_bind ((loading_sameStep start).activate context raw?) fun _ => keeps_pure _
  | _ => exact keeps_perform_of_holding trivial

end Slot

/-- The answer to a use of a store, and the store behind it. -/
def OptionStore.apply (store : OptionStore) : StoreUse → Answer × OptionStore
  | .issue hint => (.ticket (store.issue hint).1, (store.issue hint).2)
  | .complete ticket options =>
    (.refresh (.ended (.ok (store.complete ticket options).1)), (store.complete ticket options).2)
  | .refresh hint context archive =>
    (.refresh (store.refresh hint context archive).1, (store.refresh hint context archive).2)
  | .settle ticket result =>
    (.refresh (.ended (store.settle ticket result).1), (store.settle ticket result).2)
  | .reset => (.done, store.reset)

theorem OptionStore.apply_source_limit (store : OptionStore) (use : StoreUse) :
    (store.apply use).2.source = store.source ∧ (store.apply use).2.limit = store.limit := by
  have hcomplete (ticket : Ticket) (options : List Choice) :
      (store.complete ticket options).2.source = store.source ∧
        (store.complete ticket options).2.limit = store.limit := by
    unfold complete
    split <;> exact ⟨rfl, rfl⟩
  cases use with
  | issue hint => exact ⟨rfl, rfl⟩
  | complete ticket options => exact hcomplete ticket options
  | refresh hint context archive => exact Slot.refresh_source_limit store hint context archive
  | settle ticket result =>
      cases result with
      | ok options => exact hcomplete ticket options
      | error reason =>
          simp only [apply, OptionStore.settle]
          split <;> exact ⟨rfl, rfl⟩
  | reset => exact ⟨rfl, rfl⟩

namespace Machine

def withStore (m : Machine) (id : Nat) (store : OptionStore) : Machine :=
  { m with tree := m.tree.set id { m.tree.slot id with store } }

theorem nodes_withStore (m : Machine) (id : Nat) (store : OptionStore) :
    (m.withStore id store).tree.nodes = m.tree.nodes :=
  Tree.nodes_set rfl

theorem slot_withStore (m : Machine) (id : Nat) (store : OptionStore) (target : Nat) :
    (m.withStore id store).tree.slot target = m.tree.slot target ∨
      target = id ∧ (m.withStore id store).tree.slot target = { m.tree.slot id with store } :=
  Tree.slot_set ..

/-- Carries out a call. -/
def perform : Command → Op Answer
  | .edit edit => runSlot (Slot.perform edit)
  | .transition => return .moved (← transition)
  | .rewind => return .moved (← rewind)
  | .reset => do
    reset
    return .done
  | .activate raw? => do
    activate raw?
    return .done
  | .archive => do
    archive
    return .done
  | .unarchive => do
    unarchive
    return .done
  | .removeArchived index => return .removed [← removeArchived index]
  | .clearArchive => return .removed (← clearArchive)
  | .bind token => do
    bindValues token
    return .done
  | .handle requests => return .responses (← handleAll requests)
  | .store id use => fun m =>
    let (answer, store) := (m.tree.slot id).store.apply use
    ⟨.ok answer, m.withStore id store, []⟩

/-- The machine after a run of calls, whatever came of each. -/
def after (m : Machine) (commands : List Command) : Machine :=
  commands.foldl (fun m command => ((perform command).run m).state) m

def turn (m : Machine) : Turn → Machine
  | .call command => ((perform command).run m).state
  | .provider id fetch =>
    let store := (m.tree.slot id).store
    m.withStore id { store with source := store.source.answering fetch }

def play (m : Machine) (turns : List Turn) : Machine := turns.foldl turn m

end Machine

end TokenGrammar
