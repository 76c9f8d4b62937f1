import TokenGrammar.Proofs.Machine.Command

/-!
# Invariants of a machine

An operation is made of changes to the active slot, of moves and of resets.  What all of
these preserve holds after every run; `Preserved` lists them once, and each invariant
gives its reasons there.
-/

namespace TokenGrammar.Machine

open Operation

/-- What is left untouched by everything that can happen to a machine.  Moves on are
counted only in the ways that are allowed. -/
structure Preserved (allowed : Bool → Prop) (invariant : Machine → Prop) : Prop where
  inPlace : ∀ {start m}, InPlace start m → invariant start → invariant m
  advance : ∀ {ignoreBindOnly}, allowed ignoreBindOnly →
    Keeps invariant (advance ignoreBindOnly)
  rewind : Keeps invariant rewind
  reset : Keeps invariant reset

namespace Preserved

variable {allowed : Bool → Prop} {invariant : Machine → Prop} {α : Type}

theorem nothing : Preserved allowed fun _ => True :=
  ⟨fun _ h => h, fun _ _ h => h, fun _ h => h, fun _ h => h⟩

theorem of_inPlace (h : Preserved allowed invariant) {operation : Op α}
    (hplace : ∀ start, Keeps (InPlace start) operation) : Keeps invariant operation :=
  fun m hm => h.inPlace (hplace m m (.refl m)) hm

theorem goOn (h : Preserved allowed invariant) (hallowed : allowed true)
    {below : List String → Op (List String)} (hbelow : ∀ pending, Keeps invariant (below pending))
    (pending : List String) : Keeps invariant (goOn below pending) := by
  refine keeps_bind (keeps_read _) fun terminal => ?_
  split
  · exact keeps_pure _
  · exact keeps_bind (h.advance hallowed) fun _ => hbelow pending

theorem bindFrom (h : Preserved allowed invariant) (hallowed : allowed true) (token : Token)
    (rounds : Nat) (pending : List String) :
    Keeps invariant (bindFrom token rounds pending) := by
  induction rounds generalizing pending with
  | zero =>
      rw [Machine.bindFrom]
      exact keeps_pure _
  | succ rounds ih =>
      -- Giving the step its entry is in place; only the move to the next round is not.
      have hactivate : Keeps invariant (activate none) :=
        h.of_inPlace fun _ => keeps_activate none
      rw [Machine.bindFrom]
      refine keeps_bind (keeps_read _) fun slot => ?_
      split
      · exact keeps_bind hactivate fun _ => h.goOn hallowed ih pending
      · split
        · exact keeps_bind hactivate fun _ => keeps_pure _
        · exact keeps_bind (h.of_inPlace fun _ => keeps_bindCurrent _ _) fun _ =>
            h.goOn hallowed ih _

theorem bindPath (h : Preserved allowed invariant) (hallowed : allowed true) (token : Token) :
    Keeps invariant (bindPath token) := by
  refine keeps_bind h.reset fun _ => keeps_bind (keeps_read _) fun rounds =>
    keeps_bind (h.bindFrom hallowed token rounds _) fun pending => ?_
  split
  · exact keeps_fail _
  · exact keeps_pure _

theorem bindValues (h : Preserved allowed invariant) (hallowed : allowed true)
    (token : Token) : Keeps invariant (bindValues token) := by
  -- The invariant holds however the walk ends, so also before the reset after a failure.
  intro m hm
  have hafter := h.bindPath hallowed token m hm
  unfold run Machine.bindValues
  split
  next error m' events hrun =>
    rw [hrun] at hafter
    split
    · exact h.reset m' hafter
    · exact hafter
  next => exact hafter

theorem handle (h : Preserved allowed invariant) (hallowed : allowed false)
    (request : Request) : Keeps invariant (handle request) := by
  cases request with
  | transition => exact keeps_bind (h.advance hallowed) fun _ => keeps_pure _
  | archive => exact keeps_bind (h.of_inPlace fun _ => keeps_archive) fun _ => keeps_pure _
  | unarchive => exact keeps_bind (h.of_inPlace fun _ => keeps_unarchive) fun _ => keeps_pure _
  | removeArchived index =>
      exact keeps_bind (h.of_inPlace fun _ => keeps_removeArchived index) fun _ => keeps_pure _
  | clearArchive =>
      exact keeps_bind (h.of_inPlace fun _ => keeps_clearArchive) fun _ => keeps_pure _
  | rewind =>
      refine keeps_bind h.rewind fun parent? => ?_
      cases parent? <;> exact keeps_pure _
  | signal signal => exact keeps_pure _

theorem handleAll (h : Preserved allowed invariant) (hallowed : allowed false)
    (requests : List Request) : Keeps invariant (handleAll requests) := by
  induction requests with
  | nil => exact keeps_pure _
  | cons request requests ih =>
      exact keeps_bind (h.handle hallowed request) fun _ => keeps_bind ih fun _ => keeps_pure _

/-- Every call keeps the invariant; only a restoration moves on past what users may enter. -/
theorem perform (h : Preserved allowed invariant) (hallowed : allowed false)
    (hstore : ∀ m id use, invariant m →
      invariant (m.withStore id ((m.tree.slot id).store.apply use).2))
    (command : Command) (hbind : (∃ token, command = .bind token) → allowed true) :
    Keeps invariant (perform command) := by
  cases command with
  | edit edit => exact h.of_inPlace fun _ => keeps_runSlot fun _ => Slot.keeps_perform edit
  | transition => exact keeps_bind (h.advance hallowed) fun _ => keeps_pure _
  | rewind => exact keeps_bind h.rewind fun _ => keeps_pure _
  | reset => exact keeps_bind h.reset fun _ => keeps_pure _
  | activate raw? =>
      exact keeps_bind (h.of_inPlace fun _ => keeps_activate raw?) fun _ => keeps_pure _
  | archive => exact keeps_bind (h.of_inPlace fun _ => keeps_archive) fun _ => keeps_pure _
  | unarchive => exact keeps_bind (h.of_inPlace fun _ => keeps_unarchive) fun _ => keeps_pure _
  | removeArchived index =>
      exact keeps_bind (h.of_inPlace fun _ => keeps_removeArchived index) fun _ => keeps_pure _
  | clearArchive =>
      exact keeps_bind (h.of_inPlace fun _ => keeps_clearArchive) fun _ => keeps_pure _
  | bind token =>
      exact keeps_bind (h.bindValues (hbind ⟨token, rfl⟩) token) fun _ => keeps_pure _
  | handle requests =>
      exact keeps_bind (h.handleAll hallowed requests) fun _ => keeps_pure _
  | store id use => exact fun m hm => hstore m id use hm

theorem after (h : Preserved allowed invariant)
    (hallowed : ∀ ignoreBindOnly, allowed ignoreBindOnly)
    (hstore : ∀ m id use, invariant m →
      invariant (m.withStore id ((m.tree.slot id).store.apply use).2))
    {m : Machine} (hm : invariant m) (commands : List Command) :
    invariant (m.after commands) := by
  induction commands generalizing m with
  | nil => exact hm
  | cons command commands ih =>
      exact ih (h.perform (hallowed false) hstore command (fun _ => hallowed true) m hm)

end Preserved

end TokenGrammar.Machine
