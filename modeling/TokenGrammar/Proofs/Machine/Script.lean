import TokenGrammar.Proofs.Machine.Command

/-!
# Calls are scripts of single actions

A restoration and a list of requests do many things in one call.  Whatever they do is a
series of single actions, each of which could be a call of its own: an edit of the active
slot, an archive operation, a move or a reset.  A fact about all that a machine emits is
therefore a fact about single actions.
-/

namespace TokenGrammar

/-- One thing that is done with a machine. -/
inductive Action where
  | edit (edit : Edit)
  | archive
  | unarchive
  | removeArchived (index : Nat)
  | clearArchive
  | advance (ignoreBindOnly : Bool)
  | rewind
  | reset
  | store (id : Nat) (use : StoreUse)
  | provider (id : Nat) (fetch : Provider)

namespace Machine

open Operation

/-- The machine behind an action and what it emits, whatever the action answers. -/
def act (m : Machine) : Action → Outcome Machine Notice Unit
  | .edit edit => after ((runSlot (Slot.perform edit)).run m)
  | .archive => after (Machine.archive.run m)
  | .unarchive => after (Machine.unarchive.run m)
  | .removeArchived index => after ((Machine.removeArchived index).run m)
  | .clearArchive => after (Machine.clearArchive.run m)
  | .advance ignoreBindOnly => after ((Machine.advance ignoreBindOnly).run m)
  | .rewind => after (Machine.rewind.run m)
  | .reset => after (Machine.reset.run m)
  | .store id use => ⟨(), m.withStore id ((m.tree.slot id).store.apply use).2, []⟩
  | .provider id fetch => ⟨(), m.turn (.provider id fetch), []⟩
where
  after {α : Type} (outcome : Outcome Machine Notice α) : Outcome Machine Notice Unit :=
    ⟨(), outcome.state, outcome.events⟩

/-- The machine behind a script and all that it emits on the way. -/
def follow (m : Machine) : List Action → Outcome Machine Notice Unit
  | [] => ⟨(), m, []⟩
  | action :: script =>
    let rest := (m.act action).state.follow script
    ⟨(), rest.state, (m.act action).events ++ rest.events⟩

/-- Some script emits the events and leads from one machine to the other. -/
def Scripted (m : Machine) (events : List Notice) (m' : Machine) : Prop :=
  ∃ script, m.follow script = ⟨(), m', events⟩

variable {m : Machine} {α η : Type}

theorem follow_append (m : Machine) (script later : List Action) :
    m.follow (script ++ later) =
      ⟨(), ((m.follow script).state.follow later).state,
        (m.follow script).events ++ ((m.follow script).state.follow later).events⟩ := by
  induction script generalizing m with
  | nil => rfl
  | cons action script ih => simp [follow, ih]

theorem record_scripted : Record Scripted where
  nothing := ⟨[], rfl⟩
  append := by
    rintro m mid m' events later ⟨script, hscript⟩ ⟨rest, hrest⟩
    exact ⟨script ++ rest, by rw [follow_append, hscript, hrest]⟩

theorem scripted_act (m : Machine) (action : Action) :
    Scripted m (m.act action).events (m.act action).state :=
  ⟨[action], by simp [follow]⟩

/-! ## Operations as scripts -/

/-- An operation of slots that is a call but for its answer. -/
theorem scripted_runSlot {act : Slot.Op α} (edit : Edit) (f : α → Answer)
    (h : Slot.perform edit = act >>= fun a => pure (f a)) : Records Scripted (runSlot act) := by
  intro m
  have hcall := m.scripted_act (.edit edit)
  have hrun := run_bind_pure act f m.currentSlot
  rw [← h] at hrun
  have hslot : ((Slot.perform edit).run m.currentSlot).state = (act.run m.currentSlot).state ∧
      ((Slot.perform edit).run m.currentSlot).events = (act.run m.currentSlot).events := by
    rw [hrun]
    exact ⟨rfl, rfl⟩
  change Scripted m (((Slot.perform edit).run m.currentSlot).events.map (.slot m.current))
    { m with tree := m.tree.set m.current ((Slot.perform edit).run m.currentSlot).state } at hcall
  rw [hslot.1, hslot.2] at hcall
  exact hcall

theorem scripted_enter (raw : Json) : Records Scripted (enter raw) :=
  scripted_runSlot (.setRaw raw) .value rfl

theorem scripted_activate (raw? : Option Json) : Records Scripted (activate raw?) :=
  records_bind record_scripted (records_read record_scripted _) fun context =>
    scripted_runSlot (.activate context raw?) (fun _ => .done) rfl

theorem scripted_archive : Records Scripted archive := fun m => m.scripted_act .archive

theorem scripted_unarchive : Records Scripted unarchive := fun m => m.scripted_act .unarchive

theorem scripted_removeArchived (index : Nat) : Records Scripted (removeArchived index) :=
  fun m => m.scripted_act (.removeArchived index)

theorem scripted_clearArchive : Records Scripted clearArchive :=
  fun m => m.scripted_act .clearArchive

theorem scripted_advance (ignoreBindOnly : Bool) : Records Scripted (advance ignoreBindOnly) :=
  fun m => m.scripted_act (.advance ignoreBindOnly)

theorem scripted_rewind : Records Scripted rewind := fun m => m.scripted_act .rewind

theorem scripted_reset : Records Scripted reset := fun m => m.scripted_act .reset

theorem scripted_pure (a : α) : Records Scripted (pure a : Op α) := records_pure record_scripted a

/-! ### Restorations -/

theorem scripted_bindItems (vkey : String) (raw : Json) (items : List Json) :
    Records Scripted (bindItems vkey raw items) := by
  induction items with
  | nil => exact scripted_pure _
  | cons item items ih =>
      refine records_bind record_scripted (scripted_enter item) fun value? => ?_
      cases value? with
      | none => exact records_fail record_scripted _
      | some value => exact records_bind record_scripted scripted_archive fun _ => ih

theorem scripted_bindCurrent (vkey : String) (raw : Json) :
    Records Scripted (bindCurrent vkey raw) := by
  refine records_bind record_scripted (records_read record_scripted _) fun slot => ?_
  split
  · exact records_bind record_scripted (scripted_activate none) fun _ =>
      scripted_bindItems vkey raw _
  · refine records_bind record_scripted (scripted_activate (some raw)) fun _ =>
      records_bind record_scripted (records_read record_scripted _) fun value? => ?_
    split
    · exact records_fail record_scripted _
    · exact scripted_pure _

theorem scripted_goOn {below : List String → Op (List String)}
    (hbelow : ∀ pending, Records Scripted (below pending)) (pending : List String) :
    Records Scripted (goOn below pending) := by
  refine records_bind record_scripted (records_read record_scripted _) fun terminal => ?_
  split
  · exact scripted_pure _
  · exact records_bind record_scripted (scripted_advance true) fun _ => hbelow pending

theorem scripted_bindFrom (token : Token) (rounds : Nat) (pending : List String) :
    Records Scripted (bindFrom token rounds pending) := by
  induction rounds generalizing pending with
  | zero => exact scripted_pure _
  | succ rounds ih =>
      rw [bindFrom]
      refine records_bind record_scripted (records_read record_scripted _) fun slot => ?_
      split
      · exact records_bind record_scripted (scripted_activate none) fun _ =>
          scripted_goOn ih pending
      · split
        · exact records_bind record_scripted (scripted_activate none) fun _ => scripted_pure _
        · exact records_bind record_scripted (scripted_bindCurrent _ _) fun _ =>
            scripted_goOn ih _

theorem scripted_bindPath (token : Token) : Records Scripted (bindPath token) := by
  refine records_bind record_scripted scripted_reset fun _ =>
    records_bind record_scripted (records_read record_scripted _) fun rounds =>
      records_bind record_scripted (scripted_bindFrom token rounds _) fun pending => ?_
  split
  · exact records_fail record_scripted _
  · exact scripted_pure _

theorem scripted_bindValues (token : Token) : Records Scripted (bindValues token) := by
  -- A failure may be followed by a reset, which is one more action.
  intro m
  have hpath := scripted_bindPath token m
  unfold Operation.run bindValues
  split
  next error mid events hrun =>
    rw [hrun] at hpath
    split
    · exact record_scripted.append hpath (scripted_reset mid)
    · exact hpath
  next => exact hpath

/-! ### Requests and calls -/

theorem scripted_handle (request : Request) : Records Scripted (handle request) := by
  cases request with
  | transition =>
      exact records_bind record_scripted (scripted_advance false) fun _ => scripted_pure _
  | archive => exact records_bind record_scripted scripted_archive fun _ => scripted_pure _
  | unarchive => exact records_bind record_scripted scripted_unarchive fun _ => scripted_pure _
  | removeArchived index =>
      exact records_bind record_scripted (scripted_removeArchived index) fun _ => scripted_pure _
  | clearArchive =>
      exact records_bind record_scripted scripted_clearArchive fun _ => scripted_pure _
  | rewind =>
      refine records_bind record_scripted scripted_rewind fun parent? => ?_
      cases parent? <;> exact scripted_pure _
  | signal signal => exact scripted_pure _

theorem scripted_handleAll (requests : List Request) : Records Scripted (handleAll requests) := by
  induction requests with
  | nil => exact scripted_pure _
  | cons request requests ih =>
      exact records_bind record_scripted (scripted_handle request) fun _ =>
        records_bind record_scripted ih fun _ => scripted_pure _

theorem scripted_perform (command : Command) : Records Scripted (perform command) := by
  cases command with
  | edit edit => exact fun m => m.scripted_act (.edit edit)
  | transition =>
      exact records_bind record_scripted (scripted_advance false) fun _ => scripted_pure _
  | rewind => exact records_bind record_scripted scripted_rewind fun _ => scripted_pure _
  | reset => exact records_bind record_scripted scripted_reset fun _ => scripted_pure _
  | activate raw? =>
      exact records_bind record_scripted (scripted_activate raw?) fun _ => scripted_pure _
  | archive => exact records_bind record_scripted scripted_archive fun _ => scripted_pure _
  | unarchive => exact records_bind record_scripted scripted_unarchive fun _ => scripted_pure _
  | removeArchived index =>
      exact records_bind record_scripted (scripted_removeArchived index) fun _ => scripted_pure _
  | clearArchive =>
      exact records_bind record_scripted scripted_clearArchive fun _ => scripted_pure _
  | bind token =>
      exact records_bind record_scripted (scripted_bindValues token) fun _ => scripted_pure _
  | handle requests =>
      exact records_bind record_scripted (scripted_handleAll requests) fun _ => scripted_pure _
  | store id use => exact fun m => m.scripted_act (.store id use)

/-! ## Runs -/

/-- All that a machine emits in a run of turns. -/
def notices (m : Machine) : List Turn → List Notice
  | [] => []
  | .call command :: turns =>
    ((perform command).run m).events ++ (m.turn (.call command)).notices turns
  | .provider id fetch :: turns => (m.turn (.provider id fetch)).notices turns

/-- A run is a script of single actions, with the same events and the same end. -/
theorem scripted_play (m : Machine) (turns : List Turn) :
    Scripted m (m.notices turns) (m.play turns) := by
  induction turns generalizing m with
  | nil => exact record_scripted.nothing
  | cons turn turns ih =>
      cases turn with
      | call command => exact record_scripted.append (scripted_perform command m) (ih _)
      | provider id fetch =>
          exact record_scripted.append (m.scripted_act (.provider id fetch)) (ih _)

end Machine

end TokenGrammar
