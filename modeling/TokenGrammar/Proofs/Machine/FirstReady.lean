import Mathlib.Data.List.Induction
import TokenGrammar.Proofs.Machine.Active
import TokenGrammar.Proofs.Machine.Reset

/-!
# The options of a step that was made ready

A step loads its options at the first call to make it ready that is answered after a reset, and
keeps them until the next reset.  They fit the choices that led to the step at that call, which
need not be those of a later visit: a later call finds the step ready and leaves it alone.
-/

namespace TokenGrammar

/-- The source answers by the hint and the context alone. -/
def Source.Contextual (source : Source) : Prop :=
  ∀ hint context archive, source.fetch hint context archive = source.fetch hint context []

/-- The sources of all steps answer so. -/
def Template.Contextual (template : Template) : Prop :=
  ∀ node ∈ (Tree.ofTemplate template).nodes, node.step.config.source.Contextual

/-- A move, or a change of what the active step holds. -/
def Command.Holding : Command → Prop
  | .edit call => call.Holding
  | .transition | .rewind | .archive | .unarchive | .removeArchived _ | .clearArchive => True
  | _ => False

/-- A call of a user who fills the steps, loads options only by making the active step ready and
starts over at will. -/
def Command.Guided (command : Command) : Prop :=
  command.Holding ∨ command = .activate none ∨ command = .reset

/-! ## Slots -/

namespace Slot

open Operation

/-- The options are the first ones of what the source answers to the empty hint in a context. -/
def Offers (s : Slot) (context : Context) : Prop :=
  ∃ found, (∀ archive, s.config.source.fetch "" context archive = .ready found) ∧
    s.store.options = OptionStore.truncate s.config.suggestionLimit found

variable {s t : Slot} {context : Context}

theorem Listing.sameOffer (h : Listing s) (hsame : SameOffer s t) : Listing t := by
  refine ⟨⟨?_, ?_⟩, ?_⟩
  · rw [hsame.store_eq, hsame.config_eq, h.source_eq]
  · rw [hsame.store_eq, hsame.config_eq, h.limit_eq]
  · rw [hsame.store_eq]
    exact h.options_eq

theorem Offers.sameOffer (h : s.Offers context) (hsame : SameOffer s t) : t.Offers context := by
  rwa [Offers, hsame.config_eq, hsame.store_eq]

/-! ### Making a slot ready -/

/-- A call to make a slot ready is answered exactly if the slot is ready then. -/
theorem answer_activate_iff (s : Slot) (context : Context) :
    ((activate context none).run s).answer = .ok () ↔
      ((activate context none).run s).state.initialized = true := by
  cases hready : s.initialized with
  | true => simp [run_activate_of_initialized hready, hready]
  | false =>
      have hload : (activate context none).run s = (load context none).run s := by
        simp [Operation.run, activate, hready]
      rw [hload, load]
      cases hhydrate : (hydrate "" context).run s with
      | mk answer t events =>
          have ht : t.initialized = false := by
            have hstate : t = s.asked "" context := by rw [← hydrate_state, hhydrate]
            rw [hstate]
            exact hready
          cases answer with
          | ok done =>
              rw [run_bind_of_ok hhydrate]
              exact iff_of_true rfl rfl
          | error reason =>
              rw [run_bind_of_error hhydrate]
              simp [ht]

theorem loading_listing : Loading Listing :=
  ⟨fun hint context h => h.asked hint context,
    fun _ h => ⟨⟨h.source_eq, h.limit_eq⟩, h.options_eq⟩,
    fun h => ⟨⟨h.source_eq, h.limit_eq⟩, h.options_eq⟩⟩

/-- A source that answers at once leaves the first options of its answer on offer. -/
theorem Listing.exists_ready_of_hydrate {hint : String} (h : Listing s)
    (hyields : (hydrate hint context).Yields s () t) :
    ∃ found, s.config.source.fetch hint context s.archive = .ready found ∧
      t.store.options = OptionStore.truncate s.config.suggestionLimit found := by
  obtain ⟨⟨found, hfetch⟩, rfl⟩ := Slot.yields_hydrate.1 hyields
  refine ⟨found, h.source_eq ▸ hfetch, ?_⟩
  cases hpresent : s.store.hasSource with
  | true => rw [Slot.options_asked hpresent hfetch, h.limit_eq]
  | false =>
      rw [OptionStore.source_of_absent hpresent] at hfetch
      obtain rfl : [] = found := Fetch.ready.inj hfetch
      rw [Slot.asked, OptionStore.refresh_of_absent hpresent, h.options_eq hpresent]
      cases s.config.suggestionLimit <;> simp [OptionStore.truncate]

theorem Listing.offers_of_activate (h : Listing s) (hsource : s.config.source.Contextual)
    (hready : s.initialized = false) (hyields : (activate context none).Yields s () t) :
    t.Offers context := by
  obtain ⟨hydrated, restored, hhydrate, hrestore, rfl⟩ := (yields_activate hready).1 hyields
  obtain ⟨-, rfl⟩ := (yields_pure () ()).1 hrestore
  obtain ⟨found, hfound, hoptions⟩ := h.exists_ready_of_hydrate hhydrate
  have hconfig : restored.config = s.config := by
    rw [← hhydrate.2, hydrate_state]
    rfl
  have hanswer (archive : List Choice) :
      s.config.source.fetch "" context archive = .ready found := by
    rw [hsource, ← hsource "" context s.archive, hfound]
  rw [← hconfig] at hanswer hoptions
  exact ⟨found, hanswer, hoptions⟩

end Slot

/-! ## Runs -/

namespace Machine

open Operation

/-- A call to make the active step ready, made behind the commands, is answered on the step with
the id. -/
def Readies (start : Machine) (commands : List Command) (id : Nat) : Prop :=
  (start.after commands).current = id ∧ ∃ m, (activate none).Yields (start.after commands) () m

/-- No call since the last reset has made the step ready. -/
def Unready (start : Machine) (commands : List Command) (id : Nat) : Prop :=
  ∀ before between, commands = before ++ .activate none :: between → .reset ∉ between →
    ¬ start.Readies before id

/-- The call behind the first commands is the one since the last reset that made the step
ready. -/
structure FirstReady (start : Machine) (commands : List Command) (id : Nat)
    (before : List Command) : Prop where
  readies : start.Readies before id
  unready : start.Unready before id
  since : ∃ between, commands = before ++ .activate none :: between ∧ .reset ∉ between

variable {start m : Machine} {commands before other : List Command} {command : Command} {id : Nat}

/-- A call in a run with one more call behind it is that one or is in the run. -/
theorem concat_eq_append_cons {call : Command} {between : List Command}
    (h : commands ++ [command] = before ++ call :: between) :
    (commands = before ∧ command = call) ∨
      ∃ rest, commands = before ++ call :: rest ∧ between = rest ++ [command] := by
  rcases between.eq_nil_or_concat with rfl | ⟨rest, last, rfl⟩
  · obtain ⟨hcommands, hcommand⟩ := List.append_inj' h rfl
    exact .inl ⟨hcommands, List.singleton_inj.1 hcommand⟩
  · rw [List.concat_eq_append, ← List.cons_append, ← List.append_assoc] at h
    obtain ⟨hcommands, hlast⟩ := List.append_inj' h rfl
    exact .inr ⟨rest, hcommands, by rw [List.concat_eq_append, hlast]⟩

theorem Unready.concat (h : start.Unready commands id)
    (hlast : command = .activate none → ¬ start.Readies commands id) :
    start.Unready (commands ++ [command]) id := by
  intro before between hsplit hreset
  rcases concat_eq_append_cons hsplit with ⟨rfl, hcommand⟩ | ⟨rest, hcommands, rfl⟩
  · exact hlast hcommand
  · exact h before rest hcommands fun hmem => hreset (List.mem_append_left _ hmem)

theorem unready_concat_reset (start : Machine) (commands : List Command) (id : Nat) :
    start.Unready (commands ++ [.reset]) id := by
  intro before between hsplit hreset
  rcases concat_eq_append_cons hsplit with ⟨-, hcommand⟩ | ⟨rest, -, rfl⟩
  · cases hcommand
  · exact absurd (List.mem_append_right _ List.mem_cons_self) hreset

theorem FirstReady.concat (h : start.FirstReady commands id before)
    (hcommand : command ≠ .reset) :
    start.FirstReady (commands ++ [command]) id before := by
  obtain ⟨between, rfl, hreset⟩ := h.since
  exact ⟨h.readies, h.unready, between ++ [command], by simp, by simp [hreset, hcommand.symm]⟩

theorem firstReady_now (hunready : start.Unready commands id)
    (hreadies : start.Readies commands id) :
    start.FirstReady (commands ++ [.activate none]) id commands :=
  ⟨hreadies, hunready, [], rfl, List.not_mem_nil⟩

theorem FirstReady.eq_of_unready (h : start.FirstReady (commands ++ [command]) id before)
    (hunready : start.Unready commands id) : before = commands := by
  obtain ⟨between, hsplit, hreset⟩ := h.since
  rcases concat_eq_append_cons hsplit with ⟨hcommands, -⟩ | ⟨rest, hcommands, rfl⟩
  · exact hcommands.symm
  · have hrest : .reset ∉ rest := fun hmem => hreset (List.mem_append_left _ hmem)
    exact absurd h.readies (hunready before rest hcommands hrest)

theorem FirstReady.eq_nil_of_append {more : List Command}
    (h : start.FirstReady commands id (before ++ more))
    (h' : start.FirstReady commands id before) : more = [] := by
  obtain ⟨between, hsplit, hreset⟩ := h.since
  obtain ⟨between', hsplit', hreset'⟩ := h'.since
  cases more with
  | nil => rfl
  | cons command more =>
      -- The earlier of the two calls would be one before the first one.
      rw [hsplit, List.append_assoc, List.append_cancel_left_eq, List.cons_append] at hsplit'
      obtain ⟨rfl, rfl⟩ := List.cons.inj hsplit'
      have hmore : .reset ∉ more := fun hmem => hreset' (List.mem_append_left _ hmem)
      exact absurd h'.readies (h.unready before more rfl hmore)

/-- There is only one such call. -/
theorem FirstReady.unique (h : start.FirstReady commands id before)
    (h' : start.FirstReady commands id other) : before = other := by
  obtain ⟨between, hsplit, -⟩ := h.since
  obtain ⟨between', hsplit', -⟩ := h'.since
  rcases List.append_eq_append_iff.1 (hsplit.symm.trans hsplit') with
    ⟨more, rfl, -⟩ | ⟨more, rfl, -⟩
  · rw [h'.eq_nil_of_append h, List.append_nil]
  · rw [h.eq_nil_of_append h', List.append_nil]

/-! ### Single calls -/

/-- The options of the slot are those of the first call since the last reset that made it ready,
if there was one. -/
structure Told (start : Machine) (commands : List Command) (id : Nat) (s : Slot) : Prop where
  listing : s.Listing
  contextual : s.config.source.Contextual
  unready : s.initialized = false → start.Unready commands id
  ready : s.initialized = true → ∃ before, start.FirstReady commands id before ∧
    s.Offers ((start.after before).tree.contextFor id)

theorem Told.concat {s t : Slot} (h : start.Told commands id s) (hsame : Slot.SameOffer s t)
    (hreset : command ≠ .reset)
    (hactivate : s.initialized = false → command = .activate none →
      ¬ start.Readies commands id) :
    start.Told (commands ++ [command]) id t := by
  refine ⟨h.listing.sameOffer hsame, ?_, fun hready => ?_, fun hready => ?_⟩
  · rw [hsame.config_eq]
    exact h.contextual
  · rw [hsame.initialized_eq] at hready
    exact (h.unready hready).concat (hactivate hready)
  · rw [hsame.initialized_eq] at hready
    obtain ⟨before, hfirst, hoffers⟩ := h.ready hready
    exact ⟨before, hfirst.concat hreset, hoffers.sameOffer hsame⟩

/-- A machine on which only what the slots hold may have changed. -/
def SameOffers (start m : Machine) : Prop :=
  ∀ id, Slot.SameOffer (start.tree.slot id) (m.tree.slot id)

section SameOffers

variable {α η : Type}

theorem SameOffers.put (h : SameOffers start m) {slot : Slot}
    (hslot : Slot.SameOffer m.currentSlot slot) : SameOffers start (m.put slot) :=
  forall_slot_put (p := fun id => Slot.SameOffer (start.tree.slot id)) h
    ((h m.current).trans hslot)

theorem sameOffers_carry {act : Slot → Outcome Slot SlotEvent (Except η α)}
    {lift : η → Halt MachineError} (h : ∀ s, Slot.SameOffer s (act s).state) :
    Keeps (SameOffers start) (carry act lift) :=
  fun m hm => SameOffers.put hm (h m.currentSlot)

theorem sameOffers_perform (h : command.Holding) :
    Keeps (SameOffers start) (perform command) := by
  cases command with
  | edit call => exact sameOffers_carry fun s => Slot.sameOffer_perform h s
  | transition =>
      refine keeps_bind (fun m hm => ?_) fun _ => keeps_pure _
      rw [transition, advance_state]
      cases m.successor false <;> exact hm
  | rewind =>
      refine keeps_bind (fun m hm => ?_) fun _ => keeps_pure _
      rw [rewind_state]
      cases m.tree.parent? m.current <;> exact hm
  | archive =>
      exact keeps_bind (keeps_bind (sameOffers_carry Slot.sameOffer_archiveValue)
        fun _ => keeps_emit _) fun _ => keeps_pure _
  | unarchive =>
      exact keeps_bind (keeps_bind (sameOffers_carry Slot.sameOffer_unarchiveValue)
        fun _ => keeps_emit _) fun _ => keeps_pure _
  | removeArchived index =>
      exact keeps_bind (keeps_bind (sameOffers_carry fun s => s.sameOffer_removeArchived index)
        fun _ => keeps_bind (keeps_emit _) fun _ => keeps_pure _) fun _ => keeps_pure _
  | clearArchive =>
      exact keeps_bind (fun m hm => SameOffers.put hm m.currentSlot.sameOffer_clearArchive)
        fun _ => keeps_pure _
  | _ => exact h.elim

end SameOffers

theorem after_concat (start : Machine) (commands : List Command) (command : Command) :
    start.after (commands ++ [command]) = ((perform command).run (start.after commands)).state :=
  after_append ..

theorem activate_state (m : Machine) (raw? : Option Json) :
    ((activate raw?).run m).state =
      m.put ((Slot.activate (m.tree.contextFor m.current) raw?).run m.currentSlot).state := by
  rw [activate, run_read_bind]
  rfl

section Calls

variable (h : ∀ id, start.Told commands id ((start.after commands).tree.slot id))

include h

theorem told_holding (hcommand : command.Holding) (id : Nat) :
    start.Told (commands ++ [command]) id
      ((start.after (commands ++ [command])).tree.slot id) := by
  rw [after_concat]
  refine (h id).concat (sameOffers_perform hcommand _ (fun _ => .refl _) id) ?_ ?_
  · rintro rfl
    exact hcommand
  · rintro - rfl
    exact hcommand.elim

theorem told_reset (id : Nat) :
    start.Told (commands ++ [.reset]) id
      ((start.after (commands ++ [.reset])).tree.slot id) := by
  have hpristine := pristine_reset (fun id => (h id).listing.toSupplied) id
  have hnode := Tree.slot_node_congr (Tree.nodes_reset (start.after commands).tree) id
  rw [after_concat]
  refine ⟨hpristine.toListing, ?_, fun _ => unready_concat_reset start commands id,
    fun hready => ?_⟩
  · have hcontextual := (h id).contextual
    rw [Slot.config, ← hnode] at hcontextual
    exact hcontextual
  · have hfalse : false = true := hpristine.initialized_eq.symm.trans hready
    cases hfalse

theorem told_activate_current :
    let m := start.after commands
    start.Told (commands ++ [.activate none]) m.current
      ((Slot.activate (m.tree.contextFor m.current) none).run m.currentSlot).state := by
  intro m
  have hslot : start.Told commands m.current m.currentSlot := h m.current
  -- A call on a step that is ready changes nothing; on another step it is the first one, if it
  -- is answered, and none at all if it is not.
  cases hready : m.currentSlot.initialized with
  | true =>
      rw [Slot.run_activate_of_initialized hready]
      exact hslot.concat (.refl _) (by simp) fun hfalse => by simp [hready] at hfalse
  | false =>
      have hanswer := m.currentSlot.answer_activate_iff (m.tree.contextFor m.current)
      have hsame := (Slot.loading_sameStep m.currentSlot).activate
        (m.tree.contextFor m.current) none m.currentSlot (.refl _)
      refine ⟨Slot.loading_listing.activate _ none _ hslot.listing, ?_, fun hafter => ?_,
        fun hafter => ?_⟩
      · rw [hsame.config_eq]
        exact hslot.contextual
      · refine (hslot.unready hready).concat fun _ hreadies => ?_
        obtain ⟨-, m', hyields⟩ := hreadies
        obtain ⟨t, hact, -⟩ := yields_activate.1 hyields
        rw [hanswer.1 hact.1] at hafter
        cases hafter
      · have hact : (Slot.activate (m.tree.contextFor m.current) none).Yields m.currentSlot ()
            _ := ⟨hanswer.2 hafter, rfl⟩
        have hreadies : start.Readies commands m.current :=
          ⟨rfl, _, yields_activate.2 ⟨_, hact, rfl⟩⟩
        exact ⟨commands, firstReady_now (hslot.unready hready) hreadies,
          hslot.listing.offers_of_activate hslot.contextual hready hact⟩

theorem told_activate (hlt : (start.after commands).current < (start.after commands).tree.size)
    (id : Nat) :
    start.Told (commands ++ [.activate none]) id
      ((start.after (commands ++ [.activate none])).tree.slot id) := by
  rw [after_concat, perform, run_bind_pure, activate_state]
  by_cases hid : id = (start.after commands).current
  · rw [hid, put, Tree.slot_set_self hlt]
    exact told_activate_current h
  · rw [put, Tree.slot_set_ne hid]
    exact (h id).concat (.refl _) (by simp) fun _ _ hreadies => hid hreadies.1.symm

end Calls

/-! ### Runs -/

variable {template : Template}

theorem told_new (hsources : template.Contextual) (flag : Bool) (id : Nat) :
    (new template flag).Told [] id ((new template flag).tree.slot id) := by
  have hcontextual : ((Tree.ofTemplate template).slot id).config.source.Contextual := by
    rcases Nat.lt_or_ge id (Tree.ofTemplate template).size with hlt | hge
    · exact hsources _ (List.mem_of_getElem? (Tree.getElem?_nodes_of_lt hlt))
    · rw [Tree.slot_of_ge hge]
      exact fun _ _ _ => rfl
  obtain ⟨node, hnode⟩ := Tree.slot_ofTemplate template id
  rw [hnode] at hcontextual
  rw [new, hnode]
  refine ⟨(Slot.pristine_fresh node).toListing, hcontextual, fun _ before between hsplit => ?_,
    fun hready => by cases hready⟩
  simp at hsplit

theorem current_lt_after (template : Template) (flag : Bool) (commands : List Command) :
    ((new template flag).after commands).current <
      ((new template flag).after commands).tree.size := by
  have hsound : Sound (fun _ => True) ((new template flag).after commands) :=
    sound_preserved.after (fun _ => trivial) (fun _ id _ hm => sound_withStore hm id _)
      (sound_new template flag) commands
  exact hsound.current_lt

theorem told_after (hsources : template.Contextual) (flag : Bool)
    (hcommands : ∀ command ∈ commands, command.Guided) (id : Nat) :
    (new template flag).Told commands id (((new template flag).after commands).tree.slot id) := by
  induction commands using List.reverseRecOn generalizing id with
  | nil => exact told_new hsources flag id
  | append_singleton commands command ih =>
      have hbefore := ih fun other hother => hcommands other (List.mem_append_left _ hother)
      rcases hcommands command (by simp) with hholding | rfl | rfl
      · exact told_holding hbefore hholding id
      · exact told_activate hbefore (current_lt_after template flag commands) id
      · exact told_reset hbefore id

/-- Where sources answer by hint and context, the options on a step for which a call to make it
ready is answered are the first ones of what its source answers to the empty hint in the context
of the first such call since the last reset.  This is the present call if it found the step not
ready, and else one on an earlier visit. -/
theorem activate_offers (template : Template) (hsources : template.Contextual) (flag : Bool)
    (commands : List Command) (hcommands : ∀ command ∈ commands, command.Guided) (m : Machine)
    (hready : (activate none).Yields ((new template flag).after commands) () m) :
    ∃ before,
      (new template flag).FirstReady (commands ++ [.activate none]) m.current before ∧
        m.currentSlot.Offers (((new template flag).after before).tree.contextFor m.current) ∧
          (((new template flag).after commands).currentSlot.initialized = false →
            before = commands) := by
  have hrun : ∀ command ∈ commands ++ [.activate none], command.Guided := by
    intro command hmem
    rcases List.mem_append.1 hmem with hmem | hmem
    · exact hcommands command hmem
    · exact .inr (.inl (List.mem_singleton.1 hmem))
  have hafter : (new template flag).after (commands ++ [.activate none]) = m := by
    rw [after_concat, perform, run_bind_pure]
    exact hready.2
  have htold := told_after hsources flag hrun m.current
  rw [hafter] at htold
  have hinitialized : m.currentSlot.initialized = true := by
    obtain ⟨t, ⟨hanswer, rfl⟩, rfl⟩ := yields_activate.1 hready
    rw [currentSlot_put (current_lt_after template flag commands)]
    exact (Slot.answer_activate_iff ..).1 hanswer
  have hcurrent : m.current = ((new template flag).after commands).current := by
    obtain ⟨t, -, rfl⟩ := yields_activate.1 hready
    rfl
  have hbefore := told_after hsources flag hcommands m.current
  obtain ⟨before, hfirst, hoffers⟩ := htold.ready hinitialized
  refine ⟨before, hfirst, hoffers, fun hunready => hfirst.eq_of_unready (hbefore.unready ?_)⟩
  rw [hcurrent]
  exact hunready

/-! ### Going back to choose something else -/

/-- A step that offers what the steps before it hold. -/
def echoStep : Step :=
  Step.dynamicOption "Echo" fun _ context _ =>
    .ready (context.entries.filterMap ContextEntry.value)

/-- A word and its echo. -/
def echoTemplate : Template :=
  (Chain.start "word" (Step.value "Word") |>.next "echo" echoStep).build

theorem contextual_echoTemplate : echoTemplate.Contextual := by
  intro node hmem
  obtain rfl | rfl : node = _ ∨ node = _ := by
    simpa [echoTemplate, Chain.start, Chain.next, Chain.build, Chain.branch, Chain.above,
      Tree.nodes, Tree.ofTemplate, Tree.slotsOf, Tree.slotsOfAll, Slot.fresh] using hmem
  · exact fun _ _ _ => rfl
  · exact fun _ _ _ => rfl

/-- The machine of the template with the word that was entered and, if the echo was visited, the
options that were loaded there. -/
def echoing (word? : Option Choice) (loaded? : Option (List Choice)) (current : Nat) : Machine :=
  ⟨⟨[{ Slot.fresh ⟨0, none, [1], some "word", Step.value "Word"⟩ with
        value := word?, initialized := true },
      { Slot.fresh ⟨1, some 0, [], some "echo", echoStep⟩ with
        initialized := loaded?.isSome
        store := loaded?.elim (OptionStore.new echoStep.config.source none)
          ((OptionStore.new echoStep.config.source none).requested.showing "") }]⟩,
    current, false⟩

theorem after_activate_echoTemplate :
    (new echoTemplate false).after [.activate none] = echoing none none 0 := rfl

section Echoing

variable (first second : String) (word? : Option Choice) (loaded? : Option (List Choice))

theorem enter_echoing :
    (echoing word? loaded? 0).after [.edit (.setRaw (.str first))] =
      echoing (some (.ofKey (.str first))) loaded? 0 := rfl

theorem transition_echoing (word : Choice) :
    (echoing (some word) loaded? 0).after [.transition] = echoing (some word) loaded? 1 := rfl

theorem rewind_echoing :
    (echoing word? loaded? 1).after [.rewind] = echoing word? loaded? 0 := rfl

theorem activate_echoing (word : Choice) :
    (echoing (some word) none 1).after [.activate none] = echoing (some word) (some [word]) 1 := rfl

end Echoing

/-- Enters a word and goes on to its echo. -/
def enterWord (word : String) : List Command := [.edit (.setRaw (.str word)), .transition]

theorem enterWord_echoing (word : String) (word? : Option Choice)
    (loaded? : Option (List Choice)) :
    (echoing word? loaded? 0).after (enterWord word) =
      echoing (some (.ofKey (.str word))) loaded? 1 := by
  rw [enterWord, ← List.singleton_append, after_append, enter_echoing, transition_echoing]

/-- Goes on with a first word up to its echo. -/
def firstVisit (word : String) : List Command := [.activate none] ++ enterWord word

/-- Makes the echo of the first word ready and goes back to enter a second word. -/
def secondVisit (first second : String) : List Command :=
  firstVisit first ++ ([.activate none] ++ ([.rewind] ++ enterWord second))

theorem after_firstVisit (word : String) :
    (new echoTemplate false).after (firstVisit word) =
      echoing (some (.ofKey (.str word))) none 1 := by
  rw [firstVisit, after_append, after_activate_echoTemplate, enterWord_echoing]

theorem after_secondVisit (first second : String) :
    (new echoTemplate false).after (secondVisit first second) =
      echoing (some (.ofKey (.str second))) (some [.ofKey (.str first)]) 1 := by
  rw [secondVisit, after_append, after_firstVisit, after_append, activate_echoing, after_append,
    rewind_echoing, enterWord_echoing]

theorem firstReady_secondVisit (first second : String) :
    (new echoTemplate false).FirstReady (secondVisit first second ++ [.activate none]) 1
      (firstVisit first) := by
  refine ⟨?_, ?_, _, List.append_assoc .., by simp [enterWord]⟩
  · rw [Readies, after_firstVisit]
    exact ⟨rfl, _, rfl, rfl⟩
  · intro before between hsplit hreset hreadies
    cases before with
    | nil => exact absurd hreadies.1 (by decide)
    | cons command before =>
        have hrest : enterWord first = before ++ .activate none :: between :=
          (List.cons.inj hsplit).2
        have hmem : .activate none ∈ enterWord first := by simp [hrest]
        simp [enterWord] at hmem

theorem guided_secondVisit (first second : String) :
    ∀ command ∈ secondVisit first second, command.Guided := by
  simp [secondVisit, firstVisit, enterWord, Command.Guided, Command.Holding, Edit.Holding]

/-- On the second visit the options are those of the first one. -/
theorem activate_offers_secondVisit :
    let start := new echoTemplate false
    let commands := secondVisit "ant" "bee"
    let m := ((activate none).run (start.after commands)).state
    echoTemplate.Contextual ∧ (∀ command ∈ commands, command.Guided) ∧
      (activate none).Yields (start.after commands) () m ∧
        m.currentSlot.Offers ((start.after (firstVisit "ant")).tree.contextFor m.current) := by
  intro start commands m
  have hcommands : ∀ command ∈ commands, command.Guided := guided_secondVisit "ant" "bee"
  have hready : (activate none).Yields (start.after commands) () m := by
    refine ⟨?_, rfl⟩
    rw [after_secondVisit]
    rfl
  have hcurrent : m.current = 1 := by
    change ((activate none).run (start.after commands)).state.current = 1
    rw [after_secondVisit]
    rfl
  obtain ⟨before, hfirst, hoffers, -⟩ := activate_offers echoTemplate contextual_echoTemplate
    false commands hcommands m hready
  have hbefore : before = firstVisit "ant" := by
    rw [hcurrent] at hfirst
    exact hfirst.unique (firstReady_secondVisit "ant" "bee")
  exact ⟨contextual_echoTemplate, hcommands, hready, hbefore ▸ hoffers⟩

/-- They are not those of the choices that lead there by then. -/
theorem not_offers_secondVisit :
    let commands := secondVisit "ant" "bee"
    let m := (new echoTemplate false).after commands
    echoTemplate.Contextual ∧ (∀ command ∈ commands, command.Guided) ∧
      (activate none).Yields m () m ∧
      m.currentSlot.config.source.fetch "" (m.tree.contextFor m.current) [] =
        .ready [.ofKey (.str "bee")] ∧
      m.currentSlot.store.options = [.ofKey (.str "ant")] ∧
      ¬ m.currentSlot.Offers (m.tree.contextFor m.current) := by
  intro commands m
  have hm : m = echoing (some (.ofKey (.str "bee"))) (some [.ofKey (.str "ant")]) 1 :=
    after_secondVisit "ant" "bee"
  have hnow : m.currentSlot.config.source.fetch "" (m.tree.contextFor m.current) [] =
      .ready [.ofKey (.str "bee")] := by
    rw [hm]
    rfl
  have hoptions : m.currentSlot.store.options = [.ofKey (.str "ant")] := by
    rw [hm]
    rfl
  have hlimit : m.currentSlot.config.suggestionLimit = none := by
    rw [hm]
    rfl
  refine ⟨contextual_echoTemplate, guided_secondVisit "ant" "bee", ?_, hnow, hoptions, ?_⟩
  · rw [hm]
    exact ⟨rfl, rfl⟩
  · rintro ⟨found, hfound, hoffered⟩
    rw [hoptions, hlimit] at hoffered
    obtain rfl := Fetch.ready.inj (hnow.symm.trans (hfound []))
    simp [OptionStore.truncate, Choice.ofKey] at hoffered

end Machine

end TokenGrammar
