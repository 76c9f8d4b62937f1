import TokenGrammar.Proofs.Slot.Log

/-!
# Making a slot ready

A call to make a slot ready that is answered leaves the value in the form that it has among the
options on offer, and until the next reset all further calls find the slot ready.  A call that
fails leaves the slot as it was, unless the value to restore has no form among the first options
and the search for its text is what fails: by then the value was entered.
-/

namespace TokenGrammar.Slot

open Operation

variable {s t : Slot} {context : Context} {raw : Json} {raw? : Option Json} {hint : String}
  {error : SlotError}

/-! ## Slots that are ready -/

theorem initialized_of_activate (h : (activate context raw?).Yields s () t) :
    t.initialized = true := by
  cases hready : s.initialized with
  | true =>
      obtain ⟨-, rfl⟩ := h
      rw [run_activate_of_initialized hready]
      exact hready
  | false =>
      obtain ⟨_, _, -, -, rfl⟩ := (yields_activate hready).1 h
      rfl

/-- A slot stays ready through everything but a reset. -/
theorem initialized_turn {turn : SlotTurn} (h : s.initialized = true)
    (hturn : turn ≠ .call .reset) : (s.turn turn).state.initialized = true := by
  cases turn with
  | call edit =>
      have hheld (hholding : edit.Holding) : (s.turn (.call edit)).state.initialized = true :=
        (sameOffer_perform hholding s).initialized_eq.trans h
      cases edit with
      | reset => exact absurd rfl hturn
      | activate context raw? =>
          rw [turn, perform, run_bind_of_ok (run_activate_of_initialized h raw?)]
          exact h
      | _ => exact hheld trivial
  | store use => exact h
  | provider fetch => exact h

theorem initialized_play {turns : List SlotTurn} (h : s.initialized = true)
    (hturns : .call .reset ∉ turns) : (s.play turns).state.initialized = true := by
  induction turns generalizing s with
  | nil => exact h
  | cons turn turns ih =>
      obtain ⟨hturn, hrest⟩ := not_or.1 (List.mem_cons.not.1 hturns)
      exact ih (initialized_turn h (Ne.symm hturn)) hrest

/-! ## Answers -/

/-- What restoring a raw value comes to.  It has a form among the options on offer, or has none
there and is not searched for, or is entered once more among those found for its text. -/
inductive Restores (s : Slot) (context : Context) (raw : Json) : Slot → Prop where
  | first {value : Choice} (boxed : s.box raw = .ok (some value)) :
      Restores s context raw { s with value := some value }
  | unsearched (boxed : s.box raw = .ok none)
      (skipped : ((hintText raw).isEmpty || !s.store.hasSource) = true) :
      Restores s context raw { s with value := none }
  | searched {found : List Choice} {value? : Option Choice} (missed : s.box raw = .ok none)
      (unskipped : ((hintText raw).isEmpty || !s.store.hasSource) = false)
      (fetched : s.store.source.fetch (hintText raw) context s.archive = .ready found)
      (boxed : (s.asked (hintText raw) context).box raw = .ok value?) :
      Restores s context raw { s.asked (hintText raw) context with value := value? }

theorem restores_of_yields (harray : (s.config.multivalue && raw.isArray) = false)
    (h : (restore context (some raw)).Yields s () t) : s.Restores context raw t := by
  let missed : Slot := { s with value := none }
  rcases (yields_restore_some harray).1 h with ⟨value, hboxed, rfl⟩ | ⟨hmissed, hsearch⟩
  · exact .first hboxed
  · cases hskip : (hintText raw).isEmpty || !s.store.hasSource with
    | true =>
        obtain rfl := (yields_search_skip (s := missed) hskip).1 hsearch
        exact .unsearched hmissed hskip
    | false =>
        obtain ⟨⟨found, hfound⟩, value?, henter⟩ := (yields_search (s := missed) hskip).1 hsearch
        obtain ⟨hboxed, rfl⟩ :=
          (yields_enter (s := missed.asked (hintText raw) context) harray).1 henter
        exact .searched hmissed hskip hfound hboxed

namespace Restores

/-- The value that is left is the form of the raw value among the options that are left. -/
theorem box_eq (h : s.Restores context raw t) : t.box raw = .ok t.value := by
  cases h with
  | first boxed => exact boxed
  | unsearched boxed => exact boxed
  | searched _ _ _ boxed => exact boxed

theorem options_eq_of_first (h : s.Restores context raw t)
    (hfirst : (hintText raw).isEmpty = true ∨ ∃ value, s.box raw = .ok (some value)) :
    t.store.options = s.store.options := by
  cases h with
  | first => rfl
  | unsearched => rfl
  | searched missed unskipped =>
      rcases hfirst with hempty | ⟨value, hboxed⟩
      · simp [hempty] at unskipped
      · cases missed.symm.trans hboxed

theorem options_eq_of_searched (h : s.Restores context raw t)
    (hpresent : s.store.hasSource = true)
    (hnot : ¬ ((hintText raw).isEmpty = true ∨ ∃ value, s.box raw = .ok (some value))) :
    ∃ found, s.store.source.fetch (hintText raw) context s.archive = .ready found ∧
      t.store.options = OptionStore.truncate s.store.limit found := by
  cases h with
  | first boxed => exact absurd (.inr ⟨_, boxed⟩) hnot
  | unsearched _ skipped => exact absurd (.inl (by simpa [hpresent] using skipped)) hnot
  | searched _ _ fetched => exact ⟨_, fetched, options_asked hpresent fetched⟩

end Restores

/-- A value that was restored agrees with the options on offer: it is the form of the raw value
among them.  They are the first ones that the source has if the raw value has a form among these
or has no text, and else the first ones found for its text.  Until the next reset no further
call changes or announces anything. -/
theorem activate_agrees (s t : Slot) (context : Context) (raw : Json)
    (hready : s.initialized = false) (harray : (s.config.multivalue && raw.isArray) = false)
    (hyields : (activate context (some raw)).Yields s () t) :
    t.box raw = .ok t.value ∧
    (s.store.hasSource = true →
      ∃ first, s.store.source.fetch "" context s.archive = .ready first ∧
        let shown := OptionStore.truncate s.store.limit first
        let settled := (hintText raw).isEmpty = true ∨
          ∃ value, s.config.boxer.box raw shown = .ok (some value)
        (settled → t.store.options = shown) ∧
        (¬ settled → ∃ found,
          s.store.source.fetch (hintText raw) context s.archive = .ready found ∧
            t.store.options = OptionStore.truncate s.store.limit found)) ∧
    ∀ turns : List SlotTurn, .call .reset ∉ turns → ∀ (later : Context) (raw? : Option Json),
      (activate later raw?).run (t.play turns).state = ⟨.ok (), (t.play turns).state, []⟩ := by
  obtain ⟨_, restored, hhydrate, hyields', rfl⟩ := (yields_activate hready).1 hyields
  obtain ⟨⟨first, hfirst⟩, rfl⟩ := yields_hydrate.1 hhydrate
  have hrestores : (s.asked "" context).Restores context raw restored :=
    restores_of_yields harray hyields'
  refine ⟨hrestores.box_eq, fun hpresent => ⟨first, hfirst, ?_⟩, fun turns hturns later raw? => ?_⟩
  · intro shown settled
    obtain ⟨-, hsource, hlimit⟩ := sameStep_asked s "" context
    have hshown : (s.asked "" context).store.options = shown := options_asked hpresent hfirst
    have hbox : (s.asked "" context).box raw = s.config.boxer.box raw shown := by
      rw [box, hshown]
      rfl
    have hpresent' : (s.asked "" context).store.hasSource = true := by
      rwa [OptionStore.hasSource, hsource]
    refine ⟨fun hsettled => ?_, fun hnot => ?_⟩
    · rw [← hshown]
      exact hrestores.options_eq_of_first (by rwa [hbox])
    · rw [← hsource, ← hlimit]
      exact hrestores.options_eq_of_searched hpresent' (by rwa [hbox])
  · exact run_activate_of_initialized (initialized_play rfl hturns) raw?

/-- A tag of which one is on offer at a time. -/
def tagging (source : Source) : Slot :=
  let step := Step.option "Tag" []
  fresh ⟨0, none, [], some "tag",
    { step with config := { step.config with source, suggestionLimit := some 1 } }⟩

/-- The second tag is found by its text, and is then the only one on offer. -/
theorem activate_agrees_tagging :
    let s := tagging (.fixed [.ofKey (.str "ant"), .ofKey (.str "bee")])
    let t := ((activate ⟨[]⟩ (some (.str "bee"))).run s).state
    s.initialized = false ∧ (activate ⟨[]⟩ (some (.str "bee"))).Yields s () t ∧
      t.value = some (.ofKey (.str "bee")) ∧ t.box (.str "bee") = .ok t.value ∧
        t.store.options = [.ofKey (.str "bee")] := by
  intro s t
  have hyields : (activate ⟨[]⟩ (some (.str "bee"))).Yields s () t := ⟨rfl, rfl⟩
  obtain ⟨hbox, -, -⟩ := activate_agrees s t ⟨[]⟩ (.str "bee") rfl rfl hyields
  exact ⟨rfl, hyields, rfl, hbox, rfl⟩

/-! ## Failures -/

/-- The value to restore is entered without having a form among the first options, and then the
search for its text fails. -/
def SearchFails (s : Slot) (context : Context) (raw? : Option Json) : Prop :=
  ∃ raw first reason, raw? = some raw ∧ (s.config.multivalue && raw.isArray) = false ∧
    s.store.source.fetch "" context s.archive = .ready first ∧
    s.config.boxer.box raw (OptionStore.truncate s.store.limit first) = .ok none ∧
    s.store.source.fetch (hintText raw) context s.archive = .failed reason

theorem fails_hydrate :
    (hydrate hint context).Fails s error t ↔
      ∃ reason, s.store.source.fetch hint context s.archive = .failed reason ∧
        error = .hydration s.name reason ∧ t = s.asked hint context := by
  rw [Fails, hydrate_state, eq_comm (a := s.asked hint context)]
  unfold Operation.run hydrate
  cases hpresent : s.store.hasSource with
  | false =>
      simp [OptionStore.refresh_of_absent hpresent, OptionStore.source_of_absent hpresent,
        Source.fetch]
  | true =>
      rw [OptionStore.refresh_of_present hpresent]
      cases s.store.source.fetch hint context s.archive <;>
        simp [name, config, eq_comm (b := error)]

/-- A boxer that cannot be carried out is no failure of the step. -/
theorem not_fails_enter : ¬ (enter raw).Fails s error t := by
  unfold Fails Operation.run enter
  cases s.setRaw raw with
  | mk answer after events => cases answer <;> simp

theorem yields_enter_array {value? : Option Choice}
    (h : (s.config.multivalue && raw.isArray) = true) :
    (enter raw).Yields s value? t ↔ value? = none ∧ t = s := by
  simp [Yields, Operation.run, enter, setRaw, h, eq_comm]

theorem fails_search (h : (search raw context).Fails s error t) :
    (hydrate (hintText raw) context).Fails s error t := by
  cases hskip : (hintText raw).isEmpty || !s.store.hasSource with
  | true => simp [Fails, Operation.run, search, hskip] at h
  | false =>
      have hboth : (do
          hydrate (hintText raw) context
          let _ ← enter raw : Op Unit).Fails s error t := by
        simpa only [Fails, Operation.run, search, hskip, Bool.false_eq_true, if_false] using h
      rcases fails_bind.1 hboth with hhydrate | ⟨_, _, -, henter⟩
      · exact hhydrate
      · rcases fails_bind.1 henter with henter | ⟨_, _, -, hpure⟩
        · exact absurd henter not_fails_enter
        · exact ((fails_pure _).1 hpure).elim

/-- Nothing but the search for a value without a form fails. -/
theorem fails_restore (h : (restore context raw?).Fails s error t) :
    ∃ raw mid, raw? = some raw ∧ (enter raw).Yields s none mid ∧
      (hydrate (hintText raw) context).Fails mid error t := by
  cases raw? with
  | none => exact ((fails_pure _).1 h).elim
  | some raw =>
      rcases fails_bind.1 h with henter | ⟨value?, mid, henter, hrest⟩
      · exact absurd henter not_fails_enter
      · cases value? with
        | none => exact ⟨raw, mid, rfl, henter, fails_search hrest⟩
        | some value => exact ((fails_pure _).1 hrest).elim

theorem fails_activate (h : (activate context raw?).Fails s error t) :
    (hydrate "" context).Fails s error t ∨
      ∃ hydrated, (hydrate "" context).Yields s () hydrated ∧
        (restore context raw?).Fails hydrated error t := by
  cases hready : s.initialized with
  | true =>
      rw [Fails, run_activate_of_initialized hready] at h
      cases h.1
  | false =>
      have hload : (load context raw?).Fails s error t := by
        simpa [Fails, Operation.run, activate, hready] using h
      rcases fails_bind.1 hload with hhydrate | ⟨_, hydrated, hhydrate, hrest⟩
      · exact .inl hhydrate
      · rcases fails_bind.1 hrest with hrestore | ⟨_, _, -, hmark⟩
        · exact .inr ⟨hydrated, hhydrate, hrestore⟩
        · exact ((fails_change _).1 hmark).elim

/-- A call that fails leaves preview, archive and the mark of being ready as they were.  So it
leaves the value, unless what fails is the search for a value without a form: that one was
entered already, which left none. -/
theorem activate_failed (s t : Slot) (context : Context) (raw? : Option Json) (error : SlotError)
    (hfails : (activate context raw?).Fails s error t) :
    (∃ reason, error = .hydration s.name reason) ∧ t.preview = s.preview ∧
      t.archive = s.archive ∧ t.initialized = s.initialized ∧
        (s.SearchFails context raw? → t.value = none) ∧
          (¬ s.SearchFails context raw? → t.value = s.value) := by
  rcases fails_activate hfails with hfirst | ⟨_, hhydrate, hrestore⟩
  · obtain ⟨reason, hfailed, herror, rfl⟩ := fails_hydrate.1 hfirst
    refine ⟨⟨reason, herror⟩, rfl, rfl, rfl, ?_, fun _ => rfl⟩
    rintro ⟨_, _, _, -, -, hready, -⟩
    cases hfailed.symm.trans hready
  · obtain ⟨⟨first, hfirst⟩, rfl⟩ := yields_hydrate.1 hhydrate
    obtain ⟨raw, mid, rfl, henter, hsearch⟩ := fails_restore hrestore
    obtain ⟨reason, hfailed, herror, rfl⟩ := fails_hydrate.1 hsearch
    obtain ⟨-, hsource, -⟩ := sameStep_asked s "" context
    -- An array is not entered where values are collected; all else is, and has no form.
    cases harray : s.config.multivalue && raw.isArray with
    | true =>
        obtain ⟨-, rfl⟩ := (yields_enter_array (s := s.asked "" context) harray).1 henter
        refine ⟨⟨reason, herror⟩, rfl, rfl, rfl, ?_, fun _ => rfl⟩
        rintro ⟨_, _, _, ⟨⟩, hnone, -⟩
        rw [harray] at hnone
        cases hnone
    | false =>
        obtain ⟨hmissed, rfl⟩ := (yields_enter (s := s.asked "" context) harray).1 henter
        have hsearched :
            s.store.source.fetch (hintText raw) context s.archive = .failed reason := by
          rw [← hsource]
          exact hfailed
        have hoptions : (s.asked "" context).store.options =
            OptionStore.truncate s.store.limit first :=
          options_asked (OptionStore.hasSource_of_failed hsearched) hfirst
        rw [box, hoptions] at hmissed
        have hfails' : s.SearchFails context (some raw) :=
          ⟨raw, first, reason, rfl, harray, hfirst, hmissed, hsearched⟩
        exact ⟨⟨reason, herror⟩, rfl, rfl, rfl, fun _ => rfl, fun hnot => absurd hfails' hnot⟩

/-- A provider that is down unless it is asked for everything. -/
def unsearchable : Source :=
  .provider fun hint _ _ => if hint.isEmpty then .ready [.ofKey (.str "ant")] else .failed "down"

/-- The slot holds a tag, and one that is not on offer is to be restored. -/
theorem activate_failed_unsearchable :
    let s := { tagging unsearchable with value := some (.ofKey (.str "ant")) }
    let t := ((activate ⟨[]⟩ (some (.str "bee"))).run s).state
    (activate ⟨[]⟩ (some (.str "bee"))).Fails s (.hydration "Tag" "down") t ∧
      s.SearchFails ⟨[]⟩ (some (.str "bee")) ∧ t.value = none := by
  intro s t
  have hfails : (activate ⟨[]⟩ (some (.str "bee"))).Fails s (.hydration "Tag" "down") t :=
    ⟨rfl, rfl⟩
  have hsearch : s.SearchFails ⟨[]⟩ (some (.str "bee")) :=
    ⟨.str "bee", _, "down", rfl, rfl, rfl, rfl, rfl⟩
  obtain ⟨-, -, -, -, hvalue, -⟩ := activate_failed s t ⟨[]⟩ (some (.str "bee")) _ hfails
  exact ⟨hfails, hsearch, hvalue hsearch⟩

/-- The value that it held is gone. -/
theorem activate_failed_value_lost :
    let s := { tagging unsearchable with value := some (.ofKey (.str "ant")) }
    let t := ((activate ⟨[]⟩ (some (.str "bee"))).run s).state
    (activate ⟨[]⟩ (some (.str "bee"))).Fails s (.hydration "Tag" "down") t ∧
      s.value = some (.ofKey (.str "ant")) ∧ t.value = none :=
  ⟨⟨rfl, rfl⟩, rfl, rfl⟩

end TokenGrammar.Slot
