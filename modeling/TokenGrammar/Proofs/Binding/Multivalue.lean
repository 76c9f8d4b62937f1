import TokenGrammar.Proofs.Binding.Plain
import TokenGrammar.Proofs.Binding.Restore
import TokenGrammar.Proofs.Binding.Steady

/-!
# One value and one of several

A value is restored on a step that takes one value much as it is on a step that collects several.
The one difference is what becomes of a value that has no boxed form among the options on offer
at first: a single value is boxed once more among the options found for its text, and the values
of a collection are not.
-/

namespace TokenGrammar

namespace StepConfig

variable {config : StepConfig} {context : Context} {raw : Json} {value? : Option Choice}
  {archive : List Choice}

/-- What a raw value is boxed to among the options that are on offer for a hint. -/
def Boxed (config : StepConfig) (hint : String) (context : Context) (raw : Json)
    (value? : Option Choice) : Prop :=
  ∃ options, config.offered? hint context = some options ∧
    config.boxer.box raw options = .ok value?

/-- The raw value has no boxed form among the options on offer at first, but it has one among
those that are found for its text. -/
def FoundByText (config : StepConfig) (context : Context) (raw : Json) (value : Choice) : Prop :=
  config.Boxed "" context raw none ∧ (hintText raw).isEmpty = false ∧
    config.source.isPresent = true ∧ config.Boxed (hintText raw) context raw (some value)

theorem Boxed.unique {hint : String} {other? : Option Choice}
    (h : config.Boxed hint context raw value?) (h' : config.Boxed hint context raw other?) :
    value? = other? := by
  obtain ⟨options, hoffered, hbox⟩ := h
  obtain ⟨options', hoffered', hbox'⟩ := h'
  obtain rfl := Option.some.inj (hoffered.symm.trans hoffered')
  exact Except.ok.inj (hbox.symm.trans hbox')

/-- Options that are ready for a value are all of them, or those found for its text. -/
theorem offered?_of_hydrated? {options : List Choice}
    (h : config.hydrated? context (some raw) = some options) :
    config.offered? "" context = some options ∨
      config.Boxed "" context raw none ∧ (hintText raw).isEmpty = false ∧
        config.source.isPresent = true ∧ config.offered? (hintText raw) context = some options := by
  cases hoffered : config.offered? "" context with
  | none => simp [hydrated?, hoffered] at h
  | some first =>
      rw [hydrated?_some hoffered] at h
      cases hbox : config.boxer.box raw first with
      | error fault => simp [hbox] at h
      | ok value? =>
          cases value? with
          | some value => exact .inl (by simpa [hbox] using h)
          | none =>
              simp only [hbox] at h
              split at h
              next => exact .inl h
              next hsearch =>
                rw [Bool.not_eq_true, Bool.or_eq_false_iff, Bool.not_eq_false'] at hsearch
                exact .inr ⟨⟨first, hoffered, hbox⟩, hsearch.1, hsearch.2, h⟩

theorem hydrated?_and_box_iff {value : Choice} :
    (∃ options, config.hydrated? context (some raw) = some options ∧
        config.boxer.box raw options = .ok (some value)) ↔
      config.Boxed "" context raw (some value) ∨ config.FoundByText context raw value := by
  constructor
  · rintro ⟨options, hhydrated, hbox⟩
    rcases offered?_of_hydrated? hhydrated with hoffered | ⟨hmissed, htext, hsource, hfound⟩
    · exact .inl ⟨options, hoffered, hbox⟩
    · exact .inr ⟨hmissed, htext, hsource, options, hfound, hbox⟩
  · rintro (⟨options, hoffered, hbox⟩ | ⟨⟨first, hoffered, hmissed⟩, htext, hsource, hfound⟩)
    · exact ⟨options, by rw [hydrated?_some hoffered, hbox], hbox⟩
    · obtain ⟨options, hsearched, hbox⟩ := hfound
      refine ⟨options, ?_, hbox⟩
      rw [hydrated?_some hoffered, hmissed]
      simpa [htext, hsource] using hsearched

/-- A step for one value takes it where it is found, at once or by its text. -/
theorem binds_one_iff (hsingle : config.multivalue = false) :
    config.Binds context (some raw) value? archive ↔
      archive = [] ∧ ∃ value, value? = some value ∧
        (config.Boxed "" context raw (some value) ∨ config.FoundByText context raw value) := by
  simp only [← hydrated?_and_box_iff]
  constructor
  · rintro (_ | ⟨-, hhydrated, hboxed⟩ | ⟨hseveral, -, -⟩)
    · exact ⟨rfl, _, rfl, _, hhydrated, hboxed⟩
    · simp [hsingle] at hseveral
  · rintro ⟨rfl, value, rfl, options, hhydrated, hboxed⟩
    exact .single hsingle hhydrated hboxed

/-- A step for several values takes a value only where it is found at once. -/
theorem binds_item_iff (hseveral : config.multivalue = true)
    (hunlimited : config.multivalueLimit = none)
    (hvalidator : config.validator = Validator.required) (harray : raw.isArray = false) :
    config.Binds context (some (.arr [raw])) value? archive ↔
      value? = config.default? ∧ ∃ value, archive = [value] ∧
        config.Boxed "" context raw (some value) := by
  constructor
  · rintro (_ | ⟨hsingle, -, -⟩ | ⟨-, hoffered, hcollects⟩)
    · simp [hseveral] at hsingle
    · obtain _ | ⟨-, hboxed, -, -, ⟨⟩⟩ := hcollects
      exact ⟨rfl, _, rfl, _, hoffered, hboxed⟩
  · rintro ⟨rfl, value, rfl, options, hoffered, hboxed⟩
    have hvalid : config.validator (some value) [] = .ok true := by
      rw [hvalidator]
      rfl
    refine .several hseveral hoffered (.next harray hboxed hvalid (fun limit hlimit => ?_) .done)
    rw [hunlimited] at hlimit
    cases hlimit

end StepConfig

/-! ## A step and the end of the token -/

namespace Step

/-- The step with a single value. -/
def single (step : Step) : Step :=
  { step with config := { step.config with multivalue := false } }

/-- The step with any number of values. -/
def several (step : Step) : Step :=
  { step with config := { step.config with multivalue := true, multivalueLimit := none } }

/-- The template of the step under a key, with the end of the token behind it. -/
def ending (step : Step) (vkey : String) : Template :=
  (Chain.start vkey step |>.next none Step.terminal).build

end Step

namespace Machine

open Operation

variable {step : Step} {vkey : String} {entry raw : Json}

theorem stored?_entry {node : Node} (hvkey : node.vkey = some vkey)
    (hpresent : isAbsent entry node.step.config.multivalue = false) :
    node.stored? [(vkey, entry)] = some entry := by
  simp [Node.stored?, hvkey, entryFor?, Fields.get?, hpresent]

/-- The end of the token holds nothing, and nothing is behind it. -/
theorem walks_end_iff {token : Token} {before rest : List Visit} {last : Visit}
    (hid : last.id = 1) :
    (Tree.ofTemplate (step.ending vkey)).Walks token before (last :: rest) ↔
      last = ⟨1, none, []⟩ ∧ rest = [] := by
  obtain ⟨_, value?, archive⟩ := last
  obtain rfl : _ = 1 := hid
  cases rest with
  | nil =>
      constructor
      · rintro ⟨⟨-⟩, -⟩
        exact ⟨rfl, rfl⟩
      · rintro ⟨⟨⟩, -⟩
        exact ⟨.nothing rfl, .inl rfl⟩
  | cons next rest =>
      constructor
      · rintro ⟨-, ⟨-, -, ⟨⟩⟩, -⟩
      · rintro ⟨-, ⟨⟩⟩

/-- A token with one entry is legal where the step takes it and is valid then. -/
theorem legal_ending_iff (hpresent : isAbsent entry step.config.multivalue = false)
    {path : List Visit} :
    (Tree.ofTemplate (step.ending vkey)).Legal [(vkey, entry)] path ↔
      ∃ value? archive, path = [⟨0, value?, archive⟩, ⟨1, none, []⟩] ∧
        step.config.Binds ⟨[]⟩ (some entry) value? archive ∧
          step.config.validator value? archive = .ok true := by
  have hstored (value? : Option Choice) (archive : List Choice) :
      ((Tree.ofTemplate (step.ending vkey)).nodeOf ⟨0, value?, archive⟩).stored?
        [(vkey, entry)] = some entry := stored?_entry rfl hpresent
  have hpresent (value? : Option Choice) (archive : List Choice) :
      ¬ ((Tree.ofTemplate (step.ending vkey)).nodeOf ⟨0, value?, archive⟩).Missing
        [(vkey, entry)] := by
    rintro ⟨-, hmissing⟩
    rw [hstored] at hmissing
    cases hmissing
  have hbinds (value? : Option Choice) (archive : List Choice) :
      (Tree.ofTemplate (step.ending vkey)).Binds [(vkey, entry)] [] ⟨0, value?, archive⟩ ↔
        step.config.Binds ⟨[]⟩ (some entry) value? archive := by
    unfold Tree.Binds
    rw [hstored]
    rfl
  constructor
  · rintro ⟨hroot, hwalks, -⟩
    cases path with
    | nil => cases hroot
    | cons first rest =>
        obtain ⟨_, value?, archive⟩ := first
        obtain rfl : _ = 0 := Option.some.inj hroot
        cases rest with
        | nil =>
            obtain ⟨-, hleaf | hmissing⟩ := hwalks
            · cases hleaf
            · exact absurd hmissing (hpresent value? archive)
        | cons next rest =>
            obtain ⟨hfirst, ⟨-, hvalid, hnext⟩, hrest⟩ := hwalks
            obtain hid : 1 = next.id := Option.some.inj hnext
            obtain ⟨rfl, rfl⟩ := (walks_end_iff hid.symm).1 hrest
            exact ⟨value?, archive, rfl, (hbinds value? archive).1 hfirst, hvalid⟩
  · rintro ⟨value?, archive, rfl, hfirst, hvalid⟩
    refine ⟨rfl, ⟨(hbinds value? archive).2 hfirst, ⟨hpresent value? archive, hvalid, rfl⟩, ?_⟩, ?_⟩
    · exact (walks_end_iff rfl).2 ⟨rfl, rfl⟩
    · intro other raw hmem _
      obtain ⟨rfl, -⟩ : other = vkey ∧ raw = entry := by simpa using hmem
      exact ⟨_, List.mem_cons_self, rfl⟩

/-- The entry is restored, with this value and this archive, where the step takes it so and is
valid then. -/
theorem bindValues_ending_iff (hpresent : isAbsent entry step.config.multivalue = false)
    (flag : Bool) (commands : List Command) {value? : Option Choice} {archive : List Choice} :
    let outcome := (bindValues [(vkey, entry)]).run ((new (step.ending vkey) flag).after commands)
    outcome.answer = .ok () ∧ (outcome.state.tree.slot 0).value = value? ∧
        (outcome.state.tree.slot 0).archive = archive ↔
      step.config.Binds ⟨[]⟩ (some entry) value? archive ∧
        step.config.validator value? archive = .ok true := by
  intro outcome
  have hwired : Wired (Tree.ofTemplate (step.ending vkey)).nodes := Tree.wired_ofTemplate _
  have hpos : 0 < (Tree.ofTemplate (step.ending vkey)).size := Tree.size_ofTemplate_pos _
  have hbuilt := built_after (step.ending vkey) flag commands
  constructor
  · rintro ⟨hok, rfl, rfl⟩
    obtain ⟨path, hlegal, hholds⟩ := legal_and_holds_of_ok hwired hpos hbuilt hok
    obtain ⟨value?, archive, rfl, hbound⟩ := (legal_ending_iff hpresent).1 hlegal
    obtain ⟨hvalue, harchive⟩ := hholds.held _ List.mem_cons_self
    rwa [hvalue, harchive]
  · rintro ⟨hbinds, hvalid⟩
    have hlegal : (Tree.ofTemplate (step.ending vkey)).Legal [(vkey, entry)]
        [⟨0, value?, archive⟩, ⟨1, none, []⟩] :=
      (legal_ending_iff hpresent).2 ⟨value?, archive, rfl, hbinds, hvalid⟩
    obtain ⟨_, ⟨hok, rfl⟩, hholds⟩ := yields_bindValues_of_legal hwired hpos hbuilt hlegal
    exact ⟨hok, hholds.held _ List.mem_cons_self⟩

section Required

variable (hvalidator : step.config.validator = Validator.required)

include hvalidator

theorem bindValues_one_iff (hnull : raw.isNull = false) (flag : Bool) (commands : List Command)
    {value? : Option Choice} {archive : List Choice} :
    let one := (bindValues [(vkey, raw)]).run ((new (step.single.ending vkey) flag).after commands)
    one.answer = .ok () ∧ (one.state.tree.slot 0).value = value? ∧
        (one.state.tree.slot 0).archive = archive ↔
      archive = [] ∧ ∃ value, value? = some value ∧
        (step.config.Boxed "" ⟨[]⟩ raw (some value) ∨ step.config.FoundByText ⟨[]⟩ raw value) := by
  intro one
  have hpresent : isAbsent raw step.single.config.multivalue = false :=
    (isAbsent_false raw).trans hnull
  have hbinds : step.single.config.Binds ⟨[]⟩ (some raw) value? archive ↔
      archive = [] ∧ ∃ value, value? = some value ∧
        (step.config.Boxed "" ⟨[]⟩ raw (some value) ∨ step.config.FoundByText ⟨[]⟩ raw value) :=
    StepConfig.binds_one_iff rfl
  refine (bindValues_ending_iff hpresent flag commands).trans ?_
  rw [hbinds]
  refine and_iff_left_of_imp ?_
  rintro ⟨-, value, rfl, -⟩
  exact hvalidator ▸ Validator.required_eq_ok_iff.2 (.inl (by simp))

theorem bindValues_item_iff (harray : raw.isArray = false) (flag : Bool)
    (commands : List Command) {value? : Option Choice} {archive : List Choice} :
    let item := (bindValues [(vkey, .arr [raw])]).run
      ((new (step.several.ending vkey) flag).after commands)
    item.answer = .ok () ∧ (item.state.tree.slot 0).value = value? ∧
        (item.state.tree.slot 0).archive = archive ↔
      value? = step.config.default? ∧ ∃ value, archive = [value] ∧
        step.config.Boxed "" ⟨[]⟩ raw (some value) := by
  intro item
  have hpresent : isAbsent (.arr [raw]) step.several.config.multivalue = false := rfl
  have hbinds : step.several.config.Binds ⟨[]⟩ (some (.arr [raw])) value? archive ↔
      value? = step.config.default? ∧ ∃ value, archive = [value] ∧
        step.config.Boxed "" ⟨[]⟩ raw (some value) :=
    StepConfig.binds_item_iff rfl rfl hvalidator harray
  refine (bindValues_ending_iff hpresent flag commands).trans ?_
  rw [hbinds]
  refine and_iff_left_of_imp ?_
  rintro ⟨-, value, rfl, -⟩
  exact hvalidator ▸ Validator.required_eq_ok_iff.2 (.inr (by simp))

end Required

/-- A value that is neither null nor an array is restored as one of several values just where it
is restored as a single one without a search for its text, and then it is archived as the value
that the single one is. -/
theorem bindValues_item_iff_one (step : Step)
    (hvalidator : step.config.validator = Validator.required) (vkey : String) (raw : Json)
    (hnull : raw.isNull = false) (harray : raw.isArray = false) (flag otherFlag : Bool)
    (commands others : List Command) :
    let one := (bindValues [(vkey, raw)]).run
      ((new (step.single.ending vkey) flag).after commands)
    let item := (bindValues [(vkey, .arr [raw])]).run
      ((new (step.several.ending vkey) otherFlag).after others)
    (item.answer = .ok () ↔
      one.answer = .ok () ∧ ¬ ∃ value, step.config.FoundByText ⟨[]⟩ raw value) ∧
    ((∃ value, step.config.FoundByText ⟨[]⟩ raw value) → one.answer = .ok ()) ∧
    (item.answer = .ok () → ∃ value, (one.state.tree.slot 0).value = some value ∧
      (item.state.tree.slot 0).archive = [value]) := by
  intro one item
  have hone {value : Choice} (h : step.config.Boxed "" ⟨[]⟩ raw (some value) ∨
      step.config.FoundByText ⟨[]⟩ raw value) :
      one.answer = .ok () ∧ (one.state.tree.slot 0).value = some value ∧
        (one.state.tree.slot 0).archive = [] :=
    (bindValues_one_iff hvalidator hnull flag commands).2 ⟨rfl, value, rfl, h⟩
  have hitem (hok : item.answer = .ok ()) :
      ∃ value, (item.state.tree.slot 0).archive = [value] ∧
        step.config.Boxed "" ⟨[]⟩ raw (some value) :=
    ((bindValues_item_iff hvalidator harray otherFlag others).1 ⟨hok, rfl, rfl⟩).2
  refine ⟨⟨fun hok => ?_, ?_⟩, ?_, fun hok => ?_⟩
  · obtain ⟨value, -, hfound⟩ := hitem hok
    refine ⟨(hone (.inl hfound)).1, ?_⟩
    -- What has a boxed form at first is not missed there, so nothing is searched for.
    rintro ⟨_, hmissed, -⟩
    cases hfound.unique hmissed
  · rintro ⟨hok, hnot⟩
    obtain ⟨-, value, -, hfound | hsearched⟩ :=
      (bindValues_one_iff hvalidator hnull flag commands).1 ⟨hok, rfl, rfl⟩
    · exact ((bindValues_item_iff hvalidator harray otherFlag others).2
        ⟨rfl, value, rfl, hfound⟩).1
    · exact absurd ⟨value, hsearched⟩ hnot
  · rintro ⟨value, hsearched⟩
    exact (hone (.inr hsearched)).1
  · obtain ⟨value, harchive, hfound⟩ := hitem hok
    exact ⟨value, (hone (.inl hfound)).2.1, harchive⟩

/-- Two tags to choose from, of which so many are on offer at a time. -/
def tagStep (limit : Nat) : Step :=
  let step := Step.option "Tags" [.ofKey (.str "ant"), .ofKey (.str "bee")]
  { step with config := { step.config with suggestionLimit := some limit } }

theorem bindValues_item_iff_one_tagStep :
    let raw := Json.str "bee"
    let one := (bindValues [("tags", raw)]).run
      ((new ((tagStep 2).single.ending "tags") true).after [.transition])
    let item := (bindValues [("tags", .arr [raw])]).run
      ((new ((tagStep 2).several.ending "tags") false).after [])
    (tagStep 2).config.validator = Validator.required ∧ raw.isNull = false ∧
      raw.isArray = false ∧ item.answer = .ok () ∧ one.answer = .ok () ∧
        ∃ value, (one.state.tree.slot 0).value = some value ∧
          (item.state.tree.slot 0).archive = [value] := by
  intro raw one item
  have hok : item.answer = .ok () := rfl
  obtain ⟨hiff, -, hheld⟩ :=
    bindValues_item_iff_one (tagStep 2) rfl "tags" raw rfl rfl true false [.transition] []
  exact ⟨rfl, rfl, rfl, hok, (hiff.1 hok).1, hheld hok⟩

/-- With one tag on offer at a time the second one is found by its text where it is the only
value, and not at all as one of several. -/
theorem bindValues_item_not_found :
    let one := (bindValues [("tags", .str "bee")]).run
      (new ((tagStep 1).single.ending "tags") true)
    let item := (bindValues [("tags", .arr [.str "bee"])]).run
      (new ((tagStep 1).several.ending "tags") true)
    (tagStep 1).config.validator = Validator.required ∧ one.answer = .ok () ∧
      (one.state.tree.slot 0).value = some (.ofKey (.str "bee")) ∧
        item.answer = .error (.failed (.unboxable "tags" (.arr [.str "bee"]))) :=
  ⟨rfl, rfl, rfl, rfl⟩

end Machine

end TokenGrammar
