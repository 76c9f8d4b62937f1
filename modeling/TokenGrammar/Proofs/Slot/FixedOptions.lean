import TokenGrammar.Proofs.Boxer.Stable
import TokenGrammar.Proofs.Options.Search
import TokenGrammar.Proofs.Slot.Ready

/-!
# Options from a fixed list

A step that takes its options from a fixed list can always be made ready.  With the key of one of
them to restore it holds that option, provided that the limit leaves it among the first ones of the
list, or among the first ones whose text contains that of the key.  The text need not have to do
with the key, so that a limit may put an option out of reach.
-/

namespace TokenGrammar

variable {options found : List Choice} {o : Choice} {allowUnknown : Bool}

/-! ## Options with keys of their own -/

/-- No two options of the list have equal keys. -/
def KeysDiffer (options : List Choice) : Prop :=
  options.Pairwise fun a b => (a.key == b.key) = false

theorem KeysDiffer.eq_of_beq (h : KeysDiffer options) {a b : Choice} (ha : a ∈ options)
    (hb : b ∈ options) (hkey : (a.key == b.key) = true) : a = b := by
  have : Std.Symm fun a b : Choice => (a.key == b.key) = false :=
    ⟨fun _ _ hdiffer => BEq.comm.trans hdiffer⟩
  by_contra hne
  rw [h.forall ha hb hne] at hkey
  cases hkey

theorem Source.matching_subset (options : List Choice) (hint : String) :
    matching options hint ⊆ options :=
  (matching_sublist options hint).subset

namespace Boxer

/-- Where keys differ an option is what its key stands for. -/
theorem boxOption?_own_key (h : KeysDiffer options) (hsub : found ⊆ options)
    (hnull : o.key.isNull = false) (ho : o ∈ found) :
    boxOption? allowUnknown o.key found = some o := by
  have hfind : (found.find? fun other => other.key == o.key) = some o := by
    cases hfound : found.find? fun other => other.key == o.key with
    | none => exact absurd BEq.rfl (List.find?_eq_none.1 hfound o ho)
    | some other =>
        have hother : other ∈ options := hsub (List.mem_of_find?_eq_some hfound)
        rw [h.eq_of_beq hother (hsub ho) (by simpa using List.find?_some hfound)]
  simp [boxOption?, hnull, hfind]

/-- Elsewhere its key is as good as unknown. -/
theorem boxOption?_other_key (h : KeysDiffer options) (hsub : found ⊆ options)
    (hnull : o.key.isNull = false) (ho : o ∈ options) (hnot : o ∉ found) :
    boxOption? allowUnknown o.key found =
      if allowUnknown then some (.ofKey o.key) else none := by
  have hfind : (found.find? fun other => other.key == o.key) = none := by
    refine List.find?_eq_none.2 fun other hother hkey => hnot ?_
    rwa [← h.eq_of_beq (hsub hother) ho hkey]
  simp [boxOption?, hnull, hfind]

end Boxer

/-! ## Options in reach -/

/-- The option is among the first ones of the list or, where unknown keys do not pass, among the
first ones that are found for the text of its key. -/
def Reached (options : List Choice) (limit : Option Nat) (allowUnknown : Bool)
    (o : Choice) : Prop :=
  o ∈ OptionStore.truncate limit options ∨ allowUnknown = false ∧
    o ∈ OptionStore.truncate limit (Source.matching options (hintText o.key))

/-- What a raw value becomes among the first options or, if it has no form there, among the first
ones that are found for its text. -/
def boxTwice? (options : List Choice) (limit : Option Nat) (allowUnknown : Bool) (raw : Json) :
    Option Choice :=
  (Boxer.boxOption? allowUnknown raw (OptionStore.truncate limit options)).or
    (Boxer.boxOption? allowUnknown raw
      (OptionStore.truncate limit (Source.matching options (hintText raw))))

section Reached

variable {limit : Option Nat} (h : KeysDiffer options) (hnull : o.key.isNull = false)
  (ho : o ∈ options)

include h hnull ho

theorem boxTwice?_of_reached (hreached : Reached options limit allowUnknown o) :
    boxTwice? options limit allowUnknown o.key = some o := by
  have hshown := OptionStore.truncate_subset limit options
  by_cases hfirst : o ∈ OptionStore.truncate limit options
  · rw [boxTwice?, Boxer.boxOption?_own_key h hshown hnull hfirst, Option.some_or]
  · obtain ⟨rfl, hlater⟩ := hreached.resolve_left hfirst
    have hfound := List.Subset.trans (OptionStore.truncate_subset limit _)
      (Source.matching_subset options (hintText o.key))
    rw [boxTwice?, Boxer.boxOption?_other_key h hshown hnull ho hfirst,
      Boxer.boxOption?_own_key h hfound hnull hlater]
    rfl

theorem boxTwice?_of_not_reached (hnot : ¬ Reached options limit allowUnknown o) :
    boxTwice? options limit allowUnknown o.key =
      if allowUnknown then some (.ofKey o.key) else none := by
  obtain ⟨hfirst, hlater⟩ := not_or.1 hnot
  have hshown := OptionStore.truncate_subset limit options
  rw [boxTwice?, Boxer.boxOption?_other_key h hshown hnull ho hfirst]
  cases allowUnknown with
  | true => rfl
  | false =>
      have hfound := List.Subset.trans (OptionStore.truncate_subset limit _)
        (Source.matching_subset options (hintText o.key))
      rw [Boxer.boxOption?_other_key h hfound hnull ho fun hmem => hlater ⟨rfl, hmem⟩]
      rfl

end Reached

namespace Slot

open Operation

variable {s t : Slot} {context : Context} {raw : Json}

/-! ## Making the step ready -/

/-- The slot takes one of a list of options. -/
structure Picks (s : Slot) (options : List Choice) (allowUnknown : Bool) : Prop where
  source_eq : s.store.source = .fixed options
  boxer_eq : s.config.boxer = Boxer.option allowUnknown
  single : s.config.multivalue = false

namespace Picks

theorem congr (h : s.Picks options allowUnknown) (hsame : SameStep s t) :
    t.Picks options allowUnknown :=
  ⟨hsame.source_eq.trans h.source_eq, hsame.config_eq ▸ h.boxer_eq, hsame.config_eq ▸ h.single⟩

theorem fetch_eq (h : s.Picks options allowUnknown) (hint : String) (context : Context)
    (archive : List Choice) :
    s.store.source.fetch hint context archive = .ready (Source.matching options hint) := by
  rw [h.source_eq]
  rfl

theorem hasSource (h : s.Picks options allowUnknown) : s.store.hasSource = true := by
  rw [OptionStore.hasSource, h.source_eq]
  rfl

theorem box_eq (h : s.Picks options allowUnknown) (raw : Json) :
    s.box raw = .ok (Boxer.boxOption? allowUnknown raw s.store.options) := by
  rw [box, h.boxer_eq]
  rfl

theorem not_array (h : s.Picks options allowUnknown) (raw : Json) :
    (s.config.multivalue && raw.isArray) = false := by
  rw [h.single, Bool.false_and]

theorem options_asked (h : s.Picks options allowUnknown) (hint : String) (context : Context) :
    (s.asked hint context).store.options =
      OptionStore.truncate s.store.limit (Source.matching options hint) :=
  Slot.options_asked h.hasSource (h.fetch_eq hint context s.archive)

theorem exists_yields_restore (h : s.Picks options allowUnknown) (context : Context)
    (raw : Json) : ∃ t, (restore context (some raw)).Yields s () t := by
  let missed : Slot := { s with value := none }
  cases hboxed : Boxer.boxOption? allowUnknown raw s.store.options with
  | some value =>
      have hbox : s.box raw = .ok (some value) := by rw [h.box_eq, hboxed]
      exact ⟨_, (yields_restore_some (h.not_array raw)).2 (.inl ⟨value, hbox, rfl⟩)⟩
  | none =>
      have hbox : s.box raw = .ok none := by rw [h.box_eq, hboxed]
      suffices hsearch : ∃ t, (search raw context).Yields missed () t by
        obtain ⟨t, hyields⟩ := hsearch
        exact ⟨t, (yields_restore_some (h.not_array raw)).2 (.inr ⟨hbox, hyields⟩)⟩
      cases hskip : (hintText raw).isEmpty || !s.store.hasSource with
      | true => exact ⟨missed, (yields_search_skip (s := missed) hskip).2 rfl⟩
      | false =>
          have hmissed : missed.Picks options allowUnknown :=
            ⟨h.source_eq, h.boxer_eq, h.single⟩
          have hasked : (missed.asked (hintText raw) context).Picks options allowUnknown :=
            hmissed.congr (sameStep_asked missed (hintText raw) context)
          have henter : (enter raw).Yields (missed.asked (hintText raw) context) _ _ :=
            (yields_enter (hasked.not_array raw)).2 ⟨hasked.box_eq raw, rfl⟩
          exact ⟨_, (yields_search (s := missed) hskip).2 ⟨⟨_, h.fetch_eq ..⟩, _, henter⟩⟩

/-- The value is looked for in the options on offer, and then in those found for its text. -/
theorem value_eq (h : s.Picks options allowUnknown)
    (hoptions : s.store.options = OptionStore.truncate s.store.limit options)
    (hrestores : s.Restores context raw t) :
    t.value = boxTwice? options s.store.limit allowUnknown raw := by
  rw [boxTwice?, ← hoptions]
  cases hrestores with
  | first boxed =>
      rw [h.box_eq] at boxed
      rw [Except.ok.inj boxed]
      rfl
  | unsearched boxed skipped =>
      -- Without a text nothing is searched for, and a search would find the same options again.
      rw [h.box_eq] at boxed
      have hempty : (hintText raw).isEmpty = true := by simpa [h.hasSource] using skipped
      have hall : Source.matching options (hintText raw) = options := by
        rw [Source.matching, if_pos hempty]
      rw [hall, ← hoptions, Except.ok.inj boxed]
      rfl
  | searched missed _ _ boxed =>
      rw [h.box_eq] at missed
      rw [(h.congr (sameStep_asked s _ context)).box_eq, h.options_asked] at boxed
      rw [Except.ok.inj missed, Option.none_or, Except.ok.inj boxed]

/-- The step can always be made ready, and holds what the value is then. -/
theorem activate_of_pristine (h : s.Picks options allowUnknown) (hpristine : s.Pristine)
    (context : Context) (raw : Json) :
    let outcome := (activate context (some raw)).run s
    outcome.answer = .ok () ∧
      outcome.state.value = boxTwice? options s.store.limit allowUnknown raw := by
  intro outcome
  have hsame := sameStep_asked s "" context
  have hasked : (s.asked "" context).Picks options allowUnknown := h.congr hsame
  have hoptions : (s.asked "" context).store.options =
      OptionStore.truncate s.store.limit options := h.options_asked "" context
  obtain ⟨t, hrestore⟩ := hasked.exists_yields_restore context raw
  have hhydrate : (hydrate "" context).Yields s () (s.asked "" context) :=
    yields_hydrate.2 ⟨⟨_, h.fetch_eq ..⟩, rfl⟩
  obtain ⟨hanswer, hstate⟩ :=
    (yields_activate hpristine.initialized_eq).2 ⟨_, t, hhydrate, hrestore, rfl⟩
  refine ⟨hanswer, ?_⟩
  have hvalue : outcome.state.value = t.value := (congrArg Slot.value hstate :)
  rw [hvalue, ← hsame.limit_eq]
  exact hasked.value_eq (by rw [hoptions, hsame.limit_eq])
    (restores_of_yields (hasked.not_array raw) hrestore)

end Picks

/-! ## New slots and reset ones -/

/-- Only a provider can be replaced. -/
theorem sameStep_turn (h : s.store.source = .fixed options) (turn : SlotTurn) :
    SameStep s (s.turn turn).state := by
  cases turn with
  | call edit => exact keeps_perform edit s (.refl s)
  | store use =>
      obtain ⟨hsource, hlimit⟩ := OptionStore.apply_source_limit s.store use
      exact ⟨rfl, hsource, hlimit⟩
  | provider fetch =>
      refine ⟨rfl, ?_, rfl⟩
      change s.store.source.answering fetch = s.store.source
      rw [h]
      rfl

theorem sameStep_play (h : s.store.source = .fixed options) (turns : List SlotTurn) :
    SameStep s (s.play turns).state := by
  induction turns generalizing s with
  | nil => exact .refl s
  | cons turn turns ih =>
      have hturn := sameStep_turn h turn
      exact hturn.trans (ih (hturn.source_eq.trans h))

theorem pristine_of_new_or_reset {node : Node} (h : node.step.config.source = .fixed options)
    (hstart : s = fresh node ∨ ∃ turns, s = ((fresh node).play turns).state.reset.state) :
    SameStep (fresh node) s ∧ s.Pristine := by
  rcases hstart with rfl | ⟨turns, rfl⟩
  · exact ⟨.refl _, pristine_fresh node⟩
  · have hplay : SameStep (fresh node) ((fresh node).play turns).state := sameStep_play h turns
    exact ⟨hplay.trans (sameStep_reset _), ((supplied_fresh node).congr hplay).reset⟩

/-- On a new slot or a reset one, a step with a fixed list of options is made ready for the key
of any of them.  It then holds the option, with all that belongs to it, if the limit leaves that
one in reach, and so always if the limit does not cut off the list.  Otherwise it holds what it
makes of unknown keys. -/
theorem activate_own_key (node : Node) (options : List Choice) (allowUnknown : Bool)
    (hsource : node.step.config.source = .fixed options)
    (hboxer : node.step.config.boxer = Boxer.option allowUnknown)
    (hsingle : node.step.config.multivalue = false) (hkeys : KeysDiffer options)
    (hnull : ∀ o ∈ options, o.key.isNull = false) (s : Slot)
    (hstart : s = fresh node ∨ ∃ turns, s = ((fresh node).play turns).state.reset.state)
    (context : Context) (o : Choice) (ho : o ∈ options) :
    let limit := node.step.config.suggestionLimit
    let outcome := (activate context (some o.key)).run s
    outcome.answer = .ok () ∧
      (Reached options limit allowUnknown o → outcome.state.value = some o) ∧
      (¬ Reached options limit allowUnknown o →
        outcome.state.value = if allowUnknown then some (.ofKey o.key) else none) ∧
      ((∀ n, limit = some n → options.length ≤ n) → outcome.state.value = some o) := by
  intro limit outcome
  obtain ⟨hsame, hpristine⟩ := pristine_of_new_or_reset hsource hstart
  have hfresh : (fresh node).Picks options allowUnknown := ⟨hsource, hboxer, hsingle⟩
  obtain ⟨hanswer, hvalue⟩ := (hfresh.congr hsame).activate_of_pristine hpristine context o.key
  rw [hsame.limit_eq] at hvalue
  have hreached (h : Reached options limit allowUnknown o) : outcome.state.value = some o :=
    hvalue.trans (boxTwice?_of_reached hkeys (hnull o ho) ho h)
  refine ⟨hanswer, hreached, fun hnot => ?_, fun hwhole => hreached (.inl ?_)⟩
  · exact hvalue.trans (boxTwice?_of_not_reached hkeys (hnull o ho) ho hnot)
  · rwa [OptionStore.truncate_eq_self hwhole]

/-- A step with two options that are shown by other texts than their keys, so many at a time. -/
def labelledNode (limit : Option Nat) : Node :=
  let step := Step.option "Field"
    [{ key := .str "a1", label := some "Age" }, { key := .str "h1", label := some "Height" }]
  ⟨0, none, [], some "field",
    { step with config := { step.config with suggestionLimit := limit } }⟩

theorem activate_own_key_labelledNode :
    let height : Choice := { key := .str "h1", label := some "Height" }
    let options : List Choice := [{ key := .str "a1", label := some "Age" }, height]
    let node := labelledNode (some 2)
    let s := ((fresh node).play [.store (.refresh "Age" ⟨[]⟩ [])]).state.reset.state
    let outcome := (activate ⟨[]⟩ (some (.str "h1"))).run s
    node.step.config.source = .fixed options ∧
      node.step.config.boxer = Boxer.option false ∧ node.step.config.multivalue = false ∧
      KeysDiffer options ∧ (∀ o ∈ options, o.key.isNull = false) ∧ height ∈ options ∧
      outcome.answer = .ok () ∧ outcome.state.value = some height := by
  intro height options node s outcome
  have hkeys : KeysDiffer options := by simp [KeysDiffer, options, height]; rfl
  have hnull : ∀ o ∈ options, o.key.isNull = false := by simp [options, height, Json.isNull]
  have hmem : height ∈ options := by simp [options]
  obtain ⟨hanswer, -, -, hvalue⟩ := activate_own_key node options false rfl rfl rfl hkeys hnull s
    (.inr ⟨_, rfl⟩) ⟨[]⟩ height hmem
  refine ⟨rfl, rfl, rfl, hkeys, hnull, hmem, hanswer, hvalue ?_⟩
  rintro n ⟨⟩
  exact Nat.le_refl 2

/-- With one option on offer at a time the second one is not found by its key. -/
theorem activate_own_key_out_of_reach :
    let outcome := (activate ⟨[]⟩ (some (.str "h1"))).run (fresh (labelledNode (some 1)))
    outcome.answer = .ok () ∧ outcome.state.value = none :=
  ⟨rfl, rfl⟩

end Slot

end TokenGrammar
