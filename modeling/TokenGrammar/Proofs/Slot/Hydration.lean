import TokenGrammar.Proofs.Binding.Legal
import TokenGrammar.Proofs.Slot.Frame

/-!
# What making a slot ready comes to

On a slot in which nothing has happened since its reset, hydration leaves the options that
the template speaks of, and a value to restore is boxed among these.
-/

namespace TokenGrammar.Slot

open Operation

/-- The store of the slot asks the source of the step, up to its limit. -/
structure Supplied (s : Slot) : Prop where
  source_eq : s.store.source = s.config.source
  limit_eq : s.store.limit = s.config.suggestionLimit

/-- Without a source the slot offers nothing. -/
structure Listing (s : Slot) : Prop extends Supplied s where
  options_eq : s.store.hasSource = false → s.store.options = []

/-- A slot as its reset leaves it, but for the count of requests. -/
structure Pristine (s : Slot) : Prop extends Listing s where
  value_eq : s.value = s.config.default?
  archive_eq : s.archive = []
  initialized_eq : s.initialized = false

variable {s t : Slot} {hint : String} {context : Context}

theorem supplied_fresh (node : Node) : Supplied (fresh node) := ⟨rfl, rfl⟩

theorem pristine_fresh (node : Node) : Pristine (fresh node) :=
  ⟨⟨supplied_fresh node, OptionStore.initialOptions_of_absent _⟩, rfl, rfl, rfl⟩

theorem Supplied.congr (h : Supplied s) (hsame : SameStep s t) : Supplied t := by
  refine ⟨?_, ?_⟩
  · rw [hsame.source_eq, hsame.config_eq, h.source_eq]
  · rw [hsame.limit_eq, hsame.config_eq, h.limit_eq]

theorem Supplied.reset (h : Supplied s) : Pristine s.reset.state :=
  ⟨⟨⟨h.source_eq, h.limit_eq⟩, OptionStore.initialOptions_of_absent _⟩, rfl, rfl, rfl⟩

/-! ## Single operations -/

/-- A request is answered at once exactly if the source has an answer. -/
theorem yields_hydrate :
    (hydrate hint context).Yields s () t ↔
      (∃ found, s.store.source.fetch hint context s.archive = .ready found) ∧
        t = s.asked hint context := by
  rw [Yields, hydrate_state, eq_comm (a := s.asked hint context)]
  refine and_congr_left fun _ => ?_
  unfold Operation.run hydrate
  cases hpresent : s.store.hasSource with
  | false =>
      simp [OptionStore.refresh_of_absent hpresent, OptionStore.source_of_absent hpresent,
        Source.fetch]
  | true =>
      rw [OptionStore.refresh_of_present hpresent]
      cases s.store.source.fetch hint context s.archive <;> simp

theorem options_asked {found : List Choice} (hpresent : s.store.hasSource = true)
    (hfetch : s.store.source.fetch hint context s.archive = .ready found) :
    (s.asked hint context).store.options = OptionStore.truncate s.store.limit found := by
  rw [asked, OptionStore.refresh_of_present hpresent, hfetch]
  rfl

namespace Listing

theorem asked (h : Listing s) (hint : String) (context : Context) :
    Listing (s.asked hint context) := by
  have hsame := sameStep_asked s hint context
  refine ⟨h.toSupplied.congr hsame, ?_⟩
  intro hnone
  have hbefore : s.store.hasSource = false := by
    rwa [OptionStore.hasSource, ← hsame.source_eq]
  rw [Slot.asked, OptionStore.refresh_of_absent hbefore]
  exact h.options_eq hbefore

theorem isPresent_eq (h : Listing s) : s.store.hasSource = s.config.source.isPresent := by
  rw [OptionStore.hasSource, h.source_eq]

theorem source_absent (h : Listing s) (hnone : s.store.hasSource = false) :
    s.config.source = .absent := by
  rw [← h.source_eq]
  exact OptionStore.source_of_absent hnone

theorem exists_ready_iff (h : Listing s) (harchive : s.archive = []) :
    (∃ found, s.store.source.fetch hint context s.archive = .ready found) ↔
      (s.config.offered? hint context).isSome := by
  rw [h.source_eq, harchive, StepConfig.offered?]
  cases s.config.source.fetch hint context [] <;> simp

theorem yields_hydrate (h : Listing s) (harchive : s.archive = []) :
    (hydrate hint context).Yields s () t ↔
      (s.config.offered? hint context).isSome ∧ t = s.asked hint context := by
  rw [Slot.yields_hydrate, h.exists_ready_iff harchive]

theorem options_asked (h : Listing s) (harchive : s.archive = []) {options : List Choice}
    (hoffered : s.config.offered? hint context = some options) :
    (s.asked hint context).store.options = options := by
  unfold StepConfig.offered? at hoffered
  unfold Slot.asked
  cases hpresent : s.store.hasSource with
  | false =>
      rw [h.source_absent hpresent] at hoffered
      rw [OptionStore.refresh_of_absent hpresent]
      cases hlimit : s.config.suggestionLimit <;>
        simpa [Source.fetch, OptionStore.truncate, hlimit, h.options_eq hpresent] using hoffered
  | true =>
      rw [OptionStore.refresh_of_present hpresent, h.source_eq, harchive]
      cases hfetch : s.config.source.fetch hint context [] with
      | ready found =>
          rw [hfetch, Option.some.injEq] at hoffered
          rw [← hoffered, ← h.limit_eq]
          rfl
      | failed reason => simp [hfetch] at hoffered
      | waiting => simp [hfetch] at hoffered

end Listing

theorem yields_enter {raw : Json} {value? : Option Choice}
    (h : (s.config.multivalue && raw.isArray) = false) :
    (enter raw).Yields s value? t ↔
      s.box raw = .ok value? ∧ t = { s with value := value? } := by
  rw [Yields, enter_state]
  unfold Operation.run enter setRaw
  rw [h]
  cases hbox : s.box raw with
  | error fault => simp
  | ok boxed =>
      simp only [Except.ok.injEq, Bool.false_eq_true, if_false, setValue]
      constructor
      · rintro ⟨rfl, rfl⟩
        exact ⟨rfl, rfl⟩
      · rintro ⟨rfl, rfl⟩
        exact ⟨rfl, rfl⟩

theorem yields_enter_some {raw : Json} {value : Choice} (h : s.config.multivalue = true) :
    (enter raw).Yields s (some value) t ↔
      raw.isArray = false ∧ s.box raw = .ok (some value) ∧
        t = { s with value := some value } := by
  cases harray : raw.isArray with
  | false =>
      rw [yields_enter (by simp [harray])]
      simp
  | true => simp [Yields, Operation.run, enter, setRaw, h, harray]

theorem isValid_eq_ok_iff {valid : Bool} :
    s.isValid = .ok valid ↔ s.config.validator s.value s.archive = .ok valid := by
  unfold isValid
  cases s.config.validator s.value s.archive <;> simp

theorem archivable_eq_ok_iff (value : Choice) :
    s.archivable = .ok value ↔
      s.config.multivalue = true ∧ s.isValid = .ok true ∧
        (∀ limit, s.config.multivalueLimit = some limit → s.archive.length < limit) ∧
          s.value = some value := by
  unfold archivable archivable.present
  cases hmultivalue : s.config.multivalue with
  | false => simp
  | true =>
      cases hvalid : s.isValid with
      | error error => simp
      | ok valid =>
          cases valid with
          | false => simp
          | true =>
              cases hlimit : s.config.multivalueLimit with
              | none => cases hvalue : s.value <;> simp
              | some limit =>
                  by_cases hfull : limit ≤ s.archive.length
                  · have hnot : ¬ s.archive.length < limit := Nat.not_lt.2 hfull
                    simp [hfull, hnot]
                  · cases hvalue : s.value <;> simp [hfull]; omega

def collecting (s : Slot) (value : Choice) : Slot :=
  { s with archive := s.archive ++ [value], value := s.config.default?, preview := none }

/-! ## Making a slot ready -/

theorem yields_search_skip {raw : Json}
    (hskip : ((hintText raw).isEmpty || !s.store.hasSource) = true) :
    (search raw context).Yields s () t ↔ t = s := by
  simp [Yields, Operation.run, search, hskip, eq_comm]

/-- A search enters the value once more. -/
theorem yields_search {raw : Json}
    (hgo : ((hintText raw).isEmpty || !s.store.hasSource) = false) :
    (search raw context).Yields s () t ↔
      (∃ found, s.store.source.fetch (hintText raw) context s.archive = .ready found) ∧
        ∃ value?, (enter raw).Yields (s.asked (hintText raw) context) value? t := by
  have hboth : (search raw context).Yields s () t ↔ (do
      hydrate (hintText raw) context
      let _ ← enter raw : Op Unit).Yields s () t := by
    simp only [Yields, Operation.run, search, hgo, Bool.false_eq_true, if_false]
  rw [hboth, yields_unit_bind]
  simp only [yields_hydrate, yields_bind, yields_pure]
  constructor
  · rintro ⟨_, ⟨hfound, rfl⟩, value?, _, henter, -, rfl⟩
    exact ⟨hfound, value?, henter⟩
  · rintro ⟨hfound, value?, henter⟩
    exact ⟨_, ⟨hfound, rfl⟩, value?, t, henter, trivial, rfl⟩

/-- A search boxes the value among the options found for its text. -/
theorem Listing.yields_search {raw : Json} (h : Listing s) (harchive : s.archive = [])
    (hsingle : s.config.multivalue = false)
    (hgo : ((hintText raw).isEmpty || !s.config.source.isPresent) = false) :
    (search raw context).Yields s () t ↔
      ∃ found value?, s.config.offered? (hintText raw) context = some found ∧
        s.config.boxer.box raw found = .ok value? ∧
          t = { s.asked (hintText raw) context with value := value? } := by
  have hconfig : (s.asked (hintText raw) context).config.multivalue = false := hsingle
  rw [Slot.yields_search (h.isPresent_eq ▸ hgo), h.exists_ready_iff harchive]
  simp only [yields_enter (s := s.asked (hintText raw) context) (by simp [hconfig])]
  constructor
  · rintro ⟨hsome, value?, hbox, rfl⟩
    obtain ⟨found, hfound⟩ := Option.isSome_iff_exists.1 hsome
    rw [box, h.options_asked harchive hfound] at hbox
    exact ⟨found, value?, hfound, hbox, rfl⟩
  · rintro ⟨found, value?, hfound, hbox, rfl⟩
    refine ⟨by simp [hfound], value?, ?_, rfl⟩
    rw [box, h.options_asked harchive hfound]
    exact hbox

theorem run_activate_of_initialized (h : s.initialized = true) (raw? : Option Json) :
    (activate context raw?).run s = ⟨.ok (), s, []⟩ := by
  simp [Operation.run, activate, h]

theorem yields_activate {raw? : Option Json} (h : s.initialized = false) :
    (activate context raw?).Yields s () t ↔
      ∃ hydrated restored, (hydrate "" context).Yields s () hydrated ∧
        (restore context raw?).Yields hydrated () restored ∧
          t = { restored with initialized := true } := by
  have hload : (activate context raw?).Yields s () t ↔ (load context raw?).Yields s () t := by
    simp [Yields, Operation.run, activate, h]
  rw [hload, load]
  simp only [yields_bind, yields_change]
  constructor
  · rintro ⟨⟨⟩, hydrated, hhydrate, ⟨⟩, restored, hrestore, ht⟩
    exact ⟨hydrated, restored, hhydrate, hrestore, ht⟩
  · rintro ⟨hydrated, restored, hhydrate, hrestore, ht⟩
    exact ⟨(), hydrated, hhydrate, (), restored, hrestore, ht⟩

theorem Pristine.yields_activate_none (h : Pristine s) :
    (activate context none).Yields s () t ↔
      (s.config.hydrated? context none).isSome ∧
        t = { s.asked "" context with initialized := true } := by
  rw [yields_activate h.initialized_eq]
  simp only [h.yields_hydrate h.archive_eq, restore, yields_pure, StepConfig.hydrated?]
  constructor
  · rintro ⟨hydrated, restored, ⟨hoffered, rfl⟩, ⟨-, rfl⟩, ht⟩
    exact ⟨hoffered, ht⟩
  · rintro ⟨hoffered, ht⟩
    exact ⟨_, _, ⟨hoffered, rfl⟩, ⟨trivial, rfl⟩, ht⟩

theorem yields_restore_some {raw : Json} (h : (s.config.multivalue && raw.isArray) = false) :
    (restore context (some raw)).Yields s () t ↔
      (∃ value, s.box raw = .ok (some value) ∧ t = { s with value := some value }) ∨
        s.box raw = .ok none ∧ (search raw context).Yields { s with value := none } () t := by
  have henter {value? : Option Choice} {u : Slot} : (enter raw).Yields s value? u ↔
      s.box raw = .ok value? ∧ u = { s with value := value? } :=
    yields_enter h
  simp only [restore, yields_bind, henter]
  constructor
  · rintro ⟨value?, _, ⟨hbox, rfl⟩, hrest⟩
    cases value? with
    | some value => exact .inl ⟨value, hbox, by simpa using hrest⟩
    | none => exact .inr ⟨hbox, by simpa using hrest⟩
  · rintro (⟨value, hbox, rfl⟩ | ⟨hbox, hsearch⟩)
    · exact ⟨some value, _, ⟨hbox, rfl⟩, by simp⟩
    · exact ⟨none, _, ⟨hbox, rfl⟩, by simpa using hsearch⟩

theorem Pristine.exists_activate_iff {raw : Json} (h : Pristine s) {options : List Choice}
    (hoffered : s.config.offered? "" context = some options) (value? : Option Choice) :
    (∃ t, (activate context (some raw)).Yields s () t ∧ t.value = value?) ↔
      ∃ t, (restore context (some raw)).Yields (s.asked "" context) () t ∧ t.value = value? := by
  simp only [yields_activate h.initialized_eq, h.yields_hydrate h.archive_eq]
  constructor
  · rintro ⟨_, ⟨_, restored, ⟨-, rfl⟩, hrestored, rfl⟩, hvalue⟩
    exact ⟨restored, hrestored, hvalue⟩
  · rintro ⟨restored, hrestored, hvalue⟩
    exact ⟨_, ⟨_, restored, ⟨by simp [hoffered], rfl⟩, hrestored, rfl⟩, hvalue⟩

/-- A value to restore is kept in the form that it has among the options that it leaves on
offer. -/
theorem Pristine.activate_some_iff {raw : Json} (h : Pristine s)
    (hsingle : s.config.multivalue = false) (value : Choice) :
    (∃ t, (activate context (some raw)).Yields s () t ∧ t.value = some value) ↔
      ∃ options, s.config.hydrated? context (some raw) = some options ∧
        s.config.boxer.box raw options = .ok (some value) := by
  -- Without an answer to the empty hint the step never gets ready.
  cases hoffered : s.config.offered? "" context with
  | none =>
      simp [yields_activate h.initialized_eq, h.yields_hydrate h.archive_eq,
        StepConfig.hydrated?, hoffered]
  | some options =>
      have hasked : Listing (s.asked "" context) := h.toListing.asked "" context
      have hlisting : Listing { s.asked "" context with value := none } :=
        ⟨⟨hasked.source_eq, hasked.limit_eq⟩, hasked.options_eq⟩
      have hbox : (s.asked "" context).box raw = s.config.boxer.box raw options := by
        rw [box, h.options_asked h.archive_eq hoffered]
        rfl
      rw [h.exists_activate_iff hoffered, StepConfig.hydrated?_some hoffered]
      have hnoArray : ((s.asked "" context).config.multivalue && raw.isArray) = false := by
        rw [show (s.asked "" context).config.multivalue = false from hsingle, Bool.false_and]
      simp only [yields_restore_some hnoArray, hbox]
      -- The value is refused, or has a form at once, or has to be searched for.
      cases hfirst : s.config.boxer.box raw options with
      | error fault => simp
      | ok boxed =>
          cases boxed with
          | some found => simp [hfirst]
          | none =>
              cases hskip : ((hintText raw).isEmpty || !s.config.source.isPresent) with
              | true =>
                  rw [show s.config = (s.asked "" context).config from rfl,
                    ← hasked.isPresent_eq] at hskip
                  simp [yields_search_skip (s := { s.asked "" context with value := none }) hskip,
                    hfirst]
              | false =>
                  simp only [hlisting.yields_search h.archive_eq hsingle hskip,
                    Bool.false_eq_true, if_false]
                  constructor
                  · rintro ⟨_, ⟨_, hfound, -⟩ | ⟨-, found, boxed, hfound, hboxed, rfl⟩, hvalue⟩
                    · cases hfound
                    · obtain rfl : boxed = some value := hvalue
                      exact ⟨found, hfound, hboxed⟩
                  · rintro ⟨found, hfound, hboxed⟩
                    exact ⟨_, .inr ⟨trivial, found, some value, hfound, hboxed, rfl⟩, rfl⟩

end TokenGrammar.Slot
