import TokenGrammar.Options.Store

/-!
# What the operations of a store come to

A result for the latest request is applied or reported, any other one is dropped.  A
refresh asks for nothing in between, so its own request is still the latest one when its
source answers at once.
-/

namespace TokenGrammar.OptionStore

variable {store : OptionStore} {ticket : Ticket}

/-- The store with one more request. -/
def requested (store : OptionStore) : OptionStore := { store with issued := store.issued + 1 }

/-- The store with options that were found for a hint. -/
def showing (store : OptionStore) (hint : String) (options : List Choice) : OptionStore :=
  { store with options := truncate store.limit options, appliedHint := some hint }

/-- The store after the result of its latest request; a failure leaves it as it is. -/
def taking (store : OptionStore) (hint : String) : Except String (List Choice) → OptionStore
  | .ok options => store.showing hint options
  | .error _ => store

@[simp] theorem requested_source : store.requested.source = store.source := rfl
@[simp] theorem requested_limit : store.requested.limit = store.limit := rfl
@[simp] theorem requested_issued : store.requested.issued = store.issued + 1 := rfl

@[simp] theorem showing_source (hint : String) (options : List Choice) :
    (store.showing hint options).source = store.source := rfl
@[simp] theorem showing_limit (hint : String) (options : List Choice) :
    (store.showing hint options).limit = store.limit := rfl
@[simp] theorem showing_issued (hint : String) (options : List Choice) :
    (store.showing hint options).issued = store.issued := rfl
@[simp] theorem showing_options (hint : String) (options : List Choice) :
    (store.showing hint options).options = truncate store.limit options := rfl

theorem initialOptions_of_absent {source : Source} (limit : Option Nat)
    (h : source.isPresent = false) : initialOptions source limit = [] := by
  cases source with
  | absent => rfl
  | fixed options => simp [Source.isPresent] at h
  | provider fetch => rfl

theorem source_of_absent (h : store.hasSource = false) : store.source = .absent := by
  unfold hasSource at h
  cases hsource : store.source with
  | absent => rfl
  | fixed options => simp [hsource, Source.isPresent] at h
  | provider fetch => simp [hsource, Source.isPresent] at h

theorem hasSource_of_failed {hint : String} {context : Context} {archive : List Choice}
    {reason : String} (h : store.source.fetch hint context archive = .failed reason) :
    store.hasSource = true := by
  cases hpresent : store.hasSource with
  | true => rfl
  | false =>
      rw [source_of_absent hpresent] at h
      cases h

theorem truncate_subset (limit : Option Nat) (options : List Choice) :
    truncate limit options ⊆ options := by
  cases limit with
  | none => exact List.Subset.refl options
  | some n => exact List.take_subset n options

theorem truncate_eq_self {limit : Option Nat} {options : List Choice}
    (h : ∀ n, limit = some n → options.length ≤ n) : truncate limit options = options := by
  cases limit with
  | none => rfl
  | some n => exact List.take_of_length_le (h n rfl)

theorem issue_eq (store : OptionStore) (hint : String) :
    store.issue hint = (⟨store.issued + 1, hint⟩, store.requested) := rfl

theorem isCurrent_iff : store.isCurrent ticket = true ↔ store.issued = ticket.generation := by
  simp [isCurrent]

theorem settle_ok (store : OptionStore) (ticket : Ticket) (options : List Choice) :
    store.settle ticket (.ok options) =
      (.ok (store.complete ticket options).1, (store.complete ticket options).2) := rfl

theorem settle_of_current (h : store.isCurrent ticket = true)
    (result : Except String (List Choice)) :
    store.settle ticket result =
      (result.map fun _ => .applied, store.taking ticket.hint result) := by
  cases result with
  | ok options => simp [settle_ok, complete, h, taking, showing, Except.map]
  | error reason => simp [settle, h, taking, Except.map]

theorem settle_of_stale (h : store.isCurrent ticket = false)
    (result : Except String (List Choice)) :
    store.settle ticket result = (.ok .stale, store) := by
  cases result with
  | ok options => simp [settle_ok, complete, h]
  | error reason => simp [settle, h]

theorem settle_requested (store : OptionStore) (hint : String)
    (result : Except String (List Choice)) :
    store.requested.settle ⟨store.issued + 1, hint⟩ result =
      (result.map fun _ => .applied, store.requested.taking hint result) :=
  settle_of_current (isCurrent_iff.2 rfl) result

theorem refresh_of_absent (h : store.hasSource = false) (hint : String) (context : Context)
    (archive : List Choice) :
    store.refresh hint context archive = (.ended (.ok .skipped), store) := by
  simp [refresh, h]

theorem refresh_of_present (h : store.hasSource = true) (hint : String) (context : Context)
    (archive : List Choice) :
    store.refresh hint context archive =
      match store.source.fetch hint context archive with
      | .ready options => (.ended (.ok .applied), store.requested.showing hint options)
      | .failed reason => (.ended (.error reason), store.requested)
      | .waiting => (.waiting ⟨store.issued + 1, hint⟩, store.requested) := by
  unfold refresh
  simp only [h, Bool.not_true, Bool.false_eq_true, if_false, issue_eq, requested_source,
    settle_requested]
  cases store.source.fetch hint context archive <;> rfl

end TokenGrammar.OptionStore
