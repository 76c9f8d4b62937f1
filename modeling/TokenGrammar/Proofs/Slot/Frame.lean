import TokenGrammar.Proofs.Operation
import TokenGrammar.Proofs.Options.Store
import TokenGrammar.Slot.Hydration

/-!
# What no operation on a slot changes

A slot keeps its step, its source of options and their limit through every edit and every
hydration, however these end.  An edit other than a reset leaves the options themselves alone.
-/

namespace TokenGrammar.Slot

open Operation

/-- Two conditions of one slot: the step, the source of its options and their limit are the
same. -/
structure SameStep (s t : Slot) : Prop where
  node_eq : t.node = s.node
  source_eq : t.store.source = s.store.source
  limit_eq : t.store.limit = s.store.limit

namespace SameStep

variable {s t u : Slot}

theorem refl (s : Slot) : SameStep s s := ⟨rfl, rfl, rfl⟩

theorem trans (h : SameStep s t) (h' : SameStep t u) : SameStep s u :=
  ⟨h'.node_eq.trans h.node_eq, h'.source_eq.trans h.source_eq, h'.limit_eq.trans h.limit_eq⟩

theorem config_eq (h : SameStep s t) : t.config = s.config := by
  rw [config, config, h.node_eq]

end SameStep

/-- Two conditions of one slot that may hold different values: all else is the same. -/
structure SameOffer (s t : Slot) : Prop where
  node_eq : t.node = s.node
  initialized_eq : t.initialized = s.initialized
  store_eq : t.store = s.store

namespace SameOffer

variable {s t u : Slot}

theorem refl (s : Slot) : SameOffer s s := ⟨rfl, rfl, rfl⟩

theorem trans (h : SameOffer s t) (h' : SameOffer t u) : SameOffer s u :=
  ⟨h'.node_eq.trans h.node_eq, h'.initialized_eq.trans h.initialized_eq,
    h'.store_eq.trans h.store_eq⟩

theorem sameStep (h : SameOffer s t) : SameStep s t :=
  ⟨h.node_eq, congrArg OptionStore.source h.store_eq, congrArg OptionStore.limit h.store_eq⟩

theorem config_eq (h : SameOffer s t) : t.config = s.config := h.sameStep.config_eq

end SameOffer

/-! ## Edits -/

section Edits

variable (s : Slot)

theorem sameOffer_setValue (value? : Option Choice) : SameOffer s (s.setValue value?).state :=
  ⟨rfl, rfl, rfl⟩

theorem sameOffer_setRaw (raw : Json) : SameOffer s (s.setRaw raw).state := by
  unfold setRaw
  split
  · exact .refl s
  · cases s.box raw <;> exact ⟨rfl, rfl, rfl⟩

theorem sameOffer_setPreview (preview? : Option Choice) :
    SameOffer s (s.setPreview preview?).state :=
  ⟨rfl, rfl, rfl⟩

theorem sameOffer_setRawPreview (raw : Json) : SameOffer s (s.setRawPreview raw).state := by
  unfold setRawPreview
  cases s.box raw <;> exact ⟨rfl, rfl, rfl⟩

theorem sameOffer_archiveValue : SameOffer s s.archiveValue.state := by
  unfold archiveValue
  cases s.archivable <;> exact ⟨rfl, rfl, rfl⟩

theorem sameOffer_unarchiveValue : SameOffer s s.unarchiveValue.state := by
  unfold unarchiveValue
  cases s.archive.getLast? <;> exact ⟨rfl, rfl, rfl⟩

theorem sameOffer_removeArchived (index : Nat) : SameOffer s (s.removeArchived index).state := by
  unfold removeArchived
  cases s.archive[index]? <;> exact ⟨rfl, rfl, rfl⟩

theorem sameOffer_clearArchive : SameOffer s s.clearArchive.state := ⟨rfl, rfl, rfl⟩

theorem sameStep_reset : SameStep s s.reset.state := ⟨rfl, rfl, rfl⟩

end Edits

/-! ## Hydration -/

/-- The slot after its source was asked, whatever came of it. -/
def asked (s : Slot) (hint : String) (context : Context) : Slot :=
  { s with store := (s.store.refresh hint context s.archive).2 }

theorem hydrate_state (s : Slot) (hint : String) (context : Context) :
    ((hydrate hint context).run s).state = s.asked hint context := by
  unfold Operation.run hydrate asked
  cases hrefresh : s.store.refresh hint context s.archive with
  | mk refresh store =>
      cases refresh with
      | ended result => cases result <;> rfl
      | waiting ticket => rfl

theorem enter_state (s : Slot) (raw : Json) :
    ((enter raw).run s).state = (s.setRaw raw).state := by
  unfold Operation.run enter
  cases s.setRaw raw with
  | mk answer t events => cases answer <;> rfl

/-- What survives the parts of making a step ready: an answer of its source, the entry of a
value and the mark that it is ready. -/
structure Readying (invariant : Slot → Prop) : Prop where
  asked : ∀ {s} (hint : String) (context : Context), invariant s →
    invariant (s.asked hint context)
  entered : ∀ {s} (raw : Json), invariant s → invariant (s.setRaw raw).state
  marked : ∀ {s}, invariant s → invariant { s with initialized := true }

namespace Readying

variable {invariant : Slot → Prop} (h : Readying invariant)

include h

theorem enter (raw : Json) : Keeps invariant (enter raw) := by
  intro s hs
  rw [enter_state]
  exact h.entered raw hs

theorem hydrate (hint : String) (context : Context) :
    Keeps invariant (hydrate hint context) := by
  intro s hs
  rw [hydrate_state]
  exact h.asked hint context hs

theorem search (raw : Json) (context : Context) : Keeps invariant (search raw context) := by
  intro s hs
  have hboth : Keeps invariant (do
      Slot.hydrate (hintText raw) context
      let _ ← Slot.enter raw : Op Unit) :=
    keeps_bind (h.hydrate _ context) fun _ => keeps_bind (h.enter raw) fun _ => keeps_pure _
  unfold Operation.run Slot.search
  split
  · exact hs
  · exact hboth s hs

theorem restore (context : Context) (raw? : Option Json) :
    Keeps invariant (restore context raw?) := by
  cases raw? with
  | none => exact keeps_pure _
  | some raw =>
      refine keeps_bind (h.enter raw) fun value? => ?_
      cases value? with
      | none => exact h.search raw context
      | some value => exact keeps_pure _

theorem activate (context : Context) (raw? : Option Json) :
    Keeps invariant (activate context raw?) := by
  intro s hs
  have hload : Keeps invariant (load context raw?) :=
    keeps_bind (h.hydrate "" context) fun _ =>
      keeps_bind (h.restore context raw?) fun _ => fun t ht => h.marked ht
  unfold Operation.run Slot.activate
  split
  · exact hs
  · exact hload s hs

end Readying

/-- What survives the changes that make a step ready, whichever value it is left with: other
options, another value and the mark that it is ready. -/
structure Loading (invariant : Slot → Prop) : Prop where
  asked : ∀ {s} (hint : String) (context : Context), invariant s →
    invariant (s.asked hint context)
  valued : ∀ {s} (value? : Option Choice), invariant s → invariant { s with value := value? }
  marked : ∀ {s}, invariant s → invariant { s with initialized := true }

namespace Loading

variable {invariant : Slot → Prop} (h : Loading invariant)

include h

theorem readying : Readying invariant := by
  refine ⟨h.asked, ?_, h.marked⟩
  intro s raw hs
  unfold setRaw
  split
  · exact hs
  · cases s.box raw with
    | error fault => exact hs
    | ok value? => exact h.valued value? hs

theorem enter (raw : Json) : Keeps invariant (enter raw) := h.readying.enter raw

theorem activate (context : Context) (raw? : Option Json) :
    Keeps invariant (activate context raw?) :=
  h.readying.activate context raw?

end Loading

theorem refresh_source_limit (store : OptionStore) (hint : String) (context : Context)
    (archive : List Choice) :
    (store.refresh hint context archive).2.source = store.source ∧
      (store.refresh hint context archive).2.limit = store.limit := by
  cases h : store.hasSource with
  | false =>
      rw [OptionStore.refresh_of_absent h]
      exact ⟨rfl, rfl⟩
  | true =>
      rw [OptionStore.refresh_of_present h]
      cases store.source.fetch hint context archive <;> exact ⟨rfl, rfl⟩

theorem sameStep_asked (s : Slot) (hint : String) (context : Context) :
    SameStep s (s.asked hint context) := by
  obtain ⟨hsource, hlimit⟩ := refresh_source_limit s.store hint context s.archive
  exact ⟨rfl, hsource, hlimit⟩

theorem loading_sameStep (start : Slot) : Loading (SameStep start) where
  asked hint context hs := hs.trans (sameStep_asked _ hint context)
  valued _ hs := hs.trans ⟨rfl, rfl, rfl⟩
  marked hs := hs.trans ⟨rfl, rfl, rfl⟩

theorem loading_archive (archive : List Choice) : Loading (·.archive = archive) :=
  ⟨fun _ _ h => h, fun _ h => h, fun h => h⟩

end TokenGrammar.Slot
