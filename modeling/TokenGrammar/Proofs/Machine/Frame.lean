import TokenGrammar.Machine.Binding
import TokenGrammar.Machine.Request
import TokenGrammar.Proofs.Slot.Frame
import TokenGrammar.Proofs.Tree.Path

/-!
# What the operations of a machine change

Every operation but a move and a reset changes the active slot alone, and there only what
no step fixes.  This holds however the operation ends.
-/

namespace TokenGrammar.Machine

open Operation

/-- The machine stands where it stood, and only the data of its active slot may differ. -/
structure InPlace (start m : Machine) : Prop where
  current_eq : m.current = start.current
  flag_eq : m.resetOnBindFailure = start.resetOnBindFailure
  tree_eq : ∃ slot, Slot.SameStep start.currentSlot slot ∧
    m.tree = start.tree.set start.current slot

namespace InPlace

variable {start m m' : Machine}

theorem refl (start : Machine) : InPlace start start :=
  ⟨rfl, rfl, start.currentSlot, .refl _, (start.tree.set_slot start.current).symm⟩

theorem nodes_eq (h : InPlace start m) : m.tree.nodes = start.tree.nodes := by
  obtain ⟨slot, hslot, htree⟩ := h.tree_eq
  rw [htree, Tree.nodes_set hslot.node_eq]

theorem size_eq (h : InPlace start m) : m.tree.size = start.tree.size :=
  Tree.size_congr h.nodes_eq

theorem pathTo_eq (h : InPlace start m) :
    m.tree.pathTo m.current = start.tree.pathTo start.current := by
  rw [h.current_eq, Tree.pathTo_congr h.nodes_eq]

theorem slot_eq (h : InPlace start m) {id : Nat} (hid : id ≠ start.current) :
    m.tree.slot id = start.tree.slot id := by
  obtain ⟨slot, -, htree⟩ := h.tree_eq
  rw [htree, Tree.slot_set_ne hid]

theorem sameStep (h : InPlace start m) (id : Nat) :
    Slot.SameStep (start.tree.slot id) (m.tree.slot id) := by
  obtain ⟨slot, hslot, htree⟩ := h.tree_eq
  rcases Tree.slot_set start.tree start.current slot id with hsame | ⟨rfl, hnew⟩
  · rw [htree, hsame]
    exact .refl _
  · rw [htree, hnew]
    exact hslot

theorem trans (h : InPlace start m) (h' : InPlace m m') : InPlace start m' := by
  obtain ⟨slot, hslot, htree⟩ := h'.tree_eq
  -- Both replace the same slot, so that the later replacement is all that is left.
  obtain ⟨before, -, hbefore⟩ := h.tree_eq
  have hstep := h.sameStep start.current
  rw [← h.current_eq] at hstep
  refine ⟨h'.current_eq.trans h.current_eq, h'.flag_eq.trans h.flag_eq, slot, ?_, ?_⟩
  · have hcurrent : start.currentSlot = start.tree.slot m.current := by
      rw [h.current_eq]
      rfl
    rw [hcurrent]
    exact hstep.trans hslot
  · rw [htree, hbefore, h.current_eq, Tree.set_set]

end InPlace

/-! ## Operations on the active slot -/

section Active

variable {start : Machine} {α η : Type}

theorem withSlot_inPlace (m : Machine) {outcome : Outcome Slot SlotEvent α}
    (h : Slot.SameStep m.currentSlot outcome.state) : InPlace m (m.withSlot outcome).state :=
  ⟨rfl, rfl, outcome.state, h, rfl⟩

theorem keeps_carry {act : Slot → Outcome Slot SlotEvent (Except η α)}
    {lift : η → Halt MachineError} (h : ∀ s, Slot.SameStep s (act s).state) :
    Keeps (InPlace start) (carry act lift) :=
  fun m hm => hm.trans (withSlot_inPlace m (h m.currentSlot))

theorem keeps_runSlot {act : Slot.Op α} (h : ∀ s, Keeps (Slot.SameStep s) act) :
    Keeps (InPlace start) (runSlot act) :=
  keeps_carry fun s => h s s (.refl s)

theorem keeps_enter (raw : Json) : Keeps (InPlace start) (enter raw) :=
  keeps_runSlot fun s => (Slot.loading_sameStep s).enter raw

theorem keeps_announce (event : Machine → MachineEvent) :
    Keeps (InPlace start) (announce event) :=
  keeps_emit _

theorem keeps_activate (raw? : Option Json) : Keeps (InPlace start) (activate raw?) :=
  keeps_bind (keeps_read _) fun context =>
    keeps_runSlot fun s => (Slot.loading_sameStep s).activate context raw?

theorem keeps_archive : Keeps (InPlace start) archive :=
  keeps_bind (keeps_carry fun s => s.sameOffer_archiveValue.sameStep) fun _ => keeps_announce _

theorem keeps_unarchive : Keeps (InPlace start) unarchive :=
  keeps_bind (keeps_carry fun s => s.sameOffer_unarchiveValue.sameStep) fun _ => keeps_announce _

theorem keeps_removeArchived (index : Nat) :
    Keeps (InPlace start) (removeArchived index) :=
  keeps_bind (keeps_carry fun s => (s.sameOffer_removeArchived index).sameStep) fun _ =>
    keeps_bind (keeps_announce _) fun _ => keeps_pure _

theorem keeps_clearArchive : Keeps (InPlace start) clearArchive :=
  fun m hm => hm.trans (withSlot_inPlace m m.currentSlot.sameOffer_clearArchive.sameStep)

/-! ### Binding one step -/

theorem keeps_bindItems (vkey : String) (raw : Json) (items : List Json) :
    Keeps (InPlace start) (bindItems vkey raw items) := by
  induction items with
  | nil => exact keeps_pure _
  | cons item items ih =>
      refine keeps_bind (keeps_enter item) fun value? => ?_
      cases value? with
      | none => exact keeps_fail _
      | some value => exact keeps_bind keeps_archive fun _ => ih

theorem keeps_bindCurrent (vkey : String) (raw : Json) :
    Keeps (InPlace start) (bindCurrent vkey raw) := by
  refine keeps_bind (keeps_read _) fun slot => ?_
  split
  · exact keeps_bind (keeps_activate none) fun _ => keeps_bindItems vkey raw _
  · refine keeps_bind (keeps_activate (some raw)) fun _ =>
      keeps_bind (keeps_read _) fun value? => ?_
    split
    · exact keeps_fail _
    · exact keeps_pure _

end Active

end TokenGrammar.Machine
