import TokenGrammar.Proofs.Machine.Frame
import TokenGrammar.Proofs.Slot.Hydration

/-!
# Results of the operations on the active slot

An operation on the active slot yields what the slot's own operation yields, and leaves
the machine with the new slot in its place.
-/

namespace TokenGrammar.Machine

open Operation

/-- The machine with another slot on the active step. -/
def put (m : Machine) (slot : Slot) : Machine :=
  { m with tree := m.tree.set m.current slot }

variable {m m' : Machine} {α η : Type}

@[simp] theorem put_current (slot : Slot) : (m.put slot).current = m.current := rfl

@[simp] theorem put_size (slot : Slot) : (m.put slot).tree.size = m.tree.size :=
  Tree.size_set ..

@[simp] theorem put_put (first second : Slot) : (m.put first).put second = m.put second := by
  simp [put, Tree.set_set]

theorem currentSlot_put (h : m.current < m.tree.size) (slot : Slot) :
    (m.put slot).currentSlot = slot :=
  Tree.slot_set_self h slot

/-- What holds of all slots still does if it holds of the new one. -/
theorem forall_slot_put {p : Nat → Slot → Prop} (h : ∀ id, p id (m.tree.slot id)) {slot : Slot}
    (hslot : p m.current slot) (id : Nat) : p id ((m.put slot).tree.slot id) := by
  rcases Tree.slot_set m.tree m.current slot id with hsame | ⟨rfl, hnew⟩
  · rw [put, hsame]
    exact h id
  · rwa [put, hnew]

theorem yields_carry {act : Slot → Outcome Slot SlotEvent (Except η α)}
    {lift : η → Halt MachineError} {a : α} :
    (carry act lift).Yields m a m' ↔
      (act m.currentSlot).answer = .ok a ∧ m' = m.put (act m.currentSlot).state := by
  unfold Yields Operation.run carry withSlot put
  cases (act m.currentSlot).answer with
  | ok b => simp [eq_comm]
  | error error => simp

theorem yields_runSlot {act : Slot.Op α} {a : α} :
    (runSlot act).Yields m a m' ↔ ∃ t, act.Yields m.currentSlot a t ∧ m' = m.put t := by
  rw [runSlot, yields_carry]
  constructor
  · rintro ⟨hanswer, rfl⟩
    exact ⟨_, ⟨hanswer, rfl⟩, rfl⟩
  · rintro ⟨_, ⟨hanswer, rfl⟩, rfl⟩
    exact ⟨hanswer, rfl⟩

theorem yields_activate {raw? : Option Json} :
    (activate raw?).Yields m () m' ↔
      ∃ t, (Slot.activate (m.tree.contextFor m.current) raw?).Yields m.currentSlot () t ∧
        m' = m.put t := by
  simp [activate, yields_bind, yields_runSlot]

theorem yields_archive :
    archive.Yields m () m' ↔ ∃ value, m.currentSlot.archivable = .ok value ∧
      m' = m.put (m.currentSlot.collecting value) := by
  simp only [archive, announce, yields_bind, trySlot, yields_carry, yields_emit]
  unfold Slot.archiveValue Slot.collecting
  cases m.currentSlot.archivable with
  | error error => simp
  | ok value => simp

/-! ## Filling an archive -/

theorem yields_bindItems_cons {vkey : String} {raw item : Json} {items : List Json}
    (hmultivalue : m.currentSlot.config.multivalue = true) (hlt : m.current < m.tree.size) :
    (bindItems vkey raw (item :: items)).Yields m () m' ↔
      ∃ value, item.isArray = false ∧ m.currentSlot.box item = .ok (some value) ∧
        m.currentSlot.config.validator (some value) m.currentSlot.archive = .ok true ∧
        (∀ limit, m.currentSlot.config.multivalueLimit = some limit →
          m.currentSlot.archive.length < limit) ∧
        (bindItems vkey raw items).Yields (m.put (m.currentSlot.collecting value)) () m' := by
  have hslot (value : Choice) : (m.put { m.currentSlot with value := some value }).currentSlot =
      { m.currentSlot with value := some value } := currentSlot_put hlt _
  have harchive {value : Choice} {mid : Machine} :
      archive.Yields (m.put { m.currentSlot with value := some value }) () mid ↔
        m.currentSlot.config.validator (some value) m.currentSlot.archive = .ok true ∧
        (∀ limit, m.currentSlot.config.multivalueLimit = some limit →
          m.currentSlot.archive.length < limit) ∧
        mid = m.put (m.currentSlot.collecting value) := by
    simp only [yields_archive, hslot, Slot.archivable_eq_ok_iff, Slot.isValid_eq_ok_iff, put_put]
    constructor
    · rintro ⟨_, ⟨-, hvalid, hroom, ⟨⟩⟩, rfl⟩
      exact ⟨hvalid, hroom, rfl⟩
    · rintro ⟨hvalid, hroom, rfl⟩
      exact ⟨value, ⟨hmultivalue, hvalid, hroom, rfl⟩, rfl⟩
  simp only [bindItems, yields_bind]
  constructor
  · rintro ⟨value?, _, henter, hrest⟩
    obtain ⟨t, ht, rfl⟩ := yields_runSlot.1 henter
    cases value? with
    | none => simp at hrest
    | some value =>
        obtain ⟨hitem, hbox, rfl⟩ := (Slot.yields_enter_some hmultivalue).1 ht
        obtain ⟨⟨⟩, _, harchived, hrest⟩ := yields_bind.1 hrest
        obtain ⟨hvalid, hroom, rfl⟩ := harchive.1 harchived
        exact ⟨value, hitem, hbox, hvalid, hroom, hrest⟩
  · rintro ⟨value, hitem, hbox, hvalid, hroom, hrest⟩
    refine ⟨some value, m.put { m.currentSlot with value := some value }, ?_, ?_⟩
    · exact yields_runSlot.2 ⟨_, (Slot.yields_enter_some hmultivalue).2 ⟨hitem, hbox, rfl⟩, rfl⟩
    · exact yields_bind.2 ⟨(), _, harchive.2 ⟨hvalid, hroom, rfl⟩, hrest⟩

end TokenGrammar.Machine
