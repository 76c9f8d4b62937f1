import TokenGrammar.Proofs.Slot.Hydration

/-!
# Slots that were filled by hand

Where a step takes every value as it is and starts with none, entering raw values and moving
them to the archive and back leaves values that are their own raw form.
-/

namespace TokenGrammar

/-- A step that takes every value as it is, offers none and starts with none.  It asks for
a value if it has a key. -/
structure Node.Plain (node : Node) : Prop where
  boxer_eq : node.step.config.boxer = Boxer.identity
  source_eq : node.step.config.source = .absent
  default_eq : node.step.config.default? = none
  bindOnly_eq : node.step.config.bindOnly = false
  keyed : ∀ vkey, node.vkey = some vkey → node.step.config.validator = Validator.required
  keyless : node.vkey = none → node.step.config.validator = Validator.always

theorem Node.plain_default : (default : Node).Plain :=
  ⟨rfl, rfl, rfl, rfl, by rintro _ ⟨⟩, fun _ => rfl⟩

namespace Slot

/-- What a raw value becomes on a step that takes values as they are. -/
def Takes (s : Slot) (value : Choice) : Prop :=
  ∃ raw, value = .ofKey raw ∧ raw.isNull = false ∧
    (s.config.multivalue = true → raw.isArray = false)

/-- All values of the slot were entered, and its archive was filled by its rules. -/
structure Entered (s : Slot) : Prop where
  plain : s.node.Plain
  value_takes : ∀ value, s.value = some value → s.Takes value
  archive_takes : ∀ value ∈ s.archive, s.Takes value
  archive_single : s.config.multivalue = false → s.archive = []
  archive_room : ∀ limit, s.config.multivalueLimit = some limit → s.archive.length ≤ limit

variable {s : Slot}

theorem Takes.ofKey_key {value : Choice} (h : s.Takes value) : Choice.ofKey value.key = value := by
  obtain ⟨raw, rfl, -, -⟩ := h
  rfl

theorem Takes.key_not_null {value : Choice} (h : s.Takes value) : value.key.isNull = false := by
  obtain ⟨raw, rfl, hnull, -⟩ := h
  exact hnull

theorem Takes.key_not_array {value : Choice} (h : s.Takes value)
    (hmultivalue : s.config.multivalue = true) : value.key.isArray = false := by
  obtain ⟨raw, rfl, -, harray⟩ := h
  exact harray hmultivalue

theorem unbox_of_plain (h : s.node.Plain) (value : Choice) : s.unbox value = value.key := by
  rw [unbox, config, h.boxer_eq]
  rfl

namespace Entered

theorem fresh {node : Node} (h : node.Plain) : Entered (fresh node) := by
  refine ⟨h, ?_, by simp [Slot.fresh], fun _ => rfl, by simp [Slot.fresh]⟩
  intro value hvalue
  rw [Slot.fresh, h.default_eq] at hvalue
  cases hvalue

theorem setRaw (h : Entered s) (raw : Json) : Entered (s.setRaw raw).state := by
  unfold Slot.setRaw
  rw [box, config, h.plain.boxer_eq, Boxer.box_identity]
  cases harray : s.node.step.config.multivalue && raw.isArray with
  | true => exact h
  | false =>
      refine ⟨h.plain, ?_, h.archive_takes, h.archive_single, h.archive_room⟩
      intro value hvalue
      have hraw : (if raw.isNull then none else some (Choice.ofKey raw)) = some value := hvalue
      cases hnull : raw.isNull with
      | true => simp [hnull] at hraw
      | false =>
          have hvalue : Choice.ofKey raw = value := by simpa [hnull] using hraw
          refine ⟨raw, hvalue.symm, hnull, fun hmultivalue => ?_⟩
          have hmultivalue : s.node.step.config.multivalue = true := hmultivalue
          simpa [hmultivalue] using harray

theorem archiveValue (h : Entered s) : Entered s.archiveValue.state := by
  unfold Slot.archiveValue
  cases harchivable : s.archivable with
  | error error => exact h
  | ok value =>
      obtain ⟨hmultivalue, -, hroom, hvalue⟩ := (archivable_eq_ok_iff value).1 harchivable
      refine ⟨h.plain, ?_, ?_, ?_, ?_⟩
      · intro other hother
        have hnone : s.config.default? = some other := hother
        rw [config, h.plain.default_eq] at hnone
        cases hnone
      · intro other hother
        rcases List.mem_append.1 hother with hother | hother
        · exact h.archive_takes other hother
        · obtain rfl := List.mem_singleton.1 hother
          exact h.value_takes other hvalue
      · intro hsingle
        have hsingle : s.config.multivalue = false := hsingle
        simp [hmultivalue] at hsingle
      · intro limit hlimit
        have hlt := hroom limit hlimit
        simp only [List.length_append, List.length_singleton]
        omega

theorem unarchiveValue (h : Entered s) : Entered s.unarchiveValue.state := by
  unfold Slot.unarchiveValue
  cases hlast : s.archive.getLast? with
  | none => exact h
  | some last =>
      refine ⟨h.plain, ?_, ?_, ?_, ?_⟩
      · rintro value ⟨⟩
        exact h.archive_takes last (List.mem_of_getLast? hlast)
      · intro value hvalue
        exact h.archive_takes value (List.dropLast_subset _ hvalue)
      · intro hsingle
        simp [h.archive_single hsingle]
      · intro limit hlimit
        have hle := h.archive_room limit hlimit
        simp only [List.length_dropLast]
        omega

theorem removeArchived (h : Entered s) (index : Nat) :
    Entered (s.removeArchived index).state := by
  unfold Slot.removeArchived
  cases hget : s.archive[index]? with
  | none => exact h
  | some removed =>
      refine ⟨h.plain, h.value_takes, ?_, ?_, ?_⟩
      · intro value hvalue
        exact h.archive_takes value (List.mem_of_mem_eraseIdx hvalue)
      · intro hsingle
        simp [h.archive_single hsingle]
      · intro limit hlimit
        exact Nat.le_trans (List.length_eraseIdx_le s.archive index) (h.archive_room limit hlimit)

theorem clearArchive (h : Entered s) : Entered s.clearArchive.state :=
  ⟨h.plain, h.value_takes, by simp [Slot.clearArchive], fun _ => rfl,
    by simp [Slot.clearArchive]⟩

theorem reset (h : Entered s) : Entered s.reset.state := by
  refine ⟨h.plain, ?_, by simp [Slot.reset], fun _ => rfl, by simp [Slot.reset]⟩
  intro value hvalue
  have hnone : s.config.default? = some value := hvalue
  rw [config, h.plain.default_eq] at hnone
  cases hnone

end Entered

end Slot

end TokenGrammar
