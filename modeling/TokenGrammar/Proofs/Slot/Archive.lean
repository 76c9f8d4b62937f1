import TokenGrammar.Proofs.Boxer.Standard
import TokenGrammar.Proofs.Slot.Log

/-!
# What a slot never holds

Only a step that collects values has an archive, and never a larger one than its limit allows.
The values of such a step are taken one at a time, so that neither the value in progress nor an
archived one is an array.  Values go back and forth between the two places and come from the
default, a caller or a boxer; every edit keeps all of this, whether or not it is refused.
-/

namespace TokenGrammar

/-- A step that is built with one of the boxers in use and does not start with an array. -/
structure StepConfig.Scalar (config : StepConfig) : Prop where
  standard : config.boxer.Standard
  default_scalar : ∀ value, config.default? = some value → value.key.isArray = false

namespace Slot

open Operation

/-- The slot holds what its step lets it hold. -/
structure WellKept (s : Slot) : Prop where
  scalar : s.config.Scalar
  archive_single : s.config.multivalue = false → s.archive = []
  archive_room : ∀ limit, s.config.multivalueLimit = some limit → s.archive.length ≤ limit
  value_scalar : s.config.multivalue = true →
    ∀ value, s.value = some value → value.key.isArray = false
  archive_scalar : s.config.multivalue = true → ∀ value ∈ s.archive, value.key.isArray = false

variable {s t : Slot}

theorem wellKept_fresh {node : Node} (h : node.step.config.Scalar) : WellKept (fresh node) :=
  ⟨h, fun _ => rfl, fun _ _ => Nat.zero_le _, fun _ => h.default_scalar,
    fun _ _ hmem => nomatch hmem⟩

namespace WellKept

/-- Options, preview and the mark of a step that is ready do not matter. -/
theorem congr (h : WellKept s) (hnode : t.node = s.node) (hvalue : t.value = s.value)
    (harchive : t.archive = s.archive) : WellKept t := by
  have hconfig : t.config = s.config := congrArg (·.step.config) hnode
  refine ⟨hconfig ▸ h.scalar, ?_, ?_, ?_, ?_⟩
  · rw [hconfig, harchive]
    exact h.archive_single
  · rw [hconfig, harchive]
    exact h.archive_room
  · rw [hconfig, hvalue]
    exact h.value_scalar
  · rw [hconfig, harchive]
    exact h.archive_scalar

/-! ## Edits -/

theorem setValue (h : WellKept s) {value? : Option Choice}
    (hvalue : s.config.multivalue = true →
      ∀ value, value? = some value → value.key.isArray = false) :
    WellKept (s.setValue value?).state :=
  ⟨h.scalar, h.archive_single, h.archive_room, hvalue, h.archive_scalar⟩

theorem setRaw (h : WellKept s) (raw : Json) : WellKept (s.setRaw raw).state := by
  unfold Slot.setRaw
  cases hrefused : s.config.multivalue && raw.isArray with
  | true => exact h
  | false =>
      cases hbox : s.box raw with
      | error fault => exact h
      | ok value? =>
          refine h.setValue fun hmultivalue value hvalue => ?_
          have hraw : raw.isArray = false := by simpa [hmultivalue] using hrefused
          exact h.scalar.standard.isArray_key (hbox.trans (congrArg Except.ok hvalue)) hraw

theorem setRawPreview (h : WellKept s) (raw : Json) : WellKept (s.setRawPreview raw).state := by
  unfold Slot.setRawPreview
  cases s.box raw <;> exact h.congr rfl rfl rfl

theorem archiveValue (h : WellKept s) : WellKept s.archiveValue.state := by
  unfold Slot.archiveValue
  cases harchivable : s.archivable with
  | error error => exact h
  | ok value =>
      obtain ⟨hmultivalue, -, hroom, hvalue⟩ := (archivable_eq_ok_iff value).1 harchivable
      refine ⟨h.scalar, fun hsingle => ?_, fun limit hlimit => ?_,
        fun _ => h.scalar.default_scalar, fun _ other hother => ?_⟩
      · rw [show s.config.multivalue = false from hsingle] at hmultivalue
        cases hmultivalue
      · have hlt : s.archive.length < limit := hroom limit hlimit
        simp only [List.length_append, List.length_singleton]
        omega
      · rcases List.mem_append.1 hother with hother | hother
        · exact h.archive_scalar hmultivalue other hother
        · obtain rfl := List.mem_singleton.1 hother
          exact h.value_scalar hmultivalue other hvalue

/-- A part of the archive may be left, with any value that is no array. -/
theorem sublist (h : WellKept s) {value? : Option Choice} {archive : List Choice}
    (hvalue : s.config.multivalue = true →
      ∀ value, value? = some value → value.key.isArray = false)
    (hsub : archive.Sublist s.archive) :
    WellKept { s with value := value?, archive } := by
  refine ⟨h.scalar, fun hsingle => ?_, fun limit hlimit => ?_, hvalue,
    fun hmultivalue other hother => ?_⟩
  · rw [h.archive_single hsingle] at hsub
    exact List.sublist_nil.1 hsub
  · exact Nat.le_trans hsub.length_le (h.archive_room limit hlimit)
  · exact h.archive_scalar hmultivalue other (hsub.subset hother)

theorem unarchiveValue (h : WellKept s) : WellKept s.unarchiveValue.state := by
  unfold Slot.unarchiveValue
  cases hlast : s.archive.getLast? with
  | none => exact h
  | some last =>
      refine h.sublist (fun hmultivalue value hvalue => ?_) (List.dropLast_sublist s.archive)
      obtain rfl := Option.some.inj hvalue
      exact h.archive_scalar hmultivalue last (List.mem_of_getLast? hlast)

theorem removeArchived (h : WellKept s) (index : Nat) :
    WellKept (s.removeArchived index).state := by
  unfold Slot.removeArchived
  cases s.archive[index]? with
  | none => exact h
  | some removed => exact h.sublist h.value_scalar (List.eraseIdx_sublist s.archive index)

theorem clearArchive (h : WellKept s) : WellKept s.clearArchive.state :=
  h.sublist h.value_scalar (List.nil_sublist s.archive)

theorem reset (h : WellKept s) : WellKept s.reset.state := by
  have hfresh : WellKept (fresh s.node) := wellKept_fresh h.scalar
  exact hfresh.congr rfl rfl rfl

theorem readying : Readying WellKept :=
  ⟨fun _ _ h => h.congr rfl rfl rfl, fun raw h => h.setRaw raw, fun h => h.congr rfl rfl rfl⟩

end WellKept

/-! ## Runs -/

theorem keeps_wellKept {edit : Edit}
    (hedit : ∀ value, edit = .setValue (some value) → value.key.isArray = false) :
    Keeps WellKept (perform edit) := by
  cases edit with
  | setValue value? =>
      refine keeps_bind (fun _ h => h.setValue fun _ value hvalue => ?_) fun _ => keeps_pure _
      exact hedit value (congrArg Edit.setValue hvalue)
  | setRaw raw => exact keeps_bind (WellKept.readying.enter raw) fun _ => keeps_pure _
  | setPreview preview? =>
      exact keeps_bind (fun _ h => h.congr rfl rfl rfl) fun _ => keeps_pure _
  | setRawPreview raw => exact keeps_bind (fun _ h => h.setRawPreview raw) fun _ => keeps_pure _
  | archive => exact keeps_bind (fun _ h => h.archiveValue) fun _ => keeps_pure _
  | unarchive => exact keeps_bind (fun _ h => h.unarchiveValue) fun _ => keeps_pure _
  | removeArchived index =>
      exact keeps_bind (fun _ h => h.removeArchived index) fun _ => keeps_pure _
  | clearArchive => exact keeps_bind (fun _ h => h.clearArchive) fun _ => keeps_pure _
  | reset => exact keeps_bind (fun _ h => h.reset) fun _ => keeps_pure _
  | activate context raw? =>
      exact keeps_bind (WellKept.readying.activate context raw?) fun _ => keeps_pure _

namespace WellKept

theorem turn (h : WellKept s) {turn : SlotTurn}
    (hturn : ∀ value, turn = .call (.setValue (some value)) → value.key.isArray = false) :
    WellKept (s.turn turn).state := by
  cases turn with
  | call edit =>
      exact keeps_wellKept (fun value hedit => hturn value (congrArg SlotTurn.call hedit)) s h
  | store use => exact h.congr rfl rfl rfl
  | provider fetch => exact h.congr rfl rfl rfl

theorem play (h : WellKept s) {turns : List SlotTurn}
    (hturns : ∀ value, .call (.setValue (some value)) ∈ turns → value.key.isArray = false) :
    WellKept (s.play turns).state := by
  induction turns generalizing s with
  | nil => exact h
  | cons turn turns ih =>
      have hfirst : WellKept (s.turn turn).state :=
        h.turn fun value hcall => hturns value (hcall ▸ List.mem_cons_self)
      exact ih hfirst fun value hmem => hturns value (List.mem_cons_of_mem _ hmem)

end WellKept

/-- Whatever is done with a slot, it has an archive only if its step collects values, the
archive is within its limit, and no value that is collected is an array, provided that no
array comes as the default or is set as a value by a caller.  Any raw value may be entered,
shown as a preview or restored. -/
theorem play_wellKept (node : Node) (hboxer : node.step.config.boxer.Standard)
    (hdefault : ∀ value, node.step.config.default? = some value → value.key.isArray = false)
    (turns : List SlotTurn)
    (hturns : ∀ value, .call (.setValue (some value)) ∈ turns → value.key.isArray = false) :
    let s := ((fresh node).play turns).state
    (node.step.config.multivalue = false → s.archive = []) ∧
      (∀ limit, node.step.config.multivalueLimit = some limit → s.archive.length ≤ limit) ∧
        (node.step.config.multivalue = true →
          ∀ value, s.value = some value ∨ value ∈ s.archive → value.key.isArray = false) := by
  intro s
  have hkept : WellKept s := (wellKept_fresh ⟨hboxer, hdefault⟩).play hturns
  have hconfig : s.config = node.step.config :=
    congrArg (·.step.config) (reported_play (fresh node) turns).node_eq
  rw [← hconfig]
  refine ⟨hkept.archive_single, hkept.archive_room, fun hmultivalue value hvalue => ?_⟩
  rcases hvalue with hvalue | harchived
  · exact hkept.value_scalar hmultivalue value hvalue
  · exact hkept.archive_scalar hmultivalue value harchived

/-- A step that collects two tags. -/
def tagsNode : Node :=
  let step := Step.value "Tags"
  ⟨0, none, [], some "tags",
    { step with config := { step.config with multivalue := true, multivalueLimit := some 2 } }⟩

/-- An array is refused as a value but shown as a preview, and the third tag finds the archive
full, so that the second one comes back in its place. -/
theorem play_wellKept_tagsNode :
    let turns : List SlotTurn :=
      [.call (.setRaw (.arr [.str "ant"])), .call (.setRawPreview (.arr [.str "ant"])),
        .call (.setRaw (.str "ant")), .call .archive,
        .call (.setValue (some (.ofKey (.str "bee")))), .call .archive,
        .call (.setRaw (.str "cat")), .call .archive, .call .unarchive]
    let s := ((fresh tagsNode).play turns).state
    tagsNode.step.config.boxer.Standard ∧ tagsNode.step.config.default? = none ∧
      .call (.setValue (some (.ofKey (.str "bee")))) ∈ turns ∧
        s.value = some (.ofKey (.str "bee")) ∧ s.archive = [.ofKey (.str "ant")] ∧
          s.archive.length ≤ 2 ∧ ∀ value ∈ s.archive, value.key.isArray = false := by
  intro turns s
  have hboxer : tagsNode.step.config.boxer.Standard := .elementary .identity
  have hturns : ∀ value, .call (.setValue (some value)) ∈ turns →
      value.key.isArray = false := by
    intro value hmem
    obtain rfl : value = .ofKey (.str "bee") := by simpa [turns] using hmem
    rfl
  obtain ⟨-, hroom, hscalar⟩ := play_wellKept tagsNode hboxer (fun _ h => nomatch h) turns hturns
  exact ⟨hboxer, rfl, by simp [turns], rfl, rfl, hroom 2 rfl,
    fun value hmem => hscalar rfl value (.inr hmem)⟩

end Slot

end TokenGrammar
