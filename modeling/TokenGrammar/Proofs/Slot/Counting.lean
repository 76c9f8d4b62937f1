import TokenGrammar.Proofs.Machine.Command
import TokenGrammar.Proofs.Options.Counting

/-!
# Slots do not look at the count of requests

Whatever is done with a slot comes to the same, from whichever number its store counts.
-/

namespace TokenGrammar

namespace Operation

variable {σ ν ε α η : Type} {shift : σ → σ}

theorem ignores_always {act : σ → Outcome σ ν α} (h : Ignores shift act) :
    Ignores shift (always act : Operation σ ν ε α).run := by
  intro s
  simp only [run, always, h s]

theorem ignores_attempt {act : σ → Outcome σ ν (Except η α)} {lift : η → Halt ε}
    (h : Ignores shift act) : Ignores shift (attempt act lift).run := by
  intro s
  simp only [run, attempt, h s]

end Operation

namespace Slot

open Operation

/-- The slot with a number of requests counted before those of its store. -/
def countedFrom (n : Nat) (s : Slot) : Slot := { s with store := s.store.countedFrom n }

variable {n : Nat}

@[simp] theorem countedFrom_zero (s : Slot) : s.countedFrom 0 = s := by
  simp [countedFrom]

/-! ## Edits -/

theorem ignores_setValue (value? : Option Choice) : Ignores (countedFrom n) (·.setValue value?) :=
  fun _ => rfl

theorem ignores_setPreview (preview? : Option Choice) :
    Ignores (countedFrom n) (·.setPreview preview?) :=
  fun _ => rfl

theorem ignores_setRaw (raw : Json) : Ignores (countedFrom n) (·.setRaw raw) := by
  intro s
  have hconfig : (s.countedFrom n).config = s.config := rfl
  have hbox : (s.countedFrom n).box raw = s.box raw := rfl
  simp only [setRaw, hconfig, hbox]
  cases s.config.multivalue && raw.isArray with
  | true => rfl
  | false => cases s.box raw <;> rfl

theorem ignores_setRawPreview (raw : Json) : Ignores (countedFrom n) (·.setRawPreview raw) := by
  intro s
  have hbox : (s.countedFrom n).box raw = s.box raw := rfl
  simp only [setRawPreview, hbox]
  cases s.box raw <;> rfl

theorem ignores_archiveValue : Ignores (countedFrom n) archiveValue := by
  intro s
  have harchivable : (s.countedFrom n).archivable = s.archivable := rfl
  unfold archiveValue
  rw [harchivable]
  cases s.archivable <;> rfl

theorem ignores_unarchiveValue : Ignores (countedFrom n) unarchiveValue := by
  intro s
  have harchive : (s.countedFrom n).archive = s.archive := rfl
  unfold unarchiveValue
  rw [harchive]
  cases s.archive.getLast? <;> rfl

theorem ignores_removeArchived (index : Nat) :
    Ignores (countedFrom n) (·.removeArchived index) := by
  intro s
  have harchive : (s.countedFrom n).archive = s.archive := rfl
  simp only [removeArchived, harchive]
  cases s.archive[index]? <;> rfl

theorem ignores_clearArchive : Ignores (countedFrom n) clearArchive := fun _ => rfl

theorem ignores_reset : Ignores (countedFrom n) reset := fun _ => rfl

/-! ## Hydration -/

theorem ignores_hydrate (hint : String) (context : Context) :
    Ignores (countedFrom n) (hydrate hint context).run := by
  intro s
  have hrefresh : (s.countedFrom n).store.refresh hint context (s.countedFrom n).archive =
      ((s.store.refresh hint context s.archive).1.countedFrom n,
        (s.store.refresh hint context s.archive).2.countedFrom n) :=
    OptionStore.refresh_countedFrom hint context s.archive
  unfold Operation.run hydrate
  rw [hrefresh]
  cases s.store.refresh hint context s.archive with
  | mk refresh store =>
      cases refresh with
      | ended result => cases result <;> rfl
      | waiting ticket => rfl

theorem ignores_enter (raw : Json) : Ignores (countedFrom n) (enter raw).run := by
  intro s
  have hset : (s.countedFrom n).setRaw raw = ⟨(s.setRaw raw).answer,
      (s.setRaw raw).state.countedFrom n, (s.setRaw raw).events⟩ := ignores_setRaw raw s
  unfold Operation.run enter
  rw [hset]
  cases s.setRaw raw with
  | mk answer t events => cases answer <;> rfl

theorem ignores_search (raw : Json) (context : Context) :
    Ignores (countedFrom n) (search raw context).run := by
  have hboth : Ignores (countedFrom n) (do
      hydrate (hintText raw) context
      let _ ← enter raw : Op Unit).run :=
    ignores_bind (ignores_hydrate _ context) fun _ =>
      ignores_bind (ignores_enter raw) fun _ => ignores_pure _
  intro s
  have hsource : (s.countedFrom n).store.hasSource = s.store.hasSource := rfl
  unfold Operation.run search
  rw [hsource]
  cases (hintText raw).isEmpty || !s.store.hasSource with
  | true => rfl
  | false => exact hboth s

theorem ignores_restore (context : Context) (raw? : Option Json) :
    Ignores (countedFrom n) (restore context raw?).run := by
  cases raw? with
  | none => exact ignores_pure _
  | some raw =>
      refine ignores_bind (ignores_enter raw) fun value? => ?_
      cases value? with
      | none => exact ignores_search raw context
      | some value => exact ignores_pure _

theorem ignores_activate (context : Context) (raw? : Option Json) :
    Ignores (countedFrom n) (activate context raw?).run := by
  have hload : Ignores (countedFrom n) (load context raw?).run :=
    ignores_bind (ignores_hydrate "" context) fun _ =>
      ignores_bind (ignores_restore context raw?) fun _ => fun _ => rfl
  intro s
  have hinitialized : (s.countedFrom n).initialized = s.initialized := rfl
  unfold Operation.run activate
  rw [hinitialized]
  cases s.initialized with
  | true => rfl
  | false => exact hload s

theorem ignores_perform (edit : Edit) : Ignores (countedFrom n) (perform edit).run := by
  cases edit with
  | setValue value? =>
      exact ignores_bind (ignores_always (ignores_setValue value?)) fun _ => ignores_pure _
  | setRaw raw => exact ignores_bind (ignores_enter raw) fun _ => ignores_pure _
  | setPreview preview? =>
      exact ignores_bind (ignores_always (ignores_setPreview preview?)) fun _ => ignores_pure _
  | setRawPreview raw =>
      exact ignores_bind (ignores_attempt (ignores_setRawPreview raw)) fun _ => ignores_pure _
  | archive => exact ignores_bind (ignores_attempt ignores_archiveValue) fun _ => ignores_pure _
  | unarchive =>
      exact ignores_bind (ignores_attempt ignores_unarchiveValue) fun _ => ignores_pure _
  | removeArchived index =>
      exact ignores_bind (ignores_attempt (ignores_removeArchived index)) fun _ => ignores_pure _
  | clearArchive =>
      exact ignores_bind (ignores_always ignores_clearArchive) fun _ => ignores_pure _
  | reset => exact ignores_bind (ignores_always ignores_reset) fun _ => ignores_pure _
  | activate context raw? =>
      exact ignores_bind (ignores_activate context raw?) fun _ => ignores_pure _

end Slot

end TokenGrammar
