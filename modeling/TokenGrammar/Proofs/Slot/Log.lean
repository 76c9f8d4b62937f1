import TokenGrammar.Proofs.Json.Equality
import TokenGrammar.Proofs.Machine.Command
import TokenGrammar.Proofs.Slot.Hydration

/-!
# The events of a slot tell what happened to it

Whoever hears every event of a slot knows its value, its preview and the length of its
archive, up to the equality of choices: a change is announced unless it replaces a choice by
an equal one.  `Reported` says so of one run of calls and composes, so that every edit has
one lemma and a run is an induction over its calls.
-/

namespace TokenGrammar

namespace SlotEvent

@[simp] def valueChange? : SlotEvent → Option Change
  | valueChanged change => some change
  | _ => none

@[simp] def previewChange? : SlotEvent → Option Change
  | previewChanged change => some change
  | _ => none

def isAttempt : SlotEvent → Bool
  | rawAttempted _ _ => true
  | _ => false

/-- By how much an event says that the archive has grown. -/
@[simp] def growth : SlotEvent → Int
  | valueArchived => 1
  | valueUnarchived | archivedRemoved _ _ => -1
  | archiveCleared values => -values.length
  | _ => 0

end SlotEvent

/-- What may happen to a slot by itself. -/
inductive SlotTurn where
  | call (edit : Edit)
  /-- A use of its options. -/
  | store (use : StoreUse)
  /-- Its provider answers in another way from now on. -/
  | provider (fetch : Provider)

namespace Slot

open Operation

/-! ## Runs -/

/-- The slot behind a turn and the events of it. -/
def turn (s : Slot) : SlotTurn → Outcome Slot SlotEvent Unit
  | .call edit => ⟨(), ((perform edit).run s).state, ((perform edit).run s).events⟩
  | .store use => ⟨(), { s with store := (s.store.apply use).2 }, []⟩
  | .provider fetch =>
    ⟨(), { s with store := { s.store with source := s.store.source.answering fetch } }, []⟩

/-- The slot behind a run of turns and all events of the run. -/
def play (s : Slot) : List SlotTurn → Outcome Slot SlotEvent Unit
  | [] => ⟨(), s, []⟩
  | turn :: turns =>
    let rest := (s.turn turn).state.play turns
    ⟨(), rest.state, (s.turn turn).events ++ rest.events⟩

/-! ## Reading a log -/

/-- The changes of the value in a log. -/
def valueChanges (log : List SlotEvent) : List Change := log.filterMap SlotEvent.valueChange?

/-- The changes of the preview in a log. -/
def previewChanges (log : List SlotEvent) : List Change :=
  log.filterMap SlotEvent.previewChange?

/-- By how much a log says that the archive has grown. -/
def growth (log : List SlotEvent) : Int :=
  log.foldr (fun event total => event.growth + total) 0

@[simp] theorem valueChanges_nil : valueChanges [] = [] := rfl

@[simp] theorem previewChanges_nil : previewChanges [] = [] := rfl

@[simp] theorem growth_nil : growth [] = 0 := rfl

@[simp] theorem valueChanges_cons (event : SlotEvent) (log : List SlotEvent) :
    valueChanges (event :: log) = event.valueChange?.toList ++ valueChanges log := by
  cases event <;> rfl

@[simp] theorem previewChanges_cons (event : SlotEvent) (log : List SlotEvent) :
    previewChanges (event :: log) = event.previewChange?.toList ++ previewChanges log := by
  cases event <;> rfl

@[simp] theorem growth_cons (event : SlotEvent) (log : List SlotEvent) :
    growth (event :: log) = event.growth + growth log := rfl

@[simp] theorem valueChanges_append (log later : List SlotEvent) :
    valueChanges (log ++ later) = valueChanges log ++ valueChanges later :=
  List.filterMap_append

@[simp] theorem previewChanges_append (log later : List SlotEvent) :
    previewChanges (log ++ later) = previewChanges log ++ previewChanges later :=
  List.filterMap_append

@[simp] theorem growth_append (log later : List SlotEvent) :
    growth (log ++ later) = growth log + growth later := by
  induction log with
  | nil => exact (Int.zero_add _).symm
  | cons event log ih => rw [List.cons_append, growth_cons, growth_cons, ih, Int.add_assoc]

/-- Changes that lead from one value to another.  Each begins with what the one before it
ended with and ends with something else, and it gives both in their raw forms as well. -/
inductive Traces (s : Slot) : Option Choice → List Change → Option Choice → Prop where
  | still {start last : Option Choice} (same : (last == start) = true) : Traces s start [] last
  | change {start last : Option Choice} {change : Change} {later : List Change}
      (old_eq : (change.old == start) = true) (differs : (change.new == change.old) = false)
      (newRaw_eq : change.newRaw = s.unboxOrNull change.new)
      (oldRaw_eq : change.oldRaw = s.unboxOrNull change.old)
      (rest : Traces s change.new later last) : Traces s start (change :: later) last

/-- What the events of a run say of the slot is what happened to it. -/
structure Reported (s : Slot) (events : List SlotEvent) (t : Slot) : Prop where
  node_eq : t.node = s.node
  value : s.Traces s.value (valueChanges events) t.value
  preview : s.Traces s.preview (previewChanges events) t.preview
  archive : (t.archive.length : Int) = s.archive.length + growth events

variable {s t u : Slot} {start mid last : Option Choice} {changes later : List Change}

/-! ## Changes that follow each other -/

theorem Traces.refl (s : Slot) (value? : Option Choice) : s.Traces value? [] value? :=
  .still BEq.rfl

/-- Changes may as well begin with an equal value. -/
theorem Traces.of_beq (h : s.Traces mid changes last) (hstart : (mid == start) = true) :
    s.Traces start changes last := by
  cases h with
  | still same => exact .still (BEq.trans same hstart)
  | change old_eq differs newRaw_eq oldRaw_eq rest =>
      exact .change (BEq.trans old_eq hstart) differs newRaw_eq oldRaw_eq rest

theorem Traces.append (h : s.Traces start changes mid) (hlater : s.Traces mid later last) :
    s.Traces start (changes ++ later) last := by
  induction h with
  | still same => exact hlater.of_beq same
  | change old_eq differs newRaw_eq oldRaw_eq _ ih =>
      exact .change old_eq differs newRaw_eq oldRaw_eq (ih hlater)

theorem Traces.congr (h : s.Traces start changes last) (hconfig : t.config = s.config) :
    t.Traces start changes last := by
  have hunbox (value? : Option Choice) : s.unboxOrNull value? = t.unboxOrNull value? := by
    cases value? <;> simp [unboxOrNull, unbox, hconfig]
  induction h with
  | still same => exact .still same
  | change old_eq differs newRaw_eq oldRaw_eq _ ih =>
      exact .change old_eq differs (newRaw_eq.trans (hunbox _)) (oldRaw_eq.trans (hunbox _)) ih

/-- An edit announces the change that it makes, unless it changes nothing. -/
theorem traces_changeOf (s : Slot) (old new : Option Choice) :
    s.Traces old (s.changeOf old new) new := by
  unfold changeOf
  cases h : old == new with
  | true => exact .still (BEq.symm h)
  | false => exact .change BEq.rfl (BEq.comm.trans h) rfl rfl (.refl s new)

section Events

variable (s : Slot) (old new : Option Choice) (values : List Choice)

@[simp] theorem valueChanges_valueEvents :
    valueChanges (s.valueEvents old new) = s.changeOf old new := by
  unfold valueEvents changeOf
  cases old == new <;> rfl

@[simp] theorem previewChanges_valueEvents : previewChanges (s.valueEvents old new) = [] := by
  unfold valueEvents changeOf
  cases old == new <;> rfl

@[simp] theorem growth_valueEvents : growth (s.valueEvents old new) = 0 := by
  unfold valueEvents changeOf
  cases old == new <;> rfl

@[simp] theorem valueChanges_previewEvents : valueChanges (s.previewEvents old new) = [] := by
  unfold previewEvents changeOf
  cases old == new <;> rfl

@[simp] theorem previewChanges_previewEvents :
    previewChanges (s.previewEvents old new) = s.changeOf old new := by
  unfold previewEvents changeOf
  cases old == new <;> rfl

@[simp] theorem growth_previewEvents : growth (s.previewEvents old new) = 0 := by
  unfold previewEvents changeOf
  cases old == new <;> rfl

@[simp] theorem valueChanges_clearedEvents : valueChanges (clearedEvents values) = [] := by
  cases values <;> rfl

@[simp] theorem previewChanges_clearedEvents : previewChanges (clearedEvents values) = [] := by
  cases values <;> rfl

@[simp] theorem growth_clearedEvents : growth (clearedEvents values) = -values.length := by
  cases values <;> simp [clearedEvents, growth, SlotEvent.growth]

end Events

/-! ## Edits -/

theorem record_reported : Record Reported where
  nothing := ⟨rfl, .refl _ _, .refl _ _, (Int.add_zero _).symm⟩
  append {s t u events later} h h' := by
    have hconfig : s.config = t.config := by rw [config, config, h.node_eq]
    refine ⟨h'.node_eq.trans h.node_eq, ?_, ?_, ?_⟩
    · rw [valueChanges_append]
      exact h.value.append (h'.value.congr hconfig)
    · rw [previewChanges_append]
      exact h.preview.append (h'.preview.congr hconfig)
    · rw [h'.archive, h.archive, growth_append, Int.add_assoc]

/-- A change of nothing that events speak of. -/
theorem Reported.silent (hnode : t.node = s.node) (hvalue : t.value = s.value)
    (hpreview : t.preview = s.preview) (harchive : t.archive = s.archive) : Reported s [] t := by
  refine ⟨hnode, ?_, ?_, ?_⟩
  · rw [hvalue]
    exact .refl s _
  · rw [hpreview]
    exact .refl s _
  · rw [harchive]
    exact (Int.add_zero _).symm

theorem reported_setValue (s : Slot) (value? : Option Choice) :
    Reported s (s.setValue value?).events (s.setValue value?).state := by
  refine ⟨rfl, ?_, ?_, ?_⟩
  · simpa [setValue] using s.traces_changeOf s.value value?
  · simpa [setValue] using Traces.refl s s.preview
  · simp [setValue]

theorem reported_setPreview (s : Slot) (preview? : Option Choice) :
    Reported s (s.setPreview preview?).events (s.setPreview preview?).state := by
  refine ⟨rfl, ?_, ?_, ?_⟩
  · simpa [setPreview] using Traces.refl s s.value
  · simpa [setPreview] using s.traces_changeOf s.preview preview?
  · simp [setPreview]

/-- An attempt changes nothing by itself. -/
theorem reported_rawAttempted (s : Slot) (newRaw oldRaw : Json) :
    Reported s [.rawAttempted newRaw oldRaw] s :=
  ⟨rfl, .refl s _, .refl s _, (Int.add_zero _).symm⟩

theorem reported_setRaw (s : Slot) (raw : Json) :
    Reported s (s.setRaw raw).events (s.setRaw raw).state := by
  have hattempt := reported_rawAttempted s raw s.rawValue
  unfold setRaw
  split
  · exact hattempt
  · cases s.box raw with
    | error fault => exact hattempt
    | ok value? => exact record_reported.append hattempt (reported_setValue s value?)

theorem reported_setRawPreview (s : Slot) (raw : Json) :
    Reported s (s.setRawPreview raw).events (s.setRawPreview raw).state := by
  unfold setRawPreview
  cases s.box raw with
  | error fault => exact record_reported.nothing
  | ok preview? => exact reported_setPreview s preview?

theorem reported_archiveValue (s : Slot) :
    Reported s s.archiveValue.events s.archiveValue.state := by
  unfold archiveValue
  cases harchivable : s.archivable with
  | error error => exact record_reported.nothing
  | ok value =>
      obtain ⟨-, -, -, hvalue⟩ := (archivable_eq_ok_iff value).1 harchivable
      refine ⟨rfl, ?_, ?_, ?_⟩
      · simpa [hvalue] using s.traces_changeOf (some value) s.config.default?
      · simpa using s.traces_changeOf s.preview none
      · simp

theorem reported_unarchiveValue (s : Slot) :
    Reported s s.unarchiveValue.events s.unarchiveValue.state := by
  unfold unarchiveValue
  cases hlast : s.archive.getLast? with
  | none => exact record_reported.nothing
  | some value =>
      have hlength : 0 < s.archive.length :=
        List.length_pos_of_mem (List.mem_of_getLast? hlast)
      refine ⟨rfl, ?_, ?_, ?_⟩
      · simpa using s.traces_changeOf s.value (some value)
      · simpa using Traces.refl s s.preview
      · simp
        omega

theorem reported_removeArchived (s : Slot) (index : Nat) :
    Reported s (s.removeArchived index).events (s.removeArchived index).state := by
  unfold removeArchived
  cases hget : s.archive[index]? with
  | none => exact record_reported.nothing
  | some value =>
      have hlt : index < s.archive.length := (List.getElem?_eq_some_iff.1 hget).1
      refine ⟨rfl, ?_, ?_, ?_⟩
      · simpa using Traces.refl s s.value
      · simpa using Traces.refl s s.preview
      · simp [List.length_eraseIdx_of_lt hlt]
        omega

theorem reported_clearArchive (s : Slot) :
    Reported s s.clearArchive.events s.clearArchive.state := by
  refine ⟨rfl, ?_, ?_, ?_⟩
  · simpa [clearArchive] using Traces.refl s s.value
  · simpa [clearArchive] using Traces.refl s s.preview
  · rw [clearArchive, growth_clearedEvents, Int.add_right_neg]
    rfl

theorem reported_reset (s : Slot) : Reported s s.reset.events s.reset.state := by
  refine ⟨rfl, ?_, ?_, ?_⟩
  · simpa [reset] using s.traces_changeOf s.value s.config.default?
  · simpa [reset] using s.traces_changeOf s.preview none
  · rw [reset, growth_append, growth_append, growth_valueEvents, growth_previewEvents,
      growth_clearedEvents, Int.zero_add, Int.zero_add, Int.add_right_neg]
    rfl

/-! ## Hydration -/

theorem records_enter (raw : Json) : Records Reported (enter raw) := by
  intro s
  have hset := reported_setRaw s raw
  unfold Operation.run enter
  cases hrun : s.setRaw raw with
  | mk answer t events =>
      rw [hrun] at hset
      cases answer <;> exact hset

theorem records_hydrate (hint : String) (context : Context) :
    Records Reported (hydrate hint context) := by
  intro s
  have hsilent (store : OptionStore) : Reported s [] { s with store } := .silent rfl rfl rfl rfl
  unfold Operation.run hydrate
  cases s.store.refresh hint context s.archive with
  | mk refresh store =>
      cases refresh with
      | ended result => cases result <;> exact hsilent store
      | waiting ticket => exact hsilent store

theorem records_search (raw : Json) (context : Context) :
    Records Reported (search raw context) := by
  intro s
  have hboth : Records Reported (do
      hydrate (hintText raw) context
      let _ ← enter raw : Op Unit) :=
    records_bind record_reported (records_hydrate _ context) fun _ =>
      records_bind record_reported (records_enter raw) fun _ => records_pure record_reported _
  unfold Operation.run search
  split
  · exact record_reported.nothing
  · exact hboth s

theorem records_restore (context : Context) (raw? : Option Json) :
    Records Reported (restore context raw?) := by
  cases raw? with
  | none => exact records_pure record_reported _
  | some raw =>
      refine records_bind record_reported (records_enter raw) fun value? => ?_
      cases value? with
      | none => exact records_search raw context
      | some value => exact records_pure record_reported _

theorem records_activate (context : Context) (raw? : Option Json) :
    Records Reported (activate context raw?) := by
  intro s
  have hload : Records Reported (load context raw?) :=
    records_bind record_reported (records_hydrate "" context) fun _ =>
      records_bind record_reported (records_restore context raw?) fun _ _ =>
        .silent rfl rfl rfl rfl
  unfold Operation.run activate
  split
  · exact record_reported.nothing
  · exact hload s

/-! ## Runs -/

theorem records_perform (edit : Edit) : Records Reported (perform edit) := by
  have hpure (answer : Answer) : Records Reported (pure answer : Op Answer) :=
    records_pure record_reported answer
  cases edit with
  | setValue value? =>
      exact records_bind record_reported (fun s => reported_setValue s value?) fun _ => hpure _
  | setRaw raw => exact records_bind record_reported (records_enter raw) fun _ => hpure _
  | setPreview preview? =>
      exact records_bind record_reported (fun s => reported_setPreview s preview?) fun _ => hpure _
  | setRawPreview raw =>
      exact records_bind record_reported (fun s => reported_setRawPreview s raw) fun _ => hpure _
  | archive => exact records_bind record_reported reported_archiveValue fun _ => hpure _
  | unarchive => exact records_bind record_reported reported_unarchiveValue fun _ => hpure _
  | removeArchived index =>
      exact records_bind record_reported (fun s => reported_removeArchived s index) fun _ =>
        hpure _
  | clearArchive => exact records_bind record_reported reported_clearArchive fun _ => hpure _
  | reset => exact records_bind record_reported reported_reset fun _ => hpure _
  | activate context raw? =>
      exact records_bind record_reported (records_activate context raw?) fun _ => hpure _

theorem reported_turn (s : Slot) (turn : SlotTurn) :
    Reported s (s.turn turn).events (s.turn turn).state := by
  cases turn with
  | call edit => exact records_perform edit s
  | store use => exact .silent rfl rfl rfl rfl
  | provider fetch => exact .silent rfl rfl rfl rfl

theorem reported_play (s : Slot) (turns : List SlotTurn) :
    Reported s (s.play turns).events (s.play turns).state := by
  induction turns generalizing s with
  | nil => exact record_reported.nothing
  | cons turn turns ih => exact record_reported.append (reported_turn s turn) (ih _)

/-- A raw value is announced as it is entered, once and before anything that comes of it. -/
theorem setRaw_events (s : Slot) (raw : Json) :
    ∃ others, (s.setRaw raw).events = .rawAttempted raw s.rawValue :: others ∧
      ∀ event ∈ others, event.isAttempt = false := by
  unfold setRaw
  split
  · exact ⟨[], rfl, by simp⟩
  · cases s.box raw with
    | error fault => exact ⟨[], rfl, by simp⟩
    | ok value? =>
        refine ⟨(s.setValue value?).events, rfl, ?_⟩
        simp only [setValue, valueEvents, List.mem_map]
        rintro event ⟨change, -, rfl⟩
        rfl

theorem enter_events (s : Slot) (raw : Json) :
    ((enter raw).run s).events = (s.setRaw raw).events := by
  unfold Operation.run enter
  cases s.setRaw raw with
  | mk answer t events => cases answer <;> rfl

theorem perform_setRaw_events (s : Slot) (raw : Json) :
    ((perform (.setRaw raw)).run s).events = (s.setRaw raw).events := by
  rw [perform, run_bind_pure, enter_events]

/-- The log of a slot tells its state.  The changes of its value follow each other from the
default value to the present one, those of its preview from none to the present one, and
the archive is as long as the log says that it has grown.  Whenever a raw value is entered,
by a caller or in making the step ready, one attempt is announced before everything else. -/
theorem play_log_tells (node : Node) (turns : List SlotTurn) :
    let s := ((fresh node).play turns).state
    let log := ((fresh node).play turns).events
    s.Traces node.step.config.default? (valueChanges log) s.value ∧
      s.Traces none (previewChanges log) s.preview ∧
        (s.archive.length : Int) = growth log ∧
          ∀ (other : Slot) (raw : Json),
            ((perform (.setRaw raw)).run other).events = (other.setRaw raw).events ∧
              ∃ others, (other.setRaw raw).events = .rawAttempted raw other.rawValue :: others ∧
                ∀ event ∈ others, event.isAttempt = false := by
  intro s log
  have hreported : Reported (fresh node) log s := reported_play (fresh node) turns
  have hconfig : s.config = (fresh node).config := by rw [config, config, hreported.node_eq]
  refine ⟨hreported.value.congr hconfig, hreported.preview.congr hconfig, ?_, ?_⟩
  · simpa [fresh] using hreported.archive
  · exact fun other raw => ⟨perform_setRaw_events other raw, setRaw_events other raw⟩

end Slot

end TokenGrammar
