import Mathlib.Data.List.Induction
import Mathlib.Data.List.Nodup
import TokenGrammar.Emitter

/-!
# What listeners hear

Listeners come and go in any order, and one id may be handed in for removal again and again.  The
log of the calls with their answers says who is registered at any moment: whoever was given an id
that has not been handed in since.  An event reaches exactly those, in the order in which they
were registered.

Ids count the registrations.  All of them are different for that reason, so that a removal finds
one listener at most and an old id never finds a later one.
-/

namespace TokenGrammar.Emitter

variable {Listener Event : Type}

/-- What is asked of an emitter. -/
inductive Call (Listener Event : Type) where
  | on (listener : Listener)
  | off (id : Nat)
  | emit (event : Event)

/-- A call with its answer. -/
inductive Entry (Listener Event : Type) where
  | registered (listener : Listener) (id : Nat)
  | removed (id : Nat) (found : Bool)
  | emitted (event : Event) (deliveries : List (Listener × Event))

namespace Entry

def call : Entry Listener Event → Call Listener Event
  | registered listener _ => .on listener
  | removed id _ => .off id
  | emitted event _ => .emit event

/-- The id that the call gave, with its listener. -/
def registration? : Entry Listener Event → Option (Nat × Listener)
  | registered listener id => some (id, listener)
  | removed _ _ | emitted _ _ => none

/-- Whether the call took a listener away. -/
def isRemoval : Entry Listener Event → Bool
  | removed _ found => found
  | registered _ _ | emitted _ _ => false

end Entry

/-- Carries out a call and writes down its answer. -/
def answer (e : Emitter Listener) : Call Listener Event → Entry Listener Event × Emitter Listener
  | .on listener =>
    let (id, e) := e.on listener
    (.registered listener id, e)
  | .off id =>
    let (found, e) := e.off id
    (.removed id found, e)
  | .emit event => (.emitted event (e.emit event), e)

/-- An emitter with the log of all calls so far. -/
structure Run (Listener Event : Type) where
  emitter : Emitter Listener
  log : List (Entry Listener Event)

def Run.step (run : Run Listener Event) (call : Call Listener Event) : Run Listener Event :=
  let (entry, emitter) := run.emitter.answer call
  ⟨emitter, run.log ++ [entry]⟩

/-- The run of some calls on a new emitter. -/
def play (calls : List (Call Listener Event)) : Run Listener Event :=
  calls.foldl Run.step ⟨{}, []⟩

theorem play_concat (calls : List (Call Listener Event)) (call : Call Listener Event) :
    play (calls ++ [call]) = (play calls).step call :=
  List.foldl_concat ..

/-! ## What a log says by itself -/

/-- All registrations in the order in which they were made. -/
def registrations (log : List (Entry Listener Event)) : List (Nat × Listener) :=
  log.filterMap Entry.registration?

/-- How many listeners were taken away. -/
def removals (log : List (Entry Listener Event)) : Nat := log.countP Entry.isRemoval

/-- The listener was given the id, and nobody has handed it in since. -/
def Registered (log : List (Entry Listener Event)) (id : Nat) (listener : Listener) : Prop :=
  ∃ earlier later, log = earlier ++ .registered listener id :: later ∧
    ∀ found, .removed id found ∉ later

/-- These are the listeners that are registered after a log, each once, in the order of their
registration. -/
structure InForce (log : List (Entry Listener Event)) (current : List (Nat × Listener)) : Prop where
  sublist : current.Sublist (registrations log)
  nodup : (current.map Prod.fst).Nodup
  mem_iff : ∀ id listener, (id, listener) ∈ current ↔ Registered log id listener

/-- The answer in an entry is the one that the log before it calls for. -/
def Fits (log : List (Entry Listener Event)) : Entry Listener Event → Prop
  | .registered _ id => ∀ listener, (id, listener) ∉ registrations log
  | .removed id found => found = true ↔ ∃ listener, Registered log id listener
  | .emitted event deliveries =>
    ∃ current, InForce log current ∧ deliveries = current.map fun r => (r.2, event)

section Log

variable {log : List (Entry Listener Event)} {entry : Entry Listener Event} {id : Nat}
  {listener : Listener}

theorem registrations_registered (log : List (Entry Listener Event)) (listener : Listener)
    (id : Nat) :
    registrations (log ++ [.registered listener id]) = registrations log ++ [(id, listener)] :=
  List.filterMap_append

theorem registrations_removed (log : List (Entry Listener Event)) (id : Nat) (found : Bool) :
    registrations (log ++ [.removed id found]) = registrations log := by
  simp [registrations, Entry.registration?]

theorem registrations_emitted (log : List (Entry Listener Event)) (event : Event)
    (deliveries : List (Listener × Event)) :
    registrations (log ++ [.emitted event deliveries]) = registrations log := by
  simp [registrations, Entry.registration?]

theorem removals_registered (log : List (Entry Listener Event)) (listener : Listener) (id : Nat) :
    removals (log ++ [.registered listener id]) = removals log := by
  simp [removals, Entry.isRemoval]

theorem removals_removed (log : List (Entry Listener Event)) (id : Nat) (found : Bool) :
    removals (log ++ [.removed id found]) = removals log + if found = true then 1 else 0 := by
  cases found <;> simp [removals, Entry.isRemoval]

theorem removals_emitted (log : List (Entry Listener Event)) (event : Event)
    (deliveries : List (Listener × Event)) :
    removals (log ++ [.emitted event deliveries]) = removals log := by
  simp [removals, Entry.isRemoval]

theorem not_registered_nil : ¬ Registered ([] : List (Entry Listener Event)) id listener := by
  rintro ⟨earlier, later, hlog, -⟩
  simp at hlog

/-- An entry registers its own listener, takes away the one whose id it hands in, and leaves all
others as they were. -/
theorem registered_concat :
    Registered (log ++ [entry]) id listener ↔
      entry = .registered listener id ∨
        Registered log id listener ∧ ∀ found, entry ≠ .removed id found := by
  constructor
  · rintro ⟨earlier, later, hlog, hkept⟩
    rcases List.eq_nil_or_concat later with rfl | ⟨later, last, rfl⟩
    · obtain ⟨-, hentry⟩ := List.append_inj' hlog rfl
      exact .inl (List.singleton_inj.1 hentry)
    · rw [List.concat_eq_append, ← List.cons_append, ← List.append_assoc] at hlog
      obtain ⟨rfl, hentry⟩ := List.append_inj' hlog rfl
      obtain rfl := List.singleton_inj.1 hentry
      simp only [List.concat_eq_append, List.mem_append, List.mem_singleton, not_or] at hkept
      exact .inr ⟨⟨earlier, later, rfl, fun found => (hkept found).1⟩,
        fun found => Ne.symm (hkept found).2⟩
  · rintro (rfl | ⟨⟨earlier, later, rfl, hkept⟩, hentry⟩)
    · exact ⟨log, [], rfl, fun _ => List.not_mem_nil⟩
    · refine ⟨earlier, later ++ [entry], by simp, fun found hmem => ?_⟩
      rcases List.mem_append.1 hmem with hmem | hmem
      · exact hkept found hmem
      · exact hentry found (List.mem_singleton.1 hmem).symm

theorem inForce_nil : InForce ([] : List (Entry Listener Event)) ([] : List (Nat × Listener)) where
  sublist := List.nil_sublist _
  nodup := List.nodup_nil
  mem_iff := fun _ _ => iff_of_false List.not_mem_nil not_registered_nil

end Log

/-! ## One call -/

section Off

variable (e : Emitter Listener) (id : Nat)

theorem mem_off_iff {other : Nat} {listener : Listener} :
    (other, listener) ∈ (e.off id).2.listeners ↔
      (other, listener) ∈ e.listeners ∧ other ≠ id := by
  simp [off]

theorem off_eq_true_iff : (e.off id).1 = true ↔ ∃ listener, (id, listener) ∈ e.listeners := by
  have hlength : (e.listeners.filter fun l => l.1 != id).length = e.listeners.length ↔
      ∀ l ∈ e.listeners, l.1 ≠ id := by
    simp [List.length_filter_eq_length_iff]
  simp only [off, bne_iff_ne, ne_eq, hlength]
  simp

variable {e}

theorem ids_off (h : (e.listeners.map Prod.fst).Nodup) :
    (e.off id).2.listeners.map Prod.fst = (e.listeners.map Prod.fst).erase id := by
  rw [h.erase_eq_filter, List.filter_map]
  rfl

/-- Where no two ids are equal, a removal that finds its id takes one listener away. -/
theorem count_off (h : (e.listeners.map Prod.fst).Nodup) :
    (e.off id).2.count + (if (e.off id).1 = true then 1 else 0) = e.count := by
  have hids (e : Emitter Listener) : e.count = (e.listeners.map Prod.fst).length := by
    rw [List.length_map, count]
  rw [hids, hids e, ids_off id h]
  split
  case isTrue hfound =>
    obtain ⟨listener, hmem⟩ := (off_eq_true_iff e id).1 hfound
    exact List.length_erase_add_one (List.mem_map_of_mem hmem)
  case isFalse hfound =>
    rw [List.erase_of_not_mem, Nat.add_zero]
    intro hid
    obtain ⟨⟨_, listener⟩, hmem, rfl⟩ := List.mem_map.1 hid
    exact hfound ((off_eq_true_iff e _).2 ⟨listener, hmem⟩)

end Off

/-! ## A run of calls -/

section Step

variable (run : Run Listener Event)

theorem step_on (listener : Listener) :
    run.step (.on listener) =
      ⟨⟨run.emitter.listeners ++ [(run.emitter.nextId, listener)], run.emitter.nextId + 1⟩,
        run.log ++ [.registered listener run.emitter.nextId]⟩ := rfl

theorem step_off (id : Nat) :
    run.step (.off id) =
      ⟨(run.emitter.off id).2, run.log ++ [.removed id (run.emitter.off id).1]⟩ := rfl

theorem step_emit (event : Event) :
    run.step (.emit event) =
      ⟨run.emitter, run.log ++ [.emitted event (run.emitter.emit event)]⟩ := rfl

end Step

/-- How the emitter stands to the log: its listeners are those that the log has in force, and its
counter has given an id to each registration. -/
structure Follows (run : Run Listener Event) : Prop where
  ids : (registrations run.log).map Prod.fst = List.range run.emitter.nextId
  inForce : InForce run.log run.emitter.listeners
  count : run.emitter.count + removals run.log = (registrations run.log).length

namespace Follows

variable {run : Run Listener Event}

theorem nextId_eq (h : Follows run) : run.emitter.nextId = (registrations run.log).length := by
  simpa using (congrArg List.length h.ids).symm

theorem not_mem_registrations (h : Follows run) (listener : Listener) :
    (run.emitter.nextId, listener) ∉ registrations run.log := by
  intro hmem
  have hid : run.emitter.nextId ∈ List.range run.emitter.nextId := by
    rw [← h.ids]
    exact List.mem_map_of_mem hmem
  exact Nat.lt_irrefl _ (List.mem_range.1 hid)

theorem fits (h : Follows run) (call : Call Listener Event) :
    Fits run.log (run.emitter.answer call).1 := by
  cases call with
  | on listener => exact h.not_mem_registrations
  | off id =>
      change (run.emitter.off id).1 = true ↔ _
      simp only [off_eq_true_iff, h.inForce.mem_iff]
  | emit event => exact ⟨run.emitter.listeners, h.inForce, rfl⟩

theorem on (h : Follows run) (listener : Listener) : Follows (run.step (.on listener)) := by
  rw [step_on]
  refine ⟨?_, ⟨?_, ?_, fun id other => ?_⟩, ?_⟩
  · simp [registrations_registered, h.ids, List.range_succ]
  · rw [registrations_registered]
    exact h.inForce.sublist.append (List.Sublist.refl _)
  · -- Whoever is listening was registered once, so the next id is none of theirs.
    have hnew : run.emitter.nextId ∉ run.emitter.listeners.map Prod.fst := by
      intro hid
      obtain ⟨⟨_, other⟩, hmem, rfl⟩ := List.mem_map.1 hid
      exact h.not_mem_registrations other (h.inForce.sublist.subset hmem)
    rw [List.map_append]
    exact List.nodup_append.2 ⟨h.inForce.nodup, List.nodup_singleton _,
      fun id hid _ hlast => List.mem_singleton.1 hlast ▸ ne_of_mem_of_not_mem hid hnew⟩
  · simp [registered_concat, h.inForce.mem_iff, or_comm, eq_comm, and_comm]
  · have hcount := h.count
    rw [Emitter.count] at hcount
    rw [Emitter.count, registrations_registered, removals_registered, List.length_append,
      List.length_append, List.length_singleton]
    omega

theorem off (h : Follows run) (id : Nat) : Follows (run.step (.off id)) := by
  rw [step_off]
  refine ⟨?_, ⟨?_, ?_, fun other listener => ?_⟩, ?_⟩
  · rw [registrations_removed]
    exact h.ids
  · rw [registrations_removed]
    exact List.filter_sublist.trans h.inForce.sublist
  · rw [ids_off id h.inForce.nodup]
    exact h.inForce.nodup.erase id
  · simp [registered_concat, mem_off_iff, h.inForce.mem_iff, eq_comm]
  · have hcount := h.count
    rw [← count_off id h.inForce.nodup] at hcount
    rw [registrations_removed, removals_removed, ← hcount]
    exact (Nat.add_assoc _ _ _).symm.trans (Nat.add_right_comm _ _ _)

theorem emit (h : Follows run) (event : Event) : Follows (run.step (.emit event)) := by
  rw [step_emit]
  refine ⟨?_, ⟨?_, h.inForce.nodup, fun id listener => ?_⟩, ?_⟩
  · rw [registrations_emitted]
    exact h.ids
  · rw [registrations_emitted]
    exact h.inForce.sublist
  · simp [registered_concat, h.inForce.mem_iff]
  · rw [registrations_emitted, removals_emitted]
    exact h.count

theorem step (h : Follows run) (call : Call Listener Event) : Follows (run.step call) := by
  cases call with
  | on listener => exact h.on listener
  | off id => exact h.off id
  | emit event => exact h.emit event

end Follows

theorem follows_play (calls : List (Call Listener Event)) : Follows (play calls) := by
  induction calls using List.reverseRecOn with
  | nil => exact ⟨rfl, inForce_nil, rfl⟩
  | append_singleton calls call ih =>
      rw [play_concat]
      exact ih.step call

theorem call_answer (e : Emitter Listener) (call : Call Listener Event) :
    (e.answer call).1.call = call := by
  cases call <;> rfl

theorem map_call_play (calls : List (Call Listener Event)) :
    (play calls).log.map Entry.call = calls := by
  induction calls using List.reverseRecOn with
  | nil => rfl
  | append_singleton calls call ih =>
      rw [play_concat]
      simp [Run.step, ih, call_answer]

theorem fits_play (calls : List (Call Listener Event)) {log : List (Entry Listener Event)}
    {entry : Entry Listener Event} (h : log ++ [entry] <+: (play calls).log) : Fits log entry := by
  induction calls using List.reverseRecOn with
  | nil => simp [play] at h
  | append_singleton calls call ih =>
      -- Either the entry is the last one, or it was there before the last call.
      rw [play_concat, Run.step] at h
      rcases List.prefix_concat_iff.1 h with hlast | hearlier
      · obtain ⟨rfl, hentry⟩ := List.append_inj' hlast rfl
        rw [List.singleton_inj.1 hentry]
        exact (follows_play calls).fits call
      · exact ih hearlier

/-- Over every run of calls on a new emitter, each answer is the one that the log before it calls
for: a registration gets an id that none before it had; a removal finds what it looks for exactly
if the id is registered; and an event is delivered once to each listener that is registered, in
the order of registration, and to no other.  The ids count the registrations from zero, so that a
counter of 64 bits is wide enough for fewer than 2^64 of them.  The emitter has the listeners that
are registered, as many as there were registrations less those that were taken away.  One more
removal takes away the listener with its id and leaves all others. -/
theorem play_delivers (calls : List (Call Listener Event)) :
    let final := play calls
    final.log.map Entry.call = calls ∧
    (∀ log entry, log ++ [entry] <+: final.log → Fits log entry) ∧
    (registrations final.log).map Prod.fst = List.range (registrations final.log).length ∧
    InForce final.log final.emitter.listeners ∧
    final.emitter.count + removals final.log = (registrations final.log).length ∧
    (∀ id other listener, (other, listener) ∈ (final.emitter.off id).2.listeners ↔
      (other, listener) ∈ final.emitter.listeners ∧ other ≠ id) := by
  intro final
  have hfollows := follows_play calls
  refine ⟨map_call_play calls, fun log entry => fits_play calls, ?_, hfollows.inForce,
    hfollows.count, fun id other listener => mem_off_iff final.emitter id⟩
  rw [← hfollows.nextId_eq]
  exact hfollows.ids

/-- A listener that was removed, and handed in for removal again, hears no later event. -/
theorem play_delivers_removed :
    let calls : List (Call String Nat) :=
      [.on "first", .on "second", .emit 1, .off 0, .off 0, .emit 2]
    let log : List (Entry String Nat) :=
      [.registered "first" 0, .registered "second" 1,
        .emitted 1 [("first", 1), ("second", 1)], .removed 0 true, .removed 0 false]
    let last : Entry String Nat := .emitted 2 [("second", 2)]
    log ++ [last] <+: (play calls).log ∧ Fits log last ∧
      (play calls).emitter.count + 1 = 2 := by
  intro calls log last
  obtain ⟨-, hfits, -, -, hcount, -⟩ := play_delivers calls
  have hlog : log ++ [last] <+: (play calls).log := List.prefix_refl _
  exact ⟨hlog, hfits log last hlog, hcount⟩

end TokenGrammar.Emitter
