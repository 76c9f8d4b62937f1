import TokenGrammar.Proofs.Machine.PathSound

/-!
# Requests are carried out in order

A request fails before it changes or emits anything.  A list of requests is therefore
carried out up to the first one that fails, if there is one, and leaves the machine as the
requests before that one leave it.
-/

namespace TokenGrammar

/-! ## Edits of an archive -/

/-- The action fails only on a slot that it leaves as it is, and without events. -/
def Slot.FailsFirst {α η : Type} (act : Slot → Outcome Slot SlotEvent (Except η α)) : Prop :=
  ∀ s error, (act s).answer = .error error → (act s).state = s ∧ (act s).events = []

namespace Slot

theorem failsFirst_archiveValue : FailsFirst archiveValue := by
  intro s error h
  unfold archiveValue at h ⊢
  cases harchivable : s.archivable with
  | error other => exact ⟨rfl, rfl⟩
  | ok value => simp [harchivable] at h

theorem failsFirst_unarchiveValue : FailsFirst unarchiveValue := by
  intro s error h
  unfold unarchiveValue at h ⊢
  cases hlast : s.archive.getLast? with
  | none => exact ⟨rfl, rfl⟩
  | some value => simp [hlast] at h

theorem failsFirst_removeArchived (index : Nat) : FailsFirst (·.removeArchived index) := by
  intro s error h
  cases hget : s.archive[index]? with
  | none => simp [removeArchived, hget]
  | some value => simp [removeArchived, hget] at h

end Slot

namespace Machine

open Operation

/-! ## Single requests -/

section Single

variable {α η : Type}

theorem failsFirst_carry {act : Slot → Outcome Slot SlotEvent (Except η α)}
    (lift : η → MachineError) (h : Slot.FailsFirst act) :
    FailsFirst (carry act fun error => .failed (lift error)) := by
  intro m
  unfold Operation.run carry withSlot
  cases hanswer : (act m.currentSlot).answer with
  | ok a => exact .inl ⟨a, _, _, rfl⟩
  | error error =>
      -- The slot that is put back is the one that was there.
      obtain ⟨hstate, hevents⟩ := h m.currentSlot error hanswer
      refine .inr ⟨lift error, ?_⟩
      rw [hstate, hevents, show m.tree.set m.current m.currentSlot = m.tree from
        m.tree.set_slot m.current]
      rfl

theorem failsFirst_advance (ignoreBindOnly : Bool) : FailsFirst (advance ignoreBindOnly) := by
  refine failsFirst_bind (failsFirst_ask _) fun next => answers_bind ?_ fun _ =>
    answers_bind ?_ fun _ => answers_pure _
  · exact fun m => ⟨(), _, _, rfl⟩
  · exact fun m => ⟨(), _, _, rfl⟩

theorem answers_announce (event : Machine → MachineEvent) : Answers (announce event) :=
  answers_emit _

theorem failsFirst_archive : FailsFirst archive :=
  failsFirst_bind (failsFirst_carry .slot Slot.failsFirst_archiveValue)
    fun _ => answers_announce _

theorem failsFirst_unarchive : FailsFirst unarchive :=
  failsFirst_bind (failsFirst_carry (fun error => .slot (.archive error))
    Slot.failsFirst_unarchiveValue) fun _ => answers_announce _

theorem failsFirst_removeArchived (index : Nat) : FailsFirst (removeArchived index) :=
  failsFirst_bind (failsFirst_carry (fun error => .slot (.archive error))
    (Slot.failsFirst_removeArchived index)) fun _ =>
      answers_bind (answers_announce _) fun _ => answers_pure _

theorem answers_clearArchive : Answers clearArchive :=
  fun m => ⟨m.currentSlot.clearArchive.answer, _, _, rfl⟩

theorem answers_rewind : Answers rewind := by
  refine answers_bind (fun m => ⟨_, m, [], rfl⟩) fun parent? => ?_
  cases parent? with
  | none => exact answers_pure _
  | some parent => exact answers_bind (fun m => ⟨(), _, _, rfl⟩) fun _ => answers_pure _

/-- A request that fails leaves the machine exactly as it was, and nothing is emitted. -/
theorem failsFirst_handle (request : Request) : FailsFirst (handle request) := by
  cases request with
  | transition => exact failsFirst_bind (failsFirst_advance false) fun _ => answers_pure _
  | archive => exact failsFirst_bind failsFirst_archive fun _ => answers_pure _
  | unarchive => exact failsFirst_bind failsFirst_unarchive fun _ => answers_pure _
  | removeArchived index =>
      exact failsFirst_bind (failsFirst_removeArchived index) fun _ => answers_pure _
  | clearArchive => exact (answers_bind answers_clearArchive fun _ => answers_pure _).failsFirst
  | rewind =>
      refine (answers_bind answers_rewind fun parent? => ?_).failsFirst
      cases parent? <;> exact answers_pure _
  | signal signal => exact (answers_pure _).failsFirst

end Single

/-! ## Lists of requests -/

/-- Requests that were carried out one after the other, with their responses, all events and
the machine behind the last one. -/
inductive Served : Machine → List Request → List Response → List Notice → Machine → Prop where
  | nothing {m : Machine} : Served m [] [] [] m
  | next {m mid m' : Machine} {request : Request} {response : Response}
      {events later : List Notice} {requests : List Request} {responses : List Response}
      (first : (handle request).run m = ⟨.ok response, mid, events⟩)
      (rest : Served mid requests responses later m') :
      Served m (request :: requests) (response :: responses) (events ++ later) m'

/-- A list of requests, parted at one of them. -/
structure Split where
  before : List Request
  request : Request
  rest : List Request

/-- The requests before the split are carried out, and on the machine that they leave its
own request fails, without an event and without a change. -/
structure BreaksAt (m : Machine) (requests : List Request) (split : Split)
    (events : List Notice) (mid : Machine) (error : MachineError) : Prop where
  requests_eq : requests = split.before ++ split.request :: split.rest
  served : ∃ responses, Served m split.before responses events mid
  fails : (handle split.request).run mid = ⟨.error (.failed error), mid, []⟩

variable {m mid m' : Machine} {request : Request} {requests before rest : List Request}
  {response : Response} {responses : List Response} {events later : List Notice}
  {error : MachineError} {split other : Split}

theorem run_handleAll_cons_of_ok (h : (handle request).run m = ⟨.ok response, mid, events⟩) :
    (handleAll (request :: requests)).run m =
      ⟨((handleAll requests).run mid).answer.map (response :: ·),
        ((handleAll requests).run mid).state,
        events ++ ((handleAll requests).run mid).events⟩ := by
  rw [handleAll, run_bind_of_ok h]
  cases hrest : (handleAll requests).run mid with
  | mk answer m' later =>
      cases answer with
      | ok responses =>
          rw [run_bind_of_ok hrest]
          simp [Except.map]
      | error halt =>
          rw [run_bind_of_error hrest]
          simp [Except.map]

theorem run_handleAll_cons_of_error
    (h : (handle request).run m = ⟨.error (.failed error), m, []⟩) :
    (handleAll (request :: requests)).run m = ⟨.error (.failed error), m, []⟩ := by
  rw [handleAll, run_bind_of_error h]

/-- Behind requests that are carried out the list goes on as if it began there. -/
theorem Served.run_append (h : Served m before responses events mid) (rest : List Request) :
    (handleAll (before ++ rest)).run m =
      ⟨((handleAll rest).run mid).answer.map (responses ++ ·), ((handleAll rest).run mid).state,
        events ++ ((handleAll rest).run mid).events⟩ := by
  induction h with
  | @nothing m =>
      cases hrest : (handleAll rest).run m with
      | mk answer m' later => cases answer <;> simp [hrest, Except.map]
  | next first _ ih =>
      rw [List.cons_append, run_handleAll_cons_of_ok first, ih]
      cases hrest : ((handleAll rest).run _).answer <;> simp [Except.map]

theorem Served.run_eq (h : Served m requests responses events m') :
    (handleAll requests).run m = ⟨.ok responses, m', events⟩ := by
  have hrun := h.run_append []
  rw [List.append_nil] at hrun
  rw [hrun]
  simp [handleAll, Except.map]

theorem BreaksAt.run_eq (h : BreaksAt m requests split events mid error) :
    (handleAll requests).run m = ⟨.error (.failed error), mid, events⟩ := by
  obtain ⟨responses, hserved⟩ := h.served
  rw [h.requests_eq, hserved.run_append, run_handleAll_cons_of_error h.fails]
  simp [Except.map]

/-- All requests are carried out, or there is one at which they break off. -/
theorem served_or_breaksAt (m : Machine) (requests : List Request) :
    (∃ responses events m', Served m requests responses events m') ∨
      ∃ split events mid error, BreaksAt m requests split events mid error := by
  induction requests generalizing m with
  | nil => exact .inl ⟨[], [], m, .nothing⟩
  | cons request requests ih =>
      rcases failsFirst_handle request m with ⟨response, mid, events, hfirst⟩ | ⟨error, hfails⟩
      · rcases ih mid with ⟨responses, later, m', hserved⟩ | ⟨split, later, m', error, hbreaks⟩
        · exact .inl ⟨_, _, _, .next hfirst hserved⟩
        · obtain ⟨responses, hserved⟩ := hbreaks.served
          refine .inr ⟨⟨request :: split.before, split.request, split.rest⟩, events ++ later, m',
            error, ?_, ⟨_, .next hfirst hserved⟩, hbreaks.fails⟩
          rw [hbreaks.requests_eq]
          rfl
      · exact .inr ⟨⟨[], request, requests⟩, [], m, error, rfl, ⟨[], .nothing⟩, hfails⟩

/-- A request cannot both be carried out and fail, so requests that are carried out up to
one that fails are parted at one place only. -/
theorem Served.eq_of_fails {before' rest' : List Request} {request' : Request}
    {responses' : List Response} {events' : List Notice} {mid' : Machine} {error' : MachineError}
    (hserved : Served m before responses events mid)
    (hfails : (handle request).run mid = ⟨.error (.failed error), mid, []⟩)
    (hserved' : Served m before' responses' events' mid')
    (hfails' : (handle request').run mid' = ⟨.error (.failed error'), mid', []⟩)
    (h : before ++ request :: rest = before' ++ request' :: rest') :
    before' = before ∧ request' = request ∧ rest' = rest := by
  -- The induction follows the requests that are carried out, on both sides at once.
  induction hserved generalizing before' responses' events' with
  | nothing =>
      cases hserved' with
      | nothing =>
          obtain ⟨rfl, rfl⟩ := List.cons.inj h
          exact ⟨rfl, rfl, rfl⟩
      | next first _ =>
          obtain ⟨rfl, -⟩ := List.cons.inj h
          rw [hfails] at first
          cases first
  | next first _ ih =>
      cases hserved' with
      | nothing =>
          obtain ⟨rfl, -⟩ := List.cons.inj h
          rw [hfails'] at first
          cases first
      | next first' served' =>
          obtain ⟨rfl, htail⟩ := List.cons.inj h
          rw [first] at first'
          cases first'
          obtain ⟨rfl, rfl, rfl⟩ := ih hfails served' htail
          exact ⟨rfl, rfl, rfl⟩

theorem BreaksAt.unique {events' : List Notice} {mid' : Machine} {error' : MachineError}
    (h : BreaksAt m requests split events mid error)
    (h' : BreaksAt m requests other events' mid' error') : other = split := by
  obtain ⟨responses, hserved⟩ := h.served
  obtain ⟨responses', hserved'⟩ := h'.served
  obtain ⟨hbefore, hrequest, hrest⟩ := hserved.eq_of_fails h.fails hserved' h'.fails
    (h.requests_eq.symm.trans h'.requests_eq)
  cases other
  cases split
  cases hbefore
  cases hrequest
  cases hrest
  rfl

/-- Requests are answered exactly if each of them is carried out in its turn.  Else they
break off at one place, where a request fails, and the machine is left as the requests
before that place leave it.  A request that fails changes and emits nothing. -/
theorem handleAll_in_order (m : Machine) (requests : List Request) :
    let outcome := (handleAll requests).run m
    (∀ responses m' events, outcome = ⟨.ok responses, m', events⟩ ↔
        Served m requests responses events m') ∧
      (∀ error mid events, outcome = ⟨.error (.failed error), mid, events⟩ ↔
        ∃ split, BreaksAt m requests split events mid error) ∧
      ((∃ responses events m', Served m requests responses events m') ∨
        ∃! split, ∃ events mid error, BreaksAt m requests split events mid error) ∧
      ∀ other request halt, ((handle request).run other).answer = .error halt →
        ∃ error, (handle request).run other = ⟨.error (.failed error), other, []⟩ := by
  intro outcome
  have hcases := served_or_breaksAt m requests
  refine ⟨?_, ?_, ?_, ?_⟩
  · intro responses m' events
    refine ⟨fun hrun => ?_, Served.run_eq⟩
    rcases hcases with ⟨_, _, _, hserved⟩ | ⟨_, _, _, _, hbreaks⟩
    · cases hserved.run_eq.symm.trans hrun
      exact hserved
    · cases hbreaks.run_eq.symm.trans hrun
  · intro error mid events
    refine ⟨fun hrun => ?_, fun ⟨_, hbreaks⟩ => hbreaks.run_eq⟩
    rcases hcases with ⟨_, _, _, hserved⟩ | ⟨split, _, _, _, hbreaks⟩
    · cases hserved.run_eq.symm.trans hrun
    · cases hbreaks.run_eq.symm.trans hrun
      exact ⟨split, hbreaks⟩
  · refine hcases.imp id ?_
    rintro ⟨split, events, mid, error, hbreaks⟩
    exact ⟨split, ⟨events, mid, error, hbreaks⟩, fun _ ⟨_, _, _, hother⟩ => hbreaks.unique hother⟩
  · intro other request halt hhalt
    rcases failsFirst_handle request other with ⟨response, _, _, hrun⟩ | hfails
    · rw [hrun] at hhalt
      cases hhalt
    · exact hfails

/-- The end of a token is reached, and moving on from there breaks off the list. -/
theorem handleAll_in_order_wordTemplate :
    let m := (new wordTemplate false).after [.edit (.setRaw (.str "ant"))]
    let requests : List Request := [.transition, .transition, .rewind]
    let split : Split := ⟨[.transition], .transition, [.rewind]⟩
    let mid : Machine := { m with current := 1 }
    let events : List Notice :=
      [.machine (.moved 0 1), .machine (.tokenEnded [("word", .str "ant")])]
    let error : MachineError := .noMatchingChild "End" .null
    BreaksAt m requests split events mid error ∧
      (handleAll requests).run m = ⟨.error (.failed error), mid, events⟩ ∧
        ∃ other, (handle .transition).run mid = ⟨.error (.failed other), mid, []⟩ := by
  intro m requests split mid events error
  have hfirst : (handle .transition).run m = ⟨.ok (.moved 1), mid, events⟩ := rfl
  have hfails : (handle .transition).run mid = ⟨.error (.failed error), mid, []⟩ := rfl
  have hserved : Served m [.transition] [.moved 1] (events ++ []) mid := .next hfirst .nothing
  have hbreaks : BreaksAt m requests split events mid error := ⟨rfl, ⟨_, hserved⟩, hfails⟩
  obtain ⟨-, hbroken, -, hatomic⟩ := handleAll_in_order m requests
  exact ⟨hbreaks, (hbroken error mid events).2 ⟨split, hbreaks⟩,
    hatomic mid .transition _ (congrArg Outcome.answer hfails)⟩

end Machine

end TokenGrammar
