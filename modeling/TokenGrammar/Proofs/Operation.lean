import TokenGrammar.Operation

/-!
# Reasoning about operations

`Keeps` is for invariants: it looks at the state that an operation leaves, however it ends.
`Yields` is for results: an operation yields an answer and a state if it ends with that
answer.  Both have one rule for a sequence of operations, so that a proof about an
operation goes through its parts and never opens the sequence itself.  `Fails` is the same for
errors.  `Records` is for events: it relates them to the states before and behind an operation,
however it ends.  `FailsFirst` is for operations that are carried out as a whole or not at all,
`Ignores` for those that do not depend on some part of the state, and `Agree` for two operations
that do the same and answer with related answers.
-/

namespace TokenGrammar

@[simp] theorem mapError_ok {ε η α : Type} (lift : ε → η) (a : α) :
    (.ok a : Except ε α).mapError lift = .ok a := rfl

@[simp] theorem mapError_error {ε η α : Type} (lift : ε → η) (error : ε) :
    (.error error : Except ε α).mapError lift = .error (lift error) := rfl

namespace Operation

variable {σ ν ε α β γ : Type}

theorem run_ask_of_ok {view : σ → Except ε α} {state : σ} {a : α} (h : view state = .ok a) :
    (ask view : Operation σ ν ε α).run state = ⟨.ok a, state, []⟩ := by
  simp [run, ask, h]

theorem run_ask_of_error {view : σ → Except ε α} {state : σ} {error : ε}
    (h : view state = .error error) :
    (ask view : Operation σ ν ε α).run state = ⟨.error (.failed error), state, []⟩ := by
  simp [run, ask, h]

/-- What is read leaves no trace of its own. -/
theorem run_read_bind (view : σ → α) (second : α → Operation σ ν ε β) (state : σ) :
    (read view >>= second).run state = (second (view state)).run state := rfl

/-- What is made of the answer in the end is seen in the answer alone. -/
theorem run_bind_pure (operation : Operation σ ν ε α) (f : α → β) (state : σ) :
    (operation >>= fun a => pure (f a)).run state =
      ⟨(operation.run state).answer.map f, (operation.run state).state,
        (operation.run state).events⟩ := by
  cases hrun : operation.run state with
  | mk answer after events =>
      cases answer with
      | ok a =>
          rw [run_bind_of_ok hrun]
          simp [Except.map]
      | error reason =>
          rw [run_bind_of_error hrun]
          simp [Except.map]

/-- It does not matter how a sequence of three operations is put together. -/
theorem bind_assoc (first : Operation σ ν ε α) (second : α → Operation σ ν ε β)
    (third : β → Operation σ ν ε γ) :
    first >>= second >>= third = first >>= fun a => second a >>= third := by
  funext state
  change ((first >>= second) >>= third).run state =
    (first >>= fun a => second a >>= third).run state
  cases hfirst : first.run state with
  | mk answer mid events =>
      cases answer with
      | error reason => rw [run_bind_of_error hfirst, run_bind_of_error (run_bind_of_error hfirst)]
      | ok a =>
          rw [run_bind_of_ok hfirst]
          have hboth : (first >>= second).run state = _ := run_bind_of_ok hfirst
          cases hsecond : (second a).run mid with
          | mk answer after later =>
              rw [hsecond] at hboth
              cases answer with
              | error reason => rw [run_bind_of_error hsecond, run_bind_of_error hboth]
              | ok b => rw [run_bind_of_ok hsecond, run_bind_of_ok hboth, List.append_assoc]

/-! ## Invariants -/

/-- The operation keeps the invariant, whether it ends with an answer or halts. -/
def Keeps (invariant : σ → Prop) (operation : Operation σ ν ε α) : Prop :=
  ∀ state, invariant state → invariant (operation.run state).state

section Keeps

variable {invariant : σ → Prop}

theorem keeps_pure (a : α) : Keeps invariant (pure a : Operation σ ν ε α) :=
  fun _ h => h

theorem keeps_fail (error : ε) : Keeps invariant (fail error : Operation σ ν ε α) :=
  fun _ h => h

theorem keeps_read (view : σ → α) : Keeps invariant (read view : Operation σ ν ε α) :=
  fun _ h => h

theorem keeps_emit (event : σ → ν) : Keeps invariant (emit event : Operation σ ν ε Unit) :=
  fun _ h => h

theorem keeps_bind {first : Operation σ ν ε α} {second : α → Operation σ ν ε β}
    (hfirst : Keeps invariant first) (hsecond : ∀ a, Keeps invariant (second a)) :
    Keeps invariant (first >>= second) := by
  intro state h
  have hmid := hfirst state h
  cases hrun : first.run state with
  | mk answer mid events =>
      rw [hrun] at hmid
      cases answer with
      | ok a =>
          rw [run_bind_of_ok hrun]
          exact hsecond a mid hmid
      | error reason =>
          rw [run_bind_of_error hrun]
          exact hmid

end Keeps

/-! ## Results -/

/-- The operation ends with an answer and leaves a state. -/
def Yields (operation : Operation σ ν ε α) (before : σ) (a : α) (after : σ) : Prop :=
  (operation.run before).answer = .ok a ∧ (operation.run before).state = after

section Yields

variable {before after : σ}

theorem Yields.unique {operation : Operation σ ν ε α} {a b : α} {after' : σ}
    (h : operation.Yields before a after) (h' : operation.Yields before b after') :
    a = b ∧ after = after' := by
  obtain ⟨hanswer, rfl⟩ := h
  obtain ⟨hanswer', rfl⟩ := h'
  rw [hanswer, Except.ok.injEq] at hanswer'
  exact ⟨hanswer', rfl⟩

@[simp] theorem yields_pure (a b : α) :
    (pure a : Operation σ ν ε α).Yields before b after ↔ b = a ∧ after = before := by
  simp [Yields, eq_comm]

@[simp] theorem yields_fail (error : ε) (a : α) :
    (fail error : Operation σ ν ε α).Yields before a after ↔ False := by
  simp [Yields, run, fail]

@[simp] theorem yields_read (view : σ → α) (a : α) :
    (read view : Operation σ ν ε α).Yields before a after ↔
      a = view before ∧ after = before := by
  simp [Yields, run, read, eq_comm]

@[simp] theorem yields_ask (view : σ → Except ε α) (a : α) :
    (ask view : Operation σ ν ε α).Yields before a after ↔
      view before = .ok a ∧ after = before := by
  cases h : view before with
  | ok b => simp [Yields, run_ask_of_ok h, eq_comm]
  | error error => simp [Yields, run_ask_of_error h]

@[simp] theorem yields_emit (event : σ → ν) :
    (emit event : Operation σ ν ε Unit).Yields before () after ↔ after = before := by
  simp [Yields, run, emit, eq_comm]

@[simp] theorem yields_change (step : σ → σ) :
    (change step : Operation σ ν ε Unit).Yields before () after ↔ after = step before := by
  simp [Yields, run, change, eq_comm]

/-- A sequence yields what its second part yields after its first part. -/
theorem yields_bind {first : Operation σ ν ε α} {second : α → Operation σ ν ε β} {b : β} :
    (first >>= second).Yields before b after ↔
      ∃ a mid, first.Yields before a mid ∧ (second a).Yields mid b after := by
  cases hrun : first.run before with
  | mk answer mid events =>
      cases answer with
      | ok a =>
          simp only [Yields, run_bind_of_ok hrun, hrun, Except.ok.injEq]
          constructor
          · exact fun h => ⟨a, mid, ⟨rfl, rfl⟩, h⟩
          · rintro ⟨_, _, ⟨rfl, rfl⟩, h⟩
            exact h
      | error reason => simp [Yields, run_bind_of_error hrun, hrun]

theorem yields_unit_bind {first : Operation σ ν ε Unit} {second : Unit → Operation σ ν ε β}
    {b : β} :
    (first >>= second).Yields before b after ↔
      ∃ mid, first.Yields before () mid ∧ (second ()).Yields mid b after := by
  rw [yields_bind]
  constructor
  · rintro ⟨⟨⟩, mid, hfirst, hsecond⟩
    exact ⟨mid, hfirst, hsecond⟩
  · rintro ⟨mid, hfirst, hsecond⟩
    exact ⟨(), mid, hfirst, hsecond⟩

theorem yields_read_bind {view : σ → α} {second : α → Operation σ ν ε β} {b : β} :
    (read view >>= second).Yields before b after ↔
      (second (view before)).Yields before b after := by
  rw [Yields, Yields, run_read_bind]

end Yields

/-! ## Failures -/

/-- The operation fails with an error and leaves a state. -/
def Fails (operation : Operation σ ν ε α) (before : σ) (error : ε) (after : σ) : Prop :=
  (operation.run before).answer = .error (.failed error) ∧ (operation.run before).state = after

section Fails

variable {before after : σ} {error : ε}

@[simp] theorem fails_pure (a : α) :
    (pure a : Operation σ ν ε α).Fails before error after ↔ False := by
  simp [Fails]

@[simp] theorem fails_change (step : σ → σ) :
    (change step : Operation σ ν ε Unit).Fails before error after ↔ False := by
  simp [Fails, run, change]

/-- A sequence fails where its first part does, or where its second part does after the first
one. -/
theorem fails_bind {first : Operation σ ν ε α} {second : α → Operation σ ν ε β} :
    (first >>= second).Fails before error after ↔
      first.Fails before error after ∨
        ∃ a mid, first.Yields before a mid ∧ (second a).Fails mid error after := by
  cases hrun : first.run before with
  | mk answer mid events =>
      cases answer with
      | ok a =>
          simp only [Fails, Yields, run_bind_of_ok hrun, hrun, reduceCtorEq, false_and, false_or,
            Except.ok.injEq]
          constructor
          · exact fun h => ⟨a, mid, ⟨rfl, rfl⟩, h⟩
          · rintro ⟨_, _, ⟨rfl, rfl⟩, h⟩
            exact h
      | error reason => simp [Fails, Yields, run_bind_of_error hrun, hrun]

theorem fails_read_bind {view : σ → α} {second : α → Operation σ ν ε β} :
    (read view >>= second).Fails before error after ↔
      (second (view before)).Fails before error after := by
  rw [Fails, Fails, run_read_bind]

end Fails

/-! ## Records -/

/-- A relation between a state, the events from there on and the state that they end in, which
holds of a run if it holds of its parts. -/
structure Record (record : σ → List ν → σ → Prop) : Prop where
  nothing : ∀ {s}, record s [] s
  append : ∀ {s t u events later}, record s events t → record t later u →
    record s (events ++ later) u

/-- The events of the operation record what it does to the state, however it ends. -/
def Records (record : σ → List ν → σ → Prop) (operation : Operation σ ν ε α) : Prop :=
  ∀ state, record state (operation.run state).events (operation.run state).state

section Records

variable {record : σ → List ν → σ → Prop} (h : Record record)

include h

theorem records_pure (a : α) : Records record (pure a : Operation σ ν ε α) :=
  fun _ => h.nothing

theorem records_fail (error : ε) : Records record (fail error : Operation σ ν ε α) :=
  fun _ => h.nothing

theorem records_read (view : σ → α) : Records record (read view : Operation σ ν ε α) :=
  fun _ => h.nothing

theorem records_bind {first : Operation σ ν ε α} {second : α → Operation σ ν ε β}
    (hfirst : Records record first) (hsecond : ∀ a, Records record (second a)) :
    Records record (first >>= second) := by
  intro state
  have hmid := hfirst state
  cases hrun : first.run state with
  | mk answer mid events =>
      rw [hrun] at hmid
      cases answer with
      | ok a =>
          rw [run_bind_of_ok hrun]
          exact h.append hmid (hsecond a mid)
      | error reason =>
          rw [run_bind_of_error hrun]
          exact hmid

end Records

/-! ## Failing first -/

/-- The operation always ends with an answer. -/
def Answers (operation : Operation σ ν ε α) : Prop :=
  ∀ state, ∃ a after events, operation.run state = ⟨.ok a, after, events⟩

/-- The operation ends with an answer, or fails before it changes or emits anything. -/
def FailsFirst (operation : Operation σ ν ε α) : Prop :=
  ∀ state, (∃ a after events, operation.run state = ⟨.ok a, after, events⟩) ∨
    ∃ error, operation.run state = ⟨.error (.failed error), state, []⟩

section FailsFirst

theorem answers_pure (a : α) : Answers (pure a : Operation σ ν ε α) :=
  fun state => ⟨a, state, [], rfl⟩

theorem answers_emit (event : σ → ν) : Answers (emit event : Operation σ ν ε Unit) :=
  fun state => ⟨(), state, [event state], rfl⟩

theorem answers_bind {first : Operation σ ν ε α} {second : α → Operation σ ν ε β}
    (hfirst : Answers first) (hsecond : ∀ a, Answers (second a)) :
    Answers (first >>= second) := by
  intro state
  obtain ⟨a, mid, events, hrun⟩ := hfirst state
  obtain ⟨b, after, later, hlater⟩ := hsecond a mid
  exact ⟨b, after, events ++ later, by rw [run_bind_of_ok hrun, hlater]⟩

theorem Answers.failsFirst {operation : Operation σ ν ε α} (h : Answers operation) :
    FailsFirst operation :=
  fun state => .inl (h state)

theorem failsFirst_ask (view : σ → Except ε α) :
    FailsFirst (ask view : Operation σ ν ε α) := by
  intro state
  cases h : view state with
  | ok a => exact .inl ⟨a, state, [], run_ask_of_ok h⟩
  | error error => exact .inr ⟨error, run_ask_of_error h⟩

/-- What follows an operation that fails first must not fail at all. -/
theorem failsFirst_bind {first : Operation σ ν ε α} {second : α → Operation σ ν ε β}
    (hfirst : FailsFirst first) (hsecond : ∀ a, Answers (second a)) :
    FailsFirst (first >>= second) := by
  intro state
  rcases hfirst state with ⟨a, mid, events, hrun⟩ | ⟨error, hrun⟩
  · obtain ⟨b, after, later, hlater⟩ := hsecond a mid
    exact .inl ⟨b, after, events ++ later, by rw [run_bind_of_ok hrun, hlater]⟩
  · exact .inr ⟨error, run_bind_of_error hrun⟩

end FailsFirst

/-! ## Unseen changes -/

/-- The action does not see the shift of a state: it answers and emits the same, and leaves
its state shifted. -/
def Ignores (shift : σ → σ) (act : σ → Outcome σ ν α) : Prop :=
  ∀ state, act (shift state) = ⟨(act state).answer, shift (act state).state, (act state).events⟩

section Ignores

variable {shift : σ → σ}

theorem ignores_pure (a : α) : Ignores shift (pure a : Operation σ ν ε α).run :=
  fun _ => rfl

theorem ignores_fail (error : ε) : Ignores shift (fail error : Operation σ ν ε α).run :=
  fun _ => rfl

theorem ignores_ask {view : σ → Except ε α} (h : ∀ state, view (shift state) = view state) :
    Ignores shift (ask view : Operation σ ν ε α).run := by
  intro state
  simp only [run, ask, h]

theorem ignores_emit {event : σ → ν} (h : ∀ state, event (shift state) = event state) :
    Ignores shift (emit event : Operation σ ν ε Unit).run := by
  intro state
  simp only [run, emit, h]

theorem ignores_bind {first : Operation σ ν ε α} {second : α → Operation σ ν ε β}
    (hfirst : Ignores shift first.run) (hsecond : ∀ a, Ignores shift (second a).run) :
    Ignores shift (first >>= second).run := by
  intro state
  have hshift := hfirst state
  cases hrun : first.run state with
  | mk answer mid events =>
      rw [hrun] at hshift
      cases answer with
      | ok a => rw [run_bind_of_ok hshift, run_bind_of_ok hrun, hsecond a mid]
      | error reason => rw [run_bind_of_error hshift, run_bind_of_error hrun]

/-- What was read may see the shift, as long as what follows does the same with it. -/
theorem ignores_read_bind {view : σ → α} {second : α → Operation σ ν ε β}
    (hview : ∀ state, second (view (shift state)) = second (view state))
    (hsecond : ∀ a, Ignores shift (second a).run) :
    Ignores shift (read view >>= second).run := by
  intro state
  rw [run_read_bind, run_read_bind, hview]
  exact hsecond (view state) state

end Ignores

/-! ## Two runs -/

/-- The outcomes are the same but for their answers, which are related. -/
inductive Alike (related : α → β → Prop) :
    Outcome σ ν (Except (Halt ε) α) → Outcome σ ν (Except (Halt ε) β) → Prop where
  | answered {a : α} {b : β} {state : σ} {events : List ν} (answers : related a b) :
      Alike related ⟨.ok a, state, events⟩ ⟨.ok b, state, events⟩
  | halted {reason : Halt ε} {state : σ} {events : List ν} :
      Alike related ⟨.error reason, state, events⟩ ⟨.error reason, state, events⟩

/-- Where the invariant holds both operations do the same and answer with related answers. -/
def Agree (invariant : σ → Prop) (related : α → β → Prop) (first : Operation σ ν ε α)
    (second : Operation σ ν ε β) : Prop :=
  ∀ state, invariant state → Alike related (first.run state) (second.run state)

section Agree

variable {invariant : σ → Prop} {related : α → β → Prop}

theorem Alike.after {outcome : Outcome σ ν (Except (Halt ε) α)}
    {other : Outcome σ ν (Except (Halt ε) β)} (h : Alike related outcome other)
    (events : List ν) :
    Alike related ⟨outcome.answer, outcome.state, events ++ outcome.events⟩
      ⟨other.answer, other.state, events ++ other.events⟩ := by
  cases h with
  | answered answers => exact .answered answers
  | halted => exact .halted

theorem Agree.run_eq {first second : Operation σ ν ε α} {state : σ}
    (h : Agree invariant Eq first second) (hstate : invariant state) :
    second.run state = first.run state := by
  have halike := h state hstate
  generalize first.run state = outcome at halike
  generalize second.run state = other at halike
  cases halike with
  | answered answers => rw [answers]
  | halted => rfl

theorem agree_pure {a : α} {b : β} (h : related a b) :
    Agree invariant related (pure a : Operation σ ν ε α) (pure b : Operation σ ν ε β) :=
  fun _ _ => .answered h

theorem agree_self (operation : Operation σ ν ε α) :
    Agree invariant Eq operation operation := by
  intro state _
  cases operation.run state with
  | mk answer after events =>
      cases answer with
      | ok a => exact .answered rfl
      | error reason => exact .halted

theorem agree_bind {α' β' : Type} {related' : α' → β' → Prop} {first : Operation σ ν ε α}
    {first' : Operation σ ν ε β} {second : α → Operation σ ν ε α'}
    {second' : β → Operation σ ν ε β'} (hfirst : Agree invariant related first first')
    (hkeeps : Keeps invariant first)
    (hsecond : ∀ a b, related a b → Agree invariant related' (second a) (second' b)) :
    Agree invariant related' (first >>= second) (first' >>= second') := by
  intro state h
  have hmid := hkeeps state h
  have halike := hfirst state h
  generalize hrun : first.run state = outcome at hmid halike
  generalize hrun' : first'.run state = other at halike
  cases halike with
  | answered answers =>
      rw [run_bind_of_ok hrun, run_bind_of_ok hrun']
      exact (hsecond _ _ answers _ hmid).after _
  | halted =>
      rw [run_bind_of_error hrun, run_bind_of_error hrun']
      exact .halted

/-- Two sequences that begin in the same way differ only in what follows. -/
theorem agree_bind_same {α' β' : Type} {related : α' → β' → Prop} {first : Operation σ ν ε α}
    {second : α → Operation σ ν ε α'} {second' : α → Operation σ ν ε β'}
    (hkeeps : Keeps invariant first)
    (hsecond : ∀ a, Agree invariant related (second a) (second' a)) :
    Agree invariant related (first >>= second) (first >>= second') := by
  refine agree_bind (agree_self first) hkeeps ?_
  rintro a _ rfl
  exact hsecond a

/-- What follows may use the invariant of the state that was read. -/
theorem agree_read_bind {α' β' : Type} {related : α' → β' → Prop} {view : σ → α}
    {second : α → Operation σ ν ε α'} {second' : α → Operation σ ν ε β'}
    (hsecond : ∀ state, invariant state →
      Alike related ((second (view state)).run state) ((second' (view state)).run state)) :
    Agree invariant related (read view >>= second) (read view >>= second') :=
  hsecond

end Agree

end Operation

end TokenGrammar
