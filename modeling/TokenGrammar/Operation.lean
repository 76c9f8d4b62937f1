import TokenGrammar.Fault

/-!
# Operations

An operation works on a state and emits events.  It ends with an answer or halts; in
either case it leaves a state and the events emitted so far, in order.  What an
operation did before it halted is not undone.
-/

namespace TokenGrammar

/-- What an operation leaves: an answer, the state behind it and the events it emitted. -/
structure Outcome (σ ν α : Type) where
  answer : α
  state : σ
  events : List ν

/-- Why an operation ended without an answer. -/
inductive Halt (ε : Type) where
  | failed (error : ε)
  /-- It waits for options that are not there yet. -/
  | waiting
  /-- It could not be carried out. -/
  | fault (fault : Fault)

/-- A step from one state to the next that emits events and may halt. -/
def Operation (σ ν ε α : Type) := σ → Outcome σ ν (Except (Halt ε) α)

namespace Operation

variable {σ ν ε α β : Type}

def run (operation : Operation σ ν ε α) (state : σ) : Outcome σ ν (Except (Halt ε) α) :=
  operation state

/-- Answers and leaves the state as it is. -/
def answer (a : α) : Operation σ ν ε α := fun s => ⟨.ok a, s, []⟩

/-- The second operation works on what the first one left, unless that one halted. -/
def andThen (first : Operation σ ν ε α) (second : α → Operation σ ν ε β) :
    Operation σ ν ε β := fun s =>
  match first s with
  | ⟨.ok a, s, events⟩ =>
    let ⟨answer, s, later⟩ := second a s
    ⟨answer, s, events ++ later⟩
  | ⟨.error halt, s, events⟩ => ⟨.error halt, s, events⟩

instance : Monad (Operation σ ν ε) where
  pure := answer
  bind := andThen

def fail (error : ε) : Operation σ ν ε α := fun s => ⟨.error (.failed error), s, []⟩

def read (view : σ → α) : Operation σ ν ε α := fun s => ⟨.ok (view s), s, []⟩

/-- Looks at the state for something that may be missing for a reason. -/
def ask (view : σ → Except ε α) : Operation σ ν ε α := fun s =>
  ⟨(view s).mapError .failed, s, []⟩

def change (step : σ → σ) : Operation σ ν ε Unit := fun s => ⟨.ok (), step s, []⟩

def emit (event : σ → ν) : Operation σ ν ε Unit := fun s => ⟨.ok (), s, [event s]⟩

@[simp] theorem run_pure (a : α) (s : σ) :
    (pure a : Operation σ ν ε α).run s = ⟨.ok a, s, []⟩ := rfl

/-- A sequence of two operations emits the events of the first, then those of the second. -/
theorem run_bind_of_ok {first : Operation σ ν ε α} {second : α → Operation σ ν ε β}
    {s t : σ} {a : α} {events : List ν} (h : first.run s = ⟨.ok a, t, events⟩) :
    (first >>= second).run s =
      ⟨((second a).run t).answer, ((second a).run t).state,
        events ++ ((second a).run t).events⟩ := by
  change andThen first second s = _
  unfold andThen
  rw [show first s = _ from h]
  rfl

theorem run_bind_of_error {first : Operation σ ν ε α} {second : α → Operation σ ν ε β}
    {s t : σ} {reason : Halt ε} {events : List ν}
    (h : first.run s = ⟨.error reason, t, events⟩) :
    (first >>= second).run s = ⟨.error reason, t, events⟩ := by
  change andThen first second s = _
  unfold andThen
  rw [show first s = _ from h]

end Operation

end TokenGrammar
