import TokenGrammar.Proofs.Binding.Multivalue
import TokenGrammar.Proofs.Binding.Rounds
import TokenGrammar.Proofs.Machine.Reset

/-!
# Several values of one sort

A step that collects values is judged in two situations: with each value in progress before it
is archived, and with none in progress when the machine moves on behind the last one.  Steps that
need some value accept the second as soon as anything is archived.  A step with bounds looks at
the value in progress alone, so that nothing that is archived lets the machine move on.
-/

namespace TokenGrammar

/-- The sorts of values that there are steps for. -/
inductive EntrySort where
  | text
  | numeric
  | boundedNumeric (least? greatest? : Option Binary64)
  | currency (unit : Currency)
  | dateTime (pattern : String)
  | value

namespace EntrySort

/-- The step for values of a sort, as it is built. -/
def step (name : String) : EntrySort → Step
  | text => Step.text name
  | numeric => Step.numeric name
  | boundedNumeric least? greatest? => Step.boundedNumeric name least? greatest?
  | currency unit => Step.currency name unit
  | dateTime pattern => Step.dateTime name pattern
  | value => Step.value name

def isBounded : EntrySort → Bool
  | boundedNumeric _ _ => true
  | _ => false

variable (sort : EntrySort) (name : String)

theorem name_step : (sort.step name).config.name = name := by cases sort <;> rfl

theorem default?_step : (sort.step name).config.default? = none := by cases sort <;> rfl

theorem source_step : (sort.step name).config.source = .absent := by cases sort <;> rfl

/-- What is archived makes no difference to a value in progress. -/
theorem validator_step_some (value : Choice) (archive : List Choice) :
    (sort.step name).config.validator (some value) archive =
      (sort.step name).config.validator (some value) [] := by
  cases sort <;> rfl

/-- With no value in progress something archived is enough, but never for a step with bounds. -/
theorem validator_step_none {archive : List Choice} (h : archive ≠ []) :
    (sort.step name).config.validator none archive = .ok (!sort.isBounded) := by
  obtain ⟨first, rest, rfl⟩ := List.exists_cons_of_ne_nil h
  cases sort <;> rfl

end EntrySort

namespace Step

/-- The step with as many values as the limit allows, or with any number of them. -/
def upTo (step : Step) (limit : Option Nat) : Step :=
  { step with config := { step.config with multivalue := true, multivalueLimit := limit } }

/-- A raw value that a step takes on its own: it has a boxed form, and the step is valid with that
and nothing else. -/
structure Accepts (step : Step) (item : Json) (value : Choice) : Prop where
  present : item.isNull = false
  single : item.isArray = false
  boxed : step.config.boxer.box item [] = .ok (some value)
  valid : step.config.validator (some value) [] = .ok true

end Step

/-! ## Collecting -/

/-- What a step takes one by one it takes one after the other, as long as there is room. -/
theorem EntrySort.collects {sort : EntrySort} {name : String} {limit : Option Nat}
    {items : List Json} {values : List Choice}
    (haccepts : List.Forall₂ (sort.step name).Accepts items values) {archive : List Choice}
    (hroom : ∀ n, limit = some n → archive.length + items.length ≤ n) :
    ((sort.step name).upTo limit).config.Collects [] archive items (archive ++ values) := by
  -- The archive grows at its end while the items become fewer, so the room is the same.
  induction haccepts generalizing archive with
  | nil => simpa using StepConfig.Collects.done
  | @cons item value items values hitem _ ih =>
      have hfirst (n : Nat) (hn : limit = some n) : archive.length < n := by
        have hfits := hroom n hn
        rw [List.length_cons] at hfits
        omega
      have hlater (n : Nat) (hn : limit = some n) :
          (archive ++ [value]).length + items.length ≤ n := by
        have hfits := hroom n hn
        rw [List.length_cons] at hfits
        rw [List.length_append, List.length_singleton]
        omega
      have hvalid : (sort.step name).config.validator (some value) archive = .ok true :=
        (sort.validator_step_some name value archive).trans hitem.valid
      have hrest := ih hlater
      rw [List.append_assoc] at hrest
      exact .next hitem.single hitem.boxed hvalid hfirst hrest

theorem EntrySort.binds {sort : EntrySort} {name : String} {limit : Option Nat}
    {items : List Json} {values : List Choice}
    (haccepts : List.Forall₂ (sort.step name).Accepts items values)
    (hlimit : ∀ n, limit = some n → items.length ≤ n) :
    ((sort.step name).upTo limit).config.Binds ⟨[]⟩ (some (.arr items)) none values := by
  have hoffered : ((sort.step name).upTo limit).config.offered? "" ⟨[]⟩ = some [] :=
    StepConfig.offered?_of_absent (sort.source_step name) "" ⟨[]⟩
  have hroom (n : Nat) (hn : limit = some n) : ([] : List Choice).length + items.length ≤ n := by
    simpa using hlimit n hn
  have hdefault : ((sort.step name).upTo limit).config.default? = none := sort.default?_step name
  rw [← hdefault]
  exact .several rfl hoffered (EntrySort.collects haccepts hroom)

/-! ## Walks that fail -/

namespace Machine

open Operation

variable {token : Token} {m mid : Machine} {raw : Json} {error : MachineError}

theorem successor_of_invalid (h : m.currentSlot.isValid = .ok false) (ignoreBindOnly : Bool) :
    m.successor ignoreBindOnly =
      .error (.invalidState m.currentSlot.name m.currentSlot.rawValue) := by
  simp only [successor, h]

/-- A walk that gives the active step its entry fails where the step then leads nowhere. -/
theorem fails_bindFrom {rounds : Nat} {pending : List String}
    (hentry : m.currentSlot.node.stored? token = some raw)
    (hsettle : (settle token).Yields m () mid) (hterminal : mid.isTerminal = false)
    (hnext : mid.successor true = .error error) :
    (bindFrom token (rounds + 1) pending).Fails m error mid := by
  obtain ⟨vkey, hvkey, hfor⟩ := Option.bind_eq_some_iff.1 hentry
  have hadvance : (advance true).Fails mid error mid := by
    rw [Fails, run_advance_of_error hnext]
    exact ⟨rfl, rfl⟩
  have hproceed (pending : List String) : (proceed pending).Fails mid error mid := by
    rw [proceed, fails_read_bind, hterminal, if_neg Bool.false_ne_true]
    exact fails_bind.2 (.inl hadvance)
  have hbound : (bindCurrent vkey raw).Yields m () mid := by
    simpa [hvkey] using (yields_settle_some hentry).1 hsettle
  have hround : (round token pending).Fails m error mid := by
    rw [round, fails_read_bind, hvkey]
    dsimp only
    rw [show entryFor? token vkey m.currentSlot.config.multivalue = some raw from hfor]
    exact fails_bind.2 (.inr ⟨(), mid, hbound, hproceed _⟩)
  rw [bindFrom_succ]
  exact fails_bind.2 (.inl hround)

theorem fails_bindPath {after : Machine}
    (h : (bindFrom token m.tree.size (pendingKeys token)).Fails (reset.run m).state error after) :
    (bindPath token).Fails m error after := by
  have hreset : reset.Yields m () (reset.run m).state := ⟨rfl, rfl⟩
  have hsize : (reset.run m).state.tree.size = m.tree.size := Tree.size_reset m.tree
  have hwalk : (walk token).Fails m error after := by
    refine fails_bind.2 (.inr ⟨(), _, hreset, fails_read_bind.2 ?_⟩)
    rwa [hsize]
  rw [bindPath_eq_walk]
  exact fails_bind.2 (.inl hwalk)

/-- A step before the end of the token that is not valid with its entry makes a restoration fail
right there. -/
theorem fails_bindPath_ending {step : Step} {vkey : String} {value? : Option Choice}
    {archive : List Choice} (hbuilt : Built (Tree.ofTemplate (step.ending vkey)) m)
    (hpresent : isAbsent raw step.config.multivalue = false)
    (hbinds : step.config.Binds ⟨[]⟩ (some raw) value? archive)
    (hinvalid : step.config.validator value? archive = .ok false) :
    ∃ mid, (bindPath [(vkey, raw)]).Fails m
        (.invalidState mid.currentSlot.name mid.currentSlot.rawValue) mid ∧
      mid.current = 0 ∧ Holds (Tree.ofTemplate (step.ending vkey)) [⟨0, value?, archive⟩] mid := by
  let tree := Tree.ofTemplate (step.ending vkey)
  let visit : Visit := ⟨0, value?, archive⟩
  have hwired : Wired tree.nodes := Tree.wired_ofTemplate _
  have hstands := stands_reset hwired (Tree.size_ofTemplate_pos _) hbuilt
  have hstored : (tree.nodeOf visit).stored? [(vkey, raw)] = some raw := stored?_entry rfl hpresent
  have hbound : tree.Binds [(vkey, raw)] [] visit := by
    unfold Tree.Binds
    rw [hstored]
    exact hbinds
  obtain ⟨mid, hsettle, hvalue, harchive⟩ := (hstands.leaves_settle hwired rfl).2 hbound
  have hplace : InPlace (reset.run m).state mid := hsettle.2 ▸ keeps_settle _ _ (.refl _)
  have hcurrent : mid.current = 0 := hplace.current_eq
  have hvisit : visit.id = mid.current := hcurrent.symm
  have hholds : Holds tree [visit] mid := hstands.holds hwired hplace rfl hvalue harchive
  have hterminal : mid.isTerminal = false := hholds.isTerminal_eq hvisit
  have hjudged : mid.currentSlot.isValid = .ok false := by
    rw [Slot.isValid_eq_ok_iff, hvalue, harchive, Slot.config,
      show mid.currentSlot.node = _ from hholds.node_eq mid.current, hcurrent]
    exact hinvalid
  have hentry : (reset.run m).state.currentSlot.node.stored? [(vkey, raw)] = some raw := by
    rw [show (reset.run m).state.currentSlot.node = _ from hstands.node_eq 0]
    exact hstored
  refine ⟨mid, fails_bindPath ?_, hcurrent, hholds⟩
  rw [hbuilt.size_eq]
  exact fails_bindFrom hentry hsettle hterminal (successor_of_invalid hjudged true)

/-! ## Whole arrays -/

section Arrays

variable {sort : EntrySort} {name : String} {limit : Option Nat} {items : List Json}
  {values : List Choice} (hsome : items ≠ []) (hlimit : ∀ n, limit = some n → items.length ≤ n)
  (haccepts : List.Forall₂ (sort.step name).Accepts items values)

include hsome

theorem isAbsent_items : isAbsent (.arr items) ((sort.step name).upTo limit).config.multivalue =
    false := by
  simpa [isAbsent] using fun _ => hsome

include haccepts

theorem validator_items : ((sort.step name).upTo limit).config.validator none values =
    .ok (!sort.isBounded) := by
  refine sort.validator_step_none name ?_
  rintro rfl
  exact hsome (List.forall₂_nil_right_iff.1 haccepts)

include hlimit

theorem bindValues_items_of_unbounded (hbounded : sort.isBounded = false) (vkey : String)
    (flag : Bool) (commands : List Command) :
    let outcome := (bindValues [(vkey, .arr items)]).run
      ((new (((sort.step name).upTo limit).ending vkey) flag).after commands)
    outcome.answer = .ok () ∧ outcome.state.current = 1 ∧ outcome.state.isTerminal = true ∧
      (outcome.state.tree.slot 0).archive = values := by
  intro outcome
  have hwired := Tree.wired_ofTemplate (((sort.step name).upTo limit).ending vkey)
  have hjudged : ((sort.step name).upTo limit).config.validator none values = _ :=
    validator_items hsome haccepts
  rw [hbounded] at hjudged
  have hlegal : (Tree.ofTemplate (((sort.step name).upTo limit).ending vkey)).Legal
      [(vkey, .arr items)] [⟨0, none, values⟩, ⟨1, none, []⟩] :=
    (legal_ending_iff (isAbsent_items hsome)).2
      ⟨none, values, rfl, EntrySort.binds haccepts hlimit, hjudged⟩
  obtain ⟨_, ⟨hok, rfl⟩, hholds⟩ := yields_bindValues_of_legal hwired (Tree.size_ofTemplate_pos _)
    (built_after _ flag commands) hlegal
  have hlast : (⟨1, none, []⟩ : Visit).id = outcome.state.current :=
    Option.some.inj (hholds.getLast?_eq hwired)
  exact ⟨hok, hlast.symm, hholds.isTerminal_eq hlast, (hholds.held _ List.mem_cons_self).2⟩

theorem bindValues_items_of_bounded (hbounded : sort.isBounded = true) (vkey : String)
    (flag : Bool) (commands : List Command) :
    let outcome := (bindValues [(vkey, .arr items)]).run
      ((new (((sort.step name).upTo limit).ending vkey) flag).after commands)
    outcome.answer = .error (.failed (.invalidState name .null)) ∧
      (flag = false → outcome.state.current = 0 ∧
        (outcome.state.tree.slot 0).archive = values) := by
  intro outcome
  have hjudged : ((sort.step name).upTo limit).config.validator none values = _ :=
    validator_items hsome haccepts
  rw [hbounded] at hjudged
  obtain ⟨mid, ⟨hanswer, hstate⟩, hcurrent, hholds⟩ :=
    fails_bindPath_ending (built_after (((sort.step name).upTo limit).ending vkey) flag commands)
      (isAbsent_items hsome) (EntrySort.binds haccepts hlimit) hjudged
  obtain ⟨hvalue, harchive⟩ := hholds.held _ List.mem_cons_self
  have hname : mid.currentSlot.name = name := by
    rw [Slot.name, Slot.config, show mid.currentSlot.node = _ from hholds.node_eq mid.current,
      hcurrent]
    exact sort.name_step name
  have hraw : mid.currentSlot.rawValue = .null := by
    rw [Slot.rawValue, currentSlot, hcurrent, hvalue]
    rfl
  rw [hname, hraw] at hanswer
  refine ⟨(bindValues_answer _ _).trans hanswer, ?_⟩
  rintro rfl
  have hflag : mid.resetOnBindFailure = false := by
    rw [← hstate]
    exact flag_preserved.bindPath trivial _ _ (flag_after _ commands)
  have hkept : outcome.state = mid := by
    rw [bindValues_state, hanswer, hstate]
    simp [hflag]
  rw [hkept]
  exact ⟨hcurrent, harchive⟩

end Arrays

/-- An array of values that a step takes one by one, no more than its limit, is restored: they are
archived in their order, and the token ends behind them.  Only for numbers with bounds it is not:
they are archived as well, but then the step is not valid for want of a value in progress, whatever
the bounds and the numbers are. -/
theorem bindValues_items (sort : EntrySort) (name vkey : String) (limit : Option Nat)
    (items : List Json) (values : List Choice) (hsome : items ≠ [])
    (hlimit : ∀ n, limit = some n → items.length ≤ n)
    (haccepts : List.Forall₂ (sort.step name).Accepts items values) (flag : Bool)
    (commands : List Command) :
    let outcome := (bindValues [(vkey, .arr items)]).run
      ((new (((sort.step name).upTo limit).ending vkey) flag).after commands)
    (sort.isBounded = false →
      outcome.answer = .ok () ∧ outcome.state.current = 1 ∧ outcome.state.isTerminal = true ∧
        (outcome.state.tree.slot 0).archive = values) ∧
    (sort.isBounded = true →
      outcome.answer = .error (.failed (.invalidState name .null)) ∧
        (flag = false → outcome.state.current = 0 ∧
          (outcome.state.tree.slot 0).archive = values)) := by
  intro outcome
  constructor
  · intro hunbounded
    exact bindValues_items_of_unbounded hsome hlimit haccepts hunbounded vkey flag commands
  · intro hbounded
    exact bindValues_items_of_bounded hsome hlimit haccepts hbounded vkey flag commands

/-- Ages from zero to 130. -/
def ageSort : EntrySort := .boundedNumeric (some .zero) (some (.ofInt 130))

theorem accepts_ageSort :
    List.Forall₂ (ageSort.step "Ages").Accepts [.ofInt 42] [.ofKey (.ofInt 42)] :=
  .cons ⟨rfl, rfl, rfl, by decide +kernel⟩ .nil

/-- Two amounts, as many as there is room for, are archived in their order. -/
theorem bindValues_items_amounts :
    let items : List Json := [.ofInt 42, .ofInt 7]
    let values : List Choice := [.ofKey (.ofInt 42), .ofKey (.ofInt 7)]
    let outcome := (bindValues [("amounts", .arr items)]).run
      ((new (((EntrySort.numeric.step "Amounts").upTo (some 2)).ending "amounts") true).after
        [.transition])
    items ≠ [] ∧ items.length ≤ 2 ∧
      List.Forall₂ (EntrySort.numeric.step "Amounts").Accepts items values ∧
      outcome.answer = .ok () ∧ (outcome.state.tree.slot 0).archive = values := by
  intro items values outcome
  have hsome : items ≠ [] := List.cons_ne_nil _ _
  have hlength : items.length ≤ 2 := Nat.le_refl 2
  have haccepts : List.Forall₂ (EntrySort.numeric.step "Amounts").Accepts items values :=
    .cons ⟨rfl, rfl, rfl, rfl⟩ (.cons ⟨rfl, rfl, rfl, rfl⟩ .nil)
  obtain ⟨hrestored, -⟩ := bindValues_items .numeric "Amounts" "amounts" (some 2) items values
    hsome (by rintro _ ⟨⟩; exact hlength) haccepts true [.transition]
  obtain ⟨hok, -, -, harchive⟩ := hrestored rfl
  exact ⟨hsome, hlength, haccepts, hok, harchive⟩

/-- An age that a step with bounds takes as its one value is not restored as one of several. -/
theorem bindValues_items_ages :
    let outcome := (bindValues [("ages", .arr [.ofInt 42])]).run
      (new (((ageSort.step "Ages").upTo none).ending "ages") true)
    List.Forall₂ (ageSort.step "Ages").Accepts [.ofInt 42] [.ofKey (.ofInt 42)] ∧
      outcome.answer = .error (.failed (.invalidState "Ages" .null)) := by
  intro outcome
  have hlimit : ∀ n, (none : Option Nat) = some n → [Json.ofInt 42].length ≤ n := by
    rintro _ ⟨⟩
  obtain ⟨herror, -⟩ := bindValues_items_of_bounded (List.cons_ne_nil _ _) hlimit accepts_ageSort
    rfl "ages" true []
  exact ⟨accepts_ageSort, herror⟩

end Machine

end TokenGrammar
