import TokenGrammar.Proofs.Machine.FirstReady
import TokenGrammar.Proofs.Slot.Ready

/-!
# The rounds of a restoration

A token is restored in rounds.  Each one works on the active step and then either ends the walk or
moves one step down, so that the rounds that the walk was given are never used up.
-/

namespace TokenGrammar.Machine

open Operation

/-- What a round comes to: the end of the walk or a move to the next step, with the keys that are
left. -/
inductive Progress where
  | ended (pending : List String)
  | moved (pending : List String)

/-- Goes on behind a step that has its entry: down to the next step, if there is one. -/
def proceed (pending : List String) : Op Progress := do
  if ← Operation.read isTerminal then
    return .ended pending
  else
    let _ ← advance true
    return .moved pending

/-- One round of a walk. -/
def round (token : Token) (pending : List String) : Op Progress := do
  let slot ← Operation.read currentSlot
  match slot.node.vkey with
  | none =>
    activate none
    proceed pending
  | some vkey =>
    match entryFor? token vkey slot.config.multivalue with
    | none =>
      activate none
      return .ended (without pending vkey)
    | some raw =>
      bindCurrent vkey raw
      proceed (without pending vkey)

/-- A walk that goes through the steps with the ids, one round on each. -/
inductive Rounds (token : Token) : List String → Machine → List Nat →
    Outcome Machine Notice (Except (Halt MachineError) (List String)) → Prop where
  | halted {pending : List String} {m after : Machine} {reason : Halt MachineError}
      {events : List Notice}
      (run_eq : (round token pending).run m = ⟨.error reason, after, events⟩) :
      Rounds token pending m [m.current] ⟨.error reason, after, events⟩
  | ended {pending rest : List String} {m after : Machine} {events : List Notice}
      (run_eq : (round token pending).run m = ⟨.ok (.ended rest), after, events⟩) :
      Rounds token pending m [m.current] ⟨.ok rest, after, events⟩
  | moved {pending rest : List String} {m mid : Machine} {events : List Notice} {ids : List Nat}
      {walked : Outcome Machine Notice (Except (Halt MachineError) (List String))}
      (run_eq : (round token pending).run m = ⟨.ok (.moved rest), mid, events⟩)
      (later : Rounds token rest mid ids walked) :
      Rounds token pending m (m.current :: ids)
        ⟨walked.answer, walked.state, events ++ walked.events⟩

variable {token : Token} {pending : List String} {m m' mid : Machine} {vkey : String} {raw : Json}
  {raw? : Option Json}

/-! ## The walk in rounds -/

/-- Goes on with the walk after a round. -/
def further (below : List String → Op (List String)) : Progress → Op (List String)
  | .ended pending => pure pending
  | .moved pending => below pending

theorem goOn_eq (below : List String → Op (List String)) (pending : List String) :
    goOn below pending = proceed pending >>= further below := by
  rw [goOn, proceed, bind_assoc]
  congr 1
  funext terminal
  cases terminal with
  | true => rfl
  | false =>
      change _ = (advance true >>= fun _ => pure (Progress.moved pending)) >>= further below
      rw [bind_assoc]
      rfl

theorem bindFrom_succ (token : Token) (rounds : Nat) (pending : List String) :
    bindFrom token (rounds + 1) pending =
      round token pending >>= further (bindFrom token rounds) := by
  rw [bindFrom, round, bind_assoc]
  congr 1
  funext slot
  cases slot.node.vkey with
  | none =>
      dsimp only
      rw [bind_assoc]
      simp only [goOn_eq]
  | some vkey =>
      dsimp only
      cases entryFor? token vkey slot.config.multivalue with
      | none =>
          dsimp only
          rw [bind_assoc]
          rfl
      | some raw =>
          dsimp only
          rw [bind_assoc]
          simp only [goOn_eq]

/-! ## What one round does -/

/-- A round works on the active step.  It leaves that step ready unless it halts, and moves on if
the step leads on. -/
inductive Comes (m : Machine) : Except (Halt MachineError) Progress → Machine → Prop where
  | halted {reason : Halt MachineError} {after : Machine} (place : InPlace m after) :
      Comes m (.error reason) after
  | ended {rest : List String} {after : Machine} (place : InPlace m after)
      (ready : after.currentSlot.initialized = true) : Comes m (.ok (.ended rest)) after
  | moved {rest : List String} {mid : Machine} {next : Nat} (place : InPlace m mid)
      (ready : mid.currentSlot.initialized = true)
      (leads : Leads mid.tree true mid.current next) :
      Comes m (.ok (.moved rest)) { mid with current := next }

theorem ready_activate (hlt : m.current < m.tree.size) (h : (activate raw?).Yields m () m') :
    m'.currentSlot.initialized = true := by
  obtain ⟨t, hact, rfl⟩ := yields_activate.1 h
  rw [currentSlot_put hlt]
  exact Slot.initialized_of_activate hact

theorem sameOffers_bindItems {start : Machine} (vkey : String) (raw : Json) (items : List Json) :
    Keeps (SameOffers start) (bindItems vkey raw items) := by
  have henter (item : Json) : Keeps (SameOffers start) (enter item) := by
    refine sameOffers_carry fun s => ?_
    rw [Slot.enter_state]
    exact s.sameOffer_setRaw item
  have harchive : Keeps (SameOffers start) archive :=
    keeps_bind (sameOffers_carry Slot.sameOffer_archiveValue) fun _ => keeps_emit _
  induction items with
  | nil => exact keeps_pure _
  | cons item items ih =>
      refine keeps_bind (henter item) fun value? => ?_
      cases value? with
      | none => exact keeps_fail _
      | some value => exact keeps_bind harchive fun _ => ih

theorem ready_bindCurrent (hlt : m.current < m.tree.size)
    (h : (bindCurrent vkey raw).Yields m () m') : m'.currentSlot.initialized = true := by
  rw [bindCurrent, yields_read_bind] at h
  split at h
  · obtain ⟨mid, hact, hitems⟩ := yields_unit_bind.1 h
    have hplace : InPlace mid m' := hitems.2 ▸ keeps_bindItems _ _ _ mid (.refl mid)
    have hsame : SameOffers mid m' :=
      hitems.2 ▸ sameOffers_bindItems _ _ _ mid fun _ => .refl _
    rw [currentSlot, hplace.current_eq, (hsame mid.current).initialized_eq]
    exact ready_activate hlt hact
  · obtain ⟨mid, hact, hrest⟩ := yields_unit_bind.1 h
    rw [yields_read_bind] at hrest
    split at hrest
    · exact ((yields_fail _ _).1 hrest).elim
    · obtain ⟨-, rfl⟩ := (yields_pure _ _).1 hrest
      exact ready_activate hlt hact

theorem comes_proceed (hplace : InPlace m mid) (hready : mid.currentSlot.initialized = true)
    (pending : List String) :
    Comes m ((proceed pending).run mid).answer ((proceed pending).run mid).state := by
  rw [proceed, run_read_bind]
  cases mid.isTerminal with
  | true => exact .ended hplace hready
  | false =>
      let down : Op Progress := advance true >>= fun _ => pure (.moved pending)
      change Comes m (down.run mid).answer (down.run mid).state
      cases hnext : mid.successor true with
      | error error =>
          rw [run_bind_of_error (run_advance_of_error hnext)]
          exact .halted hplace
      | ok next =>
          rw [run_bind_of_ok (run_advance_of_ok hnext)]
          exact .moved hplace hready ((successor_eq_ok_iff mid true next).1 hnext)

/-- A round that begins with an operation on the active step. -/
theorem comes_bind {first : Op Unit} {second : Unit → Op Progress}
    (hplace : InPlace m (first.run m).state)
    (hready : ∀ mid, first.Yields m () mid → mid.currentSlot.initialized = true)
    (hsecond : ∀ mid, InPlace m mid → mid.currentSlot.initialized = true →
      Comes m ((second ()).run mid).answer ((second ()).run mid).state) :
    Comes m ((first >>= second).run m).answer ((first >>= second).run m).state := by
  cases hrun : first.run m with
  | mk answer mid events =>
      rw [hrun] at hplace
      cases answer with
      | error reason =>
          rw [run_bind_of_error hrun]
          exact .halted hplace
      | ok done =>
          rw [run_bind_of_ok hrun]
          exact hsecond mid hplace (hready mid (by rw [Yields, hrun]; exact ⟨rfl, rfl⟩))

theorem comes_round (hlt : m.current < m.tree.size) (token : Token) (pending : List String) :
    Comes m ((round token pending).run m).answer ((round token pending).run m).state := by
  have hactivate : InPlace m ((activate none).run m).state := keeps_activate none m (.refl m)
  have hread : (read currentSlot : Op Slot).run m = ⟨.ok m.currentSlot, m, []⟩ := rfl
  rw [round, run_bind_of_ok hread]
  cases m.currentSlot.node.vkey with
  | none =>
      exact comes_bind hactivate (fun _ => ready_activate hlt) fun _ hplace hready =>
        comes_proceed hplace hready pending
  | some vkey =>
      dsimp only
      cases entryFor? token vkey m.currentSlot.config.multivalue with
      | none =>
          exact comes_bind hactivate (fun _ => ready_activate hlt) fun _ hplace hready =>
            .ended hplace hready
      | some raw =>
          exact comes_bind (keeps_bindCurrent vkey raw m (.refl m))
            (fun _ => ready_bindCurrent hlt) fun _ hplace hready =>
              comes_proceed hplace hready (without pending vkey)

/-- A walk ends by itself if it is given as many rounds as there may be steps below: every round
but the last moves to a step with a larger id. -/
theorem exists_rounds (hwired : Wired m.tree.nodes) (hlt : m.current < m.tree.size)
    (token : Token) (pending : List String) {rounds : Nat}
    (hrounds : m.tree.size ≤ rounds + m.current) :
    ∃ ids, Rounds token pending m ids ((bindFrom token rounds pending).run m) := by
  induction rounds generalizing m pending with
  | zero => omega
  | succ rounds ih =>
      have hcomes := comes_round hlt token pending
      rw [bindFrom_succ]
      cases hrun : (round token pending).run m with
      | mk answer after events =>
          rw [hrun] at hcomes
          cases hcomes with
          | halted place =>
              rw [run_bind_of_error hrun]
              exact ⟨_, .halted hrun⟩
          | @ended rest _ place ready =>
              rw [run_bind_of_ok hrun, further, run_pure, List.append_nil]
              exact ⟨_, .ended hrun⟩
          | @moved rest mid next place ready leads =>
              rw [run_bind_of_ok hrun, further]
              have hmid : Wired mid.tree.nodes := place.nodes_eq ▸ hwired
              have hup := Tree.parent?_of_firstChild? hmid leads.2
              have hdown : mid.current < next := Tree.parent_lt hmid hup
              have hsize := place.size_eq
              have hcurrent := place.current_eq
              obtain ⟨ids, hids⟩ := ih (m := { mid with current := next }) hmid
                (Tree.lt_size_of_parent? hmid hup).1 rest
                (show mid.tree.size ≤ rounds + next by omega)
              exact ⟨_, .moved hrun hids⟩

end TokenGrammar.Machine
