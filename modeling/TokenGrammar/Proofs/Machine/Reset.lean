import TokenGrammar.Proofs.Machine.PathSound
import TokenGrammar.Proofs.Machine.Ticket

/-!
# A reset machine is a new one

A reset leaves nothing of what was done with a machine but the counts of requests, and these
make every earlier ticket stale.  From then on the machine does what a new one does, however
callers go on with it.  A restoration begins with a reset, so it too does not depend on what
was done before.
-/

namespace TokenGrammar

/-! ## Slots and trees after a reset -/

/-- Nothing has happened in the slot. -/
structure Slot.AtStart (s : Slot) : Prop where
  value_eq : s.value = s.config.default?
  preview_eq : s.preview = none
  archive_eq : s.archive = []
  initialized_eq : s.initialized = false
  options_eq : s.store.options =
    OptionStore.initialOptions s.config.source s.config.suggestionLimit
  appliedHint_eq : s.store.appliedHint = none

theorem Slot.atStart_countedFrom_fresh (node : Node) (n : Nat) :
    ((fresh node).countedFrom n).AtStart :=
  ⟨rfl, rfl, rfl, rfl, rfl, rfl⟩

/-- The slot is as new but for the requests that were counted, the reset among them. -/
theorem Slot.Supplied.reset_state {s : Slot} (h : s.Supplied) :
    s.reset.state = (fresh s.node).countedFrom (s.store.issued + 1) := by
  have hstore : s.store.reset =
      (OptionStore.new s.config.source s.config.suggestionLimit).countedFrom
        (s.store.issued + 1) := by
    rw [← h.source_eq, ← h.limit_eq]
    rfl
  rw [Slot.reset, hstore]
  rfl

theorem Tree.ext_slot {tree other : Tree} (hsize : tree.size = other.size)
    (h : ∀ id, id < tree.size → tree.slot id = other.slot id) : tree = other := by
  have hslots : tree.slots = other.slots := by
    refine List.ext_getElem? fun id => ?_
    change tree.get? id = other.get? id
    rcases Nat.lt_or_ge id tree.size with hlt | hge
    · rw [get?_of_lt hlt, get?_of_lt (hsize ▸ hlt), h id hlt]
    · rw [get?_of_ge hge, get?_of_ge (hsize ▸ hge)]
  cases tree
  cases other
  exact congrArg mk hslots

namespace Machine

open Operation

/-! ## What callers can tell -/

/-- A ticket for the options of a step was handed out during some calls. -/
def HandedOut (m : Machine) (commands : List Command) (id : Nat) (ticket : Ticket) : Prop :=
  id < m.tree.size ∧ ∃ before use after answer, commands = before ++ .store id use :: after ∧
    ((perform (.store id use)).run (m.after before)).answer = .ok answer ∧
      answer.ticket? = some ticket

/-- Calls as they are made on a machine whose stores count from other numbers.  In between,
results may be handed in for tickets from before. -/
inductive Retold (base : Nat → Nat) (earlier : Nat → Ticket → Prop) :
    List Command → List Command → Prop where
  | done : Retold base earlier [] []
  | call (command : Command) {later later' : List Command}
      (rest : Retold base earlier later later') :
      Retold base earlier (command :: later) (command.countedFrom base :: later')
  | late {id : Nat} {use : StoreUse} {ticket : Ticket} {later later' : List Command}
      (handedIn : use.ticket? = some ticket) (outdated : earlier id ticket)
      (rest : Retold base earlier later later') :
      Retold base earlier later (.store id use :: later')

/-- Machines that look the same, the counts of requests aside. -/
structure SameView (base : Nat → Nat) (m m' : Machine) : Prop where
  current_eq : m'.current = m.current
  isTerminal_eq : m'.isTerminal = m.isTerminal
  boxedToken_eq : m'.boxedToken = m.boxedToken
  rawToken_eq : m'.rawToken = m.rawToken
  flag_eq : m'.resetOnBindFailure = m.resetOnBindFailure
  size_eq : m'.tree.size = m.tree.size
  slot_eq : ∀ id, m'.tree.slot id = (m.tree.slot id).countedFrom (base id)

/-- Whatever is done with the two machines from now on, they look the same and give the same
answers and events, and a result for a ticket from before is dropped. -/
structure Indistinguishable (base : Nat → Nat) (earlier : Nat → Ticket → Prop)
    (m m' : Machine) : Prop where
  view : ∀ {later later'}, Retold base earlier later later' →
    SameView base (m.after later) (m'.after later')
  answer : ∀ {later later'}, Retold base earlier later later' → ∀ command,
    ((perform (command.countedFrom base)).run (m'.after later')).answer =
      ((perform command).run (m.after later)).answer.map
        (·.countedFrom (command.countBefore base))
  events : ∀ {later later'}, Retold base earlier later later' → ∀ command,
    ((perform (command.countedFrom base)).run (m'.after later')).events =
      ((perform command).run (m.after later)).events
  dropped : ∀ later {id use ticket}, use.ticket? = some ticket → earlier id ticket →
    (perform (.store id use)).run (m'.after later) =
      ⟨.ok (.refresh (.ended (.ok .stale))), m'.after later, []⟩

/-- The machine is as a new one; the tickets from before are good for nothing. -/
structure StartsOver (template : Template) (flag : Bool) (earlier : Nat → Ticket → Prop)
    (m : Machine) : Prop where
  atStart : ∀ id, (m.tree.slot id).AtStart
  current_eq : m.current = Tree.root
  asNew : ∃ base, Indistinguishable base earlier (new template flag) m

variable {template : Template} {tree : Tree} {m m' : Machine} {base : Nat → Nat}
  {earlier : Nat → Ticket → Prop} {commands later later' : List Command} {id : Nat}
  {ticket : Ticket} {token : Token} {flag : Bool}

/-! ## Counts along a run -/

theorem after_append (m : Machine) (commands others : List Command) :
    m.after (commands ++ others) = (m.after commands).after others :=
  List.foldl_append ..

theorem Built.size_eq (h : Built tree m) : m.tree.size = tree.size := Tree.size_congr h.nodes_eq

theorem issued_le_perform (h : Built tree m) (command : Command) (id : Nat) :
    (m.tree.slot id).store.issued ≤
      (((perform command).run m).state.tree.slot id).store.issued := by
  by_cases hstore : ∃ target use, command = .store target use
  · obtain ⟨target, use, rfl⟩ := hstore
    exact issued_withStore id (OptionStore.issued_le_apply (m.tree.slot target).store use)
  · have hother : ∀ target use, command ≠ .store target use :=
      fun target use heq => hstore ⟨target, use, heq⟩
    exact issued_le_of_ignores (fun _ => ignores_perform hother)
      ((h.perform command).size_eq.trans h.size_eq.symm) id

theorem issued_le_after (h : Built tree m) (commands : List Command) (id : Nat) :
    (m.tree.slot id).store.issued ≤ ((m.after commands).tree.slot id).store.issued := by
  induction commands generalizing m with
  | nil => exact Nat.le_refl _
  | cons command commands ih =>
      exact Nat.le_trans (issued_le_perform h command id) (ih (h.perform command))

/-- A ticket that was handed out is not ahead of the count. -/
theorem HandedOut.generation_le (h : Built tree m) (hticket : HandedOut m commands id ticket) :
    ticket.generation ≤ ((m.after commands).tree.slot id).store.issued := by
  obtain ⟨hlt, before, use, rest, answer, rfl, hanswer, hgiven⟩ := hticket
  have hbefore : Built tree (m.after before) := h.after before
  have hid : id < (m.after before).tree.size := by rwa [hbefore.size_eq, ← h.size_eq]
  obtain rfl := Except.ok.inj hanswer
  rw [after_append]
  calc ticket.generation
    _ ≤ (((m.after before).tree.slot id).store.apply use).2.issued :=
        OptionStore.generation_le_issued hgiven
    _ = (((m.after before).withStore id
          (((m.after before).tree.slot id).store.apply use).2).tree.slot id).store.issued := by
        rw [withStore, Tree.slot_set_self hid]
    _ ≤ _ := issued_le_after (hbefore.perform (.store id use)) rest id

theorem run_store_of_lt {use : StoreUse} (hticket : use.ticket? = some ticket)
    (hlt : ticket.generation < (m.tree.slot id).store.issued) :
    (perform (.store id use)).run m = ⟨.ok (.refresh (.ended (.ok .stale))), m, []⟩ := by
  have hput : m.withStore id (m.tree.slot id).store = m := by
    rw [withStore, show ({ m.tree.slot id with store := (m.tree.slot id).store } : Slot) =
      m.tree.slot id from rfl, Tree.set_slot]
  rw [run_store, OptionStore.apply_of_stale hticket (OptionStore.isCurrent_of_lt hlt), hput]

/-! ## Machines that count from other numbers -/

section CountedFrom

variable (hbuilt : Built tree m) (hbase : ∀ id, tree.size ≤ id → base id = 0)
  (hearlier : ∀ id ticket, earlier id ticket →
    ticket.generation < ((m.countedFrom base).tree.slot id).store.issued)

include hbuilt hbase

theorem slot_countedFrom (id : Nat) :
    (m.countedFrom base).tree.slot id = (m.tree.slot id).countedFrom (base id) := by
  have hslot := m.tree.slot_countedFrom base id
  rcases Nat.lt_or_ge id m.tree.size with hlt | hge
  · rwa [Tree.countBefore_of_lt hlt] at hslot
  · rw [Tree.countBefore_of_ge hge] at hslot
    rwa [hbase id (hbuilt.size_eq ▸ hge)]

theorem sameView_countedFrom : SameView base m (m.countedFrom base) :=
  ⟨rfl, isTerminal_countedFrom, boxedToken_countedFrom, rawToken_countedFrom, rfl,
    Tree.size_countedFrom, slot_countedFrom hbuilt hbase⟩

theorem run_perform_of_built (command : Command) :
    (perform (command.countedFrom base)).run (m.countedFrom base) =
      ⟨((perform command).run m).answer.map (·.countedFrom (command.countBefore base)),
        ((perform command).run m).state.countedFrom base, ((perform command).run m).events⟩ :=
  run_perform_countedFrom (fun id hid => hbase id (hbuilt.size_eq ▸ hid)) command

include hearlier

theorem after_retold (h : Retold base earlier later later') :
    (m.countedFrom base).after later' = (m.after later).countedFrom base := by
  induction h generalizing m with
  | done => rfl
  | @call command later later' rest ih =>
      have hrun := run_perform_of_built hbuilt hbase command
      have hstate : ((perform (command.countedFrom base)).run (m.countedFrom base)).state =
          ((perform command).run m).state.countedFrom base := congrArg Outcome.state hrun
      change ((perform (command.countedFrom base)).run (m.countedFrom base)).state.after later' = _
      rw [hstate]
      refine ih (hbuilt.perform command) fun id ticket hticket => ?_
      -- Counts have not fallen, so that the tickets from before are still outdated.
      calc ticket.generation
        _ < ((m.countedFrom base).tree.slot id).store.issued := hearlier id ticket hticket
        _ ≤ ((((perform command).run m).state.countedFrom base).tree.slot id).store.issued := by
            rw [slot_countedFrom hbuilt hbase, slot_countedFrom (hbuilt.perform command) hbase]
            exact Nat.add_le_add_left (issued_le_perform hbuilt command id) _
  | @late id use ticket later later' handedIn outdated rest ih =>
      have hrun := run_store_of_lt handedIn (hearlier id ticket outdated)
      change ((perform (.store id use)).run (m.countedFrom base)).state.after later' = _
      rw [hrun]
      exact ih hbuilt hearlier

theorem indistinguishable_countedFrom :
    Indistinguishable base earlier m (m.countedFrom base) := by
  have hother : Built tree (m.countedFrom base) := by
    refine ⟨(Tree.nodes_countedFrom m.tree base).trans hbuilt.nodes_eq, fun id => ?_⟩
    rw [slot_countedFrom hbuilt hbase]
    exact (hbuilt.supplied id).congr ⟨rfl, rfl, rfl⟩
  refine ⟨fun h => ?_, fun h command => ?_, fun h command => ?_, fun later id use ticket huse h => ?_⟩
  · rw [after_retold hbuilt hbase hearlier h]
    exact sameView_countedFrom (hbuilt.after _) hbase
  · rw [after_retold hbuilt hbase hearlier h, run_perform_of_built (hbuilt.after _) hbase]
  · rw [after_retold hbuilt hbase hearlier h, run_perform_of_built (hbuilt.after _) hbase]
  · exact run_store_of_lt huse
      (Nat.lt_of_lt_of_le (hearlier id ticket h) (issued_le_after hother later id))

end CountedFrom

/-! ## Resets -/

/-- The requests that are counted in each store behind a reset, the reset among them. -/
def countsBehindReset (m : Machine) (id : Nat) : Nat :=
  if id < m.tree.size then (m.tree.slot id).store.issued + 1 else 0

theorem reset_state_of_built (h : Built (Tree.ofTemplate template) m) :
    (reset.run m).state =
      (new template m.resetOnBindFailure).countedFrom m.countsBehindReset := by
  have htree : m.tree.reset.state = (Tree.ofTemplate template).countedFrom m.countsBehindReset := by
    refine Tree.ext_slot ?_ fun id hid => ?_
    · rw [Tree.size_reset, Tree.size_countedFrom, h.size_eq]
    · rw [Tree.size_reset] at hid
      have hlt : id < (Tree.ofTemplate template).size := h.size_eq ▸ hid
      obtain ⟨node, hnode⟩ := Tree.slot_ofTemplate template id
      have hsame : (m.tree.slot id).node = node := by
        rw [Tree.slot_node_congr h.nodes_eq id, hnode]
        rfl
      rw [Tree.slot_reset hid, (h.supplied id).reset_state, hsame, Tree.slot_countedFrom,
        Tree.countBefore_of_lt hlt, countsBehindReset, if_pos hid, hnode]
  change (⟨m.tree.reset.state, Tree.root, m.resetOnBindFailure⟩ : Machine) = _
  rw [htree]
  rfl

theorem startsOver_reset (h : Built (Tree.ofTemplate template) m)
    (hearlier : ∀ id ticket, earlier id ticket →
      id < m.tree.size ∧ ticket.generation ≤ (m.tree.slot id).store.issued) :
    StartsOver template m.resetOnBindFailure earlier (reset.run m).state := by
  have hnew := built_new template m.resetOnBindFailure
  have hbase : ∀ id, (Tree.ofTemplate template).size ≤ id → m.countsBehindReset id = 0 := by
    intro id hid
    exact if_neg (Nat.not_lt.2 (h.size_eq ▸ hid))
  have hslot := slot_countedFrom hnew hbase
  rw [reset_state_of_built h]
  refine ⟨fun id => ?_, rfl, _, indistinguishable_countedFrom hnew hbase fun id ticket hticket => ?_⟩
  · obtain ⟨node, hnode⟩ := Tree.slot_ofTemplate template id
    rw [hslot, show (new template m.resetOnBindFailure).tree.slot id = _ from hnode]
    exact Slot.atStart_countedFrom_fresh node _
  · obtain ⟨hlt, hle⟩ := hearlier id ticket hticket
    rw [hslot]
    calc ticket.generation
      _ < m.countsBehindReset id := by
          rw [countsBehindReset, if_pos hlt]
          exact Nat.lt_succ_of_le hle
      _ ≤ _ := Nat.le_add_right ..

/-! ## Restorations -/

theorem countedFrom_countedFrom (m : Machine) (first second : Nat → Nat) :
    (m.countedFrom first).countedFrom second = m.countedFrom fun id => second id + first id := by
  have hslots : ((m.tree.countedFrom first).countedFrom second).slots =
      (m.tree.countedFrom fun id => second id + first id).slots := by
    refine List.ext_getElem? fun id => ?_
    simp only [Tree.countedFrom, List.getElem?_mapIdx, Option.map_map]
    refine Option.map_congr fun slot _ => ?_
    simp [Slot.countedFrom, OptionStore.countedFrom, Nat.add_assoc]
  exact congrArg (fun slots => { m with tree := ⟨slots⟩ }) hslots

/-- A reset leaves the machine as that of a new one does, but for what was counted before. -/
theorem reset_state_eq_new (h : Built (Tree.ofTemplate template) m) :
    (reset.run m).state = (reset.run (new template m.resetOnBindFailure)).state.countedFrom
      fun id => (m.tree.slot id).store.issued := by
  have hnew := built_new template m.resetOnBindFailure
  have hcounts : m.countsBehindReset = fun id => (m.tree.slot id).store.issued +
      (new template m.resetOnBindFailure).countsBehindReset id := by
    funext id
    unfold countsBehindReset
    rw [hnew.size_eq, h.size_eq]
    split
    · obtain ⟨node, hnode⟩ := Tree.slot_ofTemplate template id
      rw [show (new template m.resetOnBindFailure).tree.slot id = _ from hnode]
      rfl
    · rename_i hge
      rw [Tree.slot_of_ge (h.size_eq ▸ Nat.not_lt.1 hge)]
      rfl
  rw [reset_state_of_built h, reset_state_of_built hnew, countedFrom_countedFrom, ← hcounts]
  rfl

theorem run_bindPath (token : Token) (m : Machine) :
    (bindPath token).run m =
      ⟨((walkFromRoot token).run (reset.run m).state).answer,
        ((walkFromRoot token).run (reset.run m).state).state,
        (reset.run m).events ++ ((walkFromRoot token).run (reset.run m).state).events⟩ := by
  rw [bindPath_eq]
  exact run_bind_of_ok rfl

theorem bindValues_answer (token : Token) (m : Machine) :
    ((bindValues token).run m).answer = ((bindPath token).run m).answer := by
  unfold run bindValues
  split
  next error mid events hrun =>
    rw [show bindPath token m = _ from hrun]
    split <;> rfl
  next => rfl

theorem bindValues_state (token : Token) (m : Machine) :
    ((bindValues token).run m).state =
      match ((bindPath token).run m).answer with
      | .error (.failed _) =>
        if ((bindPath token).run m).state.resetOnBindFailure then
          (reset.run ((bindPath token).run m).state).state
        else ((bindPath token).run m).state
      | _ => ((bindPath token).run m).state := by
  change (bindValues token m).state = _
  unfold bindValues
  split
  next error mid events hrun =>
    rw [hrun]
    dsimp only
    split <;> rfl
  next hother =>
    cases hrun : (bindPath token).run m with
    | mk answer mid events =>
        cases answer with
        | ok done => rfl
        | error halt =>
            cases halt with
            | failed error => exact absurd hrun (hother error mid events)
            | _ => rfl

/-- What a restoration comes to is decided by what the reset at its beginning leaves. -/
theorem bindValues_of_reset (h : (reset.run m').state = (reset.run m).state.countedFrom base)
    (token : Token) :
    ((bindValues token).run m').answer = ((bindValues token).run m).answer ∧
      ((bindValues token).run m').state = ((bindValues token).run m).state.countedFrom base := by
  have hwalk : (walkFromRoot token).run ((reset.run m).state.countedFrom base) = _ :=
    ignores_walkFromRoot token (reset.run m).state
  have hanswer : ((bindPath token).run m').answer = ((bindPath token).run m).answer := by
    rw [run_bindPath, run_bindPath, h, hwalk]
  have hstate : ((bindPath token).run m').state =
      ((bindPath token).run m).state.countedFrom base := by
    rw [run_bindPath, run_bindPath, h, hwalk]
  refine ⟨by rw [bindValues_answer, bindValues_answer, hanswer], ?_⟩
  rw [bindValues_state, bindValues_state, hanswer, hstate]
  cases ((bindPath token).run m).answer with
  | ok done => rfl
  | error halt =>
      cases halt with
      | failed error =>
          have hreset : (reset.run (((bindPath token).run m).state.countedFrom base)).state =
              (reset.run ((bindPath token).run m).state).state.countedFrom base :=
            congrArg Outcome.state (ignores_reset _)
          simp only [hreset]
          exact (apply_ite _ _ _ _).symm
      | _ => rfl

theorem issued_lt_bindValues (h : Built tree m) (token : Token) (hlt : id < m.tree.size) :
    (m.tree.slot id).store.issued <
      (((bindValues token).run m).state.tree.slot id).store.issued := by
  have hreset : Built tree (reset.run m).state := built_preserved.reset m h
  have hpath : Built tree ((bindPath token).run m).state :=
    built_preserved.bindPath trivial token m h
  have hwalk : ((bindPath token).run m).state =
      ((walkFromRoot token).run (reset.run m).state).state := by
    rw [run_bindPath]
  have hsize : ((walkFromRoot token).run (reset.run m).state).state.tree.size =
      (reset.run m).state.tree.size := by
    rw [← hwalk, hpath.size_eq, hreset.size_eq]
  have hagain := issued_le_of_ignores (fun _ => ignores_reset)
    ((built_preserved.reset _ hpath).size_eq.trans hpath.size_eq.symm) id
  calc (m.tree.slot id).store.issued
    _ < ((reset.run m).state.tree.slot id).store.issued := by
        rw [show (reset.run m).state.tree.slot id = _ from Tree.slot_reset hlt]
        exact Nat.lt_succ_self _
    _ ≤ (((bindPath token).run m).state.tree.slot id).store.issued :=
        hwalk ▸ issued_le_of_ignores (fun _ => ignores_walkFromRoot token) hsize id
    _ ≤ (((bindValues token).run m).state.tree.slot id).store.issued := by
        rw [bindValues_state]
        split
        · split
          · exact hagain
          · exact Nat.le_refl _
        · exact Nat.le_refl _

theorem flag_preserved : Preserved (fun _ => True) (·.resetOnBindFailure = flag) := by
  refine ⟨fun hplace h => hplace.flag_eq.trans h, fun _ m h => ?_, fun m h => ?_, fun _ h => h⟩
  · rw [advance_state]
    cases m.successor _ <;> exact h
  · rw [rewind_state]
    cases m.tree.parent? m.current <;> exact h

theorem flag_after (m : Machine) (commands : List Command) :
    (m.after commands).resetOnBindFailure = m.resetOnBindFailure :=
  flag_preserved.after (fun _ => trivial) (fun _ _ _ h => h) rfl commands

/-- A restoration that fails on a machine that is set to be reset then ends with that reset. -/
theorem startsOver_bindValues_failed (h : Built (Tree.ofTemplate template) m)
    (hflag : m.resetOnBindFailure = true) {error : MachineError}
    (hfailed : ((bindValues token).run m).answer = .error (.failed error))
    (hearlier : ∀ id ticket, earlier id ticket →
      id < m.tree.size ∧ ticket.generation ≤ (m.tree.slot id).store.issued) :
    StartsOver template true earlier ((bindValues token).run m).state := by
  have hbuilt : Built (Tree.ofTemplate template) ((bindPath token).run m).state :=
    built_preserved.bindPath trivial token m h
  have hkept : ((bindPath token).run m).state.resetOnBindFailure = true :=
    flag_preserved.bindPath trivial token m hflag
  have hstate : ((bindValues token).run m).state =
      (reset.run ((bindPath token).run m).state).state := by
    rw [bindValues_answer] at hfailed
    rw [bindValues_state, hfailed]
    simp only [hkept, if_true]
  have hsize := hbuilt.size_eq.trans h.size_eq.symm
  rw [hstate, ← hkept]
  refine startsOver_reset hbuilt fun id ticket hticket => ?_
  obtain ⟨hlt, hle⟩ := hearlier id ticket hticket
  have hgrown := issued_le_of_ignores (fun _ => ignores_bindPath token) hsize id
  exact ⟨hsize ▸ hlt, Nat.le_trans hle hgrown⟩

/-- After a reset a machine is a new one, whatever was done with it before, and so it is after
a restoration that failed, if it is set to be reset then.  What a restoration answers, and the
machine that it leaves, are as on a new machine. -/
theorem reset_startsOver (template : Template) (flag : Bool) (commands : List Command)
    (token : Token) :
    let start := new template flag
    let m := start.after commands
    let outcome := (bindValues token).run m
    StartsOver template flag (HandedOut start commands) (reset.run m).state ∧
      (∀ error, outcome.answer = .error (.failed error) → flag = true →
        StartsOver template flag (HandedOut start commands) outcome.state) ∧
      outcome.answer = ((bindValues token).run start).answer ∧
        ∃ base, Indistinguishable base (HandedOut start commands)
          ((bindValues token).run start).state outcome.state := by
  intro start m outcome
  have hstart : Built (Tree.ofTemplate template) start := built_new template flag
  have hbuilt : Built (Tree.ofTemplate template) m := hstart.after commands
  have hflag : m.resetOnBindFailure = flag := flag_after start commands
  have hearlier : ∀ id ticket, HandedOut start commands id ticket →
      id < m.tree.size ∧ ticket.generation ≤ (m.tree.slot id).store.issued := by
    intro id ticket hticket
    refine ⟨?_, hticket.generation_le hstart⟩
    rw [hbuilt.size_eq, ← hstart.size_eq]
    exact hticket.1
  refine ⟨hflag ▸ startsOver_reset hbuilt hearlier, ?_, ?_⟩
  · rintro error hfailed rfl
    exact startsOver_bindValues_failed hbuilt hflag hfailed hearlier
  · have hreset := reset_state_eq_new hbuilt
    rw [hflag] at hreset
    obtain ⟨hanswer, hstate⟩ := bindValues_of_reset hreset token
    have hbase : ∀ id, (Tree.ofTemplate template).size ≤ id →
        (m.tree.slot id).store.issued = 0 := by
      intro id hid
      rw [Tree.slot_of_ge (hbuilt.size_eq ▸ hid)]
      rfl
    refine ⟨hanswer, fun id => (m.tree.slot id).store.issued, ?_⟩
    rw [show outcome.state = _ from hstate]
    refine indistinguishable_countedFrom (built_preserved.bindValues trivial token start hstart)
      hbase fun id ticket hticket => ?_
    obtain ⟨hlt, hle⟩ := hearlier id ticket hticket
    rw [← hstate]
    exact Nat.lt_of_le_of_lt hle (issued_lt_bindValues hbuilt token hlt)

/-- A word was entered, a request is in flight, and a restoration fails for want of a step. -/
theorem reset_startsOver_wordTemplate :
    let start := new wordTemplate true
    let commands : List Command :=
      [.store 0 (.issue "a"), .edit (.setRaw (.str "ant")), .transition]
    let token : Token := [("bees", .str "bee")]
    let outcome := (bindValues token).run (start.after commands)
    let late : Command := .store 0 (.complete ⟨1, "a"⟩ [.ofKey (.str "ant")])
    (∃ error, outcome.answer = .error (.failed error)) ∧
      HandedOut start commands 0 ⟨1, "a"⟩ ∧
        outcome.state.current = 0 ∧ (outcome.state.tree.slot 0).value = none ∧
          (perform late).run (outcome.state.after [.transition]) =
            ⟨.ok (.refresh (.ended (.ok .stale))), outcome.state.after [.transition], []⟩ := by
  intro start commands token outcome late
  have hfailed : ∃ error, outcome.answer = .error (.failed error) := ⟨_, rfl⟩
  have hticket : HandedOut start commands 0 ⟨1, "a"⟩ :=
    ⟨by decide, [], .issue "a", _, _, rfl, rfl, rfl⟩
  obtain ⟨error, herror⟩ := hfailed
  obtain ⟨-, hover, -⟩ := reset_startsOver wordTemplate true commands token
  have hstarts := hover error herror rfl
  obtain ⟨base, hsame⟩ := hstarts.asNew
  exact ⟨⟨error, herror⟩, hticket, hstarts.current_eq, (hstarts.atStart 0).value_eq,
    hsame.dropped [.transition] rfl hticket⟩

end Machine

end TokenGrammar
