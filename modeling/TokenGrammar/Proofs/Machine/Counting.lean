import TokenGrammar.Proofs.Slot.Counting

/-!
# Machines do not look at the counts of requests

Two machines that differ only in the numbers from which their stores count do the same.
Tickets are the only thing by which a caller could tell them apart, and a ticket of the one
machine does on it what the ticket of the same request does on the other.
-/

namespace TokenGrammar

/-! ## Trees -/

namespace Tree

/-- The tree with a number of requests counted before those of each step. -/
def countedFrom (base : Nat → Nat) (tree : Tree) : Tree :=
  ⟨tree.slots.mapIdx fun id slot => slot.countedFrom (base id)⟩

/-- The number that is counted before the requests of a step; nothing is counted for an id
that is none of the tree. -/
def countBefore (tree : Tree) (base : Nat → Nat) (id : Nat) : Nat :=
  if id < tree.size then base id else 0

variable {tree : Tree} {base : Nat → Nat} {id : Nat}

theorem countBefore_of_lt (h : id < tree.size) : tree.countBefore base id = base id := if_pos h

theorem countBefore_of_ge (h : tree.size ≤ id) : tree.countBefore base id = 0 :=
  if_neg (Nat.not_lt.2 h)

@[simp] theorem size_countedFrom : (tree.countedFrom base).size = tree.size := by
  simp [countedFrom, size]

theorem slot_countedFrom (tree : Tree) (base : Nat → Nat) (id : Nat) :
    (tree.countedFrom base).slot id = (tree.slot id).countedFrom (tree.countBefore base id) := by
  rcases Nat.lt_or_ge id tree.size with hlt | hge
  · have hget : tree.slots[id]? = some tree.slots[id] := List.getElem?_eq_getElem hlt
    rw [countBefore_of_lt hlt]
    simp [slot, get?, countedFrom, hget]
  · rw [countBefore_of_ge hge, slot_of_ge hge, slot_of_ge (by simpa using hge),
      Slot.countedFrom_zero]

theorem map_slots_countedFrom {α : Type} {view : Slot → α}
    (h : ∀ n slot, view (slot.countedFrom n) = view slot) (tree : Tree) (base : Nat → Nat) :
    (tree.countedFrom base).slots.map view = tree.slots.map view := by
  refine List.ext_getElem? fun id => ?_
  simp only [countedFrom, List.getElem?_map, List.getElem?_mapIdx, Option.map_map]
  cases tree.slots[id]? with
  | none => rfl
  | some slot => exact congrArg some (h (base id) slot)

theorem nodes_countedFrom (tree : Tree) (base : Nat → Nat) :
    (tree.countedFrom base).nodes = tree.nodes :=
  map_slots_countedFrom (fun _ _ => rfl) tree base

theorem set_countedFrom (tree : Tree) (base : Nat → Nat) (id : Nat) (slot : Slot) :
    (tree.countedFrom base).set id (slot.countedFrom (tree.countBefore base id)) =
      (tree.set id slot).countedFrom base := by
  rcases Nat.lt_or_ge id tree.size with hlt | hge
  · simp only [countBefore_of_lt hlt, set, countedFrom, List.mapIdx_set]
  · have hlength : tree.slots.length ≤ id := hge
    simp only [set, countedFrom, List.set_eq_of_length_le hlength,
      List.set_eq_of_length_le (List.length_mapIdx.trans_le hlength)]

theorem parent?_countedFrom : (tree.countedFrom base).parent? id = tree.parent? id :=
  parent?_congr (nodes_countedFrom tree base) id

theorem pathTo_countedFrom : (tree.countedFrom base).pathTo id = tree.pathTo id :=
  pathTo_congr (nodes_countedFrom tree base) id

theorem contextFor_countedFrom : (tree.countedFrom base).contextFor id = tree.contextFor id := by
  simp only [contextFor, pathTo_countedFrom, slot_countedFrom]
  rfl

theorem firstChild?_countedFrom (ignoreBindOnly : Bool) :
    (tree.countedFrom base).firstChild? id ignoreBindOnly =
      tree.firstChild? id ignoreBindOnly := by
  simp only [firstChild?, canEnter, parent?_countedFrom, slot_countedFrom]
  rfl

theorem reset_countedFrom (tree : Tree) (base : Nat → Nat) :
    (tree.countedFrom base).reset =
      ⟨(), tree.reset.state.countedFrom base, tree.reset.events⟩ := by
  have hstate : (tree.countedFrom base).reset.state = tree.reset.state.countedFrom base := by
    simp only [reset, countedFrom, mk.injEq]
    refine List.ext_getElem? fun id => ?_
    simp only [List.getElem?_map, List.getElem?_mapIdx, Option.map_map]
    rfl
  have hevents : (tree.countedFrom base).reset.events = tree.reset.events := by
    simp only [reset, List.flatMap_def]
    rw [map_slots_countedFrom fun _ _ => rfl]
  rw [← hstate, ← hevents]

end Tree

namespace Machine

open Operation

/-- The machine with a number of requests counted before those of each step. -/
def countedFrom (base : Nat → Nat) (m : Machine) : Machine :=
  { m with tree := m.tree.countedFrom base }

variable {m : Machine} {base : Nat → Nat} {α η : Type}

/-! ## What is seen of a machine -/

theorem currentSlot_countedFrom (m : Machine) (base : Nat → Nat) :
    (m.countedFrom base).currentSlot =
      m.currentSlot.countedFrom (m.tree.countBefore base m.current) :=
  m.tree.slot_countedFrom base m.current

theorem isTerminal_countedFrom : (m.countedFrom base).isTerminal = m.isTerminal := by
  rw [isTerminal, currentSlot_countedFrom]
  rfl

theorem collect_countedFrom {project : Slot → Choice → Json}
    (h : ∀ n slot, project (slot.countedFrom n) = project slot) :
    (m.countedFrom base).collect project = m.collect project := by
  have hentry (n : Nat) (slot : Slot) :
      entryOf project (slot.countedFrom n) = entryOf project slot := by
    simp only [entryOf, h]
    rfl
  have hpath : (m.countedFrom base).tree.pathTo (m.countedFrom base).current =
      m.tree.pathTo m.current := Tree.pathTo_countedFrom
  simp only [collect, hpath]
  refine List.foldl_ext _ _ _ fun token id _ => ?_
  rw [show (m.countedFrom base).tree.slot id = _ from m.tree.slot_countedFrom base id, hentry]
  rfl

theorem boxedToken_countedFrom : (m.countedFrom base).boxedToken = m.boxedToken :=
  collect_countedFrom fun _ _ => rfl

theorem rawToken_countedFrom : (m.countedFrom base).rawToken = m.rawToken :=
  collect_countedFrom fun _ _ => rfl

theorem successor_countedFrom (ignoreBindOnly : Bool) :
    (m.countedFrom base).successor ignoreBindOnly = m.successor ignoreBindOnly := by
  have hfirst : (m.countedFrom base).tree.firstChild? (m.countedFrom base).current ignoreBindOnly =
      m.tree.firstChild? m.current ignoreBindOnly := Tree.firstChild?_countedFrom ignoreBindOnly
  simp only [successor, currentSlot_countedFrom, hfirst]
  rfl

/-! ## Operations on the active slot -/

theorem withSlot_countedFrom (m : Machine) (base : Nat → Nat) (answer : α) (slot : Slot)
    (events : List SlotEvent) :
    (m.countedFrom base).withSlot
        ⟨answer, slot.countedFrom (m.tree.countBefore base m.current), events⟩ =
      ⟨answer, (m.withSlot ⟨answer, slot, events⟩).state.countedFrom base,
        (m.withSlot ⟨answer, slot, events⟩).events⟩ := by
  have htree : (m.countedFrom base).tree.set (m.countedFrom base).current
      (slot.countedFrom (m.tree.countBefore base m.current)) =
        (m.tree.set m.current slot).countedFrom base := m.tree.set_countedFrom base m.current slot
  simp only [withSlot, htree]
  rfl

theorem ignores_carry {act : Slot → Outcome Slot SlotEvent (Except η α)}
    {lift : η → Halt MachineError} (h : ∀ n, Ignores (Slot.countedFrom n) act) :
    Ignores (countedFrom base) (carry act lift).run := by
  intro m
  unfold Operation.run carry
  rw [currentSlot_countedFrom, h, withSlot_countedFrom]
  rfl

theorem ignores_runSlot {act : Slot.Op α} (h : ∀ n, Ignores (Slot.countedFrom n) act.run) :
    Ignores (countedFrom base) (runSlot act).run :=
  ignores_carry h

theorem ignores_enter (raw : Json) : Ignores (countedFrom base) (enter raw).run :=
  ignores_runSlot fun _ => Slot.ignores_enter raw

theorem ignores_announce {event : Machine → MachineEvent}
    (h : ∀ m, event (m.countedFrom base) = event m) :
    Ignores (countedFrom base) (announce event).run :=
  ignores_emit fun m => congrArg Notice.machine (h m)

theorem ignores_activate (raw? : Option Json) :
    Ignores (countedFrom base) (activate raw?).run := by
  refine ignores_read_bind (fun m => ?_) fun context =>
    ignores_runSlot fun _ => Slot.ignores_activate context raw?
  rw [show (m.countedFrom base).tree.contextFor (m.countedFrom base).current = _ from
    Tree.contextFor_countedFrom]
  rfl

theorem ignores_archive : Ignores (countedFrom base) archive.run :=
  ignores_bind (ignores_carry fun _ => Slot.ignores_archiveValue) fun _ =>
    ignores_announce fun _ => rfl

theorem ignores_unarchive : Ignores (countedFrom base) unarchive.run :=
  ignores_bind (ignores_carry fun _ => Slot.ignores_unarchiveValue) fun _ =>
    ignores_announce fun _ => rfl

theorem ignores_removeArchived (index : Nat) :
    Ignores (countedFrom base) (removeArchived index).run :=
  ignores_bind (ignores_carry fun _ => Slot.ignores_removeArchived index) fun _ =>
    ignores_bind (ignores_announce fun _ => rfl) fun _ => ignores_pure _

theorem ignores_clearArchive : Ignores (countedFrom base) clearArchive.run := by
  intro m
  unfold Operation.run clearArchive
  rw [currentSlot_countedFrom, Slot.ignores_clearArchive, withSlot_countedFrom]
  rfl

/-! ## Moves -/

theorem ignores_moveTo (target : Nat) : Ignores (countedFrom base) (moveTo target).run :=
  fun _ => rfl

theorem ignores_announceEnd : Ignores (countedFrom base) announceEnd.run := by
  intro m
  simp only [Operation.run, announceEnd, isTerminal_countedFrom, rawToken_countedFrom]

theorem ignores_advance (ignoreBindOnly : Bool) :
    Ignores (countedFrom base) (advance ignoreBindOnly).run :=
  ignores_bind (ignores_ask fun _ => successor_countedFrom ignoreBindOnly) fun next =>
    ignores_bind (ignores_moveTo next) fun _ =>
      ignores_bind ignores_announceEnd fun _ => ignores_pure _

theorem ignores_rewind : Ignores (countedFrom base) rewind.run := by
  refine ignores_read_bind (fun m => ?_) fun parent? => ?_
  · rw [show (m.countedFrom base).tree.parent? (m.countedFrom base).current = _ from
      Tree.parent?_countedFrom]
    rfl
  · cases parent? with
    | none => exact ignores_pure _
    | some parent => exact ignores_bind (ignores_moveTo parent) fun _ => ignores_pure _

theorem ignores_reset : Ignores (countedFrom base) reset.run := by
  intro m
  have htree := m.tree.reset_countedFrom base
  unfold Operation.run reset
  rw [show (m.countedFrom base).tree.reset = _ from htree]
  rfl

/-! ## Restoring a token -/

theorem ignores_bindItems (vkey : String) (raw : Json) (items : List Json) :
    Ignores (countedFrom base) (bindItems vkey raw items).run := by
  induction items with
  | nil => exact ignores_pure _
  | cons item items ih =>
      refine ignores_bind (ignores_enter item) fun value? => ?_
      cases value? with
      | none => exact ignores_fail _
      | some value => exact ignores_bind ignores_archive fun _ => ih

theorem ignores_bindCurrent (vkey : String) (raw : Json) :
    Ignores (countedFrom base) (bindCurrent vkey raw).run := by
  refine ignores_read_bind (fun m => ?_) fun slot => ?_
  · rw [currentSlot_countedFrom]
    rfl
  · split
    · exact ignores_bind (ignores_activate none) fun _ => ignores_bindItems vkey raw _
    · refine ignores_bind (ignores_activate (some raw)) fun _ =>
        ignores_read_bind (fun m => ?_) fun value? => ?_
      · rw [currentSlot_countedFrom]
        rfl
      · split
        · exact ignores_fail _
        · exact ignores_pure _

theorem ignores_goOn {below : List String → Op (List String)}
    (h : ∀ pending, Ignores (countedFrom base) (below pending).run) (pending : List String) :
    Ignores (countedFrom base) (goOn below pending).run := by
  refine ignores_read_bind (fun m => ?_) fun terminal => ?_
  · rw [isTerminal_countedFrom]
  · split
    · exact ignores_pure _
    · exact ignores_bind (ignores_advance true) fun _ => h pending

theorem ignores_bindFrom (token : Token) (rounds : Nat) (pending : List String) :
    Ignores (countedFrom base) (bindFrom token rounds pending).run := by
  induction rounds generalizing pending with
  | zero => exact ignores_pure _
  | succ rounds ih =>
      rw [bindFrom]
      refine ignores_read_bind (fun m => ?_) fun slot => ?_
      · rw [currentSlot_countedFrom]
        rfl
      · split
        · exact ignores_bind (ignores_activate none) fun _ => ignores_goOn ih pending
        · split
          · exact ignores_bind (ignores_activate none) fun _ => ignores_pure _
          · exact ignores_bind (ignores_bindCurrent _ _) fun _ => ignores_goOn ih _

/-- The walk of a restoration, behind the reset that it begins with. -/
def walkFromRoot (token : Token) : Op Unit := do
  let rounds ← read fun m => m.tree.size
  let pending ← bindFrom token rounds (pendingKeys token)
  if !pending.isEmpty then
    fail (.unmatchedValues (pending.mergeSort fun a b => decide (a ≤ b)))

theorem bindPath_eq (token : Token) : bindPath token = reset >>= fun _ => walkFromRoot token := rfl

theorem ignores_walkFromRoot (token : Token) :
    Ignores (countedFrom base) (walkFromRoot token).run := by
  refine ignores_read_bind (fun m => ?_) fun rounds =>
    ignores_bind (ignores_bindFrom token rounds _) fun pending => ?_
  · rw [show (m.countedFrom base).tree.size = _ from Tree.size_countedFrom]
  · split
    · exact ignores_fail _
    · exact ignores_pure _

theorem ignores_bindPath (token : Token) : Ignores (countedFrom base) (bindPath token).run :=
  ignores_bind ignores_reset fun _ => ignores_walkFromRoot token

theorem ignores_bindValues (token : Token) :
    Ignores (countedFrom base) (bindValues token).run := by
  intro m
  unfold Operation.run bindValues
  rw [ignores_bindPath token m]
  cases (bindPath token).run m with
  | mk answer after events =>
      cases answer with
      | ok done => rfl
      | error halt =>
          cases halt with
          | failed error =>
              have hflag : (after.countedFrom base).resetOnBindFailure =
                  after.resetOnBindFailure := rfl
              simp only [hflag]
              cases after.resetOnBindFailure with
              | false => rfl
              | true =>
                  simp only [if_true]
                  rw [ignores_reset after]
          | waiting => rfl
          | fault fault => rfl

/-! ## Requests -/

theorem ignores_handle (request : Request) :
    Ignores (countedFrom base) (handle request).run := by
  cases request with
  | transition => exact ignores_bind (ignores_advance false) fun _ => ignores_pure _
  | archive => exact ignores_bind ignores_archive fun _ => ignores_pure _
  | unarchive => exact ignores_bind ignores_unarchive fun _ => ignores_pure _
  | removeArchived index =>
      exact ignores_bind (ignores_removeArchived index) fun _ => ignores_pure _
  | clearArchive => exact ignores_bind ignores_clearArchive fun _ => ignores_pure _
  | rewind =>
      refine ignores_bind ignores_rewind fun parent? => ?_
      cases parent? <;> exact ignores_pure _
  | signal signal => exact ignores_pure _

theorem ignores_handleAll (requests : List Request) :
    Ignores (countedFrom base) (handleAll requests).run := by
  induction requests with
  | nil => exact ignores_pure _
  | cons request requests ih =>
      exact ignores_bind (ignores_handle request) fun _ => ignores_bind ih fun _ => ignores_pure _

end Machine

end TokenGrammar
