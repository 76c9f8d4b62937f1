import TokenGrammar.Proofs.Machine.PathSound
import TokenGrammar.Proofs.Machine.Script

/-!
# The events of a machine trace its way through the tree

A listener that is registered on a new machine can follow where the machine stands: the moves
that it is told of hang together, start at the root and end at the active step, and each goes
along an edge of the tree or back to the root.  The end of the token is announced right behind
a move to a step that none follows, with the token as it is then, and at no other time.  One
action is at most one move, so that all of this is shown for actions and carried over to runs
by the scripts that they are.
-/

namespace TokenGrammar

/-- The event, if it is one of the machine. -/
def Notice.announcement? : Notice → Option MachineEvent
  | .machine event => some event
  | .slot _ _ => none

/-- What the machine announces, without the events of its slots. -/
def announcements (notices : List Notice) : List MachineEvent :=
  notices.filterMap Notice.announcement?

theorem announcements_append (notices later : List Notice) :
    announcements (notices ++ later) = announcements notices ++ announcements later :=
  List.filterMap_append

theorem announcements_machine (events : List MachineEvent) :
    announcements (events.map .machine) = events := by
  rw [announcements, List.filterMap_map]
  exact List.filterMap_some

theorem announcements_slot {notices : List Notice}
    (h : ∀ notice ∈ notices, ∃ id event, notice = .slot id event) : announcements notices = [] := by
  refine List.filterMap_eq_nil_iff.2 fun notice hmem => ?_
  obtain ⟨id, event, rfl⟩ := h notice hmem
  rfl

/-- The event tells of the way through the tree: a move, or the end of the token. -/
def MachineEvent.isPassage : MachineEvent → Bool
  | .moved _ _ | .tokenEnded _ => true
  | _ => false

/-- A move leads to a child, to the parent or to the root, and never stays where it is. -/
structure Tree.Move (tree : Tree) (source target : Nat) : Prop where
  ne : source ≠ target
  way : target ∈ tree.childrenOf source ∨ tree.parent? source = some target ∨
    target = Tree.root

namespace Machine

open Operation

/-- All that is announced in a script, each event with the machine as it is by then: an action
first changes the machine and then announces what it did. -/
def moments (m : Machine) : List Action → List (MachineEvent × Machine)
  | [] => []
  | action :: script =>
    (announcements (m.act action).events).map (·, (m.act action).state) ++
      (m.act action).state.moments script

/-- A way through the tree as it is announced.  A move to a step that others follow stands
alone; a move to a step that none follows has the end of the token right behind it. -/
inductive Traversal (tree : Tree) : Nat → List (MachineEvent × Machine) → Nat → Prop where
  | done {id : Nat} : Traversal tree id [] id
  | aside {source target : Nat} {event : MachineEvent} {moment : Machine}
      {later : List (MachineEvent × Machine)} (hevent : event.isPassage = false)
      (rest : Traversal tree source later target) :
      Traversal tree source ((event, moment) :: later) target
  | pass {source mid target : Nat} {moment : Machine} {later : List (MachineEvent × Machine)}
      (move : tree.Move source mid) (hcurrent : moment.current = mid)
      (hinner : tree.childrenOf mid ≠ []) (rest : Traversal tree mid later target) :
      Traversal tree source ((.moved source mid, moment) :: later) target
  | finish {source mid target : Nat} {moment : Machine} {later : List (MachineEvent × Machine)}
      (move : tree.Move source mid) (hcurrent : moment.current = mid)
      (hleaf : tree.childrenOf mid = []) (rest : Traversal tree mid later target) :
      Traversal tree source
        ((.moved source mid, moment) :: (.tokenEnded moment.rawToken, moment) :: later) target

namespace Traversal

variable {tree : Tree} {source mid target : Nat} {moments later : List (MachineEvent × Machine)}

theorem append (h : Traversal tree source moments mid) (h' : Traversal tree mid later target) :
    Traversal tree source (moments ++ later) target := by
  induction h with
  | done => exact h'
  | aside hevent _ ih => exact .aside hevent (ih h')
  | pass move hcurrent hinner _ ih => exact .pass move hcurrent hinner (ih h')
  | finish move hcurrent hleaf _ ih => exact .finish move hcurrent hleaf (ih h')

theorem of_asides {events : List MachineEvent} (moment : Machine)
    (h : ∀ event ∈ events, event.isPassage = false) :
    Traversal tree source (events.map (·, moment)) source := by
  induction events with
  | nil => exact .done
  | cons event events ih =>
      exact .aside (h event List.mem_cons_self) (ih fun other hmem =>
        h other (List.mem_cons_of_mem _ hmem))

end Traversal

/-! ## Actions that stay where they are -/

/-- The machine stays where it is in the same tree, and announces no passage. -/
structure Stays (m : Machine) (notices : List Notice) (m' : Machine) : Prop where
  current_eq : m'.current = m.current
  nodes_eq : m'.tree.nodes = m.tree.nodes
  aside : ∀ event ∈ announcements notices, event.isPassage = false

section Stays

variable {α η : Type}

theorem record_stays : Record Stays where
  nothing := ⟨rfl, rfl, by simp [announcements]⟩
  append := by
    intro m mid m' notices later h h'
    refine ⟨h'.current_eq.trans h.current_eq, h'.nodes_eq.trans h.nodes_eq, ?_⟩
    intro event hmem
    rw [announcements_append] at hmem
    rcases List.mem_append.1 hmem with hmem | hmem
    · exact h.aside event hmem
    · exact h'.aside event hmem

theorem stays_withSlot (m : Machine) {outcome : Outcome Slot SlotEvent α}
    (h : Slot.SameStep m.currentSlot outcome.state) :
    Stays m (m.withSlot outcome).events (m.withSlot outcome).state := by
  refine ⟨rfl, (withSlot_inPlace m h).nodes_eq, ?_⟩
  have hnone : announcements (m.withSlot outcome).events = [] :=
    announcements_slot fun notice hmem => by
      obtain ⟨event, -, rfl⟩ := List.mem_map.1 hmem
      exact ⟨m.current, event, rfl⟩
  simp [hnone]

theorem stays_carry {act : Slot → Outcome Slot SlotEvent (Except η α)}
    {lift : η → Halt MachineError} (h : ∀ s, Slot.SameStep s (act s).state) :
    Records Stays (carry act lift) :=
  fun m => stays_withSlot m (h m.currentSlot)

theorem stays_announce {event : Machine → MachineEvent} (h : ∀ m, (event m).isPassage = false) :
    Records Stays (announce event) := by
  refine fun m => ⟨rfl, rfl, ?_⟩
  intro other hmem
  obtain rfl : other = event m := List.mem_singleton.1 hmem
  exact h m

theorem stays_edit (edit : Edit) : Records Stays (runSlot (Slot.perform edit)) :=
  stays_carry fun s => Slot.keeps_perform edit s (.refl s)

theorem stays_archive : Records Stays archive :=
  records_bind record_stays (stays_carry fun s => s.sameOffer_archiveValue.sameStep) fun _ =>
    stays_announce fun _ => rfl

theorem stays_unarchive : Records Stays unarchive :=
  records_bind record_stays (stays_carry fun s => s.sameOffer_unarchiveValue.sameStep) fun _ =>
    stays_announce fun _ => rfl

theorem stays_removeArchived (index : Nat) : Records Stays (removeArchived index) :=
  records_bind record_stays (stays_carry fun s => (s.sameOffer_removeArchived index).sameStep)
    fun _ => records_bind record_stays (stays_announce fun _ => rfl)
      fun _ => records_pure record_stays _

theorem stays_clearArchive : Records Stays clearArchive := by
  intro m
  have hslot := stays_withSlot m m.currentSlot.sameOffer_clearArchive.sameStep
  refine record_stays.append hslot ⟨rfl, rfl, ?_⟩
  cases (m.withSlot m.currentSlot.clearArchive).answer.isEmpty <;>
    simp [announcements, Notice.announcement?, MachineEvent.isPassage]

theorem stays_withStore (m : Machine) (id : Nat) (store : OptionStore) :
    Stays m [] (m.withStore id store) :=
  ⟨rfl, nodes_withStore m id store, by simp [announcements]⟩

end Stays

/-! ## One action -/

/-- The machine stands on a step of the tree. -/
structure Placed (tree : Tree) (m : Machine) : Prop where
  nodes_eq : m.tree.nodes = tree.nodes
  current_lt : m.current < tree.size

/-- The machine goes on through the tree and announces it. -/
structure Passes (tree : Tree) (m : Machine) (notices : List Notice) (m' : Machine) : Prop where
  placed : Placed tree m'
  traversal : Traversal tree m.current ((announcements notices).map (·, m')) m'.current

section Acts

variable {tree : Tree} {m m' : Machine} {notices : List Notice} {target : Nat}

theorem Stays.passes (h : Stays m notices m') (hm : Placed tree m) : Passes tree m notices m' where
  placed := ⟨h.nodes_eq.trans hm.nodes_eq, h.current_eq ▸ hm.current_lt⟩
  traversal := by
    rw [h.current_eq]
    exact Traversal.of_asides m' h.aside

theorem traversal_moved (move : tree.Move m.current target) (hcurrent : m'.current = target)
    (hnodes : m'.tree.nodes = tree.nodes) :
    Traversal tree m.current ((.moved m.current target :: m'.ending).map (·, m')) target := by
  have hchildren : m'.currentSlot.node.children = tree.childrenOf target := by
    rw [← hcurrent, ← Tree.childrenOf_congr hnodes]
    rfl
  have hterminal : m'.isTerminal = (tree.childrenOf target).isEmpty :=
    congrArg List.isEmpty hchildren
  unfold ending
  rw [hterminal]
  cases hbelow : tree.childrenOf target with
  | nil => exact .finish move hcurrent hbelow .done
  | cons child children => exact .pass move hcurrent (by simp [hbelow]) .done

/-- A step that has others below it is no end. -/
theorem traversal_moved_inner (move : tree.Move m.current target) (hcurrent : m'.current = target)
    (hinner : tree.childrenOf target ≠ []) :
    Traversal tree m.current [(.moved m.current target, m')] target :=
  .pass move hcurrent hinner .done

variable (hwired : Wired tree.nodes)

include hwired

theorem passes_advance (hm : Placed tree m) (ignoreBindOnly : Bool) :
    Passes tree m ((advance ignoreBindOnly).run m).events
      ((advance ignoreBindOnly).run m).state := by
  cases hnext : m.successor ignoreBindOnly with
  | error error =>
      rw [run_advance_of_error hnext]
      exact ⟨hm, .done⟩
  | ok next =>
      have hleads := (successor_eq_ok_iff m ignoreBindOnly next).1 hnext
      have hchild : next ∈ tree.childrenOf m.current := by
        rw [← Tree.childrenOf_congr hm.nodes_eq]
        exact List.mem_of_find?_eq_some hleads.2
      have hparent := Tree.parent?_of_mem_children hwired hchild
      have hlt := Tree.parent_lt hwired hparent
      rw [run_advance_of_ok hnext]
      refine ⟨⟨hm.nodes_eq, (Tree.lt_size_of_parent? hwired hparent).1⟩, ?_⟩
      rw [announcements_machine]
      exact traversal_moved ⟨Nat.ne_of_lt hlt, .inl hchild⟩ rfl hm.nodes_eq

theorem passes_rewind (hm : Placed tree m) :
    Passes tree m (rewind.run m).events (rewind.run m).state := by
  cases hparent : m.tree.parent? m.current with
  | none =>
      rw [run_rewind_of_none hparent]
      exact ⟨hm, .done⟩
  | some parent =>
      have habove : tree.parent? m.current = some parent := by
        rwa [← Tree.parent?_congr hm.nodes_eq]
      have hlt := Tree.parent_lt hwired habove
      have hchild := Tree.mem_childrenOf_of_parent? hwired habove
      rw [run_rewind_of_some hparent]
      refine ⟨⟨hm.nodes_eq, (Tree.lt_size_of_parent? hwired habove).2⟩, ?_⟩
      exact traversal_moved_inner ⟨Nat.ne_of_gt hlt, .inr (.inl habove)⟩ rfl
        (List.ne_nil_of_mem hchild)

theorem passes_reset (hm : Placed tree m) :
    Passes tree m (reset.run m).events (reset.run m).state := by
  have hevents : announcements (reset.run m).events =
      if m.current = Tree.root then [] else [.moved m.current Tree.root] := by
    have hslots : announcements
        (m.tree.reset.events.map fun entry => .slot entry.1 entry.2) = [] :=
      announcements_slot fun notice hmem => by
        obtain ⟨⟨id, event⟩, -, rfl⟩ := List.mem_map.1 hmem
        exact ⟨id, event, rfl⟩
    change announcements (m.tree.reset.events.map (fun entry => Notice.slot entry.1 entry.2) ++
      if m.current = Tree.root then [] else [.machine (.moved m.current Tree.root)]) = _
    rw [announcements_append, hslots]
    split <;> rfl
  have hplaced : Placed tree (reset.run m).state :=
    ⟨(Tree.nodes_reset m.tree).trans hm.nodes_eq, Nat.zero_lt_of_lt hm.current_lt⟩
  have hroot : (reset.run m).state.current = Tree.root := rfl
  refine ⟨hplaced, ?_⟩
  rw [hevents, hroot]
  split
  next hcurrent =>
    rw [hcurrent]
    exact .done
  next hcurrent =>
    exact traversal_moved_inner ⟨hcurrent, .inr (.inr rfl)⟩ hroot
      (Tree.childrenOf_root_ne_nil hwired hm.current_lt hcurrent)

theorem passes_act (hm : Placed tree m) (action : Action) :
    Passes tree m (m.act action).events (m.act action).state := by
  cases action with
  | edit edit => exact (stays_edit edit m).passes hm
  | archive => exact (stays_archive m).passes hm
  | unarchive => exact (stays_unarchive m).passes hm
  | removeArchived index => exact (stays_removeArchived index m).passes hm
  | clearArchive => exact (stays_clearArchive m).passes hm
  | advance ignoreBindOnly => exact passes_advance hwired hm ignoreBindOnly
  | rewind => exact passes_rewind hwired hm
  | reset => exact passes_reset hwired hm
  | store id use => exact (stays_withStore m id _).passes hm
  | provider id fetch => exact (stays_withStore m id _).passes hm

/-! ## Scripts and runs -/

theorem traversal_follow (hm : Placed tree m) (script : List Action) :
    Traversal tree m.current (m.moments script) (m.follow script).state.current := by
  induction script generalizing m with
  | nil => exact .done
  | cons action script ih =>
      have hact := passes_act hwired hm action
      exact hact.traversal.append (ih hact.placed)

theorem placed_follow (hm : Placed tree m) (script : List Action) :
    Placed tree (m.follow script).state := by
  induction script generalizing m with
  | nil => exact hm
  | cons action script ih => exact ih (passes_act hwired hm action).placed

end Acts

theorem announcements_follow (m : Machine) (script : List Action) :
    (m.moments script).map Prod.fst = announcements (m.follow script).events := by
  induction script generalizing m with
  | nil => rfl
  | cons action script ih =>
      rw [follow, announcements_append, moments, List.map_append, ih, List.map_map]
      congr 1
      exact List.map_id _

theorem placed_new (template : Template) (flag : Bool) :
    Placed (Tree.ofTemplate template) (new template flag) :=
  ⟨rfl, Tree.size_ofTemplate_pos template⟩

/-- A machine never leaves the tree that it was made for. -/
theorem placed_play (template : Template) (flag : Bool) (turns : List Turn) :
    Placed (Tree.ofTemplate template) ((new template flag).play turns) := by
  obtain ⟨script, hscript⟩ := scripted_play (new template flag) turns
  have hplaced := placed_follow (Tree.wired_ofTemplate template) (placed_new template flag) script
  rwa [hscript] at hplaced

/-- What a new machine announces in a run is a way through the tree of its template, from the
root to the step that is active in the end.  A run consists of single actions, and however it
is taken apart into them, each move and each end of a token is announced with the machine
standing where the move leads, and the token is the one of that moment. -/
theorem play_traverses (template : Template) (flag : Bool) (turns : List Turn) :
    let start := new template flag
    let m := start.play turns
    (∃ script, start.follow script = ⟨(), m, start.notices turns⟩) ∧
      ∀ script, start.follow script = ⟨(), m, start.notices turns⟩ →
        (start.moments script).map Prod.fst = announcements (start.notices turns) ∧
          Traversal (Tree.ofTemplate template) Tree.root (start.moments script) m.current := by
  intro start m
  refine ⟨scripted_play start turns, fun script hscript => ?_⟩
  have hevents := announcements_follow start script
  have hway := traversal_follow (Tree.wired_ofTemplate template) (placed_new template flag) script
  rw [hscript] at hevents
  refine ⟨hevents, ?_⟩
  rw [show (start.follow script).state = m from congrArg Outcome.state hscript] at hway
  exact hway

theorem play_traverses_wordTemplate :
    let start := new wordTemplate false
    let turns : List Turn := [.call (.edit (.setRaw (.str "ant"))), .call .transition]
    let script : List Action := [.edit (.setRaw (.str "ant")), .advance false]
    start.follow script = ⟨(), start.play turns, start.notices turns⟩ ∧
      announcements (start.notices turns) =
        [.moved 0 1, .tokenEnded [("word", .str "ant")]] ∧
      Traversal (Tree.ofTemplate wordTemplate) Tree.root (start.moments script) 1 := by
  intro start turns script
  have hfollow : start.follow script = ⟨(), start.play turns, start.notices turns⟩ := rfl
  exact ⟨hfollow, rfl, ((play_traverses wordTemplate false turns).2 script hfollow).2⟩

end Machine

end TokenGrammar
