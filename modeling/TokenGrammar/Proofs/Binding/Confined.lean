import TokenGrammar.Proofs.Binding.Restore
import TokenGrammar.Proofs.Binding.Rounds
import TokenGrammar.Proofs.Machine.Reset
import TokenGrammar.Proofs.Tree.Arena
import TokenGrammar.Proofs.Tree.Levels

/-!
# A restoration stays on its path

The steps that a restoration works on are those of the path to the step that it ends on.  It
leaves the steps before that one ready and all others as the reset at its beginning left them,
however it ends.
-/

namespace TokenGrammar.Machine

open Operation

/-- The machine is as a new one outside the path to the active step, the counts of requests aside,
and every step before the active one is ready. -/
structure Confined (tree : Tree) (m : Machine) : Prop where
  nodes_eq : m.tree.nodes = tree.nodes
  wired : Wired m.tree.nodes
  current_lt : m.current < m.tree.size
  untouched : ∀ id, id ∉ m.tree.pathTo m.current →
    ∃ n, m.tree.slot id = (tree.slot id).countedFrom n
  ready : ∀ id ∈ (m.tree.pathTo m.current).dropLast, (m.tree.slot id).initialized = true

variable {tree : Tree} {template : Template} {m m' mid : Machine} {token : Token}
  {pending : List String} {ids : List Nat}
  {walked : Outcome Machine Notice (Except (Halt MachineError) (List String))}

/-! ## Single steps -/

namespace Confined

theorem inPlace (h : Confined tree m) (hplace : InPlace m m') : Confined tree m' := by
  refine ⟨hplace.nodes_eq.trans h.nodes_eq, hplace.nodes_eq ▸ h.wired, ?_, fun id hid => ?_,
    fun id hid => ?_⟩
  · rw [hplace.current_eq, hplace.size_eq]
    exact h.current_lt
  · rw [hplace.pathTo_eq] at hid
    have hne : id ≠ m.current := by
      rintro rfl
      exact hid (List.mem_of_getLast? (Tree.getLast?_pathTo h.wired _))
    rw [hplace.slot_eq hne]
    exact h.untouched id hid
  · rw [hplace.pathTo_eq] at hid
    have hlt : id < m.current := Tree.lt_of_mem_dropLast_pathTo h.wired hid
    rw [hplace.slot_eq (Nat.ne_of_lt hlt)]
    exact h.ready id hid

theorem down (h : Confined tree m) (hready : m.currentSlot.initialized = true) {next : Nat}
    (hparent : m.tree.parent? next = some m.current) :
    Confined tree { m with current := next } := by
  have hpath : m.tree.pathTo next = m.tree.pathTo m.current ++ [next] :=
    Tree.pathTo_of_parent? h.wired hparent
  refine ⟨h.nodes_eq, h.wired, (Tree.lt_size_of_parent? h.wired hparent).1,
    fun id hid => h.untouched id fun hmem => hid ?_, fun id hid => ?_⟩
  · change id ∈ m.tree.pathTo next
    rw [hpath]
    exact List.mem_append_left _ hmem
  · change id ∈ (m.tree.pathTo next).dropLast at hid
    rw [hpath, List.dropLast_concat, Tree.pathTo_eq_concat h.wired] at hid
    rcases List.mem_append.1 hid with hid | hid
    · exact h.ready id hid
    · obtain rfl := List.mem_singleton.1 hid
      exact hready

end Confined

/-- A reset touches every step, and leaves all of them as new. -/
theorem confined_reset (h : Built (Tree.ofTemplate template) m) :
    Confined (Tree.ofTemplate template) (reset.run m).state := by
  have hnodes : m.tree.reset.state.nodes = (Tree.ofTemplate template).nodes :=
    (Tree.nodes_reset m.tree).trans h.nodes_eq
  have hwired : Wired m.tree.reset.state.nodes := hnodes ▸ Tree.wired_ofTemplate template
  have hroot : m.tree.reset.state.pathTo Tree.root = [Tree.root] := Tree.pathTo_root hwired
  refine ⟨hnodes, hwired, ?_, fun id _ => ?_, fun id hid => ?_⟩
  · change Tree.root < m.tree.reset.state.size
    rw [Tree.size_congr hnodes]
    exact Tree.size_ofTemplate_pos template
  · rw [reset_state_of_built h]
    exact ⟨_, Tree.slot_countedFrom ..⟩
  · change id ∈ (m.tree.reset.state.pathTo Tree.root).dropLast at hid
    rw [hroot] at hid
    cases hid

/-! ## Whole walks -/

/-- A walk stays on its path, which goes on from the step that it begins on with the steps of its
rounds, and an answer leaves the last of them ready. -/
theorem Rounds.confined (h : Rounds token pending m ids walked) (hm : Confined tree m) :
    Confined tree walked.state ∧
      walked.state.tree.pathTo walked.state.current = (m.tree.pathTo m.current).dropLast ++ ids ∧
      ((∃ rest, walked.answer = .ok rest) → walked.state.currentSlot.initialized = true) := by
  induction h with
  | @halted pending m after reason events run_eq =>
      have hcomes := comes_round hm.current_lt token pending
      rw [run_eq] at hcomes
      obtain ⟨hplace⟩ := hcomes
      refine ⟨hm.inPlace hplace, ?_, fun ⟨_, hanswer⟩ => by cases hanswer⟩
      rw [hplace.pathTo_eq]
      exact Tree.pathTo_eq_concat hm.wired _
  | @ended pending rest m after events run_eq =>
      have hcomes := comes_round hm.current_lt token pending
      rw [run_eq] at hcomes
      cases hcomes with
      | ended hplace hready =>
          refine ⟨hm.inPlace hplace, ?_, fun _ => hready⟩
          rw [hplace.pathTo_eq]
          exact Tree.pathTo_eq_concat hm.wired _
  | @moved pending rest m _ events ids walked run_eq later ih =>
      have hcomes := comes_round hm.current_lt token pending
      rw [run_eq] at hcomes
      cases hcomes with
      | @moved _ mid next hplace hready hleads =>
          have hmid : Confined tree mid := hm.inPlace hplace
          have hup : mid.tree.parent? next = some mid.current :=
            Tree.parent?_of_firstChild? hmid.wired hleads.2
          obtain ⟨hconfined, hpath, hanswer⟩ := ih (hmid.down hready hup)
          refine ⟨hconfined, ?_, hanswer⟩
          calc walked.state.tree.pathTo walked.state.current
            _ = (mid.tree.pathTo next).dropLast ++ ids := hpath
            _ = mid.tree.pathTo mid.current ++ ids := by
                rw [Tree.pathTo_of_parent? hmid.wired hup, List.dropLast_concat]
            _ = m.tree.pathTo m.current ++ ids := by rw [hplace.pathTo_eq]
            _ = (m.tree.pathTo m.current).dropLast ++ [m.current] ++ ids := by
                rw [← Tree.pathTo_eq_concat hm.wired]
            _ = (m.tree.pathTo m.current).dropLast ++ m.current :: ids := List.append_assoc ..

/-- What is left over at the end of a walk is an error, but changes nothing. -/
theorem bindPath_of_walked (token : Token) (m : Machine) :
    let walked := (bindFrom token (reset.run m).state.tree.size (pendingKeys token)).run
      (reset.run m).state
    ((bindPath token).run m).state = walked.state ∧
      (((bindPath token).run m).answer = .ok () → ∃ rest, walked.answer = .ok rest) := by
  intro walked
  have hwalk : (walk token).run m =
      ⟨walked.answer, walked.state, (reset.run m).events ++ walked.events⟩ :=
    run_bind_of_ok rfl
  have hfinish (pending : List String) (m : Machine) : ((finish pending).run m).state = m := by
    cases pending <;> rfl
  rw [bindPath_eq_walk]
  cases hanswer : walked.answer with
  | error reason =>
      rw [hanswer] at hwalk
      rw [run_bind_of_error hwalk]
      exact ⟨rfl, fun hok => by cases hok⟩
  | ok rest =>
      rw [hanswer] at hwalk
      rw [run_bind_of_ok hwalk]
      exact ⟨hfinish rest _, fun _ => ⟨rest, rfl⟩⟩

/-- A restoration ends as its walk does, unless an error resets the machine. -/
theorem confined_bindValues (h : Built (Tree.ofTemplate template) m) (token : Token) :
    let walked := (bindFrom token (reset.run m).state.tree.size (pendingKeys token)).run
      (reset.run m).state
    let outcome := (bindValues token).run m
    Confined (Tree.ofTemplate template) walked.state →
      Confined (Tree.ofTemplate template) outcome.state ∧
        (outcome.answer = .ok () →
          outcome.state = walked.state ∧ ∃ rest, walked.answer = .ok rest) := by
  intro walked outcome hwalked
  obtain ⟨hstate, hok⟩ := bindPath_of_walked token m
  rw [show outcome.state = _ from bindValues_state token m,
    show outcome.answer = _ from bindValues_answer token m, hstate]
  split
  next error hfailed =>
    refine ⟨?_, fun hanswer => by rw [hfailed] at hanswer; cases hanswer⟩
    split
    · rw [← hstate]
      exact confined_reset (built_preserved.bindPath trivial token m h)
    · exact hwalked
  next => exact ⟨hwalked, fun hanswer => ⟨rfl, hok hanswer⟩⟩

/-- A restoration works on the steps of one path, one round on each and on none of them twice, and
has no more rounds than the template has levels.  However it ends, the steps that are not on the
path to the active one are as new, and those before the active one are ready.  If it succeeds, it
leaves the machine that its rounds end with, and the active step is ready as well. -/
theorem bindValues_confined (template : Template) (flag : Bool) (commands : List Command)
    (token : Token) :
    let start := (new template flag).after commands
    let fresh := (reset.run start).state
    let walked := (bindFrom token fresh.tree.size (pendingKeys token)).run fresh
    let outcome := (bindValues token).run start
    let m := outcome.state
    (∃ ids, Rounds token (pendingKeys token) fresh ids walked ∧ ids.Nodup ∧
      ids.length ≤ template.levels ∧
        ids = walked.state.tree.pathTo walked.state.current) ∧
    (∀ id, id ∉ m.tree.pathTo m.current → (m.tree.slot id).AtStart ∧
      ∃ n, m.tree.slot id = ((new template flag).tree.slot id).countedFrom n) ∧
    (∀ id ∈ (m.tree.pathTo m.current).dropLast, (m.tree.slot id).initialized = true) ∧
    (outcome.answer = .ok () →
      outcome.state = walked.state ∧ m.currentSlot.initialized = true) := by
  intro start fresh walked outcome m
  have hbuilt : Built (Tree.ofTemplate template) start := built_after template flag commands
  have hfresh : Confined (Tree.ofTemplate template) fresh := confined_reset hbuilt
  obtain ⟨ids, hrounds⟩ := exists_rounds hfresh.wired hfresh.current_lt token
    (pendingKeys token) (Nat.le_add_right _ _)
  obtain ⟨hwalked, hpath, hready⟩ := hrounds.confined hfresh
  obtain ⟨hm, hlast⟩ := confined_bindValues hbuilt token hwalked
  have hids : ids = walked.state.tree.pathTo walked.state.current := by
    rw [hpath, show fresh.current = Tree.root from rfl, Tree.pathTo_root hfresh.wired]
    rfl
  refine ⟨⟨ids, hrounds, ?_, ?_, hids⟩, fun id hid => ?_, hm.ready, fun hanswer => ?_⟩
  · rw [hids]
    exact Tree.nodup_pathTo hwalked.wired _
  · have hlt : walked.state.current < (Tree.ofTemplate template).size :=
      Tree.size_congr hwalked.nodes_eq ▸ hwalked.current_lt
    rw [hids, Tree.pathTo_congr hwalked.nodes_eq]
    exact Tree.length_pathTo_le_levels template hlt
  · obtain ⟨n, hslot⟩ := hm.untouched id hid
    obtain ⟨node, hnode⟩ := Tree.slot_ofTemplate template id
    refine ⟨?_, n, hslot⟩
    rw [hslot, hnode]
    exact Slot.atStart_countedFrom_fresh node n
  · obtain ⟨hsame, hanswered⟩ := hlast hanswer
    refine ⟨hsame, ?_⟩
    rw [show m = walked.state from hsame]
    exact hready hanswered

end TokenGrammar.Machine
