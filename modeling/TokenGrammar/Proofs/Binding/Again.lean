import TokenGrammar.Proofs.Binding.Restore
import TokenGrammar.Proofs.Binding.Steady

/-!
# Restoring what a restoration left

Boxing changes a value on its way in, a value that is collected comes out in an array, and
a step that the token has nothing for writes null.  The token that a restoration leaves is
nevertheless restored along the same path, and leaves itself.
-/

namespace TokenGrammar

/-- A grammar of steady steps in which no key occurs twice on the way to an end. -/
structure Template.Steady (template : Template) : Prop where
  nodes : ∀ node ∈ (Tree.ofTemplate template).nodes, node.step.config.Steady
  keys : (Tree.ofTemplate template).DistinctKeys

theorem Template.Steady.config {template : Template} (h : template.Steady) (id : Nat) :
    ((Tree.ofTemplate template).node id).step.config.Steady := by
  rcases Nat.lt_or_ge id (Tree.ofTemplate template).size with hlt | hge
  · exact h.nodes _ (List.mem_of_getElem? (Tree.getElem?_nodes_of_lt hlt))
  · rw [Tree.node, Tree.slot_of_ge hge]
    exact ⟨.identity, rfl, .inl rfl⟩

namespace Machine

variable {tree : Tree} {visits : List Visit} {m m' : Machine} {token : Token}

namespace Holds

/-- What a machine holds along a path is all that it holds. -/
theorem held_eq (h : Holds tree visits m) (h' : Holds tree visits m') (id : Nat) :
    (m'.tree.slot id).value = (m.tree.slot id).value ∧
      (m'.tree.slot id).archive = (m.tree.slot id).archive := by
  by_cases hid : id ∈ visits.map Visit.id
  · obtain ⟨visit, hvisit, rfl⟩ := List.mem_map.1 hid
    obtain ⟨hvalue, harchive⟩ := h.held visit hvisit
    obtain ⟨hvalue', harchive'⟩ := h'.held visit hvisit
    exact ⟨hvalue'.trans hvalue.symm, harchive'.trans harchive.symm⟩
  · have hpristine := h.pristine id hid
    have hpristine' := h'.pristine id hid
    rw [hpristine.value_eq, hpristine'.value_eq, hpristine.archive_eq, hpristine'.archive_eq,
      Slot.config, Slot.config, h.node_eq, h'.node_eq]
    exact ⟨rfl, rfl⟩

theorem current_eq (hwired : Wired tree.nodes) (h : Holds tree visits m)
    (h' : Holds tree visits m') : m'.current = m.current :=
  Option.some.inj ((h'.getLast?_eq hwired).symm.trans (h.getLast?_eq hwired))

theorem rawToken_eq (h : Holds tree visits m) (h' : Holds tree visits m') :
    m'.rawToken = m.rawToken := by
  refine collect_congr (h'.path_eq.trans h.path_eq.symm) fun id _ => ?_
  have hnode : (m'.tree.slot id).node = (m.tree.slot id).node :=
    (h'.node_eq id).trans (h.node_eq id).symm
  obtain ⟨hvalue, harchive⟩ := h.held_eq h' id
  refine ⟨congrArg Node.vkey hnode, fun _ => ?_⟩
  exact Slot.entryOf_congr hnode hvalue harchive

theorem written (hwired : Wired tree.nodes) (hkeys : tree.DistinctKeys)
    (h : Holds tree visits m) {visit : Visit} (hvisit : visit ∈ visits) :
    (m.tree.slot visit.id).Written m.rawToken := by
  refine written_rawToken (h.nodes_eq ▸ hwired) (hkeys.congr h.nodes_eq) h.current_lt ?_
  rw [h.path_eq]
  exact List.mem_map_of_mem hvisit

/-- What a visit takes is what its slot holds. -/
theorem binds_iff (h : Holds tree visits m) {visit : Visit} (hvisit : visit ∈ visits)
    (token : Token) (before : List Visit) :
    tree.Binds token before visit ↔
      (m.tree.slot visit.id).config.Binds (tree.contextOf before)
        ((m.tree.slot visit.id).node.stored? token) (m.tree.slot visit.id).value
        (m.tree.slot visit.id).archive := by
  obtain ⟨hvalue, harchive⟩ := h.held visit hvisit
  rw [Tree.Binds, Tree.nodeOf, Slot.config, h.node_eq, hvalue, harchive]

/-- The token of a machine is legal with what the machine holds, if it took that from a
legal token. -/
theorem legal_rawToken (hwired : Wired tree.nodes) (hkeys : tree.DistinctKeys)
    (hsteady : ∀ id, (tree.node id).step.config.Steady) (h : Holds tree visits m)
    (hlegal : tree.Legal token visits) : tree.Legal m.rawToken visits := by
  have hconfig (visit : Visit) : (m.tree.slot visit.id).config.Steady := by
    rw [Slot.config, h.node_eq]
    exact hsteady visit.id
  refine ⟨hlegal.root, hlegal.walks.congr ?_ ?_, ?_⟩
  · intro visit hvisit before hbound
    rw [h.binds_iff hvisit] at hbound ⊢
    exact (h.written hwired hkeys hvisit).binds_again (hconfig visit) hbound
  · intro visit hvisit
    obtain ⟨before, hbound⟩ := hlegal.walks.links.1 visit hvisit
    rw [h.binds_iff hvisit] at hbound
    have hstored := (h.written hwired hkeys hvisit).stored?_again (hconfig visit) hbound
    rw [h.node_eq] at hstored
    simp [Node.Missing, Tree.nodeOf, hstored]
  · intro vkey raw hmem _
    rcases mem_foldl_withEntry hmem with hnil | ⟨id, hid, hvkey⟩
    · cases hnil
    · rw [h.path_eq] at hid
      obtain ⟨visit, hvisit, rfl⟩ := List.mem_map.1 hid
      exact ⟨visit, hvisit, by rwa [Tree.nodeOf, ← h.node_eq]⟩

end Holds

/-- The token that a restoration leaves is restored, to the same end, with the same value
and archive on each step, and leaves itself. -/
theorem bindValues_again (template : Template) (hsteady : template.Steady) (flag : Bool)
    (commands : List Command) (token : Token) :
    let first := (bindValues token).run ((new template flag).after commands)
    let out := first.state.rawToken
    first.answer = .ok () →
      ∀ start, (start = first.state ∨ ∃ otherFlag others,
          start = (new template otherFlag).after others) →
        let second := (bindValues out).run start
        second.answer = .ok () ∧ second.state.current = first.state.current ∧
          (∀ id, (second.state.tree.slot id).value = (first.state.tree.slot id).value ∧
            (second.state.tree.slot id).archive = (first.state.tree.slot id).archive) ∧
          second.state.rawToken = out := by
  intro first out hok start hstart second
  have hwired : Wired (Tree.ofTemplate template).nodes := Tree.wired_ofTemplate template
  have hpos := Tree.size_ofTemplate_pos template
  have hbuilt := built_after template flag commands
  obtain ⟨path, hlegal, hholds⟩ := legal_and_holds_of_ok hwired hpos hbuilt hok
  have hagain : (Tree.ofTemplate template).Legal out path :=
    hholds.legal_rawToken hwired hsteady.keys hsteady.config hlegal
  have hstart : Built (Tree.ofTemplate template) start := by
    rcases hstart with rfl | ⟨otherFlag, others, rfl⟩
    · exact built_preserved.bindValues trivial token _ hbuilt
    · exact built_after template otherFlag others
  obtain ⟨_, ⟨hsecond, rfl⟩, hheld⟩ := yields_bindValues_of_legal hwired hpos hstart hagain
  exact ⟨hsecond, hholds.current_eq hwired hheld, hholds.held_eq hheld,
    hholds.rawToken_eq hheld⟩

/-- Several tags and one of two colors, and the end of the token. -/
def coverTemplate : Template :=
  let tags := Step.text "Tags"
  (Chain.start "tags" { tags with config := { tags.config with multivalue := true } }
    |>.next "color" (Step.option "Color" [.ofKey (.str "red"), .ofKey (.str "blue")])
    |>.next none Step.terminal).build

theorem steady_coverTemplate : coverTemplate.Steady := by
  refine ⟨?_, ?_⟩
  · intro node hmem
    obtain rfl | rfl | rfl : node = _ ∨ node = _ ∨ node = _ := by
      simpa [coverTemplate, Chain.start, Chain.next, Chain.build, Chain.branch, Chain.above,
        Tree.nodes, Tree.ofTemplate, Tree.slotsOf, Tree.slotsOfAll, Slot.fresh] using hmem
    · exact ⟨.text, rfl, .inl rfl⟩
    · exact ⟨.option false, rfl, .inr ⟨⟨_, rfl⟩, rfl⟩⟩
    · exact ⟨.identity, rfl, .inl rfl⟩
  · intro id hid hchildren
    have hlt : id < 3 := hid
    obtain rfl | rfl | rfl : id = 0 ∨ id = 1 ∨ id = 2 := by omega
    · cases hchildren
    · cases hchildren
    · decide

theorem bindValues_again_coverTemplate :
    let first := (bindValues [("tags", .str " ant ")]).run ((new coverTemplate true).after [])
    let second := (bindValues first.state.rawToken).run first.state
    coverTemplate.Steady ∧ first.answer = .ok () ∧
      first.state.rawToken = [("tags", .arr [.str "ant"]), ("color", .null)] ∧
      second.answer = .ok () ∧ second.state.current = first.state.current ∧
      (second.state.tree.slot 0).archive = (first.state.tree.slot 0).archive ∧
      second.state.rawToken = first.state.rawToken := by
  have hok : ((bindValues [("tags", .str " ant ")]).run
      ((new coverTemplate true).after [])).answer = .ok () := rfl
  obtain ⟨hsecond, hcurrent, hheld, hout⟩ :=
    bindValues_again coverTemplate steady_coverTemplate true [] _ hok _ (.inl rfl)
  exact ⟨steady_coverTemplate, hok, rfl, hsecond, hcurrent, (hheld 0).2, hout⟩

end Machine

end TokenGrammar
