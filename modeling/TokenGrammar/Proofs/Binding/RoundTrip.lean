import TokenGrammar.Proofs.Binding.Plain
import TokenGrammar.Proofs.Binding.Restore
import TokenGrammar.Proofs.Machine.Interactive
import TokenGrammar.Proofs.Machine.Token

/-!
# Restoring what was entered

A token that was filled by hand in a plain grammar is restored unless it holds more than a
restoration can put back.  A value in progress is written behind the archive of its step
and comes back as one more archived value, so it needs room there; and where the value of a
step does not come back as its value, the step must lead on without it as it did with it.
-/

namespace TokenGrammar

/-- The step holds a value that does not come back as its value. -/
def Slot.Drops (s : Slot) : Prop :=
  s.value.isSome = true ∧ (s.node.vkey = none ∨ s.config.multivalue = true)

theorem Slot.keptValue_of_drops {s : Slot} (h : s.Drops) : s.keptValue = none := by
  obtain ⟨-, hkey | hmultivalue⟩ := h <;> simp [keptValue, *]

theorem Slot.keptValue_of_not_drops {s : Slot} (h : ¬ s.Drops) : s.keptValue = s.value := by
  unfold Drops at h
  unfold keptValue
  cases hvalue : s.value with
  | none => simp
  | some value =>
      simp only [hvalue, Option.isSome_some, true_and, not_or, Bool.not_eq_true] at h
      simp [Option.isSome_iff_ne_none, h]

namespace Machine

open Operation

/-- Every value in progress on the path has room in the archive that it is written to. -/
def Fits (m : Machine) : Prop :=
  ∀ id ∈ m.tree.pathTo m.current, (m.tree.slot id).Fits

/-- Steps whose value does not come back lead on without it to the same steps. -/
def LeadsWithout (m : Machine) : Prop :=
  ∀ parent child, m.Neighbours parent child → (m.tree.slot parent).Drops →
    ((m.tree.childrenOf parent).find? fun next => (m.tree.slot next).config.guard none) =
      some child

/-- The step with an id as a restoration of its own token leaves it. -/
def visitAt (m : Machine) (id : Nat) : Visit :=
  ⟨id, (m.tree.slot id).keptValue, (m.tree.slot id).keptArchive⟩

/-- A machine that a user has filled to the end of a token. -/
structure Finished (template : Template) (m : Machine) : Prop where
  plain : template.Plain
  built : Built (Tree.ofTemplate template) m
  entered : Entered m
  sound : Sound (· = false) m
  terminal : m.isTerminal = true

variable {template : Template} {m : Machine}

theorem finished_after (hplain : template.Plain) (flag : Bool) {commands : List Command}
    (hcommands : ∀ command ∈ commands, command.Interactive)
    (hterminal : ((new template flag).after commands).isTerminal = true) :
    Finished template ((new template flag).after commands) := by
  refine ⟨hplain, built_after template flag commands,
    entered_after (entered_new hplain flag) hcommands, ?_, hterminal⟩
  rw [after_eq_play]
  refine sound_play rfl ?_ (sound_new template flag)
  rintro ⟨token, hmem⟩
  obtain ⟨command, hcommand, hbind⟩ := List.mem_map.1 hmem
  obtain rfl : command = .bind token := Turn.call.inj hbind
  exact (hcommands _ hcommand).elim

namespace Finished

variable (h : Finished template m)

include h

theorem node_eq (id : Nat) : (Tree.ofTemplate template).node id = (m.tree.slot id).node :=
  Tree.slot_node_congr h.built.nodes_eq.symm id

theorem children_eq_nil : (m.tree.slot m.current).node.children = [] := by
  simpa [isTerminal, Slot.isTerminal, currentSlot] using h.terminal

theorem written {id : Nat} (hmem : id ∈ m.tree.pathTo m.current) :
    (m.tree.slot id).Written m.rawToken :=
  written_rawToken h.sound.wired (Tree.DistinctKeys.congr h.built.nodes_eq h.plain.keys)
    h.sound.current_lt hmem

theorem binds_iff {visit : Visit} (hmem : visit.id ∈ m.tree.pathTo m.current)
    (before : List Visit) :
    (Tree.ofTemplate template).Binds m.rawToken before visit ↔
      visit = m.visitAt visit.id ∧ (m.tree.slot visit.id).Fits := by
  have hbinds := (h.entered visit.id).binds_iff (h.written hmem)
    ((Tree.ofTemplate template).contextOf before) visit.value visit.archive
  unfold Tree.Binds Tree.nodeOf
  rw [h.node_eq]
  refine hbinds.trans ?_
  cases visit with
  | mk id value archive => simp [visitAt, and_assoc]

theorem proceeds_kept_iff {parent child : Nat} (hmem : parent ∈ m.tree.pathTo m.current)
    (hvalid : (m.tree.slot parent).isValid = .ok true) :
    (Tree.ofTemplate template).Proceeds m.rawToken (m.visitAt parent) child ↔
      ((m.tree.childrenOf parent).find? fun next =>
        (m.tree.slot next).config.guard (m.tree.slot parent).keptValue) = some child := by
  have hnode : (Tree.ofTemplate template).nodeOf (m.visitAt parent) =
      (m.tree.slot parent).node := h.node_eq parent
  rw [Slot.isValid_eq_ok_iff] at hvalid
  constructor
  · rintro ⟨-, -, hkept⟩
    simp only [hnode, h.node_eq] at hkept
    exact hkept
  · intro hkept
    refine ⟨?_, ?_, ?_⟩
    · rw [hnode]
      exact (h.entered parent).not_missing (h.written hmem) hvalid
    · rw [hnode]
      exact (h.entered parent).validator_kept hvalid
    · simp only [hnode, h.node_eq]
      exact hkept

theorem firstChild?_eq_guard (id : Nat) :
    m.tree.firstChild? id false = (m.tree.childrenOf id).find? fun next =>
      (m.tree.slot next).config.guard (m.tree.slot id).value := by
  rw [Tree.firstChild?_eq h.sound.wired]
  refine List.find?_congr fun next _ => ?_
  have hopen : (m.tree.slot next).config.bindOnly = false := (h.entered next).plain.bindOnly_eq
  simp [Slot.accepts, hopen]

/-- A step that loses its value leads on to the next one if it does so without one. -/
theorem proceeds_iff {parent child : Nat} (hpair : m.Neighbours parent child) :
    (Tree.ofTemplate template).Proceeds m.rawToken (m.visitAt parent) child ↔
      ((m.tree.slot parent).Drops →
        ((m.tree.childrenOf parent).find? fun next => (m.tree.slot next).config.guard none) =
          some child) := by
  have hmem : parent ∈ m.tree.pathTo m.current := hpair.subset (by simp)
  obtain ⟨_, rfl, hvalid, hfirst⟩ := h.sound.leads_of_neighbours hpair
  rw [h.firstChild?_eq_guard] at hfirst
  rw [h.proceeds_kept_iff hmem hvalid]
  by_cases hdrops : (m.tree.slot parent).Drops
  · rw [Slot.keptValue_of_drops hdrops]
    exact ⟨fun hnone _ => hnone, fun hnone => hnone hdrops⟩
  · rw [Slot.keptValue_of_not_drops hdrops]
    exact ⟨fun _ hdrops' => absurd hdrops' hdrops, fun _ => hfirst⟩

/-- The token is legal, with what each step takes back, if everything fits and the path
needs no value that does not come back. -/
theorem legal (hfits : m.Fits) (hleads : m.LeadsWithout) :
    (Tree.ofTemplate template).Legal m.rawToken
      ((m.tree.pathTo m.current).map m.visitAt) := by
  refine ⟨?_, Tree.walks_of_chain ?_ ?_ ?_ ?_, ?_⟩
  · rw [List.head?_map, Tree.head?_pathTo h.sound.wired h.sound.current_lt]
    rfl
  · have hlast := Tree.getLast?_pathTo h.sound.wired m.current
    rw [ne_eq, List.map_eq_nil_iff]
    rintro hnil
    rw [hnil] at hlast
    cases hlast
  · intro visit hvisit before
    obtain ⟨id, hmem, rfl⟩ := List.mem_map.1 hvisit
    exact (h.binds_iff hmem before).2 ⟨rfl, hfits id hmem⟩
  · rw [List.isChain_map, List.isChain_iff_forall_rel_of_append_cons_cons]
    intro parent child above below hpath
    have hpair : m.Neighbours parent child := ⟨above, below, by simp [hpath]⟩
    exact (h.proceeds_iff hpair).2 (hleads parent child hpair)
  · intro last hlast
    rw [List.getLast?_map, Tree.getLast?_pathTo h.sound.wired, Option.map_some,
      Option.some.injEq] at hlast
    refine .inl ?_
    rw [← hlast]
    exact (congrArg Node.children (h.node_eq m.current)).trans h.children_eq_nil
  · intro vkey raw hmem _
    rcases mem_foldl_withEntry hmem with hnil | ⟨id, hid, hvkey⟩
    · cases hnil
    · refine ⟨m.visitAt id, List.mem_map_of_mem hid, ?_⟩
      exact (congrArg Node.vkey (h.node_eq id)).trans hvkey

theorem fits_and_leadsWithout {path : List Visit}
    (hlegal : (Tree.ofTemplate template).Legal m.rawToken path)
    (hpath : path.map Visit.id = m.tree.pathTo m.current) :
    m.Fits ∧ m.LeadsWithout := by
  obtain ⟨hbinds, hchain⟩ := hlegal.walks.links
  -- What a visit holds is what the entry of its step comes back as.
  have hvisit {visit : Visit} (hmem : visit ∈ path) :
      visit = m.visitAt visit.id ∧ (m.tree.slot visit.id).Fits := by
    obtain ⟨before, hbefore⟩ := hbinds visit hmem
    exact (h.binds_iff (hpath ▸ List.mem_map_of_mem hmem) before).1 hbefore
  constructor
  · intro id hid
    rw [← hpath] at hid
    obtain ⟨visit, hmem, rfl⟩ := List.mem_map.1 hid
    exact (hvisit hmem).2
  · intro parent child hpair
    have hinfix : [parent, child] <:+: path.map Visit.id := hpath ▸ hpair
    obtain ⟨pair, hsub, hmap⟩ := List.infix_map_iff.1 hinfix
    have hlength : pair.length = 2 := by simpa using (congrArg List.length hmap).symm
    obtain ⟨visit, next, rfl⟩ := List.length_eq_two.1 hlength
    obtain ⟨rfl, rfl⟩ : parent = visit.id ∧ child = next.id := by simpa using hmap
    have hkept : visit = m.visitAt visit.id := (hvisit (hsub.subset List.mem_cons_self)).1
    obtain ⟨above, below, hsplit⟩ := hsub
    have hproceeds : (Tree.ofTemplate template).Proceeds m.rawToken visit next.id :=
      List.isChain_iff_forall_rel_of_append_cons_cons.1 hchain (by simpa using hsplit.symm)
    rw [hkept] at hproceeds
    exact (h.proceeds_iff hpair).1 hproceeds

theorem rawToken_eq {m' : Machine}
    (hholds : Holds (Tree.ofTemplate template) ((m.tree.pathTo m.current).map m.visitAt) m') :
    m'.rawToken = m.rawToken := by
  have hnodes : m'.tree.nodes = m.tree.nodes := hholds.nodes_eq.trans h.built.nodes_eq.symm
  have hpath : m'.tree.pathTo m'.current = m.tree.pathTo m.current := by
    rw [hholds.path_eq, List.map_map]
    exact List.map_id _
  refine collect_congr hpath fun id hmem => ?_
  have hnode : (m'.tree.slot id).node = (m.tree.slot id).node := Tree.slot_node_congr hnodes id
  obtain ⟨hvalue, harchive⟩ := hholds.held (m.visitAt id) (List.mem_map_of_mem hmem)
  refine ⟨congrArg Node.vkey hnode, fun hkey => ?_⟩
  exact Slot.entryOf_kept hnode hvalue harchive (Option.isSome_iff_ne_none.2 hkey)

end Finished

/-- A token that a user has brought to its end in a plain grammar is restored, to the same
end and with the same values, exactly if its values in progress have room in the archives
and the path does not depend on a value that does not come back. -/
theorem bindValues_rawToken_iff (template : Template) (flag otherFlag : Bool)
    (commands : List Command) (hplain : template.Plain)
    (hcommands : ∀ command ∈ commands, command.Interactive) :
    let m := (new template flag).after commands
    let outcome := (bindValues m.rawToken).run (new template otherFlag)
    m.isTerminal = true →
      (outcome.answer = .ok () ∧ outcome.state.current = m.current ∧
        outcome.state.rawToken = m.rawToken ↔ m.Fits ∧ m.LeadsWithout) := by
  intro m outcome hterminal
  have h : Finished template m := finished_after hplain flag hcommands hterminal
  have hwired : Wired (Tree.ofTemplate template).nodes := Tree.wired_ofTemplate template
  have hpos := Tree.size_ofTemplate_pos template
  have hnew := built_new template otherFlag
  constructor
  · rintro ⟨hok, hcurrent, -⟩
    obtain ⟨path, hlegal⟩ := legal_of_yields_bindValues hwired hpos hnew ⟨hok, rfl⟩
    obtain ⟨m', ⟨-, rfl⟩, hholds⟩ := yields_bindValues_of_legal hwired hpos hnew hlegal
    -- Ends are reached by one path each, so the token was restored along the path it is of.
    refine h.fits_and_leadsWithout hlegal ?_
    rw [← hholds.path_eq, Tree.pathTo_congr (hholds.nodes_eq.trans h.built.nodes_eq.symm)]
    exact congrArg m.tree.pathTo hcurrent
  · rintro ⟨hfits, hleads⟩
    obtain ⟨m', ⟨hok, rfl⟩, hholds⟩ :=
      yields_bindValues_of_legal hwired hpos hnew (h.legal hfits hleads)
    refine ⟨hok, ?_, h.rawToken_eq hholds⟩
    have hpath := hholds.path_eq
    rw [List.map_map, show Visit.id ∘ m.visitAt = id from rfl, List.map_id] at hpath
    have hlast := Tree.getLast?_pathTo (hholds.nodes_eq ▸ hwired) outcome.state.current
    rw [hpath, Tree.getLast?_pathTo h.sound.wired] at hlast
    exact (Option.some.inj hlast).symm

theorem plain_tagsTemplate (limit : Nat) : (tagsTemplate limit).Plain := by
  refine ⟨?_, ?_⟩
  · intro node hmem
    obtain rfl | rfl : node = _ ∨ node = _ := by
      simpa [tagsTemplate, Chain.start, Chain.next, Chain.build, Chain.branch, Chain.above,
        Tree.nodes, Tree.ofTemplate, Tree.slotsOf, Tree.slotsOfAll, Slot.fresh] using hmem
    · exact ⟨rfl, rfl, rfl, rfl, fun _ _ => rfl, by rintro ⟨⟩⟩
    · exact ⟨rfl, rfl, rfl, rfl, by rintro _ ⟨⟩, fun _ => rfl⟩
  · intro id hid _
    have hlt : id < 2 := hid
    obtain rfl | rfl : id = 0 ∨ id = 1 := by omega
    · exact List.nodup_singleton _
    · exact List.nodup_singleton _

/-- One tag in the archive and one in progress, and on to the end. -/
def twoTags : List Command :=
  [.edit (.setRaw (.str "ant")), .archive, .edit (.setRaw (.str "bee")), .transition]

theorem interactive_twoTags : ∀ command ∈ twoTags, command.Interactive := by
  simp [twoTags, Command.Interactive]

theorem bindValues_rawToken_iff_twoTags :
    let m := (new (tagsTemplate 2) true).after twoTags
    let outcome := (bindValues m.rawToken).run (new (tagsTemplate 2) true)
    (tagsTemplate 2).Plain ∧ (∀ command ∈ twoTags, command.Interactive) ∧
      m.isTerminal = true ∧ m.rawToken = [("tags", .arr [.str "ant", .str "bee"])] ∧
        outcome.answer = .ok () ∧ outcome.state.current = m.current ∧
          outcome.state.rawToken = m.rawToken := by
  intro m outcome
  have hpath : m.tree.pathTo m.current = [0, 1] := rfl
  have hfits : m.Fits := by
    intro id hid
    rw [hpath] at hid
    obtain rfl | rfl : id = 0 ∨ id = 1 := by simpa using hid
    · rintro - - - limit ⟨⟩
      decide
    · rintro ⟨⟩
  have hleads : m.LeadsWithout := by
    intro parent child hpair _
    have hpair : [parent, child] <:+: [0, 1] := hpair
    obtain ⟨rfl, rfl⟩ : parent = 0 ∧ child = 1 := by
      simpa using hpair.eq_of_length rfl
    rfl
  have hiff := bindValues_rawToken_iff (tagsTemplate 2) true true twoTags (plain_tagsTemplate 2)
    interactive_twoTags rfl
  exact ⟨plain_tagsTemplate 2, interactive_twoTags, rfl, rfl, hiff.2 ⟨hfits, hleads⟩⟩

/-- A step whose value decides between two ends. -/
def forkTemplate (vkey : Option String) (step : Step) : Template :=
  (Chain.start vkey step).branch
    [.node none (Step.terminalWhen (Guard.keyIs (.str "bee"))) [], .node none Step.terminal []]

theorem plain_forkTemplate {vkey : Option String} {step : Step}
    (h : ∀ id parent children, (⟨id, parent, children, vkey, step⟩ : Node).Plain) :
    (forkTemplate vkey step).Plain := by
  refine ⟨?_, ?_⟩
  · intro node hmem
    obtain rfl | rfl | rfl : node = _ ∨ node = _ ∨ node = _ := by
      simpa [forkTemplate, Chain.start, Chain.branch, Chain.above, Tree.nodes, Tree.ofTemplate,
        Tree.slotsOf, Tree.slotsOfAll, Slot.fresh] using hmem
    · exact h _ _ _
    · exact ⟨rfl, rfl, rfl, rfl, by rintro _ ⟨⟩, fun _ => rfl⟩
    · exact ⟨rfl, rfl, rfl, rfl, by rintro _ ⟨⟩, fun _ => rfl⟩
  · intro id hid hleaf
    have hlt : id < 3 := hid
    obtain rfl | rfl | rfl : id = 0 ∨ id = 1 ∨ id = 2 := by omega
    · cases hleaf
    · cases vkey with
      | none => exact List.nodup_nil
      | some vkey => exact List.nodup_singleton vkey
    · cases vkey with
      | none => exact List.nodup_nil
      | some vkey => exact List.nodup_singleton vkey

def toTheBees : List Command := [.edit (.setRaw (.str "bee")), .transition]

theorem interactive_toTheBees : ∀ command ∈ toTheBees, command.Interactive := by
  simp [toTheBees, Command.Interactive]

def wayStep : Step := Step.plain .value "Way"

/-- A step that collects any number of values. -/
def tagsStep : Step :=
  let step := Step.value "Tags"
  { step with config := { step.config with multivalue := true } }

/-- Three finished tokens that are not restored.  In the first one there is no room for the
tag in progress.  In the other ones the way to the end depends on a value that does not come
back: that of a step without a key, and that of a step that collects its values. -/
theorem bindValues_rawToken_lost :
    (let m := (new (tagsTemplate 1) true).after twoTags
      let outcome := (bindValues m.rawToken).run (new (tagsTemplate 1) true)
      (tagsTemplate 1).Plain ∧ (∀ command ∈ twoTags, command.Interactive) ∧
        m.isTerminal = true ∧ m.rawToken = [("tags", .arr [.str "ant", .str "bee"])] ∧
          outcome.answer = .error (.failed (.slot (.archive (.limitReached "Tags" 1))))) ∧
    (let m := (new (forkTemplate none wayStep) true).after toTheBees
      let outcome := (bindValues m.rawToken).run (new (forkTemplate none wayStep) true)
      (forkTemplate none wayStep).Plain ∧ (∀ command ∈ toTheBees, command.Interactive) ∧
        m.isTerminal = true ∧ m.rawToken = [] ∧ m.current = 1 ∧
          outcome.answer = .ok () ∧ outcome.state.current = 2) ∧
    (let m := (new (forkTemplate "tags" tagsStep) true).after toTheBees
      let outcome := (bindValues m.rawToken).run (new (forkTemplate "tags" tagsStep) true)
      (forkTemplate "tags" tagsStep).Plain ∧ (∀ command ∈ toTheBees, command.Interactive) ∧
        m.isTerminal = true ∧ m.rawToken = [("tags", .arr [.str "bee"])] ∧ m.current = 1 ∧
          outcome.answer = .ok () ∧ outcome.state.current = 2) := by
  have hway : (forkTemplate none wayStep).Plain :=
    plain_forkTemplate fun _ _ _ => ⟨rfl, rfl, rfl, rfl, by rintro _ ⟨⟩, fun _ => rfl⟩
  have htags : (forkTemplate "tags" tagsStep).Plain :=
    plain_forkTemplate fun _ _ _ => ⟨rfl, rfl, rfl, rfl, fun _ _ => rfl, by rintro ⟨⟩⟩
  refine ⟨⟨plain_tagsTemplate 1, interactive_twoTags, rfl, rfl, rfl⟩, ?_, ?_⟩
  · exact ⟨hway, interactive_toTheBees, rfl, rfl, rfl, rfl, rfl⟩
  · exact ⟨htags, interactive_toTheBees, rfl, rfl, rfl, rfl, rfl⟩

end Machine

end TokenGrammar
