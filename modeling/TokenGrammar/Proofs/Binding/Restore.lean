import TokenGrammar.Proofs.Binding.Walk
import TokenGrammar.Proofs.Machine.Invariant

/-!
# Restoring a token

A restoration succeeds exactly for the legal tokens, whatever was done with the machine
before, and leaves the machine at the end of the path of the token.
-/

namespace TokenGrammar.Machine

open Operation

/-! ## What every machine of a template keeps -/

/-- The machine has the steps of a tree, and its slots ask the sources of these. -/
structure Built (tree : Tree) (m : Machine) : Prop where
  nodes_eq : m.tree.nodes = tree.nodes
  supplied : ∀ id, (m.tree.slot id).Supplied

variable {tree : Tree} {m m' : Machine} {token : Token}

theorem built_new (template : Template) (flag : Bool) :
    Built (Tree.ofTemplate template) (new template flag) := by
  refine ⟨rfl, fun id => ?_⟩
  obtain ⟨node, hnode⟩ := Tree.slot_ofTemplate template id
  rw [new, hnode]
  exact Slot.supplied_fresh node

theorem pristine_reset (h : ∀ id, (tree.slot id).Supplied) (id : Nat) :
    (tree.reset.state.slot id).Pristine := by
  rcases Nat.lt_or_ge id tree.size with hlt | hge
  · rw [Tree.slot_reset hlt]
    exact (h id).reset
  · rw [Tree.slot_of_ge (by rwa [Tree.size_reset])]
    exact Slot.pristine_fresh default

theorem built_preserved : Preserved (fun _ => True) (Built tree) := by
  refine ⟨?_, ?_, ?_, ?_⟩
  · intro start m hplace h
    exact ⟨hplace.nodes_eq.trans h.nodes_eq, fun id => (h.supplied id).congr (hplace.sameStep id)⟩
  · intro ignoreBindOnly _ m h
    rw [advance_state]
    cases m.successor ignoreBindOnly <;> exact ⟨h.nodes_eq, h.supplied⟩
  · intro m h
    rw [rewind_state]
    cases m.tree.parent? m.current <;> exact ⟨h.nodes_eq, h.supplied⟩
  · intro m h
    exact ⟨(Tree.nodes_reset m.tree).trans h.nodes_eq,
      fun id => (pristine_reset h.supplied id).toSupplied⟩

theorem Built.withStore (h : Built tree m) (id : Nat) (use : StoreUse) :
    Built tree (m.withStore id ((m.tree.slot id).store.apply use).2) := by
  obtain ⟨hsource, hlimit⟩ := OptionStore.apply_source_limit (m.tree.slot id).store use
  refine ⟨(nodes_withStore m id _).trans h.nodes_eq, fun target => ?_⟩
  rcases slot_withStore m id ((m.tree.slot id).store.apply use).2 target with hsame | ⟨-, hstore⟩
  · rw [hsame]
    exact h.supplied target
  · rw [hstore]
    exact (h.supplied id).congr ⟨rfl, hsource, hlimit⟩

theorem Built.after (h : Built tree m) (commands : List Command) : Built tree (m.after commands) :=
  built_preserved.after (fun _ => trivial) (fun _ id use hm => hm.withStore id use) h commands

theorem Built.perform (h : Built tree m) (command : Command) :
    Built tree ((Machine.perform command).run m).state :=
  h.after [command]

theorem built_after (template : Template) (flag : Bool) (commands : List Command) :
    Built (Tree.ofTemplate template) ((new template flag).after commands) :=
  (built_new template flag).after commands

/-! ## The whole restoration -/

theorem stands_reset (hwired : Wired tree.nodes) (hpos : 0 < tree.size) (h : Built tree m) :
    Stands tree [] (reset.run m).state := by
  have hnodes : m.tree.reset.state.nodes = tree.nodes :=
    (Tree.nodes_reset m.tree).trans h.nodes_eq
  refine ⟨hnodes, ?_, ?_, by simp, fun id _ => pristine_reset h.supplied id⟩
  · change 0 < m.tree.reset.state.size
    rwa [Tree.size_congr hnodes]
  · exact Tree.pathTo_root (hnodes ▸ hwired)

/-- From the root on, as many rounds as there are steps suffice. -/
theorem size_reset_le (m : Machine) :
    (reset.run m).state.tree.size ≤ m.tree.size + (reset.run m).state.current :=
  calc (reset.run m).state.tree.size
    _ = m.tree.size := Tree.size_reset m.tree
    _ ≤ m.tree.size + (reset.run m).state.current := Nat.le_add_right ..

theorem mem_pendingKeys {key : String} :
    key ∈ pendingKeys token ↔ ∃ raw, (key, raw) ∈ token ∧ raw.isNull = false := by
  simp [pendingKeys]

theorem struck_pendingKeys_eq_nil {path : List Visit} :
    tree.struck path (pendingKeys token) = [] ↔
      ∀ vkey raw, (vkey, raw) ∈ token → raw.isNull = false →
        ∃ visit ∈ path, (tree.nodeOf visit).vkey = some vkey := by
  simp only [List.eq_nil_iff_forall_not_mem, Tree.mem_struck, mem_pendingKeys]
  constructor
  · intro hnone vkey raw hmem hraw
    by_contra hkey
    exact hnone vkey ⟨⟨raw, hmem, hraw⟩, by simpa using hkey⟩
  · rintro htaken key ⟨⟨raw, hmem, hraw⟩, hkey⟩
    obtain ⟨visit, hvisit, hvkey⟩ := htaken key raw hmem hraw
    exact hkey visit hvisit hvkey

/-- Walks from the root and answers with the keys of the token that no step asked for. -/
def walk (token : Token) : Op (List String) := do
  reset
  let rounds ← Operation.read fun m => m.tree.size
  bindFrom token rounds (pendingKeys token)

/-- Ends a restoration, which must not leave any keys over. -/
def finish (pending : List String) : Op Unit :=
  if !pending.isEmpty then
    Operation.fail (.unmatchedValues (pending.mergeSort fun a b => decide (a ≤ b)))
  else pure ()

theorem bindPath_eq_walk (token : Token) : bindPath token = walk token >>= finish := by
  simp only [walk, Operation.bind_assoc]
  rfl

theorem yields_walk {rest : List String} :
    (walk token).Yields m rest m' ↔
      (bindFrom token m.tree.size (pendingKeys token)).Yields (reset.run m).state rest m' := by
  have hreset {mid : Machine} : reset.Yields m () mid ↔ mid = (reset.run m).state := by
    simp [Yields, run, reset, eq_comm]
  have hsize : (reset.run m).state.tree.size = m.tree.size := Tree.size_reset m.tree
  rw [walk, yields_unit_bind]
  simp only [hreset, exists_eq_left]
  rw [yields_read_bind, hsize]

theorem yields_finish {pending : List String} :
    (finish pending).Yields m () m' ↔ pending = [] ∧ m' = m := by
  cases pending <;> simp [finish]

theorem yields_bindPath :
    (bindPath token).Yields m () m' ↔
      (bindFrom token m.tree.size (pendingKeys token)).Yields (reset.run m).state [] m' := by
  rw [bindPath_eq_walk, yields_bind]
  simp only [yields_finish, yields_walk]
  constructor
  · rintro ⟨_, _, hwalk, rfl, rfl⟩
    exact hwalk
  · intro hwalk
    exact ⟨[], m', hwalk, rfl, rfl⟩

theorem yields_bindValues :
    (bindValues token).Yields m () m' ↔ (bindPath token).Yields m () m' := by
  simp only [Yields, run, bindValues]
  split
  next error mid events hrun =>
    rw [show bindPath token m = _ from hrun]
    split <;> simp
  next => rfl

/-- A legal token is restored, and no other one. -/
theorem yields_bindValues_of_legal (hwired : Wired tree.nodes) (hpos : 0 < tree.size)
    (hbuilt : Built tree m) {path : List Visit} (hlegal : tree.Legal token path) :
    ∃ m', (bindValues token).Yields m () m' ∧ Holds tree path m' := by
  obtain ⟨m', hwalk, hholds⟩ := yields_bindFrom_of_walks hwired (pendingKeys token)
    (stands_reset hwired hpos hbuilt) hlegal.walks hlegal.root (size_reset_le m)
  rw [struck_pendingKeys_eq_nil.2 hlegal.complete] at hwalk
  exact ⟨m', yields_bindValues.2 (yields_bindPath.2 hwalk), hholds⟩

theorem legal_of_yields_bindValues (hwired : Wired tree.nodes) (hpos : 0 < tree.size)
    (hbuilt : Built tree m) (hyields : (bindValues token).Yields m () m') :
    ∃ path, tree.Legal token path := by
  have hwalk := yields_bindPath.1 (yields_bindValues.1 hyields)
  have hstands := stands_reset hwired hpos hbuilt
  obtain ⟨path, hroot, hwalks⟩ := walks_of_yields_bindFrom hwired hstands hwalk (size_reset_le m)
  -- Walking that path again yields the keys that it leaves over, and results are unique.
  obtain ⟨_, hsame, -⟩ := yields_bindFrom_of_walks hwired (pendingKeys token) hstands
    hwalks hroot (size_reset_le m)
  have hnone : tree.struck path (pendingKeys token) = [] := (hsame.unique hwalk).1
  exact ⟨path, hroot, hwalks, struck_pendingKeys_eq_nil.1 hnone⟩

/-- A restoration that succeeds has followed the path of a legal token. -/
theorem legal_and_holds_of_ok (hwired : Wired tree.nodes) (hpos : 0 < tree.size)
    (hbuilt : Built tree m) (hok : ((bindValues token).run m).answer = .ok ()) :
    ∃ path, tree.Legal token path ∧ Holds tree path ((bindValues token).run m).state := by
  obtain ⟨path, hlegal⟩ := legal_of_yields_bindValues hwired hpos hbuilt ⟨hok, rfl⟩
  obtain ⟨_, ⟨-, rfl⟩, hholds⟩ := yields_bindValues_of_legal hwired hpos hbuilt hlegal
  exact ⟨path, hlegal, hholds⟩

/-- Whatever was done with a machine, it accepts exactly the legal tokens, and a legal token
leaves it at the end of its path with what the steps there take. -/
theorem bindValues_accepts_legal (template : Template) (flag : Bool) (commands : List Command)
    (token : Token) :
    let tree := Tree.ofTemplate template
    let outcome := (bindValues token).run ((new template flag).after commands)
    (outcome.answer = .ok () ↔ ∃ path, tree.Legal token path) ∧
      ∀ path, tree.Legal token path →
        outcome.state.tree.pathTo outcome.state.current = path.map Visit.id ∧
          ∀ visit ∈ path, (outcome.state.tree.slot visit.id).value = visit.value ∧
            (outcome.state.tree.slot visit.id).archive = visit.archive := by
  intro tree outcome
  have hwired : Wired tree.nodes := Tree.wired_ofTemplate template
  have hpos : 0 < tree.size := Tree.size_ofTemplate_pos template
  have hbuilt : Built tree ((new template flag).after commands) :=
    built_after template flag commands
  refine ⟨⟨?_, ?_⟩, ?_⟩
  · intro hok
    exact legal_of_yields_bindValues hwired hpos hbuilt ⟨hok, rfl⟩
  · rintro ⟨path, hlegal⟩
    obtain ⟨m', hyields, -⟩ := yields_bindValues_of_legal hwired hpos hbuilt hlegal
    exact hyields.1
  · intro path hlegal
    obtain ⟨m', ⟨-, rfl⟩, hholds⟩ := yields_bindValues_of_legal hwired hpos hbuilt hlegal
    exact ⟨hholds.path_eq, hholds.held⟩

/-- A step that collects values up to a limit, followed by the end of the token. -/
def tagsTemplate (limit : Nat) : Template :=
  let step := Step.value "Tags"
  (Chain.start "tags" { step with
    config := { step.config with multivalue := true, multivalueLimit := some limit } }
    |>.next none Step.terminal).build

theorem bindValues_accepts_legal_tagsTemplate :
    let token : Token := [("tags", .arr [.str "ant", .str "bee"])]
    let path : List Visit :=
      [⟨0, none, [.ofKey (.str "ant"), .ofKey (.str "bee")]⟩, ⟨1, none, []⟩]
    let outcome := (bindValues token).run ((new (tagsTemplate 2) true).after [.transition])
    (Tree.ofTemplate (tagsTemplate 2)).Legal token path ∧ outcome.answer = .ok () ∧
      outcome.state.tree.pathTo outcome.state.current = [0, 1] ∧
        (outcome.state.tree.slot 0).archive = [.ofKey (.str "ant"), .ofKey (.str "bee")] := by
  intro token path outcome
  have hlegal : (Tree.ofTemplate (tagsTemplate 2)).Legal token path := by
    refine ⟨rfl, ⟨?_, ⟨?_, rfl, rfl⟩, .nothing rfl, .inl rfl⟩, ?_⟩
    · refine .several rfl rfl (.next rfl rfl rfl ?_ (.next rfl rfl rfl ?_ .done)) <;>
        · rintro _ ⟨⟩
          decide
    · rintro ⟨-, ⟨⟩⟩
    · intro vkey raw hmem _
      simp only [token, List.mem_singleton, Prod.mk.injEq] at hmem
      obtain ⟨rfl, -⟩ := hmem
      exact ⟨_, List.mem_cons_self, rfl⟩
  obtain ⟨haccepts, hends⟩ := bindValues_accepts_legal (tagsTemplate 2) true [.transition] token
  obtain ⟨hpath, hheld⟩ := hends path hlegal
  exact ⟨hlegal, haccepts.2 ⟨path, hlegal⟩, hpath, (hheld _ List.mem_cons_self).2⟩

end TokenGrammar.Machine
