import TokenGrammar.Proofs.Machine.Output

/-!
# What a provider is told and what the token shows

The steps above the active one are told to option providers as a context, which is searched for
a key from its end, and to the users of a token as fields, of which a later one overwrites an
earlier one.  In both of them the deepest step with a key hides the others, also when it is
empty.
-/

namespace TokenGrammar

/-- Some ids are the strict ancestors of a step, root first. -/
structure Tree.Ancestors (tree : Tree) (id : Nat) (ids : List Nat) : Prop where
  top : (ids ++ [id]).head? = some root
  linked : (ids ++ [id]).IsChain fun parent child => tree.parent? child = some parent

theorem Tree.ancestors_pathTo {tree : Tree} (h : Wired tree.nodes) {id : Nat}
    (hlt : id < tree.size) : tree.Ancestors id (tree.pathTo id).dropLast := by
  constructor
  · rw [← pathTo_eq_concat h]
    exact head?_pathTo h hlt
  · rw [← pathTo_eq_concat h]
    exact isChain_pathTo h id

namespace Context

variable {entries above below : List ContextEntry} {entry : ContextEntry} {vkey : String}

/-- No later entry has the key, so the search from the end finds this one. -/
theorem get?_append (hvkey : entry.vkey = some vkey)
    (hlast : ∀ other ∈ below, other.vkey ≠ some vkey) :
    get? ⟨above ++ entry :: below⟩ vkey = entry.value := by
  have hbelow : below.reverse.find? (fun e => e.vkey == some vkey) = none := by
    simpa using hlast
  simp [get?, hbelow, hvkey]

end Context

namespace Machine

variable {m : Machine} {ids : List Nat} {vkey : String} {id : Nat}

/-- What a context tells about a step. -/
def told (m : Machine) (id : Nat) : ContextEntry :=
  ⟨m.vkeyAt id, (m.tree.slot id).name, (m.tree.slot id).value⟩

theorem Deepest.get?_told (h : m.Deepest ids vkey id) :
    Context.get? ⟨ids.map m.told⟩ vkey = (m.tree.slot id).value := by
  obtain ⟨above, below, rfl, hvkey, hlast⟩ := h
  rw [List.map_append, List.map_cons]
  refine Context.get?_append hvkey ?_
  rintro entry hmem hother
  obtain ⟨other, hbelow, rfl⟩ := List.mem_map.1 hmem
  exact hlast (List.mem_filterMap.2 ⟨other, hbelow, hother⟩)

/-- The keys of a context are those of the token that ends above the step. -/
theorem mem_keys_foldl_withEntry {project : Slot → Choice → Json} :
    vkey ∈ Fields.keys (ids.foldl (m.withEntry project) []) ↔
      ∃ entry ∈ ids.map m.told, entry.vkey = some vkey := by
  rw [keys_foldl_withEntry, List.mem_eraseDups]
  simp [told]

/-- A move back leaves the token of the steps above. -/
theorem collect_rewind {project : Slot → Choice → Json} {parent : Nat} (h : Wired m.tree.nodes)
    (hparent : m.tree.parent? m.current = some parent) :
    (rewind.run m).state.collect project =
      (m.tree.pathTo m.current).dropLast.foldl (m.withEntry project) [] := by
  rw [run_rewind_of_some hparent, Tree.pathTo_of_parent? h hparent, List.dropLast_concat]
  rfl

/-- A step with a single value writes it, or null. -/
theorem entryOf_eq_elim {project : Slot → Choice → Json} {slot : Slot}
    (h : slot.config.multivalue = false) :
    entryOf project slot = slot.value.elim .null (project slot) := by
  cases hvalue : slot.value <;> simp [entryOf, h, hvalue]

/-- Away from the root, the context of the active step tells the key, the name and the value of
each strict ancestor, root first, and the token after a move back has the very keys of the
context.  Under a key it has what the context answers for the key, or null where it has no
answer, unless the deepest ancestor with the key collects its values. -/
theorem play_context_agrees (template : Template) (flag : Bool) (turns : List Turn) :
    let m := (new template flag).play turns
    let ancestors := (m.tree.pathTo m.current).dropLast
    let context := m.tree.contextFor m.current
    let back := rewind.run m
    m.current ≠ Tree.root →
      (∃ parent, back.answer = .ok (some parent)) ∧
      m.tree.Ancestors m.current ancestors ∧ context.entries = ancestors.map m.told ∧
      (∀ vkey, vkey ∈ Fields.keys back.state.boxedToken ↔
        ∃ entry ∈ context.entries, entry.vkey = some vkey) ∧
      ∀ vkey id, m.Deepest ancestors vkey id →
        context.get? vkey = (m.tree.slot id).value ∧
        ((m.tree.slot id).config.multivalue = false →
          Fields.get? back.state.boxedToken vkey =
            some ((context.get? vkey).elim .null Choice.toJson)) := by
  intro m ancestors context back hroot
  have hsound : Sound (fun _ => True) m :=
    sound_play trivial (fun _ => trivial) (sound_new template flag)
  obtain ⟨parent, hparent⟩ : ∃ parent, m.tree.parent? m.current = some parent :=
    Option.ne_none_iff_exists'.1
      (mt (Tree.parent?_eq_none_iff hsound.wired hsound.current_lt).1 hroot)
  have htoken : back.state.boxedToken =
      ancestors.foldl (m.withEntry fun _ value => value.toJson) [] :=
    collect_rewind hsound.wired hparent
  refine ⟨⟨parent, congrArg Outcome.answer (run_rewind_of_some hparent)⟩,
    Tree.ancestors_pathTo hsound.wired hsound.current_lt, rfl, fun vkey => ?_,
    fun vkey id hdeepest => ?_⟩
  · rw [htoken]
    exact mem_keys_foldl_withEntry
  · have hget : context.get? vkey = (m.tree.slot id).value := hdeepest.get?_told
    refine ⟨hget, fun hsingle => ?_⟩
    rw [htoken, hdeepest.get?_foldl, entryOf_eq_elim hsingle, hget]

/-- A note that may be taken back by a correction under the same key. -/
def correctionTemplate : Template :=
  (Chain.start "note" (Step.value "Note")
    |>.next "note" (Step.plain .value "Correction")
    |>.next none Step.terminal).build

/-- An empty correction hides the note from providers and in the token. -/
theorem play_context_agrees_correctionTemplate :
    let m := (new correctionTemplate false).play
      [.call (.edit (.setRaw (.str "ant"))), .call .transition, .call .transition]
    let context := m.tree.contextFor m.current
    m.current = 2 ∧ m.current ≠ Tree.root ∧
      context.entries.map (·.value) = [some (.ofKey (.str "ant")), none] ∧
      m.Deepest [0, 1] "note" 1 ∧ context.get? "note" = none ∧
      Fields.get? (rewind.run m).state.boxedToken "note" = some .null := by
  intro m context
  have hroot : m.current ≠ Tree.root := by decide
  have hdeepest : m.Deepest [0, 1] "note" 1 := ⟨[0], [], rfl, rfl, List.not_mem_nil⟩
  obtain ⟨-, -, -, -, hshadows⟩ := play_context_agrees correctionTemplate false
    [.call (.edit (.setRaw (.str "ant"))), .call .transition, .call .transition] hroot
  obtain ⟨hget, hentry⟩ := hshadows "note" 1 hdeepest
  exact ⟨rfl, hroot, rfl, hdeepest, hget, hentry rfl⟩

end Machine

end TokenGrammar
