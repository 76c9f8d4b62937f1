import Mathlib.Data.List.Basic
import TokenGrammar.Tree

/-!
# How a tree is wired

The ids of a tree are the positions of its slots, parents and children name each other, and
a parent comes before its children.  `wired_ofTemplate` shows this for the tree of every
template; it is a fact about the nodes alone, which nothing ever changes.
-/

namespace TokenGrammar

/-- The places of the steps, each at the position of its id. -/
def Tree.nodes (tree : Tree) : List Node := tree.slots.map Slot.node

/-- Nodes that name each other as parents and children do. -/
structure Wired (nodes : List Node) : Prop where
  id_eq : ∀ {position : Nat} {node : Node}, nodes[position]? = some node → node.id = position
  parent_of : ∀ {child parent : Nat} {node : Node}, nodes[child]? = some node →
    node.parent = some parent →
    parent < child ∧ ∃ above, nodes[parent]? = some above ∧ child ∈ above.children
  child_of : ∀ {parent child : Nat} {node : Node}, nodes[parent]? = some node →
    child ∈ node.children → ∃ below, nodes[child]? = some below ∧ below.parent = some parent
  root_of : ∀ {position : Nat} {node : Node}, nodes[position]? = some node →
    (node.parent = none ↔ position = Tree.root)

/-- A run of nodes from an id on whose uppermost ones are the given roots below a parent. -/
structure Forest (parent : Option Nat) (roots : List Nat) (start : Nat) (nodes : List Node) :
    Prop where
  id_eq : ∀ {offset : Nat} {node : Node}, nodes[offset]? = some node → node.id = start + offset
  up : ∀ {offset : Nat} {node : Node}, nodes[offset]? = some node →
    (node.parent = parent ∧ start + offset ∈ roots) ∨
      ∃ before above, before < offset ∧ node.parent = some (start + before) ∧
        nodes[before]? = some above ∧ start + offset ∈ above.children
  down : ∀ {offset child : Nat} {node : Node}, nodes[offset]? = some node →
    child ∈ node.children → ∃ later below, child = start + later ∧ nodes[later]? = some below ∧
      below.parent = some (start + offset)
  roots_mem : ∀ {root : Nat}, root ∈ roots →
    ∃ offset node, root = start + offset ∧ nodes[offset]? = some node ∧ node.parent = parent

namespace Forest

variable {parent : Option Nat} {roots : List Nat} {start : Nat} {nodes : List Node}

theorem nil : Forest parent [] start [] :=
  ⟨by simp, by simp, by simp, by simp⟩

theorem append {moreRoots : List Nat} {more : List Node} (h : Forest parent roots start nodes)
    (hmore : Forest parent moreRoots (start + nodes.length) more) :
    Forest parent (roots ++ moreRoots) start (nodes ++ more) := by
  have hleft {offset : Nat} {node : Node} (hnode : nodes[offset]? = some node) :
      (nodes ++ more)[offset]? = some node := by
    rwa [List.getElem?_append_left (List.getElem?_eq_some_iff.1 hnode).1]
  have hright {offset : Nat} {node : Node} (hnode : more[offset]? = some node) :
      (nodes ++ more)[nodes.length + offset]? = some node := by
    rwa [List.getElem?_append_right (by omega), Nat.add_sub_cancel_left]
  -- A position of the joined list lies in the first forest or, shifted, in the second.
  have hsplit {offset : Nat} {node : Node} (hnode : (nodes ++ more)[offset]? = some node) :
      nodes[offset]? = some node ∨
        ∃ rest, offset = nodes.length + rest ∧ more[rest]? = some node := by
    rcases Nat.lt_or_ge offset nodes.length with hlt | hge
    · rw [List.getElem?_append_left hlt] at hnode
      exact .inl hnode
    · rw [List.getElem?_append_right hge] at hnode
      exact .inr ⟨offset - nodes.length, by omega, hnode⟩
  constructor
  · intro offset node hnode
    rcases hsplit hnode with hfirst | ⟨rest, rfl, hrest⟩
    · exact h.id_eq hfirst
    · rw [hmore.id_eq hrest, Nat.add_assoc]
  · intro offset node hnode
    rcases hsplit hnode with hfirst | ⟨rest, rfl, hrest⟩
    · rcases h.up hfirst with ⟨hparent, hroot⟩ | ⟨before, above, hlt, hparent, habove, hchild⟩
      · exact .inl ⟨hparent, List.mem_append_left _ hroot⟩
      · exact .inr ⟨before, above, hlt, hparent, hleft habove, hchild⟩
    · rcases hmore.up hrest with ⟨hparent, hroot⟩ | ⟨before, above, hlt, hparent, habove, hchild⟩
      · refine .inl ⟨hparent, List.mem_append_right _ ?_⟩
        rwa [← Nat.add_assoc]
      · refine .inr ⟨nodes.length + before, above, by omega, ?_, hright habove, ?_⟩
        · rw [hparent, Nat.add_assoc]
        · rwa [← Nat.add_assoc]
  · intro offset child node hnode hchild
    rcases hsplit hnode with hfirst | ⟨rest, rfl, hrest⟩
    · obtain ⟨later, below, rfl, hbelow, hparent⟩ := h.down hfirst hchild
      exact ⟨later, below, rfl, hleft hbelow, hparent⟩
    · obtain ⟨later, below, rfl, hbelow, hparent⟩ := hmore.down hrest hchild
      refine ⟨nodes.length + later, below, Nat.add_assoc .., hright hbelow, ?_⟩
      rw [hparent, Nat.add_assoc]
  · intro root hroot
    rcases List.mem_append.1 hroot with hroot | hroot
    · obtain ⟨offset, node, rfl, hnode, hparent⟩ := h.roots_mem hroot
      exact ⟨offset, node, rfl, hleft hnode, hparent⟩
    · obtain ⟨offset, node, rfl, hnode, hparent⟩ := hmore.roots_mem hroot
      exact ⟨nodes.length + offset, node, Nat.add_assoc .., hright hnode, hparent⟩

theorem cons {vkey : Option String} {step : Step}
    (h : Forest (some start) roots (start + 1) nodes) :
    Forest parent [start] start (⟨start, parent, roots, vkey, step⟩ :: nodes) := by
  -- Position 0 is the new node; the others stand one place later than in the forest below.
  constructor
  · intro offset node hnode
    cases offset with
    | zero =>
        obtain rfl : _ = node := by simpa using hnode
        rfl
    | succ offset =>
        rw [h.id_eq (by simpa using hnode)]
        omega
  · intro offset node hnode
    cases offset with
    | zero =>
        obtain rfl : _ = node := by simpa using hnode
        exact .inl ⟨rfl, by simp⟩
    | succ offset =>
        have hnode : nodes[offset]? = some node := by simpa using hnode
        rcases h.up hnode with ⟨hparent, hroot⟩ | ⟨before, above, hlt, hparent, habove, hchild⟩
        · refine .inr ⟨0, _, Nat.succ_pos _, hparent, rfl, ?_⟩
          rwa [show start + (offset + 1) = start + 1 + offset by omega]
        · refine .inr ⟨before + 1, above, by omega, ?_, by simpa using habove, ?_⟩
          · rw [hparent, show start + (before + 1) = start + 1 + before by omega]
          · rwa [show start + (offset + 1) = start + 1 + offset by omega]
  · intro offset child node hnode hchild
    cases offset with
    | zero =>
        obtain rfl : _ = node := by simpa using hnode
        obtain ⟨later, below, rfl, hbelow, hparent⟩ := h.roots_mem hchild
        exact ⟨later + 1, below, by omega, by simpa using hbelow, hparent⟩
    | succ offset =>
        obtain ⟨later, below, rfl, hbelow, hparent⟩ := h.down (by simpa using hnode) hchild
        refine ⟨later + 1, below, by omega, by simpa using hbelow, ?_⟩
        rw [hparent, show start + (offset + 1) = start + 1 + offset by omega]
  · intro root hroot
    obtain rfl := List.mem_singleton.1 hroot
    exact ⟨0, _, rfl, rfl, rfl⟩

theorem wired (h : Forest none [Tree.root] Tree.root nodes) : Wired nodes := by
  have hparent {position : Nat} {node : Node} (hnode : nodes[position]? = some node) :
      (node.parent = none ∧ position = 0) ∨ ∃ before above, before < position ∧
        node.parent = some before ∧ nodes[before]? = some above ∧ position ∈ above.children := by
    simpa [Tree.root] using h.up hnode
  constructor
  · intro position node hnode
    simpa [Tree.root] using h.id_eq hnode
  · intro child parent node hnode hsome
    rcases hparent hnode with ⟨hnone, -⟩ | ⟨before, above, hlt, hbefore, habove, hchild⟩
    · rw [hsome] at hnone
      cases hnone
    · obtain rfl : parent = before := by simpa [hsome] using hbefore
      exact ⟨hlt, above, habove, hchild⟩
  · intro parent child node hnode hchild
    obtain ⟨later, below, rfl, hbelow, hparent⟩ := h.down hnode hchild
    exact ⟨below, by simpa [Tree.root] using hbelow, by simpa [Tree.root] using hparent⟩
  · intro position node hnode
    rcases hparent hnode with ⟨hnone, rfl⟩ | ⟨before, above, hlt, hbefore, -⟩
    · simp [hnone, Tree.root]
    · simp [hbefore, Tree.root]
      omega

end Forest

namespace Tree

mutual

theorem length_slotsOf (parent : Option Nat) (id : Nat) :
    ∀ t : Template, (slotsOf parent id t).length = t.size
  | .node _ _ children => by
      rw [slotsOf, Template.size, List.length_cons, length_slotsOfAll id (id + 1) children]
      omega

theorem length_slotsOfAll (parent next : Nat) :
    ∀ ts : List Template, (slotsOfAll parent next ts).length = Template.sizeAll ts
  | [] => rfl
  | t :: ts => by
      rw [slotsOfAll, Template.sizeAll, List.length_append, length_slotsOf (some parent) next t,
        length_slotsOfAll parent (next + t.size) ts]

end

mutual

theorem forest_slotsOf (parent : Option Nat) (id : Nat) :
    ∀ t : Template, Forest parent [id] id ((slotsOf parent id t).map Slot.node)
  | .node _ _ children => by
      rw [slotsOf, List.map_cons]
      exact Forest.cons (forest_slotsOfAll id (id + 1) children)

theorem forest_slotsOfAll (parent next : Nat) :
    ∀ ts : List Template,
      Forest (some parent) (childIds next ts) next ((slotsOfAll parent next ts).map Slot.node)
  | [] => Forest.nil
  | t :: ts => by
      rw [slotsOfAll, List.map_append]
      refine Forest.append (forest_slotsOf (some parent) next t) ?_
      rw [List.length_map, length_slotsOf]
      exact forest_slotsOfAll parent (next + t.size) ts

end

mutual

theorem fresh_of_mem_slotsOf {slot : Slot} (parent : Option Nat) (id : Nat) :
    ∀ t : Template, slot ∈ slotsOf parent id t → ∃ node, slot = Slot.fresh node
  | .node _ _ children, hmem => by
      rw [slotsOf, List.mem_cons] at hmem
      rcases hmem with rfl | hmem
      · exact ⟨_, rfl⟩
      · exact fresh_of_mem_slotsOfAll id (id + 1) children hmem

theorem fresh_of_mem_slotsOfAll {slot : Slot} (parent next : Nat) :
    ∀ ts : List Template, slot ∈ slotsOfAll parent next ts → ∃ node, slot = Slot.fresh node
  | [], hmem => by cases hmem
  | t :: ts, hmem => by
      rw [slotsOfAll, List.mem_append] at hmem
      rcases hmem with hmem | hmem
      · exact fresh_of_mem_slotsOf (some parent) next t hmem
      · exact fresh_of_mem_slotsOfAll parent (next + t.size) ts hmem

end

/-- The tree of a template is wired as trees are. -/
theorem wired_ofTemplate (template : Template) : Wired (ofTemplate template).nodes :=
  (forest_slotsOf none root template).wired

theorem size_ofTemplate_pos (template : Template) : 0 < (ofTemplate template).size := by
  cases template with
  | node vkey step children => simp [size, ofTemplate, slotsOf]

end Tree

end TokenGrammar
