import Mathlib.Data.List.Chain
import Mathlib.Data.List.Find
import TokenGrammar.Proofs.Tree.Wiring

/-!
# Slots and paths of a tree

Replacing a slot by one of the same step leaves the wiring as it is.  The path to a step is
the path to its parent with the step at its end; the measure is the id, because a parent
has the smaller one.
-/

namespace TokenGrammar.Tree

variable {tree other : Tree} {id : Nat}

/-! ## Looking up slots -/

theorem getElem?_nodes (tree : Tree) (id : Nat) :
    tree.nodes[id]? = (tree.get? id).map Slot.node := by
  simp [nodes, get?]

theorem length_nodes (tree : Tree) : tree.nodes.length = tree.size := by
  simp [nodes, size]

theorem get?_of_lt (h : id < tree.size) : tree.get? id = some (tree.slot id) := by
  have hget : tree.slots[id]? = some tree.slots[id] := List.getElem?_eq_getElem h
  simp [slot, get?, hget]

theorem get?_of_ge (h : tree.size ≤ id) : tree.get? id = none :=
  List.getElem?_eq_none h

theorem slot_of_ge (h : tree.size ≤ id) : tree.slot id = default := by
  simp [slot, get?_of_ge h]

theorem getElem?_nodes_of_lt (h : id < tree.size) :
    tree.nodes[id]? = some (tree.slot id).node := by
  rw [getElem?_nodes, get?_of_lt h]
  rfl

/-- Nothing has happened on any step of a new tree. -/
theorem slot_ofTemplate (template : Template) (id : Nat) :
    ∃ node, (ofTemplate template).slot id = Slot.fresh node := by
  rcases Nat.lt_or_ge id (ofTemplate template).size with hlt | hge
  · exact fresh_of_mem_slotsOf none root template (List.mem_of_getElem? (get?_of_lt hlt))
  · exact ⟨default, slot_of_ge hge⟩

theorem size_congr (h : tree.nodes = other.nodes) : tree.size = other.size :=
  calc tree.size
    _ = tree.nodes.length := (length_nodes tree).symm
    _ = other.nodes.length := congrArg List.length h
    _ = other.size := length_nodes other

theorem slot_node_congr (h : tree.nodes = other.nodes) (id : Nat) :
    (tree.slot id).node = (other.slot id).node := by
  have hsize : tree.size = other.size := size_congr h
  rcases Nat.lt_or_ge id tree.size with hlt | hge
  · have hnode := getElem?_nodes_of_lt hlt
    rw [h, getElem?_nodes_of_lt (hsize ▸ hlt)] at hnode
    exact (Option.some.inj hnode).symm
  · rw [slot_of_ge hge, slot_of_ge (hsize ▸ hge)]

theorem parent?_eq (tree : Tree) (id : Nat) :
    tree.parent? id = tree.nodes[id]?.bind Node.parent := by
  rw [getElem?_nodes, parent?]
  cases tree.get? id <;> rfl

theorem parent?_congr (h : tree.nodes = other.nodes) (id : Nat) :
    tree.parent? id = other.parent? id := by
  rw [parent?_eq, parent?_eq, h]

/-! ## Replacing a slot -/

@[simp] theorem size_set (tree : Tree) (id : Nat) (slot : Slot) :
    (tree.set id slot).size = tree.size := by
  simp [set, size]

theorem slot_set_self (h : id < tree.size) (slot : Slot) :
    (tree.set id slot).slot id = slot := by
  have hget : (tree.slots.set id slot)[id]? = some slot := by
    rw [List.getElem?_set_self h]
  simp [Tree.slot, get?, set, hget]

theorem slot_set_ne {target : Nat} (h : target ≠ id) (slot : Slot) :
    (tree.set id slot).slot target = tree.slot target := by
  simp [Tree.slot, get?, set, List.getElem?_set_ne h.symm]

/-- Replacing a slot puts the new one in its place, unless there is no such place. -/
theorem slot_set (tree : Tree) (id : Nat) (slot : Slot) (target : Nat) :
    (tree.set id slot).slot target = tree.slot target ∨
      target = id ∧ (tree.set id slot).slot target = slot := by
  by_cases htarget : target = id
  · subst htarget
    rcases Nat.lt_or_ge target tree.size with hlt | hge
    · exact .inr ⟨rfl, slot_set_self hlt slot⟩
    · refine .inl ?_
      rw [slot_of_ge hge, slot_of_ge (by simpa using hge)]
  · exact .inl (slot_set_ne htarget slot)

theorem set_slot (tree : Tree) (id : Nat) : tree.set id (tree.slot id) = tree := by
  rcases Nat.lt_or_ge id tree.slots.length with hlt | hge
  · have hget : tree.slot id = tree.slots[id] := by
      simp [slot, get?, List.getElem?_eq_getElem hlt]
    rw [set, hget, List.set_getElem_self]
  · rw [set, List.set_eq_of_length_le hge]

theorem set_set (tree : Tree) (id : Nat) (first second : Slot) :
    (tree.set id first).set id second = tree.set id second := by
  simp [set, List.set_set]

theorem nodes_set {slot : Slot} (h : slot.node = (tree.slot id).node) :
    (tree.set id slot).nodes = tree.nodes := by
  have hmap : (tree.set id slot).nodes = (tree.set id (tree.slot id)).nodes := by
    simp only [nodes, set, List.map_set, h]
  rw [hmap, set_slot]

theorem slot_reset (h : id < tree.size) :
    tree.reset.state.slot id = (tree.slot id).reset.state := by
  simp [Tree.slot, get?, reset, List.getElem?_eq_getElem (show id < tree.slots.length from h)]

theorem size_reset (tree : Tree) : tree.reset.state.size = tree.size := by
  simp [reset, size]

theorem nodes_reset (tree : Tree) : tree.reset.state.nodes = tree.nodes := by
  simp only [reset, nodes, List.map_map]
  rfl

/-! ## Parents and children -/

def childrenOf (tree : Tree) (id : Nat) : List Nat := (tree.slot id).node.children

/-- The children that users may enter. -/
def openChildren (tree : Tree) (id : Nat) : List Nat :=
  (tree.childrenOf id).filter fun child => !(tree.slot child).config.bindOnly

/-- The first of some steps whose guard accepts the value of a step. -/
def firstAccepting? (tree : Tree) (id : Nat) (candidates : List Nat) : Option Nat :=
  candidates.find? fun child => (tree.slot child).config.guard (tree.slot id).value

section Wired

variable (h : Wired tree.nodes)

include h

theorem parent_lt {child parent : Nat} (hparent : tree.parent? child = some parent) :
    parent < child := by
  rw [parent?_eq] at hparent
  obtain ⟨node, hnode, hsome⟩ := Option.bind_eq_some_iff.1 hparent
  exact (h.parent_of hnode hsome).1

theorem lt_size_of_parent? {child parent : Nat} (hparent : tree.parent? child = some parent) :
    child < tree.size ∧ parent < tree.size := by
  have hlt := parent_lt h hparent
  have hchild : child < tree.size := by
    by_contra hge
    rw [parent?, get?_of_ge (Nat.le_of_not_lt hge)] at hparent
    cases hparent
  omega

theorem parent?_of_mem_children {child parent : Nat}
    (hmem : child ∈ (tree.slot parent).node.children) : tree.parent? child = some parent := by
  rcases Nat.lt_or_ge parent tree.size with hlt | hge
  · obtain ⟨below, hbelow, hparent⟩ := h.child_of (getElem?_nodes_of_lt hlt) hmem
    rw [parent?_eq, hbelow]
    exact hparent
  · rw [slot_of_ge hge] at hmem
    cases hmem

theorem parent?_eq_none_iff (hlt : id < tree.size) : tree.parent? id = none ↔ id = root := by
  rw [parent?_eq, getElem?_nodes_of_lt hlt]
  exact h.root_of (getElem?_nodes_of_lt hlt)

/-- The first child that may be entered, without the detour over its parent's id. -/
theorem firstChild?_eq (id : Nat) (ignoreBindOnly : Bool) :
    tree.firstChild? id ignoreBindOnly =
      (tree.slot id).node.children.find? fun child =>
        (tree.slot child).accepts (tree.slot id).value ignoreBindOnly := by
  unfold firstChild?
  refine List.find?_congr fun child hmem => ?_
  simp [canEnter, parent?_of_mem_children h hmem]

theorem firstChild?_false (id : Nat) :
    tree.firstChild? id false = tree.firstAccepting? id (tree.openChildren id) := by
  rw [firstChild?_eq h, firstAccepting?, openChildren, List.find?_filter]
  refine List.find?_congr fun child _ => ?_
  simp [Slot.accepts]

theorem firstChild?_true (id : Nat) :
    tree.firstChild? id true = tree.firstAccepting? id (tree.childrenOf id) := by
  rw [firstChild?_eq h]
  simp only [Slot.accepts, Bool.or_true, Bool.true_and]
  rfl

theorem parent?_of_firstChild? {child : Nat} {ignoreBindOnly : Bool}
    (hfirst : tree.firstChild? id ignoreBindOnly = some child) :
    tree.parent? child = some id :=
  parent?_of_mem_children h (List.mem_of_find?_eq_some hfirst)

/-! ## Paths -/

omit h in
theorem pathTo_of_parent?_none (hnone : tree.parent? id = none) : tree.pathTo id = [id] := by
  simp [pathTo, climb, hnone]

/-- More rounds than the id counts change nothing. -/
theorem climb_eq {rounds : Nat} (hrounds : id < rounds) :
    tree.climb rounds id = tree.climb (id + 1) id := by
  -- The climb goes on at the parent, which has a smaller id.
  induction id using Nat.strongRecOn generalizing rounds with
  | _ id ih =>
      obtain ⟨rounds, rfl⟩ : ∃ n, rounds = n + 1 := ⟨rounds - 1, by omega⟩
      simp only [climb]
      cases hparent : tree.parent? id with
      | none => rfl
      | some parent =>
          have hlt := parent_lt h hparent
          simp only [ih parent hlt (by omega : parent < rounds), ih parent hlt hlt]

theorem pathTo_of_parent? {parent : Nat} (hparent : tree.parent? id = some parent) :
    tree.pathTo id = tree.pathTo parent ++ [id] := by
  have hlt := parent_lt h hparent
  have hclimb : tree.climb (id + 1) id = id :: tree.climb id parent := by
    simp [climb, hparent]
  rw [pathTo, hclimb, climb_eq h hlt, List.reverse_cons]
  rfl

theorem parent?_root : tree.parent? root = none := by
  cases hparent : tree.parent? root with
  | none => rfl
  | some parent => exact absurd (parent_lt h hparent) (Nat.not_lt_zero parent)

theorem pathTo_root : tree.pathTo root = [root] :=
  pathTo_of_parent?_none (parent?_root h)

/-- A fact about all paths follows from the root's and from one step down. -/
theorem pathTo_induction {motive : Nat → List Nat → Prop}
    (top : ∀ id, tree.parent? id = none → motive id [id])
    (down : ∀ id parent, tree.parent? id = some parent → motive parent (tree.pathTo parent) →
      motive id (tree.pathTo parent ++ [id]))
    (id : Nat) : motive id (tree.pathTo id) := by
  induction id using Nat.strongRecOn with
  | _ id ih =>
      cases hparent : tree.parent? id with
      | none =>
          rw [pathTo_of_parent?_none hparent]
          exact top id hparent
      | some parent =>
          rw [pathTo_of_parent? h hparent]
          exact down id parent hparent (ih parent (parent_lt h hparent))

theorem le_of_mem_pathTo {ancestor : Nat} (hmem : ancestor ∈ tree.pathTo id) :
    ancestor ≤ id := by
  refine pathTo_induction h (motive := fun id path => ∀ a ∈ path, a ≤ id) ?_ ?_ id ancestor hmem
  · simp
  · intro id parent hparent ih a ha
    have hlt := parent_lt h hparent
    rcases List.mem_append.1 ha with ha | ha
    · calc a
        _ ≤ parent := ih a ha
        _ ≤ id := Nat.le_of_lt hlt
    · exact Nat.le_of_eq (List.mem_singleton.1 ha)

theorem lt_of_mem_dropLast_pathTo {ancestor : Nat}
    (hmem : ancestor ∈ (tree.pathTo id).dropLast) : ancestor < id := by
  cases hparent : tree.parent? id with
  | none => simp [pathTo_of_parent?_none hparent] at hmem
  | some parent =>
      rw [pathTo_of_parent? h hparent, List.dropLast_concat] at hmem
      calc ancestor
        _ ≤ parent := le_of_mem_pathTo h hmem
        _ < id := parent_lt h hparent

theorem getLast?_pathTo (id : Nat) : (tree.pathTo id).getLast? = some id := by
  cases hparent : tree.parent? id with
  | none => simp [pathTo_of_parent?_none hparent]
  | some parent => simp [pathTo_of_parent? h hparent]

theorem pathTo_eq_concat (id : Nat) : tree.pathTo id = (tree.pathTo id).dropLast ++ [id] :=
  (List.dropLast_append_getLast? id (getLast?_pathTo h id)).symm

theorem head?_pathTo (hlt : id < tree.size) : (tree.pathTo id).head? = some root := by
  refine pathTo_induction h (motive := fun id path => id < tree.size → path.head? = some root)
    ?_ ?_ id hlt
  · intro id hnone hid
    rw [(parent?_eq_none_iff h hid).1 hnone]
    rfl
  · intro id parent hparent ih _
    rw [List.head?_append, ih (lt_size_of_parent? h hparent).2]
    rfl

theorem mem_childrenOf_of_parent? {child parent : Nat}
    (hparent : tree.parent? child = some parent) : child ∈ tree.childrenOf parent := by
  rw [parent?_eq] at hparent
  obtain ⟨node, hnode, hsome⟩ := Option.bind_eq_some_iff.1 hparent
  obtain ⟨-, above, habove, hchild⟩ := h.parent_of hnode hsome
  rw [getElem?_nodes] at habove
  obtain ⟨slot, hslot, rfl⟩ := Option.map_eq_some_iff.1 habove
  rwa [childrenOf, Tree.slot, hslot]

/-- Wherever there is a step besides the root, the root has children. -/
theorem childrenOf_root_ne_nil (hlt : id < tree.size) (hne : id ≠ root) :
    tree.childrenOf root ≠ [] := by
  refine pathTo_induction h (motive := fun id _ => id < tree.size → id ≠ root →
    tree.childrenOf root ≠ []) ?_ ?_ id hlt hne
  · intro id hnone hid hne
    exact absurd ((parent?_eq_none_iff h hid).1 hnone) hne
  · intro id parent hparent ih _ _
    by_cases hroot : parent = root
    · rw [← hroot]
      exact List.ne_nil_of_mem (mem_childrenOf_of_parent? h hparent)
    · exact ih (lt_size_of_parent? h hparent).2 hroot

/-- From every step some way leads to an end. -/
theorem exists_leaf_below (hlt : id < tree.size) :
    ∃ leaf < tree.size, tree.childrenOf leaf = [] ∧ tree.pathTo id <+: tree.pathTo leaf := by
  -- Children have greater ids, so that there are fewer steps behind them.
  induction hn : tree.size - id using Nat.strongRecOn generalizing id with
  | _ n ih =>
      cases hchildren : tree.childrenOf id with
      | nil => exact ⟨id, hlt, hchildren, List.prefix_refl _⟩
      | cons child children =>
          have hmem : child ∈ (tree.slot id).node.children := by
            rw [← childrenOf, hchildren]
            exact List.mem_cons_self
          have hparent := parent?_of_mem_children h hmem
          have hgreater := parent_lt h hparent
          have hchild := (lt_size_of_parent? h hparent).1
          obtain ⟨leaf, hleaf, hend, hpath⟩ := ih (tree.size - child) (by omega) hchild rfl
          rw [pathTo_of_parent? h hparent] at hpath
          exact ⟨leaf, hleaf, hend, (List.prefix_append _ _).trans hpath⟩

theorem isChain_pathTo (id : Nat) :
    (tree.pathTo id).IsChain fun parent child => tree.parent? child = some parent := by
  refine pathTo_induction h (motive := fun _ path =>
    path.IsChain fun parent child => tree.parent? child = some parent) ?_ ?_ id
  · simp
  · intro id parent hparent ih
    refine List.isChain_append.2 ⟨ih, List.isChain_singleton _, ?_⟩
    rintro last hlast next hnext
    rw [getLast?_pathTo h, Option.mem_some_iff] at hlast
    obtain rfl : id = next := by simpa using hnext
    rw [← hlast, hparent]

end Wired

theorem childrenOf_congr (h : tree.nodes = other.nodes) (id : Nat) :
    tree.childrenOf id = other.childrenOf id := by
  rw [childrenOf, childrenOf, slot_node_congr h]

theorem climb_congr (h : tree.nodes = other.nodes) (rounds id : Nat) :
    tree.climb rounds id = other.climb rounds id := by
  induction rounds generalizing id with
  | zero => rfl
  | succ rounds ih => simp only [climb, parent?_congr h, ih]

theorem pathTo_congr (h : tree.nodes = other.nodes) (id : Nat) :
    tree.pathTo id = other.pathTo id := by
  rw [pathTo, pathTo, climb_congr h]

end TokenGrammar.Tree
