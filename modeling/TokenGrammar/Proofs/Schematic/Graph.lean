import Mathlib.Data.List.Forall2
import TokenGrammar.Proofs.Schematic.Ids
import TokenGrammar.Proofs.Tree.Arena

/-!
# A schematic and its tree

Nodes and slots are numbered by two recursions of their own over the template.  They visit it in
the same order, so that the node at a position depicts the slot with that id, and every slot
but the root's has one edge, from the node of its parent to its own.
-/

namespace TokenGrammar

/-- The node shows what the step of the slot is. -/
structure SchematicNode.Depicts (node : SchematicNode) (slot : Slot) : Prop where
  kind_eq : node.kind = slot.node.step.kind.name
  label_eq : node.label = slot.name
  vkey_eq : node.vkey = slot.node.vkey
  multivalue_eq : node.multivalue = slot.config.multivalue
  readOnly_eq : node.readOnly = slot.config.readOnly
  terminal_eq : node.terminal = slot.isTerminal

/-- The edge leads from the node of the slot's parent to the node of the slot. -/
def SchematicEdge.Connects (nodes : List SchematicNode) (edge : SchematicEdge) (slot : Slot) :
    Prop :=
  ∃ parent above below, slot.node.parent = some parent ∧ nodes[parent]? = some above ∧
    nodes[slot.node.id]? = some below ∧ edge.source = above.id ∧ edge.target = below.id ∧
      (edge.kind = .bindOnly ↔ slot.config.bindOnly = true)

/-- The slots of a template begin with the one of its root. -/
theorem Tree.slotsOf_eq_cons (parent : Option Nat) (id : Nat) (t : Template) :
    slotsOf parent id t =
      Slot.fresh ⟨id, parent, childIds (id + 1) t.children, t.vkey, t.step⟩ ::
        (slotsOf parent id t).tail := by
  cases t with
  | node vkey step children => rfl

namespace Template

variable {nodes : List SchematicNode}

/-! ## Nodes -/

theorem depicts_schematicNode (id : String) (position : Nat) (parent : Option Nat)
    (vkey : Option String) (step : Step) (children : List Template) :
    (schematicNode id (.node vkey step children)).Depicts
      (Slot.fresh ⟨position, parent, Tree.childIds (position + 1) children, vkey, step⟩) where
  kind_eq := rfl
  label_eq := rfl
  vkey_eq := rfl
  multivalue_eq := rfl
  readOnly_eq := rfl
  terminal_eq := (Tree.isEmpty_childIds (position + 1) children).symm

mutual

theorem depicts_slotsOf (id : String) (parent : Option Nat) (position : Nat) :
    ∀ t : Template,
      List.Forall₂ SchematicNode.Depicts (t.schematicNodes id) (Tree.slotsOf parent position t)
  | .node vkey step children => by
      rw [schematicNodes, Tree.slotsOf]
      exact .cons (depicts_schematicNode id position parent vkey step children)
        (depicts_slotsOfAll id 0 position (position + 1) children)

theorem depicts_slotsOfAll (id : String) (index parent next : Nat) :
    ∀ ts : List Template,
      List.Forall₂ SchematicNode.Depicts (schematicNodesAll id index ts)
        (Tree.slotsOfAll parent next ts)
  | [] => .nil
  | t :: ts => by
      rw [schematicNodesAll, Tree.slotsOfAll]
      exact List.rel_append (depicts_slotsOf (childId id index) (some parent) next t)
        (depicts_slotsOfAll id (index + 1) parent (next + t.size) ts)

end

theorem length_schematicNodes (id : String) (t : Template) :
    (t.schematicNodes id).length = t.size := by
  rw [(depicts_slotsOf id none Tree.root t).length_eq, Tree.length_slotsOf]

/-! ## Edges -/

/-- The first of the nodes of a template is that of its root. -/
theorem exists_root_schematicNodes (id : String) (t : Template) :
    ∃ root rest, t.schematicNodes id = root :: rest ∧ root.id = id := by
  cases t with
  | node vkey step children => exact ⟨_, _, rfl, rfl⟩

/-- The edge to a child connects the parent's node with the child's. -/
theorem connects_schematicEdge {before behind : List SchematicNode} {above : SchematicNode}
    {parent : Nat} (index : Nat) (t : Template)
    (habove : nodes[parent]? = some above)
    (hnodes : nodes = before ++ (t.schematicNodes (childId above.id index) ++ behind))
    (children : List Nat) :
    (schematicEdge above.id (childId above.id index) t).Connects nodes
      (Slot.fresh ⟨before.length, some parent, children, t.vkey, t.step⟩) := by
  obtain ⟨root, rest, hroot, hid⟩ := exists_root_schematicNodes (childId above.id index) t
  have hbelow : nodes[before.length]? = some root := by simp [hnodes, hroot]
  refine ⟨parent, above, root, rfl, habove, hbelow, rfl, hid.symm, ?_⟩
  cases hbind : t.step.config.bindOnly <;> simp [schematicEdge, Slot.config, Slot.fresh, hbind]

mutual

/-- The nodes of a template stand somewhere among all nodes, as far behind the start as its
slots. -/
theorem connects_slotsOf (id : String) (parent : Option Nat) (before behind : List SchematicNode) :
    ∀ t : Template, nodes = before ++ (t.schematicNodes id ++ behind) →
      List.Forall₂ (SchematicEdge.Connects nodes) (t.schematicEdges id)
        (Tree.slotsOf parent before.length t).tail
  | .node vkey step children, hnodes => by
      have habove : nodes[before.length]? = some (schematicNode id (.node vkey step children)) := by
        simp [hnodes, schematicNodes]
      rw [schematicNodes, List.cons_append, List.append_cons] at hnodes
      have hbelow := connects_slotsOfAll 0 _ behind children habove hnodes
      rwa [List.length_append] at hbelow

theorem connects_slotsOfAll {above : SchematicNode} {parent : Nat} (index : Nat)
    (before behind : List SchematicNode) :
    ∀ ts : List Template, nodes[parent]? = some above →
      nodes = before ++ (schematicNodesAll above.id index ts ++ behind) →
      List.Forall₂ (SchematicEdge.Connects nodes) (schematicEdgesAll above.id index ts)
        (Tree.slotsOfAll parent before.length ts)
  | [], _, _ => .nil
  | t :: ts, habove, hnodes => by
      rw [schematicNodesAll, List.append_assoc] at hnodes
      have hroot := connects_schematicEdge index t habove hnodes
        (Tree.childIds (before.length + 1) t.children)
      have hbelow := connects_slotsOf (childId above.id index) (some parent) before _ t hnodes
      rw [← List.append_assoc] at hnodes
      have hrest := connects_slotsOfAll (index + 1) _ behind ts habove hnodes
      rw [List.length_append, length_schematicNodes] at hrest
      rw [schematicEdgesAll, Tree.slotsOfAll, Tree.slotsOf_eq_cons]
      exact List.rel_append (.cons hroot hbelow) hrest

end

end Template

/-! ## The schematic of a template -/

/-- An id that no two nodes share leads back to its node. -/
theorem Schematic.node?_id {s : Schematic} (h : (s.nodes.map SchematicNode.id).Nodup)
    {node : SchematicNode} (hmem : node ∈ s.nodes) : s.node? node.id = some node := by
  rw [node?]
  cases hfind : s.nodes.find? fun other => other.id == node.id with
  | none => exact absurd (beq_self_eq_true node.id) (List.find?_eq_none.1 hfind node hmem)
  | some found =>
      have hid : found.id = node.id := by simpa using List.find?_some hfind
      rw [List.inj_on_of_nodup_map h (List.mem_of_find?_eq_some hfind) hmem hid]

/-- The schematic is the graph of the tree: the node at each position depicts the slot with that
id, the ids of the nodes tell them apart, and each slot but the root's has its edge. -/
structure Schematic.Draws (s : Schematic) (tree : Tree) : Prop where
  nodes_depict : List.Forall₂ SchematicNode.Depicts s.nodes tree.slots
  ids_nodup : (s.nodes.map SchematicNode.id).Nodup
  node?_id : ∀ node ∈ s.nodes, s.node? node.id = some node
  edges_connect : List.Forall₂ (SchematicEdge.Connects s.nodes) s.edges tree.slots.tail

theorem Template.draws_schematic (t : Template) (name : String) :
    (t.schematic name).Draws (Tree.ofTemplate t) where
  nodes_depict := depicts_slotsOf "0" none Tree.root t
  ids_nodup := nodup_ids "0" t
  node?_id := fun _ hmem => Schematic.node?_id (nodup_ids "0" t) hmem
  edges_connect := connects_slotsOf "0" none [] [] t (List.append_nil _).symm

end TokenGrammar
