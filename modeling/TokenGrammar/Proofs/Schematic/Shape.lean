import TokenGrammar.Proofs.Schematic.Graph
import TokenGrammar.Proofs.Schematic.Reading

/-!
# What a schematic keeps of its template

A schematic is two flat lists, and a step's place in the tree is in the ids only.  The ids below
each child of a step begin with the index of that child, so the list of nodes can be cut where
one child ends and the next one begins, and the list of edges by the sizes of the parts.  Hence
the template can be told from the schematic, up to what a schematic does not show of a step.
-/

namespace TokenGrammar

/-- A schematic shows the two steps in the same way. -/
structure Step.ShownLike (a b : Step) : Prop where
  name : a.config.name = b.config.name
  kind : a.kind.name = b.kind.name
  multivalue : a.config.multivalue = b.config.multivalue
  readOnly : a.config.readOnly = b.config.readOnly

namespace Template

mutual

/-- The two templates are one tree, with the same keys and with steps that are shown in the same
way.  How the roots are reached is left open. -/
def ShapedLike : Template → Template → Prop
  | .node vkey step children, .node vkey' step' children' =>
    vkey = vkey' ∧ step.ShownLike step' ∧ AllShapedLike children children'

/-- The same for children in their order, which are also reached in the same way. -/
def AllShapedLike : List Template → List Template → Prop
  | [], [] => True
  | t :: ts, u :: us =>
    t.step.config.bindOnly = u.step.config.bindOnly ∧ t.ShapedLike u ∧ AllShapedLike ts us
  | [], _ :: _ | _ :: _, [] => False

end

/-! ## From the schematic to the template -/

/-- The node is the one of the child at an index or stands somewhere below it. -/
def Under (id : String) (index : Nat) (node : SchematicNode) : Prop :=
  ∃ place, node.id = placeId id (index :: place)

theorem under_of_mem_schematicNodes {id : String} {index : Nat} {t : Template}
    {node : SchematicNode} (h : node ∈ t.schematicNodes (childId id index)) :
    Under id index node := by
  have hid := List.mem_map_of_mem (f := SchematicNode.id) h
  rw [ids_schematicNodes] at hid
  obtain ⟨place, -, hplace⟩ := List.mem_map.1 hid
  exact ⟨place, by rw [← hplace, placeId_childId]⟩

theorem not_under_of_mem_schematicNodesAll {id : String} {index : Nat} {ts : List Template}
    {node : SchematicNode} (h : node ∈ schematicNodesAll id (index + 1) ts) :
    ¬ Under id index node := by
  rintro ⟨place, hplace⟩
  have hid := List.mem_map_of_mem (f := SchematicNode.id) h
  rw [ids_schematicNodesAll] at hid
  obtain ⟨other, hother, heq⟩ := List.mem_map.1 hid
  obtain ⟨first, rest, rfl, hle⟩ := exists_index_of_mem_placesAll hother
  obtain ⟨rfl, -⟩ := List.cons.inj (placeId_inj (heq.trans hplace))
  exact absurd hle (Nat.not_succ_le_self _)

open Classical in
theorem filter_under (id : String) (index : Nat) (t : Template) (ts : List Template) :
    (schematicNodesAll id index (t :: ts)).filter (fun node => Under id index node) =
      t.schematicNodes (childId id index) := by
  have hfirst : ∀ node ∈ t.schematicNodes (childId id index),
      decide (Under id index node) = true :=
    fun node h => decide_eq_true (under_of_mem_schematicNodes h)
  have hrest : ∀ node ∈ schematicNodesAll id (index + 1) ts,
      ¬ decide (Under id index node) = true :=
    fun node h => by simpa using not_under_of_mem_schematicNodesAll h
  rw [schematicNodesAll, List.filter_append, List.filter_eq_self.2 hfirst,
    List.filter_eq_nil_iff.2 hrest, List.append_nil]

/-- The nodes of several children can be cut behind those of the first child. -/
theorem schematicNodesAll_cons_inj {id : String} {index : Nat} {t u : Template}
    {ts us : List Template}
    (h : schematicNodesAll id index (t :: ts) = schematicNodesAll id index (u :: us)) :
    t.schematicNodes (childId id index) = u.schematicNodes (childId id index) ∧
      schematicNodesAll id (index + 1) ts = schematicNodesAll id (index + 1) us := by
  have hfirst : t.schematicNodes (childId id index) = u.schematicNodes (childId id index) := by
    rw [← filter_under id index t ts, h, filter_under]
  rw [schematicNodesAll, schematicNodesAll, hfirst, List.append_cancel_left_eq] at h
  exact ⟨hfirst, h⟩

theorem schematicNodesAll_cons_ne_nil (id : String) (index : Nat) (t : Template)
    (ts : List Template) : schematicNodesAll id index (t :: ts) ≠ [] := by
  obtain ⟨root, rest, hroot, -⟩ := exists_root_schematicNodes (childId id index) t
  rw [schematicNodesAll, hroot]
  exact List.cons_ne_nil _ _

/-- Every node but the first has its edge. -/
theorem length_schematicEdges (id : String) (t : Template) :
    (t.schematicEdges id).length = t.size - 1 := by
  have hedges := (connects_slotsOf id none [] [] t (List.append_nil _).symm).length_eq
  rwa [List.length_tail, Tree.length_slotsOf] at hedges

theorem schematicEdge_eq_iff {source target : String} {t u : Template} :
    schematicEdge source target t = schematicEdge source target u ↔
      t.step.config.bindOnly = u.step.config.bindOnly := by
  unfold schematicEdge
  cases t.step.config.bindOnly <;> cases u.step.config.bindOnly <;> simp

mutual

theorem shapedLike_of_lists (id : String) :
    ∀ t u : Template, t.schematicNodes id = u.schematicNodes id →
      t.schematicEdges id = u.schematicEdges id → t.ShapedLike u
  | .node vkey step children, .node vkey' step' children', hnodes, hedges => by
      rw [schematicNodes, schematicNodes] at hnodes
      obtain ⟨hroot, hbelow⟩ := List.cons.inj hnodes
      simp only [schematicNode, SchematicNode.mk.injEq] at hroot
      obtain ⟨-, hkind, hname, hvkey, hmultivalue, hreadOnly, -⟩ := hroot
      exact ⟨hvkey, ⟨hname, hkind, hmultivalue, hreadOnly⟩,
        allShapedLike_of_lists id 0 children children' hbelow hedges⟩

theorem allShapedLike_of_lists (id : String) (index : Nat) :
    ∀ ts us : List Template, schematicNodesAll id index ts = schematicNodesAll id index us →
      schematicEdgesAll id index ts = schematicEdgesAll id index us → AllShapedLike ts us
  | [], [], _, _ => trivial
  | [], u :: us, hnodes, _ => schematicNodesAll_cons_ne_nil id index u us hnodes.symm
  | t :: ts, [], hnodes, _ => schematicNodesAll_cons_ne_nil id index t ts hnodes
  | t :: ts, u :: us, hnodes, hedges => by
      obtain ⟨hfirst, hrest⟩ := schematicNodesAll_cons_inj hnodes
      -- The edges have no ids of their own to cut at, but their number follows from the nodes.
      have hsize : t.size = u.size := by
        rw [← length_schematicNodes (childId id index) t, hfirst, length_schematicNodes]
      rw [schematicEdgesAll, schematicEdgesAll] at hedges
      obtain ⟨hedge, hedges⟩ := List.cons.inj hedges
      obtain ⟨hbelow, hmore⟩ := List.append_inj hedges (by
        rw [length_schematicEdges, length_schematicEdges, hsize])
      exact ⟨schematicEdge_eq_iff.1 hedge, shapedLike_of_lists _ t u hfirst hbelow,
        allShapedLike_of_lists id (index + 1) ts us hrest hmore⟩

end

/-! ## From the template to the schematic -/

theorem isEmpty_of_allShapedLike :
    ∀ {ts us : List Template}, AllShapedLike ts us → ts.isEmpty = us.isEmpty
  | [], [], _ => rfl
  | _ :: _, _ :: _, _ => rfl

mutual

theorem lists_of_shapedLike (id : String) :
    ∀ t u : Template, t.ShapedLike u →
      t.schematicNodes id = u.schematicNodes id ∧ t.schematicEdges id = u.schematicEdges id
  | .node vkey step children, .node vkey' step' children', h => by
      obtain ⟨rfl, hstep, hchildren⟩ := h
      obtain ⟨hnodes, hedges⟩ := lists_of_allShapedLike id 0 children children' hchildren
      rw [schematicNodes, schematicNodes, schematicEdges, schematicEdges, hnodes, hedges]
      simp [schematicNode, hstep.name, hstep.kind, hstep.multivalue, hstep.readOnly,
        isEmpty_of_allShapedLike hchildren]

theorem lists_of_allShapedLike (id : String) (index : Nat) :
    ∀ ts us : List Template, AllShapedLike ts us →
      schematicNodesAll id index ts = schematicNodesAll id index us ∧
        schematicEdgesAll id index ts = schematicEdgesAll id index us
  | [], [], _ => ⟨rfl, rfl⟩
  | t :: ts, u :: us, ⟨hbindOnly, hfirst, hrest⟩ => by
      obtain ⟨hnodes, hedges⟩ := lists_of_shapedLike (childId id index) t u hfirst
      obtain ⟨hmoreNodes, hmoreEdges⟩ := lists_of_allShapedLike id (index + 1) ts us hrest
      rw [schematicNodesAll, schematicNodesAll, schematicEdgesAll, schematicEdgesAll, hnodes,
        hedges, hmoreNodes, hmoreEdges, schematicEdge_eq_iff.2 hbindOnly]
      exact ⟨rfl, rfl⟩

end

theorem schematic_eq_iff {name : String} {t u : Template} :
    t.schematic name = u.schematic name ↔ t.ShapedLike u := by
  rw [schematic, schematic, Schematic.mk.injEq]
  constructor
  · rintro ⟨-, hnodes, hedges⟩
    exact shapedLike_of_lists "0" t u hnodes hedges
  · intro h
    obtain ⟨hnodes, hedges⟩ := lists_of_shapedLike "0" t u h
    exact ⟨rfl, hnodes, hedges⟩

end Template

/-- Nothing is lost on the way out: a schematic reads back from what it is written as, and two
templates whose schematics under one name are written as equal values are one tree, step for step
with the same key, name, kind, flags and, below the root, the same way of being reached.  And
nothing else gets out: templates that agree in that are written alike. -/
theorem Schematic.written_keeps_shape :
    (∀ s : Schematic, decode? s.toJson = some s) ∧
    ∀ (name : String) (t u : Template),
      ((t.schematic name).toJson == (u.schematic name).toJson) = true ↔ t.ShapedLike u :=
  ⟨decode?_toJson, fun _ _ _ => toJson_beq_iff.trans Template.schematic_eq_iff⟩

end TokenGrammar
