import TokenGrammar.Proofs.Json.Equality
import TokenGrammar.Schematic

/-!
# Reading a schematic

A schematic reads back from what it is written as, and also from the canonical form of that, in
which the fields stand in another order.  So two schematics that are written as equal values are
one schematic.
-/

namespace TokenGrammar

theorem Json.canonicalItems_eq_map (items : List Json) :
    canonicalItems items = items.map canonical := by
  induction items with
  | nil => rfl
  | cons item items ih => rw [canonicalItems, ih, List.map_cons]

@[simp] theorem EdgeKind.decode?_name (kind : EdgeKind) :
    decode? (.str kind.name) = some kind := by
  cases kind <;> rfl

namespace Schematic

theorem decodeNode?_toJson (n : SchematicNode) : decodeNode? n.toJson = some n := by
  obtain ⟨id, kind, label, vkey, multivalue, readOnly, terminal⟩ := n
  cases vkey <;> rfl

theorem decodeNode?_canonical (n : SchematicNode) : decodeNode? n.toJson.canonical = some n := by
  obtain ⟨id, kind, label, vkey, multivalue, readOnly, terminal⟩ := n
  cases vkey <;> rfl

theorem decodeEdge?_toJson (e : SchematicEdge) : decodeEdge? e.toJson = some e := by
  simp [decodeEdge?, SchematicEdge.toJson, members?, Fields.get?, readString?]

theorem decodeEdge?_canonical (e : SchematicEdge) : decodeEdge? e.toJson.canonical = some e := by
  have hcanonical : e.toJson.canonical =
      .obj [("from", .str e.source), ("kind", .str e.kind.name), ("to", .str e.target)] := rfl
  simp [decodeEdge?, hcanonical, members?, Fields.get?, readString?]

theorem readAll?_map {α : Type} {read? : Json → Option α} {write : α → Json}
    (h : ∀ a, read? (write a) = some a) (as : List α) :
    readAll? read? (some (.arr (as.map write))) = some as := by
  change (as.map write).mapM read? = some as
  induction as with
  | nil => rfl
  | cons a as ih => simp [h, ih]

theorem decode?_toJson (s : Schematic) : decode? s.toJson = some s := by
  have hnodes := readAll?_map decodeNode?_toJson s.nodes
  have hedges := readAll?_map decodeEdge?_toJson s.edges
  simp [decode?, toJson, members?, Fields.get?, readString?, hnodes, hedges]

theorem canonical_toJson (s : Schematic) :
    s.toJson.canonical =
      .obj [("edges", .arr (s.edges.map fun e => e.toJson.canonical)), ("name", .str s.name),
        ("nodes", .arr (s.nodes.map fun n => n.toJson.canonical))] := by
  have hcanonical : s.toJson.canonical =
      .obj [("edges", .arr (Json.canonicalItems (s.edges.map SchematicEdge.toJson))),
        ("name", .str s.name),
        ("nodes", .arr (Json.canonicalItems (s.nodes.map SchematicNode.toJson)))] := rfl
  rw [hcanonical, Json.canonicalItems_eq_map, Json.canonicalItems_eq_map, List.map_map,
    List.map_map]
  rfl

theorem decode?_canonical (s : Schematic) : decode? s.toJson.canonical = some s := by
  have hnodes := readAll?_map decodeNode?_canonical s.nodes
  have hedges := readAll?_map decodeEdge?_canonical s.edges
  simp [decode?, canonical_toJson, members?, Fields.get?, readString?, hnodes, hedges]

/-- What is written tells schematics apart, whatever the order of its fields. -/
theorem toJson_beq_iff {s s' : Schematic} : (s.toJson == s'.toJson) = true ↔ s = s' := by
  constructor
  · intro h
    have hread : some s = some s' := by
      rw [← decode?_canonical s, ← decode?_canonical s', Json.beq_iff_canonical.1 h]
    exact Option.some_inj.1 hread
  · rintro rfl
    exact BEq.rfl

end Schematic

end TokenGrammar
