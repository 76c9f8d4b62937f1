import Mathlib.Data.List.Nodup
import TokenGrammar.Proofs.Numeric.Decimal
import TokenGrammar.Schematic

/-!
# The ids of a schematic

The id of a node writes down which child is taken at each turn on the way to it.  The ways are
all different, and since no index has a point in its text, so are the ids.
-/

namespace TokenGrammar.Template

mutual

/-- The ways to the steps of a template, in preorder. -/
def places : Template → List (List Nat)
  | .node _ _ children => [] :: placesAll 0 children

/-- The ways to the steps below the children from the given index on. -/
def placesAll (index : Nat) : List Template → List (List Nat)
  | [] => []
  | t :: ts => t.places.map (index :: ·) ++ placesAll (index + 1) ts

end

/-- The text that a way adds to the id that it starts from. -/
def placeText (place : List Nat) : List Char :=
  place.flatMap fun index => '.' :: Decimal.natText index

def placeId (id : String) (place : List Nat) : String :=
  String.ofList (id.toList ++ placeText place)

@[simp] theorem placeId_nil (id : String) : placeId id [] = id := by
  simp [placeId, placeText]

theorem placeId_childId (id : String) (index : Nat) (place : List Nat) :
    placeId (childId id index) place = placeId id (index :: place) := by
  simp [placeId, childId, placeText]

mutual

theorem ids_schematicNodes (id : String) :
    ∀ t : Template, (t.schematicNodes id).map SchematicNode.id = t.places.map (placeId id)
  | .node vkey step children => by
      rw [schematicNodes, places, List.map_cons, List.map_cons, placeId_nil,
        ids_schematicNodesAll id 0 children]
      rfl

theorem ids_schematicNodesAll (id : String) (index : Nat) :
    ∀ ts : List Template, (schematicNodesAll id index ts).map SchematicNode.id =
      (placesAll index ts).map (placeId id)
  | [] => rfl
  | t :: ts => by
      have hchild : placeId (childId id index) = placeId id ∘ (index :: ·) :=
        funext fun place => placeId_childId id index place
      rw [schematicNodesAll, placesAll, List.map_append, List.map_append, List.map_map,
        ids_schematicNodes _ t, ids_schematicNodesAll id _ ts, hchild]

end

theorem exists_index_of_mem_placesAll {index : Nat} {ts : List Template} {place : List Nat}
    (h : place ∈ placesAll index ts) : ∃ first rest, place = first :: rest ∧ index ≤ first := by
  induction ts generalizing index with
  | nil => cases h
  | cons t ts ih =>
      rw [placesAll, List.mem_append, List.mem_map] at h
      rcases h with ⟨rest, -, rfl⟩ | h
      · exact ⟨index, rest, rfl, Nat.le_refl index⟩
      · obtain ⟨first, rest, rfl, hle⟩ := ih h
        exact ⟨first, rest, rfl, Nat.le_of_succ_le hle⟩

mutual

theorem nodup_places : ∀ t : Template, t.places.Nodup
  | .node vkey step children => by
      rw [places, List.nodup_cons]
      refine ⟨fun hmem => ?_, nodup_placesAll 0 children⟩
      obtain ⟨first, rest, hnil, -⟩ := exists_index_of_mem_placesAll hmem
      cases hnil

theorem nodup_placesAll (index : Nat) : ∀ ts : List Template, (placesAll index ts).Nodup
  | [] => List.nodup_nil
  | t :: ts => by
      rw [placesAll, List.nodup_append]
      refine ⟨(nodup_places t).map List.cons_injective, nodup_placesAll (index + 1) ts, ?_⟩
      intro place hplace other hother heq
      obtain ⟨rest, -, rfl⟩ := List.mem_map.1 hplace
      obtain ⟨first, more, rfl, hle⟩ := exists_index_of_mem_placesAll hother
      obtain ⟨rfl, -⟩ := List.cons.inj heq
      exact absurd hle (Nat.not_succ_le_self index)

end

theorem placeText_cons (index : Nat) (place : List Nat) :
    placeText (index :: place) = '.' :: (Decimal.natText index ++ placeText place) := rfl

/-- The text of an index ends where the next point stands. -/
theorem takeWhile_isDigit (index : Nat) (place : List Nat) :
    (Decimal.natText index ++ placeText place).takeWhile Decimal.isDigit =
      Decimal.natText index := by
  have hdigits : ∀ c ∈ Decimal.natText index, Decimal.isDigit c = true :=
    fun c hc => Decimal.isDigit_of_mem_natText hc
  have hrest : (placeText place).takeWhile Decimal.isDigit = [] := by
    cases place with
    | nil => rfl
    | cons next place => exact List.takeWhile_cons_of_neg (by decide)
  rw [List.takeWhile_append_of_pos hdigits, hrest, List.append_nil]

theorem placeText_inj {place other : List Nat} (h : placeText place = placeText other) :
    place = other := by
  induction place generalizing other with
  | nil =>
      cases other with
      | nil => rfl
      | cons index other => cases h
  | cons index place ih =>
      cases other with
      | nil => cases h
      | cons index' other =>
          rw [placeText_cons, placeText_cons, List.cons_inj_right] at h
          have htext : Decimal.natText index = Decimal.natText index' := by
            rw [← takeWhile_isDigit index place, h, takeWhile_isDigit]
          rw [htext, List.append_cancel_left_eq] at h
          rw [Decimal.natText_inj htext, ih h]

theorem placeId_inj {id : String} {place other : List Nat}
    (h : placeId id place = placeId id other) : place = other := by
  have htext := congrArg String.toList h
  rw [placeId, placeId, String.toList_ofList, String.toList_ofList,
    List.append_cancel_left_eq] at htext
  exact placeText_inj htext

theorem nodup_ids (id : String) (t : Template) :
    ((t.schematicNodes id).map SchematicNode.id).Nodup := by
  rw [ids_schematicNodes]
  exact (nodup_places t).map fun _ _ => placeId_inj

end TokenGrammar.Template
