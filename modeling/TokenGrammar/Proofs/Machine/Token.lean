import Mathlib.Data.List.Nodup
import TokenGrammar.Machine.Basic
import TokenGrammar.Proofs.Tree.Path

/-!
# The token of a path

A token has the entry of each step on the path that has a key, as long as no key occurs
twice, and nothing else.
-/

namespace TokenGrammar

namespace Fields

theorem get?_set_self (fields : Fields) (key : String) (value : Json) :
    get? (fields.set key value) key = some value := by
  induction fields with
  | nil => simp [set, get?]
  | cons field fields ih =>
      by_cases hkey : field.1 = key
      · simp [set, hkey, get?]
      · simpa [set, hkey, get?] using ih

theorem get?_set_ne {key other : String} (h : other ≠ key) (fields : Fields) (value : Json) :
    get? (fields.set key value) other = get? fields other := by
  induction fields with
  | nil => simp [set, get?, h.symm]
  | cons field fields ih =>
      by_cases hkey : field.1 = key
      · have hother : ¬ key = other := h.symm
        simp [set, hkey, get?, hother]
      · by_cases hother : field.1 = other
        · simp [set, get?, hother, h]
        · simpa [set, hkey, get?, hother] using ih

theorem mem_keys_of_mem_set {fields : Fields} {key other : String} {value raw : Json}
    (h : (other, raw) ∈ fields.set key value) : other = key ∨ (other, raw) ∈ fields := by
  induction fields with
  | nil =>
      obtain ⟨rfl, -⟩ : other = key ∧ raw = value := by simpa [set] using h
      exact .inl rfl
  | cons field fields ih =>
      obtain ⟨k, v⟩ := field
      by_cases hkey : k = key
      · simp only [set, hkey, beq_self_eq_true, if_true, List.mem_cons, Prod.mk.injEq] at h
        rcases h with ⟨rfl, -⟩ | h
        · exact .inl rfl
        · exact .inr (List.mem_cons_of_mem _ h)
      · simp only [set, beq_iff_eq, hkey, if_false, List.mem_cons] at h
        rcases h with hfirst | h
        · exact .inr (hfirst ▸ List.mem_cons_self)
        · exact (ih h).imp id (List.mem_cons_of_mem _)

end Fields

namespace Machine

variable {m m' : Machine} {project : Slot → Choice → Json} {ids : List Nat} {token : Token}

def vkeyAt (m : Machine) (id : Nat) : Option String := (m.tree.slot id).node.vkey

/-- The token with the entry of one more step. -/
def withEntry (m : Machine) (project : Slot → Choice → Json) (token : Token) (id : Nat) :
    Token :=
  match m.vkeyAt id with
  | some vkey => token.set vkey (entryOf project (m.tree.slot id))
  | none => token

theorem collect_eq (m : Machine) (project : Slot → Choice → Json) :
    m.collect project = (m.tree.pathTo m.current).foldl (m.withEntry project) [] := rfl

theorem get?_foldl_withEntry_of_not_mem {vkey : String} (h : vkey ∉ ids.filterMap m.vkeyAt) :
    Fields.get? (ids.foldl (m.withEntry project) token) vkey = Fields.get? token vkey := by
  induction ids generalizing token with
  | nil => rfl
  | cons id ids ih =>
      rw [List.foldl_cons]
      cases hvkey : m.vkeyAt id with
      | none =>
          rw [ih (by simpa [hvkey] using h), withEntry, hvkey]
      | some other =>
          rw [List.filterMap_cons_some hvkey, List.mem_cons, not_or] at h
          rw [ih h.2, withEntry, hvkey]
          exact Fields.get?_set_ne h.1 token _

/-- No later step has the key, so the entry stays as it is written here. -/
theorem get?_foldl_withEntry_append {above below : List Nat} {id : Nat} {vkey : String}
    (hvkey : m.vkeyAt id = some vkey) (hlast : vkey ∉ below.filterMap m.vkeyAt) :
    Fields.get? ((above ++ id :: below).foldl (m.withEntry project) token) vkey =
      some (entryOf project (m.tree.slot id)) := by
  rw [List.foldl_append, List.foldl_cons, get?_foldl_withEntry_of_not_mem hlast, withEntry, hvkey]
  exact Fields.get?_set_self _ vkey _

theorem get?_foldl_withEntry {id : Nat} {vkey : String} (hmem : id ∈ ids)
    (hvkey : m.vkeyAt id = some vkey) (hnodup : (ids.filterMap m.vkeyAt).Nodup) :
    Fields.get? (ids.foldl (m.withEntry project) token) vkey =
      some (entryOf project (m.tree.slot id)) := by
  obtain ⟨above, below, rfl⟩ := List.append_of_mem hmem
  have hlast : vkey ∉ below.filterMap m.vkeyAt := by
    rw [List.filterMap_append, List.filterMap_cons_some hvkey] at hnodup
    exact (List.nodup_cons.1 hnodup.of_append_right).1
  exact get?_foldl_withEntry_append hvkey hlast

theorem mem_foldl_withEntry {vkey : String} {raw : Json}
    (h : (vkey, raw) ∈ ids.foldl (m.withEntry project) token) :
    (vkey, raw) ∈ token ∨ ∃ id ∈ ids, m.vkeyAt id = some vkey := by
  induction ids generalizing token with
  | nil => exact .inl h
  | cons id ids ih =>
      rw [List.foldl_cons] at h
      rcases ih h with htoken | ⟨other, hother, hvkey⟩
      · cases hid : m.vkeyAt id with
        | none =>
            rw [withEntry, hid] at htoken
            exact .inl htoken
        | some key =>
            rw [withEntry, hid] at htoken
            rcases Fields.mem_keys_of_mem_set htoken with rfl | htoken
            · exact .inr ⟨id, List.mem_cons_self, hid⟩
            · exact .inl htoken
      · exact .inr ⟨other, List.mem_cons_of_mem _ hother, hvkey⟩

/-- Machines with the same path and the same entries on it have the same token. -/
theorem collect_congr (hpath : m'.tree.pathTo m'.current = m.tree.pathTo m.current)
    (hentry : ∀ id ∈ m.tree.pathTo m.current, m'.vkeyAt id = m.vkeyAt id ∧
      (m.vkeyAt id ≠ none →
        entryOf project (m'.tree.slot id) = entryOf project (m.tree.slot id))) :
    m'.collect project = m.collect project := by
  rw [collect_eq, collect_eq, hpath]
  refine List.foldl_ext _ _ _ fun token id hid => ?_
  obtain ⟨hvkey, hsame⟩ := hentry id hid
  rw [withEntry, withEntry, hvkey]
  cases hkey : m.vkeyAt id with
  | none => rfl
  | some vkey => simp only [hsame (by simp [hkey])]

end Machine

end TokenGrammar
