import TokenGrammar.Proofs.Tree.Path

/-!
# The levels of a tree

No path down the tree of a template is longer than the template has levels.  The steps below a
step stand in one run of slots behind it, so that this is an induction over the template with the
slots in front of it and behind it left open.
-/

namespace TokenGrammar

namespace Template

mutual

/-- How many steps the longest way down a template has. -/
def levels : Template → Nat
  | .node _ _ children => 1 + levelsAll children

def levelsAll : List Template → Nat
  | [] => 0
  | t :: ts => max t.levels (levelsAll ts)

end

end Template

namespace Tree

variable {tree : Tree}

mutual

/-- The way to a step is longer than that to the root of a template around it by fewer steps than
the template has levels. -/
theorem length_pathTo_slotsOf (h : Wired tree.nodes) (before behind : List Slot)
    (parent : Option Nat) :
    ∀ t : Template, tree.slots = before ++ (slotsOf parent before.length t ++ behind) →
      ∀ offset < t.size, (tree.pathTo (before.length + offset)).length <
        (tree.pathTo before.length).length + t.levels
  | .node vkey step children, hslots, offset, hoffset => by
      rw [Template.size] at hoffset
      rw [Template.levels]
      cases offset with
      | zero =>
          rw [Nat.add_zero]
          omega
      | succ offset =>
          have hlength : (before ++ [Slot.fresh ⟨before.length, parent,
              childIds (before.length + 1) children, vkey, step⟩]).length = before.length + 1 := by
            rw [List.length_append, List.length_singleton]
          have hbelow := length_pathTo_slotsOfAll h (before ++ [Slot.fresh _]) behind
            before.length children (by simpa [slotsOf] using hslots) offset (by omega)
          rw [hlength, show before.length + 1 + offset = before.length + (offset + 1) by
            omega] at hbelow
          omega

theorem length_pathTo_slotsOfAll (h : Wired tree.nodes) (before behind : List Slot)
    (parent : Nat) :
    ∀ ts : List Template,
      tree.slots = before ++ (slotsOfAll parent before.length ts ++ behind) →
        ∀ offset < Template.sizeAll ts, (tree.pathTo (before.length + offset)).length ≤
          (tree.pathTo parent).length + Template.levelsAll ts
  | [], _, _, hoffset => absurd hoffset (Nat.not_lt_zero _)
  | t :: ts, hslots, offset, hoffset => by
      rw [Template.sizeAll] at hoffset
      rw [Template.levelsAll]
      rw [slotsOfAll, List.append_assoc] at hslots
      -- The step stands below the first child or below one of the others.
      rcases Nat.lt_or_ge offset t.size with hlt | hge
      · have hfirst := length_pathTo_slotsOf h before _ (some parent) t hslots offset hlt
        have hparent : tree.parent? before.length = some parent := by
          cases t with
          | node vkey step children =>
              simp [parent?, get?, hslots, slotsOf, Slot.fresh]
        rw [pathTo_of_parent? h hparent, List.length_append, List.length_singleton] at hfirst
        omega
      · rw [← List.append_assoc] at hslots
        have hlength : (before ++ slotsOf (some parent) before.length t).length =
            before.length + t.size := by
          rw [List.length_append, length_slotsOf]
        have hrest := length_pathTo_slotsOfAll h
          (before ++ slotsOf (some parent) before.length t) behind parent ts (by rwa [hlength])
          (offset - t.size) (by omega)
        rw [hlength, show before.length + t.size + (offset - t.size) = before.length + offset by
          omega] at hrest
        omega

end

/-- A path has at most as many steps as the template has levels. -/
theorem length_pathTo_le_levels (t : Template) {id : Nat} (hlt : id < (ofTemplate t).size) :
    ((ofTemplate t).pathTo id).length ≤ t.levels := by
  have hwired : Wired (ofTemplate t).nodes := wired_ofTemplate t
  have hsize : (ofTemplate t).size = t.size := length_slotsOf none root t
  have hbelow := length_pathTo_slotsOf hwired [] [] none t (List.append_nil _).symm id
    (hsize ▸ hlt)
  rw [List.length_nil, Nat.zero_add, show 0 = root from rfl, pathTo_root hwired,
    List.length_singleton] at hbelow
  omega

end Tree

end TokenGrammar
