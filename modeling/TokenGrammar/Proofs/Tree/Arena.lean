import Mathlib.Data.List.Induction
import Mathlib.Data.List.Nodup
import Mathlib.Data.List.Perm.Basic
import TokenGrammar.Proofs.Tree.Path

/-!
# The tree of a template

The tree of a template has the template's steps in preorder.  It can be grown node by node, each
child being added to its parent after everything below it has been built, and it can be read
back through the lists of children.  `represents_ofTemplate` says so, together with how parents,
children and paths fit; every fact about positions is an induction over the template with the
slots in front of it and behind it left open.
-/

namespace TokenGrammar

namespace Template

mutual

/-- The template and all templates below it, in preorder. -/
def subtrees : Template → List Template
  | .node vkey step children => .node vkey step children :: subtreesAll children

def subtreesAll : List Template → List Template
  | [] => []
  | t :: ts => t.subtrees ++ subtreesAll ts

end

theorem size_pos (t : Template) : 0 < t.size := by
  cases t with
  | node vkey step children => exact Nat.lt_of_lt_of_le Nat.one_pos (Nat.le_add_right ..)

end Template

namespace Slot

/-- The slot with more children, behind those that it has. -/
def withChildren (s : Slot) (ids : List Nat) : Slot :=
  { s with node := { s.node with children := s.node.children ++ ids } }

@[simp] theorem withChildren_nil (s : Slot) : s.withChildren [] = s := by
  simp [withChildren]

theorem withChildren_withChildren (s : Slot) (ids more : List Nat) :
    (s.withChildren ids).withChildren more = s.withChildren (ids ++ more) := by
  simp [withChildren]

end Slot

namespace Tree

/-! ## Growing -/

mutual

/-- Builds a template behind the slots that are there and answers with the id of its root. -/
def grow (parent : Option Nat) (slots : List Slot) : Template → Nat × List Slot
  | .node vkey step children =>
    (slots.length,
      growAll slots.length (slots ++ [Slot.fresh ⟨slots.length, parent, [], vkey, step⟩]) children)

/-- Builds the children of a slot, each of which is then added to the children of the slot. -/
def growAll (parent : Nat) (slots : List Slot) : List Template → List Slot
  | [] => slots
  | t :: ts =>
    let (child, slots) := grow (some parent) slots t
    growAll parent (slots.modify parent (·.withChildren [child])) ts

end

mutual

theorem grow_eq (parent : Option Nat) (slots : List Slot) :
    ∀ t : Template, grow parent slots t = (slots.length, slots ++ slotsOf parent slots.length t)
  | .node vkey step children => by
      rw [grow, growAll_eq slots [] _ children, slotsOf, List.length_append]
      rfl

/-- The slot that is to have the children stands somewhere among those built so far. -/
theorem growAll_eq (before done : List Slot) (slot : Slot) :
    ∀ ts : List Template,
      growAll before.length (before ++ slot :: done) ts =
        before ++ slot.withChildren (childIds (before ++ slot :: done).length ts) ::
          (done ++ slotsOfAll before.length (before ++ slot :: done).length ts)
  | [] => by simp [growAll, childIds, slotsOfAll]
  | t :: ts => by
      have hmodify (more : List Slot) (ids : List Nat) :
          (before ++ slot :: more).modify before.length (·.withChildren ids) =
            before ++ slot.withChildren ids :: more := by
        simp [List.modify_eq_set_getElem?]
      have hlength : (before ++ slot :: done).length + t.size =
          (before ++ slot.withChildren [(before ++ slot :: done).length] ::
            (done ++ slotsOf (some before.length) (before ++ slot :: done).length t)).length := by
        simp [length_slotsOf]
        omega
      rw [growAll, grow_eq]
      simp only [List.append_assoc, List.cons_append, hmodify]
      rw [growAll_eq, ← hlength, Slot.withChildren_withChildren, childIds, slotsOfAll]
      simp

end

/-! ## Preorder -/

/-- What a slot has of its template. -/
def carried (slot : Slot) : Option String × Step × Bool :=
  (slot.node.vkey, slot.node.step, slot.isTerminal)

theorem isEmpty_childIds (next : Nat) (ts : List Template) :
    (childIds next ts).isEmpty = ts.isEmpty := by
  cases ts <;> rfl

mutual

theorem map_carried_slotsOf (parent : Option Nat) (id : Nat) :
    ∀ t : Template, (slotsOf parent id t).map carried =
      t.subtrees.map fun sub => (sub.vkey, sub.step, sub.children.isEmpty)
  | .node vkey step children => by
      rw [slotsOf, Template.subtrees, List.map_cons, List.map_cons,
        map_carried_slotsOfAll id (id + 1) children]
      simp only [carried, Slot.isTerminal, Slot.fresh, isEmpty_childIds, Template.vkey,
        Template.step, Template.children]

theorem map_carried_slotsOfAll (parent next : Nat) :
    ∀ ts : List Template, (slotsOfAll parent next ts).map carried =
      (Template.subtreesAll ts).map fun sub => (sub.vkey, sub.step, sub.children.isEmpty)
  | [] => rfl
  | t :: ts => by
      rw [slotsOfAll, Template.subtreesAll, List.map_append, List.map_append,
        map_carried_slotsOf (some parent) next t, map_carried_slotsOfAll parent _ ts]

end

/-! ## Reading back -/

/-- The template below an id as it can be read from the lists of children, as deep as the rounds
go. -/
def readBack (tree : Tree) : Nat → Nat → Template
  | 0, _ => default
  | rounds + 1, id =>
    .node (tree.slot id).node.vkey (tree.slot id).node.step
      ((tree.slot id).node.children.map (tree.readBack rounds))

theorem slot_append (before behind : List Slot) (slot : Slot) :
    (Tree.mk (before ++ slot :: behind)).slot before.length = slot := by
  simp [Tree.slot, get?]

mutual

theorem readBack_slotsOf (before behind : List Slot) (parent : Option Nat) (rounds : Nat) :
    ∀ t : Template, t.size ≤ rounds →
      (Tree.mk (before ++ (slotsOf parent before.length t ++ behind))).readBack rounds
        before.length = t
  | .node vkey step children, hrounds => by
      rw [Template.size] at hrounds
      obtain ⟨rounds, rfl⟩ : ∃ n, rounds = n + 1 := ⟨rounds - 1, by omega⟩
      rw [slotsOf, List.cons_append, readBack, slot_append]
      have hbelow := readBack_slotsOfAll
        (before ++ [Slot.fresh ⟨before.length, parent, childIds (before.length + 1) children,
          vkey, step⟩]) behind before.length rounds children (by omega)
      rw [List.append_assoc, List.singleton_append, List.length_append] at hbelow
      exact congrArg (Template.node vkey step) hbelow

theorem readBack_slotsOfAll (before behind : List Slot) (parent rounds : Nat) :
    ∀ ts : List Template, Template.sizeAll ts ≤ rounds →
      (childIds before.length ts).map
        ((Tree.mk (before ++ (slotsOfAll parent before.length ts ++ behind))).readBack rounds) =
          ts
  | [], _ => rfl
  | t :: ts, hrounds => by
      rw [Template.sizeAll] at hrounds
      have hfirst := readBack_slotsOf before
        (slotsOfAll parent (before.length + t.size) ts ++ behind) (some parent) rounds t
        (by omega)
      have hrest := readBack_slotsOfAll (before ++ slotsOf (some parent) before.length t) behind
        parent rounds ts (by omega)
      rw [List.length_append, length_slotsOf, List.append_assoc] at hrest
      rw [childIds, slotsOfAll, List.map_cons, List.append_assoc, hfirst, hrest]

end

/-! ## Children -/

mutual

/-- Every id behind the first one is in exactly one of the lists of children, and once. -/
theorem perm_children_slotsOf (parent : Option Nat) (id : Nat) :
    ∀ t : Template, ((slotsOf parent id t).flatMap fun slot => slot.node.children).Perm
      (List.range' (id + 1) (t.size - 1))
  | .node vkey step children => by
      have hbelow := perm_children_slotsOfAll id (id + 1) children
      rw [slotsOf, List.flatMap_cons, Template.size, Nat.add_sub_cancel_left]
      exact hbelow

theorem perm_children_slotsOfAll (parent next : Nat) :
    ∀ ts : List Template,
      (childIds next ts ++
        (slotsOfAll parent next ts).flatMap fun slot => slot.node.children).Perm
          (List.range' next (Template.sizeAll ts))
  | [] => List.Perm.nil
  | t :: ts => by
      have hfirst := perm_children_slotsOf (some parent) next t
      have hrest := perm_children_slotsOfAll parent (next + t.size) ts
      have hrange : List.range' next (Template.sizeAll (t :: ts)) =
          (next :: List.range' (next + 1) (t.size - 1)) ++
            List.range' (next + t.size) (Template.sizeAll ts) := by
        have hpos := t.size_pos
        rw [Template.sizeAll, ← List.range'_succ, Nat.sub_add_cancel hpos,
          List.range'_append_1]
      rw [childIds, slotsOfAll, List.flatMap_append, hrange]
      exact ((List.perm_append_comm_assoc _ _ _).trans (hfirst.append hrest)).cons next

end

/-! ## Paths -/

section Wired

variable {tree : Tree} {id : Nat} (h : Wired tree.nodes)

include h

theorem nodup_pathTo (id : Nat) : (tree.pathTo id).Nodup := by
  refine pathTo_induction h (motive := fun _ path => path.Nodup) ?_ ?_ id
  · exact fun id _ => List.nodup_singleton id
  · intro id parent hparent ih
    refine List.nodup_append.2 ⟨ih, List.nodup_singleton id, ?_⟩
    intro ancestor hmem last hlast
    have hle : ancestor ≤ parent := le_of_mem_pathTo h hmem
    have hlt : parent < id := parent_lt h hparent
    have heq : last = id := List.mem_singleton.1 hlast
    omega

/-- There is only one way down from the root to an id. -/
theorem eq_pathTo_of_isChain {path : List Nat} (hhead : path.head? = some root)
    (hlast : path.getLast? = some id)
    (hchain : path.IsChain fun parent child => tree.parent? child = some parent) :
    path = tree.pathTo id := by
  induction path using List.reverseRecOn generalizing id with
  | nil => cases hhead
  | append_singleton path last ih =>
      obtain rfl : last = id := by simpa using hlast
      obtain ⟨hbefore, -, hlink⟩ := List.isChain_append.1 hchain
      cases hend : path.getLast? with
      | none =>
          rw [List.getLast?_eq_none_iff.1 hend] at hhead ⊢
          obtain rfl : last = root := by simpa using hhead
          exact (pathTo_root h).symm
      | some parent =>
          have hparent : tree.parent? last = some parent := hlink parent hend last rfl
          have hne : path ≠ [] := by
            rintro rfl
            cases hend
          rw [List.head?_append_of_ne_nil _ hne] at hhead
          rw [ih hhead hend hbefore, pathTo_of_parent? h hparent]

theorem mem_childrenOf_iff {parent child : Nat} :
    child ∈ tree.childrenOf parent ↔ tree.parent? child = some parent :=
  ⟨parent?_of_mem_children h, mem_childrenOf_of_parent? h⟩

end Wired

/-! ## The tree of a template -/

/-- The tree is the template brought to life: the same steps in the same places, each under its
position as id, with parents, children and paths that fit together. -/
structure Represents (tree : Tree) (t : Template) : Prop where
  /-- Building the template node by node gives the slots of the tree. -/
  grown : grow none [] t = (root, tree.slots)
  size_eq : tree.size = t.size
  id_eq : ∀ id slot, tree.get? id = some slot → slot.node.id = id
  /-- The steps are those of the template in preorder. -/
  carries : ∀ id slot, tree.get? id = some slot → ∃ sub, t.subtrees[id]? = some sub ∧
    slot.node.vkey = sub.vkey ∧ slot.node.step = sub.step ∧
      (slot.isTerminal = true ↔ sub.children = [])
  read_back : tree.readBack tree.size root = t
  parentless : ∀ id < tree.size, (tree.parent? id = none ↔ id = root)
  child_iff : ∀ parent child, child ∈ tree.childrenOf parent ↔ tree.parent? child = some parent
  /-- Every id but that of the root is in the lists of children once. -/
  children_once : (tree.slots.flatMap fun slot => slot.node.children).Perm
    (List.range' 1 (tree.size - 1))
  parent_lt : ∀ parent child, tree.parent? child = some parent → parent < child
  /-- The way up from an id comes to an end before it is cut off. -/
  climb_ends : ∀ id rounds, id < rounds → (tree.climb rounds id).reverse = tree.pathTo id
  path_iff : ∀ id < tree.size, ∀ path, path = tree.pathTo id ↔
    path.head? = some root ∧ path.getLast? = some id ∧
      path.IsChain fun parent child => tree.parent? child = some parent
  path_nodup : ∀ id, (tree.pathTo id).Nodup

theorem represents_ofTemplate (t : Template) : (ofTemplate t).Represents t := by
  have hwired : Wired (ofTemplate t).nodes := wired_ofTemplate t
  have hsize : (ofTemplate t).size = t.size := length_slotsOf none root t
  have hslots : (ofTemplate t).slots = slotsOf none root t := rfl
  refine
    { grown := ?_
      size_eq := hsize
      id_eq := fun id slot hslot => ?_
      carries := fun id slot hslot => ?_
      read_back := ?_
      parentless := fun id hlt => parent?_eq_none_iff hwired hlt
      child_iff := fun _ _ => mem_childrenOf_iff hwired
      children_once := ?_
      parent_lt := fun _ _ hparent => parent_lt hwired hparent
      climb_ends := fun id rounds hrounds => ?_
      path_iff := fun id hlt path => ⟨?_, ?_⟩
      path_nodup := nodup_pathTo hwired }
  · exact grow_eq none [] t
  · exact hwired.id_eq (by rw [getElem?_nodes, hslot]; rfl)
  · have hcarried := congrArg (·[id]?) (map_carried_slotsOf none root t)
    rw [← hslots] at hcarried
    simp only [List.getElem?_map] at hcarried
    rw [show (ofTemplate t).slots[id]? = some slot from hslot] at hcarried
    cases hsub : t.subtrees[id]? with
    | none => simp [hsub] at hcarried
    | some sub =>
        simp only [hsub, Option.map_some, carried, Option.some.injEq, Prod.mk.injEq] at hcarried
        obtain ⟨hvkey, hstep, hterminal⟩ := hcarried
        exact ⟨sub, rfl, hvkey, hstep, by rw [hterminal, List.isEmpty_iff]⟩
  · have hread := readBack_slotsOf [] [] none _ t (Nat.le_of_eq hsize.symm)
    rwa [List.append_nil, List.nil_append] at hread
  · rw [hsize]
    exact perm_children_slotsOf none root t
  · rw [climb_eq hwired hrounds]
    rfl
  · rintro rfl
    exact ⟨head?_pathTo hwired hlt, getLast?_pathTo hwired id, isChain_pathTo hwired id⟩
  · rintro ⟨hhead, hlast, hchain⟩
    exact eq_pathTo_of_isChain hwired hhead hlast hchain

end Tree

end TokenGrammar
