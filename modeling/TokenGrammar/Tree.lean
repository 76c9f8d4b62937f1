import TokenGrammar.Slot.Edit
import TokenGrammar.Template

/-!
# Trees of slots

A tree is the live form of a template: its steps in preorder, each under its position as
id.  The root has the id 0, and every parent has a smaller id than its children.
-/

namespace TokenGrammar

/-- The slots of a template, each at the position of its id. -/
structure Tree where
  slots : List Slot

namespace Tree

/-- The ids of the children from an id on. -/
def childIds (next : Nat) : List Template → List Nat
  | [] => []
  | t :: ts => next :: childIds (next + t.size) ts

mutual

/-- The slots of a template whose root has the given id. -/
def slotsOf (parent : Option Nat) (id : Nat) : Template → List Slot
  | .node vkey step children =>
    Slot.fresh ⟨id, parent, childIds (id + 1) children, vkey, step⟩ ::
      slotsOfAll id (id + 1) children

/-- The slots of the children, the first of which has the given id. -/
def slotsOfAll (parent next : Nat) : List Template → List Slot
  | [] => []
  | t :: ts => slotsOf (some parent) next t ++ slotsOfAll parent (next + t.size) ts

end

def ofTemplate (template : Template) : Tree := ⟨slotsOf none 0 template⟩

def root : Nat := 0

def size (tree : Tree) : Nat := tree.slots.length

def get? (tree : Tree) (id : Nat) : Option Slot := tree.slots[id]?

/-- The slot with an id, which must be one of the tree. -/
def require (tree : Tree) (id : Nat) : Except Fault Slot :=
  match tree.get? id with
  | some slot => .ok slot
  | none => .error (.noSuchStep id)

/-- The slot with an id; an empty one outside of the tree. -/
def slot (tree : Tree) (id : Nat) : Slot := (tree.get? id).getD default

def set (tree : Tree) (id : Nat) (slot : Slot) : Tree := ⟨tree.slots.set id slot⟩

def parent? (tree : Tree) (id : Nat) : Option Nat := (tree.get? id).bind (·.node.parent)

/-- The value of the parent, if there is a parent and it has one. -/
def parentValue (tree : Tree) (id : Nat) : Option Choice :=
  (tree.parent? id).bind fun parent => (tree.slot parent).value

/-- Whether a step may be entered from its parent.  The root is never entered. -/
def canEnter (tree : Tree) (id : Nat) (ignoreBindOnly : Bool) : Bool :=
  match tree.parent? id with
  | some parent => (tree.slot id).accepts (tree.slot parent).value ignoreBindOnly
  | none => false

/-- The first child, in the order of the template, that may be entered. -/
def firstChild? (tree : Tree) (id : Nat) (ignoreBindOnly : Bool) : Option Nat :=
  (tree.slot id).node.children.find? fun child => tree.canEnter child ignoreBindOnly

/-- An id and its ancestors, nearest first, as far as the rounds go. -/
def climb (tree : Tree) : Nat → Nat → List Nat
  | 0, _ => []
  | rounds + 1, id =>
    id :: match tree.parent? id with
      | some parent => tree.climb rounds parent
      | none => []

/-- The ids from the root down to an id.  A parent has a smaller id, so there are no more
of them than the id counts, itself included. -/
def pathTo (tree : Tree) (id : Nat) : List Nat := (tree.climb (id + 1) id).reverse

/-- What the strict ancestors of a step hold, root first. -/
def contextFor (tree : Tree) (id : Nat) : Context :=
  ⟨(tree.pathTo id).dropLast.map fun ancestor =>
    let slot := tree.slot ancestor
    ⟨slot.node.vkey, slot.name, slot.value⟩⟩

/-- Resets every slot.  The events come with the id of their slot. -/
def reset (tree : Tree) : Outcome Tree (Nat × SlotEvent) Unit :=
  ⟨(), ⟨tree.slots.map fun slot => slot.reset.state⟩,
    tree.slots.flatMap fun slot => slot.reset.events.map (slot.node.id, ·)⟩

end Tree

end TokenGrammar
