import TokenGrammar.Proofs.Binding.Legal
import TokenGrammar.Proofs.Machine.Token

/-!
# What the steps of a path find in their own token

Where no key occurs twice on a path, each of its steps finds in the token the entry that its
slot has written, unless that counts as missing.
-/

namespace TokenGrammar

theorem Node.stored?_keyless {node : Node} (h : node.vkey = none) (token : Token) :
    node.stored? token = none := by
  simp [stored?, h]

namespace Slot

theorem unbox_congr {s t : Slot} (hnode : t.node = s.node) : t.unbox = s.unbox := by
  funext value
  rw [unbox, unbox, config, config, hnode]

theorem entryOf_congr {s t : Slot} (hnode : t.node = s.node) (hvalue : t.value = s.value)
    (harchive : t.archive = s.archive) : Machine.entryOf unbox t = Machine.entryOf unbox s := by
  have hconfig : t.config = s.config := congrArg (·.step.config) hnode
  simp only [Machine.entryOf, hconfig, unbox_congr hnode, hvalue, harchive]

/-- The token has the entry that the slot writes, if its step has a key. -/
def Written (s : Slot) (token : Token) : Prop :=
  ∀ vkey, s.node.vkey = some vkey → Fields.get? token vkey = some (Machine.entryOf unbox s)

theorem Written.stored?_eq {s : Slot} {token : Token} {vkey : String} (h : s.Written token)
    (hkey : s.node.vkey = some vkey) :
    s.node.stored? token = (some (Machine.entryOf unbox s)).filter fun raw =>
      !Machine.isAbsent raw s.config.multivalue := by
  rw [Node.stored?, hkey, Option.bind_some, Machine.entryFor?, h vkey hkey]
  rfl

end Slot

namespace Tree

variable {tree other : Tree} {id : Nat}

/-- No key occurs twice on the way to an end. -/
def DistinctKeys (tree : Tree) : Prop :=
  ∀ id < tree.size, tree.childrenOf id = [] →
    ((tree.pathTo id).filterMap fun ancestor => (tree.slot ancestor).node.vkey).Nodup

theorem DistinctKeys.congr (hnodes : other.nodes = tree.nodes) (h : tree.DistinctKeys) :
    other.DistinctKeys := by
  intro id hid hchildren
  have hnode (id : Nat) : (other.slot id).node = (tree.slot id).node :=
    slot_node_congr hnodes id
  rw [childrenOf, hnode] at hchildren
  simpa only [hnode, pathTo_congr hnodes] using h id (size_congr hnodes ▸ hid) hchildren

/-- Every path can be continued to an end. -/
theorem DistinctKeys.nodup (hwired : Wired tree.nodes) (h : tree.DistinctKeys)
    (hid : id < tree.size) :
    ((tree.pathTo id).filterMap fun ancestor => (tree.slot ancestor).node.vkey).Nodup := by
  obtain ⟨leaf, hleaf, hchildren, hpath⟩ := exists_leaf_below hwired hid
  exact (h leaf hleaf hchildren).sublist (hpath.sublist.filterMap _)

end Tree

/-- The slots of a path have written their entries. -/
theorem Machine.written_rawToken {m : Machine} (hwired : Wired m.tree.nodes)
    (hkeys : m.tree.DistinctKeys) (hcurrent : m.current < m.tree.size) {id : Nat}
    (hmem : id ∈ m.tree.pathTo m.current) : (m.tree.slot id).Written m.rawToken :=
  fun _ hkey => get?_foldl_withEntry hmem hkey (hkeys.nodup hwired hcurrent)

end TokenGrammar
