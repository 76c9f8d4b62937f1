import Mathlib.Algebra.GroupWithZero.Nat
import TokenGrammar.Template

/-!
# Closing a chain

A chain keeps its steps in one list and folds them up when it is closed.  The fold makes one
template of the part up to any step and the template of the part behind it: chains nest.
-/

namespace TokenGrammar

/-- The template that is reached by so many steps along only children. -/
def Template.along : Nat → Template → Option Template
  | 0, t => some t
  | distance + 1, .node _ _ [child] => child.along distance
  | _ + 1, .node _ _ _ => none

theorem Template.sizeAll_eq_sum (ts : List Template) : sizeAll ts = (ts.map size).sum := by
  induction ts with
  | nil => rfl
  | cons t ts ih => rw [sizeAll, ih, List.map_cons, List.sum_cons]

namespace Chain

/-- The chain of some steps, written down one after the other. -/
def ofSteps (first : Option String × Step) (links : List (Option String × Step)) : Chain :=
  links.foldl (fun chain link => chain.next link.1 link.2) (start first.1 first.2)

/-- What may go on behind a branch: a chain, which is closed for it, or a template. -/
def closed : Chain ⊕ Template → Template
  | .inl chain => chain.build
  | .inr t => t

theorem foldl_next (chain : Chain) (links : List (Option String × Step)) :
    links.foldl (fun chain link => chain.next link.1 link.2) chain =
      ⟨chain.first, chain.links ++ links⟩ := by
  induction links generalizing chain with
  | nil => rw [List.append_nil]; rfl
  | cons link links ih => rw [List.foldl_cons, ih, next, List.append_assoc]; rfl

theorem ofSteps_eq (first : Option String × Step) (links : List (Option String × Step)) :
    ofSteps first links = ⟨first, links⟩ :=
  foldl_next (start first.1 first.2) links

theorem branch_ofSteps (first : Option String × Step) (links : List (Option String × Step))
    (children : List Template) :
    (ofSteps first links).branch children = .node first.1 first.2 (above links children) := by
  rw [ofSteps_eq, branch]

theorem above_cons (link : Option String × Step) (links : List (Option String × Step))
    (children : List Template) :
    above (link :: links) children = [(ofSteps link links).branch children] := by
  rw [branch_ofSteps, above, List.foldr_cons, above]

theorem above_append (before after : List (Option String × Step)) (children : List Template) :
    above (before ++ after) children = above before (above after children) :=
  List.foldr_append

/-- A chain may be cut in front of any of its links. -/
theorem branch_append (first link : Option String × Step)
    (before after : List (Option String × Step)) (children : List Template) :
    (ofSteps first (before ++ link :: after)).branch children =
      (ofSteps first before).branch [(ofSteps link after).branch children] := by
  rw [branch_ofSteps, branch_ofSteps, above_append, above_cons]

theorem size_branch (first : Option String × Step) (links : List (Option String × Step))
    (children : List Template) :
    ((ofSteps first links).branch children).size =
      links.length + 1 + (children.map Template.size).sum := by
  induction links generalizing first with
  | nil =>
      rw [branch_ofSteps, Template.size, above, List.foldr_nil, Template.sizeAll_eq_sum,
        List.length_nil, Nat.zero_add]
  | cons link links ih =>
      rw [branch_ofSteps, above_cons, Template.size, Template.sizeAll_eq_sum, List.map_singleton,
        List.sum_singleton, ih link, List.length_cons]
      omega

/-- What the chain was closed with stands below its last step, and that as many steps below the
first as there are links. -/
theorem along_branch (first : Option String × Step) (links : List (Option String × Step))
    (children : List Template) :
    ((ofSteps first links).branch children).along links.length =
      some (.node (links.getLastD first).1 (links.getLastD first).2 children) := by
  induction links generalizing first with
  | nil => rw [branch_ofSteps]; rfl
  | cons link links ih =>
      rw [branch_ofSteps, above_cons, List.length_cons, Template.along, ih link,
        List.getLastD_cons]

/-- A chain closed with several ways on is the chain up to any of its steps, closed with one way
on: the chain of the other steps, closed with all of them.  To close a chain without a way on is
to close it with none.  A closed chain has its own steps and those of the ways on, which stand
below its last step in the given order. -/
theorem branch_nests (first : Option String × Step) (links : List (Option String × Step))
    (subtrees : List (Chain ⊕ Template)) :
    let chain := ofSteps first links
    let children := subtrees.map closed
    (∀ k (h : k < links.length),
      chain.branch children = (ofSteps first (links.take k)).branch
        [(ofSteps links[k] (links.drop (k + 1))).branch children]) ∧
    chain.build = chain.branch [] ∧
    (chain.branch children).size = links.length + 1 + (children.map Template.size).sum ∧
    (chain.branch children).along links.length =
      some (.node (links.getLastD first).1 (links.getLastD first).2 children) := by
  intro chain children
  refine ⟨fun k h => ?_, rfl, size_branch first links children, along_branch first links children⟩
  have hlinks : links = links.take k ++ links[k] :: links.drop (k + 1) := by
    rw [← List.drop_eq_getElem_cons h, List.take_append_drop]
  calc chain.branch children
    _ = (ofSteps first (links.take k ++ links[k] :: links.drop (k + 1))).branch children := by
      rw [← hlinks]
    _ = _ := branch_append first links[k] (links.take k) (links.drop (k + 1)) children

/-- Three steps with two ways on, cut behind the second step. -/
theorem branch_nests_tagged :
    let field : Option String × Step := (some "field", Step.value "Field")
    let links : List (Option String × Step) :=
      [(none, Step.label "is"), (some "tags", Step.value "Tags")]
    let subtrees : List (Chain ⊕ Template) :=
      [.inl ((start (some "note") (Step.text "Note")).next none Step.terminal),
        .inr (start none Step.terminal).build]
    let children := subtrees.map closed
    1 < links.length ∧
      (ofSteps field links).branch children =
        (ofSteps field [(none, Step.label "is")]).branch
          [(ofSteps (some "tags", Step.value "Tags") []).branch children] ∧
      ((ofSteps field links).branch children).size = 6 := by
  intro field links subtrees children
  obtain ⟨hnests, -, hsize, -⟩ := branch_nests field links subtrees
  exact ⟨by decide, hnests 1 (by decide), hsize⟩

end Chain

end TokenGrammar
