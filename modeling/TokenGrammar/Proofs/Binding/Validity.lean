import TokenGrammar.Proofs.Binding.Restore
import TokenGrammar.Proofs.Machine.PathSound

/-!
# What a restoration leaves is valid, but for the end

A restoration asks a step whether it is valid when it moves on from there, and a step that
collects values also when it archives each of them.  It never asks the step that ends the
token, so that step may keep a value that it would not accept.
-/

namespace TokenGrammar

/-! ## Collected values -/

namespace StepConfig

variable {config : StepConfig} {context : Context} {options archive result : List Choice}
  {value? : Option Choice} {value : Choice} {index : Nat}

/-- Each value is valid together with those that were collected before it. -/
theorem Collects.valid {items : List Json} (h : config.Collects options archive items result)
    (hnew : archive.length ≤ index) (hvalue : result[index]? = some value) :
    config.validator (some value) (result.take index) = .ok true := by
  induction h with
  | done => simp [List.getElem?_eq_none hnew] at hvalue
  | @next archive result item items first single boxed valid room rest ih =>
      rcases Nat.eq_or_lt_of_le hnew with rfl | hlt
      · -- Later values go behind this one, so it is the first one behind the archive.
        obtain ⟨later, rfl⟩ := rest.exists_append
        obtain rfl : first = value := by simpa using hvalue
        simpa using valid
      · exact ih (by simpa using Nat.succ_le_of_lt hlt) hvalue

theorem Binds.archive_valid {stored? : Option Json}
    (h : config.Binds context stored? value? archive) (hvalue : archive[index]? = some value) :
    config.validator (some value) (archive.take index) = .ok true := by
  cases h with
  | nothing => cases hvalue
  | single => cases hvalue
  | several _ _ collects => exact collects.valid (Nat.zero_le index) hvalue

end StepConfig

/-! ## The visits of a walk -/

/-- A walk goes on from each of its visits but the last one. -/
theorem Tree.Walks.proceeds_or_ends {tree : Tree} {token : Token} {before visits : List Visit}
    (h : tree.Walks token before visits) {visit : Visit} (hmem : visit ∈ visits) :
    (∃ next, tree.Proceeds token visit next) ∨
      visits.getLast? = some visit ∧ tree.Ends token visit := by
  induction visits generalizing before with
  | nil => cases hmem
  | cons first rest ih =>
      cases rest with
      | nil =>
          obtain rfl := List.mem_singleton.1 hmem
          exact .inr ⟨rfl, h.2⟩
      | cons next rest =>
          obtain ⟨-, hlink, hrest⟩ := h
          rcases List.mem_cons.1 hmem with rfl | hmem
          · exact .inl ⟨next.id, hlink⟩
          · simpa using ih hrest hmem

namespace Machine

open Operation

/-- A step that took a value from the token is valid then, unless the token ends there.  A
step that collects values took only such as were valid when they were archived. -/
theorem bindValues_bound_valid (template : Template) (flag : Bool) (commands : List Command)
    (token : Token) :
    let outcome := (bindValues token).run ((new template flag).after commands)
    let m := outcome.state
    outcome.answer = .ok () →
      ∀ id ∈ m.tree.pathTo m.current, ((m.tree.slot id).node.stored? token).isSome = true →
        ((m.tree.slot id).isValid = .ok true ∨ id = m.current ∧ m.isTerminal = true) ∧
          ∀ (index : Nat) (value : Choice), (m.tree.slot id).archive[index]? = some value →
            (m.tree.slot id).config.validator (some value)
              ((m.tree.slot id).archive.take index) = .ok true := by
  intro outcome m hok id hid hstored
  have hwired : Wired (Tree.ofTemplate template).nodes := Tree.wired_ofTemplate template
  have hpos := Tree.size_ofTemplate_pos template
  obtain ⟨path, hlegal, hholds⟩ :=
    legal_and_holds_of_ok hwired hpos (built_after template flag commands) hok
  rw [hholds.path_eq] at hid
  obtain ⟨visit, hvisit, rfl⟩ := List.mem_map.1 hid
  have hnode : (m.tree.slot visit.id).node = (Tree.ofTemplate template).nodeOf visit :=
    hholds.node_eq visit.id
  obtain ⟨hvalue, harchive⟩ := hholds.held visit hvisit
  constructor
  · rcases hlegal.walks.proceeds_or_ends hvisit with ⟨next, hproceeds⟩ | ⟨hlast, hends⟩
    · refine .inl (Slot.isValid_eq_ok_iff.2 ?_)
      rw [hvalue, harchive, Slot.config, hnode]
      exact hproceeds.valid
    · -- The token has something for the step, so that the walk ended for want of a next one.
      have hleaf : ((Tree.ofTemplate template).nodeOf visit).children = [] := by
        refine hends.resolve_right fun hmissing => ?_
        rw [hnode, hmissing.2] at hstored
        cases hstored
      have hcurrent : visit.id = m.current := by
        have hpath := hholds.getLast?_eq hwired
        rw [hlast] at hpath
        exact Option.some.inj hpath
      exact .inr ⟨hcurrent, by rw [hholds.isTerminal_eq hcurrent, hleaf]; rfl⟩
  · intro index value hindex
    obtain ⟨before, hbinds⟩ := hlegal.walks.links.1 visit hvisit
    rw [harchive] at hindex ⊢
    rw [Slot.config, hnode]
    exact hbinds.archive_valid hindex

/-- An age, which is not below zero, and nothing behind it. -/
def ageTemplate : Template :=
  (Chain.start "age" (Step.boundedNumeric "Age" (some .zero) none)).build

theorem bindValues_bound_valid_wordTemplate :
    let token : Token := [("word", .str "ant")]
    let outcome := (bindValues token).run ((new wordTemplate true).after [.transition])
    let m := outcome.state
    outcome.answer = .ok () ∧ 0 ∈ m.tree.pathTo m.current ∧
      ((m.tree.slot 0).node.stored? token).isSome = true ∧ (m.tree.slot 0).isValid = .ok true := by
  intro token outcome m
  have hok : outcome.answer = .ok () := rfl
  have hpath : 0 ∈ m.tree.pathTo m.current := List.mem_cons_self
  obtain ⟨hvalid | ⟨hcurrent, -⟩, -⟩ :=
    bindValues_bound_valid wordTemplate true [.transition] token hok 0 hpath rfl
  · exact ⟨hok, hpath, rfl, hvalid⟩
  · cases hcurrent

/-- The value of the step that ends a token is not judged: an age below zero is restored. -/
theorem bindValues_bound_invalid :
    let token : Token := [("age", .ofInt (-5))]
    let outcome := (bindValues token).run (new ageTemplate true)
    let m := outcome.state
    outcome.answer = .ok () ∧ m.current = 0 ∧ m.tree.pathTo m.current = [0] ∧
      ((m.tree.slot 0).node.stored? token).isSome = true ∧
        (m.tree.slot 0).isValid = .ok false :=
  ⟨rfl, rfl, rfl, rfl, by decide +kernel⟩

end Machine

end TokenGrammar
