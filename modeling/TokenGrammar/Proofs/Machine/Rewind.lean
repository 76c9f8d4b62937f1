import TokenGrammar.Proofs.Machine.PathSound

/-!
# Moving back is undone by moving on

A move back leaves everything that was entered where it is, also on the step that is left.
Without a restoration every step above the active one leads on to the next step of the path,
so that the same number of moves on ends where the moves back began.
-/

namespace TokenGrammar.Machine

open Operation

/-- Calls that lead from one machine to another, each of which succeeds and is a move. -/
inductive Travels : Machine → List Command → Machine → Prop where
  | done {m : Machine} : Travels m [] m
  | move {m mid m' : Machine} {command : Command} {commands : List Command} {target : Nat}
      (moved : (perform command).Yields m (.moved (some target)) mid)
      (rest : Travels mid commands m') : Travels m (command :: commands) m'

namespace Travels

variable {m mid m' : Machine} {commands later : List Command}

theorem append (h : Travels m commands mid) (h' : Travels mid later m') :
    Travels m (commands ++ later) m' := by
  induction h with
  | done => exact h'
  | move moved _ ih => exact .move moved (ih h')

theorem rewind {parent : Nat} (h : m.tree.parent? m.current = some parent) :
    Travels m [.rewind] { m with current := parent } := by
  have hmoved : Machine.rewind.Yields m (some parent) { m with current := parent } := by
    rw [Yields, run_rewind_of_some h]
    exact ⟨rfl, rfl⟩
  exact .move (yields_bind.2 ⟨_, _, hmoved, (yields_pure ..).2 ⟨rfl, rfl⟩⟩) .done

theorem transition {child : Nat} (h : Leads m.tree false m.current child) :
    Travels m [.transition] { m with current := child } := by
  have hmoved : Machine.transition.Yields m child { m with current := child } :=
    yields_advance.2 ⟨h, rfl⟩
  exact .move (yields_bind.2 ⟨_, _, hmoved, (yields_pure ..).2 ⟨rfl, rfl⟩⟩) .done

end Travels

/-- One move back and the move on that undoes it, in a machine that users led to its place. -/
theorem travels_back_and_forth {m : Machine} {parent : Nat} (h : Sound (· = false) m)
    (hparent : m.tree.parent? m.current = some parent) :
    Travels m [.rewind] { m with current := parent } ∧
      Travels { m with current := parent } [.transition] m := by
  have hmem : m.current ∈ m.tree.pathTo m.current :=
    List.mem_of_getLast? (Tree.getLast?_pathTo h.wired m.current)
  obtain ⟨_, rfl, hleads⟩ := h.leads parent m.current hmem hparent
  exact ⟨.rewind hparent, .transition (m := { m with current := parent }) hleads⟩

theorem exists_travels_of_sound {m : Machine} (h : Sound (· = false) m) {k : Nat}
    (hk : k < (m.tree.pathTo m.current).length) :
    ∃ up, Travels m (List.replicate k .rewind) up ∧
      Travels up (List.replicate k .transition) m := by
  -- The first move back is undone by the last move on.
  induction k generalizing m with
  | zero => exact ⟨m, .done, .done⟩
  | succ k ih =>
      cases hparent : m.tree.parent? m.current with
      | none =>
          rw [Tree.pathTo_of_parent?_none hparent, List.length_singleton] at hk
          omega
      | some parent =>
          rw [Tree.pathTo_of_parent? h.wired hparent, List.length_append,
            List.length_singleton] at hk
          obtain ⟨hback, hforth⟩ := travels_back_and_forth h hparent
          obtain ⟨up, hup, hdown⟩ := ih (sound_up h hparent) (Nat.lt_of_succ_lt_succ hk)
          refine ⟨up, ?_, ?_⟩
          · rw [List.replicate_succ]
            exact hback.append hup
          · rw [List.replicate_succ']
            exact hdown.append hforth

/-- As long as nothing is restored, any number of moves back along the path succeed, and as
many moves on succeed after them and end in the very machine from which the way back began.
At the root there is no move back, and the attempt changes nothing. -/
theorem play_rewind_undone (template : Template) (flag : Bool) (turns : List Turn) :
    let m := (new template flag).play turns
    ((∀ token, .call (.bind token) ∉ turns) → ∀ k < (m.tree.pathTo m.current).length,
      ∃ up, Travels m (List.replicate k .rewind) up ∧
        Travels up (List.replicate k .transition) m) ∧
      (m.current = Tree.root → rewind.run m = ⟨.ok none, m, []⟩) := by
  intro m
  constructor
  · intro hnone k hk
    have hsound : Sound (· = false) m :=
      sound_play rfl (fun ⟨token, hmem⟩ => absurd hmem (hnone token)) (sound_new template flag)
    exact exists_travels_of_sound hsound hk
  · intro hroot
    have hsound : Sound (fun _ => True) m :=
      sound_play trivial (fun _ => trivial) (sound_new template flag)
    refine run_rewind_of_none ?_
    rw [hroot]
    exact Tree.parent?_root hsound.wired

theorem play_rewind_undone_wordTemplate :
    let start := new wordTemplate false
    let m := start.play [.call (.edit (.setRaw (.str "ant"))), .call .transition]
    (∃ up, Travels m [.rewind] up ∧ Travels up [.transition] m) ∧
      rewind.run start = ⟨.ok none, start, []⟩ := by
  intro start m
  obtain ⟨hundone, -⟩ := play_rewind_undone wordTemplate false
    [.call (.edit (.setRaw (.str "ant"))), .call .transition]
  obtain ⟨-, hroot⟩ := play_rewind_undone wordTemplate false []
  exact ⟨hundone (by simp) 1 (by decide), hroot rfl⟩

end TokenGrammar.Machine
