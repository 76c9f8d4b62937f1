import TokenGrammar.Proofs.Machine.Invariant
import TokenGrammar.Proofs.Machine.Move

/-!
# The path of a machine is sound

Every step on the path to the active one is valid, and the step after it is the first child
that its value lets in, as if the machine had only just moved on.  No operation changes a
step above the active one, so what held when a step was left holds until it is active
again.
-/

namespace TokenGrammar.Machine

open Operation

/-- The wiring is intact, and every step above the active one leads to the next one in one
of the allowed ways. -/
structure Sound (allowed : Bool → Prop) (m : Machine) : Prop where
  wired : Wired m.tree.nodes
  current_lt : m.current < m.tree.size
  leads : ∀ parent child, child ∈ m.tree.pathTo m.current →
    m.tree.parent? child = some parent →
      ∃ ignoreBindOnly, allowed ignoreBindOnly ∧ Leads m.tree ignoreBindOnly parent child

variable {allowed : Bool → Prop}

/-! ## Single steps -/

theorem sound_new (template : Template) (flag : Bool) :
    Sound allowed (new template flag) := by
  have hwired : Wired (new template flag).tree.nodes := Tree.wired_ofTemplate template
  refine ⟨hwired, ?_, ?_⟩
  · cases template with
    | node vkey step children =>
        simp [new, Tree.size, Tree.ofTemplate, Tree.slotsOf, Tree.root]
  · intro parent child hchild hparent
    rw [show (new template flag).current = Tree.root from rfl, Tree.pathTo_root hwired,
      List.mem_singleton] at hchild
    rw [hchild, Tree.parent?_root hwired] at hparent
    cases hparent

theorem sound_inPlace {start m : Machine} (hm : InPlace start m) (h : Sound allowed start) :
    Sound allowed m := by
  refine ⟨hm.nodes_eq ▸ h.wired, ?_, ?_⟩
  · rw [hm.current_eq, hm.size_eq]
    exact h.current_lt
  · intro parent child hchild hparent
    rw [hm.pathTo_eq] at hchild
    rw [Tree.parent?_congr hm.nodes_eq] at hparent
    -- A parent on the path has a smaller id than the active step, so its slot is untouched.
    have hle := Tree.le_of_mem_pathTo h.wired hchild
    have hlt := Tree.parent_lt h.wired hparent
    have hslot : m.tree.slot parent = start.tree.slot parent := hm.slot_eq (by omega)
    obtain ⟨flag, hflag, hleads⟩ := h.leads parent child hchild hparent
    exact ⟨flag, hflag, hleads.congr h.wired hm.nodes_eq (by rw [hslot]) (by rw [hslot])⟩

theorem sound_withStore {m : Machine} (h : Sound allowed m) (id : Nat) (store : OptionStore) :
    Sound allowed (m.withStore id store) := by
  have hnodes := nodes_withStore m id store
  have hslot (target : Nat) :
      ((m.withStore id store).tree.slot target).value = (m.tree.slot target).value ∧
        ((m.withStore id store).tree.slot target).archive = (m.tree.slot target).archive := by
    rcases slot_withStore m id store target with hsame | ⟨rfl, hstore⟩
    · rw [hsame]
      exact ⟨rfl, rfl⟩
    · rw [hstore]
      exact ⟨rfl, rfl⟩
  refine ⟨hnodes ▸ h.wired, by simpa [withStore] using h.current_lt, ?_⟩
  intro parent child hchild hparent
  rw [show (m.withStore id store).current = m.current from rfl,
    Tree.pathTo_congr hnodes] at hchild
  rw [Tree.parent?_congr hnodes] at hparent
  obtain ⟨flag, hflag, hleads⟩ := h.leads parent child hchild hparent
  exact ⟨flag, hflag, hleads.congr h.wired hnodes (hslot parent).1 (hslot parent).2⟩

theorem sound_down {m : Machine} (h : Sound allowed m) {ignoreBindOnly : Bool} {child : Nat}
    (hallowed : allowed ignoreBindOnly) (hleads : Leads m.tree ignoreBindOnly m.current child) :
    Sound allowed { m with current := child } := by
  have hup := Tree.parent?_of_firstChild? h.wired hleads.2
  refine ⟨h.wired, (Tree.lt_size_of_parent? h.wired hup).1, ?_⟩
  intro parent below hbelow hparent
  -- The steps of the old path are as before, and the new one is the one led to.
  have hpath : m.tree.pathTo child = m.tree.pathTo m.current ++ [child] :=
    Tree.pathTo_of_parent? h.wired hup
  rcases List.mem_append.1 (hpath ▸ hbelow) with hbelow | hbelow
  · exact h.leads parent below hbelow hparent
  · obtain rfl := List.mem_singleton.1 hbelow
    obtain rfl : m.current = parent := Option.some.inj (hup.symm.trans hparent)
    exact ⟨ignoreBindOnly, hallowed, hleads⟩

theorem sound_up {m : Machine} (h : Sound allowed m) {parent : Nat}
    (hparent : m.tree.parent? m.current = some parent) :
    Sound allowed { m with current := parent } := by
  refine ⟨h.wired, (Tree.lt_size_of_parent? h.wired hparent).2, ?_⟩
  intro above child hchild habove
  refine h.leads above child ?_ habove
  rw [Tree.pathTo_of_parent? h.wired hparent]
  exact List.mem_append_left _ hchild

/-! ## Moves -/

theorem keeps_advance {ignoreBindOnly : Bool} (hallowed : allowed ignoreBindOnly) :
    Keeps (Sound allowed) (advance ignoreBindOnly) := by
  intro m h
  rw [advance_state]
  cases hnext : m.successor ignoreBindOnly with
  | error error => exact h
  | ok next => exact sound_down h hallowed ((successor_eq_ok_iff m ignoreBindOnly next).1 hnext)

theorem keeps_rewind : Keeps (Sound allowed) rewind := by
  intro m h
  rw [rewind_state]
  cases hparent : m.tree.parent? m.current with
  | none => exact h
  | some parent => exact sound_up h hparent

theorem keeps_reset : Keeps (Sound allowed) reset := by
  intro m h
  have hnodes : (reset.run m).state.tree.nodes = m.tree.nodes := Tree.nodes_reset m.tree
  have hwired : Wired (reset.run m).state.tree.nodes := hnodes ▸ h.wired
  have hcurrent : (reset.run m).state.current = Tree.root := rfl
  refine ⟨hwired, ?_, ?_⟩
  · rw [Tree.size_congr hnodes, hcurrent]
    exact Nat.lt_of_le_of_lt (Nat.zero_le _) h.current_lt
  · intro parent child hchild hparent
    rw [hcurrent, Tree.pathTo_root hwired, List.mem_singleton] at hchild
    rw [hchild, Tree.parent?_root hwired] at hparent
    cases hparent

theorem sound_preserved : Preserved allowed (Sound allowed) :=
  ⟨sound_inPlace, keeps_advance, keeps_rewind, keeps_reset⟩

/-! ## Runs -/

theorem sound_turn {m : Machine} {turn : Turn} (hallowed : allowed false)
    (hbind : (∃ token, turn = .call (.bind token)) → allowed true) (h : Sound allowed m) :
    Sound allowed (m.turn turn) := by
  cases turn with
  | call command =>
      refine sound_preserved.perform hallowed ?_ command ?_ m h
      · exact fun m id use hm => sound_withStore hm id _
      · rintro ⟨token, rfl⟩
        exact hbind ⟨token, rfl⟩
  | provider id fetch => exact sound_withStore h id _

theorem sound_play {m : Machine} {turns : List Turn} (hallowed : allowed false)
    (hbind : (∃ token, .call (.bind token) ∈ turns) → allowed true) (h : Sound allowed m) :
    Sound allowed (m.play turns) := by
  induction turns generalizing m with
  | nil => exact h
  | cons turn turns ih =>
      refine ih ?_ (sound_turn hallowed ?_ h)
      · rintro ⟨token, hmem⟩
        exact hbind ⟨token, List.mem_cons_of_mem _ hmem⟩
      · rintro ⟨token, rfl⟩
        exact hbind ⟨token, List.mem_cons_self⟩

theorem after_eq_play (m : Machine) (commands : List Command) :
    m.after commands = m.play (commands.map .call) := by
  rw [play, List.foldl_map]
  rfl

/-! ## Neighbours on the path -/

/-- Two neighbours on the path to the active step. -/
def Neighbours (m : Machine) (parent child : Nat) : Prop :=
  [parent, child] <:+: m.tree.pathTo m.current

theorem Sound.leads_of_neighbours {m : Machine} (h : Sound allowed m) {parent child : Nat}
    (hpair : m.Neighbours parent child) :
    ∃ ignoreBindOnly, allowed ignoreBindOnly ∧ Leads m.tree ignoreBindOnly parent child := by
  have hmem : child ∈ m.tree.pathTo m.current := hpair.subset (by simp)
  obtain ⟨above, below, hpath⟩ := hpair
  have hchain := List.isChain_iff_forall_rel_of_append_cons_cons.1
    (Tree.isChain_pathTo h.wired m.current)
  exact h.leads parent child hmem (hchain (by simpa using hpath.symm))

/-- Every step on the path to the active one but the last is valid, and the next one is the
first child whose guard accepts its value: of the children that users may enter, or of all
of them.  Without a restoration it is always one that users may enter, so that no step on
the path but the root is there for restoring only. -/
theorem play_path_sound (template : Template) (flag : Bool) (turns : List Turn) :
    let m := (new template flag).play turns
    (∀ parent child, m.Neighbours parent child →
      (m.tree.slot parent).isValid = .ok true ∧
        (m.tree.firstAccepting? parent (m.tree.openChildren parent) = some child ∨
          m.tree.firstAccepting? parent (m.tree.childrenOf parent) = some child)) ∧
      ((∀ token, .call (.bind token) ∉ turns) →
        (∀ parent child, m.Neighbours parent child →
          m.tree.firstAccepting? parent (m.tree.openChildren parent) = some child) ∧
        ∀ id ∈ m.tree.pathTo m.current, id ≠ Tree.root →
          (m.tree.slot id).config.bindOnly = false) := by
  intro m
  constructor
  · intro parent child hpair
    have hsound : Sound (fun _ => True) m :=
      sound_play trivial (fun _ => trivial) (sound_new template flag)
    obtain ⟨ignoreBindOnly, -, hvalid, hfirst⟩ := hsound.leads_of_neighbours hpair
    refine ⟨hvalid, ?_⟩
    cases ignoreBindOnly with
    | false => exact .inl (Tree.firstChild?_false hsound.wired parent ▸ hfirst)
    | true => exact .inr (Tree.firstChild?_true hsound.wired parent ▸ hfirst)
  · intro hnone
    -- Nothing but a restoration moves on past what users may enter.
    have hsound : Sound (· = false) m :=
      sound_play rfl (fun ⟨token, hmem⟩ => absurd hmem (hnone token)) (sound_new template flag)
    constructor
    · intro parent child hpair
      obtain ⟨_, rfl, -, hfirst⟩ := hsound.leads_of_neighbours hpair
      exact Tree.firstChild?_false hsound.wired parent ▸ hfirst
    · intro id hmem hroot
      have hlt : id < m.tree.size :=
        Nat.lt_of_le_of_lt (Tree.le_of_mem_pathTo hsound.wired hmem) hsound.current_lt
      obtain ⟨parent, hparent⟩ : ∃ parent, m.tree.parent? id = some parent :=
        Option.ne_none_iff_exists'.1 (mt (Tree.parent?_eq_none_iff hsound.wired hlt).1 hroot)
      obtain ⟨_, rfl, -, hfirst⟩ := hsound.leads parent id hmem hparent
      rw [Tree.firstChild?_false hsound.wired] at hfirst
      simpa using (List.mem_filter.1 (List.mem_of_find?_eq_some hfirst)).2

/-- A step that takes any value, followed by the end of the token. -/
def wordTemplate : Template :=
  (Chain.start "word" (Step.value "Word") |>.next none Step.terminal).build

theorem play_path_sound_wordTemplate :
    let m := (new wordTemplate false).play
      [.call (.edit (.setRaw (.str "ant"))), .call .transition]
    m.Neighbours 0 1 ∧ (m.tree.slot 0).isValid = .ok true ∧
      m.tree.firstAccepting? 0 (m.tree.openChildren 0) = some 1 ∧
      (m.tree.slot 1).config.bindOnly = false := by
  intro m
  have hpair : m.Neighbours 0 1 := ⟨[], [], rfl⟩
  obtain ⟨hsound, hopen⟩ := play_path_sound wordTemplate false
    [.call (.edit (.setRaw (.str "ant"))), .call .transition]
  obtain ⟨hfirst, hregular⟩ := hopen (by simp)
  exact ⟨hpair, (hsound 0 1 hpair).1, hfirst 0 1 hpair,
    hregular 1 (hpair.subset (by simp)) (by decide)⟩

end TokenGrammar.Machine
