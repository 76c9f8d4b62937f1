import TokenGrammar.Proofs.Binding.Step
import TokenGrammar.Proofs.Machine.Move

/-!
# The walk of a restoration

While a token is restored the machine stands on a path whose steps hold what they have
taken, and nothing has happened on any other step.  From there the walk goes on exactly as
the template says, and it strikes out the keys of the steps that it passes.
-/

namespace TokenGrammar

def Node.strike (node : Node) (pending : List String) : List String :=
  match node.vkey with
  | some vkey => Machine.without pending vkey
  | none => pending

/-- The keys that are left behind a path. -/
def Tree.struck (tree : Tree) (path : List Visit) (pending : List String) : List String :=
  path.foldl (fun pending visit => (tree.nodeOf visit).strike pending) pending

theorem Node.mem_strike {node : Node} {pending : List String} {key : String} :
    key ∈ node.strike pending ↔ key ∈ pending ∧ node.vkey ≠ some key := by
  unfold strike
  cases node.vkey with
  | none => simp
  | some vkey => simp [Machine.without, eq_comm (a := vkey)]

theorem Tree.mem_struck {tree : Tree} {path : List Visit} {pending : List String}
    {key : String} :
    key ∈ tree.struck path pending ↔
      key ∈ pending ∧ ∀ visit ∈ path, (tree.nodeOf visit).vkey ≠ some key := by
  induction path generalizing pending with
  | nil => simp [struck]
  | cons visit path ih =>
      rw [struck, List.foldl_cons, ← struck, ih, Node.mem_strike, List.forall_mem_cons, and_assoc]

namespace Machine

open Operation

/-- The machine stands below the visits, each of which holds what its step holds, and
nothing has happened on the active step and off the path. -/
structure Stands (tree : Tree) (before : List Visit) (m : Machine) : Prop where
  nodes_eq : m.tree.nodes = tree.nodes
  current_lt : m.current < m.tree.size
  path_eq : m.tree.pathTo m.current = before.map Visit.id ++ [m.current]
  held : ∀ visit ∈ before, (m.tree.slot visit.id).value = visit.value ∧
    (m.tree.slot visit.id).archive = visit.archive
  pristine : ∀ id, id ∉ before.map Visit.id → (m.tree.slot id).Pristine

/-- The machine stands on the last one of the visits, and nothing has happened off the
path. -/
structure Holds (tree : Tree) (visits : List Visit) (m : Machine) : Prop where
  nodes_eq : m.tree.nodes = tree.nodes
  current_lt : m.current < m.tree.size
  path_eq : m.tree.pathTo m.current = visits.map Visit.id
  held : ∀ visit ∈ visits, (m.tree.slot visit.id).value = visit.value ∧
    (m.tree.slot visit.id).archive = visit.archive
  pristine : ∀ id, id ∉ visits.map Visit.id → (m.tree.slot id).Pristine

variable {tree : Tree} {before : List Visit} {visit : Visit} {m mid m' : Machine} {token : Token}

/-! ## One step -/

theorem Stands.node_eq (h : Stands tree before m) (id : Nat) :
    (m.tree.slot id).node = tree.node id :=
  Tree.slot_node_congr h.nodes_eq id

theorem Stands.contextFor_eq (h : Stands tree before m) :
    m.tree.contextFor m.current = tree.contextOf before := by
  rw [Tree.contextFor, h.path_eq, List.dropLast_concat, Tree.contextOf, List.map_map]
  refine congrArg Context.mk (List.map_congr_left fun visit hmem => ?_)
  simp only [Function.comp, (h.held visit hmem).1, Slot.name, Slot.config, h.node_eq]
  rfl

theorem Stands.lt_current (hwired : Wired tree.nodes) (h : Stands tree before m) {id : Nat}
    (hmem : id ∈ before.map Visit.id) : id < m.current := by
  refine Tree.lt_of_mem_dropLast_pathTo (h.nodes_eq ▸ hwired) ?_
  rwa [h.path_eq, List.dropLast_concat]

theorem Stands.leaves_settle (hwired : Wired tree.nodes) (h : Stands tree before m)
    (hvisit : visit.id = m.current) :
    Leaves (settle token) m visit.value visit.archive ↔ tree.Binds token before visit := by
  have hpristine : m.currentSlot.Pristine :=
    h.pristine m.current fun hmem => Nat.lt_irrefl _ (h.lt_current hwired hmem)
  have hnode : m.currentSlot.node = tree.nodeOf visit := by
    rw [Tree.nodeOf, hvisit]
    exact h.node_eq m.current
  rw [Machine.leaves_settle hpristine h.current_lt, Slot.config, hnode, h.contextFor_eq]
  rfl

theorem keeps_settle (token : Token) : Keeps (InPlace m) (settle token) := by
  intro m hm
  unfold run settle
  cases m.currentSlot.node.stored? token with
  | none => exact keeps_activate none m hm
  | some raw => exact keeps_bindCurrent _ raw m hm

theorem Stands.holds (hwired : Wired tree.nodes) (h : Stands tree before m)
    (hplace : InPlace m mid) (hvisit : visit.id = m.current)
    (hvalue : mid.currentSlot.value = visit.value)
    (harchive : mid.currentSlot.archive = visit.archive) :
    Holds tree (before ++ [visit]) mid := by
  have hcurrent := hplace.current_eq
  refine ⟨hplace.nodes_eq.trans h.nodes_eq, ?_, ?_, ?_, ?_⟩
  · rw [hcurrent, hplace.size_eq]
    exact h.current_lt
  · rw [Tree.pathTo_congr hplace.nodes_eq, hcurrent, h.path_eq, List.map_append, ← hvisit]
    rfl
  · intro other hother
    rcases List.mem_append.1 hother with hother | hother
    · have hlt := h.lt_current hwired (List.mem_map_of_mem hother)
      rw [hplace.slot_eq (Nat.ne_of_lt hlt)]
      exact h.held other hother
    · obtain rfl := List.mem_singleton.1 hother
      rw [hvisit, ← hcurrent]
      exact ⟨hvalue, harchive⟩
  · intro id hid
    rw [List.map_append, List.mem_append, not_or, List.map_singleton, List.mem_singleton,
      hvisit] at hid
    rw [hplace.slot_eq hid.2]
    exact h.pristine id hid.1

theorem Holds.node_eq {visits : List Visit} (h : Holds tree visits m) (id : Nat) :
    (m.tree.slot id).node = tree.node id :=
  Tree.slot_node_congr h.nodes_eq id

theorem Holds.getLast?_eq (hwired : Wired tree.nodes) {visits : List Visit}
    (h : Holds tree visits m) : visits.getLast?.map Visit.id = some m.current := by
  rw [← List.getLast?_map, ← h.path_eq, Tree.getLast?_pathTo (h.nodes_eq ▸ hwired)]

theorem Holds.isTerminal_eq {visits : List Visit} (h : Holds tree visits m)
    (hvisit : visit.id = m.current) : m.isTerminal = (tree.nodeOf visit).children.isEmpty := by
  have hnode : m.currentSlot.node = tree.node m.current := h.node_eq m.current
  rw [isTerminal, Slot.isTerminal, hnode, Tree.nodeOf, hvisit]

/-- A move takes one round and leads to a greater id. -/
theorem Holds.size_le_of_leads (hwired : Wired tree.nodes) {visits : List Visit}
    (h : Holds tree visits m) {next rounds : Nat} (hleads : Leads m.tree true m.current next)
    (hrounds : m.tree.size ≤ rounds + 1 + m.current) : m.tree.size ≤ rounds + next := by
  have hm : Wired m.tree.nodes := h.nodes_eq ▸ hwired
  have hlt : m.current < next := Tree.parent_lt hm (Tree.parent?_of_firstChild? hm hleads.2)
  omega

theorem Holds.leads_iff (hwired : Wired tree.nodes) (h : Holds tree (before ++ [visit]) m)
    (hvisit : visit.id = m.current) {next : Nat} :
    Leads m.tree true m.current next ↔
      (tree.nodeOf visit).step.config.validator visit.value visit.archive = .ok true ∧
        ((tree.nodeOf visit).children.find? fun child =>
          (tree.node child).step.config.guard visit.value) = some next := by
  obtain ⟨hvalue, harchive⟩ := h.held visit (by simp)
  rw [Leads, Slot.isValid_eq_ok_iff, Tree.firstChild?_true (h.nodes_eq ▸ hwired),
    Tree.firstAccepting?, Tree.childrenOf, ← hvisit, hvalue, harchive]
  simp only [Slot.config, h.node_eq]
  rfl

theorem Holds.stands (hwired : Wired tree.nodes) {visits : List Visit}
    (h : Holds tree visits m) {next : Nat} (hleads : Leads m.tree true m.current next) :
    Stands tree visits { m with current := next } := by
  have hm : Wired m.tree.nodes := h.nodes_eq ▸ hwired
  have hparent := Tree.parent?_of_firstChild? hm hleads.2
  refine ⟨h.nodes_eq, (Tree.lt_size_of_parent? hm hparent).1, ?_, h.held, h.pristine⟩
  rw [← h.path_eq]
  exact Tree.pathTo_of_parent? hm hparent

/-! ## One round of the walk -/

/-- The walk gives the active step its entry.  It ends if there is none for the step's key. -/
theorem yields_bindFrom_succ {rounds : Nat} {pending rest : List String} :
    (bindFrom token (rounds + 1) pending).Yields m rest m' ↔
      ∃ mid, (settle token).Yields m () mid ∧
        (m.currentSlot.node.Missing token ∧ rest = m.currentSlot.node.strike pending ∧ m' = mid ∨
          ¬ m.currentSlot.node.Missing token ∧
            (goOn (bindFrom token rounds) (m.currentSlot.node.strike pending)).Yields mid rest
              m') := by
  rw [bindFrom, yields_read_bind]
  cases hvkey : m.currentSlot.node.vkey with
  | none =>
      have hentry : m.currentSlot.node.stored? token = none := by simp [Node.stored?, hvkey]
      simp [Node.Missing, Node.strike, hvkey, yields_settle_none hentry,
        yields_unit_bind]
  | some vkey =>
      have hentry : m.currentSlot.node.stored? token =
          entryFor? token vkey m.currentSlot.config.multivalue := by
        simp [Node.stored?, hvkey, Slot.config]
      cases hfor : entryFor? token vkey m.currentSlot.config.multivalue with
      | none =>
          rw [hfor] at hentry
          simp [Node.Missing, Node.strike, hvkey, hentry, hfor, yields_settle_none hentry,
            yields_unit_bind]
      | some raw =>
          rw [hfor] at hentry
          simp [Node.Missing, Node.strike, hvkey, hentry, hfor, yields_settle_some hentry,
            yields_unit_bind]

/-- The walk ends at a terminal step and else goes one step down. -/
theorem yields_goOn {below : List String → Op (List String)} {pending rest : List String} :
    (goOn below pending).Yields m rest m' ↔
      m.isTerminal = true ∧ rest = pending ∧ m' = m ∨
        m.isTerminal = false ∧ ∃ next, Leads m.tree true m.current next ∧
          (below pending).Yields { m with current := next } rest m' := by
  rw [goOn, yields_read_bind]
  cases hterminal : m.isTerminal with
  | true => simp
  | false => simp [yields_bind, yields_advance]

/-! ## Whole walks -/

/-- Where the template has a path the walk follows it to its end. -/
theorem yields_bindFrom_of_walks (hwired : Wired tree.nodes) {path : List Visit} {rounds : Nat}
    (pending : List String) (hstands : Stands tree before m)
    (hwalks : tree.Walks token before path) (hhead : path.head?.map Visit.id = some m.current)
    (hrounds : m.tree.size ≤ rounds + m.current) :
    ∃ m', (bindFrom token rounds pending).Yields m (tree.struck path pending) m' ∧
      Holds tree (before ++ path) m' := by
  -- Ids grow along the path, so that `rounds + m.current` does not fall below the size.
  induction path generalizing before m rounds pending with
  | nil => cases hhead
  | cons visit path ih =>
      have hvisit : visit.id = m.current := by simpa using hhead
      have hnode : m.currentSlot.node = tree.nodeOf visit := by
        rw [Tree.nodeOf, hvisit]
        exact hstands.node_eq m.current
      obtain ⟨rounds, rfl⟩ : ∃ n, rounds = n + 1 :=
        ⟨rounds - 1, by have := hstands.current_lt; omega⟩
      have hbinds : tree.Binds token before visit := by
        cases path with
        | nil => exact hwalks.1
        | cons next rest => exact hwalks.1
      obtain ⟨mid, hsettle, hvalue, harchive⟩ := (hstands.leaves_settle hwired hvisit).2 hbinds
      have hplace : InPlace m mid := hsettle.2 ▸ keeps_settle token m (.refl m)
      have hholds := hstands.holds hwired hplace hvisit hvalue harchive
      have hcurrent : visit.id = mid.current := hvisit.trans hplace.current_eq.symm
      have hmore : mid.tree.size ≤ rounds + 1 + mid.current := by
        rwa [hplace.size_eq, hplace.current_eq]
      simp only [yields_bindFrom_succ, hnode]
      cases path with
      | nil =>
          refine ⟨mid, ⟨mid, hsettle, ?_⟩, hholds⟩
          by_cases hmissing : (tree.nodeOf visit).Missing token
          · exact .inl ⟨hmissing, rfl, rfl⟩
          · have hleaf : (tree.nodeOf visit).children = [] := hwalks.2.resolve_right hmissing
            have hterminal : mid.isTerminal = true := by
              simp [hholds.isTerminal_eq hcurrent, hleaf]
            exact .inr ⟨hmissing, yields_goOn.2 (.inl ⟨hterminal, rfl, rfl⟩)⟩
      | cons next rest =>
          obtain ⟨-, ⟨hpresent, hvalid, hfirst⟩, hrest⟩ := hwalks
          have hleads : Leads mid.tree true mid.current next.id :=
            (hholds.leads_iff hwired hcurrent).2 ⟨hvalid, hfirst⟩
          have hterminal : mid.isTerminal = false := by
            cases hchildren : (tree.nodeOf visit).children with
            | nil => simp [hchildren] at hfirst
            | cons child children => simp [hholds.isTerminal_eq hcurrent, hchildren]
          obtain ⟨m', hyields, hend⟩ := ih (m := { mid with current := next.id })
            ((tree.nodeOf visit).strike pending) (hholds.stands hwired hleads) hrest rfl
            (hholds.size_le_of_leads hwired hleads hmore)
          refine ⟨m', ⟨mid, hsettle, .inr ⟨hpresent, ?_⟩⟩, by simpa using hend⟩
          exact yields_goOn.2 (.inr ⟨hterminal, next.id, hleads, hyields⟩)

/-- Where the walk comes to an end it has followed a path of the template. -/
theorem walks_of_yields_bindFrom (hwired : Wired tree.nodes) {rounds : Nat}
    {pending rest : List String} (hstands : Stands tree before m)
    (hyields : (bindFrom token rounds pending).Yields m rest m')
    (hrounds : m.tree.size ≤ rounds + m.current) :
    ∃ path, path.head?.map Visit.id = some m.current ∧ tree.Walks token before path := by
  -- What the step is left with in this round is its visit; the rest of the path is walked
  -- in the rounds to come.
  induction rounds generalizing before m pending with
  | zero =>
      have hlt := hstands.current_lt
      omega
  | succ rounds ih =>
      obtain ⟨mid, hsettle, hcont⟩ := yields_bindFrom_succ.1 hyields
      have hplace : InPlace m mid := hsettle.2 ▸ keeps_settle token m (.refl m)
      let visit : Visit := ⟨m.current, mid.currentSlot.value, mid.currentSlot.archive⟩
      have hnode : m.currentSlot.node = tree.nodeOf visit := hstands.node_eq m.current
      have hholds : Holds tree (before ++ [visit]) mid :=
        hstands.holds hwired hplace rfl rfl rfl
      have hbinds : tree.Binds token before visit :=
        (hstands.leaves_settle hwired rfl).1 ⟨mid, hsettle, rfl, rfl⟩
      have hcurrent : visit.id = mid.current := hplace.current_eq.symm
      have hmore : mid.tree.size ≤ rounds + 1 + mid.current := by
        rwa [hplace.size_eq, hplace.current_eq]
      rw [hnode] at hcont
      rcases hcont with ⟨hmissing, -, -⟩ | ⟨hpresent, hgoOn⟩
      · exact ⟨[visit], rfl, hbinds, .inr hmissing⟩
      · rcases yields_goOn.1 hgoOn with ⟨hterminal, -, -⟩ | ⟨-, next, hleads, hnext⟩
        · refine ⟨[visit], rfl, hbinds, .inl ?_⟩
          simpa [hholds.isTerminal_eq hcurrent] using hterminal
        · obtain ⟨path, hhead, hwalks⟩ := ih (hholds.stands hwired hleads) hnext
            (hholds.size_le_of_leads hwired hleads hmore)
          obtain ⟨hvalid, hfirst⟩ := (hholds.leads_iff hwired hcurrent).1 hleads
          cases path with
          | nil => cases hhead
          | cons first rest =>
              obtain rfl : first.id = next := by simpa using hhead
              exact ⟨visit :: first :: rest, rfl, hbinds, ⟨hpresent, hvalid, hfirst⟩, hwalks⟩

end Machine

end TokenGrammar
