import TokenGrammar.Machine.Basic
import TokenGrammar.Proofs.Operation
import TokenGrammar.Proofs.Tree.Path

/-!
# Where the moves of a machine lead

A machine moves on only from a valid step, to the first child that its value lets in, and
back to the parent.  A move changes nothing but the step that is active.
-/

namespace TokenGrammar.Machine

open Operation

/-- A step is valid, and its value leads to a child. -/
def Leads (tree : Tree) (ignoreBindOnly : Bool) (parent child : Nat) : Prop :=
  (tree.slot parent).isValid = .ok true ∧
    tree.firstChild? parent ignoreBindOnly = some child

/-- Where a step leads is decided by its value and archive and by fixed data. -/
theorem Leads.congr {tree other : Tree} {ignoreBindOnly : Bool} {parent child : Nat}
    (hwired : Wired tree.nodes) (hnodes : other.nodes = tree.nodes)
    (hvalue : (other.slot parent).value = (tree.slot parent).value)
    (harchive : (other.slot parent).archive = (tree.slot parent).archive)
    (h : Leads tree ignoreBindOnly parent child) : Leads other ignoreBindOnly parent child := by
  have hconfig (id : Nat) : (other.slot id).config = (tree.slot id).config := by
    rw [Slot.config, Slot.config, Tree.slot_node_congr hnodes]
  have hother : Wired other.nodes := hnodes ▸ hwired
  obtain ⟨hvalid, hfirst⟩ := h
  refine ⟨?_, ?_⟩
  · rwa [Slot.isValid, Slot.name, hconfig, hvalue, harchive]
  · rw [Tree.firstChild?_eq hwired] at hfirst
    rw [Tree.firstChild?_eq hother, Tree.slot_node_congr hnodes]
    simpa only [Slot.accepts, hconfig, hvalue] using hfirst

theorem successor_eq_ok_iff (m : Machine) (ignoreBindOnly : Bool) (child : Nat) :
    m.successor ignoreBindOnly = .ok child ↔ Leads m.tree ignoreBindOnly m.current child := by
  unfold successor Leads
  cases hvalid : m.currentSlot.isValid with
  | error error =>
      have hslot : (m.tree.slot m.current).isValid = .error error := hvalid
      simp [hvalid, hslot]
  | ok valid =>
      have hslot : (m.tree.slot m.current).isValid = .ok valid := hvalid
      cases valid with
      | false => simp [hvalid, hslot]
      | true => cases m.tree.firstChild? m.current ignoreBindOnly <;> simp [hvalid, hslot]

/-- The end of the token that is announced on the active step, if it ends there. -/
def ending (m : Machine) : List MachineEvent :=
  if m.isTerminal then [.tokenEnded m.rawToken] else []

theorem run_advance_of_ok {m : Machine} {ignoreBindOnly : Bool} {next : Nat}
    (h : m.successor ignoreBindOnly = .ok next) :
    (advance ignoreBindOnly).run m = ⟨.ok next, { m with current := next },
      (.moved m.current next :: ending { m with current := next }).map .machine⟩ := by
  have hask : (ask fun m => m.successor ignoreBindOnly : Op Nat).run m = _ := run_ask_of_ok h
  have hmove : (moveTo next).run m =
      ⟨.ok (), { m with current := next }, [.machine (.moved m.current next)]⟩ := rfl
  have hend (m : Machine) : announceEnd.run m = ⟨.ok (), m, m.ending.map .machine⟩ := by
    unfold run announceEnd ending
    cases m.isTerminal <;> rfl
  rw [advance, run_bind_of_ok hask, run_bind_of_ok hmove, run_bind_of_ok (hend _)]
  simp

theorem run_advance_of_error {m : Machine} {ignoreBindOnly : Bool} {error : MachineError}
    (h : m.successor ignoreBindOnly = .error error) :
    (advance ignoreBindOnly).run m = ⟨.error (.failed error), m, []⟩ := by
  have hask : (ask fun m => m.successor ignoreBindOnly : Op Nat).run m = _ := run_ask_of_error h
  rw [advance, run_bind_of_error hask]

theorem advance_state (m : Machine) (ignoreBindOnly : Bool) :
    ((advance ignoreBindOnly).run m).state =
      match m.successor ignoreBindOnly with
      | .ok next => { m with current := next }
      | .error _ => m := by
  cases h : m.successor ignoreBindOnly with
  | ok next => rw [run_advance_of_ok h]
  | error error => rw [run_advance_of_error h]

theorem yields_moveTo {m m' : Machine} {target : Nat} {done : Unit} :
    (moveTo target).Yields m done m' ↔ m' = { m with current := target } := by
  constructor
  · rintro ⟨-, rfl⟩
    rfl
  · rintro rfl
    exact ⟨rfl, rfl⟩

theorem yields_announceEnd {m m' : Machine} {done : Unit} :
    announceEnd.Yields m done m' ↔ m' = m := by
  constructor
  · rintro ⟨-, rfl⟩
    rfl
  · rintro rfl
    exact ⟨rfl, rfl⟩

theorem yields_advance {m m' : Machine} {ignoreBindOnly : Bool} {next : Nat} :
    (advance ignoreBindOnly).Yields m next m' ↔
      Leads m.tree ignoreBindOnly m.current next ∧ m' = { m with current := next } := by
  simp only [advance, yields_bind, yields_ask, yields_moveTo, yields_announceEnd, yields_pure,
    successor_eq_ok_iff]
  constructor
  · rintro ⟨child, _, ⟨hleads, rfl⟩, _, _, rfl, _, _, rfl, rfl, rfl⟩
    exact ⟨hleads, rfl⟩
  · rintro ⟨hleads, rfl⟩
    exact ⟨next, m, ⟨hleads, rfl⟩, (), _, rfl, (), _, rfl, rfl, rfl⟩

theorem run_rewind_of_some {m : Machine} {parent : Nat}
    (h : m.tree.parent? m.current = some parent) :
    rewind.run m = ⟨.ok (some parent), { m with current := parent },
      [.machine (.moved m.current parent)]⟩ := by
  rw [rewind, run_read_bind, h]
  rfl

theorem run_rewind_of_none {m : Machine} (h : m.tree.parent? m.current = none) :
    rewind.run m = ⟨.ok none, m, []⟩ := by
  rw [rewind, run_read_bind, h]
  rfl

theorem rewind_state (m : Machine) :
    (rewind.run m).state =
      match m.tree.parent? m.current with
      | some parent => { m with current := parent }
      | none => m := by
  cases h : m.tree.parent? m.current with
  | some parent => rw [run_rewind_of_some h]
  | none => rw [run_rewind_of_none h]

end TokenGrammar.Machine
