import TokenGrammar.Proofs.Machine.PathSound
import TokenGrammar.Proofs.Machine.Active
import TokenGrammar.Proofs.Slot.Entered

/-!
# Filling a machine by hand

A user enters raw values, moves values to the archive and back, and moves between steps.
In a plain grammar every slot then holds values that were entered.
-/

namespace TokenGrammar

/-- Steps that take values as they are, each key at most once on the way to an end. -/
structure Template.Plain (template : Template) : Prop where
  nodes : ∀ node ∈ (Tree.ofTemplate template).nodes, node.Plain
  keys : ∀ id < (Tree.ofTemplate template).size, (Tree.ofTemplate template).childrenOf id = [] →
    (((Tree.ofTemplate template).pathTo id).filterMap fun ancestor =>
      ((Tree.ofTemplate template).slot ancestor).node.vkey).Nodup

/-- A call of a user who fills the steps one after the other. -/
def Command.Interactive : Command → Prop
  | .edit (.setRaw _) | .archive | .unarchive | .removeArchived _ | .clearArchive
  | .transition | .rewind | .reset => True
  | _ => False

namespace Machine

open Operation

/-- All slots hold values that were entered. -/
def Entered (m : Machine) : Prop := ∀ id, (m.tree.slot id).Entered

variable {m : Machine} {α η : Type}

theorem Entered.put (h : Entered m) {slot : Slot} (hslot : slot.Entered) :
    Entered (m.put slot) :=
  forall_slot_put (p := fun _ => Slot.Entered) h hslot

theorem entered_carry {act : Slot → Outcome Slot SlotEvent (Except η α)}
    {lift : η → Halt MachineError} (h : ∀ s : Slot, s.Entered → (act s).state.Entered) :
    Keeps Entered (carry act lift) :=
  fun m hm => Entered.put hm (h m.currentSlot (hm m.current))

theorem entered_advance (ignoreBindOnly : Bool) : Keeps Entered (advance ignoreBindOnly) := by
  intro m hm
  rw [advance_state]
  cases m.successor ignoreBindOnly <;> exact hm

theorem entered_rewind : Keeps Entered rewind := by
  intro m hm
  rw [rewind_state]
  cases m.tree.parent? m.current <;> exact hm

theorem entered_reset : Keeps Entered reset := by
  intro m hm id
  change (m.tree.reset.state.slot id).Entered
  rcases Nat.lt_or_ge id m.tree.size with hlt | hge
  · rw [Tree.slot_reset hlt]
    exact (hm id).reset
  · rw [Tree.slot_of_ge (by rwa [Tree.size_reset]), ← Tree.slot_of_ge hge]
    exact hm id

theorem entered_perform {command : Command} (hcommand : command.Interactive) :
    Keeps Entered (perform command) := by
  cases command with
  | edit edit =>
      cases edit with
      | setRaw raw =>
          have henter : Keeps Slot.Entered (Slot.perform (.setRaw raw)) := by
            refine keeps_bind (fun s hs => ?_) fun _ => keeps_pure _
            rw [Slot.enter_state]
            exact hs.setRaw raw
          exact entered_carry henter
      | _ => exact hcommand.elim
  | transition => exact keeps_bind (entered_advance false) fun _ => keeps_pure _
  | rewind => exact keeps_bind entered_rewind fun _ => keeps_pure _
  | reset => exact keeps_bind entered_reset fun _ => keeps_pure _
  | archive =>
      exact keeps_bind (keeps_bind (entered_carry fun _ => Slot.Entered.archiveValue)
        fun _ => keeps_emit _) fun _ => keeps_pure _
  | unarchive =>
      exact keeps_bind (keeps_bind (entered_carry fun _ => Slot.Entered.unarchiveValue)
        fun _ => keeps_emit _) fun _ => keeps_pure _
  | removeArchived index =>
      exact keeps_bind (keeps_bind (entered_carry fun _ hs => hs.removeArchived index)
        fun _ => keeps_bind (keeps_emit _) fun _ => keeps_pure _) fun _ => keeps_pure _
  | clearArchive =>
      exact keeps_bind (fun m hm => Entered.put hm (hm m.current).clearArchive)
        fun _ => keeps_pure _
  | _ => exact hcommand.elim

theorem entered_new {template : Template} (h : template.Plain) (flag : Bool) :
    Entered (new template flag) := by
  intro id
  rcases Nat.lt_or_ge id (Tree.ofTemplate template).size with hlt | hge
  · obtain ⟨node, hnode⟩ := Tree.slot_ofTemplate template id
    rw [new, hnode]
    refine .fresh (h.nodes node ?_)
    have hget := Tree.getElem?_nodes_of_lt hlt
    rw [hnode] at hget
    exact List.mem_of_getElem? hget
  · rw [new, Tree.slot_of_ge hge]
    exact .fresh Node.plain_default

theorem entered_after {m : Machine} (hm : Entered m) {commands : List Command}
    (h : ∀ command ∈ commands, command.Interactive) : Entered (m.after commands) := by
  induction commands generalizing m with
  | nil => exact hm
  | cons command commands ih =>
      exact ih (entered_perform (h command List.mem_cons_self) m hm)
        fun other hother => h other (List.mem_cons_of_mem _ hother)

end Machine

end TokenGrammar
