import TokenGrammar.Proofs.Binding.Restore
import TokenGrammar.Proofs.Machine.Counting

/-!
# Calls with tickets

A ticket is good for the count at which it was handed out.  Where machines count from
different numbers, a call is the same call on both if its ticket is moved along; and since
counts only grow, a ticket that is not the latest one is good for nothing any more.
-/

namespace TokenGrammar

/-! ## Tickets in calls and answers -/

/-- The ticket that came with an answer. -/
def Answer.ticket? : Answer → Option Ticket
  | .ticket given | .refresh (.waiting given) => some given
  | _ => none

/-- The ticket for which a result is handed in. -/
def StoreUse.ticket? : StoreUse → Option Ticket
  | .complete ticket _ | .settle ticket _ => some ticket
  | _ => none

def Answer.countedFrom (n : Nat) : Answer → Answer
  | .ticket given => .ticket (given.countedFrom n)
  | .refresh result => .refresh (result.countedFrom n)
  | answer => answer

def StoreUse.countedFrom (n : Nat) : StoreUse → StoreUse
  | .complete ticket options => .complete (ticket.countedFrom n) options
  | .settle ticket result => .settle (ticket.countedFrom n) result
  | use => use

/-- The number that is counted before the requests of the store which a call uses. -/
def Command.countBefore (base : Nat → Nat) : Command → Nat
  | .store id _ => base id
  | _ => 0

/-- The same call on a machine whose stores count from other numbers. -/
def Command.countedFrom (base : Nat → Nat) : Command → Command
  | .store id use => .store id (use.countedFrom (base id))
  | command => command

theorem Answer.countedFrom_zero (answer : Answer) : answer.countedFrom 0 = answer := by
  cases answer with
  | ticket given => simp [Answer.countedFrom, Ticket.countedFrom]
  | refresh result =>
      cases result <;> simp [Answer.countedFrom, Refresh.countedFrom, Ticket.countedFrom]
  | _ => rfl

namespace OptionStore

variable {store : OptionStore} {use : StoreUse} {ticket : Ticket} {n : Nat}

theorem apply_countedFrom (store : OptionStore) (use : StoreUse) (n : Nat) :
    (store.countedFrom n).apply (use.countedFrom n) =
      ((store.apply use).1.countedFrom n, (store.apply use).2.countedFrom n) := by
  cases use with
  | issue hint => rfl
  | complete ticket options =>
      simp only [StoreUse.countedFrom, apply, complete_countedFrom]
      rfl
  | refresh hint context archive =>
      simp only [StoreUse.countedFrom, apply, refresh_countedFrom]
      rfl
  | settle ticket result =>
      simp only [StoreUse.countedFrom, apply, settle_countedFrom]
      rfl
  | reset => rfl

theorem issued_le_apply (store : OptionStore) (use : StoreUse) :
    store.issued ≤ (store.apply use).2.issued := by
  cases use with
  | issue hint => exact Nat.le_succ _
  | complete ticket options => exact (issued_complete store ticket options).ge
  | refresh hint context archive => exact issued_le_refresh store hint context archive
  | settle ticket result => exact (issued_settle store ticket result).ge
  | reset => exact Nat.le_succ _

/-- A ticket is handed out with the count that its own request makes. -/
theorem generation_le_issued (h : (store.apply use).1.ticket? = some ticket) :
    ticket.generation ≤ (store.apply use).2.issued := by
  cases use with
  | issue hint =>
      obtain rfl := Option.some.inj h
      exact Nat.le_refl _
  | refresh hint context archive =>
      cases hsource : store.hasSource with
      | false => simp [apply, Answer.ticket?, refresh_of_absent hsource] at h
      | true =>
          simp only [apply, refresh_of_present hsource] at h ⊢
          cases hfetch : store.source.fetch hint context archive <;>
            simp only [hfetch, Answer.ticket?, reduceCtorEq, Option.some.injEq] at h
          rw [← h]
          exact Nat.le_refl _
  | _ => cases h

/-- What is handed in for a ticket that is not the latest one is dropped. -/
theorem apply_of_stale (huse : use.ticket? = some ticket)
    (hstale : store.isCurrent ticket = false) :
    store.apply use = (.refresh (.ended (.ok .stale)), store) := by
  cases use with
  | complete other options =>
      obtain rfl := Option.some.inj huse
      simp [apply, complete, hstale]
  | settle other result =>
      obtain rfl := Option.some.inj huse
      simp [apply, settle_of_stale hstale]
  | _ => cases huse

end OptionStore

namespace Machine

open Operation

variable {m : Machine} {base : Nat → Nat} {tree : Tree} {id : Nat} {use : StoreUse}
  {ticket : Ticket}

/-! ## The same call on both machines -/

theorem ignores_perform {command : Command} (h : ∀ id use, command ≠ .store id use) :
    Ignores (countedFrom base) (perform command).run := by
  cases command with
  | edit edit => exact ignores_runSlot fun _ => Slot.ignores_perform edit
  | transition => exact ignores_bind (ignores_advance false) fun _ => ignores_pure _
  | rewind => exact ignores_bind ignores_rewind fun _ => ignores_pure _
  | reset => exact ignores_bind ignores_reset fun _ => ignores_pure _
  | activate raw? => exact ignores_bind (ignores_activate raw?) fun _ => ignores_pure _
  | archive => exact ignores_bind ignores_archive fun _ => ignores_pure _
  | unarchive => exact ignores_bind ignores_unarchive fun _ => ignores_pure _
  | removeArchived index =>
      exact ignores_bind (ignores_removeArchived index) fun _ => ignores_pure _
  | clearArchive => exact ignores_bind ignores_clearArchive fun _ => ignores_pure _
  | bind token => exact ignores_bind (ignores_bindValues token) fun _ => ignores_pure _
  | handle requests => exact ignores_bind (ignores_handleAll requests) fun _ => ignores_pure _
  | store id use => exact absurd rfl (h id use)

theorem withStore_countedFrom (m : Machine) (base : Nat → Nat) (id : Nat)
    (store : OptionStore) :
    (m.countedFrom base).withStore id (store.countedFrom (m.tree.countBefore base id)) =
      (m.withStore id store).countedFrom base := by
  have hset := m.tree.set_countedFrom base id { m.tree.slot id with store }
  simp only [withStore, countedFrom, m.tree.slot_countedFrom base id]
  rw [← hset]
  rfl

theorem run_store (m : Machine) (id : Nat) (use : StoreUse) :
    (perform (.store id use)).run m =
      ⟨.ok ((m.tree.slot id).store.apply use).1,
        m.withStore id ((m.tree.slot id).store.apply use).2, []⟩ := rfl

theorem run_perform_countedFrom (hbase : ∀ id, m.tree.size ≤ id → base id = 0)
    (command : Command) :
    (perform (command.countedFrom base)).run (m.countedFrom base) =
      ⟨((perform command).run m).answer.map (·.countedFrom (command.countBefore base)),
        ((perform command).run m).state.countedFrom base, ((perform command).run m).events⟩ := by
  by_cases hstore : ∃ id use, command = .store id use
  · obtain ⟨id, use, rfl⟩ := hstore
    have hcount : m.tree.countBefore base id = base id := by
      rcases Nat.lt_or_ge id m.tree.size with hlt | hge
      · exact Tree.countBefore_of_lt hlt
      · rw [Tree.countBefore_of_ge hge, hbase id hge]
    have hslot : ((m.countedFrom base).tree.slot id).store =
        (m.tree.slot id).store.countedFrom (base id) := by
      rw [← hcount]
      exact congrArg Slot.store (m.tree.slot_countedFrom base id)
    have happly := OptionStore.apply_countedFrom (m.tree.slot id).store use (base id)
    have hwith := m.withStore_countedFrom base id ((m.tree.slot id).store.apply use).2
    rw [hcount] at hwith
    simp only [Command.countedFrom, run_store, hslot, happly, hwith]
    rfl
  · -- No other call has a ticket.
    have hother : ∀ id use, command ≠ .store id use := fun id use h => hstore ⟨id, use, h⟩
    have hsame : command.countedFrom base = command ∧ command.countBefore base = 0 := by
      cases command with
      | store id use => exact absurd rfl (hother id use)
      | _ => exact ⟨rfl, rfl⟩
    have hanswer (answer : Except (Halt MachineError) Answer) :
        answer.map (·.countedFrom 0) = answer := by
      cases answer with
      | ok answer => exact congrArg Except.ok answer.countedFrom_zero
      | error halt => rfl
    rw [hsame.1, hsame.2, hanswer]
    exact ignores_perform hother m

/-! ## Counts only grow -/

/-- The machine without the counts of its stores. -/
def uncounted (m : Machine) : Machine :=
  { m with tree := ⟨m.tree.slots.map fun slot =>
    { slot with store := { slot.store with issued := 0 } }⟩ }

theorem uncounted_countedFrom (m : Machine) :
    m.uncounted.countedFrom (fun id => (m.tree.slot id).store.issued) = m := by
  have hslots : (m.uncounted.countedFrom fun id => (m.tree.slot id).store.issued).tree.slots =
      m.tree.slots := by
    refine List.ext_getElem? fun id => ?_
    simp only [countedFrom, uncounted, Tree.countedFrom, List.getElem?_mapIdx, List.getElem?_map]
    cases hget : m.tree.slots[id]? with
    | none => rfl
    | some slot =>
        have hslot : m.tree.slot id = slot := by simp [Tree.slot, Tree.get?, hget]
        rw [hslot]
        rfl
  exact congrArg (fun slots => { m with tree := ⟨slots⟩ }) hslots

theorem issued_le_of_ignores {α : Type} {operation : Op α}
    (h : ∀ base, Ignores (countedFrom base) operation.run)
    (hsize : (operation.run m).state.tree.size = m.tree.size) (id : Nat) :
    (m.tree.slot id).store.issued ≤ ((operation.run m).state.tree.slot id).store.issued := by
  rcases Nat.lt_or_ge id m.tree.size with hlt | hge
  · -- The operation adds its own requests to what was counted before.
    have hrun := h (fun id => (m.tree.slot id).store.issued) m.uncounted
    rw [uncounted_countedFrom] at hrun
    have hstate := congrArg Outcome.state hrun
    have hafter : id < (operation.run m.uncounted).state.tree.size := by
      rw [hstate] at hsize
      rw [← hsize] at hlt
      simpa [countedFrom] using hlt
    rw [hstate]
    simp only [countedFrom, Tree.slot_countedFrom, Tree.countBefore_of_lt hafter]
    exact Nat.le_add_right ..
  · rw [Tree.slot_of_ge hge]
    exact Nat.zero_le _

theorem issued_withStore {store : OptionStore} (target : Nat)
    (h : (m.tree.slot id).store.issued ≤ store.issued) :
    (m.tree.slot target).store.issued ≤ ((m.withStore id store).tree.slot target).store.issued := by
  rcases slot_withStore m id store target with hsame | ⟨rfl, hstore⟩
  · rw [hsame]
  · rw [hstore]
    exact h

end Machine

end TokenGrammar
