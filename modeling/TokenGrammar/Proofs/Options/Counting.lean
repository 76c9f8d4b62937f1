import TokenGrammar.Proofs.Options.Store

/-!
# Where a store begins to count

A store uses the count of its requests for nothing but to compare it with a ticket.  If it
begins to count at another number, and all tickets are moved along, it does the same.
-/

namespace TokenGrammar

/-- The ticket of the same request, where a number of requests was counted before. -/
def Ticket.countedFrom (n : Nat) (ticket : Ticket) : Ticket :=
  ⟨n + ticket.generation, ticket.hint⟩

def Refresh.countedFrom (n : Nat) : Refresh → Refresh
  | .ended result => .ended result
  | .waiting ticket => .waiting (ticket.countedFrom n)

namespace OptionStore

variable {store : OptionStore} {ticket : Ticket} {n : Nat}

/-- The store with a number of requests counted before its own ones. -/
def countedFrom (n : Nat) (store : OptionStore) : OptionStore :=
  { store with issued := n + store.issued }

@[simp] theorem countedFrom_zero : store.countedFrom 0 = store := by
  simp [countedFrom]

@[simp] theorem isCurrent_countedFrom :
    (store.countedFrom n).isCurrent (ticket.countedFrom n) = store.isCurrent ticket := by
  rw [Bool.eq_iff_iff, isCurrent_iff, isCurrent_iff]
  exact Nat.add_left_cancel_iff

theorem complete_countedFrom (options : List Choice) :
    (store.countedFrom n).complete (ticket.countedFrom n) options =
      ((store.complete ticket options).1, (store.complete ticket options).2.countedFrom n) := by
  unfold complete
  rw [isCurrent_countedFrom]
  cases store.isCurrent ticket <;> rfl

theorem settle_countedFrom (result : Except String (List Choice)) :
    (store.countedFrom n).settle (ticket.countedFrom n) result =
      ((store.settle ticket result).1, (store.settle ticket result).2.countedFrom n) := by
  cases result with
  | ok options => rw [settle_ok, settle_ok, complete_countedFrom]
  | error reason =>
      simp only [settle, isCurrent_countedFrom]
      cases store.isCurrent ticket <;> rfl

theorem refresh_countedFrom (hint : String) (context : Context) (archive : List Choice) :
    (store.countedFrom n).refresh hint context archive =
      ((store.refresh hint context archive).1.countedFrom n,
        (store.refresh hint context archive).2.countedFrom n) := by
  have hsource : (store.countedFrom n).hasSource = store.hasSource := rfl
  cases h : store.hasSource with
  | false =>
      rw [refresh_of_absent h, refresh_of_absent (hsource.trans h)]
      rfl
  | true =>
      rw [refresh_of_present h, refresh_of_present (hsource.trans h),
        show (store.countedFrom n).source = store.source from rfl]
      cases store.source.fetch hint context archive <;> rfl

/-! ## The count only grows -/

theorem issued_settle (store : OptionStore) (ticket : Ticket)
    (result : Except String (List Choice)) :
    (store.settle ticket result).2.issued = store.issued := by
  cases h : store.isCurrent ticket with
  | false => rw [settle_of_stale h]
  | true =>
      rw [settle_of_current h]
      cases result <;> rfl

theorem issued_complete (store : OptionStore) (ticket : Ticket) (options : List Choice) :
    (store.complete ticket options).2.issued = store.issued :=
  issued_settle store ticket (.ok options)

theorem issued_le_refresh (store : OptionStore) (hint : String) (context : Context)
    (archive : List Choice) :
    store.issued ≤ (store.refresh hint context archive).2.issued := by
  cases h : store.hasSource with
  | false => exact Nat.le_of_eq (by rw [refresh_of_absent h])
  | true =>
      rw [refresh_of_present h]
      cases store.source.fetch hint context archive <;> exact Nat.le_succ _

/-- A ticket from before the last request is stale, whatever is handed in for it. -/
theorem isCurrent_of_lt (h : ticket.generation < store.issued) :
    store.isCurrent ticket = false := by
  simp [isCurrent, Nat.ne_of_gt h]

end OptionStore

end TokenGrammar
