import Mathlib.Data.List.Induction
import TokenGrammar.Proofs.Options.Store

/-!
# Histories of a store

Callers issue requests, begin refreshes, hand in results and reset the store, in any
order.  A history lists these moves; a result names its request by the position of the move
that opened it, so that nothing here speaks of generations.

The store counts the moves that supersede earlier requests, and the generation of a ticket
is that count at the time of its request.  `isCurrent_iff` turns the comparison of the two
numbers into the absence of such moves in between.
-/

namespace TokenGrammar.OptionStore

/-- What a caller does with a store. -/
inductive Move where
  | issue (hint : String)
  /-- A refresh begins; its answer comes later, if at all. -/
  | start (hint : String)
  /-- A refresh begins and goes on as far as its source lets it. -/
  | refresh (hint : String) (context : Context) (archive : List Choice)
  /-- Options arrive for the request that was opened at a position of the history. -/
  | complete (request : Nat) (options : List Choice)
  /-- A refresh that was begun at a position of the history resolves. -/
  | settle (request : Nat) (result : Except String (List Choice))
  | reset

/-- What the caller gets for a move. -/
inductive Reply where
  | opened (ticket : Ticket)
  | ended (result : Except String Refreshed)
  | silent

def Reply.ticket? : Reply → Option Ticket
  | opened ticket => some ticket
  | _ => none

/-- A store with the replies to all moves so far. -/
structure Run where
  store : OptionStore
  replies : List Reply

def Run.ticket? (run : Run) (position : Nat) : Option Ticket :=
  run.replies[position]?.bind Reply.ticket?

/-- Carries out a move.  A result for a request that was never opened is ignored. -/
def respond (store : OptionStore) (ticket? : Nat → Option Ticket) : Move → Reply × OptionStore
  | .issue hint =>
    let (ticket, store) := store.issue hint
    (.opened ticket, store)
  | .start hint =>
    if store.hasSource then
      let (ticket, store) := store.issue hint
      (.opened ticket, store)
    else (.ended (.ok .skipped), store)
  | .refresh hint context archive =>
    match store.refresh hint context archive with
    | (.ended result, store) => (.ended result, store)
    | (.waiting ticket, store) => (.opened ticket, store)
  | .complete request options =>
    match ticket? request with
    | some ticket =>
      let (refreshed, store) := store.complete ticket options
      (.ended (.ok refreshed), store)
    | none => (.silent, store)
  | .settle request result =>
    match ticket? request with
    | some ticket =>
      let (result, store) := store.settle ticket result
      (.ended result, store)
    | none => (.silent, store)
  | .reset => (.silent, store.reset)

def Run.step (run : Run) (move : Move) : Run :=
  let (reply, store) := respond run.store run.ticket? move
  ⟨store, run.replies ++ [reply]⟩

/-- The run of a history on a new store. -/
def replay (source : Source) (limit : Option Nat) (history : List Move) : Run :=
  history.foldl Run.step ⟨new source limit, []⟩

theorem replay_append (source : Source) (limit : Option Nat) (history : List Move)
    (move : Move) :
    replay source limit (history ++ [move]) = (replay source limit history).step move := by
  simp [replay]

/-! ## What a history says by itself -/

/-- A move that supersedes every earlier request: it opens one or resets the store. -/
def Move.supersedes (source : Source) : Move → Bool
  | issue _ | reset => true
  | start _ | refresh _ _ _ => source.isPresent
  | complete _ _ | settle _ _ => false

/-- The hint of the request that a move leaves open. -/
def Move.opens? (source : Source) : Move → Option String
  | issue hint => some hint
  | start hint => if source.isPresent then some hint else none
  | refresh hint context archive =>
    if source.isPresent then
      match source.fetch hint context archive with
      | .waiting => some hint
      | _ => none
    else none
  | complete _ _ | settle _ _ | reset => none

/-- The number of moves that supersede earlier requests. -/
def superseding (source : Source) (history : List Move) : Nat :=
  history.countP (Move.supersedes source)

/-- Between the move at the position of a request and a later position, some move
superseded the request. -/
def Superseded (source : Source) (history : List Move) (request position : Nat) : Prop :=
  ∃ between move, request < between ∧ between < position ∧
    history[between]? = some move ∧ move.supersedes source = true

theorem supersedes_of_opens {source : Source} {move : Move} {hint : String}
    (h : move.opens? source = some hint) : move.supersedes source = true := by
  cases hpresent : source.isPresent <;>
    cases move <;> simp_all [Move.opens?, Move.supersedes]

theorem superseding_append (source : Source) (history : List Move) (move : Move) :
    superseding source (history ++ [move]) =
      superseding source history + if move.supersedes source then 1 else 0 := by
  simp [superseding, List.countP_append, List.countP_cons]

theorem superseding_drop_eq_zero_iff (source : Source) (history : List Move) (request : Nat) :
    superseding source (history.drop (request + 1)) = 0 ↔
      ¬ Superseded source history request history.length := by
  unfold superseding Superseded
  rw [List.countP_eq_zero]
  constructor
  · rintro hnone ⟨between, move, hlow, -, hmove, hsup⟩
    refine hnone move ?_ hsup
    rw [List.mem_iff_getElem?]
    refine ⟨between - (request + 1), ?_⟩
    rw [List.getElem?_drop, show request + 1 + (between - (request + 1)) = between by omega]
    exact hmove
  · intro hnone move hmem hsup
    obtain ⟨offset, hoffset⟩ := List.mem_iff_getElem?.1 hmem
    rw [List.getElem?_drop] at hoffset
    have hlt : request + 1 + offset < history.length :=
      (List.getElem?_eq_some_iff.1 hoffset).1
    exact hnone ⟨request + 1 + offset, move, by omega, hlt, hoffset, hsup⟩

/-- The count has not risen since a request exactly if nothing superseded it. -/
theorem superseding_take_eq_iff (source : Source) (history : List Move) (request : Nat) :
    superseding source history = superseding source (history.take (request + 1)) ↔
      ¬ Superseded source history request history.length := by
  have hsplit : superseding source history =
      superseding source (history.take (request + 1)) +
        superseding source (history.drop (request + 1)) := by
    unfold superseding
    rw [← List.countP_append, List.take_append_drop]
  rw [← superseding_drop_eq_zero_iff]
  omega

/-! ## One move -/

section Respond

variable (store : OptionStore) (ticket? : Nat → Option Ticket)

theorem respond_refresh (hint : String) (context : Context) (archive : List Choice) :
    respond store ticket? (.refresh hint context archive) =
      if store.source.isPresent then
        match store.source.fetch hint context archive with
        | .ready options => (.ended (.ok .applied), store.requested.showing hint options)
        | .failed reason => (.ended (.error reason), store.requested)
        | .waiting => (.opened ⟨store.issued + 1, hint⟩, store.requested)
      else (.ended (.ok .skipped), store) := by
  cases h : store.source.isPresent with
  | false => simp [respond, refresh_of_absent h]
  | true =>
      simp only [respond, refresh_of_present h, if_true]
      cases store.source.fetch hint context archive <;> rfl

theorem respond_start (hint : String) :
    respond store ticket? (.start hint) =
      if store.source.isPresent then (.opened ⟨store.issued + 1, hint⟩, store.requested)
      else (.ended (.ok .skipped), store) := rfl

theorem respond_complete (request : Nat) (options : List Choice) :
    respond store ticket? (.complete request options) =
      respond store ticket? (.settle request (.ok options)) := by
  cases h : ticket? request <;> simp [respond, h, settle_ok]

theorem settle_cases (ticket : Ticket) (result : Except String (List Choice)) :
    (store.settle ticket result).2 = store ∨
      ∃ hint options, (store.settle ticket result).2 = store.showing hint options := by
  cases h : store.isCurrent ticket with
  | false => exact .inl (by rw [settle_of_stale h])
  | true =>
      rw [settle_of_current h]
      cases result with
      | ok options => exact .inr ⟨ticket.hint, options, rfl⟩
      | error _ => exact .inl rfl

/-- What a move leaves of the store, its options and their hint aside. -/
structure Kept (move : Move) (after : OptionStore) : Prop where
  source : after.source = store.source
  limit : after.limit = store.limit
  issued : after.issued = store.issued + if move.supersedes store.source then 1 else 0

theorem respond_kept (move : Move) : Kept store move (respond store ticket? move).2 := by
  have hsettle (request : Nat) (result : Except String (List Choice)) :
      Kept store (.settle request result) (respond store ticket? (.settle request result)).2 := by
    cases h : ticket? request with
    | none => exact ⟨by simp [respond, h], by simp [respond, h],
        by simp [respond, h, Move.supersedes]⟩
    | some ticket =>
        have hstore : (respond store ticket? (.settle request result)).2 =
            (store.settle ticket result).2 := by simp [respond, h]
        rw [hstore]
        rcases settle_cases store ticket result with heq | ⟨hint, options, heq⟩ <;>
          rw [heq] <;> exact ⟨rfl, rfl, by simp [Move.supersedes]⟩
  cases move with
  | issue hint => exact ⟨rfl, rfl, rfl⟩
  | start hint =>
      rw [respond_start]
      cases h : store.source.isPresent <;> constructor <;> simp [Move.supersedes, h]
  | refresh hint context archive =>
      rw [respond_refresh]
      cases h : store.source.isPresent <;>
        cases store.source.fetch hint context archive <;>
          constructor <;> simp [Move.supersedes, h]
  | complete request options =>
      rw [respond_complete]
      have hkept := hsettle request (.ok options)
      exact ⟨hkept.source, hkept.limit, hkept.issued⟩
  | settle request result => exact hsettle request result
  | reset => exact ⟨rfl, rfl, rfl⟩

/-- The generation of a ticket is the count of requests and resets, its own included. -/
theorem respond_ticket? (move : Move) :
    (respond store ticket? move).1.ticket? =
      (move.opens? store.source).map fun hint => ⟨store.issued + 1, hint⟩ := by
  have hsettle (request : Nat) (result : Except String (List Choice)) :
      (respond store ticket? (.settle request result)).1.ticket? = none := by
    cases h : ticket? request <;> simp [respond, h, Reply.ticket?]
  cases move with
  | issue hint => rfl
  | start hint =>
      rw [respond_start]
      cases h : store.source.isPresent <;> simp [Move.opens?, Reply.ticket?, h]
  | refresh hint context archive =>
      rw [respond_refresh]
      cases h : store.source.isPresent <;>
        cases hfetch : store.source.fetch hint context archive <;>
          simp [Move.opens?, Reply.ticket?, h, hfetch]
  | complete request options =>
      rw [respond_complete]
      exact hsettle request (.ok options)
  | settle request result => exact hsettle request result
  | reset => rfl

end Respond

/-! ## The run of a history -/

/-- The store and its tickets after a history, said by the history alone. -/
structure Follows (source : Source) (limit : Option Nat) (history : List Move) (run : Run) :
    Prop where
  source_eq : run.store.source = source
  limit_eq : run.store.limit = limit
  size_eq : run.replies.length = history.length
  issued_eq : run.store.issued = superseding source history
  tickets : ∀ position, run.ticket? position =
    (history[position]?.bind (Move.opens? source)).map fun hint =>
      ⟨superseding source (history.take (position + 1)), hint⟩

variable {source : Source} {limit : Option Nat} {history : List Move} {run : Run}

theorem follows_step (h : Follows source limit history run) (move : Move) :
    Follows source limit (history ++ [move]) (run.step move) := by
  have hkept := respond_kept run.store run.ticket? move
  have hissued : (run.step move).store.issued = superseding source (history ++ [move]) := by
    rw [superseding_append, ← h.issued_eq, ← h.source_eq]
    exact hkept.issued
  refine ⟨hkept.source.trans h.source_eq, hkept.limit.trans h.limit_eq,
    by simp [Run.step, h.size_eq], hissued, ?_⟩
  intro position
  -- Earlier positions keep their tickets, and the new one gets the count as its generation.
  rcases Nat.lt_trichotomy position history.length with hlt | rfl | hgt
  · have hsame : (run.step move).ticket? position = run.ticket? position := by
      simp [Run.ticket?, Run.step, List.getElem?_append_left, h.size_eq, hlt]
    rw [hsame, h.tickets, List.getElem?_append_left hlt,
      List.take_append_of_le_length (by omega)]
  · have hreply : (run.step move).ticket? history.length =
        (respond run.store run.ticket? move).1.ticket? := by
      simp [Run.ticket?, Run.step, ← h.size_eq]
    rw [hreply, respond_ticket?, List.getElem?_concat_length, List.take_of_length_le (by simp),
      h.source_eq]
    cases hopens : move.opens? source with
    | none => simp [hopens]
    | some hint =>
        have hsup : move.supersedes source = true := supersedes_of_opens hopens
        simp [hopens, superseding_append, hsup, h.issued_eq]
  · have hnone : (run.step move).replies[position]? = none := by
      rw [List.getElem?_eq_none_iff]
      simp [Run.step, h.size_eq]
      omega
    rw [Run.ticket?, hnone, List.getElem?_eq_none (by simp; omega)]
    rfl

theorem follows_replay (source : Source) (limit : Option Nat) (history : List Move) :
    Follows source limit history (replay source limit history) := by
  induction history using List.reverseRecOn with
  | nil => exact ⟨rfl, rfl, rfl, rfl, fun _ => rfl⟩
  | append_singleton history move ih =>
      rw [replay_append]
      exact follows_step ih move

end TokenGrammar.OptionStore
