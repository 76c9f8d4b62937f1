import TokenGrammar.Proofs.Options.History

/-!
# The last request wins

However requests, refreshes, late results and resets interleave, a store shows what the
last effective result brought since the last reset, and its initial options if there was
none.  A result is effective if nothing superseded its request before it arrived.
-/

namespace TokenGrammar.OptionStore

/-- A result that arrives for a request. -/
structure Arrival where
  request : Nat
  hint : String
  result : Except String (List Choice)

def openedAt (source : Source) (history : List Move) (position : Nat) : Option String :=
  history[position]?.bind (Move.opens? source)

def answered? (source : Source) (hint : String) (context : Context) (archive : List Choice) :
    Option (Except String (List Choice)) :=
  if source.isPresent then
    match source.fetch hint context archive with
    | .ready options => some (.ok options)
    | .failed reason => some (.error reason)
    | .waiting => none
  else none

/-- The result that the move at a position brings for a request opened before.  A refresh
that is answered at once brings the result of its own request. -/
def arrival? (source : Source) (history : List Move) (position : Nat) : Option Arrival :=
  match history[position]? with
  | some (.complete request options) =>
    (openedAt source (history.take position) request).map (⟨request, ·, .ok options⟩)
  | some (.settle request result) =>
    (openedAt source (history.take position) request).map (⟨request, ·, result⟩)
  | some (.refresh hint context archive) =>
    (answered? source hint context archive).map (⟨position, hint, ·⟩)
  | _ => none

/-- The move at a position brings options for a request that nothing has superseded. -/
def Effective (source : Source) (history : List Move) (position : Nat) (hint : String)
    (options : List Choice) : Prop :=
  ∃ request, arrival? source history position = some ⟨request, hint, .ok options⟩ ∧
    ¬ Superseded source history request position

/-! ## Later moves change nothing about earlier positions -/

section Append

variable {source : Source} {history : List Move} {move : Move} {position : Nat}

theorem superseded_append (h : position ≤ history.length) (request : Nat) :
    Superseded source (history ++ [move]) request position ↔
      Superseded source history request position := by
  constructor
  all_goals
    rintro ⟨between, other, hlow, hhigh, hother, hsup⟩
    refine ⟨between, other, hlow, hhigh, ?_, hsup⟩
    have hlt : between < history.length := by omega
    simpa [List.getElem?_append_left hlt] using hother

theorem arrival?_append (h : position < history.length) :
    arrival? source (history ++ [move]) position = arrival? source history position := by
  simp only [arrival?, List.getElem?_append_left h,
    List.take_append_of_le_length (Nat.le_of_lt h)]

theorem effective_append (h : position < history.length) (hint : String)
    (options : List Choice) :
    Effective source (history ++ [move]) position hint options ↔
      Effective source history position hint options := by
  simp only [Effective, arrival?_append h, superseded_append (Nat.le_of_lt h)]

theorem effective_lt {hint : String} {options : List Choice}
    (h : Effective source history position hint options) : position < history.length := by
  obtain ⟨request, harrival, -⟩ := h
  by_contra hge
  simp [arrival?, List.getElem?_eq_none (Nat.le_of_not_lt hge)] at harrival

theorem arrival?_last :
    arrival? source (history ++ [move]) history.length =
      match move with
      | .complete request options =>
        (openedAt source history request).map (⟨request, ·, .ok options⟩)
      | .settle request result =>
        (openedAt source history request).map (⟨request, ·, result⟩)
      | .refresh hint context archive =>
        (answered? source hint context archive).map (⟨history.length, hint, ·⟩)
      | _ => none := by
  cases move <;> simp [arrival?]

end Append

/-! ## What the last move does -/

section LastMove

variable {source : Source} {limit : Option Nat} {history : List Move} {run : Run}

/-- The store takes a ticket for current exactly if nothing superseded its request. -/
theorem isCurrent_ticket_iff (h : Follows source limit history run) {request : Nat}
    {ticket : Ticket} (hticket : run.ticket? request = some ticket) :
    run.store.isCurrent ticket = true ↔
      ¬ Superseded source history request history.length := by
  rw [h.tickets] at hticket
  obtain ⟨hint, -, rfl⟩ := Option.map_eq_some_iff.1 hticket
  rw [isCurrent_iff, h.issued_eq]
  exact superseding_take_eq_iff source history request

theorem not_superseded_self (source : Source) (history : List Move) (position : Nat) :
    ¬ Superseded source history position position := by
  rintro ⟨between, -, hlow, hhigh, -⟩
  omega

theorem ticket?_of_openedAt (h : Follows source limit history run) {request : Nat}
    {hint : String} (hopened : openedAt source history request = some hint) :
    ∃ ticket, run.ticket? request = some ticket ∧ ticket.hint = hint := by
  refine ⟨⟨superseding source (history.take (request + 1)), hint⟩, ?_, rfl⟩
  rw [h.tickets, show history[request]?.bind (Move.opens? source) = some hint from hopened]
  rfl

theorem respond_refresh_of_answered {store : OptionStore} {ticket? : Nat → Option Ticket}
    {hint : String} {context : Context} {archive : List Choice}
    {result : Except String (List Choice)}
    (h : answered? store.source hint context archive = some result) :
    respond store ticket? (.refresh hint context archive) =
      (.ended (result.map fun _ => .applied), store.requested.taking hint result) := by
  rw [respond_refresh]
  unfold answered? at h
  split_ifs at h ⊢
  cases hfetch : store.source.fetch hint context archive <;> rw [hfetch] at h <;> cases h <;> rfl

theorem respond_refresh_of_unanswered {store : OptionStore} {ticket? : Nat → Option Ticket}
    {hint : String} {context : Context} {archive : List Choice}
    (h : answered? store.source hint context archive = none) :
    (respond store ticket? (.refresh hint context archive)).2 = store ∨
      (respond store ticket? (.refresh hint context archive)).2 = store.requested := by
  rw [respond_refresh]
  unfold answered? at h
  split_ifs at h ⊢
  · cases hfetch : store.source.fetch hint context archive with
    | ready options => simp [hfetch] at h
    | failed reason => simp [hfetch] at h
    | waiting => exact .inr rfl
  · exact .inl rfl

theorem respond_settle_of_superseded (h : Follows source limit history run) {request : Nat}
    {hint : String} (hopened : openedAt source history request = some hint)
    (hsup : Superseded source history request history.length)
    (result : Except String (List Choice)) :
    respond run.store run.ticket? (.settle request result) =
      (.ended (.ok .stale), run.store) := by
  obtain ⟨ticket, hticket, rfl⟩ := ticket?_of_openedAt h hopened
  have hstale : run.store.isCurrent ticket = false := by
    rw [Bool.eq_false_iff]
    exact fun hcurrent => (isCurrent_ticket_iff h hticket).1 hcurrent hsup
  simp [respond, hticket, settle_of_stale hstale]

theorem respond_settle_of_not_superseded (h : Follows source limit history run)
    {request : Nat} {hint : String} (hopened : openedAt source history request = some hint)
    (hsup : ¬ Superseded source history request history.length)
    (result : Except String (List Choice)) :
    respond run.store run.ticket? (.settle request result) =
      (.ended (result.map fun _ => .applied), run.store.taking hint result) := by
  obtain ⟨ticket, hticket, rfl⟩ := ticket?_of_openedAt h hopened
  have hcurrent := (isCurrent_ticket_iff h hticket).2 hsup
  simp [respond, hticket, settle_of_current hcurrent]

theorem respond_of_superseded (h : Follows source limit history run) {move : Move}
    {a : Arrival}
    (harrival : arrival? source (history ++ [move]) history.length = some a)
    (hsup : Superseded source history a.request history.length) :
    respond run.store run.ticket? move = (.ended (.ok .stale), run.store) := by
  rw [arrival?_last] at harrival
  cases move with
  | complete request options =>
      obtain ⟨hint, hopened, rfl⟩ := Option.map_eq_some_iff.1 harrival
      rw [respond_complete]
      exact respond_settle_of_superseded h hopened hsup (.ok options)
  | settle request result =>
      obtain ⟨hint, hopened, rfl⟩ := Option.map_eq_some_iff.1 harrival
      exact respond_settle_of_superseded h hopened hsup result
  | refresh hint context archive =>
      obtain ⟨result, -, rfl⟩ := Option.map_eq_some_iff.1 harrival
      exact absurd hsup (not_superseded_self source history history.length)
  | issue hint => simp at harrival
  | start hint => simp at harrival
  | reset => simp at harrival

theorem respond_of_not_superseded (h : Follows source limit history run) {move : Move}
    {a : Arrival}
    (harrival : arrival? source (history ++ [move]) history.length = some a)
    (hsup : ¬ Superseded source history a.request history.length) :
    ∃ store, (store = run.store ∨ store = run.store.requested) ∧
      respond run.store run.ticket? move =
        (.ended (a.result.map fun _ => .applied), store.taking a.hint a.result) := by
  rw [arrival?_last] at harrival
  cases move with
  | complete request options =>
      obtain ⟨hint, hopened, rfl⟩ := Option.map_eq_some_iff.1 harrival
      rw [respond_complete]
      exact ⟨run.store, .inl rfl,
        respond_settle_of_not_superseded h hopened hsup (.ok options)⟩
  | settle request result =>
      obtain ⟨hint, hopened, rfl⟩ := Option.map_eq_some_iff.1 harrival
      exact ⟨run.store, .inl rfl, respond_settle_of_not_superseded h hopened hsup result⟩
  | refresh hint context archive =>
      obtain ⟨result, hanswered, rfl⟩ := Option.map_eq_some_iff.1 harrival
      -- Its own request is counted before the result is taken.
      rw [← h.source_eq] at hanswered
      exact ⟨run.store.requested, .inr rfl, respond_refresh_of_answered hanswered⟩
  | issue hint => simp at harrival
  | start hint => simp at harrival
  | reset => simp at harrival

theorem respond_options_of_no_arrival (h : Follows source limit history run) {move : Move}
    (harrival : arrival? source (history ++ [move]) history.length = none)
    (hreset : move ≠ .reset) :
    (respond run.store run.ticket? move).2.options = run.store.options ∧
      (respond run.store run.ticket? move).2.appliedHint = run.store.appliedHint := by
  have hsettle (request : Nat) (result : Except String (List Choice))
      (hopened : openedAt source history request = none) :
      respond run.store run.ticket? (.settle request result) = (.silent, run.store) := by
    have hticket : run.ticket? request = none := by
      rw [h.tickets, show history[request]?.bind (Move.opens? source) = none from hopened]
      rfl
    simp [respond, hticket]
  rw [arrival?_last] at harrival
  cases move with
  | complete request options =>
      rw [respond_complete, hsettle request _ (by simpa using harrival)]
      exact ⟨rfl, rfl⟩
  | settle request result =>
      rw [hsettle request _ (by simpa using harrival)]
      exact ⟨rfl, rfl⟩
  | refresh hint context archive =>
      have hanswered : answered? run.store.source hint context archive = none := by
        simpa [h.source_eq] using harrival
      rcases respond_refresh_of_unanswered hanswered with heq | heq <;> rw [heq] <;>
        exact ⟨rfl, rfl⟩
  | issue hint => exact ⟨rfl, rfl⟩
  | start hint =>
      rw [respond_start]
      cases run.store.source.isPresent <;> exact ⟨rfl, rfl⟩
  | reset => exact absurd rfl hreset

end LastMove

/-! ## What a store shows -/

/-- The options of a store and their hint, as the history determines them. -/
structure Shows (source : Source) (limit : Option Nat) (history : List Move)
    (store : OptionStore) : Prop where
  latest : ∀ position hint options, Effective source history position hint options →
    (∀ later, position < later → history[later]? ≠ some .reset ∧
      ∀ hint options, ¬ Effective source history later hint options) →
    store.options = truncate limit options ∧ store.appliedHint = some hint
  initial : (∀ position hint options, Effective source history position hint options →
      ∃ later, position < later ∧ history[later]? = some .reset) →
    store.options = initialOptions source limit ∧ store.appliedHint = none

section Shows

variable {source : Source} {limit : Option Nat} {history : List Move} {move : Move}
  {store after : OptionStore}

theorem lt_or_eq_of_effective_append {position : Nat} {hint : String}
    {options : List Choice}
    (h : Effective source (history ++ [move]) position hint options) :
    position < history.length ∨ position = history.length := by
  have := effective_lt h
  rw [List.length_append, List.length_singleton] at this
  omega

theorem shows_append_of_reset (hoptions : after.options = initialOptions source limit)
    (hhint : after.appliedHint = none) : Shows source limit (history ++ [.reset]) after := by
  refine ⟨fun position hint options heffective hlast => ?_, fun _ => ⟨hoptions, hhint⟩⟩
  rcases lt_or_eq_of_effective_append heffective with hlt | rfl
  · exact absurd (List.getElem?_concat_length ..) (hlast history.length hlt).1
  · obtain ⟨request, harrival, -⟩ := heffective
    simp [arrival?_last] at harrival

theorem shows_append_of_effective {hint : String} {options : List Choice}
    (heffective : Effective source (history ++ [move]) history.length hint options)
    (hoptions : after.options = truncate limit options) (hhint : after.appliedHint = some hint) :
    Shows source limit (history ++ [move]) after := by
  constructor
  · intro position hint' options' heffective' hlast
    rcases lt_or_eq_of_effective_append heffective' with hlt | rfl
    · exact absurd heffective ((hlast history.length hlt).2 hint options)
    · obtain ⟨request, harrival, -⟩ := heffective
      obtain ⟨request', harrival', -⟩ := heffective'
      simp only [harrival, Option.some.injEq, Arrival.mk.injEq, Except.ok.injEq] at harrival'
      obtain ⟨-, rfl, rfl⟩ := harrival'
      exact ⟨hoptions, hhint⟩
  · intro hreset
    obtain ⟨later, hlater, hmove⟩ := hreset _ _ _ heffective
    rw [List.getElem?_eq_none (by simp; omega)] at hmove
    cases hmove

theorem shows_append_of_unchanged (h : Shows source limit history store)
    (hnone : ∀ hint options,
      ¬ Effective source (history ++ [move]) history.length hint options)
    (hmove : move ≠ .reset) (hoptions : after.options = store.options)
    (hhint : after.appliedHint = store.appliedHint) :
    Shows source limit (history ++ [move]) after := by
  have hposition {position : Nat} {hint : String} {options : List Choice}
      (heffective : Effective source (history ++ [move]) position hint options) :
      position < history.length ∧ Effective source history position hint options := by
    rcases lt_or_eq_of_effective_append heffective with hlt | rfl
    · exact ⟨hlt, (effective_append hlt hint options).1 heffective⟩
    · exact absurd heffective (hnone hint options)
  have hreset {later : Nat} (hlater : (history ++ [move])[later]? = some .reset) :
      history[later]? = some .reset := by
    rw [List.getElem?_append] at hlater
    split at hlater
    · exact hlater
    · have hmem := List.mem_of_getElem? hlater
      exact absurd (List.mem_singleton.1 hmem).symm hmove
  constructor
  · intro position hint options heffective hlast
    obtain ⟨-, hbefore⟩ := hposition heffective
    rw [hoptions, hhint]
    refine h.latest position hint options hbefore fun later hlt => ⟨fun hlater => ?_, ?_⟩
    · refine (hlast later hlt).1 ?_
      rw [List.getElem?_append_left (List.getElem?_eq_some_iff.1 hlater).1, hlater]
    · intro hint' options' hlater
      exact (hlast later hlt).2 hint' options'
        ((effective_append (effective_lt hlater) hint' options').2 hlater)
  · intro hall
    rw [hoptions, hhint]
    refine h.initial fun position hint options heffective => ?_
    obtain ⟨later, hlt, hlater⟩ := hall position hint options
      ((effective_append (effective_lt heffective) hint options).2 heffective)
    exact ⟨later, hlt, hreset hlater⟩

theorem shows_step {run : Run} (hrun : Follows source limit history run)
    (h : Shows source limit history run.store) (move : Move) :
    Shows source limit (history ++ [move]) (run.step move).store := by
  have hstore : (run.step move).store = (respond run.store run.ticket? move).2 := rfl
  -- A reset, no arrival, an arrival that comes too late, or one that is taken.
  by_cases hmove : move = .reset
  · subst hmove
    refine shows_append_of_reset ?_ rfl
    rw [← hrun.source_eq, ← hrun.limit_eq]
    rfl
  cases harrival : arrival? source (history ++ [move]) history.length with
  | none =>
      obtain ⟨hoptions, hhint⟩ := respond_options_of_no_arrival hrun harrival hmove
      refine shows_append_of_unchanged h ?_ hmove hoptions hhint
      rintro hint options ⟨request, hsome, -⟩
      rw [harrival] at hsome
      cases hsome
  | some a =>
      by_cases hsup : Superseded source history a.request history.length
      · rw [hstore, respond_of_superseded hrun harrival hsup]
        refine shows_append_of_unchanged h ?_ hmove rfl rfl
        rintro hint options ⟨request, hsome, hnot⟩
        rw [harrival, Option.some.injEq] at hsome
        subst hsome
        exact hnot ((superseded_append (Nat.le_refl _) request).2 hsup)
      · obtain ⟨taker, htaker, hrespond⟩ := respond_of_not_superseded hrun harrival hsup
        obtain ⟨request, hint, result⟩ := a
        rw [hstore, hrespond]
        cases result with
        | ok options =>
            have heffective : Effective source (history ++ [move]) history.length hint options :=
              ⟨request, harrival, by rwa [superseded_append (Nat.le_refl _)]⟩
            refine shows_append_of_effective heffective ?_ rfl
            rcases htaker with rfl | rfl <;> simp [taking, hrun.limit_eq]
        | error reason =>
            refine shows_append_of_unchanged h ?_ hmove ?_ ?_
            · rintro hint' options ⟨request', hsome, -⟩
              rw [harrival] at hsome
              cases hsome
            · rcases htaker with rfl | rfl <;> rfl
            · rcases htaker with rfl | rfl <;> rfl

theorem shows_replay (source : Source) (limit : Option Nat) (history : List Move) :
    Shows source limit history (replay source limit history).store := by
  induction history using List.reverseRecOn with
  | nil =>
      refine ⟨fun position hint options h => ?_, fun _ => ⟨rfl, rfl⟩⟩
      exact absurd (effective_lt h) (Nat.not_lt_zero position)
  | append_singleton history move ih =>
      rw [replay_append]
      exact shows_step (follows_replay source limit history) ih move

end Shows

/-! ## What callers are told -/

section Replies

variable {source : Source} {limit : Option Nat} {history : List Move} {move : Move}

theorem replies_append {position : Nat} (h : position < history.length) :
    (replay source limit (history ++ [move])).replies[position]? =
      (replay source limit history).replies[position]? := by
  rw [replay_append]
  refine List.getElem?_append_left ?_
  rwa [(follows_replay source limit history).size_eq]

theorem replies_append_last :
    (replay source limit (history ++ [move])).replies[history.length]? =
      some (respond (replay source limit history).store
        (replay source limit history).ticket? move).1 := by
  rw [replay_append, ← (follows_replay source limit history).size_eq]
  exact List.getElem?_concat_length ..

theorem reply_of_arrival (source : Source) (limit : Option Nat) (history : List Move)
    {position : Nat} {a : Arrival} (harrival : arrival? source history position = some a) :
    (Superseded source history a.request position →
      (replay source limit history).replies[position]? = some (.ended (.ok .stale))) ∧
    (¬ Superseded source history a.request position →
      (replay source limit history).replies[position]? =
        some (.ended (a.result.map fun _ => .applied))) := by
  induction history using List.reverseRecOn with
  | nil => simp [arrival?] at harrival
  | append_singleton history move ih =>
      have hrun := follows_replay source limit history
      have hle : position ≤ history.length := by
        by_contra hgt
        rw [arrival?, List.getElem?_eq_none (by simp; omega)] at harrival
        cases harrival
      rw [superseded_append hle]
      rcases Nat.lt_or_eq_of_le hle with hlt | rfl
      · rw [replies_append hlt]
        rw [arrival?_append hlt] at harrival
        exact ih harrival
      · rw [replies_append_last]
        constructor
        · intro hsup
          rw [respond_of_superseded hrun harrival hsup]
        · intro hsup
          obtain ⟨taker, -, hrespond⟩ := respond_of_not_superseded hrun harrival hsup
          rw [hrespond]

end Replies

/-- Over every history, the last effective result since the last reset decides what a store
shows, and the initial options stand if there was none.  A result is applied, or its failure
reported, exactly if nothing superseded its request before it arrived. -/
theorem replay_last_issued_wins (source : Source) (limit : Option Nat) (history : List Move) :
    let final := replay source limit history
    (∀ position hint options, Effective source history position hint options →
      (∀ later, position < later → history[later]? ≠ some .reset ∧
        ∀ hint options, ¬ Effective source history later hint options) →
      final.store.options = limit.elim options (options.take ·) ∧
        final.store.appliedHint = some hint) ∧
    ((∀ position hint options, Effective source history position hint options →
        ∃ later, position < later ∧ history[later]? = some .reset) →
      final.store.options = (new source limit).options ∧ final.store.appliedHint = none) ∧
    (∀ position a, arrival? source history position = some a →
      (Superseded source history a.request position →
        final.replies[position]? = some (.ended (.ok .stale))) ∧
      (¬ Superseded source history a.request position →
        final.replies[position]? = some (.ended (a.result.map fun _ => .applied)))) := by
  have hshows := shows_replay source limit history
  refine ⟨fun position hint options heffective hlast => ?_, hshows.initial,
    fun position a => reply_of_arrival source limit history⟩
  obtain ⟨hoptions, hhint⟩ := hshows.latest position hint options heffective hlast
  refine ⟨?_, hhint⟩
  cases limit <;> exact hoptions

/-- Two requests with one hint are still told apart: the older one comes too late. -/
example :
    (replay .absent none [.issue "x", .issue "x", .complete 1 [], .complete 0 []]).replies =
      [.opened ⟨1, "x"⟩, .opened ⟨2, "x"⟩, .ended (.ok .applied), .ended (.ok .stale)] := rfl

end TokenGrammar.OptionStore
