import TokenGrammar.Proofs.Machine.Active

/-!
# Giving one step its entry

The active step takes its entry exactly as the template says that it does.  What follows
needs only the value and the archive that it is left with.
-/

namespace TokenGrammar.Machine

open Operation

/-- The operation ends, with this value and this archive on the active step. -/
def Leaves (operation : Op Unit) (m : Machine) (value? : Option Choice)
    (archive : List Choice) : Prop :=
  ∃ mid, operation.Yields m () mid ∧
    mid.currentSlot.value = value? ∧ mid.currentSlot.archive = archive

/-- Gives the active step what a token has for it. -/
def settle (token : Token) : Op Unit := fun m =>
  match m.currentSlot.node.stored? token with
  | none => (activate none).run m
  | some raw => (bindCurrent (m.currentSlot.node.vkey.getD "") raw).run m

variable {m : Machine} {value? : Option Choice} {archive : List Choice} {vkey : String}
  {raw : Json}

theorem yields_settle_none {token : Token} (h : m.currentSlot.node.stored? token = none)
    {mid : Machine} : (settle token).Yields m () mid ↔ (activate none).Yields m () mid := by
  simp only [Yields, Operation.run, settle, h]

theorem yields_settle_some {token : Token} (h : m.currentSlot.node.stored? token = some raw)
    {mid : Machine} :
    (settle token).Yields m () mid ↔
      (bindCurrent (m.currentSlot.node.vkey.getD "") raw).Yields m () mid := by
  simp only [Yields, Operation.run, settle, h]

theorem leaves_bindItems (hmultivalue : m.currentSlot.config.multivalue = true)
    (hlt : m.current < m.tree.size) (hvalue : m.currentSlot.value = m.currentSlot.config.default?)
    (items : List Json) :
    Leaves (bindItems vkey raw items) m value? archive ↔
      value? = m.currentSlot.config.default? ∧
        m.currentSlot.config.Collects m.currentSlot.store.options m.currentSlot.archive items
          archive := by
  -- Each archived value leaves the step as it was but for its archive, so the machine is
  -- general in the induction.
  induction items generalizing m with
  | nil =>
      simp only [Leaves, bindItems, yields_pure, true_and, exists_eq_left, hvalue]
      constructor
      · rintro ⟨rfl, rfl⟩
        exact ⟨rfl, .done⟩
      · rintro ⟨rfl, ⟨⟩⟩
        exact ⟨rfl, rfl⟩
  | cons item items ih =>
      have hnext (value : Choice) :
          Leaves (bindItems vkey raw items) (m.put (m.currentSlot.collecting value)) value?
              archive ↔
            value? = m.currentSlot.config.default? ∧
              m.currentSlot.config.Collects m.currentSlot.store.options
                (m.currentSlot.archive ++ [value]) items archive := by
        have hslot := currentSlot_put hlt (m.currentSlot.collecting value)
        rw [ih (by rw [hslot]; exact hmultivalue) (by simpa using hlt) (by rw [hslot]; rfl), hslot]
        rfl
      constructor
      · rintro ⟨mid, hyields, hleft⟩
        obtain ⟨value, hitem, hbox, hvalid, hroom, hrest⟩ :=
          (yields_bindItems_cons hmultivalue hlt).1 hyields
        obtain ⟨hdefault, hcollects⟩ := (hnext value).1 ⟨mid, hrest, hleft⟩
        exact ⟨hdefault, .next hitem hbox hvalid hroom hcollects⟩
      · rintro ⟨hdefault, ⟨⟩ | ⟨hitem, hbox, hvalid, hroom, hcollects⟩⟩
        obtain ⟨mid, hrest, hleft⟩ := (hnext _).2 ⟨hdefault, hcollects⟩
        exact ⟨mid, (yields_bindItems_cons hmultivalue hlt).2
          ⟨_, hitem, hbox, hvalid, hroom, hrest⟩, hleft⟩

/-! ## On a pristine step -/

section Pristine

variable (h : m.currentSlot.Pristine) (hlt : m.current < m.tree.size)

include h hlt

theorem leaves_activate_none :
    Leaves (activate none) m value? archive ↔
      (m.currentSlot.config.hydrated? (m.tree.contextFor m.current) none).isSome ∧
        value? = m.currentSlot.config.default? ∧ archive = [] := by
  simp only [Leaves, yields_activate, h.yields_activate_none]
  constructor
  · rintro ⟨_, ⟨_, ⟨hhydrated, rfl⟩, rfl⟩, rfl, rfl⟩
    rw [currentSlot_put hlt]
    exact ⟨hhydrated, h.value_eq, h.archive_eq⟩
  · rintro ⟨hhydrated, rfl, rfl⟩
    refine ⟨_, ⟨_, ⟨hhydrated, rfl⟩, rfl⟩, ?_⟩
    rw [currentSlot_put hlt]
    exact ⟨h.value_eq, h.archive_eq⟩

theorem leaves_bindCurrent_single (hsingle : m.currentSlot.config.multivalue = false) :
    Leaves (bindCurrent vkey raw) m value? archive ↔
      ∃ options value,
        m.currentSlot.config.hydrated? (m.tree.contextFor m.current) (some raw) = some options ∧
        m.currentSlot.config.boxer.box raw options = .ok (some value) ∧
        value? = some value ∧ archive = [] := by
  have hyields {mid : Machine} : (bindCurrent vkey raw).Yields m () mid ↔
      ∃ t, (Slot.activate (m.tree.contextFor m.current) (some raw)).Yields m.currentSlot () t ∧
        t.value.isSome ∧ mid = m.put t := by
    rw [bindCurrent, yields_read_bind, hsingle, if_neg Bool.false_ne_true, yields_bind]
    constructor
    · rintro ⟨⟨⟩, _, hactivate, hrest⟩
      obtain ⟨t, ht, rfl⟩ := yields_activate.1 hactivate
      rw [yields_read_bind, currentSlot_put hlt] at hrest
      cases hvalue : t.value with
      | none => simp [hvalue] at hrest
      | some value => exact ⟨t, ht, by simp [hvalue], by simpa [hvalue] using hrest⟩
    · rintro ⟨t, ht, hvalue, rfl⟩
      refine ⟨(), _, yields_activate.2 ⟨t, ht, rfl⟩, ?_⟩
      have hsome : ¬ t.value = none := Option.isSome_iff_ne_none.1 hvalue
      rw [yields_read_bind, currentSlot_put hlt, if_neg (by simpa using hsome), yields_pure]
      exact ⟨rfl, rfl⟩
  have harchive {t : Slot}
      (ht : (Slot.activate (m.tree.contextFor m.current) (some raw)).Yields m.currentSlot () t) :
      t.archive = [] := by
    rw [← ht.2]
    exact (Slot.loading_archive []).activate _ _ _ h.archive_eq
  constructor
  · rintro ⟨_, hleft, rfl, rfl⟩
    obtain ⟨t, ht, hsome, rfl⟩ := hyields.1 hleft
    obtain ⟨value, hvalue⟩ := Option.isSome_iff_exists.1 hsome
    obtain ⟨options, hhydrated, hbox⟩ := (h.activate_some_iff hsingle value).1 ⟨t, ht, hvalue⟩
    rw [currentSlot_put hlt]
    exact ⟨options, value, hhydrated, hbox, hvalue, harchive ht⟩
  · rintro ⟨options, value, hhydrated, hbox, rfl, rfl⟩
    obtain ⟨t, ht, hvalue⟩ := (h.activate_some_iff hsingle value).2 ⟨options, hhydrated, hbox⟩
    refine ⟨_, hyields.2 ⟨t, ht, by simp [hvalue], rfl⟩, ?_⟩
    rw [currentSlot_put hlt]
    exact ⟨hvalue, harchive ht⟩

theorem leaves_bindCurrent_several (hseveral : m.currentSlot.config.multivalue = true) :
    Leaves (bindCurrent vkey raw) m value? archive ↔
      ∃ options,
        m.currentSlot.config.hydrated? (m.tree.contextFor m.current) none = some options ∧
        m.currentSlot.config.Collects options [] (itemsOf raw) archive ∧
        value? = m.currentSlot.config.default? := by
  have hready (t : Slot) (ht : t = { m.currentSlot.asked "" (m.tree.contextFor m.current) with
      initialized := true }) : Leaves (bindItems vkey raw (itemsOf raw)) (m.put t) value? archive ↔
        value? = m.currentSlot.config.default? ∧
          m.currentSlot.config.Collects
            (m.currentSlot.asked "" (m.tree.contextFor m.current)).store.options []
            (itemsOf raw) archive := by
    have hslot := currentSlot_put hlt t
    rw [leaves_bindItems (by rw [hslot, ht]; exact hseveral) (by simpa using hlt)
      (by rw [hslot, ht]; exact h.value_eq), hslot, ht, ← h.archive_eq]
    rfl
  have hyields {mid : Machine} : (bindCurrent vkey raw).Yields m () mid ↔
      ∃ t, (Slot.activate (m.tree.contextFor m.current) none).Yields m.currentSlot () t ∧
        (bindItems vkey raw (itemsOf raw)).Yields (m.put t) () mid := by
    rw [bindCurrent, yields_read_bind, hseveral, if_pos rfl, yields_bind]
    constructor
    · rintro ⟨⟨⟩, _, hactivate, hrest⟩
      obtain ⟨t, ht, rfl⟩ := yields_activate.1 hactivate
      exact ⟨t, ht, hrest⟩
    · rintro ⟨t, ht, hrest⟩
      exact ⟨(), _, yields_activate.2 ⟨t, ht, rfl⟩, hrest⟩
  have hoptions {options : List Choice}
      (ho : m.currentSlot.config.offered? "" (m.tree.contextFor m.current) = some options) :=
    h.options_asked h.archive_eq ho
  constructor
  · rintro ⟨mid, hleft, hslot⟩
    obtain ⟨t, ht, hitems⟩ := hyields.1 hleft
    obtain ⟨hhydrated, ht⟩ := h.yields_activate_none.1 ht
    obtain ⟨options, ho⟩ := Option.isSome_iff_exists.1 hhydrated
    obtain ⟨hvalue, hcollects⟩ := (hready t ht).1 ⟨mid, hitems, hslot⟩
    rw [hoptions ho] at hcollects
    exact ⟨options, ho, hcollects, hvalue⟩
  · rintro ⟨options, ho, hcollects, hvalue⟩
    rw [← hoptions ho] at hcollects
    obtain ⟨mid, hitems, hslot⟩ := (hready _ rfl).2 ⟨hvalue, hcollects⟩
    have hhydrated :
        (m.currentSlot.config.hydrated? (m.tree.contextFor m.current) none).isSome := by
      simp [ho]
    exact ⟨mid, hyields.2 ⟨_, h.yields_activate_none.2 ⟨hhydrated, rfl⟩, hitems⟩, hslot⟩

/-- A pristine step binds what the token has for it exactly where the template lets it. -/
theorem leaves_settle (token : Token) :
    Leaves (settle token) m value? archive ↔
      m.currentSlot.config.Binds (m.tree.contextFor m.current)
        (m.currentSlot.node.stored? token) value? archive := by
  cases hentry : m.currentSlot.node.stored? token with
  | none =>
      have hsettle : Leaves (settle token) m value? archive ↔
          Leaves (activate none) m value? archive := by
        simp only [Leaves, yields_settle_none hentry]
      rw [hsettle, leaves_activate_none h hlt, Option.isSome_iff_exists]
      constructor
      · rintro ⟨⟨options, hhydrated⟩, rfl, rfl⟩
        exact .nothing hhydrated
      · rintro ⟨hhydrated⟩
        exact ⟨⟨_, hhydrated⟩, rfl, rfl⟩
  | some raw =>
      have hsettle : Leaves (settle token) m value? archive ↔
          Leaves (bindCurrent (m.currentSlot.node.vkey.getD "") raw) m value? archive := by
        simp only [Leaves, yields_settle_some hentry]
      rw [hsettle]
      cases hmultivalue : m.currentSlot.config.multivalue with
      | false =>
          rw [leaves_bindCurrent_single h hlt hmultivalue]
          constructor
          · rintro ⟨options, value, hhydrated, hbox, rfl, rfl⟩
            exact .single hmultivalue hhydrated hbox
          · rintro (_ | ⟨-, hhydrated, hbox⟩ | ⟨hseveral, -, -⟩)
            · exact ⟨_, _, hhydrated, hbox, rfl, rfl⟩
            · simp [hmultivalue] at hseveral
      | true =>
          rw [leaves_bindCurrent_several h hlt hmultivalue]
          constructor
          · rintro ⟨options, hhydrated, hcollects, rfl⟩
            exact .several hmultivalue hhydrated hcollects
          · rintro (_ | ⟨hsingle, -, -⟩ | ⟨-, hhydrated, hcollects⟩)
            · simp [hmultivalue] at hsingle
            · exact ⟨_, hhydrated, hcollects, rfl⟩

end Pristine

end TokenGrammar.Machine
