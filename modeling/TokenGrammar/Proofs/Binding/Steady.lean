import TokenGrammar.Proofs.Binding.Written
import TokenGrammar.Proofs.Boxer.Stable

/-!
# Steps that take back what they took

A steady step offers the same options whenever it is asked and boxes them in a stable way.  It
takes the entry that it writes as it took the entry of the token that it was restored from,
and misses it where it missed that one.
-/

namespace TokenGrammar

theorem Machine.isAbsent_false (raw : Json) : Machine.isAbsent raw false = raw.isNull := by
  cases raw <;> rfl

theorem Node.isAbsent_of_stored? {node : Node} {token : Token} {raw : Json}
    (h : node.stored? token = some raw) :
    Machine.isAbsent raw node.step.config.multivalue = false := by
  obtain ⟨vkey, -, hentry⟩ := Option.bind_eq_some_iff.1 h
  simpa using (Option.filter_eq_some_iff.1 hentry).2

namespace StepConfig

/-- A step that starts with no value and offers nothing, or all of a fixed list. -/
structure Steady (config : StepConfig) : Prop where
  elementary : config.boxer.Elementary
  default_eq : config.default? = none
  source_eq : config.source = .absent ∨
    (∃ options, config.source = .fixed options) ∧ config.suggestionLimit = none

variable {config : StepConfig} {context : Context} {options archive result : List Choice}
  {value? : Option Choice} {raw : Json}

/-- A search finds some of the options that are on offer anyway. -/
theorem Steady.exists_offered (h : config.Steady) :
    ∃ options, (∀ context, config.offered? "" context = some options) ∧
      ∀ hint context found, config.offered? hint context = some found → found ⊆ options := by
  rcases h.source_eq with habsent | ⟨⟨options, hfixed⟩, hlimit⟩
  · refine ⟨[], offered?_of_absent habsent "", fun hint context found hfound => ?_⟩
    rw [offered?_of_absent habsent, Option.some.injEq] at hfound
    rw [← hfound]
    exact List.Subset.refl _
  · have hoffered (hint : String) (context : Context) :
        config.offered? hint context = some (Source.matching options hint) := by
      rw [offered?, hfixed, hlimit]
      rfl
    refine ⟨options, hoffered "", fun hint context found hfound => ?_⟩
    rw [hoffered, Option.some.injEq] at hfound
    rw [← hfound, Source.matching]
    split
    · exact List.Subset.refl _
    · exact List.filter_sublist.subset

/-- A value that is boxed at all is boxed among all options, so that no search is made. -/
theorem Steady.box_all (h : config.Steady) (hoffered : config.offered? "" context = some options)
    {left : List Choice} {value : Choice}
    (hhydrated : config.hydrated? context (some raw) = some left)
    (hbox : config.boxer.box raw left = .ok (some value)) :
    config.boxer.box raw options = .ok (some value) := by
  obtain ⟨all, hall, hfound⟩ := h.exists_offered
  obtain rfl : all = options := Option.some.inj ((hall context).symm.trans hoffered)
  rw [hydrated?_some hoffered] at hhydrated
  cases hfirst : config.boxer.box raw all with
  | error fault => simp [hfirst] at hhydrated
  | ok boxed =>
      cases boxed with
      | some found =>
          obtain rfl : all = left := by simpa [hfirst] using hhydrated
          exact hfirst.symm.trans hbox
      | none =>
          -- Among fewer options there is no boxed form either.
          have hsub : left ⊆ all := by
            simp only [hfirst] at hhydrated
            split at hhydrated
            · rw [Option.some.inj hhydrated]
              exact List.Subset.refl _
            · exact hfound _ _ _ hhydrated
          rw [h.elementary.stable.fewer hsub hfirst] at hbox
          cases hbox

/-- The raw forms of values that were collected are collected in the same way. -/
theorem Steady.collects_again (h : config.Steady) {items : List Json}
    (hcollects : config.Collects options archive items result) :
    ∃ added, result = archive ++ added ∧ added.length = items.length ∧
      config.Collects options archive (added.map config.boxer.unbox) result := by
  have hstable := h.elementary.stable
  induction hcollects with
  | done => exact ⟨[], (List.append_nil _).symm, rfl, .done⟩
  | @next archive result item items value single boxed valid room rest ih =>
      obtain ⟨added, hresult, hlength, hagain⟩ := ih
      refine ⟨value :: added, by simp [hresult], by simp [hlength], ?_⟩
      exact .next (hstable.not_array boxed single) (hstable.again boxed) valid room hagain

theorem Steady.binds_nothing (h : config.Steady)
    (hbinds : config.Binds context none value? archive) : value? = none ∧ archive = [] := by
  cases hbinds with
  | nothing => exact ⟨h.default_eq, rfl⟩

theorem Steady.binds_single_again (h : config.Steady) (hsingle : config.multivalue = false)
    (hbinds : config.Binds context (some raw) value? archive) :
    ∃ value, value? = some value ∧ (config.boxer.unbox value).isNull = false ∧
      config.Binds context (some (config.boxer.unbox value)) value? archive := by
  have hstable := h.elementary.stable
  obtain ⟨options, hoptions, -⟩ := h.exists_offered
  cases hbinds with
  | several hseveral => simp [hsingle] at hseveral
  | single _ hhydrated boxed =>
      have hbox := h.box_all (hoptions context) hhydrated boxed
      have hagain := hstable.again hbox
      refine ⟨_, rfl, hstable.unbox_not_null hbox, .single hsingle ?_ hagain⟩
      rw [hydrated?_some (hoptions context), hagain]

theorem Steady.binds_several_again (h : config.Steady) (hseveral : config.multivalue = true)
    (hraw : Machine.isAbsent raw true = false)
    (hbinds : config.Binds context (some raw) value? archive) :
    value? = none ∧ archive ≠ [] ∧
      config.Binds context (some (.arr (archive.map config.boxer.unbox))) value? archive := by
  cases hbinds with
  | single hsingle => simp [hseveral] at hsingle
  | several _ hhydrated collects =>
      obtain ⟨added, hadded, hlength, hagain⟩ := h.collects_again collects
      obtain rfl : archive = added := hadded
      refine ⟨h.default_eq, ?_, .several hseveral hhydrated hagain⟩
      rintro rfl
      have hitems : Machine.itemsOf raw = [] := List.eq_nil_of_length_eq_zero hlength.symm
      cases raw with
      | arr items =>
          obtain rfl : items = [] := hitems
          cases hraw
      | _ => cases hitems

end StepConfig

namespace Slot

variable {s : Slot} {token written : Token} {context : Context}

theorem entryOf_of_single (hsingle : s.config.multivalue = false) :
    Machine.entryOf unbox s = s.unboxOrNull s.value := by
  rw [Machine.entryOf, hsingle, if_neg Bool.false_ne_true]
  rfl

theorem entryOf_of_several (hseveral : s.config.multivalue = true) (hvalue : s.value = none) :
    Machine.entryOf unbox s = .arr (s.archive.map s.unbox) := by
  rw [Machine.entryOf, hseveral, if_pos rfl, hvalue, Option.toList_none, List.append_nil]

/-- A step that took nothing writes what counts as missing. -/
theorem isAbsent_entryOf_of_nothing (h : s.config.Steady)
    (hbinds : s.config.Binds context none s.value s.archive) :
    Machine.isAbsent (Machine.entryOf unbox s) s.config.multivalue = true := by
  obtain ⟨hvalue, harchive⟩ := h.binds_nothing hbinds
  cases hmultivalue : s.config.multivalue with
  | false =>
      rw [entryOf_of_single hmultivalue, hvalue]
      rfl
  | true =>
      rw [entryOf_of_several hmultivalue hvalue, harchive]
      rfl

/-- A step that took an entry writes one that it takes as well, to the same effect. -/
theorem binds_entryOf (h : s.config.Steady) {raw : Json}
    (hraw : Machine.isAbsent raw s.config.multivalue = false)
    (hbinds : s.config.Binds context (some raw) s.value s.archive) :
    Machine.isAbsent (Machine.entryOf unbox s) s.config.multivalue = false ∧
      s.config.Binds context (some (Machine.entryOf unbox s)) s.value s.archive := by
  cases hmultivalue : s.config.multivalue with
  | false =>
      obtain ⟨value, hvalue, hnull, hagain⟩ := h.binds_single_again hmultivalue hbinds
      have hentry : Machine.entryOf unbox s = s.unbox value := by
        rw [entryOf_of_single hmultivalue, hvalue]
        rfl
      rw [hentry]
      refine ⟨?_, hagain⟩
      rwa [Machine.isAbsent_false]
  | true =>
      rw [hmultivalue] at hraw
      obtain ⟨hvalue, harchive, hagain⟩ := h.binds_several_again hmultivalue hraw hbinds
      rw [entryOf_of_several hmultivalue hvalue]
      exact ⟨by simpa [Machine.isAbsent] using harchive, hagain⟩

/-- The step finds something in its own token exactly if it found something before. -/
theorem Written.stored?_again (hwritten : s.Written written) (h : s.config.Steady)
    (hbinds : s.config.Binds context (s.node.stored? token) s.value s.archive) :
    s.node.stored? written = (s.node.stored? token).map fun _ => Machine.entryOf unbox s := by
  cases hkey : s.node.vkey with
  | none => rw [Node.stored?_keyless hkey, Node.stored?_keyless hkey, Option.map_none]
  | some vkey =>
      rw [hwritten.stored?_eq hkey]
      cases hstored : s.node.stored? token with
      | none =>
          rw [hstored] at hbinds
          simp [isAbsent_entryOf_of_nothing h hbinds]
      | some raw =>
          rw [hstored] at hbinds
          simp [(binds_entryOf h (Node.isAbsent_of_stored? hstored) hbinds).1]

/-- What the step took from a token it takes from its own one. -/
theorem Written.binds_again (hwritten : s.Written written) (h : s.config.Steady)
    (hbinds : s.config.Binds context (s.node.stored? token) s.value s.archive) :
    s.config.Binds context (s.node.stored? written) s.value s.archive := by
  rw [hwritten.stored?_again h hbinds]
  cases hstored : s.node.stored? token with
  | none => rwa [hstored] at hbinds
  | some raw =>
      rw [hstored] at hbinds
      exact (binds_entryOf h (Node.isAbsent_of_stored? hstored) hbinds).2

end Slot

end TokenGrammar
