import Mathlib.Data.List.Find
import TokenGrammar.Boxer.Text
import TokenGrammar.Proofs.Json.Equality
import TokenGrammar.Proofs.Text.Trim

/-!
# Boxers that take their own output back

A boxer is stable if the raw form of what it boxed is boxed to the same choice among the same
options.  Text is trimmed and numbers are read, but only once: what comes out is left as it
is.  An option is found again by its own key, because equality of keys is transitive.
-/

namespace TokenGrammar.Boxer

/-- Boxing goes no further than one step, and fewer options box no more values. -/
structure Stable (boxer : Boxer) : Prop where
  again : ∀ {raw : Json} {options : List Choice} {choice : Choice},
    boxer.box raw options = .ok (some choice) →
      boxer.box (boxer.unbox choice) options = .ok (some choice)
  not_null : ∀ {raw : Json} {options : List Choice} {choice : Choice},
    boxer.box raw options = .ok (some choice) → raw.isNull = false
  not_array : ∀ {raw : Json} {options : List Choice} {choice : Choice},
    boxer.box raw options = .ok (some choice) → raw.isArray = false →
      (boxer.unbox choice).isArray = false
  fewer : ∀ {raw : Json} {options found : List Choice}, found ⊆ options →
    boxer.box raw options = .ok none → boxer.box raw found = .ok none

/-- The raw form of a boxed value is a value as well. -/
theorem Stable.unbox_not_null {boxer : Boxer} (h : boxer.Stable) {raw : Json}
    {options : List Choice} {choice : Choice} (hbox : boxer.box raw options = .ok (some choice)) :
    (boxer.unbox choice).isNull = false :=
  h.not_null (h.again hbox)

variable {raw : Json} {options found : List Choice} {choice : Choice} {allowUnknown : Bool}

/-! ## Values that are their own key -/

theorem stable_identity : identity.Stable := by
  refine ⟨?_, ?_, ?_, ?_⟩
  · intro raw options choice h
    obtain ⟨-, rfl⟩ := box_identity_eq_some_iff.1 h
    exact h
  · intro raw options choice h
    exact (box_identity_eq_some_iff.1 h).1
  · intro raw options choice h harray
    obtain ⟨-, rfl⟩ := box_identity_eq_some_iff.1 h
    exact harray
  · intro raw options found _ h
    exact h

/-! ## Options -/

theorem boxOption?_eq_some_key (h : boxOption? allowUnknown raw options = some choice) :
    raw.isNull = false ∧ (choice.key == raw) = true := by
  unfold boxOption? at h
  cases hnull : raw.isNull with
  | true => simp [hnull] at h
  | false =>
      refine ⟨rfl, ?_⟩
      cases hfind : options.find? fun o => o.key == raw with
      | some option =>
          obtain rfl : option = choice := by simpa [hnull, hfind] using h
          simpa using List.find?_some hfind
      | none =>
          obtain ⟨-, rfl⟩ : allowUnknown = true ∧ Choice.ofKey raw = choice := by
            simpa [hnull, hfind] using h
          exact BEq.rfl

/-- Without `allowUnknown` nothing but an option on offer is boxed. -/
theorem mem_of_boxOption?_eq_some (h : boxOption? false raw options = some choice) :
    choice ∈ options := by
  unfold boxOption? at h
  cases hnull : raw.isNull with
  | true => simp [hnull] at h
  | false =>
      cases hfind : options.find? fun o => o.key == raw with
      | some option =>
          obtain rfl : option = choice := by simpa [hnull, hfind] using h
          exact List.mem_of_find?_eq_some hfind
      | none => simp [hnull, hfind] at h

/-- Only the key counts, and equal keys find the same option. -/
theorem boxOption?_key (h : boxOption? allowUnknown raw options = some choice) :
    boxOption? allowUnknown choice.key options = some choice := by
  obtain ⟨hnull, hkey⟩ := boxOption?_eq_some_key h
  have hfind : (options.find? fun o => o.key == choice.key) =
      options.find? fun o => o.key == raw :=
    List.find?_congr fun _ _ => BEq.congr_right hkey
  unfold boxOption? at h ⊢
  rw [Json.isNull_congr hkey, hfind]
  cases hfound : options.find? fun o => o.key == raw with
  | some option => simpa [hfound] using h
  | none =>
      obtain ⟨rfl, rfl⟩ : allowUnknown = true ∧ Choice.ofKey raw = choice := by
        simpa [hnull, hfound] using h
      simp [hnull, Choice.ofKey]

theorem boxOption?_eq_none_of_subset (hsub : found ⊆ options)
    (h : boxOption? allowUnknown raw options = none) :
    boxOption? allowUnknown raw found = none := by
  unfold boxOption? at h ⊢
  cases hnull : raw.isNull with
  | true => rfl
  | false =>
      cases hfind : options.find? fun o => o.key == raw with
      | some option => simp [hnull, hfind] at h
      | none =>
          have hfound : (found.find? fun o => o.key == raw) = none :=
            List.find?_eq_none.2 fun o ho => List.find?_eq_none.1 hfind o (hsub ho)
          simpa [hnull, hfind, hfound] using h

theorem stable_option (allowUnknown : Bool) : (option allowUnknown).Stable := by
  refine ⟨?_, ?_, ?_, ?_⟩
  · intro raw options choice h
    exact congrArg Except.ok (boxOption?_key (Except.ok.inj h))
  · intro raw options choice h
    exact (boxOption?_eq_some_key (Except.ok.inj h)).1
  · intro raw options choice h harray
    exact (Json.isArray_congr (boxOption?_eq_some_key (Except.ok.inj h)).2).trans harray
  · intro raw options found hsub h
    exact congrArg Except.ok (boxOption?_eq_none_of_subset hsub (Except.ok.inj h))

/-! ## Text and numbers -/

/-- Boxed text is not empty and has no blank characters at its ends. -/
theorem boxText?_eq_some (h : boxText? raw options = some choice) :
    ∃ s, choice = .ofKey (.str s) ∧ s.isEmpty = false ∧ Text.trimString s = s := by
  have hkey {s : String} (hs : (if s.isEmpty then none else some (Choice.ofKey (.str s))) =
      some choice) : choice = .ofKey (.str s) ∧ s.isEmpty = false := by
    cases hempty : s.isEmpty with
    | true => simp [hempty] at hs
    | false => exact ⟨by simpa [hempty, eq_comm] using hs, rfl⟩
  cases raw with
  | str s =>
      obtain ⟨hchoice, hempty⟩ := hkey h
      refine ⟨_, hchoice, hempty, ?_⟩
      simp [Text.trimString, Text.trim_trim]
  | num n =>
      obtain ⟨hchoice, hempty⟩ := hkey h
      refine ⟨_, hchoice, hempty, ?_⟩
      simp [Text.trimString, Text.trim_of_forall_not_blank fun _ => Number.not_blank_of_mem_text]
  | bool b =>
      obtain ⟨hchoice, hempty⟩ := hkey h
      refine ⟨_, hchoice, hempty, ?_⟩
      cases b <;> rfl
  | null | arr items | obj fields => cases h

theorem stable_text : text.Stable := by
  have hbox {raw : Json} {options : List Choice} {choice : Choice}
      (h : text.box raw options = .ok (some choice)) :
      ∃ s, choice = .ofKey (.str s) ∧ s.isEmpty = false ∧ Text.trimString s = s :=
    boxText?_eq_some (Except.ok.inj h)
  refine ⟨?_, ?_, ?_, ?_⟩
  · intro raw options choice h
    obtain ⟨s, rfl, hempty, htrim⟩ := hbox h
    change Except.ok (boxText? (.str s) options) = _
    simp [boxText?, htrim, hempty]
  · intro raw options choice h
    cases raw <;> first | rfl | cases h
  · intro raw options choice h _
    obtain ⟨s, rfl, -⟩ := hbox h
    rfl
  · intro raw options found _ h
    exact h

theorem stable_numeric : numeric.Stable := by
  have hbox {raw : Json} {options : List Choice} {choice : Choice}
      (h : numeric.box raw options = .ok (some choice)) :
      ∃ n, number? raw = some n ∧ choice = .ofKey (.num n) := by
    obtain ⟨n, hn, hchoice⟩ := Option.map_eq_some_iff.1 (Except.ok.inj h)
    exact ⟨n, hn, hchoice.symm⟩
  refine ⟨?_, ?_, ?_, ?_⟩
  · intro raw options choice h
    obtain ⟨n, -, rfl⟩ := hbox h
    rfl
  · intro raw options choice h
    obtain ⟨n, hn, -⟩ := hbox h
    cases raw <;> first | rfl | cases hn
  · intro raw options choice h _
    obtain ⟨n, -, rfl⟩ := hbox h
    rfl
  · intro raw options found _ h
    exact h

/-! ## The boxers that read nothing but the value and the options -/

/-- The boxers that need no configuration, and the two for options. -/
inductive Elementary : Boxer → Prop where
  | identity : Elementary Boxer.identity
  | option (allowUnknown : Bool) : Elementary (Boxer.option allowUnknown)
  | text : Elementary Boxer.text
  | numeric : Elementary Boxer.numeric

theorem Elementary.stable {boxer : Boxer} (h : boxer.Elementary) : boxer.Stable := by
  cases h with
  | identity => exact stable_identity
  | option allowUnknown => exact stable_option allowUnknown
  | text => exact stable_text
  | numeric => exact stable_numeric

/-- What an elementary boxer made of a value, it makes again of its raw form: the same choice with
its metadata and display text, also where keys repeat.  Only options on offer are picked. -/
theorem box_unbox (options : List Choice) (raw : Json) (choice : Choice) :
    (∀ boxer : Boxer, boxer.Elementary → boxer.box raw options = .ok (some choice) →
        boxer.box (boxer.unbox choice) options = .ok (some choice)) ∧
      ((option false).box raw options = .ok (some choice) → choice ∈ options) := by
  refine ⟨?_, ?_⟩
  · intro boxer helementary hbox
    exact helementary.stable.again hbox
  · intro hbox
    exact mem_of_boxOption?_eq_some (Except.ok.inj hbox)

/-- Of two options whose keys differ in the order of their fields, the first is picked, and its own
key picks it again. -/
theorem box_unbox_repeated :
    let one : Json := .ofInt 1
    let first : Choice := ⟨.obj [("a", one), ("b", .arr [.null])], one, some "first", false, false⟩
    let second : Choice := ⟨.obj [("b", .arr [.null]), ("a", one)], .null, none, true, false⟩
    (option false).box second.key [first, second] = .ok (some first) ∧
      (option false).box first.key [first, second] = .ok (some first) ∧
      first ∈ [first, second] := by
  intro one first second
  have hequal : (first.key == second.key) = true := by decide +kernel
  have hfind : ([first, second].find? fun o => o.key == second.key) = some first :=
    List.find?_cons_of_pos hequal
  have hbox : (option false).box second.key [first, second] = .ok (some first) := by
    change Except.ok (boxOption? false second.key [first, second]) = _
    rw [boxOption?, hfind]
    rfl
  have hagain := box_unbox [first, second] second.key first
  exact ⟨hbox, hagain.1 _ (.option false) hbox, hagain.2 hbox⟩

end TokenGrammar.Boxer
