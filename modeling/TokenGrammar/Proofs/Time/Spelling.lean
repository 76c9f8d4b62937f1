import Mathlib.Data.List.Basic
import TokenGrammar.Time.Pattern

/-!
# The grammar of patterns

A text spells a pattern if it is made of directives with a meaning and plain characters.  The
texts that are read as patterns are exactly these, so that a text without a pattern has a
percent sign that no directive follows.
-/

namespace TokenGrammar.Time.Pattern

variable {cs rest : List Char} {items : Pattern}

/-- The text behind a percent sign and the pieces that it stands for. -/
inductive Directive : List Char → Pattern → Prop where
  | long {written : List Char} {item : PatternItem} (h : (written, item) ∈ longDirectives) :
      Directive written [item]
  | letter {c : Char} {items : Pattern} (h : ofLetter? c = some items) : Directive [c] items
  | padded {sign c : Char} {padding : Padding} {items : Pattern}
      (hsign : paddingOf? sign = some padding) (h : ofPaddedLetter? padding c = some items) :
      Directive [sign, c] items

/-- The text is made of plain characters and directives, and stands for the pieces. -/
inductive Spells : List Char → Pattern → Prop where
  | nil : Spells [] []
  | plain {c : Char} {cs : List Char} {items : Pattern} (hc : c ≠ '%') (h : Spells cs items) :
      Spells (c :: cs) (.plain c :: items)
  | directive {written cs : List Char} {items more : Pattern} (hd : Directive written items)
      (h : Spells cs more) : Spells ('%' :: (written ++ cs)) (items ++ more)

/-! ## Directives -/

/-- No long directive begins with a letter or a sign of another one. -/
theorem ofLetter?_head_longDirectives : ∀ d ∈ longDirectives, ∀ c ∈ d.1.head?,
    ofLetter? c = none ∧ paddingOf? c = none := by
  have hall : (longDirectives.all fun d => d.1.head?.all fun c =>
      (ofLetter? c).isNone && (paddingOf? c).isNone) = true := by decide
  intro d hd c hc
  have hhead := List.all_eq_true.1 hall d hd
  simpa [Option.mem_def.1 hc] using hhead

/-- A long directive is found where it stands, for none of them is the beginning of another. -/
theorem find?_longDirectives {written : List Char} {item : PatternItem}
    (h : (written, item) ∈ longDirectives) (rest : List Char) :
    (longDirectives.find? fun d => d.1.isPrefixOf (written ++ rest)) = some (written, item) := by
  simp only [longDirectives, List.mem_cons, List.not_mem_nil, or_false, Prod.mk.injEq] at h
  obtain ⟨rfl, rfl⟩ | ⟨rfl, rfl⟩ | ⟨rfl, rfl⟩ | ⟨rfl, rfl⟩ | ⟨rfl, rfl⟩ | ⟨rfl, rfl⟩ | ⟨rfl, rfl⟩ |
    ⟨rfl, rfl⟩ | ⟨rfl, rfl⟩ | ⟨rfl, rfl⟩ | ⟨rfl, rfl⟩ := h <;> rfl

theorem find?_longDirectives_eq_none {c : Char}
    (h : (ofLetter? c).isSome = true ∨ (paddingOf? c).isSome = true) (rest : List Char) :
    (longDirectives.find? fun d => d.1.isPrefixOf (c :: rest)) = none := by
  rw [List.find?_eq_none]
  intro d hd hbegins
  have hne : d.1 ≠ [] := (by decide : ∀ d ∈ longDirectives, d.1 ≠ []) d hd
  obtain ⟨a, written, ha⟩ := List.exists_cons_of_ne_nil hne
  rw [ha, List.isPrefixOf_cons_cons, Bool.and_eq_true, beq_iff_eq] at hbegins
  obtain ⟨hletter, hsign⟩ := ofLetter?_head_longDirectives d hd a (by simp [ha])
  rw [hbegins.1] at hletter hsign
  simp [hletter, hsign] at h

theorem paddingOf?_eq_none_of_letter {c : Char} (h : ofLetter? c = some items) :
    paddingOf? c = none := by
  have hsigns : (['-', '0', '_'].all fun sign => (ofLetter? sign).isNone) = true := by decide
  have hc : c ∉ ['-', '0', '_'] := fun hmem => by
    have hnone := List.all_eq_true.1 hsigns c hmem
    simp [h] at hnone
  unfold paddingOf?
  split <;> simp_all

theorem ofDirective?_append {written : List Char} (h : Directive written items) :
    ofDirective? (written ++ rest) = some (items, rest) := by
  cases h with
  | @long _ item h => simp [ofDirective?, find?_longDirectives h]
  | @letter c _ h =>
    have hfind := find?_longDirectives_eq_none (c := c) (.inl (by simp [h])) rest
    simp [ofDirective?, hfind, paddingOf?_eq_none_of_letter h, h]
  | @padded sign c _ _ hsign h =>
    have hfind := find?_longDirectives_eq_none (c := sign) (.inr (by simp [hsign])) (c :: rest)
    simp [ofDirective?, hfind, hsign, h]

theorem exists_directive_of_ofDirective? (h : ofDirective? cs = some (items, rest)) :
    ∃ written, cs = written ++ rest ∧ Directive written items := by
  unfold ofDirective? at h
  split at h
  next written item hfind =>
    obtain ⟨rfl, rfl⟩ : [item] = items ∧ cs.drop written.length = rest := by simpa using h
    have hbegins : written <+: cs := by simpa using List.find?_some hfind
    exact ⟨written, (List.prefix_iff_eq_append.1 hbegins).symm,
      .long (List.mem_of_find?_eq_some hfind)⟩
  next hfind =>
    cases cs with
    | nil => simp at h
    | cons c behind =>
      cases hsign : paddingOf? c with
      | none =>
        obtain ⟨hletter, rfl⟩ : ofLetter? c = some items ∧ behind = rest := by
          simpa [hsign] using h
        exact ⟨[c], rfl, .letter hletter⟩
      | some padding =>
        cases behind with
        | nil => simp [hsign] at h
        | cons letter behind =>
          obtain ⟨hletter, rfl⟩ : ofPaddedLetter? padding letter = some items ∧ behind = rest := by
            simpa [hsign] using h
          exact ⟨[c, letter], rfl, .padded hsign hletter⟩

/-! ## Texts -/

theorem ofCharsWithin?_plain {c : Char} (hc : c ≠ '%') (rounds : Nat) :
    ofCharsWithin? (rounds + 1) (c :: cs) = (ofCharsWithin? rounds cs).map (.plain c :: ·) := by
  rw [ofCharsWithin?]
  simpa using hc

theorem spells_of_ofCharsWithin? {rounds : Nat} (h : ofCharsWithin? rounds cs = some items) :
    Spells cs items := by
  induction rounds generalizing cs items with
  | zero =>
    -- Without rounds only the empty text is read.
    cases cs with
    | nil => cases h; exact .nil
    | cons c cs => simp [ofCharsWithin?] at h
  | succ rounds ih =>
    cases cs with
    | nil => cases h; exact .nil
    | cons c cs =>
      by_cases hc : c = '%'
      · subst hc
        obtain ⟨⟨first, behind⟩, hfirst, more, hmore, hitems⟩ :
            ∃ found, ofDirective? cs = some found ∧
              ∃ more, ofCharsWithin? rounds found.2 = some more ∧ found.1 ++ more = items := by
          simpa [ofCharsWithin?, Option.bind_eq_some_iff] using h
        obtain ⟨written, rfl, hd⟩ := exists_directive_of_ofDirective? hfirst
        subst hitems
        exact .directive hd (ih hmore)
      · rw [ofCharsWithin?_plain hc, Option.map_eq_some_iff] at h
        obtain ⟨more, hmore, rfl⟩ := h
        exact .plain hc (ih hmore)

/-- A text that spells a pattern is read within as many rounds as it has characters. -/
theorem ofCharsWithin?_of_spells {rounds : Nat} (h : Spells cs items)
    (hrounds : cs.length ≤ rounds) : ofCharsWithin? rounds cs = some items := by
  induction h generalizing rounds with
  | nil => simp [ofCharsWithin?]
  | @plain c cs items hc _ ih =>
    obtain ⟨rounds, rfl⟩ := Nat.exists_eq_add_one_of_ne_zero (n := rounds) (by grind)
    rw [ofCharsWithin?_plain hc, ih (by grind)]
    rfl
  | @directive written cs items more hd _ ih =>
    obtain ⟨rounds, rfl⟩ := Nat.exists_eq_add_one_of_ne_zero (n := rounds) (by grind)
    simp [ofCharsWithin?, ofDirective?_append hd, @ih rounds (by grind)]

theorem ofChars?_eq_some_iff : ofChars? cs = some items ↔ Spells cs items := by
  constructor
  · exact spells_of_ofCharsWithin?
  · exact fun h => ofCharsWithin?_of_spells h (Nat.le_refl _)

theorem ofChars?_eq_none_iff : ofChars? cs = none ↔ ∀ items, ¬ Spells cs items := by
  simp [Option.eq_none_iff_forall_not_mem, ofChars?_eq_some_iff]

theorem Spells.unique {items' : Pattern} (h : Spells cs items) (h' : Spells cs items') :
    items = items' :=
  Option.some.inj ((ofChars?_eq_some_iff.2 h).symm.trans (ofChars?_eq_some_iff.2 h'))

/-- A text has no pattern that can be shown if it has none at all, or if a piece of it is an
offset in any of several forms. -/
theorem filter_isShowable_eq_none_iff :
    (ofChars? cs).filter isShowable = none ↔
      (∀ items, ¬ Spells cs items) ∨ ∃ items, Spells cs items ∧ .anyOffset ∈ items := by
  rw [← ofChars?_eq_none_iff]
  simp only [← ofChars?_eq_some_iff]
  cases ofChars? cs <;> simp [isShowable]

end TokenGrammar.Time.Pattern
