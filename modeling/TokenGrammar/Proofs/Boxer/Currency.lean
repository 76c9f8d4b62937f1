import Mathlib.Data.List.Basic
import TokenGrammar.Boxer.Currency
import TokenGrammar.Proofs.Numeric.Padded
import TokenGrammar.Proofs.Text.Trim

/-!
# Texts of amounts

Main result: the text of an amount, with symbol, code and commas taken off, is the sign and the
digits that it was made of, and its commas stand between groups of three digits counted from the
end.
-/

namespace TokenGrammar.Currency

open Decimal

/-! ## Groups of three -/

def digits (cs : List Char) : List Char := cs.filter (· != ',')

/-- The text has the digits of the whole part and commas, one in front of each digit but the
first from which a multiple of three digits is left. -/
structure Grouped (whole grouped : List Char) : Prop where
  digits_eq : digits grouped = whole
  not_leading : grouped.head? ≠ some ','
  digit_behind : ∀ front back, grouped = front ++ ',' :: back → ∃ d ∈ back.head?, d ≠ ','
  comma_iff : ∀ front d back, grouped = front ++ d :: back → d ≠ ',' →
    (front.getLast? = some ',' ↔ front ≠ [] ∧ 3 ∣ (digits (d :: back)).length)

/-- The comma in front of so many digits. -/
def comma (ds : List Char) : List Char := if ds ≠ [] ∧ 3 ∣ ds.length then [','] else []

theorem groupThousands_cons (d : Char) (rest : List Char) :
    groupThousands (d :: rest) = d :: (comma rest ++ groupThousands rest) := by
  rw [groupThousands, comma]
  have hiff : (!rest.isEmpty && rest.length % 3 == 0) = true ↔ rest ≠ [] ∧ 3 ∣ rest.length := by
    simp [Nat.dvd_iff_mod_eq_zero]
  simp only [hiff]
  split <;> rfl

theorem digits_comma (ds : List Char) : digits (comma ds) = [] := by
  unfold comma
  split <;> rfl

theorem digits_append (as bs : List Char) : digits (as ++ bs) = digits as ++ digits bs :=
  List.filter_append ..

theorem digits_cons {d : Char} (h : d ≠ ',') (cs : List Char) : digits (d :: cs) = d :: digits cs :=
  List.filter_cons_of_pos (by simpa using h)

theorem digits_groupThousands {ds : List Char} (h : ',' ∉ ds) :
    digits (groupThousands ds) = ds := by
  induction ds with
  | nil => rfl
  | cons d rest ih =>
    rw [List.mem_cons, not_or] at h
    rw [groupThousands_cons, digits_cons (Ne.symm h.1), digits_append, digits_comma, ih h.2,
      List.nil_append]

theorem eq_comma_or_mem_of_mem_groupThousands {ds : List Char} (h : ',' ∉ ds) {c : Char}
    (hc : c ∈ groupThousands ds) : c = ',' ∨ c ∈ ds := by
  by_cases hcomma : c = ','
  · exact .inl hcomma
  · have hmem : c ∈ digits (groupThousands ds) := by simp [digits, hc, hcomma]
    rw [digits_groupThousands h] at hmem
    exact .inr hmem

theorem getLast?_append_cons_iff {x : Char} (h : x ≠ ',') (front behind : List Char) :
    (front ++ x :: behind).getLast? = some ',' ↔ behind.getLast? = some ',' := by
  rw [List.getLast?_append, List.getLast?_cons]
  cases behind.getLast? <;> simp [h]

theorem getLast?_comma_iff {ds : List Char} (h : ds ≠ []) :
    (comma ds).getLast? = some ',' ↔ 3 ∣ ds.length := by
  unfold comma
  split <;> simp_all

/-- A character of a text behind a comma is the comma itself or stands behind it. -/
theorem comma_append_cases {ds cs front back : List Char} {c : Char}
    (h : comma ds ++ cs = front ++ c :: back) :
    front = [] ∧ c = ',' ∧ back = cs ∨
      ∃ behind, front = comma ds ++ behind ∧ cs = behind ++ c :: back := by
  by_cases hcomma : ds ≠ [] ∧ 3 ∣ ds.length
  · rw [comma, if_pos hcomma] at h ⊢
    cases front with
    | nil =>
      obtain ⟨hc, hback⟩ := List.cons.inj h
      exact .inl ⟨rfl, hc.symm, hback.symm⟩
    | cons a behind =>
      obtain ⟨rfl, hbehind⟩ := List.cons.inj h
      exact .inr ⟨behind, rfl, hbehind⟩
  · rw [comma, if_neg hcomma] at h ⊢
    exact .inr ⟨front, rfl, h⟩

/-- Behind a digit of the whole part, a comma stands in front of exactly the digits from which a
multiple of three is left. -/
theorem getLast?_front_iff {ds : List Char} (h : ',' ∉ ds) {front back : List Char} {d : Char}
    (hsplit : comma ds ++ groupThousands ds = front ++ d :: back) (hd : d ≠ ',') :
    front.getLast? = some ',' ↔ 3 ∣ (digits (d :: back)).length := by
  induction ds generalizing front with
  | nil => simp [comma, groupThousands] at hsplit
  | cons x rest ih =>
    have hwhole := digits_groupThousands h
    rw [List.mem_cons, not_or] at h
    rw [groupThousands_cons] at hsplit hwhole
    -- The digit `d` is no comma, so it is `x` with its comma in front or stands behind `x`.
    rcases comma_append_cases hsplit with ⟨-, hcomma, -⟩ | ⟨behind, rfl, hbehind⟩
    · exact absurd hcomma hd
    · cases behind with
      | nil =>
        obtain ⟨rfl, rfl⟩ := List.cons.inj hbehind
        rw [List.append_nil, hwhole, getLast?_comma_iff (by simp)]
      | cons y behind =>
        obtain ⟨rfl, hrest⟩ := List.cons.inj hbehind
        rw [getLast?_append_cons_iff (Ne.symm h.1)]
        exact ih h.2 hrest

theorem exists_digit_behind {ds : List Char} (h : ',' ∉ ds) {front back : List Char}
    (hsplit : comma ds ++ groupThousands ds = front ++ ',' :: back) :
    ∃ d ∈ back.head?, d ≠ ',' := by
  induction ds generalizing front with
  | nil => simp [comma, groupThousands] at hsplit
  | cons x rest ih =>
    rw [List.mem_cons, not_or] at h
    rw [groupThousands_cons] at hsplit
    rcases comma_append_cases hsplit with ⟨-, -, rfl⟩ | ⟨behind, rfl, hbehind⟩
    · exact ⟨x, rfl, Ne.symm h.1⟩
    · cases behind with
      | nil => exact absurd (List.cons.inj hbehind).1.symm h.1
      | cons y behind => exact ih h.2 (List.cons.inj hbehind).2

theorem grouped_groupThousands {whole : List Char} (h : ',' ∉ whole) :
    Grouped whole (groupThousands whole) := by
  cases whole with
  | nil => exact ⟨rfl, by simp [groupThousands], by simp [groupThousands], by simp [groupThousands]⟩
  | cons x rest =>
    have hne := h
    rw [List.mem_cons, not_or] at hne
    refine ⟨digits_groupThousands h, ?_, ?_, ?_⟩
    · simpa [groupThousands_cons] using Ne.symm hne.1
    · intro front back hsplit
      rw [groupThousands_cons] at hsplit
      cases front with
      | nil => exact absurd (List.cons.inj hsplit).1.symm hne.1
      | cons y front => exact exists_digit_behind hne.2 (List.cons.inj hsplit).2
    · intro front d back hsplit hd
      rw [groupThousands_cons] at hsplit
      cases front with
      | nil => simp
      | cons y front =>
        obtain ⟨rfl, hrest⟩ := List.cons.inj hsplit
        rw [← getLast?_front_iff hne.2 hrest hd]
        simpa using getLast?_append_cons_iff (Ne.symm hne.1) [] front

/-! ## Taking pieces out of a text -/

/-- None of the characters of the text is one of the piece. -/
def Free (piece cs : List Char) : Prop := ∀ c ∈ cs, c ∉ piece

theorem go_cons {piece : List Char} {c : Char} (h : c ∉ piece) (rounds : Nat) (rest : List Char) :
    removeAll.go piece (rounds + 1) (c :: rest) = c :: removeAll.go piece rounds rest := by
  have hkeep : ¬ (!piece.isEmpty && piece.isPrefixOf (c :: rest)) = true := by
    cases piece with
    | nil => simp
    | cons p piece => grind [List.isPrefixOf]
  rw [removeAll.go, if_neg hkeep]

theorem go_of_free {piece cs : List Char} (h : Free piece cs) (rounds : Nat) :
    removeAll.go piece rounds cs = cs := by
  induction rounds generalizing cs with
  | zero => rfl
  | succ rounds ih =>
    cases cs with
    | nil => rfl
    | cons c rest =>
      obtain ⟨hc, hrest⟩ := List.forall_mem_cons.1 h
      rw [go_cons hc, ih hrest]

/-- What stands in front of the piece is kept, one character a round, and the piece goes in one
round more. -/
theorem go_append_piece {piece front back : List Char} (hfront : Free piece front)
    (hback : Free piece back) {rounds : Nat} (hrounds : front.length + piece.length ≤ rounds) :
    removeAll.go piece rounds (front ++ (piece ++ back)) = front ++ back := by
  induction front generalizing rounds with
  | nil =>
    cases piece with
    | nil => exact go_of_free hback rounds
    | cons p piece =>
      obtain ⟨rounds, rfl⟩ := Nat.exists_eq_add_one_of_ne_zero (n := rounds) (by grind)
      have hfound : (!(p :: piece).isEmpty && (p :: piece).isPrefixOf (p :: (piece ++ back))) =
          true := by simp
      have hdrop : (p :: (piece ++ back)).drop (p :: piece).length = back := by simp
      rw [List.nil_append, List.cons_append, removeAll.go, if_pos hfound, hdrop,
        go_of_free hback, List.nil_append]
  | cons c front ih =>
    obtain ⟨hc, hrest⟩ := List.forall_mem_cons.1 hfront
    obtain ⟨rounds, rfl⟩ := Nat.exists_eq_add_one_of_ne_zero (n := rounds) (by grind)
    rw [List.cons_append, go_cons hc, ih hrest (by grind), List.cons_append]

theorem removeAll_of_free {piece cs : List Char} (h : Free piece cs) : removeAll piece cs = cs :=
  go_of_free h _

theorem removeAll_append_piece {piece front back : List Char} (hfront : Free piece front)
    (hback : Free piece back) : removeAll piece (front ++ (piece ++ back)) = front ++ back :=
  go_append_piece hfront hback (by simp)

/-! ## Texts of amounts -/

/-- The characters that amounts are written with, besides the symbol. -/
def isAmountChar (c : Char) : Bool := isDigit c || c == ',' || c == '.' || c == '-'

/-- The piece has no blank character and none that amounts are written with. -/
def Apart (piece : String) : Prop :=
  ∀ c ∈ piece.toList, isAmountChar c = false ∧ Text.isBlank c = false

instance (piece : String) : Decidable (Apart piece) :=
  decidable_of_iff ((piece.toList.all fun c => !isAmountChar c && !Text.isBlank c) = true)
    (by simp [Apart])

/-- The sign of an amount, which is left out where it rounds to zero. -/
def sign (c : Currency) (amount : Binary64) : List Char :=
  if amount.isNegativeNonzero && (c.round amount).isNonzero then ['-'] else []

theorem free_of_apart {piece : String} {cs : List Char} (h : Apart piece)
    (hcs : ∀ c ∈ cs, isAmountChar c = true) : Free piece.toList cs := by
  intro c hc hmem
  have hapart := (h c hmem).1
  rw [hcs c hc] at hapart
  cases hapart

theorem not_blank_of_isAmountChar {c : Char} (h : isAmountChar c = true) :
    Text.isBlank c = false := by
  simp only [isAmountChar, Bool.or_eq_true, beq_iff_eq] at h
  obtain ((hdigit | rfl) | rfl) | rfl := h
  · exact not_blank_of_isDigit hdigit
  · decide
  · decide
  · decide

theorem isAmountChar_of_mem_groupThousands {ds : List Char} (h : ∀ c ∈ ds, isDigit c = true)
    {c : Char} (hc : c ∈ groupThousands ds) : isAmountChar c = true := by
  have hnot : ',' ∉ ds := fun hmem => absurd (h _ hmem) (by decide)
  rcases eq_comma_or_mem_of_mem_groupThousands hnot hc with rfl | hmem
  · rfl
  · simp [isAmountChar, h c hmem]

theorem isAmountChar_of_mem_pointed {ds : List Char} (h : ∀ c ∈ ds, isDigit c = true)
    {c : Char} (hc : c ∈ pointed ds) : isAmountChar c = true := by
  unfold pointed at hc
  split at hc
  next => cases hc
  next =>
    obtain rfl | hmem := List.mem_cons.1 hc
    · rfl
    · simp [isAmountChar, h c hmem]

theorem formatChars_finite (c : Currency) (x : Finite64) :
    c.formatChars (.finite x) = c.sign (.finite x) ++ (c.symbol.toList ++
      (groupThousands (fixedParts x.units c.places).1 ++
        pointed (fixedParts x.units c.places).2)) := by
  simp [formatChars, parts, sign, pointed]

theorem isAmountChar_of_mem_sign {c : Currency} {amount : Binary64} {d : Char}
    (h : d ∈ c.sign amount) : isAmountChar d = true := by
  unfold sign at h
  split at h
  next =>
    rw [List.mem_singleton.1 h]
    rfl
  next => cases h

theorem digits_eq_self {cs : List Char} (h : ',' ∉ cs) : digits cs = cs := by
  rw [digits, List.filter_eq_self]
  intro d hd
  simpa using fun heq : d = ',' => h (heq ▸ hd)

/-- Cleaning takes the symbol off a text, and the commas of what is left. -/
theorem clean_append {c : Currency} (hsymbol : Apart c.symbol) (hcode : Apart c.code)
    {front body : List Char} (hfront : ∀ d ∈ front, isAmountChar d = true)
    (hbody : ∀ d ∈ body, isAmountChar d = true) :
    c.clean (front ++ (c.symbol.toList ++ body)) = digits (front ++ body) := by
  have hrest : ∀ d ∈ front ++ body, isAmountChar d = true :=
    List.forall_mem_append.2 ⟨hfront, hbody⟩
  have hblank : ∀ d ∈ front ++ (c.symbol.toList ++ body), Text.isBlank d = false := by
    simp only [List.forall_mem_append]
    exact ⟨fun d hd => not_blank_of_isAmountChar (hfront d hd), fun d hd => (hsymbol d hd).2,
      fun d hd => not_blank_of_isAmountChar (hbody d hd)⟩
  rw [clean, Text.trim_of_forall_not_blank hblank,
    removeAll_append_piece (free_of_apart hsymbol hfront) (free_of_apart hsymbol hbody),
    removeAll_of_free (free_of_apart hcode hrest)]
  apply List.filter_congr
  intro d hd
  simp [not_blank_of_isAmountChar (hrest d hd)]

theorem not_mem_of_digits {ds : List Char} (h : ∀ d ∈ ds, isDigit d = true) : ',' ∉ ds :=
  fun hmem => absurd (h _ hmem) (by decide)

theorem not_mem_sign (c : Currency) (amount : Binary64) : ',' ∉ c.sign amount := by
  unfold sign
  split <;> decide

theorem not_mem_pointed {ds : List Char} (h : ∀ d ∈ ds, isDigit d = true) : ',' ∉ pointed ds := by
  unfold pointed
  split
  · decide
  · simpa using not_mem_of_digits h

/-- An amount has a text for as many places as numbers can be written with.  The whole digits are
in groups there, and cleaning the text gives the sign and the digits back. -/
theorem clean_format {c : Currency} (hsymbol : Apart c.symbol) (hcode : Apart c.code)
    (x : Finite64) :
    (c.formatOrFault (.finite x) = .ok (c.format (.finite x)) ↔ c.places ≤ maxPlaces) ∧
      c.clean (c.format (.finite x)).toList = c.sign (.finite x) ++ fixedText x.units c.places ∧
      ∃ grouped, Grouped (fixedParts x.units c.places).1 grouped ∧
        (c.format (.finite x)).toList = c.sign (.finite x) ++ (c.symbol.toList ++
          (grouped ++ pointed (fixedParts x.units c.places).2)) := by
  have hwhole : ∀ d ∈ (fixedParts x.units c.places).1, isDigit d = true :=
    fun _ hd => isDigit_of_mem_fixedParts (.inl hd)
  have hfraction : ∀ d ∈ (fixedParts x.units c.places).2, isDigit d = true :=
    fun _ hd => isDigit_of_mem_fixedParts (.inr hd)
  have hbody : ∀ d ∈ groupThousands (fixedParts x.units c.places).1 ++
      pointed (fixedParts x.units c.places).2, isAmountChar d = true :=
    List.forall_mem_append.2 ⟨fun _ => isAmountChar_of_mem_groupThousands hwhole,
      fun _ => isAmountChar_of_mem_pointed hfraction⟩
  have htext : (c.format (.finite x)).toList = _ :=
    String.toList_ofList.trans (c.formatChars_finite x)
  have hplaces : c.formatOrFault (.finite x) = .ok (c.format (.finite x)) ↔
      c.places ≤ maxPlaces := by
    unfold formatOrFault
    split <;> simp_all
  refine ⟨hplaces, ?_, _, grouped_groupThousands (not_mem_of_digits hwhole), htext⟩
  rw [htext, clean_append hsymbol hcode (fun _ => isAmountChar_of_mem_sign) hbody, digits_append,
    digits_append, digits_groupThousands (not_mem_of_digits hwhole),
    digits_eq_self (not_mem_sign c _), digits_eq_self (not_mem_pointed hfraction), fixedText]

/-- Minus a million and more euros, with half a cent that is rounded to the even digit. -/
theorem clean_format_euros :
    let x : Finite64 := ⟨true, 4698053237146648576, by decide⟩
    eur.formatOrFault (.finite x) = .ok "-€1,234,567.12" ∧
      eur.clean "-€1,234,567.12".toList = "-1234567.12".toList ∧
      ∃ grouped, Grouped "1234567".toList grouped ∧
        "-€1,234,567.12".toList = '-' :: '€' :: (grouped ++ ".12".toList) := by
  intro x
  have hformat : eur.format (.finite x) = "-€1,234,567.12" := by decide +kernel
  have hsign : eur.sign (.finite x) = ['-'] := by decide +kernel
  have hparts : fixedParts x.units eur.places = ("1234567".toList, "12".toList) := by
    decide +kernel
  have h := clean_format (c := eur) (by decide) (by decide) x
  rw [fixedText, hformat, hsign, hparts] at h
  obtain ⟨hok, hclean, grouped, hgrouped, htext⟩ := h
  exact ⟨hok.2 (by decide), hclean, grouped, hgrouped, htext⟩

end TokenGrammar.Currency
