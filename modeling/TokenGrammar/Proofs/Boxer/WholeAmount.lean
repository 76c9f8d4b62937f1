import TokenGrammar.Proofs.Boxer.Currency
import TokenGrammar.Proofs.Numeric.Reading

/-!
# Amounts without places

Main result: without places, the text of a boxed amount is the integer nearest to the amount, and
so is the key as long as 64 signed bits hold that integer.  A greater one is clamped in the key
only, so that key and text part there.
-/

namespace TokenGrammar

open Binary64

/-- The integer nearest to a number, a half away from zero. -/
def Finite64.nearest (x : Finite64) : Int :=
  let whole : Int := roundHalfUp x.units unitsPerOne
  if x.negative then -whole else whole

namespace Decimal

theorem intText_eq (negative : Bool) (whole : Nat) :
    intText (if negative then -(whole : Int) else whole) =
      (if negative && whole != 0 then ['-'] else []) ++ natText whole := by
  unfold intText
  cases negative with
  | false =>
    have hnot : ¬ (whole : Int) < 0 := by omega
    simp [hnot]
  | true =>
    by_cases hzero : whole = 0
    · subst hzero
      rfl
    · simp [hzero]

theorem intText_inj {i j : Int} (h : intText i = intText j) : i = j := by
  have hread := readInteger?_intText i
  rw [h, readInteger?_intText] at hread
  exact (Option.some.inj hread).symm

end Decimal

namespace Currency

open Decimal

variable {c : Currency}

/-- The text of an amount without the symbol and the commas. -/
def bare (c : Currency) (text : String) : List Char :=
  digits (removeAll c.symbol.toList text.toList)

/-- An integer clamped to 64 signed bits. -/
def clamp (i : Int) : Int := max (-2 ^ 63) (min (2 ^ 63 - 1) i)

theorem clamp_bounds (i : Int) : -2 ^ 63 ≤ clamp i ∧ clamp i < 2 ^ 63 := by
  unfold clamp
  omega

theorem clamp_eq_self_iff {i : Int} : clamp i = i ↔ -2 ^ 63 ≤ i ∧ i < 2 ^ 63 := by
  unfold clamp
  omega

/-! ## Rounding without places -/

theorem round_of_places_zero (hplaces : c.places = 0) (x : Finite64) :
    c.round (.finite x) = (Binary64.finite x).round := by
  have hscale : c.scale = one := by
    rw [scale, hplaces]
    decide +kernel
  obtain ⟨r, hround, -⟩ := round_finite x
  rw [round, hscale, finite_mul_one, hround, finite_div_one]

/-- What is integral is its own nearest integer. -/
theorem round_of_whole {r : Finite64} {k : Nat} (hr : r.units = k * unitsPerOne) :
    (Binary64.finite r).round = .finite r := by
  obtain ⟨again, hround, hnegative, hunits⟩ := round_finite r
  rw [hr, roundHalfUp_mul k unitsPerOne_pos, ← hr] at hunits
  rw [hround, Finite64.eq_of_units hnegative hunits]

theorem fixedParts_of_whole (k : Nat) : fixedParts (k * unitsPerOne) 0 = (natText k, []) := by
  have hwhole : roundHalfEven (k * unitsPerOne) unitsPerOne = k :=
    roundHalfEven_mul k unitsPerOne_pos
  have hlength := length_natText_pos k
  have hpad : padLeft '0' 1 (natText k) = natText k := by
    rw [padLeft, Nat.sub_eq_zero_of_le hlength]
    rfl
  simp [fixedParts, hwhole, hpad]

theorem sign_of_whole {r : Finite64} {k : Nat} (hplaces : c.places = 0)
    (hr : r.units = k * unitsPerOne) :
    c.sign (.finite r) = if r.negative && k != 0 then ['-'] else [] := by
  have hzero : r.code = 0 ↔ k = 0 := by
    rw [← Finite64.units_eq_zero_iff, hr, Nat.mul_eq_zero]
    have := unitsPerOne_pos
    omega
  rw [sign, round_of_places_zero hplaces, round_of_whole hr]
  simp [isNegativeNonzero, isNonzero, bne, hzero]

/-- The text of an integral amount is the integer with the symbol behind its sign. -/
theorem bare_format {r : Finite64} {k : Nat} (hplaces : c.places = 0)
    (hsymbol : ∀ d ∈ c.symbol.toList, isDigit d = false ∧ d ≠ ',' ∧ d ≠ '-')
    (hr : r.units = k * unitsPerOne) :
    c.bare (c.format (.finite r)) = intText (if r.negative then -(k : Int) else k) := by
  have hcomma : ',' ∉ natText k := not_mem_of_digits fun _ => isDigit_of_mem_natText
  have hsign : Free c.symbol.toList (c.sign (.finite r)) := by
    intro d hd hmem
    rw [sign_of_whole hplaces hr] at hd
    split at hd
    · exact (hsymbol d hmem).2.2 (List.mem_singleton.1 hd)
    · cases hd
  have hwhole : Free c.symbol.toList (groupThousands (natText k)) := by
    intro d hd hmem
    rcases eq_comma_or_mem_of_mem_groupThousands hcomma hd with rfl | hdigit
    · exact (hsymbol _ hmem).2.1 rfl
    · have hnot := (hsymbol d hmem).1
      rw [isDigit_of_mem_natText hdigit] at hnot
      cases hnot
  have hbody : pointed [] = [] := rfl
  rw [bare, format, String.toList_ofList, formatChars_finite, hplaces, hr, fixedParts_of_whole,
    hbody, List.append_nil, removeAll_append_piece hsign hwhole, digits_append,
    digits_groupThousands hcomma, digits_eq_self (not_mem_sign c _), sign_of_whole hplaces hr,
    intText_eq]

theorem toInt64_of_whole {r : Finite64} {k : Nat} (hr : r.units = k * unitsPerOne) :
    (Binary64.finite r).toInt64 = clamp (if r.negative then -(k : Int) else k) := by
  simp only [toInt64, hr, Nat.mul_div_cancel k unitsPerOne_pos]
  rfl

theorem text_ofInt {i : Int} (h : -2 ^ 63 ≤ i ∧ i < 2 ^ 63) : (Json.ofInt i).text = intText i := by
  have hwide : -Int.pow 2 63 ≤ i ∧ i < Int.pow 2 64 := by
    simp only [Int.pow_eq]
    omega
  have hint : WideInt.ofInt? i = some ⟨i, hwide.1, hwide.2⟩ := dif_pos hwide
  rw [Json.ofInt, Number.ofInt, hint]
  rfl

theorem exists_finite_of_amount? {raw : Json} {amount : Binary64}
    (h : c.amount? raw = some amount) :
    ∃ x, amount = .finite x := by
  cases raw with
  | str s =>
      obtain ⟨n, -, hn⟩ := Option.map_eq_some_iff.1 h
      exact ⟨_, hn.symm⟩
  | num n => exact ⟨_, (Option.some.inj h).symm⟩
  | null | bool b | arr items | obj fields => cases h

/-- An amount with a key and a text is boxed with both, and the code. -/
theorem box_of_key_of_text {raw : Json} {amount : Binary64} {key : Json} {text : String}
    (hamount : c.amount? raw = some amount)
    (hkey : c.key? (c.round amount) = some key)
    (htext : c.formatOrFault (c.round amount) = .ok text) (options : List Choice) :
    (Boxer.currency c).box raw options = .ok (some
      { Choice.ofKey key with
        metadata := .obj [("currency", .str c.code)], label := some text }) := by
  change Boxer.boxCurrency c raw options = _
  simp only [Boxer.boxCurrency, hamount, hkey, htext, Except.map]

/-- A boxed amount is an integral number, as key and as text. -/
theorem box_of_places_zero (hplaces : c.places = 0) {raw : Json} {options : List Choice}
    {choice : Choice} (hbox : (Boxer.currency c).box raw options = .ok (some choice)) :
    ∃ x r : Finite64, c.amount? raw = some (.finite x) ∧ r.negative = x.negative ∧
      r.units = roundHalfUp x.units unitsPerOne * unitsPerOne ∧
      choice.key = .ofInt (Binary64.finite r).toInt64 ∧
      choice.display = c.format (.finite r) := by
  change Boxer.boxCurrency c raw options = _ at hbox
  unfold Boxer.boxCurrency at hbox
  cases hamount : c.amount? raw with
  | none => simp [hamount] at hbox
  | some amount =>
    obtain ⟨x, rfl⟩ := exists_finite_of_amount? hamount
    obtain ⟨r, hround, hnegative, hunits⟩ := round_finite x
    rw [← round_of_places_zero hplaces] at hround
    have hmax : c.places ≤ maxPlaces := by omega
    refine ⟨x, r, rfl, hnegative, hunits, ?_⟩
    simp only [hamount, hround, key?, if_pos hplaces, formatOrFault, if_pos hmax,
      Except.map] at hbox
    obtain rfl := Option.some.inj (Except.ok.inj hbox)
    exact ⟨rfl, rfl⟩

/-- Without places, the text of a boxed amount is the nearest integer, and the key is that integer
clamped to 64 signed bits.  So text and key are one number just where the integer fits them. -/
theorem text_eq_key_iff (hplaces : c.places = 0)
    (hsymbol : ∀ d ∈ c.symbol.toList, isDigit d = false ∧ d ≠ ',' ∧ d ≠ '-')
    {raw : Json} {options : List Choice} {choice : Choice}
    (hbox : (Boxer.currency c).box raw options = .ok (some choice)) :
    ∃ x, c.amount? raw = some (.finite x) ∧
      choice.key = .ofInt (clamp x.nearest) ∧
      c.bare choice.display = intText x.nearest ∧
      (c.bare choice.display = choice.key.text ↔ -2 ^ 63 ≤ x.nearest ∧ x.nearest < 2 ^ 63) := by
  obtain ⟨x, r, hamount, hnegative, hunits, hkey, hdisplay⟩ := box_of_places_zero hplaces hbox
  have hnearest : (if r.negative then -(roundHalfUp x.units unitsPerOne : Int)
      else roundHalfUp x.units unitsPerOne) = x.nearest := by
    rw [hnegative]
    rfl
  rw [toInt64_of_whole hunits, hnearest] at hkey
  have hbare : c.bare choice.display = intText x.nearest := by
    rw [hdisplay, bare_format hplaces hsymbol hunits, hnearest]
  refine ⟨x, hamount, hkey, hbare, ?_⟩
  rw [hbare, hkey, text_ofInt (clamp_bounds _), ← clamp_eq_self_iff]
  constructor
  · intro htext
    exact (intText_inj htext).symm
  · intro hclamp
    rw [hclamp]

/-- Typed yen are rounded, and text and key are the same integer. -/
theorem text_eq_key_iff_yen :
    ∃ choice, (Boxer.currency jpy).box (.str "¥12,345.6") [] = .ok (some choice) ∧
      choice.display = "¥12,346" ∧ jpy.bare choice.display = choice.key.text := by
  have hamount : jpy.amount? (.str "¥12,345.6") =
      some (.finite ⟨false, 0x40C81CCCCCCCCCCD, by decide⟩) := by decide +kernel
  have hround : jpy.round (.finite ⟨false, 0x40C81CCCCCCCCCCD, by decide⟩) =
      .finite ⟨false, 0x40C81D0000000000, by decide⟩ := by decide +kernel
  have hkey : jpy.key? (.finite ⟨false, 0x40C81D0000000000, by decide⟩) = some (.ofInt 12346) :=
    congrArg (fun i => some (Json.ofInt i)) (show Binary64.toInt64 _ = 12346 by decide +kernel)
  have hformat : jpy.formatOrFault (.finite ⟨false, 0x40C81D0000000000, by decide⟩) =
      .ok "¥12,346" := by decide +kernel
  rw [← hround] at hkey hformat
  have hbox := box_of_key_of_text hamount hkey hformat []
  refine ⟨_, hbox, rfl, ?_⟩
  have hsymbol : ∀ d ∈ jpy.symbol.toList, isDigit d = false ∧ d ≠ ',' ∧ d ≠ '-' :=
    List.forall_mem_singleton.2 (by decide)
  obtain ⟨y, hy, -, -, hiff⟩ := text_eq_key_iff rfl hsymbol hbox
  rw [hamount] at hy
  obtain rfl := Binary64.finite.inj (Option.some.inj hy)
  exact hiff.2 (by decide +kernel)

/-- The least whole number of yen that 64 signed bits do not hold is one less in the key. -/
theorem text_ne_key :
    ∃ choice,
      (Boxer.currency jpy).box (.num (.int ⟨9223372036854775808, by decide, by decide⟩)) [] =
        .ok (some choice) ∧
      choice.key = .ofInt 9223372036854775807 ∧ choice.display = "¥9,223,372,036,854,775,808" ∧
      jpy.bare choice.display ≠ choice.key.text := by
  have hamount : jpy.amount? (.num (.int ⟨9223372036854775808, by decide, by decide⟩)) =
      some (.finite ⟨false, 0x43E0000000000000, by decide⟩) := by decide +kernel
  have hround : jpy.round (.finite ⟨false, 0x43E0000000000000, by decide⟩) =
      .finite ⟨false, 0x43E0000000000000, by decide⟩ := by decide +kernel
  have hkey : jpy.key? (.finite ⟨false, 0x43E0000000000000, by decide⟩) =
      some (.ofInt 9223372036854775807) :=
    congrArg (fun i => some (Json.ofInt i))
      (show Binary64.toInt64 _ = 9223372036854775807 by decide +kernel)
  have hformat : jpy.formatOrFault (.finite ⟨false, 0x43E0000000000000, by decide⟩) =
      .ok "¥9,223,372,036,854,775,808" := by decide +kernel
  rw [← hround] at hkey hformat
  exact ⟨_, box_of_key_of_text hamount hkey hformat [], rfl, rfl, by decide +kernel⟩

end Currency

end TokenGrammar
