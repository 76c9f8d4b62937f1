import TokenGrammar.Proofs.Boxer.Currency
import TokenGrammar.Proofs.Boxer.Scale

/-!
# Signs of amounts

The digits of an amount come from its exact value and its sign from the scaled one.  Main result:
an amount below zero that shows a digit other than zero always has its sign, and one that shows
zeros only has it just where exact and scaled amount are rounded apart.
-/

namespace TokenGrammar

open Binary64

namespace Decimal

/-! ## Digits other than zero -/

theorem exists_ne_zero_iff (width n : Nat) : (∃ d ∈ zeroPadded width n, d ≠ '0') ↔ n ≠ 0 := by
  constructor
  · rintro ⟨d, hd, hne⟩ rfl
    rcases List.mem_append.1 hd with hzero | hzero
    · exact hne (List.eq_of_mem_replicate hzero)
    · exact hne (List.mem_singleton.1 hzero)
  · intro hne
    by_contra hnone
    have hzeros : zeroPadded width n = List.replicate (zeroPadded width n).length '0' := by
      rw [List.eq_replicate_iff]
      refine ⟨rfl, fun d hd => ?_⟩
      by_contra hd'
      exact hnone ⟨d, hd, hd'⟩
    have hread := natOfDigits_zeroPadded width n
    rw [hzeros] at hread
    exact hne (hread.symm.trans (foldl_readDigit_zeros _))

end Decimal

namespace Currency

open Decimal

variable {c : Currency} {x : Finite64}

def StartsWithMinus (text : String) : Prop := text.toList.head? = some '-'

instance (text : String) : Decidable (StartsWithMinus text) :=
  inferInstanceAs (Decidable (text.toList.head? = some '-'))

/-- The text shows a digit other than zero. -/
def ShowsDigit (text : String) : Prop := ∃ d ∈ text.toList, isDigit d = true ∧ d ≠ '0'

instance (text : String) : Decidable (ShowsDigit text) :=
  List.decidableBEx (fun d => isDigit d = true ∧ d ≠ '0') text.toList

theorem toList_format (c : Currency) (x : Finite64) : (c.format (.finite x)).toList =
    c.sign (.finite x) ++ (c.symbol.toList ++ (groupThousands (fixedParts x.units c.places).1 ++
      pointed (fixedParts x.units c.places).2)) :=
  String.toList_ofList.trans (c.formatChars_finite x)

theorem mem_pointed_iff {ds : List Char} {d : Char} (h : d ≠ '.') : d ∈ pointed ds ↔ d ∈ ds := by
  unfold pointed
  split
  next hnil => rw [hnil]
  next => simp [h]

theorem mem_groupThousands_iff {ds : List Char} (hds : ',' ∉ ds) {d : Char} (h : d ≠ ',') :
    d ∈ groupThousands ds ↔ d ∈ ds := by
  constructor
  · intro hd
    exact (eq_comma_or_mem_of_mem_groupThousands hds hd).resolve_left h
  · intro hd
    rw [← digits_groupThousands hds] at hd
    exact (List.mem_filter.1 hd).1

/-- The digits of a text are those of the amount. -/
theorem showsDigit_format_iff (hsymbol : ∀ d ∈ c.symbol.toList, isDigit d = false) :
    ShowsDigit (c.format (.finite x)) ↔ unitsPerOne < 2 * (x.units * 10 ^ c.places) := by
  have hrounded : 0 < roundHalfEven (x.units * Nat.pow 10 c.places) unitsPerOne ↔
      unitsPerOne < 2 * (x.units * 10 ^ c.places) := by
    rw [lt_roundHalfEven_iff unitsPerOne_pos, Nat.pow_eq]
    omega
  have hdigits := exists_ne_zero_iff (c.places + 1)
    (roundHalfEven (x.units * Nat.pow 10 c.places) unitsPerOne)
  rw [← fixedParts_append] at hdigits
  rw [← hrounded, Nat.pos_iff_ne_zero, ← hdigits]
  have hwhole : ',' ∉ (fixedParts x.units c.places).1 :=
    not_mem_of_digits fun _ hd => isDigit_of_mem_fixedParts (.inl hd)
  apply exists_congr
  intro d
  have hshown (hd : isDigit d = true) : d ∈ (c.format (.finite x)).toList ↔
      d ∈ (fixedParts x.units c.places).1 ++ (fixedParts x.units c.places).2 := by
    have hnot {e : Char} (he : isDigit e = false) : d ≠ e := by
      rintro rfl
      rw [hd] at he
      cases he
    have hsign : d ∉ c.sign (.finite x) := by
      unfold sign
      split
      · simpa using hnot (e := '-') rfl
      · exact List.not_mem_nil
    have hsymbol' : d ∉ c.symbol.toList := fun hmem => hnot (hsymbol d hmem) rfl
    simp only [toList_format, List.mem_append, hsign, hsymbol', false_or,
      mem_groupThousands_iff hwhole (hnot (e := ',') rfl), mem_pointed_iff (hnot (e := '.') rfl)]
  constructor
  · rintro ⟨hmem, hd, hne⟩
    exact ⟨(hshown hd).1 hmem, hne⟩
  · rintro ⟨hmem, hne⟩
    have hd := isDigit_of_mem_fixedParts (List.mem_append.1 hmem)
    exact ⟨(hshown hd).2 hmem, hd, hne⟩

/-- A text has a minus sign in front where the amount has one. -/
theorem startsWithMinus_format_iff (hsymbol : '-' ∉ c.symbol.toList) :
    StartsWithMinus (c.format (.finite x)) ↔
      x.signedUnits < 0 ∧ (c.round (.finite x)).isNonzero = true := by
  have hnegative : (Binary64.finite x).isNegativeNonzero = true ↔ x.signedUnits < 0 := by
    have hcode : x.code = 0 ↔ x.units = 0 := Finite64.units_eq_zero_iff.symm
    simp only [isNegativeNonzero, Finite64.signedUnits, Bool.and_eq_true, bne_iff_ne, ne_eq, hcode]
    cases x.negative <;> simp [Nat.pos_iff_ne_zero]
  have hminus {ds : List Char} (hds : ∀ d ∈ ds, isDigit d = true) : '-' ∉ ds :=
    fun hmem => absurd (hds _ hmem) (by decide)
  have hwhole : ∀ d ∈ (fixedParts x.units c.places).1, isDigit d = true :=
    fun _ hd => isDigit_of_mem_fixedParts (.inl hd)
  have hfraction : ∀ d ∈ (fixedParts x.units c.places).2, isDigit d = true :=
    fun _ hd => isDigit_of_mem_fixedParts (.inr hd)
  have hbody : '-' ∉ c.symbol.toList ++ (groupThousands (fixedParts x.units c.places).1 ++
      pointed (fixedParts x.units c.places).2) := by
    simp only [List.mem_append, hsymbol, mem_pointed_iff (show '-' ≠ '.' by decide),
      mem_groupThousands_iff (not_mem_of_digits hwhole) (show '-' ≠ ',' by decide),
      hminus hwhole, hminus hfraction, or_self, not_false_iff]
  rw [StartsWithMinus, toList_format, sign, ← hnegative, ← Bool.and_eq_true]
  split
  next hsign => simp [hsign]
  next hsign =>
    rw [List.nil_append]
    exact iff_of_false (fun hhead => hbody (List.mem_of_head? hhead)) hsign

/-- An amount has a minus sign where it is below zero and shows a digit other than zero, or the
exact and the scaled amount are rounded apart; it shows zeros only then.  Up to 22 places the two
part just where the amount is at most one half of the last place and less than so little below. -/
theorem startsWithMinus_iff {text : String}
    (hsymbol : ∀ d ∈ c.symbol.toList, d ≠ '-' ∧ isDigit d = false)
    (htext : c.formatOrFault (.finite x) = .ok text) :
    (StartsWithMinus text ↔ x.signedUnits < 0 ∧ (ShowsDigit text ∨ RoundsApart c x)) ∧
      (RoundsApart c x → ¬ ShowsDigit text) ∧
      (c.places ≤ 22 → (RoundsApart c x ↔
        1 / 2 - 1 / 2 ^ 55 ≤ x.magnitude * 10 ^ c.places ∧
          x.magnitude * 10 ^ c.places ≤ 1 / 2)) := by
  have hplaces : c.places ≤ maxPlaces := by
    by_contra hmore
    rw [formatOrFault, if_neg hmore] at htext
    cases htext
  rw [formatOrFault, if_pos hplaces] at htext
  obtain rfl := Except.ok.inj htext
  have hminus : '-' ∉ c.symbol.toList := fun hmem => (hsymbol _ hmem).1 rfl
  have hdigits := showsDigit_format_iff (x := x) fun d hd => (hsymbol d hd).2
  refine ⟨?_, ?_, ?_⟩
  · rw [startsWithMinus_format_iff hminus, hdigits]
    apply and_congr_right
    intro hnegative
    apply isNonzero_round_iff_exceeds hplaces
    intro hzero
    simp [Finite64.signedUnits, hzero] at hnegative
  · intro hapart
    rw [hdigits, exceeds_iff, not_lt]
    exact hapart.1
  · intro hfew
    obtain ⟨s, hscale⟩ := exists_scale hfew
    have hpos : (unitsPerOne : ℚ) ≠ 0 := by exact_mod_cast unitsPerOne_pos.ne'
    have hmagnitude : s.magnitude = 10 ^ c.places := by
      rw [Finite64.magnitude, units_scale hfew hscale]
      push_cast
      field_simp
    rw [RoundsApart, hscale, ← hmagnitude, and_comm]
    simp

theorem symbol_jpy : ∀ d ∈ jpy.symbol.toList, d ≠ '-' ∧ isDigit d = false :=
  List.forall_mem_singleton.2 (by decide)

/-- Half a yen less than nothing is rounded to one yen and shown as none. -/
theorem startsWithMinus_iff_halfYen :
    let x : Finite64 := ⟨true, halfCode, by decide⟩
    jpy.formatOrFault (.finite x) = .ok "-¥0" ∧ ¬ ShowsDigit "-¥0" ∧ RoundsApart jpy x := by
  intro x
  have htext : jpy.formatOrFault (.finite x) = .ok "-¥0" := by decide +kernel
  have hzeros : ¬ ShowsDigit "-¥0" := by decide
  have hminus : StartsWithMinus "-¥0" := by decide
  obtain ⟨hiff, -, -⟩ := startsWithMinus_iff symbol_jpy htext
  exact ⟨htext, hzeros, (hiff.1 hminus).2.resolve_left hzeros⟩

/-- So a minus sign may stand in front of zeros only. -/
theorem startsWithMinus_zeros :
    let x : Finite64 := ⟨true, halfCode, by decide⟩
    jpy.formatOrFault (.finite x) = .ok "-¥0" ∧ (∀ d ∈ jpy.symbol.toList, d ≠ '-' ∧
      isDigit d = false) ∧ ¬ (StartsWithMinus "-¥0" ↔ x.signedUnits < 0 ∧ ShowsDigit "-¥0") := by
  intro x
  have htext : jpy.formatOrFault (.finite x) = .ok "-¥0" := by decide +kernel
  refine ⟨htext, symbol_jpy, fun hiff => ?_⟩
  have hdigit := (hiff.1 (by decide)).2
  exact absurd hdigit (by decide)

end Currency

end TokenGrammar
