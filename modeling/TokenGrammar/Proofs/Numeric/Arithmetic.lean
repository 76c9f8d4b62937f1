import TokenGrammar.Proofs.Numeric.Rounding

/-!
# Operations without a rounding error

An operation whose exact result is a finite number gives that number.  So multiplying and dividing
by one change nothing, and the nearest integral number of a finite number is always finite, with
the same sign.
-/

namespace TokenGrammar

namespace Finite64

open Binary64

theorem eq_of_units {x y : Finite64} (hnegative : x.negative = y.negative)
    (hunits : x.units = y.units) : x = y := by
  have hcode : x.code = y.code := unitsOfCode_strictMono.injective hunits
  cases x
  cases y
  simp_all

theorem units_eq_zero_iff {x : Finite64} : x.units = 0 ↔ x.code = 0 := unitsOfCode_eq_zero_iff

theorem units_lt (x : Finite64) : x.units < unitsOfCode infinityCode :=
  unitsOfCode_strictMono x.code_lt

end Finite64

namespace Binary64

open Finite64

/-! ## Results that are numbers -/

theorem ofCode_code (x : Finite64) : ofCode x.negative x.code = .finite x := dif_pos x.code_lt

theorem ofRatio_of_exact {x : Finite64} {num den : Nat} (hden : 0 < den)
    (h : num * unitsPerOne = x.units * den) : ofRatio x.negative num den = .finite x := by
  rw [ofRatio, codeOfRatio_of_exact hden h, ofCode_code]

/-- The number one. -/
def unit : Finite64 := ⟨false, 1023 * Nat.pow 2 52, by decide⟩

theorem units_unit : unit.units = unitsPerOne := by decide +kernel

theorem one_eq : one = .finite unit := by
  have hone : one = ofRatio unit.negative 1 1 := rfl
  rw [hone, ofRatio_of_exact Nat.one_pos]
  rw [units_unit, Nat.one_mul, Nat.mul_one]

theorem mul_finite (x y : Finite64) : (finite x).mul (finite y) =
    ofRatio (x.negative != y.negative) (x.units * y.units) (unitsPerOne * unitsPerOne) := rfl

theorem div_finite (x : Finite64) {y : Finite64} (hy : y.units ≠ 0) :
    (finite x).div (finite y) = ofRatio (x.negative != y.negative) x.units y.units :=
  if_neg (mt units_eq_zero_iff.2 hy)

theorem finite_mul_one (x : Finite64) : (finite x).mul one = .finite x := by
  have hsign : (x.negative != unit.negative) = x.negative := Bool.bne_false _
  rw [one_eq, mul_finite, hsign]
  apply ofRatio_of_exact (Nat.mul_pos unitsPerOne_pos unitsPerOne_pos)
  rw [units_unit, Nat.mul_assoc]

theorem finite_div_one (x : Finite64) : (finite x).div one = .finite x := by
  have hsign : (x.negative != unit.negative) = x.negative := Bool.bne_false _
  have hunit : unit.units ≠ 0 := by
    rw [units_unit]
    exact unitsPerOne_pos.ne'
  rw [one_eq, div_finite x hunit, hsign, units_unit]
  exact ofRatio_of_exact unitsPerOne_pos rfl

/-! ## The nearest integral number -/

theorem roundHalfUp_mul (k : Nat) {den : Nat} (hden : 0 < den) : roundHalfUp (k * den) den = k := by
  simp [roundHalfUp, Nat.mul_div_cancel _ hden, hden]

theorem exists_finite (negative : Bool) {units : Nat} (hcode : ∃ code, unitsOfCode code = units)
    (hlt : units < unitsOfCode infinityCode) :
    ∃ x : Finite64, x.negative = negative ∧ x.units = units := by
  obtain ⟨code, rfl⟩ := hcode
  exact ⟨⟨negative, code, unitsOfCode_strictMono.lt_iff_lt.1 hlt⟩, rfl, rfl⟩

theorem roundHalfUp_le {num den k : Nat} (hden : 0 < den) (h : num ≤ k * den) :
    roundHalfUp num den ≤ k := by
  by_contra hmore
  have hpast := (lt_roundHalfUp_iff hden num k).1 (Nat.lt_of_not_le hmore)
  have hmiddle : (2 * k + 1) * den = 2 * (k * den) + den := by ring
  omega

theorem exists_unitsPerOne_eq : ∃ places, unitsPerOne = 2 ^ places := by
  unfold unitsPerOne
  generalize 1074 = places
  exact ⟨places, Nat.pow_eq⟩

/-- The number of units in the integer nearest to a number of units is one itself: the same one
where no bits are lost, and else one with few bits. -/
theorem exists_code_nearest (x : Finite64) :
    (∃ code, unitsOfCode code = roundHalfUp x.units unitsPerOne * unitsPerOne) ∧
      roundHalfUp x.units unitsPerOne * unitsPerOne < unitsOfCode infinityCode := by
  obtain ⟨shift, mantissa, hcode, hlt, hnormal⟩ := exists_shift_mantissa x.code
  have hunits : x.units = mantissa * 2 ^ shift := by
    rw [units, hcode, unitsOfCode_eq hlt.le hnormal]
  obtain ⟨places, hplaces⟩ := exists_unitsPerOne_eq
  by_cases hwhole : places ≤ shift
  · have hsame : x.units = mantissa * 2 ^ (shift - places) * unitsPerOne := by
      rw [hunits, hplaces, Nat.mul_assoc, ← Nat.pow_add, Nat.sub_add_cancel hwhole]
    rw [hsame, roundHalfUp_mul _ unitsPerOne_pos, ← hsame]
    exact ⟨⟨x.code, rfl⟩, x.units_lt⟩
  · have hfew : roundHalfUp x.units unitsPerOne ≤ 2 ^ 53 := by
      apply roundHalfUp_le unitsPerOne_pos
      rw [hunits, hplaces]
      exact Nat.mul_le_mul hlt.le (Nat.pow_le_pow_right (by decide) (by omega))
    refine ⟨?_, ?_⟩
    · obtain ⟨code, hunits⟩ := exists_unitsOfCode hfew places
      exact ⟨code, by rw [hunits, ← hplaces]⟩
    · have hbound : 2 ^ 53 * unitsPerOne < unitsOfCode infinityCode := by decide +kernel
      exact Nat.lt_of_le_of_lt (Nat.mul_le_mul_right _ hfew) hbound

theorem round_finite (x : Finite64) : ∃ r : Finite64, (finite x).round = .finite r ∧
    r.negative = x.negative ∧ r.units = roundHalfUp x.units unitsPerOne * unitsPerOne := by
  obtain ⟨hcode, hlt⟩ := exists_code_nearest x
  obtain ⟨r, hnegative, hunits⟩ := exists_finite x.negative hcode hlt
  refine ⟨r, ?_, hnegative, hunits⟩
  change ofRatio x.negative _ 1 = _
  rw [← hnegative, ofRatio_of_exact Nat.one_pos (by rw [hunits, Nat.mul_one])]

end Binary64

end TokenGrammar
