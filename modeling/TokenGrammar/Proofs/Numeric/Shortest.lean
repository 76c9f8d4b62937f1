import TokenGrammar.Proofs.Numeric.Arithmetic
import TokenGrammar.Proofs.Numeric.Padded

/-!
# The shortest decimal

The code that a decimal is read as depends on its value only, so that zeros may be taken off its
end or put there.  Main result: the shortest decimal of a code is read as that code.
-/

namespace TokenGrammar.Decimal

open Binary64

/-! ## The number of digits -/

theorem length_natText_le_iff {n width : Nat} (hwidth : 0 < width) :
    (natText n).length ≤ width ↔ n < 10 ^ width := by
  constructor
  · intro hle
    have hlt : natOfDigits (natText n) < 10 ^ (natText n).length :=
      natOfDigits_lt fun _ => isDigit_of_mem_natText
    rw [natOfDigits_natText] at hlt
    exact Nat.lt_of_lt_of_le hlt (Nat.pow_le_pow_right (by decide) hle)
  · intro hlt
    exact length_natText_le hlt hwidth

theorem length_natText_mul_ten {n : Nat} (hn : n ≠ 0) :
    (natText (n * 10)).length = (natText n).length + 1 := by
  have hpos := length_natText_pos n
  have hpos' := length_natText_pos (n * 10)
  apply Nat.le_antisymm
  · have hless := (length_natText_le_iff hpos).1 (Nat.le_refl _)
    rw [length_natText_le_iff (Nat.succ_pos _), Nat.pow_succ]
    exact Nat.mul_lt_mul_of_pos_right hless (by decide)
  · obtain ⟨width, hwidth⟩ := Nat.exists_eq_add_one_of_ne_zero hpos'.ne'
    have hless := (length_natText_le_iff hpos').1 (Nat.le_refl _)
    rw [hwidth, Nat.pow_succ] at hless
    have hshort : n < 10 ^ width := Nat.lt_of_mul_lt_mul_right hless
    have hwidth' : 0 < width := by
      apply Nat.pos_of_ne_zero
      rintro rfl
      rw [Nat.pow_zero] at hshort
      omega
    rw [hwidth]
    exact Nat.succ_le_succ ((length_natText_le_iff hwidth').2 hshort)

/-! ## The code of a decimal -/

/-- The code that a decimal is read as, the least infinite one where it is too great. -/
def codeOf (d : Decimal) : Nat :=
  let place : Int := (natText d.digits).length + d.exponent
  if d.digits = 0 ∨ place ≤ -330 then 0
  else if 310 < place then infinityCode
  else codeOfRatio (d.digits * 10 ^ d.exponent.toNat) (10 ^ (-d.exponent).toNat)

theorem toBinary64_eq (negative : Bool) (d : Decimal) :
    d.toBinary64 negative = ofCode negative (codeOf d) := by
  have hinfinite : ofCode negative infinityCode = .infinite negative := dif_neg (Nat.lt_irrefl _)
  unfold toBinary64 codeOf
  simp only [Nat.pow_eq, ofRatio]
  split
  · rfl
  · split
    · exact hinfinite.symm
    · rfl

theorem ofCode_inj {negative : Bool} {code other : Nat} (hlt : code < infinityCode)
    (h : ofCode negative other = ofCode negative code) : other = code := by
  rw [ofCode, ofCode, dif_pos hlt] at h
  split at h
  · simpa using h
  · cases h

theorem readsBack_iff {d : Decimal} {code : Nat} (hlt : code < infinityCode) :
    d.readsBack code = true ↔ codeOf d = code := by
  rw [readsBack, toBinary64_eq, beq_iff_eq]
  exact ⟨ofCode_inj hlt, congrArg _⟩

/-- A zero behind the digits changes the exponent but not the code. -/
theorem codeOf_mul_ten (digits : Nat) (exponent : Int) :
    codeOf ⟨digits * 10, exponent - 1⟩ = codeOf ⟨digits, exponent⟩ := by
  by_cases hzero : digits = 0
  · simp [codeOf, hzero]
  have hplace : ((natText (digits * 10)).length : Int) + (exponent - 1) =
      (natText digits).length + exponent := by
    rw [length_natText_mul_ten hzero]
    omega
  have hratio : codeOfRatio (digits * 10 * 10 ^ (exponent - 1).toNat)
      (10 ^ (-(exponent - 1)).toNat) =
        codeOfRatio (digits * 10 ^ exponent.toNat) (10 ^ (-exponent).toNat) := by
    by_cases hpos : 0 < exponent
    · rw [show exponent.toNat = (exponent - 1).toNat + 1 by omega, Nat.pow_succ,
        show (-(exponent - 1)).toNat = (-exponent).toNat by omega]
      congr 1
      ring
    · apply codeOfRatio_congr (Nat.pow_pos (by decide)) (Nat.pow_pos (by decide))
      rw [show (-(exponent - 1)).toNat = (-exponent).toNat + 1 by omega,
        show exponent.toNat = 0 by omega, show (exponent - 1).toNat = 0 by omega, Nat.pow_succ]
      ring
  have hne : digits * 10 ≠ 0 := by omega
  simp only [codeOf, hplace, hzero, hne, hratio]

theorem codeOf_mul_pow (digits zeros : Nat) (exponent : Int) :
    codeOf ⟨digits * 10 ^ zeros, exponent - zeros⟩ = codeOf ⟨digits, exponent⟩ := by
  induction zeros with
  | zero => simp
  | succ zeros ih =>
      rw [← ih, ← codeOf_mul_ten (digits * 10 ^ zeros), Nat.pow_succ, Nat.mul_assoc]
      congr 2
      omega

theorem codeOf_stripZeros (d : Decimal) : codeOf d.stripZeros = codeOf d := by
  suffices hgo : ∀ rounds d, codeOf (stripZeros.go rounds d) = codeOf d from hgo _ d
  intro rounds
  induction rounds with
  | zero => exact fun _ => rfl
  | succ rounds ih =>
      intro d
      rw [stripZeros.go]
      split
      next hzero =>
        have hshift := codeOf_mul_ten (d.digits / 10) (d.exponent + 1)
        rw [ih, ← hshift, Nat.div_mul_cancel (Nat.dvd_of_mod_eq_zero hzero.1), Int.add_sub_cancel]
      next => rfl

/-! ## The shortest decimal -/

theorem roundHalfEven_cases (num den : Nat) :
    roundHalfEven num den = num / den ∨ roundHalfEven num den = num / den + 1 := by
  unfold roundHalfEven
  grind

/-- A decimal on a grid is one that reads back. -/
theorem readsBack_of_onGrid? {code places : Nat} {d : Decimal} (h : onGrid? code places = some d) :
    d.readsBack code = true := by
  -- Opened as a function, because at its arguments it would be evaluated down to the digits.
  obtain ⟨grid, hgrid⟩ : ∃ grid, grid = onGrid? := ⟨_, rfl⟩
  rw [← hgrid] at h
  delta onGrid? at hgrid
  subst hgrid
  dsimp only at h
  generalize (-(scale code - places)).toNat = shift at h
  generalize (scale code - places).toNat = shift' at h
  generalize scale code - places = exponent at h
  generalize unitsOfCode code * Nat.pow 10 shift = num at h
  generalize unitsPerOne * Nat.pow 10 shift' = den at h
  have hnearest := roundHalfEven_cases num den
  generalize roundHalfEven num den = nearest at h hnearest
  generalize num / den = quotient at h hnearest
  cases hbelow : readsBack ⟨quotient, exponent⟩ code <;>
    cases habove : readsBack ⟨quotient + 1, exponent⟩ code <;>
    rw [hbelow, habove] at h
  case false.false => cases h
  case false.true =>
    obtain rfl := Option.some.inj h
    exact habove
  case true.false =>
    obtain rfl := Option.some.inj h
    exact hbelow
  case true.true =>
    obtain rfl := Option.some.inj h
    rcases hnearest with rfl | rfl
    · exact hbelow
    · exact habove

/-- The places of a unit, with bounds for the digits of an exact decimal. -/
theorem exists_exact_bounds : ∃ places least most : Nat,
    places = 1074 ∧ least = 744 ∧ most = 1384 ∧ Nat.pow 5 1074 = 5 ^ places ∧
      unitsPerOne = 2 ^ places ∧ 10 ^ least ≤ 5 ^ places ∧
      unitsOfCode infinityCode * 5 ^ places ≤ 10 ^ most :=
  ⟨1074, 744, 1384, rfl, rfl, rfl, by decide +kernel, by decide +kernel, by decide +kernel,
    by decide +kernel⟩

/-- The exact decimal of a code is read as that code. -/
theorem codeOf_exact {code : Nat} (hne : code ≠ 0) (hlt : code < infinityCode) :
    codeOf (exact code) = code := by
  obtain ⟨places, least, most, hplaces, hleast, hmost, hfives, htwos, hlow, hhigh⟩ :=
    exists_exact_bounds
  have hpos : 0 < unitsOfCode code := Nat.pos_of_ne_zero (mt unitsOfCode_eq_zero_iff.1 hne)
  have hexact : exact code = ⟨unitsOfCode code * 5 ^ places, -places⟩ := by
    rw [exact, hfives]
    exact congrArg _ (by omega)
  have hmany : least < (natText (unitsOfCode code * 5 ^ places)).length := by
    by_contra hfew
    have hless := (length_natText_le_iff (by omega)).1 (Nat.le_of_not_lt hfew)
    have hmore := Nat.le_mul_of_pos_left (5 ^ places) hpos
    omega
  have hfew : (natText (unitsOfCode code * 5 ^ places)).length ≤ most := by
    rw [length_natText_le_iff (by omega)]
    exact Nat.lt_of_lt_of_le (Nat.mul_lt_mul_of_pos_right (unitsOfCode_strictMono hlt)
      (Nat.pow_pos (by decide))) hhigh
  have hdigits : unitsOfCode code * 5 ^ places ≠ 0 :=
    (Nat.mul_pos hpos (Nat.pow_pos (by decide))).ne'
  rw [hexact, codeOf]
  dsimp only
  rw [if_neg (by omega), if_neg (by omega), show (-(places : Int)).toNat = 0 by omega,
    show (-(-(places : Int))).toNat = places by omega]
  apply codeOfRatio_of_exact (Nat.pow_pos (by decide))
  calc unitsOfCode code * 5 ^ places * 10 ^ 0 * unitsPerOne
      = unitsOfCode code * (5 ^ places * 2 ^ places) := by
        rw [htwos]
        ring
    _ = unitsOfCode code * 10 ^ places := by rw [← Nat.mul_pow]

theorem codeOf_shortest {code : Nat} (hne : code ≠ 0) (hlt : code < infinityCode) :
    codeOf (shortest code) = code := by
  rw [shortest, codeOf_stripZeros]
  cases hfound : (List.range 17).findSome? fun n => onGrid? code (n + 1) with
  | none => exact codeOf_exact hne hlt
  | some d =>
      obtain ⟨n, -, hgrid⟩ := List.exists_of_findSome?_eq_some hfound
      exact (readsBack_iff hlt).1 (readsBack_of_onGrid? hgrid)

end TokenGrammar.Decimal
