import Mathlib.Tactic.Ring
import Mathlib.Order.Monotone.Basic
import TokenGrammar.Numeric.Binary64

/-!
# Rounding to the nearest code

The magnitudes of the codes lie in order, and a quotient is rounded to the code whose
neighbourhood it is in: it passes a code where it lies behind the middle between that code and
the next one, or in the middle with the next code even.  All else that is said about rounded
quotients follows from this one comparison: a quotient that is a magnitude is left as it is, equal
quotients are rounded alike, and greater ones to no smaller code.
-/

namespace TokenGrammar.Binary64

/-! ## The magnitudes of the codes -/

theorem unitsOfCode_eq {shift mantissa : Nat} (hle : mantissa ≤ 2 ^ 53)
    (hnormal : shift = 0 ∨ 2 ^ 52 ≤ mantissa) :
    unitsOfCode (shift * 2 ^ 52 + mantissa) = mantissa * 2 ^ shift := by
  unfold unitsOfCode
  simp only [Nat.pow_eq]
  by_cases hcarry : mantissa = 2 ^ 53
  · have hshift : (shift * 2 ^ 52 + mantissa) / 2 ^ 52 - 1 = shift + 1 := by omega
    have hrest : shift * 2 ^ 52 + mantissa - (shift + 1) * 2 ^ 52 = 2 ^ 52 := by omega
    rw [hshift, hrest, hcarry, Nat.pow_succ]
    ring
  · have hshift : (shift * 2 ^ 52 + mantissa) / 2 ^ 52 - 1 = shift := by omega
    rw [hshift, Nat.add_sub_cancel_left]

/-- Every code is a shift and a mantissa of 53 bits, whose first bit is set if it is shifted. -/
theorem exists_shift_mantissa (code : Nat) : ∃ shift mantissa,
    code = shift * 2 ^ 52 + mantissa ∧ mantissa < 2 ^ 53 ∧ (shift = 0 ∨ 2 ^ 52 ≤ mantissa) :=
  ⟨code / 2 ^ 52 - 1, code - (code / 2 ^ 52 - 1) * 2 ^ 52, by omega, by omega, by omega⟩

theorem unitsOfCode_strictMono : StrictMono unitsOfCode := by
  apply strictMono_nat_of_lt_succ
  intro code
  obtain ⟨shift, mantissa, rfl, hlt, hnormal⟩ := exists_shift_mantissa code
  rw [unitsOfCode_eq (by omega) hnormal, Nat.add_assoc, unitsOfCode_eq (by omega) (by omega)]
  exact Nat.mul_lt_mul_of_pos_right (Nat.lt_succ_self _) (Nat.two_pow_pos shift)

theorem unitsOfCode_zero : unitsOfCode 0 = 0 := by decide

theorem unitsOfCode_eq_zero_iff {code : Nat} : unitsOfCode code = 0 ↔ code = 0 := by
  rw [← unitsOfCode_zero]
  exact unitsOfCode_strictMono.injective.eq_iff

theorem unitsPerOne_pos : 0 < unitsPerOne := by decide +kernel

/-- A number of units with at most 53 significant bits is the magnitude of a code. -/
theorem exists_unitsOfCode {bits : Nat} (hbits : bits ≤ 2 ^ 53) (shift : Nat) :
    ∃ code, unitsOfCode code = bits * 2 ^ shift := by
  induction shift generalizing bits with
  | zero =>
      have hunits := unitsOfCode_eq hbits (.inl (Eq.refl 0))
      rw [Nat.zero_mul, Nat.zero_add] at hunits
      exact ⟨bits, hunits⟩
  | succ shift ih =>
      by_cases hnormal : 2 ^ 52 ≤ bits
      · exact ⟨_, unitsOfCode_eq hbits (.inr hnormal)⟩
      · obtain ⟨code, hcode⟩ := ih (show 2 * bits ≤ 2 ^ 53 by omega)
        exact ⟨code, by rw [hcode, Nat.pow_succ]; ring⟩

/-! ## Rounded quotients -/

theorem middle_lt_of_lt_div {num den k : Nat} (h : k < num / den) :
    (2 * k + 1) * den < 2 * num := by
  have hden : 0 < den := Nat.pos_of_ne_zero fun hzero => by simp [hzero] at h
  calc (2 * k + 1) * den < (2 * k + 1) * den + den := by omega
    _ = 2 * ((k + 1) * den) := by ring
    _ ≤ 2 * num := Nat.mul_le_mul_left 2 ((Nat.le_div_iff_mul_le hden).1 h)

theorem lt_middle_of_div_lt {num den k : Nat} (hden : 0 < den) (h : num / den < k) :
    2 * num < (2 * k + 1) * den := by
  have hless := (Nat.div_lt_iff_lt_mul hden).1 h
  calc 2 * num < 2 * (k * den) + den := by omega
    _ = (2 * k + 1) * den := by ring

theorem middle_div_add_mod (num den : Nat) :
    (2 * (num / den) + 1) * den + 2 * (num % den) = 2 * num + den := by
  calc (2 * (num / den) + 1) * den + 2 * (num % den)
      = 2 * (den * (num / den) + num % den) + den := by ring
    _ = 2 * num + den := by rw [Nat.div_add_mod]

/-- A quotient is rounded past an integer if it lies behind the middle to the next one, or in the
middle with the next one even. -/
theorem lt_roundHalfEven_iff {den : Nat} (hden : 0 < den) (num k : Nat) :
    k < roundHalfEven num den ↔
      (2 * k + 1) * den < 2 * num ∨ (2 * k + 1) * den = 2 * num ∧ k % 2 = 1 := by
  unfold roundHalfEven
  rcases Nat.lt_trichotomy k (num / den) with hlt | rfl | hgt
  · have hmiddle := middle_lt_of_lt_div hlt
    grind
  · have hmiddle := middle_div_add_mod num den
    grind
  · have hmiddle := lt_middle_of_div_lt hden hgt
    grind

/-- A quotient is rounded past an integer if it lies in the middle to the next one or behind. -/
theorem lt_roundHalfUp_iff {den : Nat} (hden : 0 < den) (num k : Nat) :
    k < roundHalfUp num den ↔ (2 * k + 1) * den ≤ 2 * num := by
  unfold roundHalfUp
  rcases Nat.lt_trichotomy k (num / den) with hlt | rfl | hgt
  · have hmiddle := middle_lt_of_lt_div hlt
    grind
  · have hmiddle := middle_div_add_mod num den
    grind
  · have hmiddle := lt_middle_of_div_lt hden hgt
    grind

theorem le_roundHalfEven {num den k : Nat} (hden : 0 < den) (h : k * den ≤ num) :
    k ≤ roundHalfEven num den := by
  cases k with
  | zero => exact Nat.zero_le _
  | succ k =>
      refine (lt_roundHalfEven_iff hden num k).2 (.inl ?_)
      calc (2 * k + 1) * den < (2 * k + 1) * den + den := by omega
        _ = 2 * ((k + 1) * den) := by ring
        _ ≤ 2 * num := by omega

theorem roundHalfEven_le {num den k : Nat} (hden : 0 < den) (h : num ≤ k * den) :
    roundHalfEven num den ≤ k := by
  by_contra hmore
  have hpast := (lt_roundHalfEven_iff hden num k).1 (by omega)
  have hmiddle : (2 * k + 1) * den = 2 * (k * den) + den := by ring
  omega

theorem roundHalfEven_mul (k : Nat) {den : Nat} (hden : 0 < den) :
    roundHalfEven (k * den) den = k :=
  Nat.le_antisymm (roundHalfEven_le hden (Nat.le_refl _)) (le_roundHalfEven hden (Nat.le_refl _))

/-- The shift that a magnitude is rounded at leaves 53 bits of it, or all if there are fewer. -/
theorem shift_bounds {units shift : Nat} (h : units.log2 - 52 = shift) :
    units < 2 ^ 53 * 2 ^ shift ∧ (shift = 0 ∨ 2 ^ 52 * 2 ^ shift ≤ units) := by
  have hupper := Nat.lt_log2_self (n := units)
  constructor
  · rw [← Nat.pow_add]
    exact Nat.lt_of_lt_of_le hupper (Nat.pow_le_pow_right (by decide) (by omega))
  · by_cases hzero : shift = 0
    · exact .inl hzero
    · right
      have hne : units ≠ 0 := by
        rintro rfl
        simp at h
        omega
      rw [← Nat.pow_add, show 52 + shift = units.log2 by omega]
      exact Nat.log2_self_le hne

/-- The middle between a code and the next one, in halves of a unit. -/
def middle (code : Nat) : Nat := unitsOfCode code + unitsOfCode (code + 1)

theorem middle_eq {shift mantissa : Nat} (hlt : mantissa < 2 ^ 53)
    (hnormal : shift = 0 ∨ 2 ^ 52 ≤ mantissa) :
    middle (shift * 2 ^ 52 + mantissa) = (2 * mantissa + 1) * 2 ^ shift := by
  rw [middle, Nat.add_assoc, unitsOfCode_eq (by omega) hnormal,
    unitsOfCode_eq (by omega) (by omega)]
  ring

theorem middle_lt {code other : Nat} (h : code < other) : middle code < 2 * unitsOfCode other := by
  have hcode := unitsOfCode_strictMono h
  have hsucc : unitsOfCode (code + 1) ≤ unitsOfCode other :=
    unitsOfCode_strictMono.monotone h
  rw [middle]
  omega

theorem lt_middle {code other : Nat} (h : code ≤ other) : 2 * unitsOfCode code < middle other := by
  have hother := unitsOfCode_strictMono.monotone h
  have hsucc : unitsOfCode other < unitsOfCode (other + 1) :=
    unitsOfCode_strictMono (Nat.lt_succ_self other)
  rw [middle]
  omega

/-- A quotient is rounded past a code if it lies behind the middle to the next one, or in the
middle with the next one even. -/
theorem lt_codeOfRatio_iff {den : Nat} (hden : 0 < den) (num code : Nat) :
    code < codeOfRatio num den ↔ middle code * den < 2 * (num * unitsPerOne) ∨
      middle code * den = 2 * (num * unitsPerOne) ∧ code % 2 = 1 := by
  unfold codeOfRatio
  simp only [Nat.pow_eq]
  generalize num * unitsPerOne = units
  generalize hshift : (units / den).log2 - 52 = shift
  obtain ⟨hupper, hlower⟩ := shift_bounds hshift
  rw [Nat.div_lt_iff_lt_mul hden, Nat.mul_assoc, Nat.mul_comm _ den] at hupper
  rw [Nat.le_div_iff_mul_le hden, Nat.mul_assoc, Nat.mul_comm _ den] at hlower
  have hpos : 0 < den * 2 ^ shift := Nat.mul_pos hden (Nat.two_pow_pos shift)
  have hscale (code : Nat) (mantissa : Nat) (h : unitsOfCode code = mantissa * 2 ^ shift) :
      2 * unitsOfCode code * den = 2 * mantissa * (den * 2 ^ shift) := by
    rw [h]
    ring
  generalize hscaled : den * 2 ^ shift = scaled at *
  -- The rounded mantissa has 53 bits or is the power of two behind them.
  have hmost : roundHalfEven units scaled ≤ 2 ^ 53 := roundHalfEven_le hpos hupper.le
  by_cases hbehind : shift * 2 ^ 52 + 2 ^ 53 ≤ code
  · have hend := hscale _ _ (unitsOfCode_eq (Nat.le_refl (2 ^ 53)) (.inr (by decide)))
    have hmiddle := Nat.mul_lt_mul_of_pos_right (lt_middle hbehind) hden
    omega
  by_cases hwithin : shift = 0 ∨ shift * 2 ^ 52 + 2 ^ 52 ≤ code
  · obtain ⟨m, rfl⟩ := Nat.exists_eq_add_of_le (show shift * 2 ^ 52 ≤ code by omega)
    have hmiddle : middle (shift * 2 ^ 52 + m) * den = (2 * m + 1) * scaled := by
      rw [middle_eq (by omega) (by omega), ← hscaled]
      ring
    rw [hmiddle, Nat.add_lt_add_iff_left, lt_roundHalfEven_iff hpos]
    omega
  · have hleast : 2 ^ 52 ≤ roundHalfEven units scaled :=
      le_roundHalfEven hpos (hlower.resolve_left fun hzero => hwithin (.inl hzero))
    have hstart := hscale _ _ (unitsOfCode_eq (show 2 ^ 52 ≤ 2 ^ 53 by decide)
      (.inr (Nat.le_refl _)))
    have hmiddle := Nat.mul_lt_mul_of_pos_right
      (middle_lt (show code < shift * 2 ^ 52 + 2 ^ 52 by omega)) hden
    omega

theorem le_codeOfRatio {num den code : Nat} (hden : 0 < den)
    (h : unitsOfCode code * den ≤ num * unitsPerOne) : code ≤ codeOfRatio num den := by
  cases code with
  | zero => exact Nat.zero_le _
  | succ code =>
      have hmiddle := Nat.mul_lt_mul_of_pos_right (middle_lt (show code < code + 1 by omega)) hden
      rw [Nat.mul_assoc] at hmiddle
      exact (lt_codeOfRatio_iff hden num code).2 (.inl (by omega))

theorem codeOfRatio_le {num den code : Nat} (hden : 0 < den)
    (h : num * unitsPerOne ≤ unitsOfCode code * den) : codeOfRatio num den ≤ code := by
  by_contra hmore
  have hpast := (lt_codeOfRatio_iff hden num code).1 (Nat.lt_of_not_le hmore)
  have hmiddle := Nat.mul_lt_mul_of_pos_right (lt_middle (Nat.le_refl code)) hden
  rw [Nat.mul_assoc] at hmiddle
  omega

/-- A quotient that is the magnitude of a code is rounded to it. -/
theorem codeOfRatio_of_exact {num den code : Nat} (hden : 0 < den)
    (h : num * unitsPerOne = unitsOfCode code * den) : codeOfRatio num den = code :=
  Nat.le_antisymm (codeOfRatio_le hden h.le) (le_codeOfRatio hden h.ge)

/-- Greater quotients are rounded to no smaller code. -/
theorem codeOfRatio_mono {num den num' den' : Nat} (hden : 0 < den) (hden' : 0 < den')
    (h : num * den' ≤ num' * den) : codeOfRatio num den ≤ codeOfRatio num' den' := by
  by_contra hless
  have hpast := (lt_codeOfRatio_iff hden num _).1 (Nat.lt_of_not_le hless)
  have hnot := mt (lt_codeOfRatio_iff hden' num' _).2 (Nat.lt_irrefl _)
  generalize codeOfRatio num' den' = code at hpast hnot
  have hunits : 2 * (num * unitsPerOne) * den' ≤ 2 * (num' * unitsPerOne) * den := by
    calc 2 * (num * unitsPerOne) * den' = 2 * unitsPerOne * (num * den') := by ring
      _ ≤ 2 * unitsPerOne * (num' * den) := Nat.mul_le_mul_left _ h
      _ = 2 * (num' * unitsPerOne) * den := by ring
  have hmiddle : middle code * den * den' = middle code * den' * den := by ring
  rcases Nat.lt_trichotomy (middle code * den') (2 * (num' * unitsPerOne)) with hlt | heq | hgt
  · exact hnot (.inl hlt)
  · rcases hpast with hpast | ⟨-, hodd⟩
    · have hscaled := Nat.mul_lt_mul_of_pos_right hpast hden'
      rw [hmiddle, heq] at hscaled
      omega
    · exact hnot (.inr ⟨heq, hodd⟩)
  · have hle : middle code * den ≤ 2 * (num * unitsPerOne) := by omega
    have hscaled := Nat.mul_le_mul_right den' hle
    have hscaled' := Nat.mul_lt_mul_of_pos_right hgt hden
    omega

/-- Equal quotients are rounded alike. -/
theorem codeOfRatio_congr {num den num' den' : Nat} (hden : 0 < den) (hden' : 0 < den')
    (h : num * den' = num' * den) : codeOfRatio num den = codeOfRatio num' den' :=
  Nat.le_antisymm (codeOfRatio_mono hden hden' h.le) (codeOfRatio_mono hden' hden h.ge)

end TokenGrammar.Binary64
